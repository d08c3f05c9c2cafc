import QnxTutorial.MutexRecovery.Invariant

/-!
# The parent recovers the mutex

**Theorem (`recovers`).** The parent is blocked exactly if the mutex could not be made robust. It
says that it has recovered the mutex only after the child has died with it, and leaves it free. A
run has twelve steps at most, and if nothing else goes wrong, then the parent does recover a robust
mutex.
-/

namespace QnxTutorial.MutexRecovery

open RobustMutex hiding Inv

variable {s s' : System}

/-! ## Nobody runs forever -/

/-- The steps that a process has left. -/
def ParentPc.left : ParentPc → Nat
  | .setup .shmOpen => 9
  | .setup .ftruncate => 8
  | .setup .mmap => 7
  | .setup .mutexInit => 6
  | .fork => 5
  | .waitpid => 4
  | .lock => 3
  | .consistent => 2
  | .unlock => 1
  | .exited _ => 0

def ChildPc.left : ChildPc → Nat
  | .notForked | .lock => 3
  | .printf => 2
  | .exit => 1
  | .exited _ | .killed => 0

def System.left (s : System) : Nat := s.parent.left + s.child.left

theorem ParentPc.left_pos {p : ParentPc} (h : ∀ status, p ≠ .exited status) : 0 < p.left := by
  cases p with
  | setup call => cases call <;> exact Nat.succ_pos _
  | fork | waitpid | lock | consistent | unlock => exact Nat.succ_pos _
  | exited status => exact (h status rfl).elim

theorem ParentAct.left (ha : ParentAct s s') (h : Sound s) : s'.left < s.left := by
  cases ha with
  | @setup call hp =>
    show call.next.left + _ < s.parent.left + _
    rw [hp]
    cases call <;> exact Nat.add_lt_add_right (Nat.lt_succ_self _) _
  | fork hp =>
    show ParentPc.waitpid.left + ChildPc.lock.left < s.parent.left + s.child.left
    rw [hp, (h.phase.beforeFork (.inl hp)).1]
    decide
  | childDied hp | told hp | consistent hp =>
    apply Nat.add_lt_add_right
    rw [hp]
    exact Nat.lt_succ_self _
  | locked hp | unlock hp =>
    apply Nat.add_lt_add_right
    exact ParentPc.left_pos (by simp [hp])
  | fails _ hp => exact Nat.add_lt_add_right (ParentPc.left_pos hp) _
  | leaves hp =>
    apply Nat.add_lt_add_right
    apply ParentPc.left_pos
    rcases hp with ⟨hp, -⟩ | hp <;> simp [hp]

theorem ChildAct.left (ha : ChildAct s s') : s'.left < s.left := by
  cases ha with
  | fails hc | refused hc | lock hc | prints hc | exits hc =>
    apply Nat.add_lt_add_left
    rw [hc]
    simp [ChildPc.left, exitChild]
  | killed hc =>
    apply Nat.add_lt_add_left
    rcases hc with hc | hc | hc <;> rw [hc] <;> simp [ChildPc.left]

theorem step_left {e : Event} (h : Sound s) (hst : step s e = some s') : s'.left < s.left := by
  cases e with
  | parent fails => exact (parent_act hst).left h
  | child fails => exact (child_act hst).left
  | kill => exact (kill_act hst).left

/-- **A run has twelve steps at most.** -/
theorem length_le {h : List (System × Event)} (hrun : processes.Run h s) : h.length ≤ 12 := by
  have hleft : h.length + s.left ≤ 12 := by
    refine hrun.length_le ?_ fun h s e hrun ha => step_left (sound_of_run hrun) (next_eq ha)
    rintro s ⟨robust, rfl⟩
    exact Nat.le_refl 12
  omega

/-! ## The theorem -/

/-- The parent waits for the mutex, and nobody will ever unlock it. -/
def Blocked (s : System) : Prop := s.parent = .lock ∧ s.mutex.lock .parent = none

/-- The child has died with the mutex, and it can be used again. -/
def Recovered (s : System) : Prop :=
  s.parent = .exited .success ∧ s.child = .exited .success ∧
    s.output = [.childExiting, .parentRecovered] ∧ s.mutex.state = .free

/-- No call fails, and nobody is killed. -/
def Event.Undisturbed (e : Event) : Prop := e = .parent false ∨ e = .child false

instance : DecidablePred Event.Undisturbed :=
  fun _ => inferInstanceAs (Decidable (_ ∨ _))

/-- Nobody can go on. -/
def Stuck (s : System) : Prop := ∀ e : Event, e.Undisturbed → step s e = none

theorem Sound.blocked_iff (h : Sound s) :
    Blocked s ↔ s.parent = .lock ∧ s.mutex.robust = false := by
  refine and_congr_right fun hp => ?_
  have hdied := (h.phase.atLock (.inl hp)).1
  cases hrobust : s.mutex.robust with
  | false =>
    refine iff_of_true ?_ rfl
    rw [Mutex.lock, h.childDied hdied (congrArg ParentPc.user hp), hrobust]
    rfl
  | true =>
    refine iff_of_false ?_ (by simp)
    have hnobody : ∀ p, s.seen.user p ≠ .inside ∧ s.seen.user p ≠ .recovering := by
      intro p
      cases p with
      | parent =>
        rw [show s.seen.user .parent = .out from congrArg ParentPc.user hp]
        simp
      | child =>
        rw [show s.seen.user .child = .dead from congrArg ChildPc.user hdied]
        simp
    obtain ⟨mutex, ret, hlock, -⟩ := h.mutex.lock_of_nobody_inside hrobust hnobody .parent
    rw [show s.mutex.lock .parent = _ from hlock]
    simp

theorem Phase.of_recovered {p : ParentPc} {c : ChildPc} {output : List Line}
    (h : Phase p c output) (hmem : .parentRecovered ∈ output) :
    c = .exited .success ∧ output = [.childExiting, .parentRecovered] := by
  cases h with
  | recovered => exact ⟨rfl, rfl⟩
  | setup | fork | notForked => cases hmem
  | running _ _ _ hprinted | childFailed _ hprinted => exact (hprinted.not_recovered hmem).elim
  | childDied => simp at hmem

/-- In a run that is not disturbed the parent ends well or not at all, and the child ends well. -/
structure Calm (s : System) : Prop where
  parent : ∀ status, s.parent = .exited status → status = .success ∧ .parentRecovered ∈ s.output
  child : s.child ≠ .exited .failure ∧ s.child ≠ .killed

theorem Calm.parent_step (h : Calm s) (hs : Sound s)
    (hst : MutexRecovery.parent false s = some s') : Calm s' := by
  unfold MutexRecovery.parent at hst
  cases hp : s.parent with
  | setup call =>
    simp only [hp, Option.some.injEq] at hst
    cases hst
    refine ⟨?_, h.child⟩
    intro status hstatus
    cases call <;> cases hstatus
  | fork =>
    simp only [hp, Option.some.injEq] at hst
    cases hst
    exact ⟨by simp, by simp, by simp⟩
  | waitpid =>
    simp only [hp] at hst
    cases hc : s.child with
    | exited status =>
      cases status with
      | success =>
        simp only [hc] at hst
        cases hst
        exact ⟨by simp, by simp, by simp⟩
      | failure => exact (h.child.1 hc).elim
    | killed => exact (h.child.2 hc).elim
    | notForked | lock | printf | exit => simp [hc] at hst
  | lock =>
    simp only [hp] at hst
    obtain ⟨⟨mutex, ret⟩, hlock, rfl⟩ := Option.map_eq_some_iff.1 hst
    have hstate := hs.childDied (hs.phase.atLock (.inl hp)).1 (congrArg ParentPc.user hp)
    rw [Mutex.lock, hstate, afterChild] at hlock
    cases hrobust : s.mutex.robust with
    | false => simp [hrobust] at hlock
    | true =>
      simp only [hrobust, if_true, Option.some.injEq, Prod.mk.injEq] at hlock
      obtain ⟨-, rfl⟩ := hlock
      exact ⟨by simp, h.child⟩
  | consistent =>
    simp only [hp, Mutex.consistent, if_pos (hs.inconsistent hp), Option.some.injEq] at hst
    cases hst
    exact ⟨by simp, h.child⟩
  | unlock =>
    simp only [hp, Mutex.unlock, if_pos (hs.held_parent hp), Option.some.injEq] at hst
    cases hst
    refine ⟨?_, h.child⟩
    intro status hstatus
    cases hstatus
    have hphase := hs.phase
    rw [hp] at hphase
    refine ⟨rfl, ?_⟩
    show _ ∈ s.output
    rw [hphase.atUnlock.2]
    simp
  | exited status => simp [hp] at hst

theorem Calm.child_step (h : Calm s) (hs : Sound s) (hst : MutexRecovery.child false s = some s') :
    Calm s' := by
  unfold MutexRecovery.child at hst
  cases hc : s.child with
  | lock =>
    simp only [hc, Mutex.lock, hs.fresh (.inr hc)] at hst
    cases hst
    exact ⟨h.parent, by simp, by simp⟩
  | exit =>
    simp only [hc, Option.some.injEq] at hst
    cases hst
    exact ⟨h.parent, by simp [exitChild], by simp [exitChild]⟩
  | printf =>
    simp only [hc, Option.some.injEq] at hst
    cases hst
    refine ⟨?_, by simp, by simp⟩
    intro status hstatus
    obtain ⟨hsuccess, hmem⟩ := h.parent status hstatus
    exact ⟨hsuccess, List.mem_append_left _ hmem⟩
  | notForked | exited | killed => simp [hc] at hst

theorem calm_of_run {h : List (System × Event)} (hrun : processes.Run h s)
    (hcalm : ∀ p ∈ h, p.2.Undisturbed) : Calm s := by
  induction hrun with
  | init hs =>
    obtain ⟨robust, rfl⟩ := hs
    exact ⟨nofun, nofun, nofun⟩
  | @step h s e hrun ha ih =>
    obtain ⟨hbefore, hlast⟩ := List.forall_mem_append.1 hcalm
    have hs' := next_eq ha
    have he : e = .parent false ∨ e = .child false := hlast (s, e) (List.mem_singleton_self _)
    rcases he with rfl | rfl
    · exact (ih hbefore).parent_step (sound_of_run hrun) hs'
    · exact (ih hbefore).child_step (sound_of_run hrun) hs'

/-- Where nobody can go on, the mutex has been recovered, or the parent is blocked. -/
theorem Calm.recovered_or_blocked (h : Calm s) (hs : Sound s) (hstuck : Stuck s) :
    Recovered s ∨ Blocked s := by
  have hparent : MutexRecovery.parent false s = none := hstuck (.parent false) (.inl rfl)
  have hchild : MutexRecovery.child false s = none := hstuck (.child false) (.inr rfl)
  unfold MutexRecovery.parent at hparent
  unfold MutexRecovery.child at hchild
  cases hp : s.parent with
  | setup | fork | consistent | unlock => simp [hp] at hparent
  | waitpid =>
    simp only [hp] at hparent
    cases hc : s.child with
    | notForked =>
      have hphase := hs.phase
      rw [hp, hc] at hphase
      generalize s.output = output at hphase
      cases hphase with
      | running _ hforked => exact (hforked rfl).elim
    | lock => simp [hc, Mutex.lock, hs.fresh (.inr hc)] at hchild
    | printf | exit => simp [hc] at hchild
    | exited status => cases status <;> simp [hc] at hparent
    | killed => simp [hc] at hparent
  | lock =>
    right
    refine ⟨hp, ?_⟩
    simpa [hp] using hparent
  | exited status =>
    left
    obtain ⟨rfl, hmem⟩ := h.parent status hp
    obtain ⟨hc, houtput⟩ := hs.phase.of_recovered hmem
    exact ⟨hp, hc, houtput, hs.recovered hp hmem⟩

/-- **The parent recovers the mutex.** -/
theorem recovers (h : List (System × Event)) (s : System) (hrun : processes.Run h s) :
    h.length ≤ 12 ∧ (Blocked s ↔ s.parent = .lock ∧ s.mutex.robust = false) ∧
    (.parentRecovered ∈ s.output → s.mutex.robust = true ∧ s.child = .exited .success ∧
      s.output = [.childExiting, .parentRecovered] ∧
      (s.parent = .exited .success → s.mutex.state = .free)) ∧
    ((∀ p ∈ h, p.2.Undisturbed) → Stuck s → (Recovered s ↔ s.mutex.robust = true)) := by
  have hs := sound_of_run hrun
  refine ⟨length_le hrun, hs.blocked_iff, ?_, ?_⟩
  · intro hmem
    obtain ⟨hc, houtput⟩ := hs.phase.of_recovered hmem
    exact ⟨hs.told hmem, hc, houtput, fun hexited => hs.recovered hexited hmem⟩
  · intro hcalm hstuck
    rcases (calm_of_run hrun hcalm).recovered_or_blocked hs hstuck with hrecovered | hlocked
    · refine iff_of_true hrecovered (hs.told ?_)
      rw [hrecovered.2.2.1]
      simp
    · have hrobust := (hs.blocked_iff.1 hlocked).2
      refine iff_of_false ?_ (by simp [hrobust])
      intro hrecovered
      cases hlocked.1.symm.trans hrecovered.1

/-- Everything goes well. -/
def wellEvents : List Event :=
  List.replicate 5 (.parent false) ++ List.replicate 3 (.child false) ++
    List.replicate 4 (.parent false)

theorem recovers_well :
    processes.Run (processes.trace (start true) wellEvents)
      (wellEvents.foldl processes.next (start true)) ∧
    Recovered (wellEvents.foldl processes.next (start true)) := by
  have hinit : processes.Run [] (start true) := .init ⟨true, rfl⟩
  have hallowed : ∀ p ∈ processes.trace (start true) wellEvents, processes.allowed p.1 p.2 := by
    show ∀ p ∈ processes.trace (start true) wellEvents, (step p.1 p.2).isSome
    decide
  have hrun := hinit.trace hallowed
  refine ⟨hrun, ((recovers _ _ hrun).2.2.2 ?_ ?_).2 (by decide)⟩
  · decide
  · intro e he
    rcases he with rfl | rfl <;> decide

end QnxTutorial.MutexRecovery
