import QnxTutorial.MutexRecovery.Program

/-!
# What the processes keep

The two processes use the mutex as they should (`Sound.mutex`), and what they have printed says how
far they have come (`Phase`).
-/

namespace QnxTutorial.MutexRecovery

open RobustMutex hiding Inv

/-! ## The invariant -/

/-- What the child has printed, unless it has exited with the mutex. -/
def ChildPc.Printed (c : ChildPc) (output : List Line) : Prop :=
  output = [] ∧ c ≠ .exit ∨ output = [.childExiting] ∧ (c = .exit ∨ c = .killed)

/-- How far the processes have come. -/
inductive Phase : ParentPc → ChildPc → List Line → Prop
  | setup {call : Setup} : Phase (.setup call) .notForked []
  | fork : Phase .fork .notForked []
  | notForked : Phase (.exited .failure) .notForked []
  | running {p : ParentPc} {c : ChildPc} {output : List Line} :
      p = .waitpid ∨ p = .exited .failure → c ≠ .notForked → c ≠ .exited .success →
      c.Printed output → Phase p c output
  | childFailed {c : ChildPc} {output : List Line} : c = .exited .failure ∨ c = .killed →
      c.Printed output → Phase (.exited .success) c output
  | childDied {p : ParentPc} : p.user ≠ .inside → (∀ call, p ≠ .setup call) → p ≠ .fork →
      Phase p (.exited .success) [.childExiting]
  | recovered {p : ParentPc} : p.user = .inside ∨ p.user = .dead →
      Phase p (.exited .success) [.childExiting, .parentRecovered]

/-- The mutex that the child had when it exited. -/
def afterChild (robust : Bool) : RobustMutex.State Process :=
  if robust then .orphaned else .held .child

structure Sound (s : System) : Prop where
  mutex : RobustMutex.Inv s.seen
  phase : Phase s.parent s.child s.output
  fresh : s.child = .notForked ∨ s.child = .lock → s.mutex.state = .free
  childDied : s.child = .exited .success → s.parent.user = .out →
    s.mutex.state = afterChild s.mutex.robust
  robust : s.parent.user = .recovering ∨ s.parent.user = .inside → s.mutex.robust = true
  told : .parentRecovered ∈ s.output → s.mutex.robust = true
  recovered : s.parent = .exited .success → .parentRecovered ∈ s.output → s.mutex.state = .free

variable {s s' : System}

theorem sound_start (robust : Bool) : Sound (start robust) where
  mutex := by
    refine ⟨?_, ?_, nofun, nofun, nofun⟩
    · intro p hp
      cases p <;> cases hp
    · intro p hp
      cases p <;> cases hp
  phase := .setup
  fresh _ := rfl
  childDied := nofun
  robust h := by rcases h with h | h <;> cases h
  told := nofun
  recovered := nofun

/-! ## The processes keep to the rules -/

theorem Setup.user_next (call : Setup) : call.next.user = .out := by
  cases call <;> rfl

/-- Before the fork there is no child, and nothing has been printed. -/
theorem Phase.beforeFork {p : ParentPc} {c : ChildPc} {output : List Line} (h : Phase p c output)
    (hp : p = .fork ∨ ∃ call, p = .setup call) : c = .notForked ∧ output = [] := by
  cases h with
  | setup | fork | notForked => exact ⟨rfl, rfl⟩
  | running hrunning =>
    rcases hp with rfl | ⟨call, rfl⟩ <;> rcases hrunning with hrunning | hrunning <;> cases hrunning
  | childFailed => rcases hp with hp | ⟨call, hp⟩ <;> cases hp
  | childDied _ hsetup hfork =>
    rcases hp with rfl | ⟨call, rfl⟩
    · exact (hfork rfl).elim
    · exact (hsetup call rfl).elim
  | recovered huser => rcases hp with rfl | ⟨call, rfl⟩ <;> rcases huser with h | h <;> cases h

theorem inv_exitParent {m : Mutex Process} {u : User}
    (h : RobustMutex.Inv (s.seen.set .parent m u)) (status : Exit) :
    RobustMutex.Inv (exitParent status { s with mutex := m }).seen := by
  have hseen : (exitParent status { s with mutex := m }).seen =
      s.seen.set .parent (m.die .parent) .dead := seen_parent rfl rfl rfl
  have hdie := h.die .parent
  rw [Config.set_set] at hdie
  rw [hseen]
  exact hdie

theorem inv_exitChild {m : Mutex Process} {u : User} {output : List Line}
    (h : RobustMutex.Inv (s.seen.set .child m u)) (status : Exit) :
    RobustMutex.Inv (exitChild status { s with mutex := m, output := output }).seen := by
  have hseen : (exitChild status { s with mutex := m, output := output }).seen =
      s.seen.set .child (m.die .child) .dead := seen_child rfl rfl rfl
  have hdie := h.die .child
  rw [Config.set_set] at hdie
  rw [hseen]
  exact hdie

/-- A lock that does not come back with `EOWNERDEAD` has taken a free mutex. -/
theorem eok_of_lock {p : Process} {mutex : Mutex Process} {ret : Status}
    (h : RobustMutex.Inv s.seen) (hlock : s.mutex.lock p = some (mutex, ret))
    (hret : ret ≠ .eownerdead) : ret = .eok :=
  ((h.enter hlock).2.resolve_right fun hm => hret hm.2).2

/-- **What the parent does, a user of the mutex may do.** -/
theorem ParentAct.inv (ha : ParentAct s s') (h : Sound s) : RobustMutex.Inv s'.seen := by
  have hself : s.seen.set .parent s.mutex s.parent.user = s.seen := (seen_parent rfl rfl rfl).symm
  cases ha with
  | @setup call hp =>
    have hout : s.parent.user = .out := by rw [hp]; rfl
    have hseen : ({ s with parent := call.next } : System).seen = s.seen :=
      seen_congr rfl (call.user_next.trans hout.symm) rfl
    rw [hseen]
    exact h.mutex
  | fork hp =>
    have hseen : ({ s with parent := .waitpid, child := .lock } : System).seen = s.seen := by
      refine seen_congr rfl (congrArg ParentPc.user hp).symm ?_
      rw [(h.phase.beforeFork (.inl hp)).1]
      rfl
    rw [hseen]
    exact h.mutex
  | childDied hp _ =>
    have hseen : ({ s with parent := .lock } : System).seen = s.seen :=
      seen_congr rfl (congrArg ParentPc.user hp).symm rfl
    rw [hseen]
    exact h.mutex
  | @told mutex hp hlock =>
    have hseen : ({ s with parent := .consistent, mutex := mutex } : System).seen =
        s.seen.set .parent mutex .recovering := seen_parent rfl rfl rfl
    rw [hseen]
    exact h.mutex.step (.lockDead (congrArg ParentPc.user hp) hlock)
  | @locked mutex ret hp hret hlock =>
    cases eok_of_lock h.mutex hlock hret
    exact inv_exitParent
      (h.mutex.step (.lock (congrArg ParentPc.user hp) hlock)) .success
  | @consistent mutex hp hconsistent =>
    have hseen : ({ s with parent := .unlock, mutex := mutex, output := s.output ++
        [.parentRecovered] } : System).seen = s.seen.set .parent mutex .inside :=
      seen_parent rfl rfl rfl
    rw [hseen]
    exact h.mutex.step (.consistent (congrArg ParentPc.user hp) hconsistent)
  | @unlock mutex hp hunlock =>
    exact inv_exitParent
      (h.mutex.step (.unlock (congrArg ParentPc.user hp) hunlock)) .success
  | fails => exact inv_exitParent (m := s.mutex) (hself ▸ h.mutex) .failure
  | leaves => exact inv_exitParent (m := s.mutex) (hself ▸ h.mutex) .success

/-- The child is the first to lock the mutex. -/
theorem Sound.child_eok (h : Sound s) (hc : s.child = .lock) {mutex : Mutex Process} {ret : Status}
    (hlock : s.mutex.lock .child = some (mutex, ret)) : ret = .eok := by
  rw [Mutex.lock, h.fresh (.inr hc)] at hlock
  cases hlock
  rfl

/-- **And so for the child.** -/
theorem ChildAct.inv (ha : ChildAct s s') (h : Sound s) : RobustMutex.Inv s'.seen := by
  have hself : s.seen.set .child s.mutex s.child.user = s.seen := (seen_child rfl rfl rfl).symm
  cases ha with
  | fails => exact inv_exitChild (m := s.mutex) (hself ▸ h.mutex) .failure
  | @refused mutex ret hc hret hlock => exact (hret (h.child_eok hc hlock)).elim
  | @lock mutex hc hlock =>
    have hseen : ({ s with child := .printf, mutex := mutex } : System).seen =
        s.seen.set .child mutex .inside := seen_child rfl rfl rfl
    rw [hseen]
    exact h.mutex.step (.lock (congrArg ChildPc.user hc) hlock)
  | prints hc =>
    have hseen : ({ s with child := .exit, output := s.output ++ [.childExiting] } :
        System).seen = s.seen := seen_congr rfl rfl (congrArg ChildPc.user hc).symm
    rw [hseen]
    exact h.mutex
  | exits => exact inv_exitChild (m := s.mutex) (hself ▸ h.mutex) .success
  | killed =>
    have hseen : ({ s with child := .killed, mutex := s.mutex.die .child } : System).seen =
        s.seen.set .child (s.mutex.die .child) .dead := seen_child rfl rfl rfl
    rw [hseen]
    exact h.mutex.die .child

/-! ## The invariant is kept -/

theorem Phase.fails {p : ParentPc} {c : ChildPc} {output : List Line} (h : Phase p c output) :
    Phase (.exited .failure) c output := by
  cases h with
  | setup | fork | notForked => exact .notForked
  | running _ hforked hexited hprinted => exact .running (.inr rfl) hforked hexited hprinted
  | childFailed hc hprinted =>
    rcases hc with rfl | rfl <;> exact .running (.inr rfl) nofun nofun hprinted
  | childDied => exact .childDied nofun nofun nofun
  | recovered => exact .recovered (.inr rfl)

/-- The parent locks the mutex when the child has died with it. -/
theorem Phase.atLock {p : ParentPc} {c : ChildPc} {output : List Line} (h : Phase p c output)
    (hp : p = .lock ∨ p = .consistent) : c = .exited .success ∧ output = [.childExiting] := by
  cases h with
  | childDied => exact ⟨rfl, rfl⟩
  | setup | fork | notForked | childFailed => rcases hp with hp | hp <;> cases hp
  | running hrunning =>
    rcases hp with rfl | rfl <;> rcases hrunning with hrunning | hrunning <;> cases hrunning
  | recovered huser => rcases hp with rfl | rfl <;> rcases huser with h | h <;> cases h

theorem Phase.atUnlock {c : ChildPc} {output : List Line} (h : Phase .unlock c output) :
    c = .exited .success ∧ output = [.childExiting, .parentRecovered] := by
  cases h with
  | running hrunning => rcases hrunning with hrunning | hrunning <;> cases hrunning
  | childDied hinside => exact (hinside rfl).elim
  | recovered => exact ⟨rfl, rfl⟩

/-- While the child runs, the parent waits for it, or has failed to. -/
theorem Phase.childRuns {p : ParentPc} {c : ChildPc} {output : List Line} (h : Phase p c output)
    (hc : c = .lock ∨ c = .printf ∨ c = .exit) :
    (p = .waitpid ∨ p = .exited .failure) ∧ c.Printed output := by
  cases h with
  | running hrunning _ _ hprinted => exact ⟨hrunning, hprinted⟩
  | setup | fork | notForked | childDied | recovered => rcases hc with hc | hc | hc <;> cases hc
  | childFailed hfailed =>
    rcases hc with rfl | rfl | rfl <;> rcases hfailed with h | h <;> cases h

theorem Phase.childEnded {c : ChildPc} {output : List Line} (h : Phase .waitpid c output)
    (hc : c ≠ .exited .success) : c.Printed output := by
  cases h with
  | running _ _ _ hprinted => exact hprinted
  | childDied | recovered => exact (hc rfl).elim

/-! What the child has printed -/

section Printed

variable {c c' : ChildPc} {output : List Line}

theorem ChildPc.Printed.not_recovered (h : c.Printed output) : .parentRecovered ∉ output := by
  rcases h with ⟨rfl, -⟩ | ⟨rfl, -⟩ <;> simp

theorem ChildPc.Printed.eq_nil (h : c.Printed output) (hc : c = .lock ∨ c = .printf) :
    output = [] := by
  rcases h with ⟨rfl, -⟩ | ⟨-, hc'⟩
  · rfl
  · rcases hc with rfl | rfl <;> rcases hc' with h | h <;> cases h

theorem ChildPc.Printed.of_exit (h : ChildPc.exit.Printed output) : output = [.childExiting] := by
  rcases h with ⟨-, hne⟩ | ⟨rfl, -⟩
  · exact (hne rfl).elim
  · rfl

theorem ChildPc.Printed.killed (h : c.Printed output) : ChildPc.killed.Printed output := by
  rcases h with ⟨ho, -⟩ | ⟨ho, -⟩
  · exact .inl ⟨ho, by simp⟩
  · exact .inr ⟨ho, .inr rfl⟩

end Printed

theorem ne_success_of_fresh {c : ChildPc} (hc : c = .notForked ∨ c = .lock) :
    c ≠ .exited .success := by
  rcases hc with rfl | rfl <;> simp

theorem ne_success_of_failed {c : ChildPc} (hc : c = .exited .failure ∨ c = .killed) :
    c ≠ .exited .success := by
  rcases hc with rfl | rfl <;> simp

theorem die_of_free {mutex : Mutex Process} (h : mutex.state = .free) (p : Process) :
    (mutex.die p).state = .free := by
  unfold Mutex.die
  rw [if_neg]
  · exact h
  · rw [h]
    rintro ⟨-, h | h⟩ <;> cases h

theorem ParentAct.phase (ha : ParentAct s s') (h : Sound s) :
    Phase s'.parent s'.child s'.output := by
  have hphase := h.phase
  cases ha with
  | @setup call hp =>
    obtain ⟨hc, ho⟩ := hphase.beforeFork (.inr ⟨call, hp⟩)
    show Phase call.next s.child s.output
    rw [hc, ho]
    cases call with
    | mutexInit => exact .fork
    | shmOpen | ftruncate | mmap => exact .setup
  | fork hp =>
    obtain ⟨-, ho⟩ := hphase.beforeFork (.inl hp)
    show Phase .waitpid .lock s.output
    rw [ho]
    exact .running (.inl rfl) nofun nofun (.inl ⟨rfl, nofun⟩)
  | childDied hp hc =>
    show Phase .lock s.child s.output
    rw [hp, hc] at hphase
    rw [hc]
    generalize s.output = output at hphase
    cases hphase with
    | running _ _ hexited => exact (hexited rfl).elim
    | childDied => exact .childDied nofun nofun nofun
    | recovered huser => rcases huser with h | h <;> cases h
  | told hp =>
    obtain ⟨hc, ho⟩ := hphase.atLock (.inl hp)
    show Phase .consistent s.child s.output
    rw [hc, ho]
    exact .childDied nofun nofun nofun
  | locked hp =>
    obtain ⟨hc, ho⟩ := hphase.atLock (.inl hp)
    show Phase (.exited .success) s.child s.output
    rw [hc, ho]
    exact .childDied nofun nofun nofun
  | consistent hp =>
    obtain ⟨hc, ho⟩ := hphase.atLock (.inr hp)
    show Phase .unlock s.child (s.output ++ [.parentRecovered])
    rw [hc, ho]
    exact .recovered (.inl rfl)
  | unlock hp =>
    rw [hp] at hphase
    obtain ⟨hc, ho⟩ := hphase.atUnlock
    show Phase (.exited .success) s.child s.output
    rw [hc, ho]
    exact .recovered (.inr rfl)
  | fails => exact hphase.fails
  | leaves hleaves =>
    show Phase (.exited .success) s.child s.output
    rcases hleaves with ⟨hp, hc⟩ | hp
    · rw [hp] at hphase
      exact .childFailed hc (hphase.childEnded (ne_success_of_failed hc))
    · obtain ⟨hc, ho⟩ := hphase.atLock (.inl hp)
      rw [hc, ho]
      exact .childDied nofun nofun nofun

theorem ChildAct.phase (ha : ChildAct s s') (h : Sound s) :
    Phase s'.parent s'.child s'.output := by
  have hphase := h.phase
  cases ha with
  | fails hc | refused hc | lock hc =>
    obtain ⟨hp, hprinted⟩ := hphase.childRuns (.inl hc)
    refine .running hp nofun nofun (.inl ⟨?_, nofun⟩)
    exact hprinted.eq_nil (.inl hc)
  | prints hc =>
    obtain ⟨hp, hprinted⟩ := hphase.childRuns (.inr (.inl hc))
    refine .running hp nofun nofun (.inr ⟨?_, .inl rfl⟩)
    show s.output ++ _ = _
    rw [hprinted.eq_nil (.inr hc)]
    rfl
  | killed hc =>
    obtain ⟨hp, hprinted⟩ := hphase.childRuns hc
    exact .running hp nofun nofun hprinted.killed
  | exits hc =>
    obtain ⟨hp, hprinted⟩ := hphase.childRuns (.inr (.inr hc))
    rw [hc] at hprinted
    show Phase s.parent (.exited .success) s.output
    rw [hprinted.of_exit]
    rcases hp with hp | hp <;> rw [hp] <;> exact .childDied nofun nofun nofun

theorem Sound.inconsistent (h : Sound s) (hp : s.parent = .consistent) :
    s.mutex.state = .inconsistent .parent :=
  h.mutex.recovering .parent (congrArg ParentPc.user hp)

theorem Sound.held_parent (h : Sound s) (hp : s.parent = .unlock) :
    s.mutex.state = .held .parent :=
  h.mutex.inside .parent (congrArg ParentPc.user hp)

theorem Sound.held_child (h : Sound s) (hc : s.child = .exit) :
    s.mutex.state = .held .child :=
  h.mutex.inside .child (congrArg ChildPc.user hc)

theorem ParentAct.robust (ha : ParentAct s s') : s'.mutex.robust = s.mutex.robust := by
  cases ha with
  | setup | fork | childDied => rfl
  | told _ hlock => exact Mutex.lock_robust hlock
  | locked _ _ hlock => exact (Mutex.die_robust ..).trans (Mutex.lock_robust hlock)
  | @consistent mutex hp hconsistent =>
    exact (congrArg (·.1.robust) hconsistent).symm.trans (Mutex.consistent_robust ..)
  | @unlock mutex hp hunlock =>
    refine (Mutex.die_robust ..).trans ?_
    exact (congrArg (·.1.robust) hunlock).symm.trans (Mutex.unlock_robust ..)
  | fails | leaves => exact Mutex.die_robust ..

theorem ParentAct.sound (ha : ParentAct s s') (h : Sound s) : Sound s' where
  mutex := ha.inv h
  phase := ha.phase h
  fresh hc := by
    cases ha with
    | setup hp => exact h.fresh hc
    | fork hp => exact h.fresh (.inl (h.phase.beforeFork (.inl hp)).1)
    | childDied _ hdied => exact (ne_success_of_fresh hc hdied).elim
    | told hp | locked hp =>
      exact (ne_success_of_fresh hc (h.phase.atLock (.inl hp)).1).elim
    | consistent hp => exact (ne_success_of_fresh hc (h.phase.atLock (.inr hp)).1).elim
    | unlock hp =>
      have hphase := h.phase
      rw [hp] at hphase
      exact (ne_success_of_fresh hc hphase.atUnlock.1).elim
    | fails | leaves => exact die_of_free (h.fresh hc) _
  childDied hdied hout := by
    cases ha with
    | setup hp => exact h.childDied hdied (congrArg ParentPc.user hp)
    | fork => cases hdied
    | childDied hp => exact h.childDied hdied (congrArg ParentPc.user hp)
    | told | locked | consistent | unlock | fails | leaves => cases hout
  robust huser := by
    cases ha with
    | @setup call hp =>
      rw [show (System.parent _).user = _ from call.user_next] at huser
      rcases huser with h | h <;> cases h
    | fork | childDied | locked | unlock | fails | leaves => rcases huser with h | h <;> cases h
    | @told mutex hp hlock =>
      have hstate := h.childDied (h.phase.atLock (.inl hp)).1 (congrArg ParentPc.user hp)
      show mutex.robust = true
      rw [Mutex.lock_robust hlock]
      by_contra hrobust
      rw [afterChild, if_neg hrobust] at hstate
      rw [Mutex.lock, hstate] at hlock
      cases hlock
    | @consistent mutex hp hconsistent =>
      have hrobust := h.robust (.inl (congrArg ParentPc.user hp))
      rw [Mutex.consistent, if_pos (h.inconsistent hp)] at hconsistent
      cases hconsistent
      exact hrobust
  told hmem := by
    rw [ha.robust]
    cases ha with
    | @consistent mutex hp => exact h.robust (.inl (congrArg ParentPc.user hp))
    | setup | fork | childDied | told | locked | unlock | fails | leaves => exact h.told hmem
  recovered hexited hmem := by
    cases ha with
    | @setup call => cases call <;> cases hexited
    | fork | childDied | told | consistent | fails => cases hexited
    | locked hp =>
      change _ ∈ s.output at hmem
      rw [(h.phase.atLock (.inl hp)).2] at hmem
      simp at hmem
    | @unlock mutex hp hunlock =>
      rw [Mutex.unlock, if_pos (h.held_parent hp)] at hunlock
      cases hunlock
      exact die_of_free rfl _
    | leaves hleaves =>
      change _ ∈ s.output at hmem
      rcases hleaves with ⟨hp, hc⟩ | hp
      · have hphase := h.phase
        rw [hp] at hphase
        exact ((hphase.childEnded (ne_success_of_failed hc)).not_recovered hmem).elim
      · rw [(h.phase.atLock (.inl hp)).2] at hmem
        simp at hmem

theorem ChildAct.sound (ha : ChildAct s s') (h : Sound s) : Sound s' := by
  have hrunning : (s.parent = .waitpid ∨ s.parent = .exited .failure) ∧
      s.child.Printed s.output ∧ s'.parent = s.parent := by
    have hruns : s.child = .lock ∨ s.child = .printf ∨ s.child = .exit := by
      cases ha with
      | fails hc | refused hc | lock hc => exact .inl hc
      | prints hc => exact .inr (.inl hc)
      | exits hc => exact .inr (.inr hc)
      | killed hc => exact hc
    obtain ⟨hp, hprinted⟩ := h.phase.childRuns hruns
    refine ⟨hp, hprinted, ?_⟩
    cases ha <;> rfl
  obtain ⟨hp, hprinted, hparent⟩ := hrunning
  refine ⟨ha.inv h, ha.phase h, ?_, ?_, ?_, ?_, ?_⟩
  · intro hc
    cases ha <;> rcases hc with hc | hc <;> cases hc
  · intro hdied _
    cases ha with
    | fails | refused | lock | prints | killed => cases hdied
    | exits hc =>
      have hheld := h.held_child hc
      show (s.mutex.die .child).state = afterChild (s.mutex.die .child).robust
      rw [Mutex.die_robust, Mutex.die, afterChild]
      by_cases hrobust : s.mutex.robust = true
      · rw [if_pos ⟨hrobust, .inl hheld⟩, if_pos hrobust]
      · rw [if_neg fun hdie => hrobust hdie.1, if_neg hrobust]
        exact hheld
  · intro huser
    rw [hparent] at huser
    rcases hp with hp | hp <;> rw [hp] at huser <;> rcases huser with h | h <;> cases h
  · intro hmem
    have hold : Line.parentRecovered ∈ s.output := by
      cases ha with
      | fails | refused | lock | exits | killed => exact hmem
      | prints => exact (List.mem_append.1 hmem).resolve_right (by simp)
    exact (hprinted.not_recovered hold).elim
  · intro hexited
    rw [hparent] at hexited
    rcases hp with hp | hp <;> cases hp.symm.trans hexited

theorem sound_step {e : Event} (h : Sound s) (hst : step s e = some s') : Sound s' := by
  cases e with
  | parent fails => exact (parent_act hst).sound h
  | child fails => exact (child_act hst).sound h
  | kill => exact (kill_act hst).sound h

theorem next_eq {e : Event} (ha : processes.allowed s e) :
    step s e = some (processes.next s e) := by
  obtain ⟨s', hs'⟩ := Option.isSome_iff_exists.1 ha
  rw [hs']
  show some s' = some ((step s e).getD s)
  rw [hs']
  rfl

theorem sound_of_run {h : List (System × Event)} (hrun : processes.Run h s) : Sound s := by
  apply hrun.invariant
  · rintro s ⟨robust, rfl⟩
    exact sound_start robust
  · exact fun s e ha hs => sound_step hs (next_eq ha)

end QnxTutorial.MutexRecovery
