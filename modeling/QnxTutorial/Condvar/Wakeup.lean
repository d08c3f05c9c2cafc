import QnxTutorial.Condvar.Cycle
import QnxTutorial.Monitor.Progress

/-!
# The four threads never get stuck

Whoever changes `state` owes a broadcast, which wakes every waiter, and pays it before it gives the
mutex back. So a thread that sleeps while the mutex is free waits for its turn.

**Theorem (`never_stuck`).** The thread whose turn it is does not sleep while the mutex is free,
and some thread can always go on.
-/

namespace QnxTutorial.Condvar

open Monitor

/-- The thread has changed `state` and not yet woken the others. -/
def Pc.Owes {L : Type} : Pc L → Prop
  | .broadcast _ => True
  | .lock _ | .test _ | .wait _ | .leave _ | .unlock _ => False

/-- `state` only changes in the step after which a broadcast is owed. -/
theorem Act.state {i : Tid} {pc k : Pc (Local i)} {s s' : Shared} (h : Act i pc s s' k) :
    s'.state = s.state ∨ k.Owes := by
  cases h with
  | notMine | mine => exact .inl rfl
  | leave => exact .inr trivial

/-- The wake-up argument: a thread sleeps while it is not its turn. -/
def wakeup : Wakeup outline where
  idle i _ s := s.state ≠ own i
  owes _ := Pc.Owes
  sleep {i pc k s} hc hp := by
    cases pc <;> cases handler_of_code hc
    exact ⟨hp.2.2, id⟩
  act {j pc k s s' e f} hc hf _ {i q} _ _ hidle := by
    apply (code_act hc hf).state.imp_left
    intro hs
    rw [hs]
    exact hidle
  keep {j pc k} hk ho := by
    change (code j pc).Leads k at hk
    rw [code_eq] at hk
    cases pc with
    | broadcast => exact hk.elim
    | lock | test | wait | leave | unlock => cases ho
  only {j pc k} hc _ := by
    cases pc <;> cases handler_of_code hc

theorem program_live : program.Live where
  ne_halt i pc := by
    change code i pc ≠ _
    rw [code_eq]
    cases pc <;> nofun
  act i pc f hc s := by
    cases pc <;> cases handler_of_code hc <;> exact ⟨(), _, _, rfl⟩

/-- A thread only sleeps while it is not its turn, or a broadcast is owed. -/
theorem state_ne_of_asleep {c : Config program} (h : Reachable c) (hm : c.mutex = none) {i : Tid}
    {k : program.Pc i} (hs : c.thread i = .asleep k) : c.shared.state ≠ own i := by
  apply (wakeup.sound outline_start h i k hs).resolve_right
  rintro ⟨j, pc, hj, ho⟩
  have hout := h.owned.outside hm hj
  change Pc (Local j) at pc
  cases pc with
  | broadcast => cases hout
  | lock | test | wait | leave | unlock => cases ho

/-- **The four threads never get stuck.** -/
theorem never_stuck (c : Config program) (h : Reachable c) :
    (c.mutex = none → ∀ i k, c.thread i = .asleep k → c.shared.state ≠ own i) ∧
    ¬ c.AllAsleep ∧ ∃ i, c.Ready i := by
  have hawake : ¬ c.AllAsleep := by
    intro hall
    -- Somebody's turn it is.
    obtain ⟨i, hi⟩ := exists_own c.shared.assigned.length
    obtain ⟨k, hk⟩ := hall i
    exact state_ne_of_asleep h (h.owned.mutex_of_allAsleep hall) hk
      ((inv_of_reachable h).state.trans hi)
  exact ⟨fun hm _ _ hs => state_ne_of_asleep h hm hs, hawake,
    h.owned.exists_ready program_live hawake⟩

def asleep (c : Config program) (i : Tid) : Bool :=
  match c.thread i with
  | .asleep _ => true
  | .run _ | .woken _ => false

theorem never_stuck_three : ∃ c : Config program, Reachable c ∧ c.mutex = none ∧
    asleep c .state0 = true ∧ asleep c .state1 = true ∧ asleep c .state3 = true ∧
    ∃ i, c.Ready i := by
  obtain ⟨c, hc, hp⟩ := exists_reach (P := program) (I := (· = start)) rfl
    (l := pass .state0 ++ pass .state1 ++
      [Tid.state0, .state1, .state3].flatMap fun i => List.replicate 3 (i, ()))
    (p := fun c => c.mutex == none && asleep c .state0 && asleep c .state1 && asleep c .state3)
    (by decide)
  simp only [Bool.and_eq_true, beq_iff_eq] at hp
  obtain ⟨⟨⟨hm, h0⟩, h1⟩, h3⟩ := hp
  exact ⟨c, hc, hm, h0, h1, h3, (never_stuck c hc).2.2⟩

end QnxTutorial.Condvar
