import QnxTutorial.Monitor.Basic

/-!
# Threads that can go on

A thread is *ready* if its next instruction can be executed now. A sleeping thread is not: only a
notification or a spurious wake-up gets it going. A program is *live* if its threads never halt
and its acts are always possible; then the holder of the mutex is always ready, and while the
mutex is free everybody is who does not sleep.

**Theorem (`Owned.exists_ready`).** A live program is stuck only if all its threads sleep.
-/

namespace Monitor

variable {ι σ ε : Type} {P : Program ι σ ε}

/-- Thread `i` can take its next step. -/
def Config.Ready (c : Config P) (i : ι) : Prop :=
  match c.thread i with
  | .asleep _ => False
  | .woken _ => c.mutex = none
  | .run pc =>
    match P.code i pc with
    | .lock _ => c.mutex = none
    | .unlock _ | .wait _ => c.mutex = some i
    | .signal _ | .broadcast _ => True
    | .act f => ∃ e s k, f e c.shared = some (s, k)
    | .halt => False

/-- No thread halts, and no act is ever impossible. -/
structure Program.Live (P : Program ι σ ε) : Prop where
  ne_halt : ∀ i pc, P.code i pc ≠ .halt
  act : ∀ i pc f, P.code i pc = .act f → ∀ s, ∃ e s' k, f e s = some (s', k)

/-- Everybody sleeps. -/
def Config.AllAsleep (c : Config P) : Prop := ∀ i, ∃ k, c.thread i = .asleep k

theorem Config.Ready.step [DecidableEq ι] {c : Config P} {i : ι} (h : c.Ready i) :
    ∃ c', Step c c' := by
  unfold Ready at h
  cases hi : c.thread i with
  | asleep k =>
    rw [hi] at h
    exact h.elim
  | woken k =>
    rw [hi] at h
    exact ⟨_, .relock hi h⟩
  | run pc =>
    simp only [hi] at h
    cases hc : P.code i pc with
    | lock k =>
      rw [hc] at h
      exact ⟨_, .lock hi hc h⟩
    | unlock k =>
      rw [hc] at h
      exact ⟨_, .unlock hi hc h⟩
    | wait k =>
      rw [hc] at h
      exact ⟨_, .wait hi hc h⟩
    | signal k =>
      by_cases hnone : ∀ j k', c.thread j ≠ .asleep k'
      · exact ⟨_, .signalNone hi hc hnone⟩
      · simp only [not_forall, not_not] at hnone
        obtain ⟨j, k', hj⟩ := hnone
        exact ⟨_, .signal hi hc hj⟩
    | broadcast k => exact ⟨_, .broadcast hi hc⟩
    | act f =>
      rw [hc] at h
      obtain ⟨e, s, k, hf⟩ := h
      exact ⟨_, .act hi hc hf⟩
    | halt =>
      rw [hc] at h
      exact h.elim

theorem not_step_of_halt [DecidableEq ι] {c c' : Config P}
    (hall : ∀ i, ∃ pc, c.thread i = .run pc ∧ P.code i pc = .halt) : ¬ Step c c' := by
  intro hst
  cases hst with
  | @lock i pc k hi hc | @unlock i pc k hi hc | @wait i pc k hi hc | @signalNone i pc k hi hc
  | @signal i j pc k k' hi hc | @broadcast i pc k hi hc | @act i pc k f e s hi hc =>
    obtain ⟨pc', hi', hc'⟩ := hall i
    cases hi.symm.trans hi'
    exact nomatch hc.symm.trans hc'
  | @spurious i k hi | @relock i k hi =>
    obtain ⟨pc', hi', -⟩ := hall i
    exact nomatch hi.symm.trans hi'

/-- Whoever runs is ready, if it holds the mutex or the mutex is free. -/
theorem Program.Live.ready_of_run (hP : P.Live) {c : Config P} {i : ι} {pc : P.Pc i}
    (hi : c.thread i = .run pc)
    (hm : if P.holds i pc then c.mutex = some i else c.mutex = none) : c.Ready i := by
  have hd := P.disciplined i pc
  unfold Config.Ready
  simp only [hi]
  cases hc : P.code i pc with
  | lock k =>
    rw [hc] at hd
    simpa [hd.1] using hm
  | unlock k | wait k =>
    rw [hc] at hd
    simpa [hd.1] using hm
  | signal k | broadcast k => trivial
  | act f => exact hP.act i pc f hc c.shared
  | halt => exact hP.ne_halt i pc hc

theorem Owned.mutex_of_allAsleep {c : Config P} (h : Owned c) (hall : c.AllAsleep) :
    c.mutex = none := by
  cases hm : c.mutex with
  | none => rfl
  | some i =>
    obtain ⟨pc, hi, -⟩ := h.holder hm
    obtain ⟨k, hk⟩ := hall i
    cases hi.symm.trans hk

/-- **A live program is stuck only if all its threads sleep.** -/
theorem Owned.exists_ready {c : Config P} (h : Owned c) (hP : P.Live) (hall : ¬ c.AllAsleep) :
    ∃ i, c.Ready i := by
  cases hm : c.mutex with
  | some i =>
    obtain ⟨pc, hi, hin⟩ := h.holder hm
    exact ⟨i, hP.ready_of_run hi (by rw [if_pos hin, hm])⟩
  | none =>
    obtain ⟨i, hi⟩ := not_forall.1 hall
    refine ⟨i, ?_⟩
    cases ht : c.thread i with
    | asleep k => exact absurd ⟨k, ht⟩ hi
    | woken k =>
      unfold Config.Ready
      rw [ht]
      exact hm
    | run pc =>
      have hout := h.outside hm ht
      exact hP.ready_of_run ht (by rw [if_neg (by simp [hout]), hm])

end Monitor
