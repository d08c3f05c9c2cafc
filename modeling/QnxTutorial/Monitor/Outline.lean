import QnxTutorial.Monitor.Basic

/-!
# Proof outlines

The rule by which a program is verified without looking at its interleavings. An *outline* puts
an assertion about the shared data at every control point, says what holds while the mutex is
free (`inv`), and what a thread may rely on while it waits (`rest`). It carries the proofs of
its own verification conditions:

* sequential ones, one for each kind of instruction: whoever takes the mutex gets `inv`, whoever
  gives it back restores it;
* freedom from interference: an `act` of one thread keeps the assertions of the others. A thread
  inside the critical section has nobody to fear but acts made outside of it.

**Theorem (`Outline.sound`).** In every reachable configuration every thread satisfies the
assertion of the place where it is, and `inv` holds if the mutex is free.
-/

namespace Monitor

variable {ι σ ε : Type}

/-- What thread `i` may assume at a place, from the assertions at control points and at waits. -/
def Thread.Meets {L : Type} (pre rest : L → σ → Prop) (t : Thread L) (s : σ) : Prop :=
  match t with
  | .run pc => pre pc s
  | .asleep k | .woken k => rest k s

/-- A proof outline of `P`. -/
structure Outline (P : Program ι σ ε) where
  inv : σ → Prop
  pre : (i : ι) → P.Pc i → σ → Prop
  rest : (i : ι) → P.Pc i → σ → Prop
  lock : ∀ {i pc k s}, P.code i pc = .lock k → pre i pc s → inv s → pre i k s
  unlock : ∀ {i pc k s}, P.code i pc = .unlock k → pre i pc s → inv s ∧ pre i k s
  wait : ∀ {i pc k s}, P.code i pc = .wait k → pre i pc s → inv s ∧ rest i k s
  relock : ∀ {i pc k s}, P.code i pc = .wait k → rest i k s → inv s → pre i k s
  notify : ∀ {i pc k s}, P.code i pc = .signal k ∨ P.code i pc = .broadcast k →
    pre i pc s → pre i k s
  act : ∀ {i pc k s s' e f}, P.code i pc = .act f → f e s = some (s', k) → pre i pc s → pre i k s'
  act_inv : ∀ {i pc k s s' e f}, P.code i pc = .act f → f e s = some (s', k) →
    P.holds i pc = false → pre i pc s → inv s → inv s'
  act_other : ∀ {i pc k s s' e f}, P.code i pc = .act f → f e s = some (s', k) → pre i pc s →
    ∀ {j} {t : Thread (P.Pc j)}, j ≠ i → (P.holds i pc = true → t.inside (P.holds j) = false) →
      t.Meets (pre j) (rest j) s → t.Meets (pre j) (rest j) s'

namespace Outline

variable {P : Program ι σ ε} (O : Outline P)

/-- The outline is true of a configuration. -/
structure Holds (c : Config P) : Prop where
  inv : c.mutex = none → O.inv c.shared
  at_ : ∀ i, (c.thread i).Meets (O.pre i) (O.rest i) c.shared

theorem Holds.pre {O : Outline P} {c : Config P} (h : O.Holds c) {i : ι} {pc : P.Pc i}
    (hi : c.thread i = .run pc) : O.pre i pc c.shared := by
  have := h.at_ i
  rwa [hi] at this

theorem Holds.asleep {O : Outline P} {c : Config P} (h : O.Holds c) {i : ι} {k : P.Pc i}
    (hi : c.thread i = .asleep k) : O.rest i k c.shared := by
  have := h.at_ i
  rwa [hi] at this

theorem Holds.woken {O : Outline P} {c : Config P} (h : O.Holds c) {i : ι} {k : P.Pc i}
    (hi : c.thread i = .woken k) : O.rest i k c.shared := by
  have := h.at_ i
  rwa [hi] at this

theorem holds_init {s : σ} (hinv : O.inv s) (hpre : ∀ i, O.pre i (P.start i) s) :
    O.Holds (.init P s) :=
  ⟨fun _ => hinv, hpre⟩

variable [DecidableEq ι] {O}

theorem Holds.at_set {c : Config P} (h : O.Holds c) {i : ι} {t : Thread (P.Pc i)}
    (ht : t.Meets (O.pre i) (O.rest i) c.shared) (j : ι) :
    ((c.set i t).thread j).Meets (O.pre j) (O.rest j) c.shared := by
  by_cases hj : j = i
  · subst hj
    simpa using ht
  · rw [Config.set_thread_ne c t hj]
    exact h.at_ j

theorem Holds.set {c : Config P} (h : O.Holds c) {i : ι} {t : Thread (P.Pc i)}
    (ht : t.Meets (O.pre i) (O.rest i) c.shared) : O.Holds (c.set i t) :=
  ⟨h.inv, h.at_set ht⟩

theorem Holds.goto {c : Config P} (h : O.Holds c) {i : ι} {k : P.Pc i}
    (hk : O.pre i k c.shared) : O.Holds (c.set i (.run k)) :=
  h.set hk

omit [DecidableEq ι] in
theorem Holds.wakeAll {c : Config P} (h : O.Holds c) : O.Holds c.wakeAll where
  inv := h.inv
  at_ j := by
    have := h.at_ j
    rw [Config.wakeAll_thread]
    cases ht : c.thread j <;> rw [ht] at this <;> exact this

theorem Holds.step {c c' : Config P} (ho : Owned c) (h : O.Holds c) (hst : Step c c') :
    O.Holds c' := by
  cases hst with
  | lock hi hc hm => exact ⟨nofun, h.at_set (O.lock hc (h.pre hi) (h.inv hm))⟩
  | unlock hi hc hm =>
    obtain ⟨hinv, hk⟩ := O.unlock hc (h.pre hi)
    exact ⟨fun _ => hinv, h.at_set hk⟩
  | wait hi hc hm =>
    obtain ⟨hinv, hk⟩ := O.wait hc (h.pre hi)
    exact ⟨fun _ => hinv, h.at_set hk⟩
  | spurious hi => exact h.set (h.asleep hi)
  | @relock i k hi hm =>
    obtain ⟨pc, hc⟩ := ho.waits i k (.inr hi)
    exact ⟨nofun, h.at_set (O.relock hc (h.woken hi) (h.inv hm))⟩
  | signalNone hi hc _ => exact h.goto (O.notify (.inl hc) (h.pre hi))
  | @signal i j pc k k' hi hc hj =>
    exact (h.goto (O.notify (.inl hc) (h.pre hi))).set (h.asleep hj)
  | broadcast hi hc => exact h.wakeAll.goto (O.notify (.inr hc) (h.pre hi))
  | @act i pc k f e s hi hc hf =>
    have hpc := h.pre hi
    -- Inside the critical section the mutex is taken, and nobody else is inside.
    have hin : P.holds i pc = true → c.mutex = some i := fun hh =>
      (ho.owner i).1 (by rw [hi]; exact hh)
    constructor
    · intro hm
      have hfree : P.holds i pc = false := by
        by_contra hh
        rw [Bool.not_eq_false] at hh
        exact absurd ((hin hh).symm.trans hm) nofun
      exact O.act_inv hc hf hfree hpc (h.inv hm)
    · intro j
      by_cases hj : j = i
      · subst hj
        show ((c.set j (.run k)).thread j).Meets _ _ s
        rw [Config.set_thread_self]
        exact O.act hc hf hpc
      · show ((c.set i (.run k)).thread j).Meets _ _ s
        rw [Config.set_thread_ne c _ hj]
        refine O.act_other hc hf hpc hj (fun hh => ?_) (h.at_ j)
        by_contra hjin
        rw [Bool.not_eq_false] at hjin
        exact hj (Option.some.inj (((ho.owner j).1 hjin).symm.trans (hin hh)))

/-- **Outlines are sound.** -/
theorem sound {I : σ → Prop} (O : Outline P)
    (h₀ : ∀ s, I s → O.inv s ∧ ∀ i, O.pre i (P.start i) s) {c : Config P} (h : Reach P I c) :
    O.Holds c :=
  h.invariant (fun s hs => O.holds_init (h₀ s hs).1 (h₀ s hs).2)
    fun _ _ hc ih hst => ih.step hc.owned hst

end Outline

end Monitor
