import QnxTutorial.Monitor.Outline

/-!
# No lost wake-ups

A signal sent while nobody waits is forgotten, so a thread may only sleep while there is nothing
for it to do (`idle`), and whoever changes that must still send a signal. Threads that are on
their way to one *owe* it: the obligation starts with the act that ends somebody's idleness, it
is carried along the thread's code, and only a signal or a broadcast discharges it.

A broadcast reaches every sleeper. A signal reaches only one, so the rule asks that apart from
the sender only one thread ever waits.

**Theorem (`Wakeup.sound`).** In every reachable configuration a sleeping thread is idle, or some
running thread owes a wake-up.
-/

namespace Monitor

variable {ι σ ε : Type}

/-- The thread can go on to `k` without a notification. -/
def Instr.Leads {L : Type} : Instr σ ε L → L → Prop
  | .lock k', k | .unlock k', k => k = k'
  | .act f, k => ∃ e s s', f e s = some (s', k)
  | .wait _, _ | .signal _, _ | .broadcast _, _ | .halt, _ => False

/-- Thread `i` has a wait that returns to `k`. -/
def Program.Waits (P : Program ι σ ε) (i : ι) (k : P.Pc i) : Prop := ∃ pc, P.code i pc = .wait k

/-- A wake-up argument over the outline `O`. -/
structure Wakeup {P : Program ι σ ε} (O : Outline P) where
  idle : (i : ι) → P.Pc i → σ → Prop
  owes : (i : ι) → P.Pc i → Prop
  sleep : ∀ {i pc k s}, P.code i pc = .wait k → O.pre i pc s → idle i k s ∧ ¬ owes i pc
  act : ∀ {j pc k s s' e f}, P.code j pc = .act f → f e s = some (s', k) → O.pre j pc s →
    ∀ {i q}, i ≠ j → P.Waits i q → idle i q s → idle i q s' ∨ owes j k
  keep : ∀ {j pc k}, (P.code j pc).Leads k → owes j pc → owes j k
  only : ∀ {j pc k}, P.code j pc = .signal k → owes j pc →
    ∀ {i i' q q'}, i ≠ j → i' ≠ j → P.Waits i q → P.Waits i' q' → i = i'

namespace Wakeup

variable {P : Program ι σ ε} {O : Outline P} (W : Wakeup O)

/-- Some running thread owes a wake-up. -/
def Owing (c : Config P) : Prop := ∃ j pc, c.thread j = .run pc ∧ W.owes j pc

/-- Whoever sleeps is idle, or a wake-up is owed. -/
def Holds (c : Config P) : Prop :=
  ∀ i k, c.thread i = .asleep k → W.idle i k c.shared ∨ W.Owing c

variable [DecidableEq ι] {W}

/-- A wake-up stays owed if the thread that moves did not owe it, or still does. -/
theorem Owing.set {c : Config P} (h : W.Owing c) {i : ι} {t : Thread (P.Pc i)}
    (hi : ∀ pc, c.thread i = .run pc → W.owes i pc → ∃ k, t = .run k ∧ W.owes i k) :
    W.Owing (c.set i t) := by
  obtain ⟨j, pc, hj, ho⟩ := h
  by_cases hij : j = i
  · subst hij
    obtain ⟨k, rfl, hk⟩ := hi pc hj ho
    exact ⟨j, k, by simp, hk⟩
  · exact ⟨j, pc, by rw [Config.set_thread_ne c t hij, hj], ho⟩

theorem Owing.goto {c : Config P} (h : W.Owing c) {i : ι} {pc k : P.Pc i}
    (hi : c.thread i = .run pc) (hk : (P.code i pc).Leads k) : W.Owing (c.set i (.run k)) :=
  h.set fun pc' hpc' ho => by
    rw [hi] at hpc'
    cases hpc'
    exact ⟨k, rfl, W.keep hk ho⟩

/-- A sleeper after thread `i` went to a place where it runs slept before. -/
theorem asleep_of_goto {c : Config P} {i j : ι} {k : P.Pc i} {q : P.Pc j}
    (h : (c.set i (.run k)).thread j = .asleep q) : j ≠ i ∧ c.thread j = .asleep q := by
  by_cases hj : j = i
  · subst hj
    rw [Config.set_thread_self] at h
    cases h
  · exact ⟨hj, by rwa [Config.set_thread_ne c _ hj] at h⟩

omit [DecidableEq ι] in
theorem holds_init (s : σ) : W.Holds (.init P s) := by
  intro i k h
  cases h

theorem Holds.step {c c' : Config P} (ho : Owned c) (hO : O.Holds c) (h : W.Holds c)
    (hst : Step c c') : W.Holds c' := by
  cases hst with
  | @lock i pc k hi hc hm =>
    intro j q hj
    obtain ⟨-, hq⟩ := asleep_of_goto (c := c) hj
    exact (h j q hq).imp_right fun hw => hw.goto hi (by rw [hc]; rfl)
  | @unlock i pc k hi hc hm =>
    intro j q hj
    obtain ⟨-, hq⟩ := asleep_of_goto (c := c) hj
    exact (h j q hq).imp_right fun hw => hw.goto hi (by rw [hc]; rfl)
  | @wait i pc k hi hc hm =>
    intro j q hj
    obtain ⟨hidle, hnot⟩ := W.sleep hc (hO.pre hi)
    by_cases hji : j = i
    · subst hji
      have hkq : Thread.asleep k = .asleep q := (Config.set_thread_self c j _).symm.trans hj
      cases hkq
      exact .inl hidle
    · have hq : c.thread j = .asleep q := (Config.set_thread_ne c _ hji).symm.trans hj
      refine (h j q hq).imp_right fun hw => hw.set fun pc' hpc' ho' => ?_
      rw [hi] at hpc'
      cases hpc'
      exact absurd ho' hnot
  | @spurious i k hi =>
    intro j q hj
    have hji : j ≠ i := by
      rintro rfl
      rw [Config.set_thread_self] at hj
      cases hj
    rw [Config.set_thread_ne c _ hji] at hj
    exact (h j q hj).imp_right fun hw => hw.set fun pc' hpc' _ => by rw [hi] at hpc'; cases hpc'
  | @relock i k hi hm =>
    intro j q hj
    obtain ⟨-, hq⟩ := asleep_of_goto (c := c) hj
    exact (h j q hq).imp_right fun hw => hw.set fun pc' hpc' _ => by rw [hi] at hpc'; cases hpc'
  | signalNone hi hc hnone =>
    intro j q hj
    exact absurd (asleep_of_goto hj).2 (hnone j q)
  | @signal i w pc k k' hi hc hw =>
    intro j q hj
    have hwi : w ≠ i := by
      rintro rfl
      rw [hi] at hw
      cases hw
    have hjw : j ≠ w := by
      rintro rfl
      rw [Config.set_thread_self] at hj
      cases hj
    rw [Config.set_thread_ne _ _ hjw] at hj
    obtain ⟨hji, hq⟩ := asleep_of_goto hj
    -- A second sleeper means that this signal was not the one owed.
    have hnot : ¬ W.owes i pc := fun howes =>
      hjw (W.only hc howes hji hwi (ho.waits j q (.inl hq)) (ho.waits w k' (.inl hw)))
    apply (h j q hq).imp_right
    intro hO'
    have h₁ : W.Owing (c.set i (.run k)) := hO'.set fun pc' hpc' ho' => by
      rw [hi] at hpc'
      cases hpc'
      exact absurd ho' hnot
    apply h₁.set
    intro pc' hpc' _
    rw [Config.set_thread_ne c _ hwi, hw] at hpc'
    cases hpc'
  | broadcast hi hc =>
    intro j q hj
    exact absurd (asleep_of_goto hj).2 (Thread.wake_ne_asleep _ q)
  | @act i pc k f e s hi hc hf =>
    intro j q hj
    obtain ⟨hji, hq⟩ := asleep_of_goto (c := c) hj
    rcases h j q hq with hidle | hw
    · rcases W.act hc hf (hO.pre hi) hji (ho.waits j q (.inl hq)) hidle with hs | hk
      · exact .inl hs
      · exact .inr ⟨i, k, by simp [Config.set], hk⟩
    · exact .inr (hw.goto hi (by rw [hc]; exact ⟨e, c.shared, s, hf⟩))

/-- **No wake-up is lost.** -/
theorem sound {I : σ → Prop} (W : Wakeup O)
    (h₀ : ∀ s, I s → O.inv s ∧ ∀ i, O.pre i (P.start i) s) {c : Config P} (h : Reach P I c) :
    W.Holds c :=
  h.invariant (fun s _ => holds_init s)
    fun _ _ hc ih hst => ih.step hc.owned (O.sound h₀ hc) hst

end Wakeup

end Monitor
