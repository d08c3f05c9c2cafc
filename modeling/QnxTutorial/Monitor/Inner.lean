import QnxTutorial.Monitor.Environment

/-!
# A program in its environment is the program

What a program does in its environment it can do by itself, with the inputs that the environment
lets it have. So what holds of every run of the program holds in any environment, and a second
environment may be put around the first.

**Theorem (`Reach.inner`).** What the program reaches in the environment it reaches by itself.

**Theorem (`Reach.at_thread`).** An invariant about the shared data and one thread that never waits
is checked at the moves of that thread and at the acts of the others.
-/

namespace Monitor

variable {ι σ ε κ α : Type} {P : Program ι σ ε} {E : Environment P κ α}

section Inversion

variable {L : Type} {follow : ε → σ → κ → Option κ} {c : Instr σ ε L} {k : L}

theorem Instr.within_wait (hc : c.within α follow = .wait k) : c = .wait k := by
  cases c <;> cases hc
  rfl

theorem Instr.within_signal (hc : c.within α follow = .signal k) : c = .signal k := by
  cases c <;> cases hc
  rfl

theorem Instr.within_act_inl {f : ε ⊕ α → σ × κ → Option ((σ × κ) × L)} {e : ε ⊕ α} {s s' : σ × κ}
    (hc : c.within α follow = .act f) (hf : f e s = some (s', k)) :
    ∃ g e', e = .inl e' ∧ c = .act g ∧ g e' s.1 = some (s'.1, k) ∧
      follow e' s.1 s.2 = some s'.2 := by
  cases e with
  | inl e =>
    cases c with
    | act g =>
      cases hc
      simp only [Option.bind_eq_some_iff, Option.map_eq_some_iff] at hf
      obtain ⟨⟨s₁, k₁⟩, hg, k₂, hfollow, heq⟩ := hf
      cases heq
      exact ⟨g, e, rfl, rfl, hg, hfollow⟩
    | lock | unlock | wait | signal | broadcast | halt => cases hc
  | inr =>
    cases c with
    | act g =>
      cases hc
      cases hf
    | lock | unlock | wait | signal | broadcast | halt => cases hc

theorem Instr.within_broadcast (hc : c.within α follow = .broadcast k) : c = .broadcast k := by
  cases c <;> cases hc
  rfl

end Inversion

/-- The program alone. -/
def Config.inner (c : Config (P.within E)) : Config P where
  mutex := c.mutex.join
  shared := c.shared.1
  thread i := c.thread (some i)

variable {c c' : Config (P.within E)}

theorem Owned.environment_runs (ho : Owned c) (k : Unit) :
    c.thread none ≠ .asleep k ∧ c.thread none ≠ .woken k := by
  constructor <;> intro hk
  · obtain ⟨pc, hc⟩ := ho.waits none k (.inl hk)
    cases hc
  · obtain ⟨pc, hc⟩ := ho.waits none k (.inr hk)
    cases hc

variable [DecidableEq ι]

theorem Config.inner_set_some (c : Config (P.within E)) (i : ι)
    (t : Thread ((P.within E).Pc (some i))) : (c.set (some i) t).inner = c.inner.set i t := by
  have hthread : ∀ j, (c.set (some i) t).thread (some j) = (c.inner.set i t).thread j := by
    intro j
    by_cases hj : j = i
    · subst hj
      exact (Config.set_thread_self c (some j) t).trans (Config.set_thread_self c.inner j t).symm
    · have hsome : some j ≠ some i := fun h => hj (Option.some.inj h)
      exact (Config.set_thread_ne c t hsome).trans (Config.set_thread_ne c.inner t hj).symm
  exact congrArg (Config.mk c.mutex.join c.shared.1) (funext hthread)

theorem Config.inner_set_mutex (c : Config (P.within E)) (i : ι)
    (t : Thread ((P.within E).Pc (some i))) (m : Option (Option ι)) :
    Config.inner { c.set (some i) t with mutex := m } =
      { c.inner.set i t with mutex := m.join } :=
  congrArg (fun d : Config P => { d with mutex := m.join }) (c.inner_set_some i t)

theorem Config.inner_set_shared (c : Config (P.within E)) (i : ι)
    (t : Thread ((P.within E).Pc (some i))) (s : σ × κ) :
    Config.inner { c.set (some i) t with shared := s } =
      { c.inner.set i t with shared := s.1 } :=
  congrArg (fun d : Config P => { d with shared := s.1 }) (c.inner_set_some i t)

theorem Config.inner_set_none (c : Config (P.within E)) (t : Thread ((P.within E).Pc none)) :
    (c.set none t).inner = c.inner := by
  have hthread : ∀ j : ι, (c.set none t).thread (some j) = c.thread (some j) :=
    fun j => Config.set_thread_ne c t (Option.some_ne_none j)
  exact congrArg (Config.mk c.mutex.join c.shared.1) (funext hthread)

/-- A step is a step of the program, or the environment's own. -/
theorem Owned.inner_step (ho : Owned c) (hst : Step c c') :
    Step c.inner c'.inner ∨ c'.inner = c.inner := by
  cases hst with
  | @lock i pc k hi hc hm =>
    cases i with
    | none => cases hc
    | some i =>
      rw [Config.inner_set_mutex]
      exact .inl (.lock hi (Instr.within_lock hc) (congrArg Option.join hm))
  | @unlock i pc k hi hc hm =>
    cases i with
    | none => cases hc
    | some i =>
      rw [Config.inner_set_mutex]
      exact .inl (.unlock hi (Instr.within_unlock hc) (congrArg Option.join hm))
  | @wait i pc k hi hc hm =>
    cases i with
    | none => cases hc
    | some i =>
      rw [Config.inner_set_mutex]
      exact .inl (.wait hi (Instr.within_wait hc) (congrArg Option.join hm))
  | @spurious i k hi =>
    cases i with
    | none => exact absurd hi (ho.environment_runs k).1
    | some i =>
      rw [Config.inner_set_some]
      exact .inl (.spurious hi)
  | @relock i k hi hm =>
    cases i with
    | none => exact absurd hi (ho.environment_runs k).2
    | some i =>
      rw [Config.inner_set_mutex]
      exact .inl (.relock hi (congrArg Option.join hm))
  | @signalNone i pc k hi hc hnone =>
    cases i with
    | none => cases hc
    | some i =>
      rw [Config.inner_set_some]
      exact .inl (.signalNone hi (Instr.within_signal hc) fun j => hnone (some j))
  | @signal i j pc k k' hi hc hj =>
    cases i with
    | none => cases hc
    | some i =>
      cases j with
      | none => exact absurd hj (ho.environment_runs k').1
      | some j =>
        rw [Config.inner_set_some, Config.inner_set_some]
        exact .inl (.signal hi (Instr.within_signal hc) hj)
  | @broadcast i pc k hi hc =>
    cases i with
    | none => cases hc
    | some i =>
      rw [Config.inner_set_some]
      exact .inl (.broadcast hi (Instr.within_broadcast hc))
  | @act i pc k f e s hi hc hf =>
    cases i with
    | none =>
      obtain ⟨hs, -⟩ := Program.within_event hc hf
      have hset := congrArg (Config.mk c.mutex.join s.1) (congrArg Config.thread
        (c.inner_set_none (.run k)))
      exact .inr (hset.trans (congrArg (Config.mk c.mutex.join · _) hs))
    | some i =>
      obtain ⟨g, e', hg, hg', -⟩ := Instr.within_act hc hf
      rw [Config.inner_set_shared]
      exact .inl (.act hi hg hg')

/-- **What is reached in the environment** is reached without it. -/
theorem Reach.inner {I : σ → Prop} {J : σ × κ → Prop} (hI : ∀ s, J s → I s.1)
    (h : Reach (P.within E) J c) : Reach P I c.inner := by
  induction h with
  | init hs => exact .init (hI _ hs)
  | step hc hst ih =>
    rcases hc.owned.inner_step hst with hstep | hsame
    · exact .step ih hstep
    · rwa [hsame]

/-! ## Watching one thread -/

section Watch

variable {P : Program ι σ ε} {I : σ → Prop} {c c' : Config P} {i : ι}

/-- The instruction only moves the thread on. -/
def Instr.Passes {L : Type} : Instr σ ε L → L → Prop
  | .lock k', k | .unlock k', k | .signal k', k | .broadcast k', k => k = k'
  | .act _, _ | .wait _, _ | .halt, _ => False

omit [DecidableEq ι] in
theorem Instr.Passes.of_within {L : Type} {follow : ε → σ → κ → Option κ} {x : Instr σ ε L} {k : L}
    (h : (x.within α follow).Passes k) : x.Passes k := by
  cases x <;> exact h

omit [DecidableEq ι] in
/-- A thread that never waits runs. -/
theorem Owned.exists_run (ho : Owned c) (hwait : ∀ pc k, P.code i pc ≠ .wait k) :
    ∃ pc, c.thread i = .run pc := by
  cases hi : c.thread i with
  | run pc => exact ⟨pc, rfl⟩
  | asleep k =>
    obtain ⟨pc, hc⟩ := ho.waits i k (.inl hi)
    exact absurd hc (hwait pc k)
  | woken k =>
    obtain ⟨pc, hc⟩ := ho.waits i k (.inr hi)
    exact absurd hc (hwait pc k)

/-- What a step can be to a thread that never waits: it passes on, it acts, another thread acts, or
the thread and the shared data stay as they are. -/
theorem Step.watch (hwait : ∀ pc k, P.code i pc ≠ .wait k) {pc : P.Pc i}
    (hi : c.thread i = .run pc) (hst : Step c c') :
    (∃ k, (P.code i pc).Passes k ∧ c'.thread i = .run k ∧ c'.shared = c.shared) ∨
    (∃ k f e, P.code i pc = .act f ∧ f e c.shared = some (c'.shared, k) ∧ c'.thread i = .run k) ∨
    (∃ j pc' k f e, j ≠ i ∧ c.thread j = .run pc' ∧ P.code j pc' = .act f ∧
      f e c.shared = some (c'.shared, k) ∧ c'.thread i = .run pc) ∨
    (c'.thread i = .run pc ∧ c'.shared = c.shared) := by
  have hstay : ∀ {j : ι} (t : Thread (P.Pc j)), i ≠ j → (c.set j t).thread i = .run pc :=
    fun t hij => (Config.set_thread_ne c t hij).trans hi
  cases hst with
  | @lock j pc' k hj hc | @unlock j pc' k hj hc | @signalNone j pc' k hj hc =>
    by_cases hij : i = j
    · subst hij
      cases hi.symm.trans hj
      exact .inl ⟨k, by simp [hc, Instr.Passes], Config.set_thread_self .., rfl⟩
    · exact .inr (.inr (.inr ⟨hstay _ hij, rfl⟩))
  | @wait j pc' k hj hc =>
    by_cases hij : i = j
    · subst hij
      exact absurd hc (hwait pc' k)
    · exact .inr (.inr (.inr ⟨hstay _ hij, rfl⟩))
  | @spurious j k hj | @relock j k hj =>
    have hij : i ≠ j := by
      rintro rfl
      cases hi.symm.trans hj
    exact .inr (.inr (.inr ⟨hstay _ hij, rfl⟩))
  | @signal j j' pc' k k' hj hc hj' =>
    have hij' : i ≠ j' := by
      rintro rfl
      cases hi.symm.trans hj'
    by_cases hij : i = j
    · subst hij
      cases hi.symm.trans hj
      refine .inl ⟨k, by simp [hc, Instr.Passes], ?_, rfl⟩
      exact (Config.set_thread_ne _ _ hij').trans (Config.set_thread_self ..)
    · exact .inr (.inr (.inr ⟨(Config.set_thread_ne _ _ hij').trans (hstay _ hij), rfl⟩))
  | @broadcast j pc' k hj hc =>
    by_cases hij : i = j
    · subst hij
      cases hi.symm.trans hj
      exact .inl ⟨k, by simp [hc, Instr.Passes], Config.set_thread_self .., rfl⟩
    · refine .inr (.inr (.inr ⟨(Config.set_thread_ne _ _ hij).trans ?_, rfl⟩))
      rw [Config.wakeAll_thread, hi]
      rfl
  | @act j pc' k f e s hj hc hf =>
    by_cases hij : i = j
    · subst hij
      cases hi.symm.trans hj
      exact .inr (.inl ⟨k, f, e, hc, hf, Config.set_thread_self ..⟩)
    · exact .inr (.inr (.inl ⟨j, pc', k, f, e, Ne.symm hij, hj, hc, hf, hstay _ hij⟩))

/-- **Watching one thread.** -/
theorem Reach.at_thread {J : P.Pc i → σ → Prop} (hwait : ∀ pc k, P.code i pc ≠ .wait k)
    (hstart : ∀ s, I s → J (P.start i) s)
    (hpass : ∀ {pc k s}, (P.code i pc).Passes k → J pc s → J k s)
    (hact : ∀ {c : Config P} {pc k f e s}, Reach P I c → c.thread i = .run pc → J pc c.shared →
      P.code i pc = .act f → f e c.shared = some (s, k) → J k s)
    (hother : ∀ {c : Config P} {pc j pc' k f e s}, Reach P I c → c.thread i = .run pc →
      J pc c.shared → j ≠ i → c.thread j = .run pc' → P.code j pc' = .act f →
      f e c.shared = some (s, k) → J pc s) (h : Reach P I c) {pc : P.Pc i}
    (hi : c.thread i = .run pc) : J pc c.shared := by
  induction h generalizing pc with
  | init hs =>
    cases hi
    exact hstart _ hs
  | @step c c' hc hst ih =>
    obtain ⟨pc₀, hi₀⟩ := hc.owned.exists_run hwait
    have hJ := ih hi₀
    rcases hst.watch hwait hi₀ with ⟨k, hk, hi', hs⟩ | ⟨k, f, e, hcode, hf, hi'⟩ |
      ⟨j, pc', k, f, e, hj, hpc', hcode, hf, hi'⟩ | ⟨hi', hs⟩
    · cases hi.symm.trans hi'
      rw [hs]
      exact hpass hk hJ
    · cases hi.symm.trans hi'
      exact hact hc hi₀ hJ hcode hf
    · cases hi.symm.trans hi'
      exact hother hc hi₀ hJ hj hpc' hcode hf
    · cases hi.symm.trans hi'
      rw [hs]
      exact hJ

end Watch

end Monitor
