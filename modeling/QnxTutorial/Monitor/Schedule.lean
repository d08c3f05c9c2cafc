import QnxTutorial.Monitor.Basic

/-!
# Running a schedule

A schedule says which thread moves next, and with which input. `exec` makes the move: it runs the
thread's next instruction, wakes it spuriously if it sleeps, and lets it take the mutex again if
it was woken. Which thread a signal wakes is not for the thread to say, so signals have a move of
their own (`execSignal`).

**Theorem (`Reach.run`).** Where a schedule leads is reachable, so concrete runs can be computed.
-/

namespace Monitor

variable {ι σ ε : Type} {P : Program ι σ ε} [DecidableEq ι]

/-- One move of thread `i` with input `e`. -/
def exec (c : Config P) (i : ι) (e : ε) : Option (Config P) :=
  match c.thread i with
  | .asleep k => some (c.set i (.woken k))
  | .woken k => if c.mutex = none then some { c.set i (.run k) with mutex := some i } else none
  | .run pc =>
    match P.code i pc with
    | .lock k => if c.mutex = none then some { c.set i (.run k) with mutex := some i } else none
    | .unlock k => if c.mutex = some i then some { c.set i (.run k) with mutex := none } else none
    | .wait k => if c.mutex = some i then some { c.set i (.asleep k) with mutex := none } else none
    | .broadcast k => some (c.wakeAll.set i (.run k))
    | .act f => (f e c.shared).map fun p => { c.set i (.run p.2) with shared := p.1 }
    | .signal _ | .halt => none

theorem exec_step {c c' : Config P} {i : ι} {e : ε} (h : exec c i e = some c') : Step c c' := by
  unfold exec at h
  cases hi : c.thread i with
  | asleep k =>
    simp only [hi, Option.some.injEq] at h
    exact h ▸ .spurious hi
  | woken k =>
    simp only [hi, Option.ite_none_right_eq_some, Option.some.injEq] at h
    exact h.2 ▸ .relock hi h.1
  | run pc =>
    simp only [hi] at h
    cases hc : P.code i pc with
    | lock k =>
      simp only [hc, Option.ite_none_right_eq_some, Option.some.injEq] at h
      exact h.2 ▸ .lock hi hc h.1
    | unlock k =>
      simp only [hc, Option.ite_none_right_eq_some, Option.some.injEq] at h
      exact h.2 ▸ .unlock hi hc h.1
    | wait k =>
      simp only [hc, Option.ite_none_right_eq_some, Option.some.injEq] at h
      exact h.2 ▸ .wait hi hc h.1
    | broadcast k =>
      simp only [hc, Option.some.injEq] at h
      exact h ▸ .broadcast hi hc
    | act f =>
      simp only [hc, Option.map_eq_some_iff] at h
      obtain ⟨⟨s, k⟩, hf, rfl⟩ := h
      exact .act hi hc hf
    | signal k => simp only [hc, reduceCtorEq] at h
    | halt => simp only [hc, reduceCtorEq] at h

/-- Run a schedule. -/
def run (c : Config P) : List (ι × ε) → Option (Config P)
  | [] => some c
  | (i, e) :: rest => (exec c i e).bind (run · rest)

theorem Reach.run {I : σ → Prop} {c c' : Config P} (hc : Reach P I c) {l : List (ι × ε)}
    (h : Monitor.run c l = some c') : Reach P I c' := by
  induction l generalizing c with
  | nil =>
    cases h
    exact hc
  | cons move rest ih =>
    obtain ⟨c₁, h₁, h₂⟩ := Option.bind_eq_some_iff.1 h
    exact ih (hc.step (exec_step h₁)) h₂

/-- Thread `i` signals, and that wakes thread `w`. -/
def execSignal (c : Config P) (i w : ι) : Option (Config P) :=
  match c.thread i, c.thread w with
  | .run pc, .asleep k' =>
    match P.code i pc with
    | .signal k => some ((c.set i (.run k)).set w (.woken k'))
    | _ => none
  | _, _ => none

theorem execSignal_step {c c' : Config P} {i w : ι} (h : execSignal c i w = some c') :
    Step c c' := by
  unfold execSignal at h
  split at h
  next pc k' hi hw =>
    split at h
    next k hc =>
      cases h
      exact .signal hi hc hw
    · cases h
  · cases h

/-- A schedule that ends in a configuration with property `p`. -/
theorem exists_reach {I : σ → Prop} {s : σ} (hs : I s) {l : List (ι × ε)} {p : Config P → Bool}
    (h : (Monitor.run (.init P s) l).map p = some true) : ∃ c, Reach P I c ∧ p c = true := by
  obtain ⟨c, hc, hp⟩ := Option.map_eq_some_iff.1 h
  exact ⟨c, (Reach.init hs).run hc, hp⟩

/-- A move of a schedule with signals: a step of one thread, or a signal and whom it wakes. -/
inductive Move (ι ε : Type) where
  | step (i : ι) (e : ε)
  | signal (i w : ι)

def Move.exec (c : Config P) : Move ι ε → Option (Config P)
  | .step i e => Monitor.exec c i e
  | .signal i w => execSignal c i w

/-- Run a schedule with signals. -/
def play (c : Config P) : List (Move ι ε) → Option (Config P)
  | [] => some c
  | m :: rest => (m.exec c).bind (play · rest)

theorem Reach.play {I : σ → Prop} {c c' : Config P} (hc : Reach P I c) {l : List (Move ι ε)}
    (h : Monitor.play c l = some c') : Reach P I c' := by
  induction l generalizing c with
  | nil =>
    cases h
    exact hc
  | cons m rest ih =>
    obtain ⟨c₁, h₁, h₂⟩ := Option.bind_eq_some_iff.1 h
    cases m with
    | step i e => exact ih (hc.step (exec_step h₁)) h₂
    | signal i w => exact ih (hc.step (execSignal_step h₁)) h₂

theorem exists_reach_play {I : σ → Prop} {s : σ} (hs : I s) {l : List (Move ι ε)}
    {p : Config P → Bool} (h : (Monitor.play (.init P s) l).map p = some true) :
    ∃ c, Reach P I c ∧ p c = true := by
  obtain ⟨c, hc, hp⟩ := Option.map_eq_some_iff.1 h
  exact ⟨c, (Reach.init hs).play hc, hp⟩

/-! ## Running one thread on -/

/-- Thread `i` at `pc` and the shared data `s`, everything else as in `c`. -/
def Config.put (c : Config P) (i : ι) (pc : P.Pc i) (s : σ) : Config P :=
  { c.set i (.run pc) with shared := s }

@[simp] theorem Config.put_shared (c : Config P) (i : ι) (pc : P.Pc i) (s : σ) :
    (c.put i pc s).shared = s := rfl

@[simp] theorem Config.put_thread_self (c : Config P) (i : ι) (pc : P.Pc i) (s : σ) :
    (c.put i pc s).thread i = .run pc := Function.update_self ..

theorem Config.put_thread_ne (c : Config P) {i j : ι} (pc : P.Pc i) (s : σ) (h : j ≠ i) :
    (c.put i pc s).thread j = c.thread j := Function.update_of_ne h ..

theorem Config.put_self {c : Config P} {i : ι} {pc : P.Pc i} (hi : c.thread i = .run pc) :
    c.put i pc c.shared = c := by
  show Config.mk _ _ (Function.update c.thread i (.run pc)) = c
  rw [← hi, Function.update_eq_self]
  rfl

theorem Reach.put {I : σ → Prop} {c : Config P} {i : ι} {pc k : P.Pc i} {s s' : σ}
    (h : Reach P I (c.put i pc s)) {f : ε → σ → Option (σ × P.Pc i)} {e : ε}
    (hc : P.code i pc = .act f) (hf : f e s = some (s', k)) : Reach P I (c.put i k s') := by
  have hstep : Step (c.put i pc s) ((c.put i pc s).put i k s') :=
    .act (Config.put_thread_self ..) hc hf
  have heq : (c.put i pc s).put i k s' = c.put i k s' := by
    show Config.mk _ _ (Function.update (Function.update c.thread i _) i _) = _
    rw [Function.update_idem]
    rfl
  exact heq ▸ h.step hstep

end Monitor
