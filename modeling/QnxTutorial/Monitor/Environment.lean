import QnxTutorial.Monitor.Outline

/-!
# A program in its environment

The input of a program is arbitrary. Here the program gets an environment that has a state of its
own: it decides which inputs are possible, acts of the program change it, and it also changes by
itself. Program and environment together are a program again, in which the environment is one more
thread and its state is shared data.

**Theorem (`Instr.within_act`).** An act in the environment is an act of the program that the
environment allows.
-/

namespace Monitor

variable {ι σ ε κ α : Type}

/-- An environment with states `κ` and events `α`. It has to `follow` when a thread acts with an
input, and an `event` happens by itself. -/
structure Environment (P : Program ι σ ε) (κ α : Type) where
  follow : (i : ι) → P.Pc i → ε → σ → κ → Option κ
  event : α → κ → Option κ

/-- An instruction in the environment. Only acts have to do with it. -/
def Instr.within {L : Type} (α : Type) (follow : ε → σ → κ → Option κ) :
    Instr σ ε L → Instr (σ × κ) (ε ⊕ α) L
  | .lock k => .lock k
  | .unlock k => .unlock k
  | .wait k => .wait k
  | .signal k => .signal k
  | .broadcast k => .broadcast k
  | .act f => .act fun
      | .inl e, s => (f e s.1).bind fun r => (follow e s.1 s.2).map fun k => ((r.1, k), r.2)
      | .inr _, _ => none
  | .halt => .halt

section Inversion

variable {L : Type} {follow : ε → σ → κ → Option κ} {c : Instr σ ε L} {k : L}

theorem Instr.within_lock (hc : c.within α follow = .lock k) : c = .lock k := by
  cases c <;> cases hc
  rfl

theorem Instr.within_unlock (hc : c.within α follow = .unlock k) : c = .unlock k := by
  cases c <;> cases hc
  rfl

theorem Instr.within_act {f : ε ⊕ α → σ × κ → Option ((σ × κ) × L)} {e : ε ⊕ α} {s s' : σ × κ}
    (hc : c.within α follow = .act f) (hf : f e s = some (s', k)) :
    ∃ g e', c = .act g ∧ g e' s.1 = some (s'.1, k) ∧ follow e' s.1 s.2 = some s'.2 := by
  cases c with
  | act g =>
    cases hc
    cases e with
    | inl e =>
      simp only [Option.bind_eq_some_iff, Option.map_eq_some_iff] at hf
      obtain ⟨⟨s₁, k₁⟩, hg, k₂, hfollow, heq⟩ := hf
      cases heq
      exact ⟨g, e, rfl, hg, hfollow⟩
    | inr => cases hf
  | lock | unlock | wait | signal | broadcast | halt => cases hc

theorem Instr.within_disciplined {holds : L → Bool} {h : Bool} (hd : c.Disciplined holds h) :
    (c.within α follow).Disciplined holds h := by
  cases c with
  | act g =>
    intro e s s' k hf
    obtain ⟨g', e', hg, hg', -⟩ := within_act (c := .act g) rfl hf
    cases hg
    exact hd e' s.1 s'.1 k hg'
  | lock | unlock | wait | signal | broadcast | halt => exact hd

end Inversion

/-- The program and its environment, which is the thread `none`. -/
def Program.within (P : Program ι σ ε) (E : Environment P κ α) :
    Program (Option ι) (σ × κ) (ε ⊕ α) where
  Pc
    | none => Unit
    | some i => P.Pc i
  start
    | none => ()
    | some i => P.start i
  code
    | none => fun _ => .act fun
        | .inl _, _ => none
        | .inr a, s => (E.event a s.2).map fun k => ((s.1, k), ())
    | some i => fun pc => (P.code i pc).within α (E.follow i pc)
  holds
    | none => fun _ => false
    | some i => P.holds i
  start_free
    | none => rfl
    | some i => P.start_free i
  disciplined
    | none => fun _ _ _ _ _ _ => rfl
    | some i => fun pc => Instr.within_disciplined (P.disciplined i pc)

/-- An event of the environment leaves the data of the program as they are. -/
theorem Program.within_event {P : Program ι σ ε} {E : Environment P κ α} {u u' : Unit}
    {f : ε ⊕ α → σ × κ → Option ((σ × κ) × Unit)} {e : ε ⊕ α} {s s' : σ × κ}
    (hc : (P.within E).code none u = .act f) (hf : f e s = some (s', u')) :
    s'.1 = s.1 ∧ ∃ a, E.event a s.2 = some s'.2 := by
  cases hc
  cases e with
  | inl => cases hf
  | inr a =>
    obtain ⟨k, hk, heq⟩ := Option.map_eq_some_iff.1 hf
    cases heq
    exact ⟨rfl, a, hk⟩

end Monitor
