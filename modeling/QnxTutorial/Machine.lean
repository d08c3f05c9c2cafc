/-!
# Runs of a machine

A machine handles one event after the other; what it does with an event is a function of its state.
The environment may not offer every event in every state (`allowed`). A run records each event
with the state in which it was handled.

**Theorem (`Run.forall_iff`).** If an event keeps a property exactly when it meets a condition,
then the property holds all through a run exactly when every event of the run meets the condition.
-/

variable {σ ε : Type}

/-- A deterministic machine and what its environment may do. -/
structure Machine (σ ε : Type) where
  init : σ → Prop
  allowed : σ → ε → Prop
  next : σ → ε → σ

namespace Machine

variable (M : Machine σ ε)

/-- A run to state `s`: the events so far, each with the state before it. -/
inductive Run : List (σ × ε) → σ → Prop
  | init {s : σ} : M.init s → Run [] s
  | step {h : List (σ × ε)} {s : σ} {e : ε} : Run h s → M.allowed s e →
      Run (h ++ [(s, e)]) (M.next s e)

variable {M} {h : List (σ × ε)} {s : σ}

/-- What holds at first and is kept by every event holds at the end of every run. -/
theorem Run.invariant {I : σ → Prop} (hinit : ∀ s, M.init s → I s)
    (hnext : ∀ s e, M.allowed s e → I s → I (M.next s e)) (hrun : M.Run h s) : I s := by
  induction hrun with
  | init hs => exact hinit _ hs
  | step _ ha ih => exact hnext _ _ ha ih

theorem Run.length_le {left : σ → Nat} {n : Nat} (hinit : ∀ s, M.init s → left s ≤ n)
    (hnext : ∀ h s e, M.Run h s → M.allowed s e → left (M.next s e) < left s)
    (hrun : M.Run h s) : h.length + left s ≤ n := by
  induction hrun with
  | init hs => simpa using hinit _ hs
  | @step h s e hrun ha ih =>
    have := hnext h s e hrun ha
    rw [List.length_append, List.length_singleton]
    omega

/-- Every event of a run was allowed when it was handled, in a state that a run leads to. -/
theorem Run.forall_mem {P : σ × ε → Prop}
    (hP : ∀ h s e, M.Run h s → M.allowed s e → P (s, e)) (hrun : M.Run h s) : ∀ x ∈ h, P x := by
  induction hrun with
  | init => exact nofun
  | step hrun ha ih =>
    rw [List.forall_mem_append, List.forall_mem_singleton]
    exact ⟨ih, hP _ _ _ hrun ha⟩

/-- Handle the events of a list, each with the state before it. -/
def trace (M : Machine σ ε) : σ → List ε → List (σ × ε)
  | _, [] => []
  | s, e :: l => (s, e) :: trace M (M.next s e) l

theorem Run.trace (hrun : M.Run h s) {l : List ε} (ha : ∀ p ∈ M.trace s l, M.allowed p.1 p.2) :
    M.Run (h ++ M.trace s l) (l.foldl M.next s) := by
  induction l generalizing h s with
  | nil => rwa [Machine.trace, List.append_nil]
  | cons e l ih =>
    obtain ⟨he, hl⟩ := List.forall_mem_cons.1 ha
    have hnext := ih (hrun.step he) hl
    rwa [List.append_assoc] at hnext

/-- Events that leave the state as it is can be taken out of a run. -/
theorem Run.filter (hrun : M.Run h s) {p : σ × ε → Bool}
    (hkeep : ∀ x ∈ h, p x = false → M.next x.1 x.2 = x.1) : M.Run (h.filter p) s := by
  induction hrun with
  | init hs => exact .init hs
  | @step h s e hrun ha ih =>
    obtain ⟨hbefore, hlast⟩ := List.forall_mem_append.1 hkeep
    rw [List.filter_append]
    by_cases hp : p (s, e) = true
    · rw [List.filter_cons_of_pos hp, List.filter_nil]
      exact (ih hbefore).step ha
    · rw [List.filter_cons_of_neg hp, List.filter_nil, List.append_nil]
      rw [hlast (s, e) (List.mem_singleton_self _) (Bool.not_eq_true _ ▸ hp)]
      exact ih hbefore

/-- What the machine does with each event of a list. -/
def outputs {ω : Type} (M : Machine σ ε) (out : σ → ε → ω) : σ → List ε → List ω
  | _, [] => []
  | s, e :: l => out s e :: outputs M out (M.next s e) l

/-- **The simulation rule.** States that are related do the same, from now on. -/
theorem outputs_eq {ω : Type} {out : σ → ε → ω} {R : σ → σ → Prop}
    (hout : ∀ s s' e, R s s' → out s e = out s' e)
    (hnext : ∀ s s' e, R s s' → R (M.next s e) (M.next s' e)) {s s' : σ} (hR : R s s')
    (l : List ε) : M.outputs out s l = M.outputs out s' l := by
  induction l generalizing s s' with
  | nil => rfl
  | cons e l ih =>
    show out s e :: _ = out s' e :: _
    rw [hout _ _ e hR, ih (hnext _ _ e hR)]

/-- Two machines do the same with the events with which they do the same in any state. -/
theorem outputs_eq_iff {τ ω : Type} {N : Machine τ ε} {out : σ → ε → ω} {out' : τ → ε → ω}
    {P : ε → Prop} (h : ∀ s t e, out s e = out' t e ↔ P e) (s : σ) (t : τ) (l : List ε) :
    M.outputs out s l = N.outputs out' t l ↔ ∀ e ∈ l, P e := by
  induction l generalizing s t with
  | nil => exact iff_of_true rfl nofun
  | cons e l ih =>
    show out s e :: _ = out' t e :: _ ↔ _
    rw [List.cons.injEq, h, ih, List.forall_mem_cons]

/-- The events of a run. -/
def events (h : List (σ × ε)) : List ε := h.map Prod.snd

@[simp] theorem events_trace (s : σ) (l : List ε) : events (M.trace s l) = l := by
  induction l generalizing s with
  | nil => rfl
  | cons e l ih => exact congrArg (e :: ·) (ih _)

/-- `P` holds all through the run. -/
def Throughout (P : σ → Prop) (h : List (σ × ε)) (s : σ) : Prop := (∀ p ∈ h, P p.1) ∧ P s

/-- **One condition for each event decides about the run.** -/
theorem Run.forall_iff {I P : σ → Prop} {C : σ → ε → Prop} (hinit : ∀ s, M.init s → I s ∧ P s)
    (hI : ∀ s e, M.allowed s e → I s → I (M.next s e))
    (hP : ∀ s e, M.allowed s e → I s → P s → (P (M.next s e) ↔ C s e)) (hrun : M.Run h s) :
    Throughout P h s ↔ ∀ p ∈ h, C p.1 p.2 := by
  induction hrun with
  | init hs => exact iff_of_true ⟨nofun, (hinit _ hs).2⟩ nofun
  | @step h s e hrun ha ih =>
    have hs : I s := hrun.invariant (fun s hs => (hinit s hs).1) hI
    unfold Throughout at ih ⊢
    simp only [List.forall_mem_append, List.forall_mem_singleton]
    constructor
    · rintro ⟨⟨hall, hlast⟩, hnext⟩
      exact ⟨ih.1 ⟨hall, hlast⟩, (hP s e ha hs hlast).1 hnext⟩
    · rintro ⟨hall, hlast⟩
      obtain ⟨hbefore, hPs⟩ := ih.2 hall
      exact ⟨⟨hbefore, hPs⟩, (hP s e ha hs hPs).2 hlast⟩

end Machine
