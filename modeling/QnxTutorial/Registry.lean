import Mathlib.Data.List.Induction

/-!
# Who holds what, according to a history

Some events grant something, and some revoke what was granted. What a history leaves in force is
its last grant, unless an event after it revokes that (`Latest`). The same can be computed from
left to right with one variable (`current`).

**Theorem (`current_eq_some_iff`).** The two agree.
-/

variable {ε α : Type}

/-- Which events grant what, and which events revoke what. -/
structure Registry (ε α : Type) where
  grant : ε → Option α
  revokes : ε → α → Bool

namespace Registry

variable (R : Registry ε α)

/-- `a` was granted last, and nothing after it revokes it. -/
def Latest (h : List ε) (a : α) : Prop :=
  ∃ pre e post, h = pre ++ e :: post ∧ R.grant e = some a ∧
    ∀ e' ∈ post, R.grant e' = none ∧ R.revokes e' a = false

/-- What an event makes of the holding in force. -/
def next (cur : Option α) (e : ε) : Option α :=
  match R.grant e with
  | some a => some a
  | none => cur.filter fun a => !R.revokes e a

variable {R} {cur : Option α} {e : ε}

theorem next_of_grant {a : α} (h : R.grant e = some a) : R.next cur e = some a := by
  rw [next, h]

theorem next_of_revoked (hgrant : R.grant e = none) (h : ∀ a, cur = some a → R.revokes e a = true) :
    R.next cur e = none := by
  rw [next, hgrant, Option.filter_eq_none_iff]
  simpa using h

theorem next_of_kept (hgrant : R.grant e = none) (h : ∀ a, cur = some a → R.revokes e a = false) :
    R.next cur e = cur := by
  rw [next, hgrant]
  cases cur with
  | none => rfl
  | some a => simp [Option.filter, h a rfl]

variable (R)

/-- The holding in force after a history. -/
def current (h : List ε) : Option α := h.foldl R.next none

@[simp] theorem current_nil : R.current [] = none := rfl

@[simp] theorem current_concat (h : List ε) (e : ε) :
    R.current (h ++ [e]) = R.next (R.current h) e := by
  simp [current]

theorem not_latest_nil (a : α) : ¬ R.Latest [] a := by
  rintro ⟨pre, e, post, h, -⟩
  simp at h

/-- The last event decides, or leaves the decision to those before it. -/
theorem latest_concat (h : List ε) (e : ε) (a : α) :
    R.Latest (h ++ [e]) a ↔
      R.grant e = some a ∨ R.grant e = none ∧ R.revokes e a = false ∧ R.Latest h a := by
  constructor
  · rintro ⟨pre, e₀, post, heq, hgrant, hpost⟩
    rcases List.eq_nil_or_concat post with rfl | ⟨post, e₁, rfl⟩
    · obtain ⟨rfl, he⟩ := List.append_inj' heq rfl
      cases he
      exact .inl hgrant
    · rw [List.concat_eq_append, ← List.cons_append, ← List.append_assoc] at heq
      obtain ⟨rfl, he⟩ := List.append_inj' heq rfl
      cases he
      have hlast := hpost e (by simp)
      exact .inr ⟨hlast.1, hlast.2, pre, e₀, post, rfl, hgrant, fun e' he' =>
        hpost e' (by simp [he'])⟩
  · rintro (hgrant | ⟨hnone, hrev, pre, e₀, post, rfl, hgrant, hpost⟩)
    · exact ⟨h, e, [], rfl, hgrant, nofun⟩
    · refine ⟨pre, e₀, post ++ [e], by simp, hgrant, ?_⟩
      intro e' he'
      rcases List.mem_append.1 he' with he' | he'
      · exact hpost e' he'
      · rw [List.mem_singleton.1 he']
        exact ⟨hnone, hrev⟩

/-- **One variable is enough.** -/
theorem current_eq_some_iff (h : List ε) (a : α) : R.current h = some a ↔ R.Latest h a := by
  induction h using List.reverseRecOn with
  | nil => simp [not_latest_nil]
  | append_singleton h e ih =>
    rw [latest_concat, ← ih, current_concat, next]
    cases R.grant e with
    | some b => simp
    | none => simp [Option.filter_eq_some_iff, and_comm]

theorem current_eq_none_iff (h : List ε) : R.current h = none ↔ ∀ a, ¬ R.Latest h a := by
  simp only [← current_eq_some_iff, Option.eq_none_iff_forall_ne_some, ne_eq]

end Registry
