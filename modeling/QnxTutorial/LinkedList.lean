import Mathlib.Data.List.Nodup
import Mathlib.Logic.Function.Basic

/-!
# Singly linked lists on a heap

A heap maps addresses to nodes, each with a datum and a `next` pointer. `Chain h p cells` says
that following `next` from `p` visits exactly the cells listed and ends in the null pointer. The
heap determines the cells (`Chain.unique`), and no address occurs twice (`Chain.nodup`): a chain
that came back to a node would never end.

The three operations that list code is made of are

* walking to the last node (`lastNode_eq`: whatever the walk returns is the last cell;
  `lastNode_exists`: it does return),
* linking a new node behind the last one (`Chain.link`), and
* dropping the first node (`Chain.unlink`).
-/

namespace LinkedList

variable {A α : Type}

/-- A list node. -/
structure Node (A α : Type) where
  next : Option A
  data : α
  deriving DecidableEq

/-- The allocated nodes. -/
abbrev Heap (A α : Type) := A → Option (Node A α)

/-! ## Chains -/

/-- Following `next` from `p` visits `cells`, in this order, and ends in the null pointer. -/
def Chain (h : Heap A α) : Option A → List (A × α) → Prop
  | p, [] => p = none
  | p, (a, x) :: cells => p = some a ∧ ∃ q, h a = some ⟨q, x⟩ ∧ Chain h q cells

@[simp] theorem chain_none {h : Heap A α} {cells : List (A × α)} :
    Chain h none cells ↔ cells = [] := by
  cases cells <;> simp [Chain]

/-- Only the visited nodes matter. -/
theorem Chain.congr {h h' : Heap A α} {p : Option A} {cells : List (A × α)} (hc : Chain h p cells)
    (heq : ∀ a ∈ cells.map Prod.fst, h' a = h a) : Chain h' p cells := by
  induction cells generalizing p with
  | nil => exact hc
  | cons cell cells ih =>
    obtain ⟨hp, q, hq, hrest⟩ := hc
    refine ⟨hp, q, ?_, ih hrest fun a ha => heq a (List.mem_cons_of_mem _ ha)⟩
    rw [heq _ List.mem_cons_self, hq]

theorem Chain.unique {h : Heap A α} {p : Option A} {cells cells' : List (A × α)}
    (hc : Chain h p cells) (hc' : Chain h p cells') : cells = cells' := by
  induction cells generalizing p cells' with
  | nil =>
    cases hc
    exact (chain_none.1 hc').symm
  | cons cell cells ih =>
    obtain ⟨rfl, q, hq, hrest⟩ := hc
    cases cells' with
    | nil => cases hc'
    | cons cell' cells' =>
      obtain ⟨ha, q', hq', hrest'⟩ := hc'
      obtain ⟨a, x⟩ := cell
      obtain ⟨a', x'⟩ := cell'
      cases ha
      rw [hq] at hq'
      cases hq'
      rw [ih hrest hrest']

theorem Chain.suffix {h : Heap A α} {p : Option A} {cells cells' : List (A × α)} {a : A} {x : α}
    (hc : Chain h p (cells ++ (a, x) :: cells')) : Chain h (some a) ((a, x) :: cells') := by
  induction cells generalizing p with
  | nil =>
    obtain ⟨rfl, hrest⟩ := hc
    exact ⟨rfl, hrest⟩
  | cons cell cells ih =>
    obtain ⟨-, q, -, hrest⟩ := hc
    exact ih hrest

theorem Chain.nodup {h : Heap A α} {p : Option A} {cells : List (A × α)} (hc : Chain h p cells) :
    (cells.map Prod.fst).Nodup := by
  induction cells generalizing p with
  | nil => simp
  | cons cell cells ih =>
    obtain ⟨a, x⟩ := cell
    have hrest := hc
    obtain ⟨rfl, q, -, hq⟩ := hrest
    refine List.nodup_cons.2 ⟨fun ha => ?_, ih hq⟩
    obtain ⟨⟨a', x'⟩, hmem, rfl⟩ := List.mem_map.1 ha
    obtain ⟨l₁, l₂, rfl⟩ := List.append_of_mem hmem
    -- The chain from the second visit is the chain from the first, yet it is shorter.
    have hlen := congrArg List.length (hc.unique hq.suffix)
    simp at hlen
    omega

/-! ## Walking to the end -/

/-- `while (p->next != NULL) p = p->next;`, for at most `n` looks at a node. -/
def lastNode (h : Heap A α) : ℕ → A → Option A
  | 0, _ => none
  | n + 1, a =>
    match h a with
    | none => none
    | some ⟨none, _⟩ => some a
    | some ⟨some b, _⟩ => lastNode h n b

/-- What the walk returns is the last cell of the chain. -/
theorem lastNode_eq {h : Heap A α} {n : ℕ} {a b : A} {cells : List (A × α)}
    (hc : Chain h (some a) cells) (hb : lastNode h n a = some b) :
    ∃ init x, cells = init ++ [(b, x)] := by
  induction n generalizing a cells with
  | zero => cases hb
  | succ n ih =>
    cases cells with
    | nil => cases hc
    | cons cell cells =>
      obtain ⟨a', x⟩ := cell
      obtain ⟨ha, q, hq, hrest⟩ := hc
      cases ha
      simp only [lastNode, hq] at hb
      cases q with
      | none =>
        cases hb
        rw [chain_none.1 hrest]
        exact ⟨[], x, rfl⟩
      | some q =>
        obtain ⟨init, y, rfl⟩ := ih hrest hb
        exact ⟨(a, x) :: init, y, rfl⟩

theorem lastNode_exists {h : Heap A α} {a : A} {cells : List (A × α)}
    (hc : Chain h (some a) cells) : ∃ b, lastNode h cells.length a = some b := by
  induction cells generalizing a with
  | nil => cases hc
  | cons cell cells ih =>
    obtain ⟨a', x⟩ := cell
    obtain ⟨ha, q, hq, hrest⟩ := hc
    cases ha
    simp only [lastNode, hq, List.length_cons]
    cases q with
    | none => exact ⟨a, rfl⟩
    | some q => exact ih hrest

/-- More looks do not change what the walk returns. -/
theorem lastNode_mono {h : Heap A α} {n m : ℕ} {a b : A} (hb : lastNode h n a = some b)
    (hle : n ≤ m) : lastNode h m a = some b := by
  induction n generalizing a m with
  | zero => cases hb
  | succ n ih =>
    cases m with
    | zero => exact absurd hle (Nat.not_succ_le_zero n)
    | succ m =>
      unfold lastNode at hb ⊢
      cases ha : h a with
      | none =>
        simp only [ha] at hb
        cases hb
      | some node =>
        obtain ⟨next, x⟩ := node
        cases next with
        | none => simpa only [ha] using hb
        | some next =>
          simp only [ha] at hb ⊢
          exact ih hb (Nat.le_of_succ_le_succ hle)

/-! ## Linking and unlinking -/

variable [DecidableEq A]

theorem Chain.update {h : Heap A α} {p : Option A} {cells : List (A × α)} (hc : Chain h p cells)
    {a : A} (ha : a ∉ cells.map Prod.fst) (v : Option (Node A α)) :
    Chain (Function.update h a v) p cells :=
  hc.congr fun b hb => Function.update_of_ne (by rintro rfl; exact ha hb) ..

/-- A new last node, linked behind the old one. -/
theorem Chain.link {h : Heap A α} {p : Option A} {init : List (A × α)} {last new : A} {x d : α}
    (hc : Chain h p (init ++ [(last, x)])) (hnew : h new = some ⟨none, d⟩)
    (hfresh : new ∉ (init ++ [(last, x)]).map Prod.fst) :
    Chain (Function.update h last (some ⟨some new, x⟩)) p (init ++ [(last, x), (new, d)]) := by
  have hnd := hc.nodup
  induction init generalizing p with
  | nil =>
    obtain ⟨hp, -⟩ := hc
    have hne : new ≠ last := by simpa using hfresh
    refine ⟨hp, some new, Function.update_self .., rfl, none, ?_, rfl⟩
    rw [Function.update_of_ne hne, hnew]
  | cons cell init ih =>
    obtain ⟨a, y⟩ := cell
    obtain ⟨hp, q, hq, hrest⟩ := hc
    simp only [List.cons_append, List.map_cons, List.nodup_cons] at hnd
    simp only [List.cons_append, List.map_cons, List.mem_cons, not_or] at hfresh
    have hne : a ≠ last := fun h => hnd.1 (by simp [h])
    refine ⟨hp, q, ?_, ih hrest hfresh.2 hnd.2⟩
    rw [Function.update_of_ne hne, hq]

/-- Dropping and freeing the first node. -/
theorem Chain.unlink {h : Heap A α} {a : A} {x : α} {cells : List (A × α)} {q : Option A}
    (hc : Chain h (some a) ((a, x) :: cells)) (ha : h a = some ⟨q, x⟩) :
    Chain (Function.update h a none) q cells := by
  have hnd := hc.nodup
  obtain ⟨-, q', hq', hrest⟩ := hc
  rw [ha] at hq'
  cases hq'
  exact hrest.update (List.nodup_cons.1 hnd).1 none

end LinkedList
