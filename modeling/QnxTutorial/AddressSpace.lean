import Mathlib.Data.List.Pairwise
import Mathlib.Tactic.SplitIfs

/-!
# Mappings of a process

An address space is a list of mappings, each a range of addresses that is not empty. Unmapping a
range removes it from every mapping, and may leave a part on each side (`cut`).

**Theorem (`unmap_separate`).** Mappings that do not overlap do not overlap afterwards.
-/

namespace AddressSpace

/-- The addresses from `start` on, `len` of them. -/
structure Mapping where
  start : ℕ
  len : ℕ
  deriving DecidableEq

/-- The ranges have no address in common. -/
def Mapping.Disjoint (m m' : Mapping) : Prop :=
  m.start + m.len ≤ m'.start ∨ m'.start + m'.len ≤ m.start

instance : Std.Symm Mapping.Disjoint := ⟨fun _ _ => Or.symm⟩

/-- `m` lies in `m'`. -/
def Mapping.Within (m m' : Mapping) : Prop :=
  m'.start ≤ m.start ∧ m.start + m.len ≤ m'.start + m'.len

/-- The `k` addresses from `addr` on lie in `m`. -/
def Mapping.Contains (m : Mapping) (addr k : ℕ) : Prop :=
  ∀ x, addr ≤ x → x < addr + k → m.start ≤ x ∧ x < m.start + m.len

theorem Mapping.contains_iff {m : Mapping} {addr k : ℕ} (h : m.start ≤ addr) :
    m.Contains addr k ↔ k = 0 ∨ addr + k ≤ m.start + m.len := by
  constructor
  · intro hm
    by_cases hk : k = 0
    · exact .inl hk
    · have := hm (addr + (k - 1)) (by omega) (by omega)
      omega
  · intro hk x hx hx'
    omega

theorem Mapping.Disjoint.within {m₁ m₂ m₁' m₂' : Mapping} (h : m₁.Disjoint m₂)
    (h₁ : m₁'.Within m₁) (h₂ : m₂'.Within m₂) : m₁'.Disjoint m₂' := by
  unfold Mapping.Disjoint Mapping.Within at *
  omega

/-- Mappings that are not empty and do not overlap. -/
structure Separate (ms : List Mapping) : Prop where
  pos : ∀ m ∈ ms, 0 < m.len
  disjoint : ms.Pairwise Mapping.Disjoint

theorem Separate.nil : Separate [] := ⟨nofun, .nil⟩

theorem Separate.cons {m : Mapping} {ms : List Mapping} (h : Separate ms) (hpos : 0 < m.len)
    (hm : ∀ m' ∈ ms, m.Disjoint m') : Separate (m :: ms) :=
  ⟨List.forall_mem_cons.2 ⟨hpos, h.pos⟩, .cons hm h.disjoint⟩

theorem Separate.eq_of_start {ms : List Mapping} (h : Separate ms) {m m' : Mapping} (hm : m ∈ ms)
    (hm' : m' ∈ ms) (hstart : m.start = m'.start) : m = m' := by
  by_contra hne
  have hpos := h.pos m hm
  have hpos' := h.pos m' hm'
  rcases h.disjoint.forall hm hm' hne with hd | hd <;> omega

/-! ## Unmapping -/

/-- What is left of a mapping without the addresses from `p` up to `q`. -/
def cut (p q : ℕ) (m : Mapping) : List Mapping :=
  (if m.start < p then [⟨m.start, min m.len (p - m.start)⟩] else []) ++
  (if q < m.start + m.len then
    [⟨max q m.start, m.start + m.len - max q m.start⟩] else [])

def unmap (p q : ℕ) (ms : List Mapping) : List Mapping := ms.flatMap (cut p q)

variable {p q : ℕ}

theorem cut_of_within {m : Mapping} (hp : p ≤ m.start) (hq : m.start + m.len ≤ q) :
    cut p q m = [] := by
  rw [cut, if_neg (by omega), if_neg (by omega)]
  rfl

theorem cut_of_disjoint {m : Mapping} (hpq : p ≤ q) (hpos : 0 < m.len)
    (h : m.start + m.len ≤ p ∨ q ≤ m.start) : cut p q m = [m] := by
  obtain ⟨start, len⟩ := m
  rcases h with h | h
  · simp only at h hpos
    rw [cut, if_pos (by simp only; omega), if_neg (by simp only; omega)]
    simp only [List.append_nil, List.cons.injEq, Mapping.mk.injEq, true_and, and_true]
    omega
  · simp only at h hpos
    rw [cut, if_neg (by simp only; omega), if_pos (by simp only; omega)]
    simp only [List.nil_append, List.cons.injEq, Mapping.mk.injEq, and_true]
    omega

theorem mem_cut {m m' : Mapping} (h : m' ∈ cut p q m) :
    m'.Within m ∧ (0 < m.len → 0 < m'.len) ∧ (m'.start = m.start ∨ m'.start = q) := by
  unfold cut at h
  unfold Mapping.Within
  rcases List.mem_append.1 h with h | h
  · split_ifs at h with hp
    · rw [List.mem_singleton.1 h]
      exact ⟨by simp only; omega, by simp only; omega, .inl rfl⟩
    · cases h
  · split_ifs at h with hq
    · rw [List.mem_singleton.1 h]
      exact ⟨by simp only; omega, by simp only; omega, by simp only; omega⟩
    · cases h

theorem cut_disjoint (hpq : p ≤ q) (m : Mapping) : (cut p q m).Pairwise Mapping.Disjoint := by
  unfold cut Mapping.Disjoint
  split_ifs <;> simp
  omega

theorem mem_unmap {ms : List Mapping} {m' : Mapping} (h : m' ∈ unmap p q ms) :
    ∃ m ∈ ms, m'.Within m ∧ (0 < m.len → 0 < m'.len) ∧ (m'.start = m.start ∨ m'.start = q) := by
  obtain ⟨m, hm, hcut⟩ := List.mem_flatMap.1 h
  exact ⟨m, hm, mem_cut hcut⟩

/-- **Unmapping keeps mappings apart.** -/
theorem unmap_separate (hpq : p ≤ q) {ms : List Mapping} (h : Separate ms) :
    Separate (unmap p q ms) where
  pos m' hm' := by
    obtain ⟨m, hm, -, hpos, -⟩ := mem_unmap hm'
    exact hpos (h.pos m hm)
  disjoint := by
    rw [unmap, List.pairwise_flatMap]
    constructor
    · intro m _
      exact cut_disjoint hpq m
    · apply h.disjoint.imp
      intro m m' hd x hx y hy
      exact hd.within (mem_cut hx).1 (mem_cut hy).1

theorem unmap_of_disjoint (hpq : p ≤ q) {ms : List Mapping} (hpos : ∀ m ∈ ms, 0 < m.len)
    (h : ∀ m ∈ ms, m.start + m.len ≤ p ∨ q ≤ m.start) : unmap p q ms = ms := by
  induction ms with
  | nil => rfl
  | cons m ms ih =>
    obtain ⟨hm, hms⟩ := List.forall_mem_cons.1 h
    obtain ⟨hposm, hposms⟩ := List.forall_mem_cons.1 hpos
    rw [unmap, List.flatMap_cons, cut_of_disjoint hpq hposm hm, ← unmap, ih hposms hms]
    rfl

/-- Mapping a fresh range and unmapping it again changes nothing. -/
theorem unmap_cons_fresh {m : Mapping} {ms : List Mapping} (hpq : m.start + m.len ≤ q)
    (hpos : ∀ m' ∈ ms, 0 < m'.len)
    (h : ∀ m' ∈ ms, m'.start + m'.len ≤ m.start ∨ q ≤ m'.start) :
    unmap m.start q (m :: ms) = ms := by
  rw [unmap, List.flatMap_cons, cut_of_within (Nat.le_refl _) hpq, ← unmap,
    unmap_of_disjoint (by omega) hpos h]
  rfl

end AddressSpace
