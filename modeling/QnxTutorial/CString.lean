import Mathlib.Algebra.BigOperators.Group.List.Basic
import Mathlib.Algebra.Ring.Int.Defs
import QnxTutorial.Bytes

/-!
# Strings that end with a NUL

`IsString b s` says that the memory `b` starts with the bytes `s`, none of which is NUL, and a NUL
after them. The string at an address is unique, and a loop over it looks at its bytes and at the
NUL.
-/

namespace CString

open RecvBuf

/-- The bytes `s` and a NUL. -/
structure IsString (b : Buf) (s : List Byte) : Prop where
  bytes : ∀ i (hi : i < s.length), b i = s[i]
  nul : b s.length = 0
  ne_nul : 0 ∉ s

theorem IsString.ne_zero {b : Buf} {s : List Byte} (h : IsString b s) {i : ℕ}
    (hi : i < s.length) : b i ≠ 0 := by
  rw [h.bytes i hi]
  exact fun h0 => h.ne_nul (h0 ▸ List.getElem_mem hi)

theorem IsString.length_le {b : Buf} {s : List Byte} (h : IsString b s) {i : ℕ} (hi : b i = 0) :
    s.length ≤ i := by
  by_contra hlt
  exact h.ne_zero (by omega) hi

theorem IsString.unique {b : Buf} {s s' : List Byte} (h : IsString b s) (h' : IsString b s') :
    s = s' := by
  have hlen : s.length = s'.length :=
    Nat.le_antisymm (h.length_le h'.nul) (h'.length_le h.nul)
  apply List.ext_getElem hlen
  intro i hi hi'
  rw [← h.bytes i hi, h'.bytes i hi']

theorem isString_nil {b : Buf} : IsString b [] ↔ b 0 = 0 :=
  ⟨fun h => h.nul, fun h => ⟨nofun, h, nofun⟩⟩

theorem isString_cons {b : Buf} {x : Byte} {s : List Byte} :
    IsString b (x :: s) ↔ b 0 = x ∧ x ≠ 0 ∧ IsString (shift b 1) s := by
  constructor
  · intro h
    obtain ⟨hx, hs⟩ := not_or.1 (mt List.mem_cons.2 h.ne_nul)
    refine ⟨h.bytes 0 (by simp), Ne.symm hx, ?_, ?_, hs⟩
    · intro i hi
      rw [shift, Nat.add_comm, h.bytes (i + 1) (by simpa using hi), List.getElem_cons_succ]
    · rw [shift, Nat.add_comm]
      exact h.nul
  · rintro ⟨hb, hx, hs⟩
    refine ⟨?_, ?_, ?_⟩
    · rintro (_ | i) hi
      · exact hb
      · have hi' := hs.bytes i (by simpa using hi)
        rwa [shift, Nat.add_comm] at hi'
    · have hnul := hs.nul
      rwa [shift, Nat.add_comm] at hnul
    · rw [List.mem_cons, not_or]
      exact ⟨hx.symm, hs.ne_nul⟩

/-- Nothing beyond the NUL matters. -/
theorem IsString.congr {b b' : Buf} {s : List Byte} (h : IsString b s)
    (hb : Agree (s.length + 1) b b') : IsString b' s where
  bytes i hi := (hb i (by omega)).symm.trans (h.bytes i hi)
  nul := (hb _ (Nat.lt_succ_self _)).symm.trans h.nul
  ne_nul := h.ne_nul

theorem IsString.append {b : Buf} {s s' : List Byte} (hs : ∀ i (hi : i < s.length), b i = s[i])
    (hne : 0 ∉ s) (h : IsString (shift b s.length) s') : IsString b (s ++ s') where
  bytes i hi := by
    by_cases hlt : i < s.length
    · rw [hs i hlt, List.getElem_append_left hlt]
    · rw [List.getElem_append_right (by omega), ← h.bytes, shift]
      congr 1
      omega
  nul := by
    rw [List.length_append]
    exact h.nul
  ne_nul := by
    rw [List.mem_append, not_or]
    exact ⟨hne, h.ne_nul⟩

/-- Memory with a NUL in it starts with a string. -/
theorem exists_isString {b : Buf} {n : ℕ} (h : b n = 0) : ∃ s, IsString b s := by
  induction n generalizing b with
  | zero => exact ⟨[], isString_nil.2 h⟩
  | succ n ih =>
    by_cases h0 : b 0 = 0
    · exact ⟨[], isString_nil.2 h0⟩
    · obtain ⟨s, hs⟩ := ih (b := shift b 1) (by rwa [shift, Nat.add_comm])
      exact ⟨b 0 :: s, isString_cons.2 ⟨rfl, h0, hs⟩⟩

/-- A string, with its NUL, is what lies in memory where it was written. -/
theorem isString_poke {b : Buf} {off : ℕ} {s : List Byte} (hs : 0 ∉ s) :
    IsString (shift (poke b off (s ++ [0])) off) s where
  bytes i hi := by
    rw [shift, poke_add (by simp; omega), List.getElem_append_left hi]
  nul := by
    rw [shift, poke_add (by simp), List.getElem_append_right (Nat.le_refl _)]
    simp
  ne_nul := hs

theorem IsString.peek_eq {b : Buf} {off n : ℕ} {s : List Byte} (h : IsString (shift b off) s) :
    peek b off (s.length + (1 + n)) = s ++ 0 :: peek b (off + s.length + 1) n := by
  have hbytes : peek b off s.length = s := by
    apply List.ext_getElem (by simp)
    intro i hi hi'
    rw [getElem_peek]
    exact h.bytes i hi'
  have hnul : peek b (off + s.length) 1 = [0] := by
    have h0 : b (off + s.length) = 0 := h.nul
    simp [peek, h0]
  rw [peek_add, peek_add, hbytes, hnul]
  rfl

/-! ## The sum of the bytes -/

/-- The sum of the bytes, read as signed. -/
def byteSum (s : List Byte) : ℤ := (s.map BitVec.toInt).sum

@[simp] theorem byteSum_nil : byteSum [] = 0 := rfl

@[simp] theorem byteSum_cons (x : Byte) (s : List Byte) :
    byteSum (x :: s) = x.toInt + byteSum s := by
  simp [byteSum]

theorem byteSum_append (s s' : List Byte) : byteSum (s ++ s') = byteSum s + byteSum s' := by
  simp [byteSum]

theorem byteSum_bounds (s : List Byte) :
    -128 * (s.length : ℤ) ≤ byteSum s ∧ byteSum s ≤ 127 * s.length := by
  induction s with
  | nil => simp
  | cons x s ih =>
    have hlow := BitVec.le_toInt x
    have hhigh := BitVec.toInt_lt (x := x)
    simp only [byteSum_cons, List.length_cons]
    push_cast
    constructor <;> omega

end CString
