import Mathlib.Algebra.Group.Nat.Defs
import QnxTutorial.CString

/-!
# `calculate_checksum`

All checksum servers have the same function. It adds the bytes up to the first NUL, as signed
`char`s, and nothing but that NUL ends the loop. So the loop takes fuel here, and
`calculateChecksum_eq` says how much is enough.
-/

namespace QnxTutorial.Checksum

open CString RecvBuf

/-- `for (c = text; *c != '\0'; c++) cksum += *c;`, from the `i`-th byte on. -/
def checksumLoop (text : Buf) : (fuel i : ℕ) → BitVec 32 → Option (BitVec 32)
  | 0, _, _ => none
  | fuel + 1, i, cksum =>
    if text i ≠ 0 then checksumLoop text fuel (i + 1) (cksum + (text i).signExtend 32)
    else some cksum

def calculateChecksum (fuel : ℕ) (text : Buf) : Option (BitVec 32) := checksumLoop text fuel 0 0

/-- The loop over a string looks at its bytes and at the NUL. -/
theorem checksumLoop_eq {text : Buf} {i fuel : ℕ} {cksum : BitVec 32} {s : List Byte}
    (h : IsString (shift text i) s) : checksumLoop text fuel i cksum =
      if s.length < fuel then some (cksum + BitVec.ofInt 32 (byteSum s)) else none := by
  induction s generalizing i fuel cksum with
  | nil =>
    have h0 : text i = 0 := isString_nil.1 h
    cases fuel with
    | zero => rfl
    | succ fuel => simp [checksumLoop, h0]
  | cons x s ih =>
    obtain ⟨hx, hne, hs⟩ := isString_cons.1 h
    rw [shift_shift] at hs
    have hi : text i = x := hx
    cases fuel with
    | zero => rfl
    | succ fuel =>
      rw [checksumLoop, hi, if_pos hne, ih hs]
      simp only [List.length_cons, Nat.add_lt_add_iff_right, byteSum_cons, BitVec.ofInt_add,
        BitVec.add_assoc]
      rfl

theorem checksumLoop_none {text : Buf} (h : ∀ i, text i ≠ 0) (fuel i : ℕ) (cksum : BitVec 32) :
    checksumLoop text fuel i cksum = none := by
  induction fuel generalizing i cksum with
  | zero => rfl
  | succ fuel ih => rw [checksumLoop, if_pos (h i), ih]

/-- Of a string the function makes its sum, provided it may look at the NUL. -/
theorem calculateChecksum_eq {text : Buf} {s : List Byte} (h : IsString text s) {fuel : ℕ}
    (hfuel : s.length < fuel) :
    calculateChecksum fuel text = some (BitVec.ofInt 32 (byteSum s)) := by
  rw [calculateChecksum, checksumLoop_eq (s := s) (by rwa [shift_zero]), if_pos hfuel]
  exact congrArg some (BitVec.zero_add _)

theorem isSome_calculateChecksum_iff {text : Buf} {fuel : ℕ} :
    (calculateChecksum fuel text).isSome ↔ ∃ i < fuel, text i = 0 := by
  constructor
  · intro hsome
    by_cases hnul : ∀ i, text i ≠ 0
    · rw [calculateChecksum, checksumLoop_none hnul] at hsome
      cases hsome
    · simp only [not_forall, not_not] at hnul
      obtain ⟨n, hn⟩ := hnul
      obtain ⟨s, hs⟩ := exists_isString hn
      rw [calculateChecksum, checksumLoop_eq (s := s) (by rwa [shift_zero])] at hsome
      split_ifs at hsome with hlen
      · exact ⟨s.length, hlen, hs.nul⟩
      · cases hsome
  · rintro ⟨n, hn, hnul⟩
    obtain ⟨s, hs⟩ := exists_isString hnul
    rw [calculateChecksum_eq hs (Nat.lt_of_le_of_lt (hs.length_le hnul) hn)]
    rfl

theorem exists_calculateChecksum_iff {text : Buf} {cksum : BitVec 32} :
    (∃ fuel, calculateChecksum fuel text = some cksum) ↔
      ∃ s, IsString text s ∧ cksum = BitVec.ofInt 32 (byteSum s) := by
  constructor
  · rintro ⟨fuel, hfuel⟩
    obtain ⟨n, hn, hnul⟩ := isSome_calculateChecksum_iff.1 (Option.isSome_of_eq_some hfuel)
    obtain ⟨s, hs⟩ := exists_isString hnul
    have hlen := Nat.lt_of_le_of_lt (hs.length_le hnul) hn
    exact ⟨s, hs, Option.some.inj (hfuel.symm.trans (calculateChecksum_eq hs hlen))⟩
  · rintro ⟨s, hs, rfl⟩
    exact ⟨s.length + 1, calculateChecksum_eq hs (Nat.lt_succ_self _)⟩

end QnxTutorial.Checksum
