import Mathlib.Tactic.SplitIfs
import QnxTutorial.RecvBuf

/-!
# Writing into memory and reading from it

`poke` writes bytes at an offset and leaves the others, `peek` reads some back. A field is written
as its bytes, lowest first.
-/

namespace RecvBuf

/-- Write `bytes` at `off`. -/
def poke (b : Buf) (off : ℕ) (bytes : List Byte) : Buf := fun i =>
  if off ≤ i then bytes[i - off]?.getD (b i) else b i

/-- The `n` bytes from `off` on. -/
def peek (b : Buf) (off n : ℕ) : List Byte := (List.range n).map fun i => b (off + i)

/-- The memory from `off` on. -/
def shift (b : Buf) (off : ℕ) : Buf := fun i => b (off + i)

@[simp] theorem shift_shift (b : Buf) (i j : ℕ) : shift (shift b i) j = shift b (i + j) := by
  funext k
  rw [shift, shift, shift, Nat.add_assoc]

@[simp] theorem shift_zero (b : Buf) : shift b 0 = b := by
  funext i
  rw [shift, Nat.zero_add]

variable {b : Buf} {off i n : ℕ} {bytes : List Byte}

theorem poke_add (hi : i < bytes.length) : poke b off bytes (off + i) = bytes[i] := by
  simp [poke, hi]

theorem poke_of_lt (hi : i < off) : poke b off bytes i = b i := by
  rw [poke, if_neg (by omega)]

@[simp] theorem length_peek : (peek b off n).length = n := by
  simp [peek]

theorem getElem_peek (hi : i < (peek b off n).length) : (peek b off n)[i] = b (off + i) := by
  simp [peek]

theorem peek_poke : peek (poke b off bytes) off bytes.length = bytes := by
  apply List.ext_getElem (by simp)
  intro i hi hi'
  rw [getElem_peek, poke_add hi']

theorem peek_add (m : ℕ) : peek b off (m + n) = peek b off m ++ peek b (off + m) n := by
  simp [peek, List.range_add, Nat.add_assoc]

/-- Bytes that are sent from memory arrive, as many as are sent and fit. -/
theorem receive_peek {size m : ℕ} (buf : Buf) (hsize : m ≤ size) (hn : m ≤ n) :
    Agree m (receive size (peek b 0 n) buf) b := by
  intro i hi
  rw [receive_of_lt buf (by omega) (by simpa using by omega), getElem_peek, Nat.zero_add]

/-! ## Fields -/

def le16 (v : BitVec 16) : List Byte := [v.setWidth 8, (v >>> 8).setWidth 8]

def le32 (v : BitVec 32) : List Byte :=
  [v.setWidth 8, (v >>> 8).setWidth 8, (v >>> 16).setWidth 8, (v >>> 24).setWidth 8]

theorem u16_of_bytes {v : BitVec 16} (h : ∀ i (hi : i < 2), b (off + i) = (le16 v)[i]) :
    u16 b off = v := by
  have h0 := h 0 (by decide)
  have h1 := h 1 (by decide)
  apply BitVec.eq_of_toNat_eq
  rw [u16, h1, show b off = _ from h0, toNat_append_byte]
  simp only [le16, List.getElem_cons_zero, List.getElem_cons_succ, BitVec.toNat_setWidth,
    BitVec.toNat_ushiftRight, Nat.shiftRight_eq_div_pow]
  omega

theorem u32_of_bytes {v : BitVec 32} (h : ∀ i (hi : i < 4), b (off + i) = (le32 v)[i]) :
    u32 b off = v := by
  have h0 := h 0 (by decide)
  apply BitVec.eq_of_toNat_eq
  rw [u32_toNat, h 1 (by decide), h 2 (by decide), h 3 (by decide), show b off = _ from h0]
  simp only [le32, List.getElem_cons_zero, List.getElem_cons_succ, BitVec.toNat_setWidth,
    BitVec.toNat_ushiftRight, Nat.shiftRight_eq_div_pow]
  omega

theorem u32_poke (v : BitVec 32) : u32 (poke b off (le32 v)) off = v :=
  u32_of_bytes fun _ hi => poke_add hi

end RecvBuf
