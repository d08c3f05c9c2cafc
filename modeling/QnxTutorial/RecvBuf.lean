import Mathlib.Algebra.Group.Nat.Defs
import Mathlib.Data.List.Basic
import Mathlib.Logic.Function.Basic

/-!
# Receive buffers

A server receives every message into the same buffer. Receiving overwrites as many bytes as the
message has and the buffer can take, and leaves the others as earlier messages left them. A field
that lies within the received bytes is a function of the message alone (`receive_agree`), and a
byte beyond them can be anything (`receive_of_length_le`).

Fields are read little-endian.
-/

namespace RecvBuf

abbrev Byte := BitVec 8

/-- The memory from the start of the buffer on. -/
abbrev Buf := ℕ → Byte

/-- Receive `msg` into a buffer of `size` bytes. -/
def receive (size : ℕ) (msg : List Byte) (buf : Buf) : Buf := fun i =>
  if i < size then msg[i]?.getD (buf i) else buf i

/-- The buffers have the same first `n` bytes. -/
def Agree (n : ℕ) (b b' : Buf) : Prop := ∀ i < n, b i = b' i

theorem receive_of_lt {size i : ℕ} {msg : List Byte} (buf : Buf) (hi : i < size)
    (hmsg : i < msg.length) : receive size msg buf i = msg[i] := by
  simp [receive, hi, hmsg]

theorem receive_of_length_le {size i : ℕ} {msg : List Byte} (buf : Buf) (hmsg : msg.length ≤ i) :
    receive size msg buf i = buf i := by
  simp [receive, hmsg]

/-- What was received does not depend on what was there before. -/
theorem receive_agree {size size' n : ℕ} {msg : List Byte} (hsize : n ≤ size) (hsize' : n ≤ size')
    (hmsg : n ≤ msg.length) (buf buf' : Buf) :
    Agree n (receive size msg buf) (receive size' msg buf') := by
  intro i hi
  rw [receive_of_lt buf (by omega) (by omega), receive_of_lt buf' (by omega) (by omega)]

theorem receive_update {size i : ℕ} {msg : List Byte} (buf : Buf) (hmsg : msg.length ≤ i)
    (x : Byte) :
    receive size msg (Function.update buf i x) = Function.update (receive size msg buf) i x := by
  funext j
  by_cases hj : j = i
  · subst hj
    rw [receive_of_length_le _ hmsg, Function.update_self, Function.update_self]
  · simp [receive, Function.update_of_ne hj]

/-! ## Fields -/

def u16 (b : Buf) (off : ℕ) : BitVec 16 := b (off + 1) ++ b off

def u32 (b : Buf) (off : ℕ) : BitVec 32 := b (off + 3) ++ b (off + 2) ++ b (off + 1) ++ b off

theorem Agree.u16 {n off : ℕ} {b b' : Buf} (h : Agree n b b') (hoff : off + 2 ≤ n) :
    u16 b off = u16 b' off := by
  rw [RecvBuf.u16, RecvBuf.u16, h _ (by omega), h _ (by omega)]

theorem Agree.u32 {n off : ℕ} {b b' : Buf} (h : Agree n b b') (hoff : off + 4 ≤ n) :
    u32 b off = u32 b' off := by
  rw [RecvBuf.u32, RecvBuf.u32, h _ (by omega), h _ (by omega), h _ (by omega), h _ (by omega)]

theorem toNat_append_byte {n : ℕ} (x : BitVec n) (y : Byte) :
    (x ++ y).toNat = x.toNat * 2 ^ 8 + y.toNat := by
  rw [BitVec.toNat_append, ← Nat.shiftLeft_add_eq_or_of_lt y.isLt, Nat.shiftLeft_eq]

theorem u32_toNat (b : Buf) (off : ℕ) : (u32 b off).toNat =
    (b (off + 3)).toNat * 2 ^ 24 + (b (off + 2)).toNat * 2 ^ 16 + (b (off + 1)).toNat * 2 ^ 8 +
      (b off).toNat := by
  rw [u32, toNat_append_byte, toNat_append_byte, toNat_append_byte]
  omega

theorem u32_update_of_lt {off i : ℕ} (b : Buf) (x : Byte) (h : off + 4 ≤ i) :
    u32 (Function.update b i x) off = u32 b off := by
  have hb : Agree (off + 4) (Function.update b i x) b := by
    intro j hj
    rw [Function.update_of_ne (by omega)]
  exact hb.u32 (Nat.le_refl _)

theorem u32_update_last {off : ℕ} (b : Buf) {x y : Byte}
    (h : u32 (Function.update b (off + 3) x) off = u32 (Function.update b (off + 3) y) off) :
    x = y := by
  have hnat := congrArg BitVec.toNat h
  simp only [u32_toNat, Function.update_self, Function.update_of_ne
    (show off + 2 ≠ off + 3 by omega), Function.update_of_ne (show off + 1 ≠ off + 3 by omega),
    Function.update_of_ne (show off ≠ off + 3 by omega)] at hnat
  exact BitVec.eq_of_toNat_eq (by omega)

end RecvBuf
