import Mathlib.Data.Int.Notation
import QnxTutorial.RecvBuf

/-!
# What the servers use of the system headers

The message types of the tutorial start above `_IO_MAX`, and every server that attaches a name
also receives pulses from the kernel, in the same buffer as its messages. The constants and the
layout of `struct _pulse` are in headers outside this repository, so they are parameters;
`Neutrino.x86_64` has the values of a 64-bit system.
-/

namespace QnxTutorial

open RecvBuf

/-- The fields of a pulse lie in its bytes. -/
structure Neutrino where
  ioMax : ℕ
  pulseCodeDisconnect : ℤ
  sizeofPulse : ℕ
  pulseCode : Buf → ℤ
  pulseScoid : Buf → ℤ
  pulseCode_congr : ∀ {b b'}, Agree sizeofPulse b b' → pulseCode b = pulseCode b'
  pulseScoid_congr : ∀ {b b'}, Agree sizeofPulse b b' → pulseScoid b = pulseScoid b'

/-- `type` and `subtype`, `code` at 4, the value at 8, `scoid` at 16. -/
def Neutrino.x86_64 : Neutrino where
  ioMax := 0x1ff
  pulseCodeDisconnect := -33
  sizeofPulse := 24
  pulseCode b := (b 4).toInt
  pulseScoid b := (u32 b 16).toInt
  pulseCode_congr h := by rw [h 4 (by decide)]
  pulseScoid_congr h := by rw [h.u32 (by decide)]

end QnxTutorial
