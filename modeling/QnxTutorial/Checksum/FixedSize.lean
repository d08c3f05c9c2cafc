import QnxTutorial.Checksum.Loop
import QnxTutorial.Neutrino

/-!
# The checksum service with messages of a fixed size

A client puts a string into a `cksum_msg_t` and sends it, and one of the servers answers with the
checksum of the string. `client.c` sends the whole structure, the other clients only as much as
the string takes. A server receives into a buffer that still has what earlier messages and pulses
left, and does not look at how much it received.

**Theorem (`service_answers`).** Every server answers every client with the sum of the first 256
bytes of its string, whatever is left in the buffer and in the client's structure.
-/

namespace QnxTutorial.Checksum

open CString RecvBuf

/-! ## Messages -/

/-- The system headers, with the size of the union that the servers receive into. Message types are
16 bit. -/
structure Headers extends Neutrino where
  sizeofRecvBuf : ℕ
  sizeofPulse_le : sizeofPulse ≤ sizeofRecvBuf
  sizeofCksumMsg_le : 260 ≤ sizeofRecvBuf
  ioMax_lt : ioMax + 2 < 2 ^ 16

/-- On a 64-bit system a pulse makes the union a multiple of eight bytes. -/
def Headers.x86_64 : Headers where
  toNeutrino := .x86_64
  sizeofRecvBuf := 264
  sizeofPulse_le := by decide
  sizeofCksumMsg_le := by decide
  ioMax_lt := by decide

def maxStringLen : ℕ := 256

/-- The type is at 0 and `string_to_cksum` at 2, with a byte of padding after it. -/
def sizeofCksumMsg : ℕ := 260

/-- `CKSUM_MSG_TYPE`. -/
def Headers.cksumMsgType (H : Headers) : ℕ := H.ioMax + 1

/-! ## The clients -/

/-- `strlcpy(dst, src, size)`. -/
def strlcpy (b : Buf) (dst size : ℕ) (src : List Byte) : Buf :=
  poke b dst (src.take (size - 1) ++ [0])

/-- `strlen` of a string in a field of `size` bytes. -/
def strlen (b : Buf) (off size : ℕ) : ℕ := ((peek b off size).takeWhile (· ≠ 0)).length

variable (H : Headers)

/-- A client's `msg`, which was not initialised. -/
def buildMsg (arg : List Byte) (uninit : Buf) : Buf :=
  strlcpy (poke uninit 0 (le16 (BitVec.ofNat 16 H.cksumMsgType))) 2 (maxStringLen + 1) arg

inductive Client where
  | client
  | pulseClient
  | nameLookupClient
  deriving DecidableEq

/-- What a client sends. -/
def Client.message (arg : List Byte) (uninit : Buf) : Client → List Byte
  | .client => peek (buildMsg H arg uninit) 0 sizeofCksumMsg
  | .pulseClient | .nameLookupClient =>
    let msg := buildMsg H arg uninit
    peek msg 0 (2 + strlen msg 2 (maxStringLen + 1) + 1)

/-! ## The servers -/

/-- What `MsgReceive` returns. The receive id of a message is positive, that of a pulse is zero, and
that of a failure is -1. -/
structure Received where
  rcvid : ℤ
  bytes : List Byte

/-- The error of a `MsgError`, where `errno` is what the call that failed left in it. -/
inductive Error where
  | enosys
  | ebadmsg
  | enomem
  | errno (e : ℤ)
  deriving DecidableEq

/-- The calls of a server, without the diagnostics. -/
inductive Call where
  | msgReply (rcvid : ℤ) (checksum : BitVec 32)
  | msgError (rcvid : ℤ) (e : Error)
  | connectDetach (scoid : ℤ)
  | exit
  deriving DecidableEq

/-- The answer to the message in `rbuf`. -/
def answer (fuel : ℕ) (rcvid : ℤ) (rbuf : Buf) : Option (List Call) :=
  if (u16 rbuf 0).toNat = H.cksumMsgType then
    (calculateChecksum fuel (shift rbuf 2)).map fun checksum => [.msgReply rcvid checksum]
  else some [.msgError rcvid .enosys]

/-- One round of a receive loop, with what is in the buffer before. -/
def round (size : ℕ) (onPulse : Buf → Option (List Call)) (fuel : ℕ) (r : Received) (rbuf : Buf) :
    Option (Buf × List Call) :=
  if r.rcvid = -1 then some (rbuf, [.exit])
  else
    let rbuf := receive size r.bytes rbuf
    (if r.rcvid = 0 then onPulse rbuf else answer H fuel r.rcvid rbuf).map (rbuf, ·)

/-- `server.c` takes a pulse for a message. -/
def server (fuel : ℕ) : Received → Buf → Option (Buf × List Call) :=
  round H sizeofCksumMsg (answer H fuel 0) fuel

def pulseServer (fuel : ℕ) : Received → Buf → Option (Buf × List Call) :=
  round H H.sizeofRecvBuf (fun _ => some []) fuel

def nameLookupServer (fuel : ℕ) : Received → Buf → Option (Buf × List Call) :=
  round H H.sizeofRecvBuf
    (fun rbuf => some <| if H.pulseCode rbuf = H.pulseCodeDisconnect then
      [.connectDetach (H.pulseScoid rbuf)] else []) fuel

inductive Server where
  | server
  | pulseServer
  | nameLookupServer
  deriving DecidableEq

def Server.round (fuel : ℕ) : Server → Received → Buf → Option (Buf × List Call)
  | .server => Checksum.server H fuel
  | .pulseServer => Checksum.pulseServer H fuel
  | .nameLookupServer => Checksum.nameLookupServer H fuel

/-! ## What a client sends -/

variable {H} {arg : List Byte} {uninit : Buf}

theorem strlen_eq {b : Buf} {off size : ℕ} {s : List Byte} (h : IsString (shift b off) s)
    (hsize : s.length < size) : strlen b off size = s.length := by
  have hn : size = s.length + (1 + (size - s.length - 1)) := by omega
  have hs : ∀ x ∈ s, decide (x ≠ 0) = true := by
    intro x hx
    exact decide_eq_true fun h0 => h.ne_nul (h0 ▸ hx)
  rw [strlen, hn, h.peek_eq, List.takeWhile_append_of_pos hs]
  simp

theorem u16_buildMsg : (u16 (buildMsg H arg uninit) 0).toNat = H.cksumMsgType := by
  have htype : u16 (buildMsg H arg uninit) 0 = BitVec.ofNat 16 H.cksumMsgType := by
    apply u16_of_bytes
    intro i hi
    rw [buildMsg, strlcpy, poke_of_lt (by omega)]
    exact poke_add hi
  have hlt := H.ioMax_lt
  rw [htype, BitVec.toNat_ofNat, Nat.mod_eq_of_lt]
  unfold Headers.cksumMsgType
  omega

theorem isString_buildMsg (hs : 0 ∉ arg) :
    IsString (shift (buildMsg H arg uninit) 2) (arg.take maxStringLen) :=
  isString_poke fun h0 => hs (List.mem_of_mem_take h0)

theorem length_take_le (arg : List Byte) : (arg.take maxStringLen).length ≤ maxStringLen := by
  rw [List.length_take]
  exact Nat.min_le_left _ _

/-- A client sends at least what the string takes. -/
theorem exists_message_eq (hs : 0 ∉ arg) (c : Client) :
    ∃ n, c.message H arg uninit = peek (buildMsg H arg uninit) 0 n ∧
      2 + (arg.take maxStringLen).length + 1 ≤ n := by
  have hle := length_take_le arg
  have hstrlen : strlen (buildMsg H arg uninit) 2 (maxStringLen + 1) = _ :=
    strlen_eq (isString_buildMsg hs) (Nat.lt_succ_of_le hle)
  cases c with
  | client =>
    refine ⟨_, rfl, ?_⟩
    unfold maxStringLen sizeofCksumMsg at *
    omega
  | pulseClient | nameLookupClient => exact ⟨_, rfl, by omega⟩

/-! ## What a server makes of it -/

/-- The message is all that the answer depends on. -/
theorem answer_eq (hs : 0 ∉ arg) (c : Client) {size fuel : ℕ} (hsize : sizeofCksumMsg ≤ size)
    (hfuel : maxStringLen < fuel) (rcvid : ℤ) (rbuf : Buf) :
    answer H fuel rcvid (receive size (c.message H arg uninit) rbuf) =
      some [.msgReply rcvid (BitVec.ofInt 32 (byteSum (arg.take maxStringLen)))] := by
  obtain ⟨n, hmsg, hn⟩ : ∃ n, c.message H arg uninit = _ ∧ _ := exists_message_eq hs c
  have hle := length_take_le arg
  have hfits : 2 + (arg.take maxStringLen).length + 1 ≤ size := by
    unfold maxStringLen sizeofCksumMsg at *
    omega
  have hagree : Agree (2 + (arg.take maxStringLen).length + 1)
      (receive size (c.message H arg uninit) rbuf) (buildMsg H arg uninit) := by
    rw [hmsg]
    exact receive_peek rbuf hfits hn
  have htype : (u16 (receive size (c.message H arg uninit) rbuf) 0).toNat = H.cksumMsgType := by
    rw [hagree.u16 (by omega), u16_buildMsg]
  have hstring : IsString (shift (receive size (c.message H arg uninit) rbuf) 2)
      (arg.take maxStringLen) := by
    have hbuilt : IsString (shift (buildMsg H arg uninit) 2) _ := isString_buildMsg hs
    apply hbuilt.congr
    intro i hi
    exact (hagree (2 + i) (by omega)).symm
  rw [answer, if_pos htype, calculateChecksum_eq hstring (by omega)]
  rfl

theorem byteSum_take_bounds (s : List Byte) (n : ℕ) (hn : n ≤ maxStringLen) :
    -2 ^ 31 ≤ byteSum (s.take n) ∧ byteSum (s.take n) < 2 ^ 31 := by
  have hbounds := byteSum_bounds (s.take n)
  have hlen : (s.take n).length ≤ n := by
    rw [List.length_take]
    exact Nat.min_le_left _ _
  unfold maxStringLen at hn
  omega

theorem toInt_ofInt {z : ℤ} (h : -2 ^ 31 ≤ z ∧ z < 2 ^ 31) : (BitVec.ofInt 32 z).toInt = z := by
  rw [BitVec.toInt_ofInt, Int.bmod_eq_of_le (by omega) (by omega)]

theorem round_of_message {size fuel : ℕ} {onPulse : Buf → Option (List Call)} {r : Received}
    (hrcvid : 0 < r.rcvid) (rbuf : Buf) : round H size onPulse fuel r rbuf =
      (answer H fuel r.rcvid (receive size r.bytes rbuf)).map
        (receive size r.bytes rbuf, ·) := by
  rw [round, if_neg (by omega)]
  simp only [if_neg (Int.ne_of_gt hrcvid)]

theorem round_of_pulse {size fuel : ℕ} {onPulse : Buf → Option (List Call)} {r : Received}
    (hrcvid : r.rcvid = 0) (rbuf : Buf) : round H size onPulse fuel r rbuf =
      (onPulse (receive size r.bytes rbuf)).map (receive size r.bytes rbuf, ·) := by
  rw [round, if_neg (by omega)]
  simp only [if_pos hrcvid]

theorem round_eq (hs : 0 ∉ arg) (c : Client) (v : Server) {fuel : ℕ} (hfuel : maxStringLen < fuel)
    {rcvid : ℤ} (hrcvid : 0 < rcvid) (rbuf : Buf) :
    (v.round H fuel ⟨rcvid, c.message H arg uninit⟩ rbuf).map Prod.snd =
      some [.msgReply rcvid (BitVec.ofInt 32 (byteSum (arg.take maxStringLen)))] := by
  have hle := H.sizeofCksumMsg_le
  cases v with
  | server =>
    rw [Server.round, server, round_of_message hrcvid, answer_eq hs c (Nat.le_refl _) hfuel]
    rfl
  | pulseServer =>
    rw [Server.round, pulseServer, round_of_message hrcvid, answer_eq hs c hle hfuel]
    rfl
  | nameLookupServer =>
    rw [Server.round, nameLookupServer, round_of_message hrcvid, answer_eq hs c hle hfuel]
    rfl

/-- **Every server answers every client** with the checksum of the first 256 bytes, which never
leaves the range of an `int`. -/
theorem service_answers (H : Headers) (s : List Byte) (hs : 0 ∉ s) (uninit rbuf : Buf) (rcvid : ℤ)
    (hrcvid : 0 < rcvid) (fuel : ℕ) (hfuel : maxStringLen < fuel) :
    (∀ (c : Client) (v : Server), ∃ checksum,
      (v.round H fuel ⟨rcvid, c.message H s uninit⟩ rbuf).map Prod.snd =
        some [.msgReply rcvid checksum] ∧
      checksum.toInt = byteSum (s.take maxStringLen)) ∧
    ∀ n ≤ maxStringLen, -2 ^ 31 ≤ byteSum (s.take n) ∧ byteSum (s.take n) < 2 ^ 31 := by
  refine ⟨?_, fun n hn => byteSum_take_bounds s n hn⟩
  intro c v
  have hbounds := byteSum_take_bounds s _ (Nat.le_refl maxStringLen)
  exact ⟨_, round_eq hs c v hfuel hrcvid rbuf, toInt_ofInt hbounds⟩

theorem service_answers_hi : ∃ checksum,
    ((Server.nameLookupServer.round .x86_64 257
      ⟨1, Client.client.message .x86_64 [0x68, 0x69] fun _ => 0xaa⟩ fun _ => 0x55).map Prod.snd =
      some [.msgReply 1 checksum]) ∧ checksum.toInt = 209 :=
  (service_answers .x86_64 [0x68, 0x69] (by decide) (fun _ => 0xaa) (fun _ => 0x55) 1 (by decide)
    257 (by decide)).1 .client .nameLookupServer

end QnxTutorial.Checksum
