import QnxTutorial.Neutrino
import QnxTutorial.ShmemQnx.Region

/-!
# Leftovers in the receive buffer

`rbuf` is a union, and every message and pulse is received into it. The server never looks at how
many bytes it got, so a short message leaves the last fields as they were after an earlier one.

**Theorem (`leftovers_iff`).** Exactly for which messages the leftovers do not matter.

**Theorem (`leftovers_matter`).** The holder can make the server act on the bytes of others with
the two bytes of a type.

**Theorem (`leftovers_pulse`).** For a whole pulse they never matter.
-/

namespace QnxTutorial.ShmemQnx

open Machine RecvBuf

/-! ## The loop, from the bytes on -/

variable (H : Neutrino)

/-- `sizeof(rbuf)`. The largest message is a `changed_shmem_msg_t`, of twelve bytes. -/
def sizeofRbuf : ℕ := max H.sizeofPulse 12

def getShmemMsgType : ℕ := H.ioMax + 200

def changedShmemMsgType : ℕ := H.ioMax + 201

def releaseShmemMsgType : ℕ := H.ioMax + 202

/-- `switch (rbuf.type)`, with the fields that the case reads. -/
def request (rbuf : Buf) : Request :=
  let type := (u16 rbuf 0).toNat
  if type = getShmemMsgType H then .get (u32 rbuf 4)
  else if type = changedShmemMsgType H then .changed (u32 rbuf 4) (u32 rbuf 8)
  else if type = releaseShmemMsgType H then .release
  else .unknown

/-- A pulse, in `rbuf`. -/
def handlePulse (rbuf : Buf) (s : State) : State × List Call :=
  if H.pulseCode rbuf = H.pulseCodeDisconnect then disconnect (H.pulseScoid rbuf) s else (s, [])

/-- What `MsgReceive` delivers, as bytes. -/
inductive Input where
  | pulse (bytes : List Byte)
  | message (info : MsgInfo) (bytes : List Byte) (env : Env)

def Input.bytes : Input → List Byte
  | .pulse bytes | .message _ bytes _ => bytes

/-- One round of the receive loop, with what is in `rbuf` before. -/
def round (resp : List Byte) (i : Input) (s : State) (rbuf : Buf) : State × List Call :=
  let rbuf := receive (sizeofRbuf H) i.bytes rbuf
  match i with
  | .pulse _ => handlePulse H rbuf s
  | .message info _ env => handle resp (.message info (request H rbuf) env) s

/-- The leftovers in `rbuf` do not matter: whatever they are, the server makes the same calls and
reaches the same state. -/
def IgnoresLeftovers (resp : List Byte) (i : Input) (s : State) : Prop :=
  ∀ rbuf rbuf', round H resp i s rbuf = round H resp i s rbuf'

/-! ## What is read -/

/-- `type`, of a message that has one. -/
def typeOf (bytes : List Byte) : ℕ := (u16 (receive 2 bytes fun _ => 0) 0).toNat

/-- A GET has all its eight bytes. A CHANGED from the holder has all its twelve bytes, unless the
bounds test fails whatever the others are. -/
structure Received (s : State) (info : MsgInfo) (bytes : List Byte) : Prop where
  get : typeOf bytes = getShmemMsgType H → 8 ≤ bytes.length
  changed : typeOf bytes = changedShmemMsgType H → info.scoid.1 = s.clientScoid →
    12 ≤ bytes.length ∨ ∀ rbuf, let rbuf := receive (sizeofRbuf H) bytes rbuf
      ¬ InBounds s.shmemMemorySize (u32 rbuf 4) (u32 rbuf 8)

variable {H}

theorem twelve_le_sizeofRbuf : 12 ≤ sizeofRbuf H := Nat.le_max_right _ _

theorem toNat_type {bytes : List Byte} (hlen : 2 ≤ bytes.length) (rbuf : Buf) :
    (u16 (receive (sizeofRbuf H) bytes rbuf) 0).toNat = typeOf bytes := by
  have hsize := twelve_le_sizeofRbuf (H := H)
  rw [typeOf, (receive_agree (by omega) (Nat.le_refl 2) hlen rbuf fun _ => 0).u16 (Nat.le_refl 2)]

theorem request_get {bytes : List Byte} (hlen : 2 ≤ bytes.length)
    (htype : typeOf bytes = getShmemMsgType H) (rbuf : Buf) :
    request H (receive (sizeofRbuf H) bytes rbuf) =
      .get (u32 (receive (sizeofRbuf H) bytes rbuf) 4) := by
  simp only [request, toNat_type hlen, htype, if_true]

theorem request_changed {bytes : List Byte} (hlen : 2 ≤ bytes.length)
    (htype : typeOf bytes = changedShmemMsgType H) (rbuf : Buf) :
    request H (receive (sizeofRbuf H) bytes rbuf) =
      .changed (u32 (receive (sizeofRbuf H) bytes rbuf) 4)
        (u32 (receive (sizeofRbuf H) bytes rbuf) 8) := by
  have hne : changedShmemMsgType H ≠ getShmemMsgType H := by
    unfold changedShmemMsgType getShmemMsgType
    omega
  simp only [request, toNat_type hlen, htype, if_neg hne, if_true]

theorem request_other {bytes : List Byte} (hlen : 2 ≤ bytes.length)
    (hget : typeOf bytes ≠ getShmemMsgType H) (hchanged : typeOf bytes ≠ changedShmemMsgType H)
    (rbuf rbuf' : Buf) : request H (receive (sizeofRbuf H) bytes rbuf) =
      request H (receive (sizeofRbuf H) bytes rbuf') := by
  simp only [request, toNat_type hlen, if_neg hget, if_neg hchanged]

/-! ## Enough is received -/

variable {resp : List Byte} {s : State} {info : MsgInfo} {bytes : List Byte} {env : Env}

theorem u32_receive {off : ℕ} (hoff : off + 4 ≤ 12) (hlen : off + 4 ≤ bytes.length)
    (rbuf rbuf' : Buf) : u32 (receive (sizeofRbuf H) bytes rbuf) off =
      u32 (receive (sizeofRbuf H) bytes rbuf') off := by
  have hsize := twelve_le_sizeofRbuf (H := H)
  exact (receive_agree (by omega) (by omega) hlen rbuf rbuf').u32 (Nat.le_refl _)

/-- A CHANGED message that is refused has no other effect. -/
theorem changedShmem_of_not_accepted {offset length : BitVec 32}
    (h : ¬ InBounds s.shmemMemorySize offset length) :
    changedShmem resp info offset length env s =
      (s, [.msgError (if info.scoid.1 = s.clientScoid then .ebadmsg else .eperm)]) := by
  unfold changedShmem
  split_ifs <;> simp_all

theorem Received.ignoresLeftovers (h : Received H s info bytes) (hlen : 2 ≤ bytes.length) :
    IgnoresLeftovers H resp (.message info bytes env) s := by
  intro rbuf rbuf'
  simp only [round, Input.bytes]
  by_cases hget : typeOf bytes = getShmemMsgType H
  · rw [request_get hlen hget, request_get hlen hget, u32_receive (by omega) (h.get hget)]
  · by_cases hchanged : typeOf bytes = changedShmemMsgType H
    · rw [request_changed hlen hchanged, request_changed hlen hchanged]
      by_cases hscoid : info.scoid.1 = s.clientScoid
      · rcases h.changed hchanged hscoid with hall | hrefused
        · rw [u32_receive (by decide : 4 + 4 ≤ 12) (by omega),
            u32_receive (by decide : 8 + 4 ≤ 12) hall]
        · simp only [handle]
          rw [changedShmem_of_not_accepted (hrefused rbuf),
            changedShmem_of_not_accepted (hrefused rbuf')]
      · simp only [handle, changedShmem, ne_eq, hscoid, not_false_eq_true, if_true]
    · rw [request_other hlen hget hchanged]

/-! ## Too little is received -/

theorem getShmem_of_last (b : Buf) {x : Byte} (hx : x ≠ 0) :
    getShmem info (u32 (Function.update b 7 x) 4) env s =
      ({ s with shmemMemorySize := u32 (Function.update b 7 x) 4 }, [.msgError .einval]) := by
  have hpos := toNat_pos hx
  have hn : (u32 (Function.update b 7 x) 4).toNat > 64 * 1024 := by
    rw [u32_toNat, show 4 + 3 = 7 from rfl, Function.update_self]
    omega
  rw [getShmem, if_pos hn]

theorem IgnoresLeftovers.get (h : IgnoresLeftovers H resp (.message info bytes env) s)
    (hlen : 2 ≤ bytes.length) (hget : typeOf bytes = getShmemMsgType H) : 8 ≤ bytes.length := by
  by_contra hshort
  have hmissing : bytes.length ≤ 7 := by omega
  have heq := h (Function.update (fun _ => 0) 7 1) (Function.update (fun _ => 0) 7 2)
  simp only [round, Input.bytes] at heq
  rw [request_get hlen hget, request_get hlen hget, receive_update _ hmissing,
    receive_update _ hmissing] at heq
  simp only [handle] at heq
  rw [getShmem_of_last _ (by decide), getShmem_of_last _ (by decide)] at heq
  have hsize := congrArg (fun r => r.1.shmemMemorySize) heq
  exact absurd (u32_update_last _ hsize) (by decide)

/-- The length of an accepted message shows in the bytes that are read. -/
theorem changedShmem_length_inj {offset length length' : BitVec 32}
    (ha : Accepted s info offset length)
    (h : changedShmem resp info offset length env s = changedShmem resp info offset length' env s) :
    length = length' := by
  have haccess := congrArg (fun r => r.2.filterMap Call.access) h
  simp only [access_changedShmem, if_pos ha] at haccess
  split_ifs at haccess
  simp only [List.cons.injEq, Prod.mk.injEq, true_and, and_true] at haccess
  exact BitVec.eq_of_toNat_eq haccess

/-- The last byte of the length must be received, if any length is accepted. -/
theorem IgnoresLeftovers.changed (h : IgnoresLeftovers H resp (.message info bytes env) s)
    (hlen : 2 ≤ bytes.length) (hchanged : typeOf bytes = changedShmemMsgType H)
    (hscoid : info.scoid.1 = s.clientScoid) (rbuf : Buf)
    (hbounds : InBounds s.shmemMemorySize (u32 (receive (sizeofRbuf H) bytes rbuf) 4)
      (u32 (receive (sizeofRbuf H) bytes rbuf) 8)) : 12 ≤ bytes.length := by
  by_contra hshort
  have hmissing : bytes.length ≤ 11 := by omega
  have heq := h rbuf (Function.update rbuf 11 (rbuf 11 + 1))
  simp only [round, Input.bytes] at heq
  rw [request_changed hlen hchanged, request_changed hlen hchanged,
    receive_update _ hmissing, u32_update_of_lt _ _ (by decide : 4 + 4 ≤ 11)] at heq
  have hlength := changedShmem_length_inj ⟨hscoid, hbounds⟩ heq
  rw [← Function.update_eq_self 11 (receive (sizeofRbuf H) bytes rbuf),
    Function.update_idem] at hlength
  have hlast := u32_update_last _ hlength
  rw [receive_of_length_le _ hmissing] at hlast
  bv_omega

/-! ## The theorems -/

/-- **The leftovers do not matter** exactly if everything that decides has been received. -/
theorem leftovers_iff (H : Neutrino) (argv1 : Option (List Byte)) (s : State) (info : MsgInfo)
    (bytes : List Byte) (env : Env) (hlen : 2 ≤ bytes.length) :
    IgnoresLeftovers H (response argv1) (.message info bytes env) s ↔ Received H s info bytes := by
  constructor
  · intro h
    refine ⟨h.get hlen, ?_⟩
    intro hchanged hscoid
    by_cases hall : 12 ≤ bytes.length
    · exact .inl hall
    · exact .inr fun rbuf hbounds => hall (h.changed hlen hchanged hscoid rbuf hbounds)
  · exact fun h => h.ignoresLeftovers hlen

/-- **For a whole pulse the leftovers do not matter.** -/
theorem leftovers_pulse (hlen : H.sizeofPulse ≤ bytes.length) :
    IgnoresLeftovers H resp (.pulse bytes) s := by
  intro rbuf rbuf'
  have hsize : H.sizeofPulse ≤ sizeofRbuf H := Nat.le_max_left _ _
  have hagree := receive_agree hsize hsize hlen rbuf rbuf'
  show handlePulse H (receive _ bytes rbuf) s = handlePulse H (receive _ bytes rbuf') s
  unfold handlePulse
  rw [H.pulseCode_congr hagree, H.pulseScoid_congr hagree]

theorem leftovers_iff_whole : IgnoresLeftovers .x86_64 (response none)
    (.message firstClient [0xc8, 2, 0, 0, 0, 0, 0, 0, 4, 0, 0, 0] (.allWell 0))
    ⟨1, 0x10000, 8192, [⟨0x10000, 8192⟩]⟩ :=
  (leftovers_iff _ none _ _ _ _ (by decide)).2
    ⟨fun h => absurd h (by decide), fun _ _ => .inl (by decide)⟩

/-- **The leftovers matter** for a CHANGED message without offset and length. -/
theorem leftovers_matter : ¬ ∀ (h : List (State × Event)) (s : State),
    (server (response none)).Run h s → ∀ info bytes env, 2 ≤ bytes.length →
      IgnoresLeftovers .x86_64 (response none) (.message info bytes env) s := by
  intro hall
  have hrun := run_first (response none) (n := 8192) (by decide) (by decide)
  have heq := hall _ _ hrun firstClient [0xc8, 2] (.allWell 0) (by decide) (fun _ => 0)
    fun _ => 0xff
  exact absurd heq (by decide)

end QnxTutorial.ShmemQnx
