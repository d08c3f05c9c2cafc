import QnxTutorial.Checksum.FixedSize

/-!
# The checksum service with messages in two parts

`iov_client` sends a header with the size of the data, and the data behind it. `iov_server`
receives no more than fits its small buffer, and once it has looked at the header it reads the data
out of the client into a block that it allocates.

**Theorem (`iov_round_trip_iff`).** A text comes back as its checksum, with one exception: the
result of `MsgRead` is kept in an `int`, and a count of 2^32 - 1 bytes is taken for a failure.
-/

namespace QnxTutorial.Checksum.Iov

open CString RecvBuf

structure Headers extends Checksum.Headers where
  pulseCodeUnblock : ℤ
  pulseValue : Buf → ℤ

def Headers.x86_64 : Headers where
  toHeaders := .x86_64
  pulseCodeUnblock := -32
  pulseValue b := (u32 b 12 ++ u32 b 8).toInt

/-- `CKSUM_IOV_MSG_TYPE`. -/
def Headers.cksumIovMsgType (H : Headers) : ℕ := H.ioMax + 2

/-- The type is at 0, and `data_size` at 4. -/
def sizeofCksumHeader : ℕ := 8

/-- `sizeof(msg_buf_t)`. -/
def Headers.sizeofMsgBuf (H : Headers) : ℕ := max H.sizeofPulse sizeofCksumHeader

variable (H : Headers)

/-! ## The client -/

/-- `hdr.data_size = strlen(argv[1]) + 1`. -/
def dataSize (arg : List Byte) : BitVec 32 := BitVec.ofNat 32 (arg.length + 1)

/-- A client's `hdr`, which was not initialised. -/
def buildHdr (arg : List Byte) (uninit : Buf) : Buf :=
  poke (poke uninit 0 (le16 (BitVec.ofNat 16 H.cksumIovMsgType))) 4 (le32 (dataSize arg))

/-- What `iov_client` sends, gathered from its two parts. -/
def message (arg : List Byte) (uninit : Buf) : List Byte :=
  peek (buildHdr H arg uninit) 0 sizeofCksumHeader ++ (arg ++ [0]).take (dataSize arg).toNat

/-! ## The server -/

/-- A message, with all that its client has sent, or a pulse. The lengths are 64 bit, and
`sizeof(cksum_header_t) + data_size` cannot overflow there. -/
structure Received where
  rcvid : ℤ
  msglen : ℕ
  srcmsglen : ℕ
  sent : List Byte

/-- What the calls return: the block with what was in it, or `NULL`; how many bytes `MsgRead` reads,
or `errno` if it fails; and whether `MsgReply` fails with `ESRVRFAULT`. -/
structure Env where
  malloc : Option Buf
  msgRead : Option ℕ
  errno : ℤ
  srvrfault : Bool

/-- What `MsgRead` returns, an `ssize_t`. -/
def Env.msgReadStatus (env : Env) : BitVec 64 :=
  match env.msgRead with
  | some n => BitVec.ofNat 64 n
  | none => -1

inductive Call where
  | answer (c : Checksum.Call)
  | malloc (size : BitVec 32)
  | msgRead (size : BitVec 32) (off : ℕ)
  | free
  | exit
  deriving DecidableEq

def Call.answer? : Call → Option Checksum.Call
  | .answer c => some c
  | _ => none

/-- The block after `MsgRead`. -/
def readData (r : Received) (env : Env) (size : BitVec 32) (block : Buf) : Buf :=
  receive size.toNat ((r.sent.drop sizeofCksumHeader).take (env.msgRead.getD 0)) block

/-- The request passed the length checks. -/
def readAndReply (fuel : ℕ) (r : Received) (env : Env) (size : BitVec 32) : Option (List Call) :=
  match env.malloc with
  | none => some [.malloc size, .answer (.msgError r.rcvid .enomem)]
  | some block =>
    -- `status` is an `int`.
    if env.msgReadStatus.setWidth 32 = (-1 : BitVec 32) then
      some [.malloc size, .msgRead size sizeofCksumHeader,
        .answer (.msgError r.rcvid (.errno env.errno)), .free]
    else (calculateChecksum fuel (readData r env size block)).map fun checksum =>
      [.malloc size, .msgRead size sizeofCksumHeader, .free,
        .answer (.msgReply r.rcvid checksum)] ++ if env.srvrfault then [.exit] else []

def handleMessage (fuel : ℕ) (r : Received) (env : Env) (msg : Buf) : Option (List Call) :=
  if r.msglen < 2 then some [.answer (.msgError r.rcvid .ebadmsg)]
  else if (u16 msg 0).toNat = H.cksumIovMsgType then
    if r.msglen < sizeofCksumHeader then some [.answer (.msgError r.rcvid .ebadmsg)]
    else if r.srcmsglen < sizeofCksumHeader + (u32 msg 4).toNat then
      some [.answer (.msgError r.rcvid .ebadmsg)]
    else readAndReply fuel r env (u32 msg 4)
  else some [.answer (.msgError r.rcvid .enosys)]

def handlePulse (msg : Buf) : List Call :=
  if H.pulseCode msg = H.pulseCodeDisconnect then [.answer (.connectDetach (H.pulseScoid msg))]
  else if H.pulseCode msg = H.pulseCodeUnblock then
    [.answer (.msgError (H.pulseValue msg) (.errno (-1)))]
  else []

/-- The buffer, when the message has been received. -/
def received (r : Received) (msg : Buf) : Buf := receive H.sizeofMsgBuf (r.sent.take r.msglen) msg

/-- One round of the receive loop, with what is in the buffer before. -/
def iovServer (fuel : ℕ) (r : Received) (env : Env) (msg : Buf) : Option (Buf × List Call) :=
  let msg := received H r msg
  if r.rcvid = -1 then some (msg, [.exit])
  else if 0 < r.rcvid then (handleMessage H fuel r env msg).map (msg, ·)
  else some (msg, handlePulse H msg)

/-! ## The exchange -/

/-- What `MsgReceive` makes of what a client sent. -/
def deliver (rcvid : ℤ) (sent : List Byte) : Received :=
  ⟨rcvid, min sent.length H.sizeofMsgBuf, sent.length, sent⟩

/-- The message is a request, and passes the three length checks. -/
def Accepted (r : Received) (msg : Buf) : Prop :=
  2 ≤ r.msglen ∧ (u16 msg 0).toNat = H.cksumIovMsgType ∧ sizeofCksumHeader ≤ r.msglen ∧
    sizeofCksumHeader + (u32 msg 4).toNat ≤ r.srcmsglen

instance (H : Headers) (r : Received) (msg : Buf) : Decidable (Accepted H r msg) :=
  inferInstanceAs (Decidable (_ ∧ _ ∧ _ ∧ _))

/-- `malloc` and `MsgRead` succeed. `MsgRead` reads as much as it is asked to, or all there is. -/
def Env.Succeeds (env : Env) (r : Received) (size : BitVec 32) : Prop :=
  env.malloc.isSome ∧ env.msgRead = some (min size.toNat (r.srcmsglen - sizeofCksumHeader))

/-- Whenever `malloc` and `MsgRead` succeed, `iov_server` replies to `iov_client` with
`checksum`. -/
def Replies (arg : List Byte) (checksum : BitVec 32) : Prop :=
  ∀ uninit msg env rcvid fuel, 0 < rcvid → arg.length < fuel →
    let r := deliver H rcvid (message H arg uninit)
    env.Succeeds r (dataSize arg) →
      (iovServer H fuel r env msg).map (fun p => p.2.filterMap Call.answer?) =
        some [.msgReply rcvid checksum]

/-- `server` replies to `client` with `checksum`. -/
def FixedReplies (arg : List Byte) (checksum : BitVec 32) : Prop :=
  ∀ uninit rbuf rcvid fuel, 0 < rcvid → maxStringLen < fuel →
    (server H.toHeaders fuel ⟨rcvid, Client.client.message H.toHeaders arg uninit⟩ rbuf).map
      Prod.snd = some [.msgReply rcvid checksum]

/-- The text comes back as its checksum, which is also that of the service with messages of a fixed
size, as far as that takes the text. -/
structure RoundTrips (arg : List Byte) : Prop where
  accepted : ∀ uninit msg rcvid, let r := deliver H rcvid (message H arg uninit)
    Accepted H r (received H r msg) ∧ (u32 (received H r msg) 4).toNat = arg.length + 1
  reassembled : ∀ uninit block env rcvid, let r := deliver H rcvid (message H arg uninit)
    env.Succeeds r (dataSize arg) →
      peek (readData r env (dataSize arg) block) 0 (arg.length + 1) = arg ++ [0]
  replies : ∃ checksum, Replies H arg checksum ∧ checksum.toInt = byteSum arg
  fixedSize : ∃ checksum, FixedReplies H arg checksum ∧
    Replies H (arg.take maxStringLen) checksum ∧
    (arg.length ≤ maxStringLen → Replies H arg checksum)

/-! ## The header -/

variable {H} {arg : List Byte} {uninit msg : Buf}

theorem toNat_dataSize (hlen : arg.length + 1 < 2 ^ 32) :
    (dataSize arg).toNat = arg.length + 1 := by
  rw [dataSize, BitVec.toNat_ofNat, Nat.mod_eq_of_lt hlen]

theorem message_eq (hlen : arg.length + 1 < 2 ^ 32) :
    message H arg uninit = peek (buildHdr H arg uninit) 0 sizeofCksumHeader ++ (arg ++ [0]) := by
  have hall : (arg ++ [(0 : Byte)]).length ≤ (dataSize arg).toNat := by
    rw [toNat_dataSize hlen]
    simp
  rw [message, List.take_of_length_le hall]

theorem length_message (hlen : arg.length + 1 < 2 ^ 32) :
    (message H arg uninit).length = sizeofCksumHeader + (arg.length + 1) := by
  rw [message_eq hlen, List.length_append, length_peek, List.length_append, List.length_singleton]

theorem drop_message (hlen : arg.length + 1 < 2 ^ 32) :
    (message H arg uninit).drop sizeofCksumHeader = arg ++ [0] := by
  rw [message_eq hlen, List.drop_left' length_peek]

theorem sizeofCksumHeader_le (H : Headers) : sizeofCksumHeader ≤ H.sizeofMsgBuf :=
  Nat.le_max_right _ _

theorem le_msglen (hlen : arg.length + 1 < 2 ^ 32) (rcvid : ℤ) :
    sizeofCksumHeader ≤ (deliver H rcvid (message H arg uninit)).msglen :=
  Nat.le_min.2 ⟨length_message (H := H) hlen ▸ Nat.le_add_right _ _, sizeofCksumHeader_le H⟩

theorem received_agree (hlen : arg.length + 1 < 2 ^ 32) (rcvid : ℤ) (msg : Buf) :
    Agree sizeofCksumHeader (received H (deliver H rcvid (message H arg uninit)) msg)
      (buildHdr H arg uninit) := by
  intro i hi
  have hmsglen : _ ≤ (deliver H rcvid (message H arg uninit)).msglen := le_msglen hlen rcvid
  have hsize := sizeofCksumHeader_le H
  have hlength : (message H arg uninit).length = _ := length_message hlen
  rw [received, receive_of_lt msg (by omega) (by simp [deliver]; omega), List.getElem_take]
  simp only [deliver, message_eq hlen]
  rw [List.getElem_append_left (by simpa using hi), getElem_peek, Nat.zero_add]

theorem u16_buildHdr : (u16 (buildHdr H arg uninit) 0).toNat = H.cksumIovMsgType := by
  have htype : u16 (buildHdr H arg uninit) 0 = BitVec.ofNat 16 H.cksumIovMsgType := by
    apply u16_of_bytes
    intro i hi
    rw [buildHdr, poke_of_lt (by omega)]
    exact poke_add hi
  rw [htype, BitVec.toNat_ofNat]
  exact Nat.mod_eq_of_lt H.ioMax_lt

theorem u32_buildHdr : u32 (buildHdr H arg uninit) 4 = dataSize arg := u32_poke _

theorem u16_received (hlen : arg.length + 1 < 2 ^ 32) (rcvid : ℤ) (msg : Buf) :
    (u16 (received H (deliver H rcvid (message H arg uninit)) msg) 0).toNat =
      H.cksumIovMsgType := by
  rw [(received_agree hlen rcvid msg).u16 (by decide), u16_buildHdr]

theorem u32_received (hlen : arg.length + 1 < 2 ^ 32) (rcvid : ℤ) (msg : Buf) :
    u32 (received H (deliver H rcvid (message H arg uninit)) msg) 4 = dataSize arg := by
  rw [(received_agree hlen rcvid msg).u32 (by decide), u32_buildHdr]

theorem accepted (hlen : arg.length + 1 < 2 ^ 32) (rcvid : ℤ) (msg : Buf) :
    Accepted H (deliver H rcvid (message H arg uninit))
      (received H (deliver H rcvid (message H arg uninit)) msg) := by
  have hmsglen : _ ≤ (deliver H rcvid (message H arg uninit)).msglen := le_msglen hlen rcvid
  refine ⟨Nat.le_trans (by decide) hmsglen, u16_received hlen rcvid msg, hmsglen, ?_⟩
  rw [u32_received hlen, toNat_dataSize hlen]
  exact Nat.le_of_eq (length_message hlen).symm

/-! ## The data -/

variable {env : Env} {rcvid : ℤ} {block : Buf}

theorem Env.Succeeds.msgRead_eq (hlen : arg.length + 1 < 2 ^ 32)
    (h : env.Succeeds (deliver H rcvid (message H arg uninit)) (dataSize arg)) :
    env.msgRead = some (arg.length + 1) := by
  rw [h.2, toNat_dataSize hlen]
  simp only [deliver, length_message hlen, Nat.add_sub_cancel_left, Nat.min_self]

theorem readData_eq (hlen : arg.length + 1 < 2 ^ 32)
    (h : env.Succeeds (deliver H rcvid (message H arg uninit)) (dataSize arg)) :
    readData (deliver H rcvid (message H arg uninit)) env (dataSize arg) block =
      poke block 0 (arg ++ [0]) := by
  have hlength : (arg ++ [(0 : Byte)]).length = arg.length + 1 := by simp
  rw [readData, h.msgRead_eq hlen, toNat_dataSize hlen]
  simp only [deliver, drop_message hlen, Option.getD_some]
  rw [List.take_of_length_le (Nat.le_of_eq hlength)]
  funext i
  unfold receive poke
  split_ifs with hi hi'
  · rfl
  · omega
  · rw [List.getElem?_eq_none (by omega), Option.getD_none]
  · rfl

/-- The status is -1 just if that many bytes were read. -/
theorem msgReadStatus_eq_iff (hlen : arg.length + 1 < 2 ^ 32)
    (h : env.Succeeds (deliver H rcvid (message H arg uninit)) (dataSize arg)) :
    env.msgReadStatus.setWidth 32 = (-1 : BitVec 32) ↔ arg.length + 1 = 2 ^ 32 - 1 := by
  have hstatus : (env.msgReadStatus.setWidth 32).toNat = arg.length + 1 := by
    simp only [Env.msgReadStatus, h.msgRead_eq hlen, BitVec.toNat_setWidth, BitVec.toNat_ofNat]
    omega
  rw [← BitVec.toNat_inj, hstatus]
  rfl

theorem iovServer_eq (hs : 0 ∉ arg) (hlen : arg.length + 1 < 2 ^ 32) (hrcvid : 0 < rcvid)
    {fuel : ℕ} (hfuel : arg.length < fuel)
    (h : env.Succeeds (deliver H rcvid (message H arg uninit)) (dataSize arg)) :
    (iovServer H fuel (deliver H rcvid (message H arg uninit)) env msg).map
      (fun p => p.2.filterMap Call.answer?) =
      some [if arg.length + 1 = 2 ^ 32 - 1 then .msgError rcvid (.errno env.errno)
        else .msgReply rcvid (BitVec.ofInt 32 (byteSum arg))] := by
  have hne : rcvid ≠ -1 := by omega
  obtain ⟨-, htype, hmsglen, hsrcmsglen⟩ : Accepted H (deliver H rcvid (message H arg uninit))
    (received H _ msg) := accepted hlen rcvid msg
  obtain ⟨block, hblock⟩ := Option.isSome_iff_exists.1 h.1
  have hstring : IsString (poke block 0 (arg ++ [0])) arg := by
    have hpoke : IsString (shift (poke block 0 (arg ++ [0])) 0) arg := isString_poke hs
    rwa [shift_zero] at hpoke
  have hmessage : handleMessage H fuel (deliver H rcvid (message H arg uninit)) env
      (received H (deliver H rcvid (message H arg uninit)) msg) =
      readAndReply fuel (deliver H rcvid (message H arg uninit)) env (dataSize arg) := by
    unfold handleMessage
    rw [if_neg (Nat.not_lt.2 (Nat.le_trans (by decide) hmsglen)), if_pos htype,
      if_neg (Nat.not_lt.2 hmsglen), if_neg (Nat.not_lt.2 hsrcmsglen), u32_received hlen]
  simp only [iovServer]
  rw [if_neg (show (deliver H rcvid _).rcvid ≠ -1 from hne),
    if_pos (show 0 < (deliver H rcvid _).rcvid from hrcvid), hmessage, readAndReply, hblock]
  simp only [msgReadStatus_eq_iff hlen h, readData_eq hlen h]
  split_ifs with hstatus hfault
  · rfl
  · rw [calculateChecksum_eq hstring hfuel]
    rfl
  · rw [calculateChecksum_eq hstring hfuel]
    rfl

theorem replies (hs : 0 ∉ arg) (hlen : arg.length + 1 < 2 ^ 32)
    (hne : arg.length + 1 ≠ 2 ^ 32 - 1) : Replies H arg (BitVec.ofInt 32 (byteSum arg)) := by
  intro uninit msg env rcvid fuel hrcvid hfuel r h
  rw [iovServer_eq hs hlen hrcvid hfuel h, if_neg hne]

/-- A text of that length is answered with an error. -/
theorem not_replies (hs : 0 ∉ arg) (hlen : arg.length + 1 = 2 ^ 32 - 1) (checksum : BitVec 32) :
    ¬ Replies H arg checksum := by
  intro h
  have hlt : arg.length + 1 < 2 ^ 32 := by omega
  have hsucceeds : Env.Succeeds ⟨some fun _ => 0, some (arg.length + 1), 0, false⟩
      (deliver H 1 (message H arg fun _ => 0)) (dataSize arg) := by
    refine ⟨rfl, ?_⟩
    rw [toNat_dataSize hlt]
    simp only [deliver, length_message hlt, Nat.add_sub_cancel_left, Nat.min_self]
  have hreply := h (fun _ => 0) (fun _ => 0) _ 1 _ (by decide) (Nat.lt_succ_self _) hsucceeds
  rw [iovServer_eq hs hlt (by decide) (Nat.lt_succ_self _) hsucceeds, if_pos hlen] at hreply
  cases hreply

/-! ## The service with messages of a fixed size -/

theorem fixedReplies (hs : 0 ∉ arg) :
    FixedReplies H arg (BitVec.ofInt 32 (byteSum (arg.take maxStringLen))) :=
  fun _ rbuf _ _ hrcvid hfuel => round_eq hs .client .server hfuel hrcvid rbuf

theorem replies_take (hs : 0 ∉ arg) : Replies H (arg.take maxStringLen)
    (BitVec.ofInt 32 (byteSum (arg.take maxStringLen))) := by
  have hle := length_take_le arg
  unfold maxStringLen at *
  exact replies (fun h0 => hs (List.mem_of_mem_take h0)) (by omega) (by omega)

/-! ## The theorem -/

/-- **The protocol round-trips** and agrees with the one with messages of a fixed size, unless the
text and its NUL have 2^32 - 1 bytes. -/
theorem iov_round_trip_iff (H : Headers) (t : List Byte) (hs : 0 ∉ t) (hlen : t.length + 1 < 2 ^ 32)
    (hsum : -2 ^ 31 ≤ byteSum t ∧ byteSum t < 2 ^ 31) :
    RoundTrips H t ↔ t.length + 1 ≠ 2 ^ 32 - 1 := by
  constructor
  · intro h hmax
    obtain ⟨checksum, hreplies, -⟩ := h.replies
    exact not_replies hs hmax checksum hreplies
  · intro hne
    refine ⟨?_, ?_, ⟨_, replies hs hlen hne, toInt_ofInt hsum⟩, _, fixedReplies hs,
      replies_take hs, ?_⟩
    · intro uninit msg rcvid
      exact ⟨accepted hlen rcvid msg, by rw [u32_received hlen, toNat_dataSize hlen]⟩
    · intro uninit block env rcvid r h
      have hlength : t.length + 1 = (t ++ [(0 : Byte)]).length := by simp
      rw [readData_eq hlen h, hlength, peek_poke]
    · intro hshort
      rw [List.take_of_length_le hshort]
      exact replies hs hlen hne

theorem iov_round_trip_iff_hi : RoundTrips .x86_64 [0x68, 0x69] :=
  (iov_round_trip_iff .x86_64 [0x68, 0x69] (by decide) (by decide) (by decide)).2 (by decide)

/-- As many bytes of each sign. -/
theorem exists_byteSum_eq_zero (n : ℕ) :
    ∃ t : List Byte, 0 ∉ t ∧ t.length = 2 * n ∧ byteSum t = 0 := by
  refine ⟨List.replicate n 1 ++ List.replicate n (-1), ?_, ?_, ?_⟩
  · simp
  · simp [Nat.two_mul]
  · simp [byteSum]

/-- A text of 2^32 - 2 bytes whose sum is zero. -/
theorem iov_round_trip_fails : ¬ ∀ t : List Byte, 0 ∉ t → t.length + 1 < 2 ^ 32 →
    -2 ^ 31 ≤ byteSum t ∧ byteSum t < 2 ^ 31 → RoundTrips .x86_64 t := by
  intro h
  obtain ⟨t, hs, hlen, hsum⟩ := exists_byteSum_eq_zero (2 ^ 31 - 1)
  obtain ⟨checksum, hreplies, -⟩ := (h t hs (by omega) (by omega)).replies
  exact not_replies hs (by omega) checksum hreplies

end QnxTutorial.Checksum.Iov
