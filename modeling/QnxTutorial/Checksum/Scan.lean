import QnxTutorial.Checksum.Iov

/-!
# What `calculate_checksum` looks at

The loop reads one byte after the other up to the first NUL (`checksumReads`). These are the bytes
that `calculate_checksum` depends on (`reads_iff`). No server looks for that NUL before it calls the
function, or puts one there.

**Theorem (`reads_within_iff`).** The servers call it within the field `string_to_cksum`, and
`iov_server` within its block, exactly if the message has a NUL there.
-/

namespace QnxTutorial.Checksum

open CString RecvBuf

/-! ## The loop -/

/-- The indices that the loop looks at, from the `i`-th byte on. -/
def checksumReads (text : Buf) : (fuel i : ℕ) → List ℕ
  | 0, _ => []
  | fuel + 1, i => i :: if text i ≠ 0 then checksumReads text fuel (i + 1) else []

/-- `calculate_checksum` looks at the `i`-th byte: with another one there it may end otherwise. -/
def Reads (text : Buf) (i : ℕ) : Prop :=
  ∃ x fuel, calculateChecksum fuel (Function.update text i x) ≠ calculateChecksum fuel text

/-- All that it looks at is below `n`. -/
def ReadsWithin (n : ℕ) (text : Buf) : Prop := ∀ i, Reads text i → i < n

/-- The loop depends on nothing else. -/
theorem checksumLoop_congr {text text' : Buf} {fuel i : ℕ}
    (h : ∀ j ∈ checksumReads text fuel i, text j = text' j) (cksum : BitVec 32) :
    checksumLoop text fuel i cksum = checksumLoop text' fuel i cksum := by
  induction fuel generalizing i cksum with
  | zero => rfl
  | succ fuel ih =>
    rw [checksumReads, List.forall_mem_cons] at h
    obtain ⟨hi, hrest⟩ := h
    rw [checksumLoop, checksumLoop, ← hi]
    by_cases hne : text i ≠ 0
    · rw [if_pos hne] at hrest
      rw [if_pos hne, if_pos hne, ih hrest]
    · rw [if_neg hne, if_neg hne]

theorem le_of_mem_checksumReads {text : Buf} {m fuel i j : ℕ} (hm : text m = 0) (hi : i ≤ m)
    (hj : j ∈ checksumReads text fuel i) : j ≤ m := by
  induction fuel generalizing i with
  | zero => cases hj
  | succ fuel ih =>
    rw [checksumReads, List.mem_cons] at hj
    rcases hj with rfl | hj
    · exact hi
    · split_ifs at hj with hne
      · have hlt : i ≠ m := fun heq => hne (heq ▸ hm)
        exact ih (by omega) hj
      · cases hj

theorem add_mem_checksumReads {text : Buf} {k i : ℕ} (h : ∀ j < k, text (i + j) ≠ 0) :
    i + k ∈ checksumReads text (k + 1) i := by
  induction k generalizing i with
  | zero => exact List.mem_cons_self
  | succ k ih =>
    have hi : text i ≠ 0 := h 0 (Nat.succ_pos k)
    rw [checksumReads, if_pos hi]
    apply List.mem_cons_of_mem _
    rw [show i + (k + 1) = i + 1 + k by omega]
    apply ih
    intro j hj
    rw [show i + 1 + j = i + (j + 1) by omega]
    exact h (j + 1) (Nat.succ_lt_succ hj)

theorem mem_checksumReads_iff {text : Buf} {i : ℕ} :
    (∃ fuel, i ∈ checksumReads text fuel 0) ↔ ∀ j < i, text j ≠ 0 := by
  constructor
  · rintro ⟨fuel, hi⟩ j hj hnul
    exact absurd (le_of_mem_checksumReads hnul (Nat.zero_le j) hi) (Nat.not_le.2 hj)
  · intro h
    have hmem : 0 + i ∈ checksumReads text (i + 1) 0 :=
      add_mem_checksumReads fun j hj => by rw [Nat.zero_add]; exact h j hj
    rw [Nat.zero_add] at hmem
    exact ⟨i + 1, hmem⟩

/-- With a byte that is read, a NUL can come or go. -/
theorem reads_of_ne_zero {text : Buf} {i : ℕ} (h : ∀ j < i, text j ≠ 0) : Reads text i := by
  by_cases hi : text i = 0
  · refine ⟨1, i + 1, fun heq => ?_⟩
    have hsome : (calculateChecksum (i + 1) text).isSome :=
      isSome_calculateChecksum_iff.2 ⟨i, Nat.lt_succ_self i, hi⟩
    rw [← heq] at hsome
    obtain ⟨j, hj, hnul⟩ := isSome_calculateChecksum_iff.1 hsome
    rcases Nat.lt_succ_iff_lt_or_eq.1 hj with hlt | rfl
    · rw [Function.update_of_ne (Nat.ne_of_lt hlt)] at hnul
      exact h j hlt hnul
    · simp at hnul
  · refine ⟨0, i + 1, fun heq => ?_⟩
    have hsome : (calculateChecksum (i + 1) (Function.update text i 0)).isSome :=
      isSome_calculateChecksum_iff.2 ⟨i, Nat.lt_succ_self i, Function.update_self ..⟩
    rw [heq] at hsome
    obtain ⟨j, hj, hnul⟩ := isSome_calculateChecksum_iff.1 hsome
    rcases Nat.lt_succ_iff_lt_or_eq.1 hj with hlt | rfl
    · exact h j hlt hnul
    · exact hi hnul

/-- What the function depends on is what its loop looks at. -/
theorem reads_iff {text : Buf} {i : ℕ} : Reads text i ↔ ∃ fuel, i ∈ checksumReads text fuel 0 := by
  constructor
  · rintro ⟨x, fuel, hne⟩
    refine ⟨fuel, ?_⟩
    by_contra hi
    apply hne
    refine (checksumLoop_congr (fun j hj => ?_) 0).symm
    have hji : j ≠ i := by
      rintro rfl
      exact hi hj
    rw [Function.update_of_ne hji]
  · exact fun h => reads_of_ne_zero (mem_checksumReads_iff.1 h)

theorem readsWithin_iff {n : ℕ} {text : Buf} : ReadsWithin n text ↔ ∃ i < n, text i = 0 := by
  simp only [ReadsWithin, reads_iff, mem_checksumReads_iff]
  constructor
  · intro h
    by_contra hnul
    simp only [not_exists, not_and] at hnul
    exact absurd (h n hnul) (Nat.lt_irrefl n)
  · rintro ⟨m, hm, hnul⟩ i hi
    by_contra hlt
    exact hi m (by omega) hnul

/-- A round calls the function on `text`, if on anything. It makes `done` of the result, and without
a call it needs no fuel. -/
def CallsOn {α : Type} (text : Option Buf) (done : BitVec 32 → α) (round : ℕ → Option α) : Prop :=
  match text with
  | some text => ∀ fuel, round fuel = (calculateChecksum fuel text).map done
  | none => ∃ x, ∀ fuel, round fuel = some x

/-! ## What the servers hand to it -/

/-- The size of the receive buffer. -/
def Server.bufSize (H : Headers) : Server → ℕ
  | .server => sizeofCksumMsg
  | .pulseServer | .nameLookupServer => H.sizeofRecvBuf

/-- The buffer, when the message has been received. -/
def Server.received (H : Headers) (v : Server) (r : Received) (rbuf : Buf) : Buf :=
  receive (v.bufSize H) r.bytes rbuf

/-- A message is looked at, and in `server.c` a pulse as well. -/
def Server.LooksAt (v : Server) (r : Received) : Prop := r.rcvid ≠ -1 ∧ (r.rcvid ≠ 0 ∨ v = .server)

instance (v : Server) (r : Received) : Decidable (v.LooksAt r) :=
  inferInstanceAs (Decidable (_ ∧ _))

/-- `string_to_cksum`, if `calculate_checksum` is called on it. -/
def Server.text (H : Headers) (v : Server) (r : Received) (rbuf : Buf) : Option Buf :=
  if v.LooksAt r ∧ (u16 (v.received H r rbuf) 0).toNat = H.cksumMsgType then
    some (shift (v.received H r rbuf) 2)
  else none

/-- There is a NUL in the string of a checksum request. -/
def Server.Terminated (H : Headers) (v : Server) (r : Received) (rbuf : Buf) : Prop :=
  v.LooksAt r → (u16 (v.received H r rbuf) 0).toNat = H.cksumMsgType →
    ∃ i < maxStringLen + 1, v.received H r rbuf (2 + i) = 0

theorem Server.LooksAt.round_eq {H : Headers} {v : Server} {r : Received} (h : v.LooksAt r)
    (fuel : ℕ) (rbuf : Buf) : v.round H fuel r rbuf =
      (answer H fuel r.rcvid (v.received H r rbuf)).map (v.received H r rbuf, ·) := by
  obtain ⟨hfailed, h⟩ := h
  by_cases hrcvid : r.rcvid = 0
  · obtain rfl := h.resolve_left (not_not.2 hrcvid)
    rw [Server.round, Checksum.server, round_of_pulse hrcvid, hrcvid]
    rfl
  · cases v with
    | server | pulseServer | nameLookupServer =>
      show (if r.rcvid = -1 then _ else (if r.rcvid = 0 then _ else answer H fuel _ _).map _) = _
      rw [if_neg hfailed, if_neg hrcvid]
      rfl

/-- A round that calls the function replies with its result. -/
theorem Server.round_of_text {H : Headers} {v : Server} {r : Received} {rbuf text : Buf}
    (h : v.text H r rbuf = some text) (fuel : ℕ) : v.round H fuel r rbuf =
      (calculateChecksum fuel text).map fun checksum =>
        (v.received H r rbuf, [.msgReply r.rcvid checksum]) := by
  obtain ⟨⟨hlooks, htype⟩, htext⟩ := Option.ite_none_right_eq_some.1 h
  cases htext
  rw [hlooks.round_eq, answer, if_pos htype, Option.map_map]
  rfl

theorem Server.round_of_no_text {H : Headers} {v : Server} {r : Received} {rbuf : Buf}
    (h : v.text H r rbuf = none) : ∃ x, ∀ fuel, v.round H fuel r rbuf = some x := by
  by_cases hlooks : v.LooksAt r
  · have htype : (u16 (v.received H r rbuf) 0).toNat ≠ H.cksumMsgType := by
      intro htype
      simp only [Server.text, if_pos (And.intro hlooks htype), reduceCtorEq] at h
    refine ⟨(v.received H r rbuf, [.msgError r.rcvid .enosys]), fun fuel => ?_⟩
    rw [hlooks.round_eq, answer, if_neg htype, Option.map_some]
  · by_cases hfailed : r.rcvid = -1
    · refine ⟨(rbuf, [.exit]), fun fuel => ?_⟩
      cases v <;> exact if_pos hfailed
    · obtain ⟨hrcvid, hserver⟩ := not_or.1 fun h => hlooks ⟨hfailed, h⟩
      rw [not_not] at hrcvid
      cases v with
      | server => exact absurd rfl hserver
      | pulseServer =>
        simp only [Server.round, Checksum.pulseServer, round_of_pulse hrcvid]
        exact ⟨_, fun _ => rfl⟩
      | nameLookupServer =>
        simp only [Server.round, Checksum.nameLookupServer, round_of_pulse hrcvid]
        exact ⟨_, fun _ => rfl⟩

theorem Server.callsOn {H : Headers} {v : Server} {r : Received} {rbuf : Buf} :
    CallsOn (v.text H r rbuf) (fun checksum =>
      (v.received H r rbuf, [.msgReply r.rcvid checksum])) fun fuel => v.round H fuel r rbuf := by
  cases htext : v.text H r rbuf with
  | some text => exact round_of_text htext
  | none => exact round_of_no_text htext

theorem Server.readsWithin_iff {H : Headers} {v : Server} {r : Received} {rbuf : Buf} :
    (∀ text, v.text H r rbuf = some text → ReadsWithin (maxStringLen + 1) text) ↔
      v.Terminated H r rbuf := by
  simp only [Server.text, Option.ite_none_right_eq_some, Option.some.injEq,
    Checksum.readsWithin_iff]
  constructor
  · exact fun h hlooks htype => h _ ⟨⟨hlooks, htype⟩, rfl⟩
  · rintro h text ⟨⟨hlooks, htype⟩, rfl⟩
    exact h hlooks htype

namespace Iov

/-- What `MsgRead` reads. -/
def Received.data (r : Received) (n : ℕ) : List Byte := (r.sent.drop sizeofCksumHeader).take n

/-- The block and its size, if `calculate_checksum` is called on it. -/
def text (H : Headers) (r : Received) (env : Env) (msg : Buf) : Option (BitVec 32 × Buf) :=
  let msg := received H r msg
  if 0 < r.rcvid ∧ Accepted H r msg ∧ env.msgReadStatus.setWidth 32 ≠ (-1 : BitVec 32) then
    env.malloc.map fun block => (u32 msg 4, readData r env (u32 msg 4) block)
  else none

variable {H : Headers} {r : Received} {env : Env} {msg data : Buf} {size : BitVec 32}

theorem text_eq_some_iff : text H r env msg = some (size, data) ↔
    0 < r.rcvid ∧ Accepted H r (received H r msg) ∧
      env.msgReadStatus.setWidth 32 ≠ (-1 : BitVec 32) ∧ size = u32 (received H r msg) 4 ∧
      ∃ block, env.malloc = some block ∧ data = readData r env size block := by
  simp only [text, Option.ite_none_right_eq_some, Option.map_eq_some_iff, Prod.mk.injEq]
  constructor
  · rintro ⟨⟨hrcvid, haccepted, hstatus⟩, block, hblock, rfl, rfl⟩
    exact ⟨hrcvid, haccepted, hstatus, rfl, block, hblock, rfl⟩
  · rintro ⟨hrcvid, haccepted, hstatus, rfl, block, hblock, rfl⟩
    exact ⟨⟨hrcvid, haccepted, hstatus⟩, block, hblock, rfl, rfl⟩

theorem handleMessage_of_accepted (h : Accepted H r msg) (fuel : ℕ) (env : Env) :
    handleMessage H fuel r env msg = readAndReply fuel r env (u32 msg 4) := by
  obtain ⟨hmsglen, htype, hheader, hsrcmsglen⟩ := h
  rw [handleMessage, if_neg (Nat.not_lt.2 hmsglen), if_pos htype, if_neg (Nat.not_lt.2 hheader),
    if_neg (Nat.not_lt.2 hsrcmsglen)]

theorem exists_handleMessage_of_not_accepted (h : ¬ Accepted H r msg) :
    ∃ e, ∀ fuel env, handleMessage H fuel r env msg = some [.answer (.msgError r.rcvid e)] := by
  by_cases hmsglen : r.msglen < 2
  · exact ⟨_, fun _ _ => if_pos hmsglen⟩
  · by_cases htype : (u16 msg 0).toNat = H.cksumIovMsgType
    · refine ⟨.ebadmsg, fun _ _ => ?_⟩
      rw [handleMessage, if_neg hmsglen, if_pos htype]
      by_cases hheader : r.msglen < sizeofCksumHeader
      · exact if_pos hheader
      · rw [if_neg hheader]
        apply if_pos
        by_contra hsrcmsglen
        exact h ⟨Nat.le_of_not_lt hmsglen, htype, Nat.le_of_not_lt hheader,
          Nat.le_of_not_lt hsrcmsglen⟩
    · exact ⟨.enosys, fun _ _ => by rw [handleMessage, if_neg hmsglen, if_neg htype]⟩

/-- The status is -1 if `MsgRead` fails, or reads a number of bytes that looks so. -/
theorem status_eq_iff : env.msgReadStatus.setWidth 32 = (-1 : BitVec 32) ↔
    ∀ n, env.msgRead = some n → n % 2 ^ 32 = 2 ^ 32 - 1 := by
  cases hread : env.msgRead with
  | none =>
    rw [Env.msgReadStatus, hread]
    apply iff_of_true rfl
    intro n hn
    cases hn
  | some n =>
    have hstatus : (env.msgReadStatus.setWidth 32).toNat = n % 2 ^ 32 := by
      rw [Env.msgReadStatus, hread, BitVec.toNat_setWidth, BitVec.toNat_ofNat]
      omega
    rw [← BitVec.toNat_inj, hstatus]
    simp only [Option.some.injEq, forall_eq']
    rfl

theorem status_ne_iff : env.msgReadStatus.setWidth 32 ≠ (-1 : BitVec 32) ↔
    ∃ n, env.msgRead = some n ∧ n % 2 ^ 32 ≠ 2 ^ 32 - 1 := by
  simp only [Ne, status_eq_iff, not_forall, exists_prop]

/-- A NUL in the block is one that was read, or one that was there before. -/
theorem exists_readData_eq_zero_iff {block : Buf} {n : ℕ} (h : env.msgRead = some n) :
    (∃ i < size.toNat, readData r env size block i = 0) ↔
      0 ∈ (r.data n).take size.toNat ∨
        ∃ i < size.toNat, (r.data n).length ≤ i ∧ block i = 0 := by
  have hread : readData r env size block = receive size.toNat (r.data n) block := by
    rw [readData, h]
    rfl
  rw [hread]
  constructor
  · rintro ⟨i, hi, hnul⟩
    by_cases hlen : i < (r.data n).length
    · rw [receive_of_lt block hi hlen] at hnul
      exact .inl (List.mem_take_iff_getElem.2 ⟨i, by omega, hnul⟩)
    · rw [receive_of_length_le block (Nat.le_of_not_lt hlen)] at hnul
      exact .inr ⟨i, hi, Nat.le_of_not_lt hlen, hnul⟩
  · rintro (hnul | ⟨i, hi, hlen, hnul⟩)
    · obtain ⟨i, hi, hnul⟩ := List.mem_take_iff_getElem.1 hnul
      have hi' := Nat.lt_min.1 hi
      exact ⟨i, hi'.1, by rwa [receive_of_lt block hi'.1 hi'.2]⟩
    · exact ⟨i, hi, by rwa [receive_of_length_le block hlen]⟩

/-- There is a NUL in the data of an accepted message, as far as they are read, or in what `malloc`
has left behind them. -/
def Terminated (H : Headers) (r : Received) (env : Env) (msg : Buf) : Prop :=
  0 < r.rcvid → Accepted H r (received H r msg) → ∀ block n, env.malloc = some block →
    env.msgRead = some n → n % 2 ^ 32 ≠ 2 ^ 32 - 1 →
    let size := (u32 (received H r msg) 4).toNat
    0 ∈ (r.data n).take size ∨ ∃ i < size, (r.data n).length ≤ i ∧ block i = 0

theorem iovServer_of_message (h : 0 < r.rcvid) (fuel : ℕ) (env : Env) (msg : Buf) :
    iovServer H fuel r env msg =
      (handleMessage H fuel r env (received H r msg)).map (received H r msg, ·) := by
  have hne : r.rcvid ≠ -1 := by omega
  simp only [iovServer, if_neg hne, if_pos h]

/-- The calls when the checksum is computed. -/
def replyCalls (r : Received) (env : Env) (size checksum : BitVec 32) : List Call :=
  [.malloc size, .msgRead size sizeofCksumHeader, .free, .answer (.msgReply r.rcvid checksum)] ++
    if env.srvrfault then [.exit] else []

theorem answers_replyCalls (checksum : BitVec 32) :
    (replyCalls r env size checksum).filterMap Call.answer? = [.msgReply r.rcvid checksum] := by
  unfold replyCalls
  cases env.srvrfault <;> rfl

/-- A round that calls the function replies with its result, when it has freed the block. -/
theorem iovServer_of_text (h : text H r env msg = some (size, data)) (fuel : ℕ) :
    iovServer H fuel r env msg = (calculateChecksum fuel data).map fun checksum =>
      (received H r msg, replyCalls r env size checksum) := by
  obtain ⟨hrcvid, haccepted, hstatus, rfl, block, hblock, rfl⟩ := text_eq_some_iff.1 h
  rw [iovServer_of_message hrcvid, handleMessage_of_accepted haccepted, readAndReply, hblock]
  simp only [if_neg hstatus, Option.map_map]
  rfl

theorem iovServer_of_no_text (h : text H r env msg = none) :
    ∃ calls, ∀ fuel, iovServer H fuel r env msg = some (received H r msg, calls) := by
  by_cases hrcvid : 0 < r.rcvid
  · by_cases haccepted : Accepted H r (received H r msg)
    · cases hblock : env.malloc with
      | none =>
        exact ⟨_, fun fuel => by
          rw [iovServer_of_message hrcvid, handleMessage_of_accepted haccepted, readAndReply,
            hblock]
          rfl⟩
      | some block =>
        have hstatus : env.msgReadStatus.setWidth 32 = (-1 : BitVec 32) := by
          by_contra hne
          simp only [text, if_pos (And.intro hrcvid (And.intro haccepted hne)), hblock,
            Option.map_some, reduceCtorEq] at h
        exact ⟨_, fun fuel => by
          rw [iovServer_of_message hrcvid, handleMessage_of_accepted haccepted, readAndReply,
            hblock]
          simp only [if_pos hstatus]
          rfl⟩
    · obtain ⟨e, he⟩ := exists_handleMessage_of_not_accepted haccepted
      exact ⟨_, fun fuel => by rw [iovServer_of_message hrcvid, he]; rfl⟩
  · by_cases hne : r.rcvid = -1
    · exact ⟨_, fun fuel => by simp only [iovServer, if_pos hne]; rfl⟩
    · exact ⟨_, fun fuel => by simp only [iovServer, if_neg hne, if_neg hrcvid]; rfl⟩

theorem callsOn : CallsOn ((text H r env msg).map Prod.snd) (fun checksum =>
    (received H r msg, replyCalls r env (u32 (received H r msg) 4) checksum))
      fun fuel => iovServer H fuel r env msg := by
  cases htext : text H r env msg with
  | some p =>
    obtain ⟨size, data⟩ := p
    obtain rfl : size = u32 (received H r msg) 4 := (text_eq_some_iff.1 htext).2.2.2.1
    exact iovServer_of_text htext
  | none =>
    obtain ⟨calls, hcalls⟩ := iovServer_of_no_text htext
    exact ⟨_, hcalls⟩

theorem readsWithin_iff : (∀ size data, text H r env msg = some (size, data) →
    ReadsWithin size.toNat data) ↔ Terminated H r env msg := by
  simp only [Checksum.readsWithin_iff]
  constructor
  · intro h hrcvid haccepted block n hblock hread hn
    rw [← exists_readData_eq_zero_iff hread]
    exact h _ _ (text_eq_some_iff.2 ⟨hrcvid, haccepted, status_ne_iff.2 ⟨n, hread, hn⟩, rfl, block,
      hblock, rfl⟩)
  · intro h size data htext
    obtain ⟨hrcvid, haccepted, hstatus, rfl, block, hblock, rfl⟩ := text_eq_some_iff.1 htext
    obtain ⟨n, hread, hn⟩ := status_ne_iff.1 hstatus
    rw [exists_readData_eq_zero_iff hread]
    exact h hrcvid haccepted block n hblock hread hn

/-- `MsgRead` reads all the data into a block of zeros. -/
def Env.readsAll (arg : List Byte) : Env := ⟨some fun _ => 0, some (arg.length + 1), 0, false⟩

theorem succeeds_readsAll (H : Headers) (arg : List Byte) (hlen : arg.length + 1 < 2 ^ 32) :
    (Env.readsAll arg).Succeeds (deliver H 1 (message H arg fun _ => 0)) (dataSize arg) := by
  refine ⟨rfl, ?_⟩
  rw [toNat_dataSize hlen]
  simp only [Env.readsAll, deliver, length_message hlen, Nat.add_sub_cancel_left, Nat.min_self]

end Iov

/-! ## The theorem -/

/-- **Reading within the buffer.** The four servers call `calculate_checksum` on their buffer, and
it reads nothing beyond exactly if the message has a NUL. -/
theorem reads_within_iff (H : Iov.Headers) :
    (∀ (v : Server) (r : Received) (rbuf : Buf),
      CallsOn (v.text H.toHeaders r rbuf) (fun checksum => (v.received H.toHeaders r rbuf,
        [.msgReply r.rcvid checksum])) (fun fuel => v.round H.toHeaders fuel r rbuf) ∧
      ((∀ text, v.text H.toHeaders r rbuf = some text → ReadsWithin (maxStringLen + 1) text) ↔
        v.Terminated H.toHeaders r rbuf)) ∧
    ∀ (r : Iov.Received) (env : Iov.Env) (msg : Buf),
      CallsOn ((Iov.text H r env msg).map Prod.snd) (fun checksum => (Iov.received H r msg,
        Iov.replyCalls r env (u32 (Iov.received H r msg) 4) checksum))
        (fun fuel => Iov.iovServer H fuel r env msg) ∧
      ((∀ size data, Iov.text H r env msg = some (size, data) → ReadsWithin size.toNat data) ↔
        Iov.Terminated H r env msg) :=
  ⟨fun _ _ _ => ⟨Server.callsOn, Server.readsWithin_iff⟩,
    fun _ _ _ => ⟨Iov.callsOn, Iov.readsWithin_iff⟩⟩

/-- The message of `client.c` for "hi". -/
def receivedHi : Received := ⟨1, Client.client.message .x86_64 [0x68, 0x69] fun _ => 0xaa⟩

/-- The header announces one byte, which is not NUL. -/
def Iov.unterminated : Iov.Received where
  rcvid := 1
  msglen := 9
  srcmsglen := 9
  sent := peek (poke (poke (fun _ => 0) 0
    (le16 (BitVec.ofNat 16 Iov.Headers.x86_64.cksumIovMsgType))) 4 (le32 1)) 0
      Iov.sizeofCksumHeader ++ [0x41]

/-- **Reading beyond the block.** -/
theorem reads_beyond : ¬ ∀ (r : Iov.Received) (env : Iov.Env) (msg data : Buf) (size : BitVec 32),
    Iov.text .x86_64 r env msg = some (size, data) → ReadsWithin size.toNat data := by
  intro hall
  have hwithin := hall Iov.unterminated ⟨some fun _ => 0, some 1, 0, false⟩ (fun _ => 0) _ 1 rfl
  exact absurd (hwithin 1 (reads_iff.2 ⟨2, by decide⟩)) (by decide)

end QnxTutorial.Checksum
