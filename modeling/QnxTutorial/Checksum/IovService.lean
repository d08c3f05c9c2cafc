import QnxTutorial.Checksum.IovAnswer
import QnxTutorial.Checksum.Service

/-!
# `iov_server` with many clients

The clients of `iov_server` send texts of any length. The server may have no memory for a text, and
`MsgRead` may fail. Pulses are `_PULSE_CODE_UNBLOCK` pulses too, and for those the server makes an
error of the receive id that the pulse names.

**Theorem (`everybody_answered`).** Each client gets the checksum of its own text, or the error that
the server ran into with that text, and no pulse makes an error of what somebody is waiting for.
-/

namespace QnxTutorial.Checksum.Iov

open CString RecvBuf

/-- What a client is started with, and what the server's calls return while it handles the text. -/
structure Question where
  arg : List Byte
  nul_not_mem : 0 ∉ arg
  length_lt : arg.length + 1 < 2 ^ 32
  uninit : Buf
  malloc : Option Buf
  reads : Bool
  errno : ℤ

/-- `MsgRead` reads all, if it succeeds. -/
def Question.env (q : Question) : Env :=
  ⟨q.malloc, if q.reads then some (q.arg.length + 1) else none, q.errno, false⟩

/-- What the client gets. A count of 2^32 - 1 bytes is taken for a failure of `MsgRead`. -/
def Question.result (q : Question) : Result :=
  if q.malloc.isNone then .error .enomem
  else if q.reads ∧ q.arg.length + 1 ≠ 2 ^ 32 - 1 then
    .checksum (BitVec.ofInt 32 (byteSum q.arg))
  else .error (.errno q.errno)

/-- The calls that the clients see. -/
def seen (made : List Call) : List (Rendezvous.Call Result) :=
  (made.filterMap Call.answer?).map Checksum.Call.seen

variable (H : Headers) in
/-- The server as its clients see it. -/
def service : Rendezvous.Server Buf Question (List Byte) Result where
  message msg rcvid q msg' calls := ∃ fuel made,
    iovServer H fuel (deliver H rcvid (message H q.arg q.uninit)) q.env msg = some (msg', made) ∧
      calls = seen made
  pulse msg p msg' calls := ∃ fuel env made,
    iovServer H fuel ⟨0, p.length, p.length, p⟩ env msg = some (msg', made) ∧ calls = seen made

/-! ## What the server does -/

variable {H : Headers} {rcvid : ℤ}

theorem status_env (q : Question) : q.env.msgReadStatus.setWidth 32 = (-1 : BitVec 32) ↔
    ¬ (q.reads ∧ q.arg.length + 1 ≠ 2 ^ 32 - 1) := by
  have hlen := q.length_lt
  rw [status_eq_iff]
  by_cases hreads : q.reads
  · simp only [Question.env, hreads, if_true, Option.some.injEq, forall_eq', true_and, not_not]
    omega
  · simp [Question.env, hreads]

theorem succeeds_env (q : Question) {block : Buf} (hblock : q.malloc = some block)
    (hreads : q.reads = true) : q.env.Succeeds (deliver H rcvid (message H q.arg q.uninit))
      (dataSize q.arg) := by
  refine ⟨by rw [Question.env, hblock, Option.isSome_some], ?_⟩
  rw [toNat_dataSize q.length_lt]
  simp only [Question.env, hreads, if_true, deliver, length_message q.length_lt,
    Nat.add_sub_cancel_left, Nat.min_self]

theorem isString_readData (q : Question) {block : Buf} (hblock : q.malloc = some block)
    (hreads : q.reads = true) :
    IsString (readData (deliver H rcvid (message H q.arg q.uninit)) q.env (dataSize q.arg) block)
      q.arg := by
  rw [readData_eq q.length_lt (succeeds_env q hblock hreads)]
  have hpoke : IsString (shift (poke block 0 (q.arg ++ [0])) 0) q.arg := isString_poke q.nul_not_mem
  rwa [shift_zero] at hpoke

/-- The text is accepted, and gets its result. -/
theorem readAndReply_env (q : Question) {fuel : ℕ} {made : List Call}
    (h : readAndReply fuel (deliver H rcvid (message H q.arg q.uninit)) q.env (dataSize q.arg) =
      some made) : seen made = [.reply rcvid q.result] := by
  rw [readAndReply] at h
  have henv : q.env.malloc = q.malloc := rfl
  cases hblock : q.malloc with
  | none =>
    simp only [henv, hblock] at h
    cases h
    rw [Question.result, hblock]
    rfl
  | some block =>
    simp only [henv, hblock] at h
    by_cases hstatus : q.env.msgReadStatus.setWidth 32 = (-1 : BitVec 32)
    · rw [if_pos hstatus] at h
      cases h
      rw [Question.result, hblock, if_neg (by simp), if_neg ((status_env q).1 hstatus)]
      rfl
    · rw [if_neg hstatus] at h
      have hread := not_not.1 fun hn => hstatus ((status_env q).2 hn)
      obtain ⟨cksum, hcksum, rfl⟩ := Option.map_eq_some_iff.1 h
      obtain ⟨s, hs, rfl⟩ := exists_calculateChecksum_iff.1 ⟨fuel, hcksum⟩
      rw [hs.unique (isString_readData q hblock hread.1)]
      have hresult : q.result = .checksum (BitVec.ofInt 32 (byteSum q.arg)) := by
        rw [Question.result, hblock, if_neg (by simp), if_pos hread]
      rw [hresult]
      rfl

theorem exists_readAndReply (rcvid : ℤ) (q : Question) : ∃ fuel made,
    readAndReply fuel (deliver H rcvid (message H q.arg q.uninit)) q.env (dataSize q.arg) =
      some made := by
  unfold readAndReply
  have henv : q.env.malloc = q.malloc := rfl
  cases hblock : q.malloc with
  | none => exact ⟨0, _, by simp only [henv, hblock]; rfl⟩
  | some block =>
    simp only [henv, hblock]
    by_cases hstatus : q.env.msgReadStatus.setWidth 32 = (-1 : BitVec 32)
    · exact ⟨0, _, if_pos hstatus⟩
    · have hread := not_not.1 fun hn => hstatus ((status_env q).2 hn)
      refine ⟨q.arg.length + 1, Option.isSome_iff_exists.1 ?_⟩
      rw [if_neg hstatus,
        calculateChecksum_eq (isString_readData q hblock hread.1) (Nat.lt_succ_self _)]
      rfl

theorem iovServer_message (q : Question) (hrcvid : 0 < rcvid) (fuel : ℕ) (msg : Buf) :
    iovServer H fuel (deliver H rcvid (message H q.arg q.uninit)) q.env msg =
      (readAndReply fuel (deliver H rcvid (message H q.arg q.uninit)) q.env (dataSize q.arg)).map
        (received H (deliver H rcvid (message H q.arg q.uninit)) msg, ·) := by
  rw [iovServer_of_message hrcvid, handleMessage_of_accepted (accepted q.length_lt rcvid msg),
    u32_received q.length_lt]

theorem message_calls (q : Question) (hrcvid : 0 < rcvid) {msg msg' : Buf}
    {calls : List (Rendezvous.Call Result)} (h : (service H).message msg rcvid q msg' calls) :
    calls = [.reply rcvid q.result] := by
  obtain ⟨fuel, made, hround, rfl⟩ := h
  rw [iovServer_message q hrcvid] at hround
  obtain ⟨made', hmade, hpair⟩ := Option.map_eq_some_iff.1 hround
  cases hpair
  exact readAndReply_env q hmade

theorem iovServer_pulse (p : List Byte) (fuel : ℕ) (env : Env) (msg : Buf) :
    iovServer H fuel ⟨0, p.length, p.length, p⟩ env msg =
      some (received H ⟨0, p.length, p.length, p⟩ msg,
        handlePulse H (received H ⟨0, p.length, p.length, p⟩ msg)) := rfl

theorem length_handlePulse_le (msg : Buf) : (seen (handlePulse H msg)).length ≤ 1 := by
  unfold handlePulse
  split_ifs <;> simp [seen, Call.answer?]

theorem service_serves : (service H).Serves (fun _ => True) (fun q r => r = q.result) 1 where
  message msg rcvid q _ hrcvid := by
    obtain ⟨fuel, made, hmade⟩ := exists_readAndReply (H := H) rcvid q
    exact ⟨_, _, fuel, made, by rw [iovServer_message q hrcvid, hmade]; rfl, rfl⟩
  pulse msg p _ := ⟨_, _, 0, ⟨none, none, 0, false⟩, _, iovServer_pulse p 0 _ msg, rfl⟩
  after_message msg rcvid q msg' calls _ hrcvid h := by
    cases message_calls q hrcvid h
    exact ⟨trivial, Nat.le_refl 1, q.result, if_pos rfl, rfl⟩
  after_pulse msg p msg' calls _ h := by
    obtain ⟨fuel, env, made, hround, rfl⟩ := h
    rw [iovServer_pulse] at hround
    cases hround
    exact ⟨trivial, length_handlePulse_le _⟩

/-! ## The theorem -/

variable {κ : Type} [Fintype κ] [DecidableEq κ]

/-- **Everybody gets what its own text comes to.** The pulses are any. -/
theorem everybody_answered (H : Headers) (q : κ → Question) (msg : Buf) (n m : ℕ)
    (c : Rendezvous.Config Buf Question (List Byte) Result κ)
    (hp : Rendezvous.Path (service H) (.init msg fun i => [.send (q i)]) n m c) :
    (∀ i, c.results i = [] ∨ c.results i = [(q i, (q i).result)]) ∧
    ((∀ d, ¬ Rendezvous.Step (service H) c d) → ∀ i, c.client i = .gone ∨
      c.client i = .running [] ∧ c.results i = [(q i, (q i).result)]) ∧
    n ≤ 4 * Fintype.card κ + 3 * m := by
  have hinv := Rendezvous.inv_of_path service_serves trivial hp
  refine ⟨?_, ?_, ?_⟩
  · intro i
    rcases hinv.results_eq (i := i) rfl with hnil | ⟨r, hr, rfl⟩
    · exact .inl hnil
    · exact .inr hr
  · intro hstuck i
    rcases hinv.served service_serves hstuck (i := i) rfl with hgone | ⟨hrunning, r, hr, rfl⟩
    · exact .inl hgone
    · exact .inr ⟨hrunning, hr⟩
  · have hbound := Rendezvous.bound service_serves trivial hp
    simpa using hbound

/-- A client with "hi", for which there is memory. -/
def hi : Question :=
  ⟨Checksum.hi.arg, Checksum.hi.nul_not_mem, by decide, fun _ => 0xaa, some fun _ => 0x55, true, 0⟩

theorem everybody_answered_hi : ∃ c, Rendezvous.Path (service .x86_64)
    (.init (fun _ => 0x55) fun _ : Unit => [.send hi]) 3 0 c ∧
      c.results () = [(hi, .checksum 209)] := by
  obtain ⟨msg, calls, hm⟩ :=
    (service_serves (H := .x86_64)).message (fun _ => 0x55) 1 hi trivial Int.one_pos
  cases message_calls hi Int.one_pos hm
  have hsend : Rendezvous.Path (service .x86_64)
      (.init (fun _ => 0x55) fun _ : Unit => [.send hi]) 1 0 _ := .step .refl (.send (i := ()) rfl)
  have hreceive := hsend.step
    (.receive (i := ()) rfl rfl Int.one_pos (fun _ _ => nofun) hm)
  have hreply := hreceive.step (.reply (i := ()) rfl rfl)
  have hanswered := everybody_answered .x86_64 (fun _ : Unit => hi) (fun _ => 0x55) 3 0 _ hreply
  exact ⟨_, hreply, (hanswered.1 ()).resolve_left (by simp)⟩

end QnxTutorial.Checksum.Iov
