import QnxTutorial.Checksum.FixedSize
import QnxTutorial.Rendezvous.Service

/-!
# A checksum server with many clients

`server`, `pulse_server` and `name_lookup_server` serve whoever connects, one message or pulse at a
time and all in the same buffer. `client` sends a message, and the other clients send a pulse first.

**Theorem (`everybody_served`).** However many clients of whatever kind there are, in whatever order
the server receives from them, whoever is killed and whatever pulses come from elsewhere: each
client gets the checksum of its own string, and after so many steps everybody who lives has it.
-/

namespace QnxTutorial.Checksum

open CString RecvBuf

/-! ## The answer is determined -/

variable {H : Headers}

theorem calculateChecksum_unique {text : Buf} {fuel fuel' : ℕ} {cksum cksum' : BitVec 32}
    (h : calculateChecksum fuel text = some cksum)
    (h' : calculateChecksum fuel' text = some cksum') : cksum = cksum' := by
  obtain ⟨s, hs, rfl⟩ := exists_calculateChecksum_iff.1 ⟨fuel, h⟩
  obtain ⟨s', hs', rfl⟩ := exists_calculateChecksum_iff.1 ⟨fuel', h'⟩
  rw [hs.unique hs']

theorem answer_unique {rcvid : ℤ} {rbuf : Buf} {fuel fuel' : ℕ} {calls calls' : List Call}
    (h : answer H fuel rcvid rbuf = some calls) (h' : answer H fuel' rcvid rbuf = some calls') :
    calls = calls' := by
  unfold answer at h h'
  by_cases htype : (u16 rbuf 0).toNat = H.cksumMsgType
  · rw [if_pos htype] at h h'
    obtain ⟨cksum, hcksum, rfl⟩ := Option.map_eq_some_iff.1 h
    obtain ⟨cksum', hcksum', rfl⟩ := Option.map_eq_some_iff.1 h'
    rw [calculateChecksum_unique hcksum hcksum']
  · rw [if_neg htype] at h h'
    exact Option.some.inj (h.symm.trans h')

/-! ## Programs -/

/-- What a client is started with: a C string, and what is on the stack under `msg`. -/
structure Question where
  client : Client
  arg : List Byte
  nul_not_mem : 0 ∉ arg
  uninit : Buf

/-- What `MsgSend` comes back with. -/
inductive Result where
  | checksum (cksum : BitVec 32)
  | error (e : Error)
  deriving DecidableEq

/-- The bytes of a `struct _pulse`. Its type is `_PULSE_TYPE`, which is zero. -/
structure Pulse where
  bytes : List Byte
  type_eq : bytes.take 2 = [0, 0]

/-- All clients but the first send a pulse, and carry on if that fails. -/
def Question.program (q : Question) (p : Pulse) : List (Rendezvous.Request Question Pulse) :=
  match q.client with
  | .client => [.send q]
  | .pulseClient | .nameLookupClient => [.pulse p, .send q]

/-- A call, as the clients see it. -/
def Call.seen : Call → Rendezvous.Call Result
  | .msgReply rcvid cksum => .reply rcvid (.checksum cksum)
  | .msgError rcvid e => .reply rcvid (.error e)
  | .connectDetach _ | .exit => .other

variable (H) in
/-- The server as its clients see it. It knows what is in its buffer. -/
def Server.service (v : Server) : Rendezvous.Server Buf Question Pulse Result where
  message rbuf rcvid q rbuf' calls := ∃ fuel made,
    v.round H fuel ⟨rcvid, q.client.message H q.arg q.uninit⟩ rbuf = some (rbuf', made) ∧
      calls = made.map Call.seen
  pulse rbuf p rbuf' calls := ∃ fuel made,
    v.round H fuel ⟨0, p.bytes⟩ rbuf = some (rbuf', made) ∧ calls = made.map Call.seen

/-- The checksum of its own string, as far as that fits the message. -/
def Question.Answered (q : Question) (r : Result) : Prop :=
  ∃ cksum, r = .checksum cksum ∧ cksum.toInt = byteSum (q.arg.take maxStringLen)

/-! ## What a server does -/

theorem round_unique_of_pulse {size fuel fuel' : ℕ} {onPulse onPulse' : Buf → Option (List Call)}
    {r : Received} {rbuf : Buf} {x x' : Buf × List Call}
    (hpulse : ∀ rbuf calls calls', onPulse rbuf = some calls → onPulse' rbuf = some calls' →
      calls = calls')
    (h : round H size onPulse fuel r rbuf = some x)
    (h' : round H size onPulse' fuel' r rbuf = some x') : x = x' := by
  unfold round at h h'
  by_cases hfailed : r.rcvid = -1
  · rw [if_pos hfailed] at h h'
    exact Option.some.inj (h.symm.trans h')
  · rw [if_neg hfailed] at h h'
    obtain ⟨calls, hcalls, rfl⟩ := Option.map_eq_some_iff.1 h
    obtain ⟨calls', hcalls', rfl⟩ := Option.map_eq_some_iff.1 h'
    by_cases hrcvid : r.rcvid = 0
    · rw [if_pos hrcvid] at hcalls hcalls'
      rw [hpulse _ _ _ hcalls hcalls']
    · rw [if_neg hrcvid] at hcalls hcalls'
      rw [answer_unique hcalls hcalls']

theorem round_unique {v : Server} {r : Received} {rbuf : Buf} {fuel fuel' : ℕ}
    {x x' : Buf × List Call} (h : v.round H fuel r rbuf = some x)
    (h' : v.round H fuel' r rbuf = some x') : x = x' := by
  cases v with
  | server =>
    simp only [Server.round, server] at h h'
    exact round_unique_of_pulse (fun _ _ _ => answer_unique) h h'
  | pulseServer =>
    simp only [Server.round, pulseServer] at h h'
    exact round_unique_of_pulse (fun _ _ _ h h' => Option.some.inj (h.symm.trans h')) h h'
  | nameLookupServer =>
    simp only [Server.round, nameLookupServer] at h h'
    exact round_unique_of_pulse (fun _ _ _ h h' => Option.some.inj (h.symm.trans h')) h h'

/-- A pulse has no type that a message has. -/
theorem u16_pulse (p : Pulse) {size : ℕ} (hsize : 2 ≤ size) (rbuf : Buf) :
    u16 (receive size p.bytes rbuf) 0 = 0 := by
  have htype := p.type_eq
  obtain ⟨x, y, bytes, hbytes⟩ : ∃ x y bytes, p.bytes = x :: y :: bytes := by
    rcases hp : p.bytes with _ | ⟨x, _ | ⟨y, bytes⟩⟩
    · simp [hp] at htype
    · simp [hp] at htype
    · exact ⟨x, y, bytes, rfl⟩
  simp only [hbytes, List.take_succ_cons, List.take_zero, List.cons.injEq, and_true] at htype
  rw [u16, receive_of_lt rbuf (by omega) (by simp [hbytes]),
    receive_of_lt rbuf (by omega) (by simp [hbytes])]
  simp [hbytes, htype]

theorem message_calls (q : Question) (v : Server) {rcvid : ℤ} (hrcvid : 0 < rcvid)
    {rbuf rbuf' : Buf} {calls : List (Rendezvous.Call Result)}
    (h : (v.service H).message rbuf rcvid q rbuf' calls) :
    calls = [.reply rcvid (.checksum (BitVec.ofInt 32 (byteSum (q.arg.take maxStringLen))))] := by
  obtain ⟨fuel, made, hround, rfl⟩ := h
  obtain ⟨⟨rbuf'', made'⟩, hround', hmade⟩ := Option.map_eq_some_iff.1
    (round_eq (H := H) q.nul_not_mem q.client v (Nat.lt_succ_self maxStringLen)
      hrcvid rbuf)
  cases round_unique hround hround'
  rw [show made = _ from hmade]
  rfl

/-- A pulse makes one call at most, in `server` because it is taken for a message. -/
theorem pulse_calls (p : Pulse) (v : Server) (rbuf : Buf) :
    (∃ rbuf' calls, (v.service H).pulse rbuf p rbuf' calls) ∧
    ∀ rbuf' calls, (v.service H).pulse rbuf p rbuf' calls → calls.length ≤ 1 := by
  have hall : ∃ x : Buf × List Call, v.round H 0 ⟨0, p.bytes⟩ rbuf = some x ∧ x.2.length ≤ 1 := by
    cases v with
    | server =>
      have hne : (u16 (receive sizeofCksumMsg p.bytes rbuf) 0).toNat ≠ H.cksumMsgType := by
        rw [u16_pulse p (by decide)]
        exact Nat.zero_ne_add_one _
      refine ⟨(receive sizeofCksumMsg p.bytes rbuf, [.msgError 0 .enosys]), ?_, Nat.le_refl 1⟩
      rw [Server.round, server, round_of_pulse rfl, answer, if_neg hne, Option.map_some]
    | pulseServer =>
      refine ⟨(receive H.sizeofRecvBuf p.bytes rbuf, []), ?_, Nat.zero_le 1⟩
      rw [Server.round, pulseServer, round_of_pulse rfl]
      rfl
    | nameLookupServer =>
      rw [Server.round, nameLookupServer, round_of_pulse rfl]
      refine ⟨_, rfl, ?_⟩
      split_ifs <;> simp
  obtain ⟨x, hx, hlength⟩ := hall
  constructor
  · exact ⟨x.1, x.2.map Call.seen, 0, x.2, hx, rfl⟩
  · rintro rbuf' calls ⟨fuel, made, hround, rfl⟩
    cases round_unique hx hround
    rwa [List.length_map]

theorem service_serves (v : Server) :
    (v.service H).Serves (fun _ => True) Question.Answered 1 where
  message rbuf rcvid q _ hrcvid := by
    obtain ⟨⟨rbuf', made⟩, hround, -⟩ := Option.map_eq_some_iff.1
      (round_eq (H := H) q.nul_not_mem q.client v (Nat.lt_succ_self maxStringLen)
        hrcvid rbuf)
    exact ⟨rbuf', _, _, made, hround, rfl⟩
  pulse rbuf p _ := (pulse_calls p v rbuf).1
  after_message rbuf rcvid q rbuf' calls _ hrcvid h := by
    cases message_calls q v hrcvid h
    have hbounds := byteSum_take_bounds q.arg _ (Nat.le_refl maxStringLen)
    refine ⟨trivial, Nat.le_refl 1, _, if_pos rfl, _, rfl, toInt_ofInt hbounds⟩
  after_pulse rbuf p rbuf' calls _ h := ⟨trivial, (pulse_calls p v rbuf).2 rbuf' calls h⟩

/-! ## The theorem -/

theorem sends_program (q : Question) (p : Pulse) : Rendezvous.sends (q.program p) = [q] := by
  unfold Question.program
  cases q.client <;> rfl

theorem length_program_le (q : Question) (p : Pulse) : (q.program p).length ≤ 2 := by
  unfold Question.program
  cases q.client <;> simp

variable {κ : Type} [Fintype κ] [DecidableEq κ]

/-- **Everybody gets the checksum of its own string.** In `n` steps of the clients and the server,
with `m` deaths and pulses from elsewhere in between, nobody gets anything else; where they can go
no further, everybody who lives has it; and there are not more than so many steps. -/
theorem everybody_served (H : Headers) (v : Server) (q : κ → Question) (p : κ → Pulse) (rbuf : Buf)
    (n m : ℕ) (c : Rendezvous.Config Buf Question Pulse Result κ)
    (hp : Rendezvous.Path (v.service H) (.init rbuf fun i => (q i).program (p i)) n m c) :
    (∀ i, c.results i = [] ∨ ∃ r, c.results i = [(q i, r)] ∧ (q i).Answered r) ∧
    ((∀ d, ¬ Rendezvous.Step (v.service H) c d) → ∀ i, c.client i = .gone ∨
      c.client i = .running [] ∧ ∃ r, c.results i = [(q i, r)] ∧ (q i).Answered r) ∧
    n ≤ 8 * Fintype.card κ + 3 * m := by
  have hinv := Rendezvous.inv_of_path (service_serves v) trivial hp
  refine ⟨?_, ?_, ?_⟩
  · exact fun i => hinv.results_eq (sends_program (q i) (p i))
  · exact fun hstuck i => hinv.served (service_serves v) hstuck (sends_program (q i) (p i))
  · have hbound := Rendezvous.bound (service_serves v) trivial hp
    have hlength : ∑ i, ((q i).program (p i)).length ≤ Fintype.card κ * 2 :=
      Finset.sum_le_card_nsmul _ _ 2 fun i _ => length_program_le (q i) (p i)
    omega

/-- `client` with "hi". -/
def hi : Question := ⟨.client, [0x68, 0x69], by decide, fun _ => 0xaa⟩

theorem everybody_served_hi : ∃ c, Rendezvous.Path (Server.nameLookupServer.service .x86_64)
    (.init (fun _ => 0x55) fun _ : Unit => hi.program ⟨[0, 0], rfl⟩) 3 0 c ∧
      ∃ r, c.results () = [(hi, r)] ∧ hi.Answered r := by
  obtain ⟨rbuf, calls, hm⟩ :=
    (service_serves (H := .x86_64) .nameLookupServer).message (fun _ => 0x55) 1 hi trivial
      Int.one_pos
  cases message_calls hi .nameLookupServer Int.one_pos hm
  have hsend : Rendezvous.Path (Server.nameLookupServer.service .x86_64)
      (.init (fun _ => 0x55) fun _ : Unit => hi.program ⟨[0, 0], rfl⟩) 1 0 _ :=
    .step .refl (.send (i := ()) rfl)
  have hreceive := hsend.step
    (.receive (i := ()) rfl rfl Int.one_pos (fun _ _ => nofun) hm)
  have hreply := hreceive.step (.reply (i := ()) rfl rfl)
  have hserved := everybody_served .x86_64 .nameLookupServer (fun _ : Unit => hi)
    (fun _ => ⟨[0, 0], rfl⟩) (fun _ => 0x55) 3 0 _ hreply
  refine ⟨_, hreply, (hserved.1 ()).resolve_left ?_⟩
  simp

end QnxTutorial.Checksum
