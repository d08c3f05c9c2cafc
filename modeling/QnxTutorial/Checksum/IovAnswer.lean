import QnxTutorial.Checksum.Scan

/-!
# How `iov_server` answers a message

A message is refused, or there is no memory for its data, or they cannot be read, or their checksum
is the reply (`Handled`). In each case the server makes one answer, and frees what it allocated.

**Theorem (`answered_once_iff`).** The answer is the right one exactly if `MsgRead` does not read
2^32 - 1 bytes, which looks like -1 in an `int`, and there is a NUL to be found.
-/

namespace QnxTutorial.Checksum.Iov

open CString RecvBuf

/-- What a message makes the server do. -/
inductive Handled (H : Headers) (r : Received) (env : Env) (msg : Buf) : List Call → Prop
  | refused {e : Error} : ¬ Accepted H r msg →
      Handled H r env msg [.answer (.msgError r.rcvid e)]
  | noMemory : Accepted H r msg → env.malloc = none →
      Handled H r env msg [.malloc (u32 msg 4), .answer (.msgError r.rcvid .enomem)]
  | notRead : Accepted H r msg → env.malloc.isSome →
      env.msgReadStatus.setWidth 32 = (-1 : BitVec 32) →
      Handled H r env msg [.malloc (u32 msg 4), .msgRead (u32 msg 4) sizeofCksumHeader,
        .answer (.msgError r.rcvid (.errno env.errno)), .free]
  | replied {checksum : BitVec 32} : Accepted H r msg → env.malloc.isSome →
      env.msgReadStatus.setWidth 32 ≠ (-1 : BitVec 32) →
      Handled H r env msg (replyCalls r env (u32 msg 4) checksum)

variable {H : Headers} {r : Received} {env : Env} {msg : Buf}

theorem handled_of_handleMessage {fuel : ℕ} {calls : List Call}
    (h : handleMessage H fuel r env msg = some calls) : Handled H r env msg calls := by
  by_cases haccepted : Accepted H r msg
  · rw [handleMessage_of_accepted haccepted, readAndReply] at h
    cases hblock : env.malloc with
    | none =>
      simp only [hblock] at h
      cases h
      exact .noMemory haccepted hblock
    | some block =>
      have hsome : env.malloc.isSome := by rw [hblock, Option.isSome_some]
      simp only [hblock] at h
      by_cases hstatus : env.msgReadStatus.setWidth 32 = (-1 : BitVec 32)
      · rw [if_pos hstatus] at h
        cases h
        exact .notRead haccepted hsome hstatus
      · rw [if_neg hstatus] at h
        obtain ⟨checksum, -, rfl⟩ := Option.map_eq_some_iff.1 h
        exact .replied haccepted hsome hstatus
  · obtain ⟨e, he⟩ := exists_handleMessage_of_not_accepted haccepted
    rw [he] at h
    cases h
    exact .refused haccepted

theorem handled_of_iovServer {fuel : ℕ} {msg' : Buf} {calls : List Call} (hrcvid : 0 < r.rcvid)
    (h : iovServer H fuel r env msg = some (msg', calls)) :
    Handled H r env (received H r msg) calls := by
  rw [iovServer_of_message hrcvid] at h
  obtain ⟨_, hcalls, hpair⟩ := Option.map_eq_some_iff.1 h
  cases hpair
  exact handled_of_handleMessage hcalls

/-! ## The answer -/

def Call.isHeap : Call → Bool
  | .malloc _ | .free => true
  | .answer _ | .msgRead .. | .exit => false

/-- An answer to the message `rcvid`. -/
def Answers (rcvid : ℤ) : Checksum.Call → Prop
  | .msgReply rcvid' _ | .msgError rcvid' _ => rcvid' = rcvid
  | .connectDetach _ | .exit => False

/-- Exactly one answer, which is a checksum if all went well. A block that was allocated is freed
once. The process only exits when the reply failed. -/
structure AnsweredOnce (H : Headers) (r : Received) (env : Env) (msg : Buf) (calls : List Call) :
    Prop where
  answer : ∃ a, calls.filterMap Call.answer? = [a] ∧ Answers r.rcvid a ∧
    ((∃ checksum, a = .msgReply r.rcvid checksum) ↔
      Accepted H r msg ∧ env.malloc.isSome ∧ env.msgRead.isSome)
  heap : calls.filter Call.isHeap = [] ∨ ∃ size, calls.filter Call.isHeap =
    if env.malloc.isSome then [.malloc size, .free] else [.malloc size]
  exit : .exit ∈ calls → env.srvrfault = true

/-- Whatever happens, one answer is made and nothing is kept. It is the wrong answer if the status
looks like that of a failure. -/
theorem Handled.answeredOnce_iff {calls : List Call} (h : Handled H r env msg calls) :
    AnsweredOnce H r env msg calls ↔ (Accepted H r msg → env.malloc.isSome →
      env.msgReadStatus.setWidth 32 = (-1 : BitVec 32) → env.msgRead = none) := by
  cases h with
  | refused haccepted =>
    refine iff_of_true ⟨⟨_, rfl, rfl, iff_of_false nofun fun h => haccepted h.1⟩, .inl rfl, ?_⟩
      fun h => absurd h haccepted
    simp
  | noMemory haccepted hnone =>
    refine iff_of_true ⟨⟨_, rfl, rfl, iff_of_false nofun fun h => ?_⟩, ?_, ?_⟩ fun _ h => ?_
    · exact nomatch hnone ▸ h.2.1
    · exact .inr ⟨_, by rw [hnone]; rfl⟩
    · simp
    · exact nomatch hnone ▸ h
  | notRead haccepted hsome hstatus =>
    constructor
    · rintro ⟨⟨a, hanswer, -, hiff⟩, -, -⟩ - - -
      cases hanswer
      by_contra hread
      exact nomatch hiff.2 ⟨haccepted, hsome, Option.ne_none_iff_isSome.1 hread⟩
    · intro hall
      have hread := hall haccepted hsome hstatus
      refine ⟨⟨_, rfl, rfl, iff_of_false nofun fun h => ?_⟩, ?_, ?_⟩
      · exact nomatch hread ▸ h.2.2
      · exact .inr ⟨_, by rw [if_pos hsome]; rfl⟩
      · simp
  | @replied checksum haccepted hsome hstatus =>
    have hread : env.msgRead.isSome := by
      obtain ⟨n, hn, -⟩ := status_ne_iff.1 hstatus
      rw [hn, Option.isSome_some]
    refine iff_of_true ⟨⟨_, answers_replyCalls checksum, rfl, ?_⟩, ?_, ?_⟩
      fun _ _ h => absurd h hstatus
    · exact iff_of_true ⟨_, rfl⟩ ⟨haccepted, hsome, hread⟩
    · refine .inr ⟨u32 msg 4, ?_⟩
      rw [if_pos hsome, replyCalls]
      cases env.srvrfault <;> rfl
    · rw [replyCalls]
      cases env.srvrfault <;> simp

/-! ## The theorem -/

/-- The server goes on to the next message, and the one it has is answered properly. -/
def Serves (H : Headers) (r : Received) (env : Env) (msg : Buf) : Prop :=
  (∃ fuel, (iovServer H fuel r env msg).isSome) ∧
    ∀ fuel msg' calls, iovServer H fuel r env msg = some (msg', calls) →
      AnsweredOnce H r env (received H r msg) calls

/-- `MsgRead` does not read 2^32 - 1 bytes, and there is a NUL for the loop to stop at. The memory
behind the block is taken to be readable, so that the NUL may be there. -/
def Readable (r : Received) (env : Env) (size : BitVec 32) : Prop :=
  ∀ block n, env.malloc = some block → env.msgRead = some n →
    n % 2 ^ 32 ≠ 2 ^ 32 - 1 ∧ ∃ i, readData r env size block i = 0

theorem exists_isSome_iff {data : Buf} {size : BitVec 32}
    (h : text H r env msg = some (size, data)) :
    (∃ fuel, (iovServer H fuel r env msg).isSome) ↔ ∃ i, data i = 0 := by
  constructor
  · rintro ⟨fuel, hfuel⟩
    rw [iovServer_of_text h, Option.isSome_map] at hfuel
    obtain ⟨i, -, hi⟩ := isSome_calculateChecksum_iff.1 hfuel
    exact ⟨i, hi⟩
  · rintro ⟨i, hi⟩
    refine ⟨i + 1, ?_⟩
    rw [iovServer_of_text h, Option.isSome_map]
    exact isSome_calculateChecksum_iff.2 ⟨i, Nat.lt_succ_self i, hi⟩

/-- With a status of -1 the answer is an error, and without a NUL there is none. -/
theorem Serves.readable (h : Serves H r env msg) (hrcvid : 0 < r.rcvid)
    (haccepted : Accepted H r (received H r msg)) : Readable r env (u32 (received H r msg) 4) := by
  obtain ⟨hreturns, hall⟩ := h
  intro block n hblock hread
  have hsome : env.malloc.isSome := by rw [hblock, Option.isSome_some]
  have hstatus : env.msgReadStatus.setWidth 32 ≠ (-1 : BitVec 32) := by
    intro hstatus
    obtain ⟨fuel, hfuel⟩ := hreturns
    obtain ⟨⟨msg', calls⟩, hcalls⟩ := Option.isSome_iff_exists.1 hfuel
    have hanswered := hall fuel msg' calls hcalls
    have hnone := (handled_of_iovServer hrcvid hcalls).answeredOnce_iff.1 hanswered haccepted hsome
      hstatus
    exact nomatch hread.symm.trans hnone
  have htext : text H r env msg = some (_, _) :=
    text_eq_some_iff.2 ⟨hrcvid, haccepted, hstatus, rfl, block, hblock, rfl⟩
  rw [Ne, status_eq_iff] at hstatus
  refine ⟨fun hn => hstatus fun n' hn' => ?_, (exists_isSome_iff htext).1 hreturns⟩
  cases hread.symm.trans hn'
  exact hn

theorem serves_of_readable (hrcvid : 0 < r.rcvid) (h : Accepted H r (received H r msg) →
    Readable r env (u32 (received H r msg) 4)) : Serves H r env msg := by
  constructor
  · cases htext : text H r env msg with
    | none =>
      obtain ⟨calls, hcalls⟩ := iovServer_of_no_text htext
      exact ⟨0, by rw [hcalls]; rfl⟩
    | some p =>
      obtain ⟨size, data⟩ := p
      rw [exists_isSome_iff htext]
      obtain ⟨-, haccepted, hstatus, rfl, block, hblock, rfl⟩ := text_eq_some_iff.1 htext
      obtain ⟨n, hn, -⟩ := status_ne_iff.1 hstatus
      exact (h haccepted block n hblock hn).2
  · intro fuel msg' calls hcalls
    apply (handled_of_iovServer hrcvid hcalls).answeredOnce_iff.2
    intro haccepted hsome hstatus
    obtain ⟨block, hblock⟩ := Option.isSome_iff_exists.1 hsome
    rw [status_eq_iff] at hstatus
    by_contra hread
    obtain ⟨n, hn⟩ := Option.ne_none_iff_exists'.1 hread
    exact (h haccepted block n hblock hn).1 (hstatus n hn)

/-- **Every message is answered once**, for the right reason. -/
theorem answered_once_iff (H : Headers) (r : Received) (env : Env) (msg : Buf)
    (hrcvid : 0 < r.rcvid) :
    Serves H r env msg ↔
      (Accepted H r (received H r msg) → Readable r env (u32 (received H r msg) 4)) :=
  ⟨fun h => h.readable hrcvid, serves_of_readable hrcvid⟩

theorem answered_once_iff_hi : Serves .x86_64
    (deliver .x86_64 1 (message .x86_64 [0x68, 0x69] fun _ => 0)) (.readsAll [0x68, 0x69])
    fun _ => 0 := by
  apply (answered_once_iff _ _ _ _ Int.one_pos).2
  intro _
  rintro block n ⟨⟩ ⟨⟩
  exact ⟨by decide, 2, by decide⟩

/-- **A checksum is withheld**, although all 2^32 - 1 bytes are read. -/
theorem answers_wrongly : ¬ ∀ (r : Received) (env : Env) (msg : Buf), 0 < r.rcvid →
    (∀ n, env.msgRead = some n → n ≤ (u32 (received .x86_64 r msg) 4).toNat) →
    Serves .x86_64 r env msg := by
  intro hall
  have hlength : (List.replicate (2 ^ 32 - 2) (1 : Byte)).length = 2 ^ 32 - 2 :=
    List.length_replicate
  generalize List.replicate (2 ^ 32 - 2) (1 : Byte) = arg at hlength
  have hlen : arg.length + 1 < 2 ^ 32 := by omega
  have hserves := hall (deliver .x86_64 1 (message .x86_64 arg fun _ => 0)) (.readsAll arg)
    (fun _ => 0) Int.one_pos ?_
  · have hreadable := hserves.readable Int.one_pos (accepted hlen 1 _)
    exact (hreadable _ _ rfl rfl).1 (by omega)
  · rintro n ⟨⟩
    rw [u32_received hlen, toNat_dataSize hlen]

end QnxTutorial.Checksum.Iov
