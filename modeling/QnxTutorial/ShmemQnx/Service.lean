import QnxTutorial.Rendezvous.Service
import QnxTutorial.ShmemQnx.Server

/-!
# The server of `shmem_qnx_server.c` with many clients

Any number of clients send the server any messages in any order, and go on to the next message when
they have a reply. The calls of the server end however they like. A `MsgReply` can fail, and leaves
the client blocked then, so that the server makes an error of it.

**Theorem (`every_request_answered`).** Every message gets one answer of its kind, and no client is
left blocked.
-/

namespace QnxTutorial.ShmemQnx

open AddressSpace RecvBuf

/-- A message of a client, and where it comes from. -/
structure Message where
  info : MsgInfo
  req : Request

/-- A pulse, as far as the server looks at it. -/
inductive Pulse where
  | disconnect (scoid : Scoid)
  | other

/-- What `MsgSend` comes back with. -/
inductive Result where
  | reply (r : Reply)
  | error (e : Error)

/-- A call, as the client with the message sees it. -/
def Call.seen (rcvid : ℤ) (env : Env) : Call → Option (Rendezvous.Call Result)
  | .msgReply r => some <| match env.msgReply with
    | .ok _ => .reply rcvid (.reply r)
    | .error _ => .other
  | .msgError e => some (.reply rcvid (.error e))
  | .connectDetach _ => some .other
  | _ => none

def Pulse.event : Pulse → Event
  | .disconnect scoid => .disconnect scoid
  | .other => .otherPulse

/-- The server as its clients see it. -/
def service (resp : List Byte) : Rendezvous.Server State Message Pulse Result where
  message s rcvid m s' calls := ∃ env, Allowed s (.message m.info m.req env) ∧
    s' = (handle resp (.message m.info m.req env) s).1 ∧
    calls = (handle resp (.message m.info m.req env) s).2.filterMap (Call.seen rcvid env)
  pulse s p s' calls := ∃ env, s' = (handle resp p.event s).1 ∧
    calls = (handle resp p.event s).2.filterMap (Call.seen 0 env)

/-- The answer is of the kind that the message asks for, or an error. -/
def Result.Fits (resp : List Byte) (m : Message) : Result → Prop
  | .error _ => True
  | .reply (.getResp _) => ∃ n, m.req = .get n
  | .reply (.changedResp offset length) =>
    (∃ offset length, m.req = .changed offset length) ∧ offset = 4096 + 30 ∧ length = respLen resp
  | .reply .empty => m.req = .release

/-! ## What the server does -/

variable {resp : List Byte} {rcvid : ℤ} {env : Env}

/-- The calls have one answer, which fits. -/
structure Answers (resp : List Byte) (m : Message) (rcvid : ℤ) (env : Env) (made : List Call) :
    Prop where
  length : (made.filterMap (Call.seen rcvid env)).length ≤ 2
  replies : ∃ r, Rendezvous.replies rcvid (made.filterMap (Call.seen rcvid env)) = [r] ∧
    r.Fits resp m

/-- A reply that fails is made up for by an error. -/
theorem answers_sendReply {m : Message} {r : Reply} (h : (Result.reply r).Fits resp m) :
    Answers resp m rcvid env (sendReply r env) := by
  cases hreply : env.msgReply with
  | ok =>
    have hseen : (sendReply r env).filterMap (Call.seen rcvid env) =
        [.reply rcvid (.reply r)] := by
      simp [sendReply, Call.seen, hreply]
    exact ⟨by simp [hseen], .reply r, by simp [hseen, Rendezvous.replies], h⟩
  | error e =>
    have hseen : (sendReply r env).filterMap (Call.seen rcvid env) =
        [.other, .reply rcvid (.error (.errno e))] := by
      simp [sendReply, Call.seen, hreply]
    exact ⟨by simp [hseen], .error (.errno e), by simp [hseen, Rendezvous.replies], trivial⟩

theorem answers_msgError (m : Message) (e : Error) :
    Answers resp m rcvid env [.msgError e] :=
  ⟨by simp [Call.seen], .error e, by simp [Call.seen, Rendezvous.replies], trivial⟩

theorem Answers.append {m : Message} {made : List Call} (h : Answers resp m rcvid env made)
    (unseen : List Call)
    (hunseen : unseen.filterMap (Call.seen rcvid env) = []) :
    Answers resp m rcvid env (unseen ++ made) := by
  obtain ⟨hlength, hreplies⟩ := h
  have hsame : (unseen ++ made).filterMap (Call.seen rcvid env) =
      made.filterMap (Call.seen rcvid env) := by
    rw [List.filterMap_append, hunseen, List.nil_append]
  exact ⟨by rwa [hsame], by rwa [hsame]⟩

theorem Answers.cons {m : Message} {made : List Call} {x : Call}
    (h : Answers resp m rcvid env made) (hx : Call.seen rcvid env x = none) :
    Answers resp m rcvid env (x :: made) :=
  h.append [x] (List.filterMap_cons_none hx)

theorem unseen_createSharedMemory (rcvid : ℤ) (env : Env) (n : BitVec 32) (pid : ℤ) (s : State) :
    (createSharedMemory n pid env s).2.1.filterMap (Call.seen rcvid env) = [] := by
  unfold createSharedMemory
  rcases env.shmOpen with _ | _ <;> rcases env.ftruncate with _ | _ <;>
    rcases env.mmap with _ | _ <;> rcases env.shmCreateHandle with _ | _ <;> simp [Call.seen]

theorem answers_getShmem (info : MsgInfo) (n : BitVec 32) (s : State) :
    Answers resp ⟨info, .get n⟩ rcvid env (getShmem info n env s).2 := by
  unfold getShmem
  by_cases hn : n.toNat > 64 * 1024
  · rw [if_pos hn]
    exact answers_msgError _ _
  · have hunseen := unseen_createSharedMemory rcvid env n info.pid
      { s with shmemMemorySize := n }
    rw [if_neg hn]
    rcases hc : createSharedMemory n info.pid env { s with shmemMemorySize := n } with
      ⟨s', calls, _ | handle⟩
    · rw [hc] at hunseen
      exact (answers_msgError _ _).append _ hunseen
    · rw [hc] at hunseen
      have hfits : (Result.reply (.getResp handle)).Fits resp ⟨info, .get n⟩ := ⟨n, rfl⟩
      exact (answers_sendReply hfits).append _ hunseen

theorem answers_changedShmem (info : MsgInfo) (offset nbytes : BitVec 32) (s : State) :
    Answers resp ⟨info, .changed offset nbytes⟩ rcvid env
      (changedShmem resp info offset nbytes env s).2 := by
  have hfits : (Result.reply (.changedResp (4096 + 30) (respLen resp))).Fits resp
      ⟨info, .changed offset nbytes⟩ := ⟨⟨offset, nbytes, rfl⟩, rfl, rfl⟩
  unfold changedShmem
  split_ifs
  · exact answers_msgError _ _
  · exact ((answers_sendReply hfits).cons rfl).cons rfl
  · exact answers_msgError _ _

theorem answers_releaseShmem (info : MsgInfo) (s : State) :
    Answers resp ⟨info, .release⟩ rcvid env (releaseShmem info env s).2 := by
  have hfits : (Result.reply .empty).Fits resp ⟨info, .release⟩ := rfl
  unfold releaseShmem
  split_ifs
  · exact answers_msgError _ _
  · exact (answers_sendReply hfits).cons rfl

/-- **Every message is answered once**, whatever it is and however the calls end. -/
theorem answers_handle (resp : List Byte) (rcvid : ℤ) (env : Env) (m : Message) (s : State) :
    Answers resp m rcvid env (handle resp (.message m.info m.req env) s).2 := by
  obtain ⟨info, req⟩ := m
  cases req with
  | get n => exact answers_getShmem info n s
  | changed offset nbytes => exact answers_changedShmem info offset nbytes s
  | release => exact answers_releaseShmem info s
  | unknown => exact answers_msgError _ _

theorem length_pulse_le (p : Pulse) (s : State) :
    ((handle resp p.event s).2.filterMap (Call.seen rcvid env)).length ≤ 2 := by
  cases p with
  | other => exact Nat.zero_le _
  | disconnect scoid =>
    show ((disconnect scoid s).2.filterMap (Call.seen rcvid env)).length ≤ 2
    unfold disconnect
    by_cases hours : scoid.1 = s.clientScoid
    · rw [if_pos hours]
      exact Nat.le_succ 1
    · rw [if_neg hours]
      exact Nat.le_succ 1

/-- Nothing works. -/
def Env.allFails : Env := ⟨.error 0, .error 0, .error 0, .error 0, .error 0, fun _ => 0⟩

theorem allowed_allFails (s : State) (m : Message) :
    Allowed s (.message m.info m.req .allFails) := by
  obtain ⟨info, req⟩ := m
  cases req with
  | get n =>
    intro _ addr h
    rcases h with h | h <;> cases h
  | changed | release | unknown => trivial

/-- The server has handled some events. -/
def Ran (resp : List Byte) (s : State) : Prop := ∃ h, (server resp).Run h s

theorem Ran.handle {s : State} (h : Ran resp s) {e : Event} (ha : Allowed s e) :
    Ran resp (handle resp e s).1 := by
  obtain ⟨h, hrun⟩ := h
  exact ⟨_, hrun.step ha⟩

theorem Pulse.allowed (s : State) (p : Pulse) : Allowed s p.event := by
  cases p <;> trivial

theorem service_serves (resp : List Byte) :
    (service resp).Serves (Ran resp) (fun m r => r.Fits resp m) 2 where
  message s rcvid m _ _ := ⟨_, _, .allFails, allowed_allFails s m, rfl, rfl⟩
  pulse s p _ := ⟨_, _, .allFails, rfl, rfl⟩
  after_message s rcvid m s' calls hs _ h := by
    obtain ⟨env, ha, rfl, rfl⟩ := h
    have hanswers := answers_handle resp rcvid env m s
    exact ⟨hs.handle ha, hanswers.length, hanswers.replies⟩
  after_pulse s p s' calls hs h := by
    obtain ⟨env, rfl, rfl⟩ := h
    exact ⟨hs.handle (p.allowed s), length_pulse_le p s⟩

/-! ## The theorem -/

variable {κ : Type} [Fintype κ] [DecidableEq κ]

/-- **Every request is answered.** Along the way the server does what it can do in a run with one
event after the other; the messages come back in their order, with answers that fit; where nobody
can go on, everybody who lives has had all answers; and there are only so many steps. -/
theorem every_request_answered (resp : List Byte) (s : State) (hs : (server resp).init s)
    (program : κ → List (Rendezvous.Request Message Pulse)) (n m : ℕ)
    (c : Rendezvous.Config State Message Pulse Result κ)
    (hp : Rendezvous.Path (service resp) (.init s program) n m c) :
    (∃ h, (server resp).Run h c.state) ∧
    (∀ i, ((c.results i).map Prod.fst <+: Rendezvous.sends (program i)) ∧
      ∀ p ∈ c.results i, p.2.Fits resp p.1) ∧
    ((∀ d, ¬ Rendezvous.Step (service resp) c d) → ∀ i, c.client i = .gone ∨
      c.client i = .running [] ∧ (c.results i).map Prod.fst = Rendezvous.sends (program i)) ∧
    n ≤ 5 * ∑ i, (program i).length + 4 * m := by
  have hinit : Ran resp s := ⟨[], .init hs⟩
  have hinv := Rendezvous.inv_of_path (service_serves resp) hinit hp
  refine ⟨hinv.state, fun i => ⟨(hinv.history i).answered, hinv.results i⟩, ?_, ?_⟩
  · intro hstuck i
    have hdone := (Rendezvous.exists_step (service_serves resp) hinv).resolve_left
      fun ⟨d, hd⟩ => hstuck d hd
    rcases hdone i with hgone | hrunning
    · exact .inl hgone
    · exact .inr ⟨hrunning, hinv.answered_of_done hrunning⟩
  · exact Rendezvous.bound (service_serves resp) hinit hp

/-- A first client asks for a page, and all works. -/
def getPage : Message := ⟨firstClient, .get 4096⟩

theorem every_request_answered_get : ∃ c, Rendezvous.Path (service defaultResponse)
    (.init start fun _ : Unit => [.send getPage]) 3 0 c ∧
      c.results () = [(getPage, .reply (.getResp 1))] ∧
      ∃ h, (server defaultResponse).Run h c.state := by
  have ha : Allowed start (.message getPage.info getPage.req (.allWell 0x10000)) :=
    allowed_allWell firstClient ⟨by decide, by decide, List.forall_mem_nil _⟩
  have hsend : Rendezvous.Path (service defaultResponse)
      (.init start fun _ : Unit => [.send getPage]) 1 0 _ := .step .refl (.send (i := ()) rfl)
  have hreceive := hsend.step
    (.receive (i := ()) rfl rfl Int.one_pos (fun _ _ => nofun) ⟨_, ha, rfl, rfl⟩)
  have hreply := hreceive.step (.reply (i := ()) rfl rfl)
  exact ⟨_, hreply, rfl, (every_request_answered _ _ ⟨rfl, rfl⟩ _ 3 0 _ hreply).1⟩

end QnxTutorial.ShmemQnx
