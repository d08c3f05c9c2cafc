import QnxTutorial.ConnectionIds
import QnxTutorial.ShmemQnx.Holder

/-!
# Ids that are used again

The server together with the kernel and any number of clients. The server handles a message or a
pulse in one step, except that `ConnectDetach` is a step of its own. In between clients connect,
send and go away as they like. `granted` is a history variable: the client of the last GET that was
granted.

**Theorem (`ownRegion_of_run`).** While `client_scoid` is not zero, it is attached and belongs to
that client.
-/

namespace QnxTutorial.ShmemQnx

open ConnectionIds Machine RecvBuf

deriving instance DecidableEq for Request

/-- What a client sends. -/
structure Sent where
  pid : ℤ
  req : Request
  deriving DecidableEq

/-- The server and the kernel, with the id of a `ConnectDetach` that is still to come. -/
structure System where
  server : State
  kernel : Kernel Sent
  detaching : Option ℤ
  granted : Option ℕ

inductive SystemEvent where
  | client (a : Kernel.ClientAct Sent)
  | message (scoid : Scoid) (m : Sent) (env : Env)
  | disconnect (scoid : Scoid)
  | otherPulse
  | detach

def Call.detach? : Call → Option ℤ
  | .connectDetach scoid => some scoid
  | .shmOpen | .ftruncate _ | .mmap _ | .shmCreateHandle _ | .close | .munmap .. | .write ..
  | .memcpy .. | .msgReply _ | .msgError _ => none

variable (resp : List Byte)

/-- The server handles an event up to `ConnectDetach`. -/
def System.handle (s : System) (e : Event) (K : Kernel Sent) (granted : Option ℕ) : System where
  server := (ShmemQnx.handle resp e s.server).1
  kernel := K
  detaching := (ShmemQnx.handle resp e s.server).2.findSome? Call.detach?
  granted := granted

def System.step (s : System) : SystemEvent → Option System
  | .client a => (s.kernel.act a).map fun K => { s with kernel := K }
  | .message scoid m env =>
    let e := .message ⟨scoid, m.pid⟩ m.req env
    if s.detaching = none then
      (s.kernel.receive scoid m).map fun K => s.handle resp e K
        (if (holders.grant e).isSome then K.owner scoid else s.granted)
    else none
  | .disconnect scoid =>
    if s.detaching = none then
      (s.kernel.receivePulse scoid).map fun K => s.handle resp (.disconnect scoid) K s.granted
    else none
  | .otherPulse =>
    if s.detaching = none then some (s.handle resp .otherPulse s.kernel s.granted) else none
  | .detach => s.detaching.map fun scoid =>
    { s with kernel := s.kernel.detach scoid, detaching := none }

/-- The server with its clients, from the start of the receive loop. -/
def system : Machine System SystemEvent where
  init s := (server resp).init s.server ∧ s.kernel = .empty ∧ s.detaching = none
  allowed s e := (s.step resp e).isSome
  next s e := (s.step resp e).getD s

/-! ## What handling an event does -/

variable {resp} {s : State}

theorem detach?_sendReply (r : Reply) (env : Env) :
    (sendReply r env).findSome? Call.detach? = none := by
  cases hreply : env.msgReply <;> simp [sendReply, hreply, Call.detach?]

theorem detach?_getShmem (info : MsgInfo) (n : BitVec 32) (env : Env) (s : State) :
    (getShmem info n env s).2.findSome? Call.detach? = none := by
  obtain ⟨shmOpen, ftruncate, mmap, shmCreateHandle, msgReply, memory⟩ := env
  unfold getShmem
  split_ifs
  · rfl
  · cases shmOpen <;> cases ftruncate <;> cases mmap <;> cases shmCreateHandle <;>
      simp only [createSharedMemory, List.cons_append, List.nil_append, List.findSome?_cons,
        List.findSome?_nil, Call.detach?, detach?_sendReply]

/-- Only a disconnect pulse makes the server detach an id, which is that of the pulse. -/
theorem detach?_handle (e : Event) : (handle resp e s).2.findSome? Call.detach? =
    match e with
    | .disconnect scoid => some scoid.1
    | .message .. | .otherPulse => none := by
  cases e with
  | message info req env =>
    cases req with
    | get n => exact detach?_getShmem info n env s
    | changed offset length =>
      simp only [handle, changedShmem]
      split_ifs <;>
        simp only [List.findSome?_cons, List.findSome?_nil, Call.detach?, detach?_sendReply]
    | release =>
      simp only [handle, releaseShmem]
      split_ifs <;>
        simp only [List.findSome?_cons, List.findSome?_nil, Call.detach?, detach?_sendReply]
    | unknown => rfl
  | disconnect scoid =>
    simp only [handle, disconnect]
    split_ifs <;> rfl
  | otherPulse => rfl

theorem clientScoid_message (resp : List Byte) (s : State) (info : MsgInfo) (req : Request)
    (env : Env) :
    if (holders.grant (.message info req env)).isSome then
      (handle resp (.message info req env) s).1.clientScoid = info.scoid
    else (handle resp (.message info req env) s).1.clientScoid = s.clientScoid ∨
      (handle resp (.message info req env) s).1.clientScoid = 0 := by
  cases req with
  | get n =>
    obtain ⟨shmOpen, ftruncate, mmap, shmCreateHandle, msgReply, memory⟩ := env
    by_cases hn : n.toNat > 64 * 1024
    · simp [holders, handle, getShmem, hn]
    · cases shmOpen <;> cases ftruncate <;> cases mmap <;> cases shmCreateHandle <;>
        simp [holders, handle, getShmem, createSharedMemory, Env.creation, hn]
  | changed offset length =>
    refine .inl ?_
    simp only [handle, changedShmem]
    split_ifs <;> rfl
  | release =>
    simp only [holders, Option.isSome_none, Bool.false_eq_true, if_false, handle, releaseShmem]
    split_ifs with hscoid
    · exact .inl rfl
    · exact .inr (munmap_clientScoid ..)
  | unknown => exact .inl rfl

theorem clientScoid_disconnect (resp : List Byte) (s : State) (scoid : Scoid) :
    (handle resp (.disconnect scoid) s).1.clientScoid ≠ scoid ∧
      ((handle resp (.disconnect scoid) s).1.clientScoid = s.clientScoid ∨
        (handle resp (.disconnect scoid) s).1.clientScoid = 0) := by
  simp only [handle, disconnect]
  split_ifs with hscoid
  · rw [munmap_clientScoid]
    exact ⟨scoid.2.symm, .inr rfl⟩
  · exact ⟨Ne.symm hscoid, .inl rfl⟩

/-! ## The invariant -/

/-- The saved id is tracked, and is not the one about to be detached. -/
structure OwnHolder (S : System) : Prop where
  tracks : S.kernel.Tracks S.server.clientScoid S.granted
  detaching : S.detaching ≠ some S.server.clientScoid

variable {S S' : System} {K : Kernel Sent}

theorem OwnHolder.init (h : (system resp).init S) : OwnHolder S where
  tracks := by
    rw [show S.server.clientScoid = 0 from h.1.1]
    exact Kernel.tracks_zero _
  detaching := by
    rw [h.2.2]
    nofun

/-- The id of a message is attached while it is handled. -/
theorem OwnHolder.message (h : OwnHolder S) {scoid : Scoid} {m : Sent} (env : Env)
    (hK : S.kernel.receive scoid m = some K) :
    OwnHolder (S.handle resp (.message ⟨scoid, m.pid⟩ m.req env) K
      (if (holders.grant (.message ⟨scoid, m.pid⟩ m.req env)).isSome then K.owner scoid
        else S.granted)) where
  tracks := by
    obtain ⟨howner, n, hn⟩ := Kernel.owner_receive hK
    have hclient := clientScoid_message resp S.server ⟨scoid, m.pid⟩ m.req env
    simp only [System.handle]
    split_ifs at hclient ⊢ with hgrant
    · rw [hclient, howner, hn]
      exact Kernel.tracks_save (by rw [howner, hn])
    · rcases hclient with hsame | hzero
      · rw [hsame]
        exact h.tracks.congr howner
      · rw [hzero]
        exact Kernel.tracks_zero _
  detaching := by
    simp only [System.handle, detach?_handle]
    nofun

/-- After its pulse the id is saved no longer. -/
theorem OwnHolder.disconnect (h : OwnHolder S) {scoid : Scoid}
    (hK : S.kernel.receivePulse scoid = some K) :
    OwnHolder (S.handle resp (.disconnect scoid) K S.granted) where
  tracks := by
    simp only [System.handle]
    rcases (clientScoid_disconnect resp S.server scoid).2 with hsame | hzero
    · rw [hsame]
      exact h.tracks.congr (Kernel.owner_receivePulse hK).1
    · rw [hzero]
      exact Kernel.tracks_zero _
  detaching := by
    simp only [System.handle, detach?_handle, ne_eq, Option.some.injEq]
    exact (clientScoid_disconnect resp S.server scoid).1.symm

theorem OwnHolder.step (h : OwnHolder S) {e : SystemEvent} (he : S.step resp e = some S') :
    OwnHolder S' := by
  cases e with
  | client a =>
    obtain ⟨K, hK, rfl⟩ := Option.map_eq_some_iff.1 he
    exact ⟨h.tracks.act hK, h.detaching⟩
  | message scoid m env =>
    obtain ⟨-, he⟩ := Option.ite_none_right_eq_some.1 he
    obtain ⟨K, hK, rfl⟩ := Option.map_eq_some_iff.1 he
    exact h.message env hK
  | disconnect scoid =>
    obtain ⟨-, he⟩ := Option.ite_none_right_eq_some.1 he
    obtain ⟨K, hK, rfl⟩ := Option.map_eq_some_iff.1 he
    exact h.disconnect hK
  | otherPulse =>
    obtain ⟨-, he⟩ := Option.ite_none_right_eq_some.1 he
    cases he
    exact ⟨h.tracks, nofun⟩
  | detach =>
    obtain ⟨scoid, hscoid, rfl⟩ := Option.map_eq_some_iff.1 he
    refine ⟨h.tracks.detach ?_, nofun⟩
    rintro rfl
    exact h.detaching hscoid

theorem ownHolder_of_run {h : List (System × SystemEvent)} (hrun : (system resp).Run h S) :
    OwnHolder S := by
  apply hrun.invariant (fun _ => OwnHolder.init)
  intro S e ha hS
  obtain ⟨S', hS'⟩ := Option.isSome_iff_exists.1 ha
  show OwnHolder ((S.step resp e).getD S)
  rw [hS']
  exact hS.step hS'

/-- What is known of `client_scoid`: it belongs to the client whose GET was granted. No other client
has that id, and the pulse of another client changes nothing. -/
structure OwnRegion (resp : List Byte) (S : System) : Prop where
  own : S.server.clientScoid ≠ 0 →
    ∃ n, S.granted = some n ∧ S.kernel.owner S.server.clientScoid = some n
  others : ∀ (scoid : Scoid) n, S.kernel.owner scoid = some n → S.granted ≠ some n →
    scoid.1 ≠ S.server.clientScoid ∧ (handle resp (.disconnect scoid) S.server).1 = S.server

theorem ownRegion_of_run {h : List (System × SystemEvent)} (hrun : (system resp).Run h S) :
    OwnRegion resp S := by
  have htracks := (ownHolder_of_run hrun).tracks
  refine ⟨htracks, fun scoid n hn hother => ?_⟩
  have hne : scoid.1 ≠ S.server.clientScoid := fun heq => hother (htracks.who_eq (heq ▸ hn))
  refine ⟨hne, ?_⟩
  simp only [handle, disconnect, if_neg hne]

end QnxTutorial.ShmemQnx
