import Mathlib.Algebra.Group.Nat.Defs
import Mathlib.Data.Int.Notation
import QnxTutorial.AddressSpace
import QnxTutorial.Machine
import QnxTutorial.RecvBuf

/-!
# The server of `shmem_qnx_server.c`

The server keeps one shared region: whoever asked for it last (`client_scoid`), where it is mapped
(`shmem_ptr`) and how large it is (`shmem_memory_size`). Here a message is already decoded. Next to
these variables, the state has the mappings of the process, each with the length that `mmap` was
given. Handling an event also says which calls the server makes, without the diagnostics.

**Theorem (`get_act`).** The five things a GET message can do.

**Theorem (`wellFormed_of_run`).** The mappings never overlap, start at pages, and are at most
64 KiB long.
-/

namespace QnxTutorial.ShmemQnx

open AddressSpace RecvBuf

/-! ## Messages and replies -/

/-- A server connection id. The kernel does not use zero. -/
abbrev Scoid := {scoid : ℤ // scoid ≠ 0}

/-- `struct _msg_info`. -/
structure MsgInfo where
  scoid : Scoid
  pid : ℤ

/-- A message, by its type. -/
inductive Request where
  | get (sharedMemBytes : BitVec 32)
  | changed (offset length : BitVec 32)
  | release
  | unknown

inductive Reply where
  | getResp (memHandle : ℕ)
  | changedResp (offset length : BitVec 32)
  | empty
  deriving DecidableEq

/-- The error of a `MsgError`, where `errno` is what the call that failed left in it. -/
inductive Error where
  | einval
  | eperm
  | ebadmsg
  | enosys
  | errno (e : ℤ)
  deriving DecidableEq

/-- `DEFAULT_RESPONSE`. -/
def defaultResponse : List Byte :=
  "Answer from server".toList.map fun c => BitVec.ofNat 8 c.toNat

/-- `resp`: the first argument, if there is one. -/
def response (argv1 : Option (List Byte)) : List Byte := argv1.getD defaultResponse

/-- `resp_len`, an `unsigned`. -/
def respLen (resp : List Byte) : BitVec 32 := BitVec.ofNat 32 resp.length

/-- What the rest of the system does while an event is handled: how each call would end, and what
the clients have written to the memory. -/
structure Env where
  shmOpen : Except ℤ Unit
  ftruncate : Except ℤ Unit
  mmap : Except ℤ ℕ
  shmCreateHandle : Except ℤ ℕ
  msgReply : Except ℤ Unit
  memory : ℕ → Byte

/-- The calls of the server. An `munmap` is recorded with the mappings it finds. -/
inductive Call where
  | shmOpen
  | ftruncate (nbytes : BitVec 32)
  | mmap (nbytes : BitVec 32)
  | shmCreateHandle (clientPid : ℤ)
  | close
  | munmap (addr : ℕ) (len : BitVec 32) (live : List Mapping)
  | write (addr : ℕ) (bytes : List Byte)
  | memcpy (addr : ℕ) (bytes : List Byte)
  | msgReply (r : Reply)
  | msgError (e : Error)
  | connectDetach (scoid : ℤ)
  deriving DecidableEq

/-! ## State -/

structure State where
  clientScoid : ℤ
  shmemPtr : ℕ
  shmemMemorySize : BitVec 32
  mappings : List Mapping
  deriving DecidableEq

/-- `MAP_FAILED`, which is `(void *) -1`. -/
def mapFailed : ℕ := 2 ^ 64 - 1

def pageSize : ℕ := 4096

/-- `n` bytes in whole pages. -/
def roundUp (n : ℕ) : ℕ := (n + (pageSize - 1)) / pageSize * pageSize

/-- `munmap` fails if the address is not at a page or the length is zero. -/
def munmap (addr : ℕ) (len : BitVec 32) (s : State) : State :=
  if addr % pageSize = 0 ∧ len ≠ 0 then
    { s with mappings := unmap addr (addr + roundUp len.toNat) s.mappings }
  else s

@[simp] theorem munmap_clientScoid (addr : ℕ) (len : BitVec 32) (s : State) :
    (munmap addr len s).clientScoid = s.clientScoid := by
  unfold munmap
  split_ifs <;> rfl

/-! ## Handlers -/

/-- `MsgReply`, and `MsgError` if it fails. -/
def sendReply (r : Reply) (env : Env) : List Call :=
  .msgReply r :: match env.msgReply with
    | .ok _ => []
    | .error e => [.msgError (.errno e)]

def createSharedMemory (nbytes : BitVec 32) (clientPid : ℤ) (env : Env) (s : State) :
    State × List Call × Except ℤ ℕ :=
  match env.shmOpen with
  | .error e => (s, [.shmOpen], .error e)
  | .ok _ =>
    match env.ftruncate with
    | .error e => (s, [.shmOpen, .ftruncate nbytes, .close], .error e)
    | .ok _ =>
      match env.mmap with
      | .error e =>
        ({ s with shmemPtr := mapFailed },
          [.shmOpen, .ftruncate nbytes, .mmap nbytes, .close], .error e)
      | .ok addr =>
        let s := { s with shmemPtr := addr, mappings := ⟨addr, nbytes.toNat⟩ :: s.mappings }
        match env.shmCreateHandle with
        | .error e =>
          (munmap addr nbytes s,
            [.shmOpen, .ftruncate nbytes, .mmap nbytes, .shmCreateHandle clientPid, .close,
              .munmap addr nbytes s.mappings], .error e)
        | .ok handle =>
          (s, [.shmOpen, .ftruncate nbytes, .mmap nbytes, .shmCreateHandle clientPid, .close],
            .ok handle)

/-- `GET_SHMEM_MSG_TYPE`. The size is stored before it is checked. -/
def getShmem (info : MsgInfo) (sharedMemBytes : BitVec 32) (env : Env) (s : State) :
    State × List Call :=
  let s := { s with shmemMemorySize := sharedMemBytes }
  if sharedMemBytes.toNat > 64 * 1024 then (s, [.msgError .einval])
  else
    match createSharedMemory sharedMemBytes info.pid env s with
    | (s, calls, .error e) => (s, calls ++ [.msgError (.errno e)])
    | (s, calls, .ok handle) =>
      ({ s with clientScoid := info.scoid }, calls ++ sendReply (.getResp handle) env)

/-- The bounds test, with the sum of two `unsigned`. -/
def InBounds (shmemMemorySize offset nbytes : BitVec 32) : Prop :=
  ¬ (nbytes > shmemMemorySize ∨ offset > shmemMemorySize ∨ nbytes + offset > shmemMemorySize)

instance (size offset nbytes : BitVec 32) : Decidable (InBounds size offset nbytes) :=
  inferInstanceAs (Decidable (¬ _))

/-- `n` bytes from `addr` on. -/
def readBytes (memory : ℕ → Byte) (addr n : ℕ) : List Byte :=
  (List.range n).map fun i => memory (addr + i)

/-- `CHANGED_SHMEM_MSG_TYPE`. -/
def changedShmem (resp : List Byte) (info : MsgInfo) (offset nbytes : BitVec 32) (env : Env)
    (s : State) : State × List Call :=
  if info.scoid.1 ≠ s.clientScoid then (s, [.msgError .eperm])
  else if ¬ InBounds s.shmemMemorySize offset nbytes then (s, [.msgError .ebadmsg])
  else
    (s, .write (s.shmemPtr + offset.toNat)
        (readBytes env.memory (s.shmemPtr + offset.toNat) nbytes.toNat) ::
      .memcpy (s.shmemPtr + (4096 + 30)) (resp.take (respLen resp).toNat) ::
      sendReply (.changedResp (4096 + 30) (respLen resp)) env)

/-- `RELEASE_SHMEM_MSG_TYPE`. -/
def releaseShmem (info : MsgInfo) (env : Env) (s : State) : State × List Call :=
  if info.scoid.1 ≠ s.clientScoid then (s, [.msgError .eperm])
  else
    (munmap s.shmemPtr s.shmemMemorySize { s with clientScoid := 0 },
      .munmap s.shmemPtr s.shmemMemorySize s.mappings :: sendReply .empty env)

/-- `_PULSE_CODE_DISCONNECT`. -/
def disconnect (scoid : ℤ) (s : State) : State × List Call :=
  if scoid = s.clientScoid then
    (munmap s.shmemPtr s.shmemMemorySize { s with clientScoid := 0 },
      [.munmap s.shmemPtr s.shmemMemorySize s.mappings, .connectDetach scoid])
  else (s, [.connectDetach scoid])

/-- What `MsgReceive` returns. -/
inductive Event where
  | message (info : MsgInfo) (req : Request) (env : Env)
  | disconnect (scoid : Scoid)
  | otherPulse

/-- One round of the receive loop. -/
def handle (resp : List Byte) : Event → State → State × List Call
  | .message info (.get n) env, s => getShmem info n env s
  | .message info (.changed offset length) env, s => changedShmem resp info offset length env s
  | .message info .release env, s => releaseShmem info env s
  | .message _ .unknown _, s => (s, [.msgError .enosys])
  | .disconnect scoid, s => ShmemQnx.disconnect scoid s
  | .otherPulse, s => (s, [])

/-! ## Runs -/

/-- How `create_shared_memory` ends: without an object, without a mapping, without a handle for
what was mapped, or well. -/
inductive Creation where
  | noObject
  | noMapping
  | noHandle (addr : ℕ)
  | created (addr : ℕ)

def Env.creation (env : Env) : Creation :=
  match env.shmOpen, env.ftruncate, env.mmap, env.shmCreateHandle with
  | .error _, _, _, _ | _, .error _, _, _ => .noObject
  | .ok _, .ok _, .error _, _ => .noMapping
  | .ok _, .ok _, .ok addr, .error _ => .noHandle addr
  | .ok _, .ok _, .ok addr, .ok _ => .created addr

/-- What `mmap` promises when it succeeds: a page address, and pages that nothing is mapped to. -/
structure Fresh (ms : List Mapping) (addr : ℕ) (n : BitVec 32) : Prop where
  pos : n ≠ 0
  aligned : addr % pageSize = 0
  clear : ∀ m ∈ ms, m.start + m.len ≤ addr ∨ addr + roundUp n.toNat ≤ m.start

/-- A condition on GET messages. -/
def Event.OnGet (P : BitVec 32 → Env → Prop) : Event → Prop
  | .message _ (.get n) env => P n env
  | .message _ (.changed ..) _ | .message _ .release _ | .message _ .unknown _ | .disconnect _
  | .otherPulse => True

/-- The kernel keeps the promise. -/
def Allowed (s : State) (e : Event) : Prop :=
  e.OnGet fun n env => n.toNat ≤ 64 * 1024 → ∀ addr,
    env.creation = .noHandle addr ∨ env.creation = .created addr → Fresh s.mappings addr n

/-- The server, from the start of its receive loop. Pointer and size are not initialised. -/
def server (resp : List Byte) : Machine State Event where
  init s := s.clientScoid = 0 ∧ s.mappings = []
  allowed := Allowed
  next s e := (handle resp e s).1

/-! ## What a message does to the state -/

theorem le_roundUp (n : ℕ) : n ≤ roundUp n := by
  unfold roundUp pageSize
  omega

theorem toNat_pos {w : ℕ} {n : BitVec w} (h : n ≠ 0) : 0 < n.toNat := by
  rw [Nat.pos_iff_ne_zero]
  exact fun h0 => h (BitVec.eq_of_toNat_eq h0)

theorem Fresh.ne_start {ms : List Mapping} {addr : ℕ} {n : BitVec 32} (h : Fresh ms addr n)
    {m : Mapping} (hm : m ∈ ms) (hpos : 0 < m.len) : m.start ≠ addr := by
  have hn := toNat_pos h.pos
  have hle := le_roundUp n.toNat
  have := h.clear m hm
  omega

theorem mapFailed_not_aligned : mapFailed % pageSize ≠ 0 := by decide

/-- A GET is refused, or ends as `create_shared_memory` does. -/
inductive GetAct (s : State) (info : MsgInfo) (n : BitVec 32) (env : Env) : State → Prop
  | refused : 64 * 1024 < n.toNat → GetAct s info n env { s with shmemMemorySize := n }
  | noObject : n.toNat ≤ 64 * 1024 → env.creation = .noObject →
      GetAct s info n env { s with shmemMemorySize := n }
  | noMapping : n.toNat ≤ 64 * 1024 → env.creation = .noMapping →
      GetAct s info n env { s with shmemMemorySize := n, shmemPtr := mapFailed }
  | noHandle {addr : ℕ} : n.toNat ≤ 64 * 1024 → env.creation = .noHandle addr →
      Fresh s.mappings addr n →
      GetAct s info n env { s with shmemMemorySize := n, shmemPtr := addr }
  | created {addr : ℕ} : n.toNat ≤ 64 * 1024 → env.creation = .created addr →
      Fresh s.mappings addr n → GetAct s info n env
        { clientScoid := info.scoid
          shmemPtr := addr
          shmemMemorySize := n
          mappings := ⟨addr, n.toNat⟩ :: s.mappings }

/-- Unmapping a mapping that was just made leaves those before it. -/
theorem munmap_fresh {client : ℤ} {ptr addr : ℕ} {size n : BitVec 32} {ms : List Mapping}
    (hpos : ∀ m ∈ ms, 0 < m.len) (h : Fresh ms addr n) :
    munmap addr n ⟨client, ptr, size, ⟨addr, n.toNat⟩ :: ms⟩ = ⟨client, ptr, size, ms⟩ := by
  have hle := le_roundUp n.toNat
  have hback : unmap addr (addr + roundUp n.toNat) (⟨addr, n.toNat⟩ :: ms) = ms :=
    unmap_cons_fresh (m := ⟨addr, n.toNat⟩) (by simp only; omega) hpos h.clear
  rw [munmap, if_pos ⟨h.aligned, h.pos⟩]
  simp only [hback]

theorem get_act {s : State} {info : MsgInfo} {n : BitVec 32} {env : Env}
    (hpos : ∀ m ∈ s.mappings, 0 < m.len) (ha : Allowed s (.message info (.get n) env)) :
    GetAct s info n env (getShmem info n env s).1 := by
  by_cases hn : n.toNat > 64 * 1024
  · simp only [getShmem, if_pos hn]
    exact .refused hn
  · have hn' : n.toNat ≤ 64 * 1024 := Nat.le_of_not_gt hn
    cases hopen : env.shmOpen with
    | error e =>
      simp only [getShmem, if_neg hn, createSharedMemory, hopen]
      exact .noObject hn' (by simp only [Env.creation, hopen])
    | ok =>
      cases htrunc : env.ftruncate with
      | error e =>
        simp only [getShmem, if_neg hn, createSharedMemory, hopen, htrunc]
        exact .noObject hn' (by simp only [Env.creation, hopen, htrunc])
      | ok =>
        cases hmap : env.mmap with
        | error e =>
          simp only [getShmem, if_neg hn, createSharedMemory, hopen, htrunc, hmap]
          exact .noMapping hn' (by simp only [Env.creation, hopen, htrunc, hmap])
        | ok addr =>
          cases hhandle : env.shmCreateHandle with
          | error e =>
            have hc : env.creation = .noHandle addr := by
              simp only [Env.creation, hopen, htrunc, hmap, hhandle]
            have hfresh := ha hn' addr (.inl hc)
            simp only [getShmem, if_neg hn, createSharedMemory, hopen, htrunc, hmap, hhandle]
            rw [munmap_fresh hpos hfresh]
            exact .noHandle hn' hc hfresh
          | ok handle =>
            have hc : env.creation = .created addr := by
              simp only [Env.creation, hopen, htrunc, hmap, hhandle]
            simp only [getShmem, if_neg hn, createSharedMemory, hopen, htrunc, hmap, hhandle]
            exact .created hn' hc (ha hn' addr (.inr hc))

def Event.isGet : Event → Bool
  | .message _ (.get _) _ => true
  | .message _ (.changed ..) _ | .message _ .release _ | .message _ .unknown _ | .disconnect _
  | .otherPulse => false

/-- The client `client` gives its region up. -/
def Event.Frees (client : ℤ) : Event → Prop
  | .message info .release _ => info.scoid.1 = client
  | .disconnect scoid => scoid.1 = client
  | .message _ (.get _) _ | .message _ (.changed ..) _ | .message _ .unknown _ | .otherPulse =>
    False

theorem Event.onGet_of_not_get {P : BitVec 32 → Env → Prop} {e : Event} (h : e.isGet = false) :
    e.OnGet P := by
  cases e with
  | message info req env =>
    cases req with
    | get => cases h
    | changed | release | unknown => trivial
  | disconnect | otherPulse => trivial

theorem Event.Frees.isGet {client : ℤ} {e : Event} (h : e.Frees client) : e.isGet = false := by
  cases e with
  | message info req env =>
    cases req with
    | release => rfl
    | get | changed | unknown => cases h
  | disconnect => rfl
  | otherPulse => cases h

/-- An event is a GET, or lets the client go, or leaves the state as it is. -/
inductive Act (s : State) : Event → State → Prop
  | get {info : MsgInfo} {n : BitVec 32} {env : Env} {s' : State} : GetAct s info n env s' →
      Act s (.message info (.get n) env) s'
  | frees {e : Event} : e.Frees s.clientScoid →
      Act s e (munmap s.shmemPtr s.shmemMemorySize { s with clientScoid := 0 })
  | keeps {e : Event} : e.isGet = false → ¬ e.Frees s.clientScoid → Act s e s

theorem handle_act (resp : List Byte) {s : State} {e : Event} (hpos : ∀ m ∈ s.mappings, 0 < m.len)
    (ha : Allowed s e) : Act s e (handle resp e s).1 := by
  cases e with
  | message info req env =>
    cases req with
    | get n => exact .get (get_act hpos ha)
    | changed offset length =>
      have hsame : (changedShmem resp info offset length env s).1 = s := by
        unfold changedShmem
        split_ifs <;> rfl
      exact hsame.symm ▸ .keeps rfl id
    | release =>
      show Act s _ (releaseShmem info env s).1
      unfold releaseShmem
      split_ifs with h
      · exact .keeps rfl h
      · exact .frees (not_not.1 h)
    | unknown => exact .keeps rfl id
  | disconnect scoid =>
    show Act s _ (ShmemQnx.disconnect scoid s).1
    unfold ShmemQnx.disconnect
    split_ifs with h
    · exact .frees h
    · exact .keeps rfl h
  | otherPulse => exact .keeps rfl id

/-! ## The mappings -/

/-- What holds of the mappings however the requests are ordered. -/
structure WellFormed (s : State) : Prop where
  separate : Separate s.mappings
  bound : ∀ m ∈ s.mappings, m.len ≤ 64 * 1024
  aligned : ∀ m ∈ s.mappings, m.start % pageSize = 0

theorem WellFormed.munmap {s : State} (h : WellFormed s) (addr : ℕ) (len : BitVec 32) :
    WellFormed (munmap addr len s) := by
  unfold ShmemQnx.munmap
  split_ifs with hguard
  · refine ⟨unmap_separate (by omega) h.separate, ?_, ?_⟩
    · intro m hm
      obtain ⟨m₀, hm₀, ⟨hstart, hend⟩, -, -⟩ := mem_unmap hm
      have := h.bound m₀ hm₀
      omega
    · intro m hm
      obtain ⟨m₀, hm₀, -, -, hstart | hstart⟩ := mem_unmap hm
      · rw [hstart]
        exact h.aligned m₀ hm₀
      · rw [hstart]
        have := hguard.1
        unfold roundUp pageSize at *
        omega
  · exact h

theorem Fresh.wellFormed {s : State} {addr : ℕ} {n : BitVec 32} (hf : Fresh s.mappings addr n)
    (hn : n.toNat ≤ 64 * 1024) (h : WellFormed s) (client : ℤ) :
    WellFormed ⟨client, addr, n, ⟨addr, n.toNat⟩ :: s.mappings⟩ where
  separate := by
    have hle := le_roundUp n.toNat
    apply h.separate.cons (toNat_pos hf.pos)
    intro m hm
    rcases hf.clear m hm with hm | hm
    · exact .inr hm
    · exact .inl (by simp only; omega)
  bound := List.forall_mem_cons.2 ⟨hn, h.bound⟩
  aligned := List.forall_mem_cons.2 ⟨hf.aligned, h.aligned⟩

theorem Act.wellFormed {s s' : State} {e : Event} (h : WellFormed s) (ha : Act s e s') :
    WellFormed s' := by
  cases ha with
  | get hget =>
    cases hget with
    | refused | noObject | noMapping | noHandle => exact ⟨h.separate, h.bound, h.aligned⟩
    | created hn _ hf => exact hf.wellFormed hn h _
  | frees =>
    have h' : WellFormed { s with clientScoid := 0 } := ⟨h.separate, h.bound, h.aligned⟩
    exact h'.munmap _ _
  | keeps => exact h

/-! ## Along a run -/

variable {resp : List Byte}

theorem wellFormed_init {s : State} (hs : (server resp).init s) : WellFormed s := by
  have hnil : s.mappings = [] := hs.2
  exact ⟨hnil ▸ .nil, by simp [hnil], by simp [hnil]⟩

theorem wellFormed_next {s : State} {e : Event} (ha : Allowed s e) (h : WellFormed s) :
    WellFormed ((server resp).next s e) :=
  (handle_act resp h.separate.pos ha).wellFormed h

theorem wellFormed_of_run {h : List (State × Event)} {s : State} (hrun : (server resp).Run h s) :
    WellFormed s :=
  hrun.invariant (fun _ hs => wellFormed_init hs) fun _ _ ha hs => wellFormed_next ha hs

/-- Pointer and size happen to be zero. -/
def start : State := ⟨0, 0, 0, []⟩

/-- Everything works, and `mmap` finds room at `addr`. -/
def Env.allWell (addr : ℕ) : Env := ⟨.ok (), .ok (), .ok addr, .ok 1, .ok (), fun _ => 0⟩

theorem allowed_allWell {s : State} (info : MsgInfo) {n : BitVec 32} {addr : ℕ}
    (h : Fresh s.mappings addr n) : Allowed s (.message info (.get n) (.allWell addr)) := by
  rintro - addr' (hc | hc) <;> cases hc
  exact h

def firstClient : MsgInfo := ⟨⟨1, by decide⟩, 0⟩

def secondClient : MsgInfo := ⟨⟨2, by decide⟩, 0⟩

theorem run_first (resp : List Byte) {n : BitVec 32} (hpos : n ≠ 0)
    (hn : n.toNat ≤ 64 * 1024) :
    (server resp).Run [(start, .message firstClient (.get n) (.allWell 0x10000))]
      ⟨1, 0x10000, n, [⟨0x10000, n.toNat⟩]⟩ := by
  have ha : (server resp).allowed start (.message firstClient (.get n) (.allWell 0x10000)) :=
    allowed_allWell firstClient ⟨hpos, by decide, List.forall_mem_nil _⟩
  have hrun := (Machine.Run.init (M := server resp) (s := start) ⟨rfl, rfl⟩).step ha
  have hnext : (server resp).next start (.message firstClient (.get n) (.allWell 0x10000)) =
      ⟨1, 0x10000, n, [⟨0x10000, n.toNat⟩]⟩ := by
    show (getShmem firstClient n (.allWell 0x10000) start).1 = _
    rw [getShmem, if_neg (Nat.not_lt.2 hn)]
    rfl
  rwa [hnext] at hrun

end QnxTutorial.ShmemQnx
