import Mathlib.Data.Option.Basic
import QnxTutorial.Bytes
import QnxTutorial.ShmemQnx.Region

/-!
# The exchange of `shmem_qnx_client.c` with the server

One client gets two pages, puts its string into the first, tells the server, prints the answer out
of the second and releases the memory. The region is shared. What each process has behind its
mapping is its own, and an access beyond what is mapped there ends the exchange.

**Theorem (`exchange_iff`).** For which strings both texts arrive and every access is in the
region.

**Theorem (`exchange_overruns`).** A response that is too long for its page goes over the end.
-/

namespace QnxTutorial.ShmemQnx.Exchange

open RecvBuf

/-! ## The client -/

/-- Two pages. -/
def sharedMemBytes : BitVec 32 := 8192

/-- `DEFAULT_CLIENT_STRING`. -/
def defaultClientString : List Byte :=
  "hello from client".toList.map fun c => BitVec.ofNat 8 c.toNat

/-- The client's string: its first argument, if there is one. -/
def clientString (argv1 : Option (List Byte)) : List Byte := argv1.getD defaultClientString

/-- `len`, an `unsigned`. -/
def clientLen (string : List Byte) : BitVec 32 := BitVec.ofNat 32 string.length

/-- What the rest of the system does: how the client's calls end, and the server's for each of the
three messages, how many of `n` bytes a `write` emits, and how many bytes each process has mapped
behind the region. -/
structure World where
  info : MsgInfo
  nameOpen : Bool
  shmOpenHandle : Bool
  mmap : Bool
  clientWrite : ℕ → ℕ
  get : Env
  changed : Env
  release : Env
  serverWrite : ℕ → ℕ
  clientBehind : ℕ
  serverBehind : ℕ
  clientMemory : Buf
  serverMemory : Buf

/-- The memory from the start of the region on. -/
def view (region behind : Buf) : Buf := fun i =>
  if i < sharedMemBytes.toNat then region i else behind i

def Call.reply? : Call → Option Reply
  | .msgReply r => some r
  | _ => none

def Call.isError : Call → Bool
  | .msgError _ => true
  | _ => false

/-- What `MsgSend` gets from the calls of the server. -/
def msgSend (calls : List Call) : Option Reply :=
  if calls.any Call.isError then none else calls.findSome? Call.reply?

/-- `write`, which may emit fewer bytes than it is given. Nobody looks at its result. -/
def write (emits : ℕ → ℕ) (bytes : List Byte) : List Byte := bytes.take (emits bytes.length)

/-- What a call writes to the output. -/
def Call.printed? : Call → Option (List Byte)
  | .write _ bytes => some bytes
  | _ => none

/-- What a call does to the memory at `shmem_ptr`. -/
def Call.store (shmemPtr : ℕ) (memory : Buf) : Call → Buf
  | .memcpy addr bytes => poke memory (addr - shmemPtr) bytes
  | _ => memory

/-- What was printed, and all accesses, as offsets into the region with numbers of bytes. -/
structure Outcome where
  serverPrinted : List (List Byte)
  clientPrinted : List Byte
  accesses : List (ℕ × ℕ)

/-- The client's memory after `memcpy(mem_ptr+20, argv[1], len)`. That of a new object is zeros. -/
def filled (string : List Byte) (w : World) : Buf :=
  poke (view (fun _ => 0) w.clientMemory) 20 (string.take (clientLen string).toNat)

/-- The server's, at the same time. -/
def serverView (string : List Byte) (w : World) : Buf := view (filled string w) w.serverMemory

/-- The server's round for the client's CHANGED message. -/
def changedRound (string resp : List Byte) (s : State) (w : World) : State × List Call :=
  handle resp (.message w.info (.changed 20 (clientLen string))
    { w.changed with memory := fun addr => serverView string w (addr - s.shmemPtr) }) s

/-- The client's memory after that. -/
def answered (string : List Byte) (s : State) (w : World) (calls : List Call) : Buf :=
  view (calls.foldl (Call.store s.shmemPtr) (serverView string w)) (filled string w)

/-- `main` of the client and the rounds of the server. There is an outcome if the client ends with
success. -/
def exchange (string resp : List Byte) (s : State) (w : World) : Option Outcome := do
  guard w.nameOpen
  let (s, calls) := handle resp (.message w.info (.get sharedMemBytes) w.get) s
  let .getResp _ ← msgSend calls | none
  guard w.shmOpenHandle
  guard w.mmap
  guard (20 + (clientLen string).toNat ≤ sharedMemBytes.toNat + w.clientBehind)
  let (s, calls) := changedRound string resp s w
  let accesses := calls.filterMap Call.access
  guard (∀ a ∈ accesses, a.1 + a.2 ≤ s.shmemPtr + (sharedMemBytes.toNat + w.serverBehind))
  let .changedResp offset length ← msgSend calls | none
  guard (offset.toNat + length.toNat ≤ sharedMemBytes.toNat + w.clientBehind)
  let .empty ← msgSend (handle resp (.message w.info .release w.release) s).2 | none
  return {
    serverPrinted := (calls.filterMap Call.printed?).map (write w.serverWrite)
    clientPrinted := write w.clientWrite
      (peek (answered string s w calls) offset.toNat length.toNat)
    accesses := (20, (clientLen string).toNat) ::
      accesses.map (fun a => (a.1 - s.shmemPtr, a.2)) ++ [(offset.toNat, length.toNat)] }

/-- No system call fails, and no `write` is short. -/
structure World.NoFailure (w : World) : Prop where
  nameOpen : w.nameOpen = true
  shmOpenHandle : w.shmOpenHandle = true
  mmap : w.mmap = true
  clientWrite : ∀ n, w.clientWrite n = n
  serverWrite : ∀ n, w.serverWrite n = n
  get : ∃ addr, w.get.creation = .created addr
  getReply : w.get.msgReply = .ok ()
  changedReply : w.changed.msgReply = .ok ()
  releaseReply : w.release.msgReply = .ok ()

/-- Whenever no system call fails or is short, and the client ends with success, both texts were
printed and every access was in the region. -/
def DeliversIntact (string resp : List Byte) : Prop :=
  ∀ s w out, (server resp).init s → World.NoFailure w → exchange string resp s w = some out →
    out.serverPrinted = [string] ∧ out.clientPrinted = resp ∧
    ∀ a ∈ out.accesses, a.1 + a.2 ≤ sharedMemBytes.toNat

/-! ## The rounds of the server -/

theorem guard_pos {p : Prop} [Decidable p] (h : p) : (guard p : Option Unit) = some () := if_pos h

variable {string resp : List Byte} {s : State} {w : World} {addr : ℕ}

theorem sendReply_ok {env : Env} (h : env.msgReply = .ok ()) (r : Reply) :
    sendReply r env = [.msgReply r] := by
  simp only [sendReply, h]

theorem Env.creation_eq_created {env : Env} (h : env.creation = .created addr) :
    env.shmOpen = .ok () ∧ env.ftruncate = .ok () ∧ env.mmap = .ok addr ∧
      ∃ handle, env.shmCreateHandle = .ok handle := by
  obtain ⟨shmOpen, ftruncate, mmap, shmCreateHandle, msgReply, memory⟩ := env
  cases shmOpen <;> cases ftruncate <;> cases mmap <;> cases shmCreateHandle <;>
    simp_all [Env.creation]

/-- The state while the client has the region. -/
def held (w : World) (addr : ℕ) : State :=
  ⟨w.info.scoid, addr, sharedMemBytes, [⟨addr, sharedMemBytes.toNat⟩]⟩

/-- What the server does to make the region. -/
def getCalls (w : World) (memHandle : ℕ) : List Call :=
  [.shmOpen, .ftruncate sharedMemBytes, .mmap sharedMemBytes, .shmCreateHandle w.info.pid, .close,
    .msgReply (.getResp memHandle)]

theorem msgSend_getCalls (memHandle : ℕ) :
    msgSend (getCalls w memHandle) = some (.getResp memHandle) := rfl

theorem handle_get (hs : (server resp).init s) (hw : w.NoFailure)
    (haddr : w.get.creation = .created addr) : ∃ h,
    handle resp (.message w.info (.get sharedMemBytes) w.get) s = (held w addr, getCalls w h) := by
  obtain ⟨-, hmappings⟩ := hs
  obtain ⟨hopen, htrunc, hmap, h, hhandle⟩ := Env.creation_eq_created haddr
  have hsmall : ¬ sharedMemBytes.toNat > 64 * 1024 := by decide
  refine ⟨h, ?_⟩
  simp only [handle, getShmem, if_neg hsmall, createSharedMemory, hopen, htrunc, hmap, hhandle,
    sendReply_ok hw.getReply, hmappings, held]
  rfl

theorem inBounds_iff (len : BitVec 32) :
    InBounds sharedMemBytes 20 len ↔ 20 + len.toNat ≤ sharedMemBytes.toNat := by
  have hsize : sharedMemBytes.toNat = 8192 := rfl
  have hoffset : (20 : BitVec 32).toNat = 20 := rfl
  simp only [InBounds, gt_iff_lt, BitVec.lt_def, BitVec.toNat_add, hsize, hoffset]
  omega

theorem length_take_len (bytes : List Byte) :
    (bytes.take (BitVec.ofNat 32 bytes.length).toNat).length =
      (BitVec.ofNat 32 bytes.length).toNat := by
  rw [List.length_take, BitVec.toNat_ofNat]
  exact Nat.min_eq_left (Nat.mod_le _ _)

theorem view_of_lt {region behind : Buf} {i : ℕ} (hi : i < sharedMemBytes.toNat) :
    view region behind i = region i := if_pos hi

theorem readBytes_serverView (hlen : 20 + (clientLen string).toNat ≤ sharedMemBytes.toNat) :
    readBytes (fun i => serverView string w (i - addr)) (addr + 20) (clientLen string).toNat =
      string.take (clientLen string).toNat := by
  have hlength : (string.take (clientLen string).toNat).length = (clientLen string).toNat :=
    length_take_len string
  apply List.ext_getElem (by simp [readBytes, hlength])
  intro i hi hi'
  have hlt : 20 + i < sharedMemBytes.toNat := by omega
  have haddr : addr + 20 + i - addr = 20 + i := by omega
  simp only [readBytes, List.getElem_map, List.getElem_range, haddr]
  rw [serverView, view_of_lt hlt, filled, poke_add hi']

/-- What the server does when the string fits. -/
def changedCalls (string resp : List Byte) (addr : ℕ) : List Call :=
  [.write (addr + 20) (string.take (clientLen string).toNat),
    .memcpy (addr + (4096 + 30)) (resp.take (respLen resp).toNat),
    .msgReply (.changedResp (4096 + 30) (respLen resp))]

/-- The server prints the string and copies its answer, or refuses the message. -/
theorem changedRound_eq (hw : w.NoFailure) : changedRound string resp (held w addr) w =
    (held w addr, if 20 + (clientLen string).toNat ≤ sharedMemBytes.toNat then
      changedCalls string resp addr else [.msgError .ebadmsg]) := by
  have hoffset : (20 : BitVec 32).toNat = 20 := rfl
  have hreply (memory : ℕ → Byte) (r : Reply) :
      sendReply r { w.changed with memory := memory } = [.msgReply r] :=
    sendReply_ok hw.changedReply r
  simp only [changedRound, handle, changedShmem, held, ne_eq, not_true_eq_false, if_false,
    inBounds_iff, hoffset, hreply]
  by_cases hlen : 20 + (clientLen string).toNat ≤ sharedMemBytes.toNat
  · rw [if_neg (not_not.2 hlen), if_pos hlen, readBytes_serverView hlen, changedCalls]
  · rw [if_pos hlen, if_neg hlen]

theorem access_changedCalls : (changedCalls string resp addr).filterMap Call.access =
    [(addr + 20, (clientLen string).toNat), (addr + (4096 + 30), (respLen resp).toNat)] := by
  have hstring : (string.take (clientLen string).toNat).length = (clientLen string).toNat :=
    length_take_len string
  have hresp : (resp.take (respLen resp).toNat).length = (respLen resp).toNat :=
    length_take_len resp
  simp only [changedCalls, List.filterMap_cons, Call.access, hstring, hresp, List.filterMap_nil]

theorem peek_answered (hresp : 4096 + 30 + (respLen resp).toNat ≤ sharedMemBytes.toNat) :
    peek (answered string (held w addr) w (changedCalls string resp addr)) (4096 + 30)
      (respLen resp).toNat = resp.take (respLen resp).toNat := by
  have hlength : (resp.take (respLen resp).toNat).length = (respLen resp).toNat :=
    length_take_len resp
  apply List.ext_getElem (by simp [hlength])
  intro i hi hi'
  have hlt : 4096 + 30 + i < sharedMemBytes.toNat := by omega
  have haddr : addr + (4096 + 30) - addr = 4096 + 30 := by omega
  rw [getElem_peek, answered, view_of_lt hlt]
  simp only [changedCalls, held, List.foldl_cons, List.foldl_nil, Call.store, haddr]
  exact poke_add hi'

theorem write_of_whole {emits : ℕ → ℕ} (h : ∀ n, emits n = n) (bytes : List Byte) :
    write emits bytes = bytes := by
  rw [write, h, List.take_length]

theorem handle_release (hw : w.NoFailure) :
    (handle resp (.message w.info .release w.release) (held w addr)).2 =
      [.munmap addr sharedMemBytes [⟨addr, sharedMemBytes.toNat⟩], .msgReply .empty] := by
  simp [handle, releaseShmem, held, sendReply_ok hw.releaseReply]

/-! ## The exchange -/

/-- The server refuses a string that does not fit. -/
theorem exchange_eq_none (hs : (server resp).init s) (hw : w.NoFailure)
    (hlen : sharedMemBytes.toNat < 20 + (clientLen string).toNat) :
    exchange string resp s w = none := by
  obtain ⟨addr, haddr⟩ := hw.get
  obtain ⟨h, hget⟩ := handle_get hs hw haddr
  have hchanged : msgSend [.msgError .ebadmsg] = none := rfl
  simp only [exchange, hget, msgSend_getCalls, changedRound_eq hw, if_neg (Nat.not_le.2 hlen),
    hchanged]
  simp

/-- The outcome when the string fits. -/
def outcome (string resp : List Byte) (addr : ℕ) (w : World) : Outcome where
  serverPrinted := [string.take (clientLen string).toNat]
  clientPrinted := peek (answered string (held w addr) w (changedCalls string resp addr))
    (4096 + 30) (respLen resp).toNat
  accesses := [(20, (clientLen string).toNat), (20, (clientLen string).toNat),
    (4096 + 30, (respLen resp).toNat), (4096 + 30, (respLen resp).toNat)]

/-- A string that fits arrives, if the answer can go as far as it is long. -/
theorem exchange_eq_some (hs : (server resp).init s) (hw : w.NoFailure)
    (haddr : w.get.creation = .created addr)
    (hlen : 20 + (clientLen string).toNat ≤ sharedMemBytes.toNat)
    (hclient : 4096 + 30 + (respLen resp).toNat ≤ sharedMemBytes.toNat + w.clientBehind)
    (hserver : 4096 + 30 + (respLen resp).toNat ≤ sharedMemBytes.toNat + w.serverBehind) :
    exchange string resp s w = some (outcome string resp addr w) := by
  obtain ⟨h, hget⟩ := handle_get hs hw haddr
  have hchanged : msgSend (changedCalls string resp addr) =
    some (.changedResp (4096 + 30) (respLen resp)) := rfl
  have hrelease : msgSend [.munmap addr sharedMemBytes [⟨addr, sharedMemBytes.toNat⟩],
    .msgReply .empty] = some .empty := rfl
  have hoffset : (4096 + 30 : BitVec 32).toNat = 4096 + 30 := rfl
  have hmapped : 20 + (clientLen string).toNat ≤ sharedMemBytes.toNat + w.clientBehind := by omega
  have hserved : ∀ a ∈ [(addr + 20, (clientLen string).toNat),
      (addr + (4096 + 30), (respLen resp).toNat)],
      a.1 + a.2 ≤ (held w addr).shmemPtr + (sharedMemBytes.toNat + w.serverBehind) := by
    intro a ha
    simp only [List.mem_cons, List.not_mem_nil, or_false] at ha
    rcases ha with rfl | rfl <;> simp only [held] <;> omega
  have hrelative : [(addr + 20, (clientLen string).toNat),
      (addr + (4096 + 30), (respLen resp).toNat)].map
        (fun a => (a.1 - (held w addr).shmemPtr, a.2)) =
      [(20, (clientLen string).toNat), (4096 + 30, (respLen resp).toNat)] := by
    simp [held]
  have hprinted : ((changedCalls string resp addr).filterMap Call.printed?).map
      (write w.serverWrite) = [string.take (clientLen string).toNat] :=
    congrArg (fun bytes => [bytes]) (write_of_whole hw.serverWrite _)
  simp only [exchange, hget, msgSend_getCalls, changedRound_eq hw, if_pos hlen, hchanged,
    handle_release hw, hrelease, access_changedCalls, hrelative, hprinted,
    write_of_whole hw.clientWrite]
  rw [guard_pos hw.nameOpen, guard_pos hw.shmOpenHandle, guard_pos hw.mmap, guard_pos hmapped,
    guard_pos hserved]
  simp only [Option.bind_eq_bind, Option.bind_some, hoffset]
  rw [guard_pos hclient]
  rfl

/-! ## The theorems -/

/-- Everything works, and both processes have 4 GiB mapped behind the region. -/
def World.allWell : World where
  info := firstClient
  nameOpen := true
  shmOpenHandle := true
  mmap := true
  clientWrite := id
  get := .allWell 0x10000
  changed := .allWell 0
  release := .allWell 0
  serverWrite := id
  clientBehind := 2 ^ 32
  serverBehind := 2 ^ 32
  clientMemory := fun _ => 0
  serverMemory := fun _ => 0

theorem World.allWell_noFailure : World.allWell.NoFailure :=
  ⟨rfl, rfl, rfl, fun _ => rfl, fun _ => rfl, ⟨0x10000, rfl⟩, rfl, rfl, rfl⟩

/-- With all that memory a string that fits always has an outcome. -/
theorem exchange_allWell (hlen : 20 + (clientLen string).toNat ≤ sharedMemBytes.toNat) :
    exchange string resp start .allWell = some (outcome string resp 0x10000 .allWell) := by
  have hlt : (respLen resp).toNat < 2 ^ 32 := BitVec.isLt _
  have hsize : sharedMemBytes.toNat = 8192 := rfl
  refine exchange_eq_some ⟨rfl, rfl⟩ World.allWell_noFailure rfl hlen ?_ ?_ <;>
    simp only [World.allWell] <;> omega

/-- **The exchange delivers both texts** exactly if the server refuses the string, whose length is
taken modulo 2^32, or the string and the response fit into the region. -/
theorem exchange_iff (clientArg serverArg : Option (List Byte)) :
    DeliversIntact (clientString clientArg) (response serverArg) ↔
      8172 < (clientString clientArg).length % 2 ^ 32 ∨
        (clientString clientArg).length ≤ 8172 ∧ (response serverArg).length ≤ 4066 := by
  generalize clientString clientArg = string
  generalize response serverArg = resp
  have hsize : sharedMemBytes.toNat = 8192 := rfl
  have hclientLen : (clientLen string).toNat = string.length % 2 ^ 32 := BitVec.toNat_ofNat _ _
  have hrespLen : (respLen resp).toNat = resp.length % 2 ^ 32 := BitVec.toNat_ofNat _ _
  constructor
  · intro h
    by_cases hrefused : 8172 < string.length % 2 ^ 32
    · exact .inl hrefused
    · obtain ⟨hserver, hclient, haccess⟩ := h start .allWell _ ⟨rfl, rfl⟩
        World.allWell_noFailure (exchange_allWell (by omega))
      have hstring : min (clientLen string).toNat string.length = string.length := by
        rw [← List.length_take]
        exact congrArg List.length (List.singleton_inj.1 hserver)
      have hlength : resp.length = (respLen resp).toNat :=
        (congrArg List.length hclient).symm.trans length_peek
      have hanswer := haccess (4096 + 30, (respLen resp).toNat) (by simp [outcome])
      simp only at hanswer
      exact .inr ⟨by omega, by omega⟩
  · rintro (hrefused | ⟨hstring, hresp⟩) s w out hs hw hout
    · rw [exchange_eq_none hs hw (by omega)] at hout
      cases hout
    · obtain ⟨addr, haddr⟩ := hw.get
      rw [exchange_eq_some hs hw haddr (by omega) (by omega) (by omega)] at hout
      cases hout
      refine ⟨?_, ?_, ?_⟩
      · exact congrArg (fun bytes => [bytes]) (List.take_of_length_le (by omega))
      · exact (peek_answered (by omega)).trans (List.take_of_length_le (by omega))
      · intro a ha
        simp only [outcome, List.mem_cons, List.not_mem_nil, or_false] at ha
        rcases ha with rfl | rfl | rfl | rfl <;> simp only <;> omega

/-- **A response that is too long** for its page is written beyond the region. -/
theorem exchange_overruns : ¬ ∀ clientArg serverArg : Option (List Byte),
    DeliversIntact (clientString clientArg) (response serverArg) := by
  intro h
  have hstring : 20 + (clientLen (clientString none)).toNat ≤ sharedMemBytes.toNat := by decide
  obtain ⟨-, -, haccess⟩ := h none (some (List.replicate 4067 65)) start .allWell _ ⟨rfl, rfl⟩
    World.allWell_noFailure (exchange_allWell hstring)
  have hlength : (respLen (response (some (List.replicate 4067 (65 : Byte))))).toNat = 4067 := by
    rw [response, Option.getD_some, respLen, List.length_replicate]
    rfl
  have hanswer := haccess (4096 + 30, _) (List.mem_cons_of_mem _ (List.mem_cons_of_mem _
    List.mem_cons_self))
  rw [hlength] at hanswer
  exact absurd hanswer (by decide)

end QnxTutorial.ShmemQnx.Exchange
