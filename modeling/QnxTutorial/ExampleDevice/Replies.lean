import QnxTutorial.ExampleDevice.Emitted

/-!
# Answers and time stamps

The device serves any sequence of requests. A handler replies and returns `_RESMGR_NOREPLY`, or
does not reply and returns an error, and only a reply of at least one byte marks a time. One flag
word records it all.

**Theorem (`discipline_iff`).** All requests are served so, and the flags say what happened, unless
a successful write looks like a failed one while `errno` is `EOK`.
-/

namespace QnxTutorial.ExampleDevice

open Machine RecvBuf

/-! ## Sequences of requests -/

/-- A request, and how the calls that it takes end. -/
inductive Request where
  | read (msg : IoRead) (verify : Except Errno Unit)
  | write (msg : IoWrite) (env : Env)

def Request.rcvid : Request → ℤ
  | .read msg _ => msg.rcvid
  | .write msg _ => msg.rcvid

def Request.isRead : Request → Bool
  | .read .. => true
  | .write .. => false

def handle (H : Headers) (flags : BitVec 32) : Request → Outcome
  | .read msg verify => ioRead H msg verify flags
  | .write msg env => ioWrite H msg env flags

/-- The flags of the attributes, while the device serves requests. -/
def device (H : Headers) : Machine (BitVec 32) Request where
  init _ := True
  allowed _ _ := True
  next flags req := (handle H flags req).flags

/-! ## What is promised -/

/-- The receive id, the status and the bytes of a reply. -/
def Call.reply? : Call → Option (ℤ × ℕ × List Byte)
  | .msgReply rcvid status bytes => some (rcvid, status, bytes)
  | .verify | .malloc _ | .msgget _ | .write _ | .free => none

def Outcome.replies (out : Outcome) : List (ℤ × ℕ × List Byte) := out.calls.filterMap Call.reply?

/-- The client is given, or rid of, at least one byte. -/
def Outcome.transfers (out : Outcome) : Bool := out.replies.any fun reply => 0 < reply.2.1

/-- The times that a request marks. -/
def Request.marks (H : Headers) : Request → BitVec 32
  | .read .. => H.iofuncAttrAtime
  | .write .. => H.iofuncAttrMtime ||| H.iofuncAttrCtime

/-- Exactly one answer, and a time is marked if something was transferred. -/
structure Served (H : Headers) (flags : BitVec 32) (req : Request) (out : Outcome) : Prop where
  answer : (∃ n bytes, out.replies = [(req.rcvid, n, bytes)] ∧ out.ret = .noReply) ∨
    (out.replies = [] ∧ ∃ e, e ≠ 0 ∧ out.ret = .value e)
  read : ∀ msg verify, req = .read msg verify → ∀ reply ∈ out.replies,
    reply.2.1 ≤ msg.nbytes.toNat ∧ reply.2.2 <+: deviceData ∧ reply.2.2.length = reply.2.1
  flags : out.flags = if out.transfers then flags ||| req.marks H else flags

/-- A successful write is taken for a failed one, and `errno` has no error. The handler makes no
reply and returns `EOK`, and so leaves the answer to the library. -/
def Request.ReturnsEok (H : Headers) : Request → Prop
  | .read .. => False
  | .write msg env => Passes H msg.toIoRead env.verify ∧ msg.nbytes ≠ 0 ∧ env.malloc = true ∧
      (∃ nb, env.msgget = .ok nb) ∧ (∃ n, env.write = .ok n ∧ LooksFailed n) ∧ env.errno = 0

/-- The device has transferred something for a read, or for a write. -/
def transferred (H : Headers) (flags : BitVec 32) (reqs : List Request) (isRead : Bool) : Bool :=
  ((device H).trace flags reqs).any fun p =>
    p.2.isRead == isRead && (handle H p.1 p.2).transfers

/-- All requests are served, and the flags say what happened. -/
structure Discipline (H : Headers) (flags : BitVec 32) (reqs : List Request) : Prop where
  served : ∀ p ∈ (device H).trace flags reqs, Served H p.1 p.2 (handle H p.1 p.2)
  flags : reqs.foldl (device H).next flags = flags |||
    (if transferred H flags reqs true then H.iofuncAttrAtime else 0) |||
    (if transferred H flags reqs false then H.iofuncAttrMtime ||| H.iofuncAttrCtime else 0)

variable {H : Headers} {flags : BitVec 32}

/-! ## One request -/

theorem Rejects.not_passes {msg : IoRead} {verify : Except Errno Unit} {e : Errno}
    (h : Rejects H msg verify e) : ¬ Passes H msg verify := by
  intro hpasses
  cases h with
  | notVerified hverify => cases hverify.symm.trans hpasses.verify
  | special _ hxtype => exact hxtype hpasses.xtype

/-- A handler that returns an error leaves it to the library to answer with it. -/
theorem Served.of_error {req : Request} {out : Outcome} {e : ℤ} (hreplies : out.replies = [])
    (he : e ≠ 0) (hret : out.ret = .value e) (hflags : out.flags = flags) :
    Served H flags req out where
  answer := .inr ⟨hreplies, e, he, hret⟩
  read := by simp [hreplies]
  flags := by simp [Outcome.transfers, hreplies, hflags]

theorem served_read (msg : IoRead) (verify : Except Errno Unit) :
    Served H flags (.read msg verify) (ioRead H msg verify flags) := by
  have hact := read_act H msg verify flags
  generalize ioRead H msg verify flags = out at hact
  cases hact with
  | @rejected e => exact .of_error rfl e.2 rfl rfl
  | @replied nb hpasses hnb =>
    refine ⟨.inl ⟨nb, _, rfl, rfl⟩, ?_, by simp [Outcome.transfers, Outcome.replies, Call.reply?,
      Request.marks]⟩
    rintro msg' verify' ⟨⟩ reply hreply
    obtain rfl := List.mem_singleton.1 hreply
    refine ⟨hnb ▸ Nat.min_le_right _ _, List.take_prefix _ _, ?_⟩
    show (deviceData.take nb).length = nb
    rw [List.length_take, hnb, Nat.min_eq_left (Nat.min_le_left _ _)]

theorem Served.of_write {msg : IoWrite} {env : Env} {out : Outcome} {n : ℕ}
    (hreplies : out.replies = [(msg.rcvid, n, [])]) (hret : out.ret = .noReply)
    (hflags : out.flags = if 0 < n then
      flags ||| (H.iofuncAttrMtime ||| H.iofuncAttrCtime) else flags) :
    Served H flags (.write msg env) out where
  answer := .inl ⟨n, [], hreplies, hret⟩
  read := nofun
  flags := by simp [Outcome.transfers, hreplies, hflags, Request.marks]

theorem served_write_iff (msg : IoWrite) (env : Env) :
    Served H flags (.write msg env) (ioWrite H msg env flags) ↔
      ¬ (Request.write msg env).ReturnsEok H := by
  have hact := write_act H msg env flags
  generalize ioWrite H msg env flags = out at hact
  cases hact with
  | @rejected e hrejects =>
    exact iff_of_true (.of_error rfl e.2 rfl rfl) fun h => hrejects.not_passes h.1
  | nothing _ hnbytes => exact iff_of_true (.of_write rfl rfl rfl) fun h => h.2.1 hnbytes
  | noMemory _ _ hmalloc =>
    apply iff_of_true (.of_error rfl H.enomem.2 rfl rfl)
    rintro ⟨-, -, htrue, -⟩
    cases hmalloc.symm.trans htrue
  | @notFetched e _ _ _ hmsgget =>
    apply iff_of_true (.of_error rfl e.2 rfl rfl)
    rintro ⟨-, -, -, ⟨nb, hok⟩, -⟩
    cases hmsgget.symm.trans hok
  | @notWritten nb e _ _ _ _ hwrite =>
    apply iff_of_true (.of_error rfl e.2 rfl rfl)
    rintro ⟨-, -, -, -, ⟨n, hok, -⟩, -⟩
    cases hwrite.symm.trans hok
  | misread hpasses hnbytes hmalloc hmsgget hwrite hfailed =>
    -- `EOK` is not an error.
    constructor
    · rintro hserved ⟨-, -, -, -, -, herrno⟩
      obtain ⟨n, bytes, hreplies, -⟩ | ⟨-, e, he, hret⟩ := hserved.answer
      · cases hreplies
      · cases hret
        exact he herrno
    · intro h
      exact .of_error rfl
        (fun he => h ⟨hpasses, hnbytes, hmalloc, ⟨_, hmsgget⟩, ⟨_, hwrite, hfailed⟩, he⟩) rfl rfl
  | @written nb n _ _ _ _ hwrite hfailed =>
    apply iff_of_true (.of_write rfl rfl rfl)
    rintro ⟨-, -, -, -, ⟨n', hok, hfailed'⟩, -⟩
    cases hwrite.symm.trans hok
    exact hfailed hfailed'

theorem served_iff (req : Request) :
    Served H flags req (handle H flags req) ↔ ¬ req.ReturnsEok H := by
  cases req with
  | read msg verify => exact iff_of_true (served_read msg verify) id
  | write msg env => exact served_write_iff msg env

/-- No request marks a time for nothing, not even one for which `EOK` is returned. -/
theorem next_device (req : Request) : (device H).next flags req =
    if (handle H flags req).transfers then flags ||| req.marks H else flags := by
  cases req with
  | read msg verify => exact (served_read msg verify).flags
  | write msg env =>
    have hact := write_act H msg env flags
    show (ioWrite H msg env flags).flags = if (ioWrite H msg env flags).transfers then
      flags ||| (Request.write msg env).marks H else flags
    generalize ioWrite H msg env flags = out at hact
    cases hact <;>
      simp [Outcome.transfers, Outcome.replies, Call.reply?, IoWrite.fetch, Request.marks]

/-! ## All requests -/

theorem mark_or (now later : Bool) (flags mark : BitVec 32) :
    (if now then flags ||| mark else flags) ||| (if later then mark else 0) =
      flags ||| if now || later then mark else 0 := by
  cases now <;> cases later <;> simp [BitVec.or_assoc]

theorem or_swap (a b c : BitVec 32) : a ||| b ||| c = a ||| c ||| b := by
  rw [BitVec.or_assoc, BitVec.or_comm b c, ← BitVec.or_assoc]

theorem transferred_cons (req : Request) (reqs : List Request) (isRead : Bool) :
    transferred H flags (req :: reqs) isRead =
      ((req.isRead == isRead && (handle H flags req).transfers) ||
        transferred H ((device H).next flags req) reqs isRead) := rfl

theorem flags_foldl (reqs : List Request) : reqs.foldl (device H).next flags = flags |||
    (if transferred H flags reqs true then H.iofuncAttrAtime else 0) |||
    (if transferred H flags reqs false then H.iofuncAttrMtime ||| H.iofuncAttrCtime else 0) := by
  induction reqs generalizing flags with
  | nil => simp [transferred, Machine.trace]
  | cons req reqs ih =>
    rw [List.foldl_cons, ih, transferred_cons, transferred_cons]
    generalize transferred H _ reqs true = read
    generalize transferred H _ reqs false = modified
    rw [next_device]
    cases req with
    | read =>
      rw [Request.marks, mark_or]
      rfl
    | write =>
      rw [Request.marks, or_swap, mark_or, or_swap]
      rfl

/-- **The discipline of replies and time stamps.** -/
theorem discipline_iff (H : Headers) (flags : BitVec 32) (reqs : List Request) :
    Discipline H flags reqs ↔ ∀ req ∈ reqs, ¬ req.ReturnsEok H := by
  have hserved : (∀ p ∈ (device H).trace flags reqs, Served H p.1 p.2 (handle H p.1 p.2)) ↔
      ∀ req ∈ events ((device H).trace flags reqs), ¬ req.ReturnsEok H := by
    simp only [served_iff, events, List.forall_mem_map]
  rw [events_trace] at hserved
  exact ⟨fun h => hserved.1 h.served, fun h => ⟨hserved.2 h, flags_foldl reqs⟩⟩

/-- The client has as many bytes as a `uint32_t` can count, and `write` emits them all. -/
def writeMax : Request :=
  .write ⟨⟨1, -1, 0⟩, .replicate (2 ^ 32 - 1) 0⟩
    ⟨.ok (), true, .ok (2 ^ 32 - 1), .ok (2 ^ 32 - 1), 0⟩

/-- `resmgr_msgget` and `write` keep to their counts. -/
def Request.Possible : Request → Prop
  | .read .. => True
  | .write msg env => Promises msg env

theorem possible_writeMax : writeMax.Possible where
  nbytes := by
    rintro nb ⟨⟩
    decide
  data := by
    rintro nb ⟨⟩
    exact Nat.le_of_eq List.length_replicate.symm
  write := by
    rintro nb n ⟨⟩ ⟨⟩
    exact Nat.le_refl _

/-- **No reply and no error**: all is written, and the handler returns `EOK`. -/
theorem returns_eok : ¬ ∀ (H : Headers) (flags : BitVec 32) (reqs : List Request),
    (∀ req ∈ reqs, req.Possible) → Discipline H flags reqs := by
  intro hall
  have hdiscipline := hall .x86_64 0 [writeMax] (List.forall_mem_singleton.2 possible_writeMax)
  have hserved := hdiscipline.served (0, writeMax) List.mem_cons_self
  refine (served_iff writeMax).1 hserved ⟨⟨rfl, rfl⟩, by decide, rfl, ⟨_, rfl⟩, ⟨_, rfl, ?_⟩, rfl⟩
  show (2 ^ 32 - 1) % 2 ^ 32 = 2 ^ 32 - 1
  decide

end QnxTutorial.ExampleDevice
