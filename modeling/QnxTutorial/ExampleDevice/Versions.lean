import QnxTutorial.ExampleDevice.Replies

/-!
# The versions of the device

The tutorial arrives at the handlers of `example.c` in steps. In `example_initialization.c` a read
is at its end at once; in `example_read.c` it gives some data; and in `example_write.c`, as in
`example.c`, a write does something with its data.

**Theorem (`versions_agree`).** Clients can tell the versions apart only by what was added: reads
that ask for something, and writes that are not taken in full. The first two mark the same times.
-/

namespace QnxTutorial.ExampleDevice

open Machine RecvBuf

inductive Version where
  | initialization
  | read
  | write
  deriving DecidableEq

variable (H : Headers)

/-- `io_read` of `example_initialization.c`. -/
def ioReadInitialization (msg : IoRead) (verify : Except Errno Unit) (flags : BitVec 32) :
    Outcome :=
  match verify with
  | .error e => ⟨[.verify], .value e, flags, []⟩
  | .ok _ =>
    if msg.xtype &&& H.ioXtypeMask ≠ H.ioXtypeNone then ⟨[.verify], .value H.enosys, flags, []⟩
    else ⟨[.verify, .msgReply msg.rcvid 0 []], .noReply,
      if 0 < msg.nbytes.toNat then flags ||| H.iofuncAttrAtime else flags, []⟩

/-- `io_write` of `example_initialization.c` and `example_read.c`. -/
def ioWriteRead (msg : IoRead) (verify : Except Errno Unit) (flags : BitVec 32) : Outcome :=
  match verify with
  | .error e => ⟨[.verify], .value e, flags, []⟩
  | .ok _ =>
    if msg.xtype &&& H.ioXtypeMask ≠ H.ioXtypeNone then ⟨[.verify], .value H.enosys, flags, []⟩
    else ⟨[.verify, .msgReply msg.rcvid msg.nbytes.toNat []], .noReply,
      if 0 < msg.nbytes.toNat then flags ||| (H.iofuncAttrMtime ||| H.iofuncAttrCtime) else flags,
      []⟩

def Version.handle (v : Version) (flags : BitVec 32) : Request → Outcome
  | .read msg verify => match v with
    | .initialization => ioReadInitialization H msg verify flags
    | .read | .write => ioRead H msg verify flags
  | .write msg env => match v with
    | .initialization | .read => ioWriteRead H msg.toIoRead env.verify flags
    | .write => ioWrite H msg env flags

/-- The flags of the attributes, while the device serves requests. -/
def Version.device (v : Version) : Machine (BitVec 32) Request where
  init _ := True
  allowed _ _ := True
  next flags req := (v.handle H flags req).flags

/-- What a client gets. -/
def Outcome.answer (out : Outcome) : List (ℤ × ℕ × List Byte) × Ret := (out.replies, out.ret)

def Version.answers (v : Version) (flags : BitVec 32) (reqs : List Request) :
    List (List (ℤ × ℕ × List Byte) × Ret) :=
  (v.device H).outputs (fun flags req => (v.handle H flags req).answer) flags reqs

def Request.io : Request → IoRead
  | .read msg _ => msg
  | .write msg _ => msg.toIoRead

def Request.verify : Request → Except Errno Unit
  | .read _ verify => verify
  | .write _ env => env.verify

/-- A read that is accepted asks for no bytes. -/
def Request.AsksNothing : Request → Prop
  | .read msg verify => Passes H msg verify → msg.nbytes = 0
  | .write .. => True

/-- A write that is accepted is fetched in full, and emitted without an error. -/
def Request.Taken : Request → Prop
  | .read .. => True
  | .write msg env => Passes H msg.toIoRead env.verify → msg.nbytes ≠ 0 →
      env.malloc = true ∧ env.msgget = .ok msg.nbytes.toNat ∧
        ∃ n, env.write = .ok n ∧ ¬ LooksFailed n

variable {H : Headers} {flags flags' : BitVec 32}

/-! ## One request -/

theorem passes_or_rejects (msg : IoRead) (verify : Except Errno Unit) :
    Passes H msg verify ∨ ∃ e, Rejects H msg verify e := by
  cases hverify : verify with
  | error e => exact .inr ⟨e, .notVerified rfl⟩
  | ok =>
    by_cases hxtype : msg.xtype &&& H.ioXtypeMask = H.ioXtypeNone
    · exact .inl ⟨rfl, hxtype⟩
    · exact .inr ⟨_, .special rfl hxtype⟩

theorem handle_of_rejects (v : Version) {req : Request} {e : Errno}
    (h : Rejects H req.io req.verify e) (flags : BitVec 32) :
    v.handle H flags req = ⟨[.verify], .value e, flags, []⟩ := by
  cases req with
  | read msg verify =>
    change Rejects H msg verify e at h
    cases h with
    | notVerified hverify =>
      cases v <;> simp [Version.handle, ioReadInitialization, ioRead, hverify]
    | special hverify hxtype =>
      cases v <;> simp [Version.handle, ioReadInitialization, ioRead, hverify, hxtype]
  | write msg env =>
    change Rejects H msg.toIoRead env.verify e at h
    cases h with
    | notVerified hverify => cases v <;> simp [Version.handle, ioWriteRead, ioWrite, hverify]
    | special hverify hxtype =>
      cases v <;> simp [Version.handle, ioWriteRead, ioWrite, hverify, hxtype]

theorem ioReadInitialization_of_passes {msg : IoRead} {verify : Except Errno Unit}
    (h : Passes H msg verify) : ioReadInitialization H msg verify flags =
      ⟨[.verify, .msgReply msg.rcvid 0 []], .noReply,
        if 0 < msg.nbytes.toNat then flags ||| H.iofuncAttrAtime else flags, []⟩ := by
  simp [ioReadInitialization, h.verify, h.xtype]

theorem ioRead_of_passes {msg : IoRead} {verify : Except Errno Unit} (h : Passes H msg verify) :
    ioRead H msg verify flags =
      ⟨[.verify, .msgReply msg.rcvid (min deviceData.length msg.nbytes.toNat)
          (deviceData.take (min deviceData.length msg.nbytes.toNat))], .noReply,
        if 0 < min deviceData.length msg.nbytes.toNat then flags ||| H.iofuncAttrAtime else flags,
        []⟩ := by
  simp [ioRead, h.verify, h.xtype]

theorem ioWriteRead_of_passes {msg : IoRead} {verify : Except Errno Unit}
    (h : Passes H msg verify) : ioWriteRead H msg verify flags =
      ⟨[.verify, .msgReply msg.rcvid msg.nbytes.toNat []], .noReply,
        if 0 < msg.nbytes.toNat then flags ||| (H.iofuncAttrMtime ||| H.iofuncAttrCtime)
          else flags, []⟩ := by
  simp [ioWriteRead, h.verify, h.xtype]

theorem toNat_pos_iff (n : BitVec 32) : 0 < n.toNat ↔ n ≠ 0 := by
  rw [Nat.pos_iff_ne_zero, Ne, Ne, ← BitVec.toNat_inj]
  rfl

theorem min_deviceData_pos_iff (n : ℕ) : 0 < min deviceData.length n ↔ 0 < n := by
  have hlength : deviceData.length = 7 := rfl
  omega

/-- A request that is not accepted is answered in the same way by all versions. -/
theorem answer_of_rejects (v w : Version) {req : Request} {e : Errno}
    (h : Rejects H req.io req.verify e) (flags flags' : BitVec 32) :
    (v.handle H flags req).answer = (w.handle H flags' req).answer := by
  rw [handle_of_rejects v h, handle_of_rejects w h]
  rfl

theorem answer_replied (rcvid : ℤ) (n : ℕ) (bytes : List Byte) (flags : BitVec 32)
    (stdout : List Byte) :
    Outcome.answer ⟨[.verify, .msgReply rcvid n bytes], .noReply, flags, stdout⟩ =
      ([(rcvid, n, bytes)], .noReply) := rfl

/-- Reads are answered differently if they ask for something. -/
theorem answer_initialization_iff (flags flags' : BitVec 32) (req : Request) :
    (Version.initialization.handle H flags req).answer =
      (Version.read.handle H flags' req).answer ↔ req.AsksNothing H := by
  rcases passes_or_rejects (H := H) req.io req.verify with hpasses | ⟨e, hrejects⟩
  · cases req with
    | read msg verify =>
      change Passes H msg verify at hpasses
      have hpos := (min_deviceData_pos_iff msg.nbytes.toNat).trans (toNat_pos_iff msg.nbytes)
      show (ioReadInitialization H msg verify flags).answer =
        (ioRead H msg verify flags').answer ↔ (Passes H msg verify → msg.nbytes = 0)
      rw [ioReadInitialization_of_passes hpasses, ioRead_of_passes hpasses]
      generalize min deviceData.length msg.nbytes.toNat = nb at hpos
      rw [answer_replied, answer_replied, forall_prop_of_true hpasses]
      by_cases hnb : nb = 0
      · subst hnb
        exact iff_of_true rfl (not_not.1 fun hne => absurd (hpos.2 hne) (Nat.lt_irrefl 0))
      · refine iff_of_false ?_ (hpos.1 (Nat.pos_of_ne_zero hnb))
        intro heq
        simp only [Prod.mk.injEq, List.cons.injEq] at heq
        exact hnb heq.1.1.2.1.symm
    | write msg env =>
      change Passes H msg.toIoRead env.verify at hpasses
      refine iff_of_true ?_ trivial
      show (ioWriteRead H msg.toIoRead env.verify flags).answer =
        (ioWriteRead H msg.toIoRead env.verify flags').answer
      rw [ioWriteRead_of_passes hpasses, ioWriteRead_of_passes hpasses]
      rfl
  · refine iff_of_true (answer_of_rejects _ _ hrejects _ _) ?_
    cases req with
    | read => exact fun hpasses => (hrejects.not_passes hpasses).elim
    | write => trivial

/-- Writes are answered differently if they are not taken in full. -/
theorem answer_read_iff (flags flags' : BitVec 32) (req : Request) :
    (Version.read.handle H flags req).answer = (Version.write.handle H flags' req).answer ↔
      req.Taken H := by
  rcases passes_or_rejects (H := H) req.io req.verify with hpasses | ⟨e, hrejects⟩
  · cases req with
    | read msg verify =>
      change Passes H msg verify at hpasses
      refine iff_of_true ?_ trivial
      show (ioRead H msg verify flags).answer = (ioRead H msg verify flags').answer
      rw [ioRead_of_passes hpasses, ioRead_of_passes hpasses]
      rfl
    | write msg env =>
      change Passes H msg.toIoRead env.verify at hpasses
      show (ioWriteRead H msg.toIoRead env.verify flags).answer =
        (ioWrite H msg env flags').answer ↔ (Passes H msg.toIoRead env.verify → msg.nbytes ≠ 0 →
          env.malloc = true ∧ env.msgget = .ok msg.nbytes.toNat ∧
            ∃ n, env.write = .ok n ∧ ¬ LooksFailed n)
      rw [ioWriteRead_of_passes hpasses, answer_replied, forall_prop_of_true hpasses]
      have hact := write_act H msg env flags'
      generalize ioWrite H msg env flags' = out at hact
      cases hact with
      | rejected hrejects => exact (hrejects.not_passes hpasses).elim
      | nothing _ hnbytes =>
        refine iff_of_true ?_ fun hne => (hne hnbytes).elim
        rw [answer_replied, hnbytes]
        rfl
      | noMemory _ hnbytes hmalloc =>
        apply iff_of_false nofun
        intro htaken
        cases hmalloc.symm.trans (htaken hnbytes).1
      | notFetched _ hnbytes _ hmsgget =>
        apply iff_of_false nofun
        intro htaken
        cases hmsgget.symm.trans (htaken hnbytes).2.1
      | notWritten _ hnbytes _ _ hwrite =>
        apply iff_of_false nofun
        intro htaken
        obtain ⟨n, hn, -⟩ := (htaken hnbytes).2.2
        cases hwrite.symm.trans hn
      | misread _ hnbytes _ _ hwrite hfailed =>
        apply iff_of_false nofun
        intro htaken
        obtain ⟨n, hn, hnot⟩ := (htaken hnbytes).2.2
        cases hwrite.symm.trans hn
        exact hnot hfailed
      | @written nb n _ hnbytes hmalloc hmsgget hwrite hfailed =>
        have hanswer : ([(msg.rcvid, msg.nbytes.toNat, ([] : List Byte))], Ret.noReply) =
            ([(msg.rcvid, nb, [])], .noReply) ↔ msg.nbytes.toNat = nb := by simp
        refine hanswer.trans ?_
        rw [forall_prop_of_true hnbytes, hmsgget]
        constructor
        · rintro rfl
          exact ⟨hmalloc, rfl, n, hwrite, hfailed⟩
        · rintro ⟨-, hnb, -⟩
          cases hnb
          rfl
  · refine iff_of_true (answer_of_rejects _ _ hrejects _ _) ?_
    cases req with
    | read => trivial
    | write => exact fun hpasses => (hrejects.not_passes hpasses).elim

/-! ## The attributes -/

/-- The first version marks a read as if there were something to read. -/
theorem flags_initialization (flags : BitVec 32) (req : Request) :
    (Version.initialization.handle H flags req).flags =
      (Version.read.handle H flags req).flags := by
  rcases passes_or_rejects (H := H) req.io req.verify with hpasses | ⟨e, hrejects⟩
  · cases req with
    | read msg verify =>
      change Passes H msg verify at hpasses
      show (ioReadInitialization H msg verify flags).flags = (ioRead H msg verify flags).flags
      rw [ioReadInitialization_of_passes hpasses, ioRead_of_passes hpasses]
      simp only [min_deviceData_pos_iff]
    | write => rfl
  · rw [handle_of_rejects _ hrejects, handle_of_rejects _ hrejects]

theorem flags_read (flags : BitVec 32) {req : Request} (h : req.Taken H) :
    (Version.read.handle H flags req).flags = (Version.write.handle H flags req).flags := by
  rcases passes_or_rejects (H := H) req.io req.verify with hpasses | ⟨e, hrejects⟩
  · cases req with
    | read => rfl
    | write msg env =>
      change Passes H msg.toIoRead env.verify at hpasses
      show (ioWriteRead H msg.toIoRead env.verify flags).flags = (ioWrite H msg env flags).flags
      rw [ioWriteRead_of_passes hpasses]
      by_cases hnbytes : msg.nbytes = 0
      · simp [ioWrite, hpasses.verify, hpasses.xtype, hnbytes]
      · obtain ⟨hmalloc, hmsgget, n, hwrite, hfailed⟩ := h hpasses hnbytes
        have hstatus := mt looksFailed_iff.1 hfailed
        simp only [ioWrite, hpasses.verify, hpasses.xtype, ne_eq, not_true_eq_false, if_false,
          if_neg hnbytes, hmalloc, Bool.true_eq_false, hmsgget, hwrite, if_neg hstatus]
  · rw [handle_of_rejects _ hrejects, handle_of_rejects _ hrejects]

/-! ## All requests -/

/-- **The versions differ in what was added, and in nothing else.** -/
theorem versions_agree (H : Headers) (flags : BitVec 32) (reqs : List Request) :
    (Version.initialization.answers H flags reqs = Version.read.answers H flags reqs ↔
      ∀ req ∈ reqs, req.AsksNothing H) ∧
    (Version.read.answers H flags reqs = Version.write.answers H flags reqs ↔
      ∀ req ∈ reqs, req.Taken H) ∧
    reqs.foldl (Version.initialization.device H).next flags =
      reqs.foldl (Version.read.device H).next flags ∧
    ((∀ req ∈ reqs, req.Taken H) → reqs.foldl (Version.read.device H).next flags =
      reqs.foldl (Version.write.device H).next flags) := by
  refine ⟨outputs_eq_iff answer_initialization_iff .., outputs_eq_iff answer_read_iff .., ?_, ?_⟩
  · exact List.foldl_ext _ _ _ fun flags req _ => flags_initialization flags req
  · intro htaken
    exact List.foldl_ext _ _ _ fun flags req hreq => flags_read flags (htaken req hreq)

end QnxTutorial.ExampleDevice
