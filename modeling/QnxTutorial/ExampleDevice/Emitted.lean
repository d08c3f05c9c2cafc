import QnxTutorial.ExampleDevice.Handlers

/-!
# What a write tells its client

A write has three counts: the bytes that the client wants to write, those that are fetched from it,
and those that are emitted. The client is told the second one.

**Theorem (`reports_iff`).** That is right exactly if everything that was fetched is emitted, or a
call fails. One success looks like a failure, and an `xtype` is refused although no call fails.
-/

namespace QnxTutorial.ExampleDevice

open RecvBuf

/-- What `resmgr_msgget` and `write` promise about their counts. -/
structure Promises (msg : IoWrite) (env : Env) : Prop where
  nbytes : ∀ nb, env.msgget = .ok nb → nb ≤ msg.nbytes.toNat
  data : ∀ nb, env.msgget = .ok nb → nb ≤ msg.data.length
  write : ∀ nb n, env.msgget = .ok nb → env.write = .ok n → n ≤ nb

/-- The call fails, if it is made. -/
def Env.Fails (env : Env) : Call → Prop
  | .verify => env.verify.isOk = false
  | .malloc _ => env.malloc = false
  | .msgget _ => env.msgget.isOk = false
  | .write _ => env.write.isOk = false
  | .free | .msgReply .. => False

def Call.isHeap : Call → Bool
  | .malloc _ | .free => true
  | .verify | .msgget _ | .write _ | .msgReply .. => false

/-- A client that is told `n` had its first `n` bytes emitted, and an error comes from a call that
failed. The buffer is freed once, if there is one. -/
structure Reports (msg : IoWrite) (env : Env) (out : Outcome) : Prop where
  told : ∀ rcvid n bytes, .msgReply rcvid n bytes ∈ out.calls →
    n ≤ msg.data.length ∧ out.stdout = msg.data.take n
  error : ∀ e, out.ret = .value e → ∃ c ∈ out.calls, env.Fails c
  heap : out.calls.filter Call.isHeap = [] ∨ out.calls.filter Call.isHeap =
    if env.malloc then [.malloc msg.nbytes, .free] else [.malloc msg.nbytes]

/-- If every call succeeds, all that is fetched is emitted, and the count fits an `int`. -/
def EmitsAll (env : Env) : Prop :=
  ∀ nb n, env.malloc = true → env.msgget = .ok nb → env.write = .ok n → n = nb ∧ n ≠ 2 ^ 32 - 1

variable {H : Headers} {msg : IoWrite} {env : Env} {flags : BitVec 32}

theorem Promises.looksFailed_iff (h : Promises msg env) {nb n : ℕ} (hnb : env.msgget = .ok nb)
    (hn : env.write = .ok n) : LooksFailed n ↔ n = 2 ^ 32 - 1 := by
  have hlt := msg.nbytes.isLt
  have hnbytes := h.nbytes nb hnb
  have hwrite := h.write nb n hnb hn
  unfold LooksFailed
  omega

theorem not_fails {nb n : ℕ} (hverify : env.verify = .ok ()) (hmalloc : env.malloc = true)
    (hmsgget : env.msgget = .ok nb) (hwrite : env.write = .ok n) (c : Call) : ¬ env.Fails c := by
  cases c <;> simp [Env.Fails, hverify, hmalloc, hmsgget, hwrite, Except.isOk, Except.toBool]

theorem emitsAll_of_fails {c : Call} (hfails : env.Fails c) (hc : c ≠ .verify) : EmitsAll env := by
  intro nb n hmalloc hmsgget hwrite
  cases c with
  | verify => exact absurd rfl hc
  | malloc => cases hfails.symm.trans hmalloc
  | msgget =>
    rw [Env.Fails, hmsgget] at hfails
    cases hfails
  | write =>
    rw [Env.Fails, hwrite] at hfails
    cases hfails
  | free | msgReply => exact hfails.elim

theorem heap_ioWrite (H : Headers) (msg : IoWrite) (env : Env) (flags : BitVec 32) :
    (ioWrite H msg env flags).calls.filter Call.isHeap = [] ∨
      (ioWrite H msg env flags).calls.filter Call.isHeap =
        if env.malloc then [.malloc msg.nbytes, .free] else [.malloc msg.nbytes] := by
  have hact := write_act H msg env flags
  generalize ioWrite H msg env flags = out at hact
  cases hact with
  | rejected | nothing => exact .inl rfl
  | noMemory _ _ hmalloc => exact .inr (by rw [hmalloc]; rfl)
  | notFetched _ _ hmalloc => exact .inr (by rw [hmalloc]; rfl)
  | notWritten _ _ hmalloc => exact .inr (by rw [hmalloc]; rfl)
  | misread _ _ hmalloc => exact .inr (by rw [hmalloc]; rfl)
  | written _ _ hmalloc => exact .inr (by rw [hmalloc]; rfl)

theorem Reports.of_fails {out : Outcome} {c : Call} (hc : c ∈ out.calls) (hfails : env.Fails c)
    (hreply : ∀ rcvid n bytes, .msgReply rcvid n bytes ∉ out.calls)
    (hheap : out.calls.filter Call.isHeap = [] ∨ out.calls.filter Call.isHeap =
      if env.malloc then [.malloc msg.nbytes, .free] else [.malloc msg.nbytes]) :
    Reports msg env out where
  told rcvid n bytes h := absurd h (hreply rcvid n bytes)
  error _ _ := ⟨c, hc, hfails⟩
  heap := hheap

/-- A write that succeeds emits the bytes that it tells, or fewer. -/
theorem take_eq_take_iff {nb n : ℕ} (h : Promises msg env) (hmsgget : env.msgget = .ok nb)
    (hwrite : env.write = .ok n) :
    (msg.data.take nb).take n = msg.data.take nb ↔ n = nb := by
  have hdata := h.data nb hmsgget
  have hle := h.write nb n hmsgget hwrite
  rw [List.take_take, Nat.min_eq_left hle]
  constructor
  · intro heq
    have hlen := congrArg List.length heq
    rw [List.length_take, List.length_take] at hlen
    omega
  · intro heq
    rw [heq]

theorem emitsAll_iff {nb n : ℕ} (hmalloc : env.malloc = true) (hmsgget : env.msgget = .ok nb)
    (hwrite : env.write = .ok n) : EmitsAll env ↔ n = nb ∧ n ≠ 2 ^ 32 - 1 := by
  constructor
  · exact fun h => h nb n hmalloc hmsgget hwrite
  · intro h nb' n' _ hmsgget' hwrite'
    cases hmsgget.symm.trans hmsgget'
    cases hwrite.symm.trans hwrite'
    exact h

/-- The client of a write that succeeds is told `nb`. -/
theorem reports_written_iff {nb n : ℕ} (h : Promises msg env) (hmalloc : env.malloc = true)
    (hmsgget : env.msgget = .ok nb) (hwrite : env.write = .ok n) :
    Reports msg env ⟨msg.fetch ++ [.write (msg.data.take nb), .free, .msgReply msg.rcvid nb []],
      .noReply, flags, (msg.data.take nb).take n⟩ ↔ n = nb := by
  have hemitted := take_eq_take_iff h hmsgget hwrite
  constructor
  · intro hreports
    exact hemitted.1 (hreports.told msg.rcvid nb [] (by simp [IoWrite.fetch])).2
  · intro hall
    refine ⟨fun rcvid n' bytes hc => ?_, nofun, .inr (by rw [hmalloc]; rfl)⟩
    simp only [IoWrite.fetch, List.cons_append, List.nil_append, List.mem_cons, List.not_mem_nil,
      or_false, reduceCtorEq, false_or, Call.msgReply.injEq] at hc
    obtain ⟨-, rfl, -⟩ := hc
    exact ⟨h.data _ hmsgget, hemitted.2 hall⟩

/-- **What a write tells its client.** -/
theorem reports_iff (H : Headers) (msg : IoWrite) (env : Env) (flags : BitVec 32)
    (hpromises : Promises msg env) :
    Reports msg env (ioWrite H msg env flags) ↔ env.verify.isOk = false ∨
      msg.xtype &&& H.ioXtypeMask = H.ioXtypeNone ∧ (msg.nbytes = 0 ∨ EmitsAll env) := by
  have hheap := heap_ioWrite H msg env flags
  have hact := write_act H msg env flags
  generalize ioWrite H msg env flags = out at hheap hact
  cases hact with
  | rejected hrejects =>
    cases hrejects with
    | notVerified hverify =>
      have hfails : env.Fails .verify := by rw [Env.Fails, hverify]; rfl
      exact iff_of_true (.of_fails List.mem_cons_self hfails (by simp) hheap) (.inl hfails)
    | special hverify hxtype =>
      have hok : ¬ env.verify.isOk = false := by rw [hverify]; nofun
      apply iff_of_false
      · intro h
        obtain ⟨c, hc, hfails⟩ := h.error _ rfl
        cases List.mem_singleton.1 hc
        exact hok hfails
      · rintro (h | ⟨h, -⟩)
        · exact hok h
        · exact hxtype h
  | nothing hpasses hnbytes =>
    refine iff_of_true ⟨fun rcvid n bytes hc => ?_, nofun, hheap⟩
      (.inr ⟨hpasses.xtype, .inl hnbytes⟩)
    simp only [List.mem_cons, List.not_mem_nil, or_false, reduceCtorEq, false_or,
      Call.msgReply.injEq] at hc
    obtain ⟨-, rfl, -⟩ := hc
    exact ⟨Nat.zero_le _, rfl⟩
  | noMemory hpasses _ hmalloc =>
    have hfails : env.Fails (.malloc msg.nbytes) := hmalloc
    exact iff_of_true (.of_fails (by simp) hfails (by simp) hheap)
      (.inr ⟨hpasses.xtype, .inr (emitsAll_of_fails hfails nofun)⟩)
  | notFetched hpasses _ _ hmsgget =>
    have hfails : env.Fails (.msgget msg.nbytes) := by rw [Env.Fails, hmsgget]; rfl
    exact iff_of_true (.of_fails (by simp [IoWrite.fetch]) hfails (by simp [IoWrite.fetch]) hheap)
      (.inr ⟨hpasses.xtype, .inr (emitsAll_of_fails hfails nofun)⟩)
  | @notWritten nb e hpasses _ _ _ hwrite =>
    have hfails : env.Fails (.write (msg.data.take nb)) := by rw [Env.Fails, hwrite]; rfl
    exact iff_of_true (.of_fails (by simp [IoWrite.fetch]) hfails (by simp [IoWrite.fetch]) hheap)
      (.inr ⟨hpasses.xtype, .inr (emitsAll_of_fails hfails nofun)⟩)
  | @misread nb n hpasses hnbytes hmalloc hmsgget hwrite hfailed =>
    have hnot := not_fails hpasses.verify hmalloc hmsgget hwrite
    have hcount := (hpromises.looksFailed_iff hmsgget hwrite).1 hfailed
    -- All calls succeed, and yet the answer is an error.
    apply iff_of_false
    · intro h
      obtain ⟨c, -, hfails⟩ := h.error _ rfl
      exact hnot c hfails
    · rintro (h | ⟨-, h | h⟩)
      · exact hnot .verify h
      · exact hnbytes h
      · exact ((emitsAll_iff hmalloc hmsgget hwrite).1 h).2 hcount
  | @written nb n hpasses hnbytes hmalloc hmsgget hwrite hfailed =>
    have hnot := not_fails hpasses.verify hmalloc hmsgget hwrite
    rw [hpromises.looksFailed_iff hmsgget hwrite] at hfailed
    rw [reports_written_iff hpromises hmalloc hmsgget hwrite, emitsAll_iff hmalloc hmsgget hwrite]
    constructor
    · exact fun hall => .inr ⟨hpasses.xtype, .inr ⟨hall, hfailed⟩⟩
    · rintro (h | ⟨-, h | h⟩)
      · exact absurd h (hnot .verify)
      · exact absurd h hnbytes
      · exact h.1

/-- Five bytes to write. -/
def writeHello : IoWrite := ⟨⟨1, 5, 0⟩, [0x68, 0x65, 0x6c, 0x6c, 0x6f]⟩

/-- `write` emits `n` of them. -/
def Env.emits (n : ℕ) : Env := ⟨.ok (), true, .ok 5, .ok n, 0⟩

theorem promises_hello {n : ℕ} (hn : n ≤ 5) : Promises writeHello (.emits n) where
  nbytes := by
    rintro nb ⟨⟩
    decide
  data := by
    rintro nb ⟨⟩
    decide
  write := by
    rintro nb n ⟨⟩ ⟨⟩
    exact hn

theorem reports_iff_hello :
    Reports writeHello (.emits 5) (ioWrite .x86_64 writeHello (.emits 5) 0) := by
  refine (reports_iff .x86_64 writeHello (.emits 5) 0 (promises_hello (Nat.le_refl 5))).2
    (.inr ⟨rfl, .inr ?_⟩)
  rintro nb n - ⟨⟩ ⟨⟩
  exact ⟨rfl, by decide⟩

/-- **The client is told more than was emitted**, if `write` emits less than it is given. -/
theorem reports_too_much : ¬ ∀ (H : Headers) (msg : IoWrite) (env : Env) (flags : BitVec 32),
    Promises msg env → Reports msg env (ioWrite H msg env flags) := by
  intro hall
  have hreports := hall .x86_64 writeHello (.emits 3) 0 (promises_hello (by decide))
  exact absurd (hreports.told 1 5 [] (by decide)).2 (by decide)

end QnxTutorial.ExampleDevice
