import QnxTutorial.ShmemQnx.Server

/-!
# Which mappings the server keeps

The server should keep one mapping while it has a client and none otherwise (`Owns`), and should
only unmap what is mapped (`UnmapsLive`). A GET breaks this if it comes while there is a client:
the old mapping is not unmapped, or pointer and size do not describe it any more.

**Theorem (`owns_throughout_iff`).** This is the only way in which the server loses track.

**Theorem (`owns_lost`).** Two GET messages leave two mappings.
-/

namespace QnxTutorial.ShmemQnx

open AddressSpace Machine RecvBuf

/-! ## Ownership -/

/-- The mappings are what the server has variables for. -/
structure Owns (s : State) : Prop where
  free : s.clientScoid = 0 → s.mappings = []
  held : s.clientScoid ≠ 0 → s.mappings = [⟨s.shmemPtr, s.shmemMemorySize.toNat⟩]

/-- Every `munmap` names a mapping that is there, with its length. -/
def UnmapsLive (resp : List Byte) (p : State × Event) : Prop :=
  ∀ addr len live, .munmap addr len live ∈ (handle resp p.2 p.1).2 →
    ⟨addr, len.toNat⟩ ∈ live

/-- A GET while there is a client creates no object, and asks for the size that is there. -/
def Orderly (s : State) (e : Event) : Prop :=
  e.OnGet fun n env => s.clientScoid ≠ 0 → env.creation = .noObject ∧ n = s.shmemMemorySize

/-! ## One event -/

theorem Event.Frees.ne_zero {client : ℤ} {e : Event} (h : e.Frees client) : client ≠ 0 := by
  cases e with
  | message info req env =>
    cases req with
    | release => exact (show info.scoid.1 = client from h) ▸ info.scoid.2
    | get | changed | unknown => cases h
  | disconnect scoid => exact (show scoid.1 = client from h) ▸ scoid.2
  | otherPulse => cases h

/-- With a client, the only mapping is at the pointer and has the size. -/
theorem Owns.of_single {client : ℤ} {ptr start len : ℕ} {size : BitVec 32}
    (h : Owns ⟨client, ptr, size, [⟨start, len⟩]⟩) (hclient : client ≠ 0) :
    start = ptr ∧ len = size.toNat := by
  simpa using h.held hclient

theorem munmap_only {client : ℤ} {ptr : ℕ} {size : BitVec 32} (hptr : ptr % pageSize = 0)
    (hsize : size ≠ 0) :
    munmap ptr size ⟨client, ptr, size, [⟨ptr, size.toNat⟩]⟩ = ⟨client, ptr, size, []⟩ :=
  munmap_fresh nofun ⟨hsize, hptr, List.forall_mem_nil _⟩

theorem Owns.munmap {s : State} (h : Owns s) (hw : WellFormed s) (hclient : s.clientScoid ≠ 0) :
    Owns (munmap s.shmemPtr s.shmemMemorySize { s with clientScoid := 0 }) := by
  obtain ⟨client, ptr, size, ms⟩ := s
  obtain rfl : ms = [⟨ptr, size.toNat⟩] := h.held hclient
  have hpos : 0 < size.toNat := hw.separate.pos _ (List.mem_singleton_self _)
  have hptr : ptr % pageSize = 0 := hw.aligned _ (List.mem_singleton_self _)
  simp only
  rw [munmap_only hptr (by rintro rfl; cases hpos)]
  exact ⟨fun _ => rfl, fun h0 => absurd rfl h0⟩

theorem GetAct.owns_iff {s s' : State} {info : MsgInfo} {n : BitVec 32} {env : Env}
    (h : GetAct s info n env s') (hw : WellFormed s) (hs : Owns s) :
    Owns s' ↔ Orderly s (.message info (.get n) env) := by
  obtain ⟨client, ptr, size, ms⟩ := s
  by_cases hclient : client = 0
  · -- Nothing is mapped.
    obtain rfl : ms = [] := hs.free hclient
    refine iff_of_true ?_ fun hne => absurd hclient hne
    cases h with
    | refused | noObject | noMapping | noHandle =>
      exact ⟨fun _ => rfl, fun hne => absurd hclient hne⟩
    | created => exact ⟨fun h0 => absurd h0 info.scoid.2, fun _ => rfl⟩
  · obtain rfl : ms = [⟨ptr, size.toNat⟩] := hs.held hclient
    have hpos : 0 < size.toNat := hw.separate.pos _ (List.mem_singleton_self _)
    have hbound : size.toNat ≤ 64 * 1024 := hw.bound _ (List.mem_singleton_self _)
    have hptr : ptr % pageSize = 0 := hw.aligned _ (List.mem_singleton_self _)
    cases h with
    | refused hn =>
      refine iff_of_false (fun ho => ?_) fun ho => ?_
      · obtain ⟨-, hlen⟩ := ho.of_single hclient
        omega
      · obtain rfl : n = size := (ho hclient).2
        omega
    | noObject hn hc =>
      constructor
      · intro ho _
        exact ⟨hc, BitVec.eq_of_toNat_eq (ho.of_single hclient).2.symm⟩
      · intro ho
        obtain rfl : n = size := (ho hclient).2
        exact hs
    | noMapping hn hc =>
      refine iff_of_false (fun ho => ?_) fun ho => ?_
      · exact mapFailed_not_aligned ((ho.of_single hclient).1 ▸ hptr)
      · exact nomatch hc.symm.trans (ho hclient).1
    | noHandle hn hc hf =>
      refine iff_of_false (fun ho => ?_) fun ho => ?_
      · exact hf.ne_start (List.mem_singleton_self _) hpos (ho.of_single hclient).1
      · exact nomatch hc.symm.trans (ho hclient).1
    | created hn hc hf =>
      refine iff_of_false (fun ho => ?_) fun ho => ?_
      · simpa using ho.held info.scoid.2
      · exact nomatch hc.symm.trans (ho hclient).1

theorem Act.owns_iff {s s' : State} {e : Event} (ha : Act s e s') (hw : WellFormed s)
    (hs : Owns s) : Owns s' ↔ Orderly s e := by
  cases ha with
  | get hget => exact hget.owns_iff hw hs
  | frees hfrees =>
    exact iff_of_true (hs.munmap hw hfrees.ne_zero) (Event.onGet_of_not_get hfrees.isGet)
  | keeps hget => exact iff_of_true hs (Event.onGet_of_not_get hget)

/-! ## Unmapping -/

theorem not_munmap_mem_sendReply {r : Reply} {env : Env} {addr : ℕ} {len : BitVec 32}
    {live : List Mapping} : .munmap addr len live ∉ sendReply r env := by
  cases hreply : env.msgReply <;> simp [sendReply, hreply]

/-- A GET only unmaps what it has just mapped. -/
theorem getShmem_unmaps {info : MsgInfo} {n : BitVec 32} {env : Env} {s : State} {addr : ℕ}
    {len : BitVec 32} {live : List Mapping}
    (h : .munmap addr len live ∈ (getShmem info n env s).2) : ⟨addr, len.toNat⟩ ∈ live := by
  obtain ⟨shmOpen, ftruncate, mmap, shmCreateHandle, msgReply, memory⟩ := env
  unfold getShmem createSharedMemory at h
  split_ifs at h with hn
  · simp at h
  · cases shmOpen <;> cases ftruncate <;> cases mmap <;> cases shmCreateHandle <;>
      simp [not_munmap_mem_sendReply] at h
    obtain ⟨rfl, rfl, rfl⟩ := h
    exact List.mem_cons_self

/-- While the server owns its mapping, it only unmaps that. -/
theorem Owns.unmapsLive {resp : List Byte} {s : State} (hs : Owns s) (e : Event) :
    UnmapsLive resp (s, e) := by
  intro addr len live hmem
  cases e with
  | message info req env =>
    cases req with
    | get n => exact getShmem_unmaps hmem
    | changed offset length =>
      simp only [handle, changedShmem] at hmem
      split_ifs at hmem <;> simp [not_munmap_mem_sendReply] at hmem
    | release =>
      simp only [handle, releaseShmem] at hmem
      split_ifs at hmem with hscoid
      · simp at hmem
      · simp only [List.mem_cons, not_munmap_mem_sendReply, or_false, Call.munmap.injEq] at hmem
        obtain ⟨rfl, rfl, rfl⟩ := hmem
        rw [hs.held (not_ne_iff.1 hscoid ▸ info.scoid.2)]
        exact List.mem_singleton_self _
    | unknown => simp [handle] at hmem
  | disconnect scoid =>
    simp only [handle, disconnect] at hmem
    split_ifs at hmem with hscoid
    · simp only [List.mem_cons, Call.munmap.injEq, reduceCtorEq, List.not_mem_nil, or_false]
        at hmem
      obtain ⟨rfl, rfl, rfl⟩ := hmem
      rw [hs.held (hscoid ▸ scoid.2)]
      exact List.mem_singleton_self _
    · simp at hmem
  | otherPulse => simp [handle] at hmem

/-! ## Runs -/

variable {resp : List Byte}

theorem owns_init {s : State} (hs : (server resp).init s) : Owns s :=
  ⟨fun _ => hs.2, fun hne => absurd hs.1 hne⟩

/-- **The server loses track of its mappings** exactly if a GET is not orderly. -/
theorem owns_throughout_iff (h : List (State × Event)) (s : State)
    (hrun : (server resp).Run h s) :
    (Throughout Owns h s ∧ ∀ p ∈ h, UnmapsLive resp p) ↔ ∀ p ∈ h, Orderly p.1 p.2 := by
  have hiff : Throughout Owns h s ↔ ∀ p ∈ h, Orderly p.1 p.2 :=
    hrun.forall_iff (fun _ hs => ⟨wellFormed_init hs, owns_init hs⟩)
      (fun _ _ ha hw => wellFormed_next ha hw)
      fun _ _ ha hw hs => (handle_act resp hw.separate.pos ha).owns_iff hw hs
  rw [← hiff]
  exact and_iff_left_of_imp fun howns p hp => (howns.1 p hp).unmapsLive p.2

theorem owns_throughout_first : ∃ h s, (server (response none)).Run h s ∧
    events h = [.message firstClient (.get 8192) (.allWell 0x10000),
      .message firstClient .release (.allWell 0)] ∧
    Throughout Owns h s ∧ ∀ p ∈ h, UnmapsLive (response none) p := by
  have hrun := (run_first (response none) (n := 8192) (by decide) (by decide)).step
    (e := .message firstClient .release (.allWell 0)) (Event.onGet_of_not_get rfl)
  refine ⟨_, _, hrun, rfl, (owns_throughout_iff _ _ hrun).2 ?_⟩
  exact List.forall_mem_cons.2 ⟨fun hne => absurd rfl hne, List.forall_mem_singleton.2 trivial⟩

/-- **Two GET messages leave two mappings**, of which the server knows one. -/
theorem owns_lost : ¬ ∀ h s, (server (response none)).Run h s →
    Throughout Owns h s ∧ ∀ p ∈ h, UnmapsLive (response none) p := by
  intro hall
  have ha : (server (response none)).allowed ⟨1, 0x10000, 8192, [⟨0x10000, 8192⟩]⟩
      (.message secondClient (.get 8192) (.allWell 0x20000)) :=
    allowed_allWell secondClient ⟨by decide, by decide, by decide⟩
  have hrun := (run_first (response none) (n := 8192) (by decide) (by decide)).step ha
  have howns := (hall _ _ hrun).1.2
  exact absurd (howns.held (by decide)) (by decide)

end QnxTutorial.ShmemQnx
