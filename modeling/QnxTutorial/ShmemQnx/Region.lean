import QnxTutorial.ShmemQnx.Server

/-!
# Accesses through `shmem_ptr`

A CHANGED message that passes the checks makes the server read the bytes that have changed and
write its answer into the second page (`mem_accesses`). Both should lie in the mapping at
`shmem_ptr` (`RegionSafe`). The bounds test compares with a size that GET messages store before they
are checked, and there is no test for the answer.

**Theorem (`regionSafe_throughout_iff`).** Exactly which GET messages make an access unsafe.

**Theorem (`region_unsafe`).** One page is too small for the default answer.
-/

namespace QnxTutorial.ShmemQnx

open AddressSpace Machine RecvBuf

variable {resp : List Byte}

/-! ## Accesses -/

/-- The address and the number of bytes that a call accesses. -/
def Call.access : Call → Option (ℕ × ℕ)
  | .write addr bytes | .memcpy addr bytes => some (addr, bytes.length)
  | .shmOpen | .ftruncate _ | .mmap _ | .shmCreateHandle _ | .close | .munmap .. | .msgReply _
  | .msgError _ | .connectDetach _ => none

/-- The message passes the checks. -/
def Accepted (s : State) (info : MsgInfo) (offset length : BitVec 32) : Prop :=
  info.scoid.1 = s.clientScoid ∧ InBounds s.shmemMemorySize offset length

instance (s : State) (info : MsgInfo) (offset length : BitVec 32) :
    Decidable (Accepted s info offset length) :=
  inferInstanceAs (Decidable (_ ∧ _))

theorem respLen_le (resp : List Byte) : (respLen resp).toNat ≤ resp.length := by
  rw [respLen, BitVec.toNat_ofNat]
  exact Nat.mod_le _ _

theorem access_sendReply (r : Reply) (env : Env) :
    (sendReply r env).filterMap Call.access = [] := by
  cases hreply : env.msgReply <;> simp [sendReply, hreply, Call.access]

theorem access_changedShmem (info : MsgInfo) (offset length : BitVec 32) (env : Env) (s : State) :
    (changedShmem resp info offset length env s).2.filterMap Call.access =
      if Accepted s info offset length then
        [(s.shmemPtr + offset.toNat, length.toNat),
          (s.shmemPtr + (4096 + 30), (respLen resp).toNat)]
      else [] := by
  have hlen := respLen_le resp
  unfold changedShmem
  by_cases hscoid : info.scoid.1 = s.clientScoid
  · by_cases hbounds : InBounds s.shmemMemorySize offset length
    · rw [if_neg (not_not.2 hscoid), if_neg (not_not.2 hbounds), if_pos ⟨hscoid, hbounds⟩]
      simp [Call.access, access_sendReply, readBytes, Nat.min_eq_left hlen]
    · rw [if_neg (not_not.2 hscoid), if_pos hbounds, if_neg fun h => hbounds h.2]
      rfl
  · rw [if_pos hscoid, if_neg fun h => hscoid h.1]
    rfl

theorem access_getShmem (info : MsgInfo) (n : BitVec 32) (env : Env) (s : State) :
    (getShmem info n env s).2.filterMap Call.access = [] := by
  by_cases hn : n.toNat > 64 * 1024
  · rw [getShmem, if_pos hn]
    rfl
  · simp only [getShmem, if_neg hn, createSharedMemory]
    cases env.shmOpen with
    | error => rfl
    | ok =>
      cases env.ftruncate with
      | error => rfl
      | ok =>
        cases env.mmap with
        | error => rfl
        | ok =>
          cases env.shmCreateHandle with
          | error => rfl
          | ok handle => exact access_sendReply (.getResp handle) env

theorem access_releaseShmem (info : MsgInfo) (env : Env) (s : State) :
    (releaseShmem info env s).2.filterMap Call.access = [] := by
  unfold releaseShmem
  split_ifs
  · rfl
  · exact access_sendReply .empty env

theorem access_disconnect (scoid : ℤ) (s : State) :
    (disconnect scoid s).2.filterMap Call.access = [] := by
  unfold disconnect
  split_ifs <;> rfl

/-- What the server accesses when it handles `e`. -/
def accesses (resp : List Byte) (e : Event) (s : State) : List (ℕ × ℕ) :=
  (handle resp e s).2.filterMap Call.access

/-- Only a CHANGED message that passes the checks makes it access anything. -/
theorem mem_accesses {s : State} {a : ℕ × ℕ} : (∃ e, a ∈ accesses resp e s) ↔
    ∃ info offset length, Accepted s info offset length ∧
      (a = (s.shmemPtr + offset.toNat, length.toNat) ∨
        a = (s.shmemPtr + (4096 + 30), (respLen resp).toNat)) := by
  constructor
  · rintro ⟨e, ha⟩
    cases e with
    | message info req env =>
      cases req with
      | get n => simp [accesses, handle, access_getShmem] at ha
      | changed offset length =>
        rw [accesses, handle, access_changedShmem] at ha
        split_ifs at ha with haccepted
        · exact ⟨info, offset, length, haccepted, by simpa using ha⟩
        · cases ha
      | release => simp [accesses, handle, access_releaseShmem] at ha
      | unknown => cases ha
    | disconnect scoid => simp [accesses, handle, access_disconnect] at ha
    | otherPulse => cases ha
  · rintro ⟨info, offset, length, haccepted, ha⟩
    refine ⟨.message info (.changed offset length) (.allWell 0), ?_⟩
    rw [accesses, handle, access_changedShmem, if_pos haccepted]
    simpa using ha

/-- Whatever the server has to handle, it accesses only the mapping at `shmem_ptr`. -/
def RegionSafe (resp : List Byte) (s : State) : Prop :=
  ∀ e, ∀ a ∈ accesses resp e s, ∃ m ∈ s.mappings, m.start = s.shmemPtr ∧ m.Contains a.1 a.2

/-- The answer fits into a mapping of that length. -/
def AnswerFits (resp : List Byte) (len : ℕ) : Prop :=
  (respLen resp).toNat = 0 ∨ 4096 + 30 + (respLen resp).toNat ≤ len

/-! ## What safety needs -/

theorem inBounds_whole (size : BitVec 32) : InBounds size 0 size := by
  simp [InBounds]

/-- The bounds test is enough when the size is small, since the sum does not wrap. -/
theorem InBounds.le {size offset nbytes : BitVec 32} (h : InBounds size offset nbytes)
    (hsize : size.toNat ≤ 64 * 1024) : offset.toNat + nbytes.toNat ≤ size.toNat := by
  simp only [InBounds, gt_iff_lt, BitVec.lt_def, BitVec.toNat_add] at h
  omega

/-- A state is safe if nobody may send a CHANGED message, or if the mapping at `shmem_ptr` is large
enough for the size and for the answer. -/
theorem regionSafe_iff {s : State} (hw : WellFormed s) : RegionSafe resp s ↔
    (s.clientScoid ≠ 0 → ∃ m ∈ s.mappings, m.start = s.shmemPtr ∧
      s.shmemMemorySize.toNat ≤ m.len ∧ AnswerFits resp m.len) := by
  constructor
  · intro hsafe hclient
    have haccepted : Accepted s ⟨⟨s.clientScoid, hclient⟩, 0⟩ 0 s.shmemMemorySize :=
      ⟨rfl, inBounds_whole _⟩
    obtain ⟨e, hread⟩ := mem_accesses.2 ⟨_, _, _, haccepted, .inl rfl⟩
    obtain ⟨m, hm, hstart, hread⟩ := hsafe e _ hread
    obtain ⟨e', hanswer⟩ := mem_accesses.2 ⟨_, _, _, haccepted, .inr rfl⟩
    obtain ⟨m', hm', hstart', hanswer⟩ := hsafe e' _ hanswer
    obtain rfl := hw.separate.eq_of_start hm hm' (hstart.trans hstart'.symm)
    rw [Mapping.contains_iff (by omega)] at hread hanswer
    refine ⟨m, hm, hstart, ?_, ?_⟩
    · simp only [BitVec.ofNat_eq_ofNat, BitVec.toNat_ofNat, Nat.zero_mod] at hread
      omega
    · unfold AnswerFits
      omega
  · intro hsafe e a ha
    obtain ⟨info, offset, length, ⟨hscoid, hbounds⟩, ha⟩ := mem_accesses.1 ⟨e, ha⟩
    obtain ⟨m, hm, hstart, hsize, hanswer⟩ := hsafe (hscoid ▸ info.scoid.2)
    have hle := hbounds.le (Nat.le_trans hsize (hw.bound m hm))
    refine ⟨m, hm, hstart, ?_⟩
    rcases ha with rfl | rfl
    · rw [Mapping.contains_iff (by simp only; omega)]
      simp only
      omega
    · rw [Mapping.contains_iff (by simp only; omega)]
      unfold AnswerFits at hanswer
      simp only
      omega

/-! ## One event -/

/-- What a GET has to meet. While there is a client, only one that creates no object may fail, and
it may ask for no more than is mapped. One that succeeds must make room for the answer. -/
def KeepsSafe (resp : List Byte) (s : State) (e : Event) : Prop :=
  e.OnGet fun n env =>
    if n.toNat > 64 * 1024 then s.clientScoid = 0
    else match env.creation with
      | .noObject => s.clientScoid = 0 ∨ ∃ m ∈ s.mappings, m.start = s.shmemPtr ∧ n.toNat ≤ m.len
      | .noMapping | .noHandle _ => s.clientScoid = 0
      | .created _ => AnswerFits resp n.toNat

theorem regionSafe_iff_free {s : State} (hw : WellFormed s)
    (h : ∀ m ∈ s.mappings, m.start = s.shmemPtr → m.len < s.shmemMemorySize.toNat) :
    RegionSafe resp s ↔ s.clientScoid = 0 := by
  rw [regionSafe_iff hw]
  constructor
  · intro hsafe
    by_contra hclient
    obtain ⟨m, hm, hstart, hsize, -⟩ := hsafe hclient
    exact absurd (h m hm hstart) (Nat.not_lt.2 hsize)
  · exact fun hfree hclient => absurd hfree hclient

theorem GetAct.regionSafe_iff {s s' : State} {info : MsgInfo} {n : BitVec 32} {env : Env}
    (h : GetAct s info n env s') (hw : WellFormed s) (hs : RegionSafe resp s) :
    RegionSafe resp s' ↔ KeepsSafe resp s (.message info (.get n) env) := by
  have hw' : WellFormed s' := (Act.get h).wellFormed hw
  cases h with
  | refused hn =>
    rw [KeepsSafe, Event.OnGet, if_pos hn]
    exact regionSafe_iff_free hw' fun m hm _ => Nat.lt_of_le_of_lt (hw.bound m hm) hn
  | noObject hn hc =>
    rw [KeepsSafe, Event.OnGet, if_neg (Nat.not_lt.2 hn), hc, ShmemQnx.regionSafe_iff hw']
    constructor
    · intro hsafe
      by_cases hclient : s.clientScoid = 0
      · exact .inl hclient
      · obtain ⟨m, hm, hstart, hsize, -⟩ := hsafe hclient
        exact .inr ⟨m, hm, hstart, hsize⟩
    · intro hkeeps hclient
      obtain ⟨m, hm, hstart, hsize⟩ := hkeeps.resolve_left hclient
      obtain ⟨m₀, hm₀, hstart₀, -, hanswer⟩ := (ShmemQnx.regionSafe_iff hw).1 hs hclient
      obtain rfl := hw.separate.eq_of_start hm hm₀ (hstart.trans hstart₀.symm)
      exact ⟨m, hm, hstart, hsize, hanswer⟩
  | noMapping hn hc =>
    rw [KeepsSafe, Event.OnGet, if_neg (Nat.not_lt.2 hn), hc]
    apply regionSafe_iff_free hw'
    intro m hm hstart
    have hptr : m.start = mapFailed := hstart
    exact absurd (hptr ▸ hw.aligned m hm) mapFailed_not_aligned
  | noHandle hn hc hf =>
    rw [KeepsSafe, Event.OnGet, if_neg (Nat.not_lt.2 hn), hc]
    apply regionSafe_iff_free hw'
    intro m hm hstart
    exact absurd hstart (hf.ne_start hm (hw.separate.pos m hm))
  | created hn hc hf =>
    rw [KeepsSafe, Event.OnGet, if_neg (Nat.not_lt.2 hn), hc, ShmemQnx.regionSafe_iff hw']
    constructor
    · intro hsafe
      obtain ⟨m, hm, hstart, -, hanswer⟩ := hsafe info.scoid.2
      rw [hw'.separate.eq_of_start hm List.mem_cons_self hstart] at hanswer
      exact hanswer
    · exact fun hanswer _ => ⟨_, List.mem_cons_self, rfl, Nat.le_refl _, hanswer⟩

theorem Act.regionSafe_iff {s s' : State} {e : Event} (ha : Act s e s') (hw : WellFormed s)
    (hs : RegionSafe resp s) : RegionSafe resp s' ↔ KeepsSafe resp s e := by
  have hw' : WellFormed s' := ha.wellFormed hw
  cases ha with
  | get hget => exact hget.regionSafe_iff hw hs
  | frees hfrees =>
    refine iff_of_true ?_ (Event.onGet_of_not_get hfrees.isGet)
    exact (ShmemQnx.regionSafe_iff hw').2 fun hclient => absurd (munmap_clientScoid ..) hclient
  | keeps hget => exact iff_of_true hs (Event.onGet_of_not_get hget)

/-! ## Runs -/

theorem regionSafe_init {s : State} (hs : (server resp).init s) : RegionSafe resp s := by
  intro e a ha
  obtain ⟨info, -, -, ⟨hscoid, -⟩, -⟩ := mem_accesses.1 ⟨e, ha⟩
  exact absurd (hscoid.trans hs.1) info.scoid.2

/-- **Every access is safe** exactly if every GET meets its condition. -/
theorem regionSafe_throughout_iff (argv1 : Option (List Byte)) (h : List (State × Event))
    (s : State) (hrun : (server (response argv1)).Run h s) :
    Throughout (RegionSafe (response argv1)) h s ↔
      ∀ p ∈ h, KeepsSafe (response argv1) p.1 p.2 :=
  hrun.forall_iff (fun _ hs => ⟨wellFormed_init hs, regionSafe_init hs⟩)
    (fun _ _ ha hw => wellFormed_next ha hw)
    fun _ _ ha hw hs => (handle_act _ hw.separate.pos ha).regionSafe_iff hw hs

/-- Two pages are enough for the default answer. -/
theorem regionSafe_first : ∃ (h : List (State × Event)) (s : State),
    (server (response none)).Run h s ∧
    events h = [.message firstClient (.get 8192) (.allWell 0x10000)] ∧ s.clientScoid = 1 ∧
    Throughout (RegionSafe (response none)) h s := by
  have hrun := run_first (response none) (n := 8192) (by decide) (by decide)
  refine ⟨_, _, hrun, rfl, rfl, (regionSafe_throughout_iff none _ _ hrun).2 ?_⟩
  exact List.forall_mem_singleton.2 (Or.inr (by decide))

/-- **One page is not enough** for the default answer. -/
theorem region_unsafe : ¬ ∀ (argv1 : Option (List Byte)) (h : List (State × Event)) (s : State),
    (server (response argv1)).Run h s → RegionSafe (response argv1) s := by
  intro hall
  have hsafe := hall none _ _ (run_first _ (n := 4096) (by decide) (by decide))
  obtain ⟨m, hm, -, hanswer⟩ :=
    hsafe (.message firstClient (.changed 0 0) (.allWell 0)) (0x10000 + 4126, 18) (by decide)
  rw [List.mem_singleton.1 hm] at hanswer
  exact absurd (hanswer (0x10000 + 4126) (by decide) (by decide)).2 (by decide)

end QnxTutorial.ShmemQnx
