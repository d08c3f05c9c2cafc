import QnxTutorial.ShmemQnx.Server

/-!
# What a refused GET leaves behind

The size of a GET is stored before anything is checked, and `create_shared_memory` stores what
`mmap` returns before it asks for the handle. Neither is undone. Most of the time nobody notices:
without a holder, pointer and size are not used before the next GET that succeeds.

**Theorem (`refused_get`).** Exactly which refused GETs leave the server as it was, and which of
them can make a difference later. A run can do without those that leave it as it was.
-/

namespace QnxTutorial.ShmemQnx

open Machine RecvBuf

def Call.isMsgError : Call → Bool
  | .msgError _ => true
  | .shmOpen | .ftruncate _ | .mmap _ | .shmCreateHandle _ | .close | .munmap .. | .write ..
  | .memcpy .. | .msgReply _ | .connectDetach _ => false

variable (resp : List Byte)

/-- A GET that is answered with an error. -/
def refusesGet (s : State) (e : Event) : Bool :=
  e.isGet && (handle resp e s).2.any Call.isMsgError

/-- The size is that of the region, and `mmap` gives what the pointer already is. -/
def KeepsState (s : State) (n : BitVec 32) (env : Env) : Prop :=
  n = s.shmemMemorySize ∧ (64 * 1024 < n.toNat ∨ match env.creation with
    | .noObject => True
    | .noMapping => s.shmemPtr = mapFailed
    | .noHandle addr => s.shmemPtr = addr
    | .created _ => False)

/-- `create_shared_memory` is called and does not fail. -/
def Creates (n : BitVec 32) (env : Env) : Prop :=
  n.toNat ≤ 64 * 1024 ∧ ∃ addr, env.creation = .created addr

/-- Whatever comes next, the server makes the same calls. -/
def SameFuture (s s' : State) : Prop :=
  ∀ l : List Event, (server resp).outputs (fun s e => (handle resp e s).2) s l =
    (server resp).outputs (fun s e => (handle resp e s).2) s' l

/-! ## States that do the same -/

/-- Pointer and size only matter while there is a client. -/
structure Alike (s s' : State) : Prop where
  client : s.clientScoid = s'.clientScoid
  mappings : s.mappings = s'.mappings
  region : s.clientScoid ≠ 0 →
    s.shmemPtr = s'.shmemPtr ∧ s.shmemMemorySize = s'.shmemMemorySize

variable {resp} {s s' : State}

theorem Alike.eq (h : Alike s s') (hclient : s.clientScoid ≠ 0) : s = s' := by
  obtain ⟨hptr, hsize⟩ := h.region hclient
  cases s with
  | mk client ptr size mappings => cases s' with
    | mk client' ptr' size' mappings' =>
      obtain ⟨rfl, rfl, -⟩ := h
      cases hptr
      cases hsize
      rfl

theorem Alike.rfl {s : State} : Alike s s := ⟨Eq.refl _, Eq.refl _, fun _ => ⟨Eq.refl _, Eq.refl _⟩⟩

/-- A GET overwrites the size. If it gets past `mmap`, it overwrites the pointer. -/
theorem Alike.getShmem (h : Alike s s') (hclient : s.clientScoid = 0) (info : MsgInfo)
    (n : BitVec 32) (env : Env) : Alike (getShmem info n env s).1 (getShmem info n env s').1 ∧
      (getShmem info n env s).2 = (getShmem info n env s').2 := by
  obtain ⟨client, ptr, size, ms⟩ := s
  obtain ⟨client', ptr', size', ms'⟩ := s'
  obtain ⟨rfl, rfl, -⟩ := h
  obtain ⟨shmOpen, ftruncate, mmap, shmCreateHandle, msgReply, memory⟩ := env
  have hfree : ∀ ptr ptr' n, Alike ⟨client, ptr, n, ms⟩ ⟨client, ptr', n, ms⟩ :=
    fun _ _ _ => ⟨Eq.refl _, Eq.refl _, fun hne => absurd hclient hne⟩
  unfold ShmemQnx.getShmem
  split_ifs
  · exact ⟨hfree _ _ _, Eq.refl _⟩
  · cases shmOpen with
    | error => exact ⟨hfree _ _ _, Eq.refl _⟩
    | ok =>
      cases ftruncate with
      | error => exact ⟨hfree _ _ _, Eq.refl _⟩
      | ok => cases mmap <;> cases shmCreateHandle <;> exact ⟨.rfl, Eq.refl _⟩

theorem ne_clientScoid (hclient : s.clientScoid = 0) (scoid : Scoid) :
    scoid.1 ≠ s.clientScoid := by
  rw [hclient]
  exact scoid.2

theorem Alike.handle (h : Alike s s') (e : Event) :
    Alike (handle resp e s).1 (handle resp e s').1 ∧
      (handle resp e s).2 = (handle resp e s').2 := by
  by_cases hclient : s.clientScoid = 0
  · have hclient' : s'.clientScoid = 0 := h.client.symm.trans hclient
    cases e with
    | message info req env =>
      have hne := ne_clientScoid hclient info.scoid
      have hne' := ne_clientScoid hclient' info.scoid
      cases req with
      | get n => exact h.getShmem hclient info n env
      | changed => simp only [ShmemQnx.handle, changedShmem, if_pos hne, if_pos hne', h, and_self]
      | release => simp only [ShmemQnx.handle, releaseShmem, if_pos hne, if_pos hne', h, and_self]
      | unknown => exact ⟨h, Eq.refl _⟩
    | disconnect scoid =>
      have hne := ne_clientScoid hclient scoid
      have hne' := ne_clientScoid hclient' scoid
      simp only [ShmemQnx.handle, disconnect, if_neg hne, if_neg hne', h, and_self]
    | otherPulse => exact ⟨h, Eq.refl _⟩
  · rw [h.eq hclient]
    exact ⟨.rfl, Eq.refl _⟩

theorem Alike.sameFuture (h : Alike s s') : SameFuture resp s s' :=
  outputs_eq (fun _ _ e hR => (hR.handle e).2) (fun _ _ e hR => (hR.handle e).1) h

/-- The client's RELEASE shows pointer, size and mappings. -/
theorem SameFuture.release (h : SameFuture resp s s') (info : MsgInfo) :
    (releaseShmem info (.allWell 0) s).2 = (releaseShmem info (.allWell 0) s').2 :=
  (List.cons.inj (h [.message info .release (.allWell 0)])).1

/-- States with the same client and the same mappings have the same future exactly if they are
alike. -/
theorem SameFuture.alike (h : SameFuture resp s s') (hclient : s.clientScoid = s'.clientScoid)
    (hmappings : s.mappings = s'.mappings) : Alike s s' := by
  refine ⟨hclient, hmappings, fun hne => ?_⟩
  have hcalls := h.release ⟨⟨s.clientScoid, hne⟩, 0⟩
  simp only [releaseShmem, ← hclient, ne_eq, not_true_eq_false, if_false, List.cons.injEq,
    Call.munmap.injEq] at hcalls
  exact ⟨hcalls.1.1, hcalls.1.2.1⟩

/-- Granting a region to a client makes a difference to that client. -/
theorem not_sameFuture_granted {info : MsgInfo} {addr : ℕ} {n : BitVec 32}
    {m : AddressSpace.Mapping} : ¬ SameFuture resp s ⟨info.scoid, addr, n, m :: s.mappings⟩ := by
  intro h
  have hcalls := h.release info
  by_cases hscoid : info.scoid.1 = s.clientScoid
  · simp only [releaseShmem, ne_eq, hscoid, not_true_eq_false, if_false, List.cons.injEq,
      Call.munmap.injEq] at hcalls
    exact List.cons_ne_self m s.mappings hcalls.1.2.2.symm
  · simp only [releaseShmem, ne_eq, hscoid, not_true_eq_false, not_false_eq_true, if_true,
      if_false, List.cons.injEq, reduceCtorEq, false_and] at hcalls

/-! ## The theorem -/

theorem overwrite_iff (s : State) (ptr : ℕ) (n : BitVec 32) :
    ((⟨s.clientScoid, ptr, n, s.mappings⟩ : State) = s ↔ n = s.shmemMemorySize ∧ s.shmemPtr = ptr) ∧
      (SameFuture resp s ⟨s.clientScoid, ptr, n, s.mappings⟩ ↔
        (n = s.shmemMemorySize ∧ s.shmemPtr = ptr) ∨ s.clientScoid = 0) := by
  constructor
  · constructor
    · intro heq
      rw [← heq]
      exact ⟨rfl, rfl⟩
    · rintro ⟨rfl, rfl⟩
      rfl
  · constructor
    · intro hsame
      by_cases hclient : s.clientScoid = 0
      · exact .inr hclient
      · obtain ⟨hptr, hsize⟩ := (hsame.alike rfl rfl).region hclient
        exact .inl ⟨hsize.symm, hptr⟩
    · intro h
      refine Alike.sameFuture ⟨rfl, rfl, fun hclient => ?_⟩
      rcases h with ⟨hsize, hptr⟩ | hzero
      · exact ⟨hptr, hsize.symm⟩
      · exact absurd hzero hclient

theorem keepsState_iff (resp : List Byte) (hpos : ∀ m ∈ s.mappings, 0 < m.len) {info : MsgInfo}
    {n : BitVec 32} {env : Env} (ha : Allowed s (.message info (.get n) env)) :
    ((getShmem info n env s).1 = s ↔ KeepsState s n env) ∧
      (SameFuture resp s (getShmem info n env s).1 ↔
        KeepsState s n env ∨ s.clientScoid = 0 ∧ ¬ Creates n env) := by
  have hget := get_act hpos ha
  generalize (getShmem info n env s).1 = s' at hget
  -- Four of the five ways overwrite pointer and size, and nothing else.
  have hoverwrite : ∀ ptr, (KeepsState s n env ↔ n = s.shmemMemorySize ∧ s.shmemPtr = ptr) →
      ¬ Creates n env → s' = ⟨s.clientScoid, ptr, n, s.mappings⟩ →
      (s' = s ↔ KeepsState s n env) ∧
        (SameFuture resp s s' ↔ KeepsState s n env ∨ s.clientScoid = 0 ∧ ¬ Creates n env) := by
    rintro ptr hkeeps hcreates rfl
    rw [hkeeps, and_iff_left hcreates]
    exact overwrite_iff s ptr n
  cases hget with
  | refused hn =>
    refine hoverwrite s.shmemPtr ?_ (fun hcreates => absurd hcreates.1 (Nat.not_le.2 hn)) rfl
    exact and_congr_right fun _ => iff_of_true (.inl hn) rfl
  | noObject hn hc =>
    refine hoverwrite s.shmemPtr ?_ (by simp [Creates, hc]) rfl
    simp [KeepsState, hc]
  | noMapping hn hc =>
    refine hoverwrite mapFailed ?_ (by simp [Creates, hc]) rfl
    simp [KeepsState, hc, Nat.not_lt.2 hn]
  | @noHandle addr hn hc =>
    refine hoverwrite addr ?_ (by simp [Creates, hc]) rfl
    simp [KeepsState, hc, Nat.not_lt.2 hn]
  | @created addr hn hc =>
    have hkeeps : ¬ KeepsState s n env := by simp [KeepsState, hc, Nat.not_lt.2 hn]
    have hcreates : Creates n env := ⟨hn, addr, hc⟩
    refine ⟨iff_of_false (fun heq => ?_) hkeeps, iff_of_false not_sameFuture_granted ?_⟩
    · exact List.cons_ne_self _ _ (congrArg State.mappings heq)
    · exact not_or.2 ⟨hkeeps, fun h => h.2 hcreates⟩

theorem next_eq_of_keepsState {h : List (State × Event)} (hrun : (server resp).Run h s)
    (hkeeps : ∀ x ∈ h, refusesGet resp x.1 x.2 = true → x.2.OnGet (KeepsState x.1)) :
    ∀ x ∈ h, refusesGet resp x.1 x.2 = true → (server resp).next x.1 x.2 = x.1 := by
  have hevents := hrun.forall_mem (P := fun x => x.2.isGet = true → x.2.OnGet (KeepsState x.1) →
      (server resp).next x.1 x.2 = x.1) fun h s e hrun ha hget hkeep => by
    cases e with
    | message info req env =>
      cases req with
      | get n => exact (keepsState_iff resp (wellFormed_of_run hrun).separate.pos ha).1.2 hkeep
      | changed | release | unknown => cases hget
    | disconnect | otherPulse => cases hget
  intro x hx hrefused
  exact hevents x hx (Bool.and_eq_true_iff.1 hrefused).1 (hkeeps x hx hrefused)

/-- **What a refused GET leaves behind.** -/
theorem refused_get (resp : List Byte) (h : List (State × Event)) (s : State)
    (hrun : (server resp).Run h s) :
    (∀ (info : MsgInfo) (n : BitVec 32) (env : Env), Allowed s (.message info (.get n) env) →
      refusesGet resp s (.message info (.get n) env) = true →
      ((getShmem info n env s).1 = s ↔ KeepsState s n env) ∧
      (SameFuture resp s (getShmem info n env s).1 ↔
        KeepsState s n env ∨ s.clientScoid = 0 ∧ ¬ Creates n env)) ∧
    ((∀ x ∈ h, refusesGet resp x.1 x.2 = true → x.2.OnGet (KeepsState x.1)) →
      (server resp).Run (h.filter fun x => !refusesGet resp x.1 x.2) s) := by
  refine ⟨fun info n env ha _ => keepsState_iff resp (wellFormed_of_run hrun).separate.pos ha, ?_⟩
  intro hkeeps
  refine hrun.filter fun x hx hrefused => next_eq_of_keepsState hrun hkeeps x hx ?_
  rwa [Bool.not_eq_false'] at hrefused

/-- `shm_open` fails. -/
def Env.noObject : Env := { Env.allWell 0 with shmOpen := .error 28 }

/-- The first client holds 8192 bytes, and there is no object for the second one, which asks for as
many. -/
theorem refused_get_noObject :
    SameFuture [] ⟨1, 0x10000, 8192, [⟨0x10000, 8192⟩]⟩
      (getShmem secondClient 8192 .noObject ⟨1, 0x10000, 8192, [⟨0x10000, 8192⟩]⟩).1 :=
  (((refused_get [] _ _ (run_first [] (n := 8192) (by decide) (by decide))).1 secondClient 8192
    .noObject (fun _ _ hc => by cases hc <;> contradiction) rfl).2).2 (.inl ⟨rfl, .inr trivial⟩)

/-- **A refused GET changes the size** of a region that somebody else holds. -/
theorem refused_get_resizes : ¬ ∀ (resp : List Byte) (h : List (State × Event)) (s : State),
    (server resp).Run h s → ∀ (info : MsgInfo) (n : BitVec 32) (env : Env),
    Allowed s (.message info (.get n) env) →
    refusesGet resp s (.message info (.get n) env) = true →
    (getShmem info n env s).1 = s ∧ SameFuture resp s (getShmem info n env s).1 := by
  intro hall
  have ha : Allowed ⟨1, 0x10000, 8192, [⟨0x10000, 8192⟩]⟩
      (.message secondClient (.get 0x20000) (.allWell 0)) :=
    fun hn => absurd hn (by decide)
  have hsame := (hall [] _ _ (run_first [] (n := 8192) (by decide) (by decide)) secondClient _ _ ha
    rfl).1
  exact absurd (congrArg State.shmemMemorySize hsame) (by decide)

end QnxTutorial.ShmemQnx
