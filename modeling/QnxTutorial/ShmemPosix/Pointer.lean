import Mathlib.Data.Finset.Basic
import QnxTutorial.AddressSpace
import QnxTutorial.Retry

/-!
# `get_shared_memory_pointer` of `shmem_posix_user.c`

The function opens the object, maps it, closes the descriptor, and waits for `init_flag`. Each of
the three is tried again and again, with a second in between, until it works or has failed more
than `num_retries` times. All that other processes and the kernel decide is in `Results`.

**Theorem (`leaves_nothing_iff`).** The function cleans up unless `mmap` is what it gives up on.

**Theorem (`bounded_iff`).** The retries are bounded unless `num_retries` is the largest
`unsigned`.
-/

namespace QnxTutorial.ShmemPosix.Pointer

open AddressSpace Retry

/-! ## The function -/

/-- `sizeof(shmem_t)`, and that in whole pages. -/
structure Layout where
  sizeofShmem : ℕ
  pages : ℕ
  sizeof_le : sizeofShmem ≤ pages

/-- What each attempt gives: `shm_open` a descriptor, `mmap` an address, and a read through a
pointer a value of `init_flag`. -/
structure Results where
  shmOpen : ℕ → Option ℕ
  mmap : ℕ → Option ℕ
  initFlag : ℕ → ℕ → BitVec 32

/-- What the process has: open descriptors and mappings. -/
structure Process where
  fds : Finset ℕ
  mappings : List Mapping

/-- The pointer, or `none` for `MAP_FAILED`, and the attempts that the three loops made. -/
structure Outcome where
  ptr : Option ℕ
  opens : ℕ
  maps : ℕ
  reads : ℕ

variable (L : Layout)

def Process.shmOpen (fd : ℕ) (s : Process) : Process := { s with fds := insert fd s.fds }

def Process.close (fd : ℕ) (s : Process) : Process := { s with fds := s.fds.erase fd }

def Process.mmap (ptr : ℕ) (s : Process) : Process :=
  { s with mappings := ⟨ptr, L.sizeofShmem⟩ :: s.mappings }

def Process.munmap (ptr : ℕ) (s : Process) : Process :=
  { s with mappings := unmap ptr (ptr + L.pages) s.mappings }

/-- `if (ptr->init_flag) break;`. -/
def Results.ready (env : Results) (ptr k : ℕ) : Option Unit :=
  if env.initFlag ptr k ≠ 0 then some () else none

def getSharedMemoryPointer (numRetries : BitVec 32) (env : Results) (fuel : ℕ) (s : Process) :
    Option (Process × Outcome) :=
  (retry numRetries env.shmOpen fuel).bind fun opened =>
    match opened.value with
    | none => some (s, ⟨none, opened.attempts, 0, 0⟩)
    | some fd =>
      let s := s.shmOpen fd
      (retry numRetries env.mmap fuel).bind fun mapped =>
        match mapped.value with
        | none => some (s, ⟨none, opened.attempts, mapped.attempts, 0⟩)
        | some ptr =>
          let s := (s.mmap L ptr).close fd
          (retry numRetries (env.ready ptr) fuel).map fun ready =>
            match ready.value with
            | none =>
              (s.munmap L ptr, ⟨none, opened.attempts, mapped.attempts, ready.attempts⟩)
            | some _ => (s, ⟨some ptr, opened.attempts, mapped.attempts, ready.attempts⟩)

/-! ## How it ends -/

/-- What the kernel promises: a descriptor that is not open, and pages that nothing is mapped to.
No mapping is empty. -/
structure Promises (env : Results) (s : Process) : Prop where
  fd : ∀ k fd, env.shmOpen k = some fd → fd ∉ s.fds
  ptr : ∀ k ptr, env.mmap k = some ptr →
    ∀ m ∈ s.mappings, m.start + m.len ≤ ptr ∨ ptr + L.pages ≤ m.start
  pos : ∀ m ∈ s.mappings, 0 < m.len

/-- It gives up on one of the loops, or comes to the end. -/
inductive Returns (numRetries : BitVec 32) (env : Results) (s : Process) :
    Process → Outcome → Prop
  | noObject {opened : Result ℕ} : Ends numRetries env.shmOpen opened → opened.value = none →
      Returns numRetries env s s ⟨none, opened.attempts, 0, 0⟩
  | noMapping {opened mapped : Result ℕ} {fd : ℕ} : Ends numRetries env.shmOpen opened →
      opened.value = some fd → Ends numRetries env.mmap mapped → mapped.value = none →
      Returns numRetries env s (s.shmOpen fd) ⟨none, opened.attempts, mapped.attempts, 0⟩
  | notReady {opened mapped : Result ℕ} {ready : Result Unit} {fd ptr : ℕ} :
      Ends numRetries env.shmOpen opened → opened.value = some fd →
      Ends numRetries env.mmap mapped → mapped.value = some ptr →
      Ends numRetries (env.ready ptr) ready → ready.value = none →
      Returns numRetries env s ((((s.shmOpen fd).mmap L ptr).close fd).munmap L ptr)
        ⟨none, opened.attempts, mapped.attempts, ready.attempts⟩
  | ready {opened mapped : Result ℕ} {ready : Result Unit} {fd ptr : ℕ} :
      Ends numRetries env.shmOpen opened → opened.value = some fd →
      Ends numRetries env.mmap mapped → mapped.value = some ptr →
      Ends numRetries (env.ready ptr) ready → ready.value = some () →
      Returns numRetries env s (((s.shmOpen fd).mmap L ptr).close fd)
        ⟨some ptr, opened.attempts, mapped.attempts, ready.attempts⟩

variable {L} {numRetries : BitVec 32} {env : Results} {fuel : ℕ} {s s' : Process} {out : Outcome}

theorem returns_of_eq_some
    (h : getSharedMemoryPointer L numRetries env fuel s = some (s', out)) :
    Returns L numRetries env s s' out := by
  obtain ⟨opened, hopened, h⟩ := Option.bind_eq_some_iff.1 h
  cases hfd : opened.value with
  | none =>
    simp only [hfd, Option.some.injEq, Prod.mk.injEq] at h
    obtain ⟨rfl, rfl⟩ := h
    exact .noObject (ends_of_retry hopened) hfd
  | some fd =>
    simp only [hfd] at h
    obtain ⟨mapped, hmapped, h⟩ := Option.bind_eq_some_iff.1 h
    cases hptr : mapped.value with
    | none =>
      simp only [hptr, Option.some.injEq, Prod.mk.injEq] at h
      obtain ⟨rfl, rfl⟩ := h
      exact .noMapping (ends_of_retry hopened) hfd (ends_of_retry hmapped) hptr
    | some ptr =>
      simp only [hptr] at h
      obtain ⟨ready, hready, h⟩ := Option.map_eq_some_iff.1 h
      cases hflag : ready.value with
      | none =>
        simp only [hflag, Prod.mk.injEq] at h
        obtain ⟨rfl, rfl⟩ := h
        exact .notReady (ends_of_retry hopened) hfd (ends_of_retry hmapped) hptr
          (ends_of_retry hready) hflag
      | some =>
        simp only [hflag, Prod.mk.injEq] at h
        obtain ⟨rfl, rfl⟩ := h
        exact .ready (ends_of_retry hopened) hfd (ends_of_retry hmapped) hptr
          (ends_of_retry hready) hflag

theorem Returns.eq_some (h : Returns L numRetries env s s' out) (hopens : out.opens ≤ fuel)
    (hmaps : out.maps ≤ fuel) (hreads : out.reads ≤ fuel) :
    getSharedMemoryPointer L numRetries env fuel s = some (s', out) := by
  cases h with
  | noObject hopened hfd =>
    simp only [getSharedMemoryPointer, retry_of_ends hopened hopens, Option.bind_some, hfd]
  | noMapping hopened hfd hmapped hptr =>
    simp only [getSharedMemoryPointer, retry_of_ends hopened hopens, Option.bind_some, hfd,
      retry_of_ends hmapped hmaps, hptr]
  | notReady hopened hfd hmapped hptr hready hflag =>
    simp only [getSharedMemoryPointer, retry_of_ends hopened hopens, Option.bind_some, hfd,
      retry_of_ends hmapped hmaps, hptr, retry_of_ends hready hreads, Option.map_some, hflag]
  | ready hopened hfd hmapped hptr hready hflag =>
    simp only [getSharedMemoryPointer, retry_of_ends hopened hopens, Option.bind_some, hfd,
      retry_of_ends hmapped hmaps, hptr, retry_of_ends hready hreads, Option.map_some, hflag]

/-! ## What it leaves behind -/

/-- After a failure everything is as before. Otherwise there is one more mapping, through which
`init_flag` was read as non-zero, and no descriptor is left open. -/
structure LeavesNothing (L : Layout) (env : Results) (s s' : Process) (out : Outcome) : Prop where
  failed : out.ptr = none → s' = s
  pointer : ∀ ptr, out.ptr = some ptr →
    s' = s.mmap L ptr ∧ ∃ k < out.reads, env.initFlag ptr k ≠ 0

theorem close_shmOpen {fd ptr : ℕ} (hfd : fd ∉ s.fds) :
    ((s.shmOpen fd).mmap L ptr).close fd = s.mmap L ptr := by
  simp only [Process.shmOpen, Process.mmap, Process.close, Finset.erase_insert hfd]

theorem munmap_mmap {ptr : ℕ} (hpos : ∀ m ∈ s.mappings, 0 < m.len)
    (hptr : ∀ m ∈ s.mappings, m.start + m.len ≤ ptr ∨ ptr + L.pages ≤ m.start) :
    (s.mmap L ptr).munmap L ptr = s := by
  have hle := L.sizeof_le
  have hback : unmap ptr (ptr + L.pages) (⟨ptr, L.sizeofShmem⟩ :: s.mappings) = s.mappings :=
    unmap_cons_fresh (m := ⟨ptr, L.sizeofShmem⟩) (by simp only; omega) hpos hptr
  simp only [Process.mmap, Process.munmap, hback]

/-- A descriptor that was opened is left open. -/
theorem shmOpen_ne {fd : ℕ} (hfd : fd ∉ s.fds) : s.shmOpen fd ≠ s := by
  intro heq
  have hmem : fd ∈ (s.shmOpen fd).fds := Finset.mem_insert_self _ _
  rw [heq] at hmem
  exact hfd hmem

theorem initFlag_of_ready {ptr k : ℕ} (h : env.ready ptr k = some ()) :
    env.initFlag ptr k ≠ 0 :=
  (Option.ite_none_right_eq_some.1 h).1

/-- **What is left behind.** Nothing, exactly if the function does not give up on `mmap`, to which
it only comes if it does not give up on `shm_open`. -/
theorem leaves_nothing_iff (hpromises : Promises L env s)
    (h : getSharedMemoryPointer L numRetries env fuel s = some (s', out)) :
    LeavesNothing L env s s' out ↔
      GivesUp numRetries env.shmOpen ∨ ¬ GivesUp numRetries env.mmap := by
  cases returns_of_eq_some h with
  | noObject hopened hfd =>
    exact iff_of_true ⟨fun _ => rfl, nofun⟩ (.inl (hopened.value_eq_none_iff.1 hfd))
  | noMapping hopened hfd hmapped hptr =>
    obtain ⟨k, -, -, hk⟩ := hopened.first hfd
    refine iff_of_false ?_ (not_or.2 ⟨?_, not_not.2 (hmapped.value_eq_none_iff.1 hptr)⟩)
    · exact fun hleaves => shmOpen_ne (hpromises.fd k _ hk) (hleaves.failed rfl)
    · rw [← hopened.value_eq_none_iff, hfd]
      nofun
  | notReady hopened hfd hmapped hptr =>
    obtain ⟨k, -, -, hk⟩ := hopened.first hfd
    obtain ⟨k', -, -, hk'⟩ := hmapped.first hptr
    refine iff_of_true ⟨fun _ => ?_, nofun⟩ (.inr ?_)
    · rw [close_shmOpen (hpromises.fd k _ hk), munmap_mmap hpromises.pos (hpromises.ptr k' _ hk')]
    · rw [← hmapped.value_eq_none_iff, hptr]
      nofun
  | ready hopened hfd hmapped hptr hready hflag =>
    obtain ⟨k, -, -, hk⟩ := hopened.first hfd
    obtain ⟨i, hreads, -, hi⟩ := hready.first hflag
    refine iff_of_true ⟨nofun, ?_⟩ (.inr ?_)
    · rintro ptr ⟨⟩
      exact ⟨close_shmOpen (hpromises.fd k _ hk), i, by simp only [hreads]; omega,
        initFlag_of_ready hi⟩
    · rw [← hmapped.value_eq_none_iff, hptr]
      nofun

/-- A page for a `shmem_t` of 200 bytes. -/
def Layout.page : Layout := ⟨200, 4096, by decide⟩

/-- The standard descriptors are open, and nothing is mapped. -/
def Process.fresh : Process := ⟨{0, 1, 2}, []⟩

/-- The object is there, the flag is set later. -/
def Results.late : Results :=
  ⟨fun _ => some 3, fun _ => some 0x10000, fun _ k => if k = 0 then 0 else 1⟩

theorem leaves_nothing_iff_late : ∃ s' out,
    getSharedMemoryPointer .page 2 .late 3 .fresh = some (s', out) ∧ out.ptr = some 0x10000 ∧
    LeavesNothing .page .late .fresh s' out := by
  have hpromises : Promises .page .late .fresh := by
    refine ⟨?_, fun _ _ _ => List.forall_mem_nil _, List.forall_mem_nil _⟩
    rintro _ _ ⟨⟩
    decide
  have hmap : ¬ GivesUp (2 : BitVec 32) Results.late.mmap := fun hgives =>
    nomatch hgives.2 0 (Nat.zero_le _)
  obtain ⟨s', out, heq, hptr⟩ : ∃ s' out,
      getSharedMemoryPointer .page 2 .late 3 .fresh = some (s', out) ∧ out.ptr = some 0x10000 :=
    ⟨_, _, rfl, rfl⟩
  exact ⟨s', out, heq, hptr, (leaves_nothing_iff hpromises heq).2 (.inr hmap)⟩

/-- **A descriptor is left open** if `mmap` fails. -/
theorem leaves_descriptor : ¬ ∀ (L : Layout) (numRetries : BitVec 32) (env : Results) (fuel : ℕ)
    (s s' : Process) (out : Outcome), Promises L env s →
    getSharedMemoryPointer L numRetries env fuel s = some (s', out) →
    LeavesNothing L env s s' out := by
  intro hall
  have hleaves := hall .page 0 ⟨fun _ => some 3, fun _ => none, fun _ _ => 0⟩ 1 .fresh _ _
    ⟨by rintro _ _ ⟨⟩; decide, fun _ _ _ => List.forall_mem_nil _, List.forall_mem_nil _⟩ rfl
  exact shmOpen_ne (by decide) (hleaves.failed rfl)

/-! ## How long it takes -/

/-- The function returns, and none of the loops makes more attempts than the comment promises. -/
def Bounded (L : Layout) (numRetries : BitVec 32) (env : Results) (s : Process) : Prop :=
  ∃ fuel s' out, getSharedMemoryPointer L numRetries env fuel s = some (s', out) ∧
    out.opens ≤ numRetries.toNat + 1 ∧ out.maps ≤ numRetries.toNat + 1 ∧
    out.reads ≤ numRetries.toNat + 1

/-- Each loop has a success before the count wraps. The flag is read through the pointer that
`mmap` gives first. -/
def SucceedsInTime (env : Results) : Prop :=
  (∃ k < 2 ^ 32, (env.shmOpen k).isSome) ∧
  ∃ k < 2 ^ 32, ∃ ptr, (∀ j < k, env.mmap j = none) ∧ env.mmap k = some ptr ∧
    ∃ i < 2 ^ 32, env.initFlag ptr i ≠ 0

theorem isSome_ready {ptr k : ℕ} : (env.ready ptr k).isSome ↔ env.initFlag ptr k ≠ 0 := by
  simp [Results.ready]

theorem success_in_time {α : Type} {attempt : ℕ → Option α} {r : Result α}
    (h : Ends numRetries attempt r) (hle : r.attempts ≤ numRetries.toNat + 1)
    (hlargest : ¬ numRetries.toNat + 1 < 2 ^ 32) :
    ∃ k < 2 ^ 32, ∃ a, r.value = some a ∧ (∀ j < k, attempt j = none) ∧ attempt k = some a := by
  have hlt := numRetries.isLt
  obtain ⟨a, ha⟩ := Option.ne_none_iff_exists'.1 (mt h.value_eq_none_iff.1 fun hgives =>
    hlargest hgives.1)
  obtain ⟨k, hattempts, hfailed, hk⟩ := h.first ha
  exact ⟨k, by omega, a, ha, hfailed, hk⟩

/-- With the largest limit the function must come to the end. -/
theorem Returns.succeedsInTime (h : Returns L numRetries env s s' out)
    (hopens : out.opens ≤ numRetries.toNat + 1) (hmaps : out.maps ≤ numRetries.toNat + 1)
    (hreads : out.reads ≤ numRetries.toNat + 1) (hlargest : ¬ numRetries.toNat + 1 < 2 ^ 32) :
    SucceedsInTime env := by
  cases h with
  | noObject hopened hfd =>
    obtain ⟨-, -, fd, hfd', -⟩ := success_in_time hopened hopens hlargest
    exact nomatch hfd.symm.trans hfd'
  | noMapping hopened hfd hmapped hptr =>
    obtain ⟨-, -, ptr, hptr', -⟩ := success_in_time hmapped hmaps hlargest
    exact nomatch hptr.symm.trans hptr'
  | notReady hopened hfd hmapped hptr hready hflag =>
    obtain ⟨-, -, u, hflag', -⟩ := success_in_time hready hreads hlargest
    exact nomatch hflag.symm.trans hflag'
  | ready hopened hfd hmapped hptr hready hflag =>
    obtain ⟨j, hj, fd', -, -, hopen⟩ := success_in_time hopened hopens hlargest
    obtain ⟨k, hk, ptr', hptr', hfailed, hmap⟩ := success_in_time hmapped hmaps hlargest
    obtain ⟨i, hi, u, -, -, hread⟩ := success_in_time hready hreads hlargest
    cases hptr.symm.trans hptr'
    exact ⟨⟨j, hj, by rw [hopen, Option.isSome_some]⟩, k, hk, _, hfailed, hmap, i, hi,
      initFlag_of_ready hread⟩

/-- Each loop ends in time. The third one reads through the pointer of the second. -/
theorem exists_returns (h : numRetries.toNat + 1 < 2 ^ 32 ∨ SucceedsInTime env) :
    ∃ s' out, Returns L numRetries env s s' out ∧ out.opens ≤ numRetries.toNat + 1 ∧
      out.maps ≤ numRetries.toNat + 1 ∧ out.reads ≤ numRetries.toNat + 1 := by
  obtain ⟨opened, hopened, hopens⟩ :=
    exists_attempts_le_iff.2 (h.imp_right fun hsucceeds => hsucceeds.1)
  cases hfd : opened.value with
  | none => exact ⟨_, _, .noObject hopened hfd, hopens, Nat.zero_le _, Nat.zero_le _⟩
  | some fd =>
    have hmap : numRetries.toNat + 1 < 2 ^ 32 ∨ ∃ k < 2 ^ 32, (env.mmap k).isSome := by
      apply h.imp_right
      rintro ⟨-, k, hk, ptr, -, hmap, -⟩
      exact ⟨k, hk, by rw [hmap, Option.isSome_some]⟩
    obtain ⟨mapped, hmapped, hmaps⟩ := exists_attempts_le_iff.2 hmap
    cases hptr : mapped.value with
    | none => exact ⟨_, _, .noMapping hopened hfd hmapped hptr, hopens, hmaps, Nat.zero_le _⟩
    | some ptr =>
      have hread : numRetries.toNat + 1 < 2 ^ 32 ∨ ∃ i < 2 ^ 32, (env.ready ptr i).isSome := by
        by_cases hlargest : numRetries.toNat + 1 < 2 ^ 32
        · exact .inl hlargest
        · obtain ⟨-, k, hk, ptr', hfailed, hmap, i, hi, hread⟩ := h.resolve_left hlargest
          have hends : Ends numRetries env.mmap ⟨some ptr', k + 1⟩ :=
            .success hfailed hmap fun hlt => absurd hlt hlargest
          cases hends.unique hmapped
          cases hptr
          exact .inr ⟨i, hi, isSome_ready.2 hread⟩
      obtain ⟨ready, hready, hreads⟩ := exists_attempts_le_iff.2 hread
      cases hflag : ready.value with
      | none =>
        exact ⟨_, _, .notReady hopened hfd hmapped hptr hready hflag, hopens, hmaps, hreads⟩
      | some =>
        exact ⟨_, _, .ready hopened hfd hmapped hptr hready hflag, hopens, hmaps, hreads⟩

/-- **The retries are bounded** exactly if `num_retries` is not the largest `unsigned`, or nothing
fails that often. -/
theorem bounded_iff (L : Layout) (numRetries : BitVec 32) (env : Results) (s : Process) :
    Bounded L numRetries env s ↔ numRetries.toNat + 1 < 2 ^ 32 ∨ SucceedsInTime env := by
  constructor
  · rintro ⟨fuel, s', out, h, hopens, hmaps, hreads⟩
    by_cases hlargest : numRetries.toNat + 1 < 2 ^ 32
    · exact .inl hlargest
    · exact .inr ((returns_of_eq_some h).succeedsInTime hopens hmaps hreads hlargest)
  · intro h
    obtain ⟨s', out, hreturns, hopens, hmaps, hreads⟩ := exists_returns h
    exact ⟨_, s', out, hreturns.eq_some hopens hmaps hreads, hopens, hmaps, hreads⟩

/-- **The largest `num_retries` is no bound** if the object never comes. -/
theorem unbounded : ¬ ∀ (L : Layout) (numRetries : BitVec 32) (env : Results) (s : Process),
    Bounded L numRetries env s := by
  intro hall
  obtain ⟨fuel, s', out, h, hopens, hmaps, hreads⟩ := hall .page (BitVec.allOnes 32)
    ⟨fun _ => none, fun _ => none, fun _ _ => 0⟩ .fresh
  obtain ⟨⟨k, -, hk⟩, -⟩ :=
    (returns_of_eq_some h).succeedsInTime hopens hmaps hreads (by decide)
  cases hk

end QnxTutorial.ShmemPosix.Pointer
