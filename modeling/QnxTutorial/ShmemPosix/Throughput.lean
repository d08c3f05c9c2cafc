import QnxTutorial.Monitor.Shares
import QnxTutorial.ShmemPosix.Broadcast

/-!
# The users keep up with the creator

An update costs every user a few steps: it is woken, finds a version that is not its last one,
copies the text and waits again. So what a user has to do depends on the version in shared memory,
and an update gives all of them something to do at once. A user that looks in vain has been woken
spuriously, or by a broadcast that was paid for.

**Theorem (`keeps_updating`).** The length of a run is bounded by the updates in it and the
spurious wake-ups; nothing can happen any more only if the set-up has failed and every user has
given up; and when only the creator can go on, with its next update, every user has the current
version and its text.
-/

namespace QnxTutorial.ShmemPosix

open Monitor

instance {υ : Type} [Fintype υ] [DecidableEq υ] : Fintype (Pid υ) where
  elems := insert .creator (Finset.univ.image .user)
  complete i := by cases i <;> simp

theorem card_pid {υ : Type} [Fintype υ] [DecidableEq υ] :
    Fintype.card (Pid υ) = Fintype.card υ + 1 := by
  have hinj : Function.Injective (Pid.user : υ → Pid υ) := fun _ _ h => by cases h; rfl
  show (insert Pid.creator (Finset.univ.image Pid.user)).card = _
  rw [Finset.card_insert_of_notMem (by simp), Finset.card_image_of_injective _ hinj]
  rfl

/-! ## The shares -/

/-- How far the creator is from its next version, with the wake-ups that its broadcast pays for. -/
def CreatorPc.rank (users : ℕ) : CreatorPc → ℕ
  | .exited => 0
  | .writeVersion _ => 1
  | .readVersion => 2
  | .lock => 3
  | .setFlag => 4
  | .condInit => 5
  | .mutexInit => 6
  | .mmap => 7
  | .ftruncate => 8
  | .shmOpen => 9
  | .broadcast => 7 + 3 * users
  | .unlock => 8 + 3 * users
  | .writeText _ => 9 + 3 * users
  | .readArg => 10 + 3 * users

/-- How far a user is from going to sleep, or from giving up. -/
def UserPc.rank : UserPc → ℕ
  | .stopped => 0
  | .wait _ | .readVersion _ => 1
  | .test _ => 2
  | .lock _ => 3
  | .unlock _ => 4
  | .readText _ => 5
  | .readFlag tries => 9 + (101 - tries)
  | .mmap tries => 111 + (101 - tries)
  | .shmOpen tries => 213 + (101 - tries)

/-- A user whose last version is not the current one has a text to copy. -/
def UserPc.debt (pc : UserPc) (s : Shmem) : ℕ :=
  match pc.vars with
  | some x => if x.lastVersion = s.dataVersion then 0 else 5
  | none => 0

def creatorShare (users : ℕ) : Thread CreatorPc → ℕ
  | .run pc => pc.rank users
  | .asleep _ | .woken _ => 0

def userShare (s : Shmem) : Thread UserPc → ℕ
  | .run pc => pc.rank + pc.debt s
  | .asleep pc => pc.debt s
  | .woken pc => 3 + pc.debt s

theorem UserPc.debt_le (pc : UserPc) (s : Shmem) : pc.debt s ≤ 5 := by
  unfold debt
  split
  · split_ifs <;> simp
  · simp

theorem UserPc.debt_congr (pc : UserPc) {s s' : Shmem} (h : s'.dataVersion = s.dataVersion) :
    pc.debt s' = pc.debt s := by
  unfold debt
  rw [h]

theorem CreatorPc.rank_le (users : ℕ) (pc : CreatorPc) : pc.rank users ≤ 10 + 3 * users := by
  cases pc <;> simp only [rank] <;> omega

theorem creatorShare_le (users : ℕ) (t : Thread CreatorPc) :
    creatorShare users t ≤ 10 + 3 * users := by
  cases t with
  | run pc => exact pc.rank_le users
  | asleep | woken => exact Nat.zero_le _

theorem userShare_le (s : Shmem) (t : Thread UserPc) : userShare s t ≤ 314 := by
  cases t with
  | run pc =>
    have hdebt := pc.debt_le s
    cases pc with
    | shmOpen | mmap | readFlag | stopped =>
      simp only [userShare, UserPc.rank, UserPc.debt, UserPc.vars]
      omega
    | lock | test | wait | readVersion | readText | unlock =>
      simp only [userShare, UserPc.rank]
      omega
  | asleep pc | woken pc =>
    have hdebt := pc.debt_le s
    simp only [userShare]
    omega

/-! ## What the acts cost -/

/-- An act of the creator publishes a version, or leaves it as it is. -/
theorem CreatorAct.publishes {pc k : CreatorPc} {s s' : Shmem} (h : CreatorAct pc s s' k) :
    s'.dataVersion = s.dataVersion ∧ s'.updates = s.updates ∨ s'.updates = s.updates + 1 := by
  cases h with
  | writeVersion => exact .inr rfl
  | shmOpen | ftruncate | mmap | mutexInit | condInit | exit | setFlag | readVersion | readArg
  | writeText => exact .inl ⟨rfl, rfl⟩

/-- An update may give every user a text to copy. -/
theorem CreatorAct.userShare_le {pc k : CreatorPc} {s s' : Shmem} (h : CreatorAct pc s s' k)
    (t : Thread UserPc) : userShare s' t + 5 * s.updates ≤ userShare s t + 5 * s'.updates := by
  have hdebt : ∀ pc : UserPc, pc.debt s' + 5 * s.updates ≤ pc.debt s + 5 * s'.updates := by
    intro pc
    rcases h.publishes with ⟨hv, hu⟩ | hu
    · rw [pc.debt_congr hv, hu]
    · have := pc.debt_le s'
      omega
  cases t with
  | run pc | asleep pc | woken pc =>
    have := hdebt pc
    simp only [userShare]
    omega

/-- A version pays for the rest of the creator's loop. -/
theorem creator_rank_lt {pc k : CreatorPc} {f : Input → Shmem → Option (Shmem × CreatorPc)}
    {e : Input} {s s' : Shmem} (hc : creator pc = .act f) (hf : f e s = some (s', k))
    (users : ℕ) :
    k.rank users + (10 + 3 * users) * s.updates <
      pc.rank users + (10 + 3 * users) * s'.updates := by
  cases creator_act hc hf with
  | exit =>
    have hpos : 0 < pc.rank users := by
      cases pc with
      | exited => cases hc
      | _ => simp [CreatorPc.rank]
    exact Nat.add_lt_add_right hpos _
  | writeVersion =>
    simp only [CreatorPc.rank, Nat.mul_succ]
    omega
  | shmOpen | ftruncate | mmap | mutexInit | condInit | setFlag | readVersion | readArg
  | writeText =>
    simp only [CreatorPc.rank]
    omega

theorem retry_share_lt {s : Shmem} {loop : ℕ → UserPc} (base : ℕ) (hbase : 0 < base)
    (hloop : ∀ n, userShare s (.run (loop n)) = base + (101 - n)) (tries : ℕ) :
    userShare s (.run (retry loop tries)) < userShare s (.run (loop tries)) := by
  unfold retry numRetries
  split_ifs with hlast
  · rw [hloop]
    exact Nat.lt_of_lt_of_le hbase (Nat.le_add_right ..)
  · rw [hloop, hloop]
    omega

/-- A user that copies a text has found a version that was not its last one. -/
theorem user_share_lt {pc k : UserPc} {f : Input → Shmem → Option (Shmem × UserPc)} {e : Input}
    {s s' : Shmem} (hc : user pc = .act f) (hf : f e s = some (s', k)) (hp : userPre pc s) :
    userShare s' (.run k) < userShare s (.run pc) := by
  cases pc with
  | lock | wait | unlock | stopped => cases hc
  | shmOpen tries =>
    cases hc
    simp only [Option.some.injEq, Prod.mk.injEq] at hf
    obtain ⟨rfl, rfl⟩ := hf
    split_ifs
    · simp [userShare, UserPc.rank, UserPc.debt, UserPc.vars]
      omega
    · exact retry_share_lt 213 (by decide) (fun _ => rfl) tries
  | mmap tries =>
    cases hc
    simp only [Option.some.injEq, Prod.mk.injEq] at hf
    obtain ⟨rfl, rfl⟩ := hf
    split_ifs
    · simp [userShare, UserPc.rank, UserPc.debt, UserPc.vars]
      omega
    · exact retry_share_lt 111 (by decide) (fun _ => rfl) tries
  | readFlag tries =>
    cases hc
    simp only [Option.some.injEq, Prod.mk.injEq] at hf
    obtain ⟨rfl, rfl⟩ := hf
    split_ifs
    · simp [userShare, UserPc.rank, UserPc.debt, UserPc.vars]
    · have hdebt := (UserPc.lock .start).debt_le s
      simp only [userShare, UserPc.rank]
      omega
    · exact retry_share_lt 9 (by decide) (fun _ => rfl) tries
  | test x =>
    cases hc
    simp only [Option.some.injEq, Prod.mk.injEq] at hf
    obtain ⟨rfl, rfl⟩ := hf
    split_ifs <;> simp [userShare, UserPc.rank, UserPc.debt, UserPc.vars]
  | readVersion x =>
    cases hc
    cases hf
    have hne := hp.2.2.2
    simp [userShare, UserPc.rank, UserPc.debt, UserPc.vars, hne]
  | readText x =>
    cases hc
    cases hf
    simp [userShare, UserPc.rank, UserPc.debt, UserPc.vars]

/-! ## The accounting -/

/-- An update pays for the creator's loop, and for the steps of every user that it wakes. -/
def shares (υ : Type) [Fintype υ] [DecidableEq υ] : Shares (program υ) where
  know
    | .creator => fun _ _ => True
    | .user _ => userPre
  share
    | .creator => fun t _ => creatorShare (Fintype.card υ) t
    | .user _ => fun t s => userShare s t
  stock _ := 0
  goals := Shmem.updates
  worth := 10 + 3 * Fintype.card υ
  grow := 5
  wake := 3
  lock {i pc k s} hc := by
    cases i <;> cases pc <;> cases hc <;>
      simp [creatorShare, CreatorPc.rank, userShare, UserPc.rank, UserPc.debt, UserPc.vars]
  unlock {i pc k s} hc := by
    cases i <;> cases pc <;> cases hc <;>
      simp [creatorShare, CreatorPc.rank, userShare, UserPc.rank, UserPc.debt, UserPc.vars]
  wait {i pc k s} hc := by
    cases i <;> cases pc <;> cases hc
    simp [userShare, UserPc.rank, UserPc.debt, UserPc.vars]
  relock {i pc k s} hc := by
    cases i <;> cases pc <;> cases hc
    simp [userShare, UserPc.rank]
  woken {i k s} := by
    cases i with
    | creator => exact Nat.zero_le _
    | user => exact Nat.le_of_eq (Nat.add_comm ..)
  signal {i pc k s} hc := by cases i <;> cases pc <;> cases hc
  broadcast {i pc k s} hc := by
    rw [card_pid]
    cases i <;> cases pc <;> cases hc
    simp only [creatorShare, CreatorPc.rank]
    omega
  act {i pc k s s' e f} hc hf hk := by
    cases i with
    | creator => exact creator_rank_lt hc hf _
    | user =>
      have hlt := user_share_lt hc hf hk
      obtain ⟨rfl, -⟩ := user_act hc hf
      exact Nat.add_lt_add_right hlt _
  others {i pc k s s' e f} hc hf _ j t hj := by
    cases i with
    | user =>
      obtain ⟨rfl, -⟩ := user_act hc hf
      exact Nat.le_refl _
    | creator =>
      cases j with
      | creator => exact absurd rfl hj
      | user => exact (creator_act hc hf).userShare_le t


variable {υ : Type} [DecidableEq υ]

theorem knows_of_reachable [Fintype υ] {c : Config (program υ)} (h : Reachable c) :
    (shares υ).Knows c := by
  intro i pc hi
  cases i with
  | creator => trivial
  | user => exact ((outline υ).sound outline_start h).pre hi

theorem potential_le [Fintype υ] (c : Config (program υ)) :
    (shares υ).potential c ≤ 317 * Fintype.card υ + 10 := by
  have hcreator : (shares υ).share .creator (c.thread .creator) c.shared ≤
      10 + 3 * Fintype.card υ := creatorShare_le _ _
  have husers : ∑ i ∈ Finset.univ.erase .creator, (shares υ).share i (c.thread i) c.shared ≤
      (Finset.univ.erase (Pid.creator : Pid υ)).card * 314 := by
    refine Finset.sum_le_card_nsmul _ _ _ ?_
    intro i hi
    cases i with
    | creator => exact absurd rfl (Finset.ne_of_mem_erase hi)
    | user => exact userShare_le _ _
  rw [Finset.card_erase_of_mem (Finset.mem_univ _), Finset.card_univ, card_pid] at husers
  have htotal := Finset.add_sum_erase Finset.univ
    (fun i => (shares υ).share i (c.thread i) c.shared) (Finset.mem_univ Pid.creator)
  show (shares υ).total c.thread c.shared + 0 ≤ _
  unfold Shares.total
  omega

/-! ## Who has got as far as the loops -/

/-- In the creator's `while` loop. -/
def CreatorPc.InLoop : CreatorPc → Prop
  | .lock | .readVersion | .writeVersion _ | .readArg | .writeText _ | .unlock | .broadcast => True
  | .shmOpen | .ftruncate | .mmap | .mutexInit | .condInit | .setFlag | .exited => False

/-- The copy is the text recorded for the last version. -/
def Copied (x : Vars) : Prop := x = .start ∨ (x.lastVersion, x.localDataCopy) ∈ x.record

/-- A user in its loop has seen the flag. -/
def loopPre : UserPc → Shmem → Prop
  | .lock x, s | .test x, s | .wait x, s | .readVersion x, s | .unlock x, s =>
    s.initFlag ≠ 0 ∧ Copied x
  | .readText _, s => s.initFlag ≠ 0
  | .shmOpen _, _ | .mmap _, _ | .readFlag _, _ | .stopped, _ => True

theorem UserAct.loopPre {pc k : UserPc} {s : Shmem} (h : UserAct s pc k) (hp : loopPre pc s) :
    loopPre k s := by
  cases h with
  | loop _ hk =>
    cases k with
    | shmOpen | mmap | readFlag | stopped => trivial
    | lock | test | wait | readVersion | readText | unlock => exact hk.elim
  | ready hflag => exact ⟨hflag, .inl rfl⟩
  | same | changed => exact hp
  | readVersion => exact hp.1
  | readText => exact ⟨hp, .inr (by simp)⟩

theorem CreatorAct.initFlag_ne {pc k : CreatorPc} {s s' : Shmem} (h : CreatorAct pc s s' k)
    (hs : s.initFlag ≠ 0) : s'.initFlag ≠ 0 := by
  cases h with
  | setFlag =>
    show (1 : BitVec 32) ≠ 0
    decide
  | shmOpen | ftruncate | mmap | mutexInit | condInit | exit | readVersion | writeVersion | readArg
  | writeText => exact hs

theorem loopPre_mono {pc : UserPc} {s s' : Shmem} (h : s.initFlag ≠ 0 → s'.initFlag ≠ 0)
    (hp : loopPre pc s) : loopPre pc s' := by
  cases pc with
  | shmOpen | mmap | readFlag | stopped => trivial
  | readText => exact h hp
  | lock | test | wait | readVersion | unlock => exact ⟨h hp.1, hp.2⟩

theorem creator_inLoop {pc k : CreatorPc} {f : Input → Shmem → Option (Shmem × CreatorPc)}
    {e : Input} {s s' : Shmem} (hc : creator pc = .act f) (hf : f e s = some (s', k))
    (hp : s.initFlag ≠ 0 → pc.InLoop) (hflag : s'.initFlag ≠ 0) : k.InLoop := by
  cases creator_act hc hf with
  | setFlag | readVersion | writeVersion | readArg | writeText => trivial
  | shmOpen | ftruncate | mmap | mutexInit | condInit => exact hp hflag
  | exit hout =>
    have hloop := hp hflag
    cases pc with
    | lock | broadcast => cases hc
    | readVersion | writeVersion | readArg | writeText | unlock => cases hout
    | shmOpen | ftruncate | mmap | mutexInit | condInit | setFlag | exited => exact hloop

/-- The outline that only speaks of the flag and of the users' copies. -/
def loopOutline (υ : Type) : Outline (program υ) where
  inv _ := True
  pre
    | .creator => fun pc s => s.initFlag ≠ 0 → pc.InLoop
    | .user _ => loopPre
  rest
    | .creator => fun _ _ => True
    | .user _ => loopPre
  lock {i pc k s} hc hp _ := by
    cases i with
    | creator => cases pc <;> cases hc; exact fun _ => trivial
    | user => cases pc <;> cases hc; exact hp
  unlock {i pc k s} hc hp := by
    cases i with
    | creator => cases pc <;> cases hc; exact ⟨trivial, fun _ => trivial⟩
    | user => cases pc <;> cases hc; exact ⟨trivial, hp⟩
  wait {i pc k s} hc hp := by
    cases i with
    | creator => cases pc <;> cases hc
    | user => cases pc <;> cases hc; exact ⟨trivial, hp⟩
  relock {i pc k s} hc hp _ := by
    cases i with
    | creator => cases pc <;> cases hc
    | user => exact hp
  notify {i pc k s} hc hp := by
    cases i with
    | creator => rcases hc with hc | hc <;> cases pc <;> cases hc; exact fun _ => trivial
    | user => rcases hc with hc | hc <;> cases pc <;> cases hc
  act {i pc k s s' e f} hc hf hp := by
    cases i with
    | creator => exact creator_inLoop hc hf hp
    | user =>
      obtain ⟨rfl, hact⟩ := user_act hc hf
      exact hact.loopPre hp
  act_inv _ _ _ _ _ := trivial
  act_other {i pc k s s' e f} hc hf _ {j t} hj _ ht := by
    cases i with
    | user =>
      obtain ⟨rfl, -⟩ := user_act hc hf
      exact ht
    | creator =>
      have hflag := (creator_act hc hf).initFlag_ne
      cases j with
      | creator => exact absurd rfl hj
      | user => cases t <;> exact loopPre_mono hflag ht

theorem loop_of_reachable {c : Config (program υ)} (h : Reachable c) :
    (loopOutline υ).Holds c := by
  apply (loopOutline υ).sound _ h
  rintro s rfl
  refine ⟨trivial, ?_⟩
  intro i
  cases i with
  | creator => exact fun hflag => absurd rfl hflag
  | user => trivial

/-! ## Who can go on -/

/-- The creator never sleeps. -/
theorem exists_creator {c : Config (program υ)} (h : Reachable c) :
    ∃ pc, creatorAt c = .run pc := by
  have hwaits := h.owned.waits .creator
  cases hi : creatorAt c with
  | run pc => exact ⟨pc, rfl⟩
  | asleep k =>
    obtain ⟨pc, hc⟩ := hwaits k (.inl hi)
    cases pc <;> cases hc
  | woken k =>
    obtain ⟨pc, hc⟩ := hwaits k (.inr hi)
    cases pc <;> cases hc

omit [DecidableEq υ] in
theorem ready_of_creator {c : Config (program υ)} {pc : CreatorPc} (hi : creatorAt c = .run pc)
    (hne : pc ≠ .exited) (hm : if pc.holds then c.mutex = some .creator else c.mutex = none) :
    c.Ready .creator := by
  unfold Config.Ready
  simp only [show c.thread .creator = .run pc from hi]
  cases pc with
  | lock | unlock => exact hm
  | broadcast => trivial
  | exited => exact absurd rfl hne
  | shmOpen | ftruncate | mmap | mutexInit | condInit | setFlag | readVersion | writeVersion
  | readArg | writeText => exact ⟨.ok, _, _, rfl⟩

omit [DecidableEq υ] in
theorem ready_of_user {c : Config (program υ)} {u : υ} {pc : UserPc} (hi : userAt c u = .run pc)
    (hne : pc ≠ .stopped) (hm : if pc.holds then c.mutex = some (.user u) else c.mutex = none) :
    c.Ready (.user u) := by
  unfold Config.Ready
  simp only [show c.thread (.user u) = .run pc from hi]
  cases pc with
  | lock | wait | unlock => exact hm
  | stopped => exact absurd rfl hne
  | shmOpen | mmap | readFlag | test | readVersion | readText => exact ⟨.ok, _, _, rfl⟩

theorem ready_of_holder {c : Config (program υ)} (h : Reachable c) {i : Pid υ}
    (hm : c.mutex = some i) : c.Ready i := by
  obtain ⟨pc, hi, hin⟩ := h.owned.holder hm
  cases i with
  | creator =>
    change CreatorPc at pc
    apply ready_of_creator hi
    · rintro rfl
      cases hin
    · rw [if_pos (show pc.holds = true from hin), hm]
  | user =>
    change UserPc at pc
    apply ready_of_user hi
    · rintro rfl
      cases hin
    · rw [if_pos (show pc.holds = true from hin), hm]

theorem ready_of_free_creator {c : Config (program υ)} (h : Reachable c) (hm : c.mutex = none)
    {pc : CreatorPc} (hi : creatorAt c = .run pc) (hne : pc ≠ .exited) : c.Ready .creator := by
  have hout := h.owned.outside hm (i := Pid.creator) hi
  exact ready_of_creator hi hne (by rw [if_neg (by simp [show pc.holds = false from hout]), hm])

theorem ready_of_free_user {c : Config (program υ)} (h : Reachable c) (hm : c.mutex = none)
    {u : υ} {pc : UserPc} (hi : userAt c u = .run pc) (hne : pc ≠ .stopped) :
    c.Ready (.user u) := by
  have hout := h.owned.outside hm (i := Pid.user u) hi
  exact ready_of_user hi hne (by rw [if_neg (by simp [show pc.holds = false from hout]), hm])

/-- A user that has not stopped has seen the flag, or can go on. -/
theorem initFlag_ne_or_ready {c : Config (program υ)} (h : Reachable c) (hm : c.mutex = none)
    (u : υ) : userAt c u = .run .stopped ∨ c.shared.initFlag ≠ 0 ∨ c.Ready (.user u) := by
  have hloop := loop_of_reachable h
  cases hu : userAt c u with
  | run pc =>
    by_cases hne : pc = .stopped
    · exact .inl (by rw [hne])
    · exact .inr (.inr (ready_of_free_user h hm hu hne))
  | asleep k =>
    obtain ⟨x, rfl⟩ := pcOf_of_waits (h.owned.waits (.user u) k (.inl hu))
    exact .inr (.inl (hloop.asleep (i := Pid.user u) hu).1)
  | woken k =>
    obtain ⟨x, rfl⟩ := pcOf_of_waits (h.owned.waits (.user u) k (.inr hu))
    exact .inr (.inl (hloop.woken (i := Pid.user u) hu).1)

/-- The set-up has failed and every user has given up. -/
def Over (c : Config (program υ)) : Prop :=
  creatorAt c = .run .exited ∧ ∀ u, userAt c u = .run .stopped

/-- Somebody can go on, unless it is all over. -/
theorem exists_ready_of_not_over {c : Config (program υ)} (h : Reachable c) (hnot : ¬ Over c) :
    ∃ i, c.Ready i := by
  cases hm : c.mutex with
  | some i => exact ⟨i, ready_of_holder h hm⟩
  | none =>
    obtain ⟨pc, hpc⟩ := exists_creator h
    by_cases hne : pc = .exited
    · subst hne
      have hflag : ¬ c.shared.initFlag ≠ 0 := (loop_of_reachable h).pre (i := Pid.creator) hpc
      by_contra hready
      simp only [not_exists] at hready
      refine hnot ⟨hpc, ?_⟩
      intro u
      rcases initFlag_ne_or_ready h hm u with hu | hne | hu
      · exact hu
      · exact absurd hne hflag
      · exact absurd hu (hready _)
    · exact ⟨.creator, ready_of_free_creator h hm hpc hne⟩

theorem Over.not_step {c c' : Config (program υ)} (ho : Over c) : ¬ Step c c' := by
  apply not_step_of_halt
  intro i
  cases i with
  | creator => exact ⟨.exited, ho.1, rfl⟩
  | user u => exact ⟨.stopped, ho.2 u, rfl⟩

/-! ## Up to date -/

/-- Nobody can go on but the creator, with its next update. -/
def Settled (c : Config (program υ)) : Prop :=
  ∀ i, c.Ready i → i = .creator ∧ creatorAt c = .run .lock

theorem Settled.mutex {c : Config (program υ)} (hs : Settled c) (h : Reachable c) :
    c.mutex = none := by
  cases hm : c.mutex with
  | none => rfl
  | some i =>
    obtain ⟨rfl, hi⟩ := hs i (ready_of_holder h hm)
    obtain ⟨pc, hi', hin⟩ := h.owned.holder hm
    cases hi.symm.trans hi'
    cases hin

/-- A user that waits has the current version and its text. -/
theorem Settled.upToDate {c : Config (program υ)} (hs : Settled c) (h : Reachable c) (u : υ) :
    userAt c u = .run .stopped ∨ ∃ x, userAt c u = .asleep (.test x) ∧
      x.lastVersion = c.shared.dataVersion ∧
      (x.lastVersion ≠ 0 → x.localDataCopy = updateText x.lastVersion) := by
  have hm := hs.mutex h
  have hready : ¬ c.Ready (.user u) := fun hr => nomatch (hs _ hr).1
  cases hu : userAt c u with
  | run pc =>
    by_cases hne : pc = .stopped
    · exact .inl (by rw [hne])
    · exact absurd (ready_of_free_user h hm hu hne) hready
  | woken k =>
    refine absurd ?_ hready
    unfold Config.Ready
    rw [show c.thread (.user u) = .woken k from hu]
    exact hm
  | asleep k =>
    obtain ⟨x, rfl⟩ := pcOf_of_waits (h.owned.waits (.user u) k (.inl hu))
    refine .inr ⟨x, rfl, ?_, ?_⟩
    · rcases (wakeup υ).sound outline_start h (.user u) _ hu with hidle | ⟨j, pc, hj, ho⟩
      · exact hidle
      · cases j with
        | user => exact ho.elim
        | creator =>
          -- A creator that owes a broadcast can go on, and is not at its next update.
          change CreatorPc at pc
          have hne : pc ≠ .exited := by
            rintro rfl
            exact ho
          have hlock := (hs .creator (ready_of_free_creator h hm hj hne)).2
          cases hlock.symm.trans hj
          exact ho.elim
    · intro hx
      have hknows := (((outline υ).sound outline_start h).asleep (i := Pid.user u) hu).1
      rcases ((loop_of_reachable h).asleep (i := Pid.user u) hu).2 with rfl | hcopied
      · exact absurd rfl hx
      · exact hknows.texts _ hcopied

/-! ## The theorem -/

/-- **The users keep up.** A run takes at most so many steps for each process, for each update and
for each spurious wake-up. It cannot be continued only if all is over; and when it waits for the
next update every user is up to date. -/
theorem keeps_updating [Fintype υ] (c d : Config (program υ)) (h : Reachable c) (n m : ℕ)
    (hp : Path c n m d) :
    n ≤ 317 * Fintype.card υ + 10 +
      (8 * Fintype.card υ + 10) * (d.shared.updates - c.shared.updates) + 3 * m ∧
    ((¬ ∃ d', Proper d d') ↔ creatorAt d = .run .exited ∧ ∀ u, userAt d u = .run .stopped) ∧
    (Settled d → ∀ u, userAt d u = .run .stopped ∨ ∃ x, userAt d u = .asleep (.test x) ∧
      x.lastVersion = d.shared.dataVersion ∧
      (x.lastVersion ≠ 0 → x.localDataCopy = updateText x.lastVersion)) := by
  have hd : Reachable d := h.path hp
  refine ⟨?_, ?_, fun hs => hs.upToDate hd⟩
  · have hbound := Shares.bound (K := shares υ) h hp fun hp => knows_of_reachable (h.path hp)
    have hpotential := potential_le c
    have hprice : (shares υ).price = 8 * Fintype.card υ + 10 := by
      show 10 + 3 * Fintype.card υ + (Fintype.card (Pid υ) - 1) * 5 = _
      rw [card_pid]
      omega
    change n + _ + _ * c.shared.updates ≤ _ + _ * d.shared.updates + 3 * m at hbound
    rw [hprice] at hbound
    rw [Nat.mul_sub]
    omega
  · constructor
    · intro hstuck
      by_contra hnot
      obtain ⟨i, hi⟩ := exists_ready_of_not_over hd hnot
      exact hstuck ((shares υ).exists_step hi)
    · rintro ho ⟨d', hst, -⟩
      exact Over.not_step ho hst

/-- The user waits for the first update, and copies it. -/
def firstUpdate : List (Move (Pid (Unit)) Input) :=
  List.replicate 6 (.step .creator .ok) ++ List.replicate 6 (.step (.user ()) .ok) ++
  List.replicate 7 (.step .creator .ok) ++ List.replicate 8 (.step (.user ()) .ok)

theorem keeps_updating_first : ∃ d : Config (program (Unit)), Reachable d ∧ Settled d ∧
    ∃ x, userAt d () = .asleep (.test x) ∧ x.lastVersion = 1 ∧ x.localDataCopy = updateText 1 := by
  obtain ⟨d, hd, hp⟩ := Option.map_eq_some_iff.1 (show
    (play (.init (program (Unit)) start) firstUpdate).map (fun d =>
      creatorAt d == .run .lock && userAt d () ==
        .asleep (.test ⟨1, updateText 1, [(1, updateText 1)]⟩) && d.shared.dataVersion == 1) =
        some true by decide)
  simp only [Bool.and_eq_true, beq_iff_eq] at hp
  obtain ⟨⟨hlock, hasleep⟩, hversion⟩ := hp
  have hsettled : Settled d := by
    intro i hi
    cases i with
    | creator => exact ⟨rfl, hlock⟩
    | user =>
      unfold Config.Ready at hi
      rw [show d.thread (.user ()) = _ from hasleep] at hi
      exact hi.elim
  obtain ⟨n, m, hpath⟩ := Path.play .refl hd
  have hinit : Reachable (.init (program (Unit)) start) := .init rfl
  rcases (keeps_updating _ d hinit n m hpath).2.2 hsettled () with hstop | ⟨x, hx, hv, hcopy⟩
  · exact nomatch hasleep.symm.trans hstop
  · rw [hversion] at hv
    rw [hv] at hcopy
    exact ⟨d, hinit.path hpath, hsettled, x, hx, hv, hcopy (by decide)⟩

end QnxTutorial.ShmemPosix
