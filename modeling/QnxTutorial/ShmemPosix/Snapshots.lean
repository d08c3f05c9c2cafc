import Mathlib.Algebra.Group.Nat.Defs
import QnxTutorial.Monitor.Schedule
import QnxTutorial.ShmemPosix.Program

/-!
# Users see consistent, advancing snapshots

While the mutex is free, the text in shared memory is the text of the version there (`Inv`). The
creator breaks this between its two writes and a user relies on it between its two reads, but
both hold the mutex then. What a user remembers is about versions up to the current one
(`LocalOk`), and that stays true because versions only grow.

**Theorem (`snapshots`).** No user reaches the mutex before it and the condition variable are
initialised; every text a user has copied is the complete text of the version it went with; and
as long as the 64-bit version has not wrapped around, those versions strictly increase.
-/

namespace QnxTutorial.ShmemPosix

open Monitor

/-! ## Assertions -/

/-- The mutex and the condition variable can be used. -/
def Ready (s : Shmem) : Prop := s.mutexInit = true ∧ s.condInit = true

/-- The flag is only set once they can. -/
def FlagOk (s : Shmem) : Prop := s.initFlag ≠ 0 → Ready s

/-- The version counts the updates. -/
def Counted (s : Shmem) : Prop := s.dataVersion = BitVec.ofNat 64 s.updates

/-- What holds while the mutex is free. -/
structure Inv (s : Shmem) : Prop where
  counted : Counted s
  text : s.updates ≠ 0 → s.text = updateText s.dataVersion

/-- What the creator knows. -/
def creatorPre : CreatorPc → Shmem → Prop
  | .condInit, s => s.mutexInit = true
  | .setFlag, s => Ready s
  | .readVersion, s | .unlock, s => Inv s
  | .writeVersion v, s => Inv s ∧ v = s.dataVersion
  | .readArg, s => Counted s
  | .writeText v, s => Counted s ∧ v = s.dataVersion
  | .shmOpen, _ | .ftruncate, _ | .mmap, _ | .mutexInit, _ | .lock, _ | .broadcast, _
  | .exited, _ => True

/-- What a user knows once it has the object: what it has recorded are complete texts, and it has
seen no version if there was none. -/
structure Knows (x : Vars) (s : Shmem) : Prop where
  ready : Ready s
  texts : ∀ p ∈ x.record, p.2 = updateText p.1
  unseen : s.updates = 0 → x.lastVersion = 0

/-- The recorded versions increase, up to the last one and to the current version `v`. -/
structure LocalOk (x : Vars) (v : Version) : Prop where
  increasing : (x.record.map Prod.fst).Pairwise (· < ·)
  le_last : ∀ p ∈ x.record, p.1 ≤ x.lastVersion
  last_le : x.lastVersion ≤ v

/-- In the middle of an update, the last version is not yet recorded. -/
structure MidUpdate (x : Vars) : Prop where
  increasing : (x.record.map Prod.fst).Pairwise (· < ·)
  lt_last : ∀ p ∈ x.record, p.1 < x.lastVersion

/-- `P`, unless the version has wrapped around. -/
def NoWrap (s : Shmem) (P : Prop) : Prop := s.updates < 2 ^ 64 → P

/-- What a user knows. -/
def userPre : UserPc → Shmem → Prop
  | .shmOpen _, s | .mmap _, s | .readFlag _, s | .stopped, s => FlagOk s
  | .lock x, s => Knows x s ∧ NoWrap s (LocalOk x s.dataVersion)
  | .test x, s => Knows x s ∧ NoWrap s (LocalOk x s.dataVersion) ∧ Inv s
  | .wait x, s =>
    Knows x s ∧ NoWrap s (LocalOk x s.dataVersion) ∧ Inv s ∧ x.lastVersion = s.dataVersion
  | .readVersion x, s =>
    Knows x s ∧ NoWrap s (LocalOk x s.dataVersion) ∧ Inv s ∧ x.lastVersion ≠ s.dataVersion
  | .readText x, s =>
    Knows x s ∧ NoWrap s (MidUpdate x) ∧ Inv s ∧ x.lastVersion = s.dataVersion ∧ s.updates ≠ 0
  | .unlock x, s =>
    Knows x s ∧ NoWrap s (LocalOk x s.dataVersion) ∧ Inv s ∧
      x.localDataCopy = updateText x.lastVersion

/-- What a user relies on while it waits. -/
def userRest : UserPc → Shmem → Prop
  | .test x, s => Knows x s ∧ NoWrap s (LocalOk x s.dataVersion)
  | _, _ => True

theorem inv_start : Inv start := ⟨rfl, fun h => absurd rfl h⟩

theorem LocalOk.start (v : Version) : LocalOk .start v where
  increasing := .nil
  le_last := nofun
  last_le := by
    show 0#64 ≤ v
    bv_omega

theorem userPre_early {pc : UserPc} (hpc : pc.Early) {s : Shmem} : userPre pc s ↔ FlagOk s := by
  cases pc <;> first | rfl | exact hpc.elim

/-! ## Acts -/

theorem creatorPre_act {pc k : CreatorPc} {s s' : Shmem} (h : CreatorAct pc s s' k)
    (hp : creatorPre pc s) : creatorPre k s' := by
  cases h with
  | shmOpen | ftruncate | mmap | exit | setFlag => trivial
  | mutexInit => rfl
  | condInit => exact ⟨hp, rfl⟩
  | readVersion => exact ⟨hp, rfl⟩
  | @writeVersion s v =>
    obtain ⟨hinv, rfl⟩ := hp
    show s.dataVersion + 1 = BitVec.ofNat 64 (s.updates + 1)
    rw [hinv.counted, BitVec.ofNat_add]
    rfl
  | readArg => exact ⟨hp, rfl⟩
  | writeText =>
    obtain ⟨hcount, rfl⟩ := hp
    exact ⟨hcount, fun _ => rfl⟩

/-- A user that finds a different version finds one that the creator has written. -/
theorem Inv.updates_ne_zero {s : Shmem} (h : Inv s) {x : Vars} (hx : Knows x s)
    (hne : x.lastVersion ≠ s.dataVersion) : s.updates ≠ 0 := by
  intro h0
  have hversion : s.dataVersion = 0 := by
    rw [h.counted, h0]
    rfl
  exact hne ((hx.unseen h0).trans hversion.symm)

theorem LocalOk.midUpdate {x : Vars} {v : Version} (h : LocalOk x v) (hne : x.lastVersion ≠ v) :
    MidUpdate { x with lastVersion := v } where
  increasing := h.increasing
  lt_last p hp := by
    have h₁ := h.le_last p hp
    have h₂ := h.last_le
    show p.1 < v
    bv_omega

theorem MidUpdate.localOk {x : Vars} {v : Version} (h : MidUpdate x) (hlast : x.lastVersion = v)
    (copy : List Char) :
    LocalOk { x with localDataCopy := copy, record := x.record ++ [(x.lastVersion, copy)] } v where
  increasing := by
    rw [List.map_append, List.pairwise_append]
    refine ⟨h.increasing, List.pairwise_singleton .., ?_⟩
    intro a ha b hb
    obtain ⟨p, hp, rfl⟩ := List.mem_map.1 ha
    rw [List.mem_singleton.1 hb]
    exact h.lt_last p hp
  le_last p hp := by
    rcases List.mem_append.1 hp with hp | hp
    · exact BitVec.le_of_lt (h.lt_last p hp)
    · rw [List.mem_singleton.1 hp]
      exact BitVec.le_refl ..
  last_le := by
    show x.lastVersion ≤ v
    rw [hlast]
    exact BitVec.le_refl ..

theorem Knows.recorded {x : Vars} {s : Shmem} (h : Knows x s) {copy : List Char}
    (hcopy : copy = updateText x.lastVersion) :
    Knows { x with localDataCopy := copy, record := x.record ++ [(x.lastVersion, copy)] } s where
  ready := h.ready
  texts p hp := by
    rcases List.mem_append.1 hp with hp | hp
    · exact h.texts p hp
    · rw [List.mem_singleton.1 hp, hcopy]
  unseen := h.unseen

theorem userPre_act {pc k : UserPc} {s : Shmem} (h : UserAct s pc k) (hp : userPre pc s) :
    userPre k s := by
  cases h with
  | loop hpc hk => exact (userPre_early hk).2 ((userPre_early hpc).1 hp)
  | ready hflag => exact ⟨⟨hp hflag, nofun, fun _ => rfl⟩, fun _ => .start _⟩
  | same hv => exact ⟨hp.1, hp.2.1, hp.2.2, hv⟩
  | changed hv => exact ⟨hp.1, hp.2.1, hp.2.2, hv⟩
  | readVersion =>
    obtain ⟨hx, hlocal, hinv, hne⟩ := hp
    have hupdates := hinv.updates_ne_zero hx hne
    exact ⟨⟨hx.ready, hx.texts, fun h0 => absurd h0 hupdates⟩, fun hw => (hlocal hw).midUpdate hne,
      hinv, rfl, hupdates⟩
  | @readText x =>
    obtain ⟨hx, hmid, hinv, hlast, hupdates⟩ := hp
    have hcopy : strlcpy maxTextLen s.text = updateText x.lastVersion := by
      rw [hinv.text hupdates, strlcpy_updateText, hlast]
    exact ⟨hx.recorded hcopy, fun hw => (hmid hw).localOk hlast _, hinv, hcopy⟩

/-! ## Interference -/

/-- A user does not interfere with anybody; what the creator does, the users' memories survive. -/
theorem CreatorAct.ready {pc k : CreatorPc} {s s' : Shmem} (h : CreatorAct pc s s' k)
    (hs : Ready s) : Ready s' := by
  cases h with
  | mutexInit => exact ⟨rfl, hs.2⟩
  | condInit => exact ⟨hs.1, rfl⟩
  | shmOpen | ftruncate | mmap | exit | setFlag | readVersion | writeVersion | readArg
  | writeText => exact hs

theorem CreatorAct.flagOk {pc k : CreatorPc} {s s' : Shmem} (h : CreatorAct pc s s' k)
    (hp : creatorPre pc s) (hs : FlagOk s) : FlagOk s' := by
  cases h with
  | setFlag => exact fun _ => hp
  | mutexInit => exact fun hflag => ⟨rfl, (hs hflag).2⟩
  | condInit => exact fun hflag => ⟨(hs hflag).1, rfl⟩
  | shmOpen | ftruncate | mmap | exit | readVersion | writeVersion | readArg | writeText =>
    exact hs

theorem CreatorAct.updates_le {pc k : CreatorPc} {s s' : Shmem} (h : CreatorAct pc s s' k) :
    s.updates ≤ s'.updates := by
  cases h with
  | writeVersion => exact Nat.le_succ _
  | shmOpen | ftruncate | mmap | mutexInit | condInit | exit | setFlag | readVersion | readArg
  | writeText => exact Nat.le_refl _

theorem CreatorAct.knows {pc k : CreatorPc} {s s' : Shmem} (h : CreatorAct pc s s' k) {x : Vars}
    (hx : Knows x s) : Knows x s' where
  ready := h.ready hx.ready
  texts := hx.texts
  unseen h0 := hx.unseen (Nat.eq_zero_of_le_zero (h0 ▸ h.updates_le))

theorem CreatorAct.version_le {pc k : CreatorPc} {s s' : Shmem} (h : CreatorAct pc s s' k)
    (hp : creatorPre pc s) (hw : s'.updates < 2 ^ 64) :
    s.updates < 2 ^ 64 ∧ s.dataVersion ≤ s'.dataVersion := by
  cases h with
  | @writeVersion s v =>
    obtain ⟨⟨hcount, -⟩, rfl⟩ := hp
    have hlt : s.updates < 2 ^ 64 := Nat.lt_of_succ_lt hw
    have hv : s.dataVersion.toNat = s.updates := by
      rw [hcount, BitVec.toNat_ofNat, Nat.mod_eq_of_lt hlt]
    refine ⟨hlt, ?_⟩
    show s.dataVersion ≤ s.dataVersion + 1
    simp only at hw
    bv_omega
  | shmOpen | ftruncate | mmap | mutexInit | condInit | exit | setFlag | readVersion | readArg
  | writeText => exact ⟨hw, BitVec.le_refl ..⟩

theorem LocalOk.mono {x : Vars} {v v' : Version} (h : LocalOk x v) (hv : v ≤ v') :
    LocalOk x v' :=
  { h with last_le := BitVec.le_trans h.last_le hv }

theorem CreatorAct.localOk {pc k : CreatorPc} {s s' : Shmem} (h : CreatorAct pc s s' k)
    (hp : creatorPre pc s) {x : Vars} (hx : NoWrap s (LocalOk x s.dataVersion)) :
    NoWrap s' (LocalOk x s'.dataVersion) := fun hw =>
  (hx (h.version_le hp hw).1).mono (h.version_le hp hw).2

theorem CreatorAct.outside {pc k : CreatorPc} {s s' : Shmem} (h : CreatorAct pc s s' k)
    (hout : pc.holds = false) :
    s'.dataVersion = s.dataVersion ∧ s'.text = s.text ∧ s'.updates = s.updates := by
  cases h with
  | shmOpen | ftruncate | mmap | mutexInit | condInit | exit | setFlag => exact ⟨rfl, rfl, rfl⟩
  | readVersion | writeVersion | readArg | writeText => cases hout

theorem Inv.frame {s s' : Shmem} (h : Inv s) (hs : s'.dataVersion = s.dataVersion ∧
    s'.text = s.text ∧ s'.updates = s.updates) : Inv s' := by
  obtain ⟨hv, ht, hu⟩ := hs
  exact ⟨by rw [Counted, hv, hu]; exact h.counted, by rw [hv, ht, hu]; exact h.text⟩

/-- A user outside its critical section survives any act of the creator. -/
theorem user_meets_outside {pc k : CreatorPc} {s s' : Shmem} (h : CreatorAct pc s s' k)
    (hp : creatorPre pc s) {t : Thread UserPc} (hout : t.inside UserPc.holds = false)
    (ht : t.Meets userPre userRest s) : t.Meets userPre userRest s' := by
  cases t with
  | run pc' =>
    cases pc' with
    | shmOpen | mmap | readFlag | stopped => exact h.flagOk hp ht
    | lock x => exact ⟨h.knows ht.1, h.localOk hp ht.2⟩
    | test | wait | readVersion | readText | unlock => cases hout
  | asleep q | woken q =>
    cases q with
    | test x => exact ⟨h.knows ht.1, h.localOk hp ht.2⟩
    | _ => trivial

/-- A user inside its critical section survives what the creator does outside. -/
theorem user_meets_inside {pc k : CreatorPc} {s s' : Shmem} (h : CreatorAct pc s s' k)
    (hpc : pc.holds = false) {pc' : UserPc} (hin : pc'.holds = true) (ht : userPre pc' s) :
    userPre pc' s' := by
  have hdata := h.outside hpc
  have hv := hdata.1
  have hu := hdata.2.2
  cases pc' with
  | shmOpen | mmap | readFlag | stopped | lock => cases hin
  | test x =>
    obtain ⟨hx, hlocal, hinv⟩ := ht
    refine ⟨h.knows hx, ?_, hinv.frame hdata⟩
    rw [NoWrap, hv, hu]
    exact hlocal
  | wait x | readVersion x =>
    obtain ⟨hx, hlocal, hinv, hlast⟩ := ht
    refine ⟨h.knows hx, ?_, hinv.frame hdata, by rw [hv]; exact hlast⟩
    rw [NoWrap, hv, hu]
    exact hlocal
  | readText x =>
    obtain ⟨hx, hmid, hinv, hlast, hupdates⟩ := ht
    refine ⟨h.knows hx, ?_, hinv.frame hdata, by rw [hv]; exact hlast, by rw [hu]; exact hupdates⟩
    rw [NoWrap, hu]
    exact hmid
  | unlock x =>
    obtain ⟨hx, hlocal, hinv, hcopy⟩ := ht
    refine ⟨h.knows hx, ?_, hinv.frame hdata, hcopy⟩
    rw [NoWrap, hv, hu]
    exact hlocal

theorem user_meets {pc k : CreatorPc} {s s' : Shmem} (h : CreatorAct pc s s' k)
    (hp : creatorPre pc s) {t : Thread UserPc}
    (hin : pc.holds = true → t.inside UserPc.holds = false) (ht : t.Meets userPre userRest s) :
    t.Meets userPre userRest s' := by
  cases htin : t.inside UserPc.holds with
  | false => exact user_meets_outside h hp htin ht
  | true =>
    have hpc : pc.holds = false := by
      by_contra hh
      rw [Bool.not_eq_false] at hh
      exact nomatch htin.symm.trans (hin hh)
    cases t with
    | run pc' => exact user_meets_inside h hpc htin ht
    | asleep | woken => cases htin

/-! ## The outline -/

/-- The proof outline. -/
def outline (υ : Type) : Outline (program υ) where
  inv := Inv
  pre
    | .creator => creatorPre
    | .user _ => userPre
  rest
    | .creator => fun _ _ => True
    | .user _ => userRest
  lock {i pc k s} hc hp hinv := by
    cases i with
    | creator => cases pc <;> cases hc; exact hinv
    | user => cases pc <;> cases hc; exact ⟨hp.1, hp.2, hinv⟩
  unlock {i pc k s} hc hp := by
    cases i with
    | creator => cases pc <;> cases hc; exact ⟨hp, trivial⟩
    | user => cases pc <;> cases hc; exact ⟨hp.2.2.1, hp.1, hp.2.1⟩
  wait {i pc k s} hc hp := by
    cases i with
    | creator => cases pc <;> cases hc
    | user => cases pc <;> cases hc; exact ⟨hp.2.2.1, hp.1, hp.2.1⟩
  relock {i pc k s} hc hp hinv := by
    cases i with
    | creator => cases pc <;> cases hc
    | user => cases pc <;> cases hc; exact ⟨hp.1, hp.2, hinv⟩
  notify {i pc k s} hc hp := by
    cases i with
    | creator => rcases hc with hc | hc <;> cases pc <;> cases hc; trivial
    | user => rcases hc with hc | hc <;> cases pc <;> cases hc
  act {i pc k s s' e f} hc hf hp := by
    cases i with
    | creator => exact creatorPre_act (creator_act hc hf) hp
    | user =>
      obtain ⟨rfl, hact⟩ := user_act hc hf
      exact userPre_act hact hp
  act_inv {i pc k s s' e f} hc hf hout _ hinv := by
    cases i with
    | creator => exact hinv.frame ((creator_act hc hf).outside hout)
    | user =>
      obtain ⟨rfl, -⟩ := user_act hc hf
      exact hinv
  act_other {i pc k s s' e f} hc hf hp {j t} hj hin ht := by
    cases i with
    | user =>
      obtain ⟨rfl, -⟩ := user_act hc hf
      exact ht
    | creator =>
      cases j with
      | creator => exact absurd rfl hj
      | user u => exact user_meets (creator_act hc hf) hp hin ht

theorem outline_start {υ : Type} (s : Shmem) (hs : s = start) :
    (outline υ).inv s ∧ ∀ i, (outline υ).pre i ((program υ).start i) s := by
  subst hs
  constructor
  · exact inv_start
  · intro i
    cases i with
    | creator => trivial
    | user =>
      intro h
      exact absurd rfl h

variable {υ : Type}

theorem user_meets_of_reachable [DecidableEq υ] {c : Config (program υ)} (h : Reachable c)
    (u : υ) : (userAt c u).Meets userPre userRest c.shared :=
  ((outline υ).sound outline_start h).at_ (.user u)

/-! ## Snapshots -/

/-- A user's variables, once it has the object. -/
def UserPc.vars : UserPc → Option Vars
  | .lock x | .test x | .wait x | .readVersion x | .readText x | .unlock x => some x
  | .shmOpen _ | .mmap _ | .readFlag _ | .stopped => none

/-- The control point of a thread, or the one it waits to get back to. -/
def pcOf {L : Type} : Thread L → L
  | .run pc | .asleep pc | .woken pc => pc

theorem pcOf_of_waits {i : υ} {k : UserPc} (h : ∃ pc, (program υ).code (.user i) pc = .wait k) :
    ∃ x, k = .test x := by
  obtain ⟨pc, hc⟩ := h
  cases pc <;> cases hc
  exact ⟨_, rfl⟩

/-- The recorded versions increase up to the current one, as long as it has not wrapped around. -/
def Advances (x : Vars) (s : Shmem) : Prop :=
  NoWrap s ((x.record.map Prod.fst).Pairwise (· < ·) ∧ ∀ p ∈ x.record, p.1 ≤ s.dataVersion)

theorem LocalOk.advances {x : Vars} {s : Shmem} (h : NoWrap s (LocalOk x s.dataVersion)) :
    Advances x s := fun hw =>
  ⟨(h hw).increasing, fun p hp => BitVec.le_trans ((h hw).le_last p hp) (h hw).last_le⟩

theorem MidUpdate.advances {x : Vars} {s : Shmem} (h : NoWrap s (MidUpdate x))
    (hlast : x.lastVersion = s.dataVersion) : Advances x s := fun hw =>
  ⟨(h hw).increasing, fun p hp => BitVec.le_of_lt (hlast ▸ (h hw).lt_last p hp)⟩

theorem remembers_of_pre {pc : UserPc} {s : Shmem} {x : Vars} (hp : userPre pc s)
    (hx : pc.vars = some x) : Knows x s ∧ Advances x s := by
  cases pc with
  | shmOpen | mmap | readFlag | stopped => cases hx
  | lock y => cases hx; exact ⟨hp.1, LocalOk.advances hp.2⟩
  | test y | wait y | readVersion y | unlock y =>
    cases hx
    exact ⟨hp.1, LocalOk.advances hp.2.1⟩
  | readText y =>
    cases hx
    exact ⟨hp.1, MidUpdate.advances hp.2.1 hp.2.2.2.1⟩

theorem remembers [DecidableEq υ] {c : Config (program υ)} (h : Reachable c) {u : υ}
    {x : Vars} (hx : (pcOf (userAt c u)).vars = some x) :
    Knows x c.shared ∧ Advances x c.shared := by
  have hmeets := user_meets_of_reachable h u
  cases ht : userAt c u with
  | run pc =>
    rw [ht] at hmeets hx
    exact remembers_of_pre hmeets hx
  | asleep k =>
    obtain ⟨y, rfl⟩ := pcOf_of_waits (h.owned.waits (.user u) k (.inl ht))
    rw [ht] at hmeets hx
    cases hx
    exact ⟨hmeets.1, LocalOk.advances hmeets.2⟩
  | woken k =>
    obtain ⟨y, rfl⟩ := pcOf_of_waits (h.owned.waits (.user u) k (.inr ht))
    rw [ht] at hmeets hx
    cases hx
    exact ⟨hmeets.1, LocalOk.advances hmeets.2⟩

/-- **Snapshots.** The text of a version is never cut off. A user that has got as far as the mutex
finds it initialised; each text it has recorded is that of its version, and so is its copy when it
has just finished an update; and before the version wraps around, the recorded versions strictly
increase, up to the current one. -/
theorem snapshots [DecidableEq υ] (c : Config (program υ)) (h : Reachable c) :
    (∀ v : Version, strlcpy maxTextLen (snprintf maxTextLen (updateText v)) = updateText v) ∧
    ∀ u x, (pcOf (userAt c u)).vars = some x →
      (c.shared.mutexInit = true ∧ c.shared.condInit = true) ∧
      (∀ p ∈ x.record, p.2 = updateText p.1) ∧
      (userAt c u = .run (.unlock x) → x.localDataCopy = updateText x.lastVersion) ∧
      (c.shared.updates < 2 ^ 64 → (x.record.map Prod.fst).Pairwise (· < ·) ∧
        ∀ p ∈ x.record, p.1 ≤ c.shared.dataVersion) := by
  constructor
  · intro v
    simp
  · intro u x hx
    obtain ⟨hknows, hadvances⟩ := remembers h hx
    refine ⟨hknows.ready, hknows.texts, ?_, hadvances⟩
    intro hu
    have hmeets := user_meets_of_reachable h u
    rw [hu] at hmeets
    exact hmeets.2.2.2

/-- The creator sets up and updates once, and a user copies the update. -/
theorem snapshots_first_update : ∃ c : Config (program (Fin 1)), Reachable c ∧ ∃ x : Vars,
    userAt c 0 = .run (.unlock x) ∧ x.record = [(1, updateText 1)] ∧
    x.localDataCopy = updateText 1 := by
  obtain ⟨c, hc, hp⟩ := exists_reach (P := program (Fin 1)) (I := (· = start)) rfl
    (l := List.replicate 13 (.creator, .ok) ++ List.replicate 7 (.user 0, .ok))
    (p := fun c => userAt c 0 ==
      .run (.unlock ⟨1, updateText 1, [(1, updateText 1)]⟩) && c.shared.updates == 1) (by decide)
  simp only [Bool.and_eq_true, beq_iff_eq] at hp
  refine ⟨c, hc, _, hp.1, rfl, ?_⟩
  exact ((snapshots c hc).2 0 _ (by rw [hp.1]; rfl)).2.2.1 hp.1

end QnxTutorial.ShmemPosix
