import QnxTutorial.ShmemPosix.Snapshots

/-!
# No user sleeps through an update

The broadcast is sent outside the mutex and is lost on a user that does not wait yet. A user
tests the version under the mutex and goes to sleep in the same step that gives the mutex back,
so it falls asleep on the current version; and the creator owes a broadcast from the write of a
new version until it sends one.

**Theorem (`no_update_lost`).** If a user sleeps on an old version while the mutex is free, the
creator stands between its unlock and its broadcast.
-/

namespace QnxTutorial.ShmemPosix

open Monitor

/-- The creator has written a version and not yet broadcast. -/
def CreatorPc.Owes : CreatorPc → Prop
  | .readArg | .writeText _ | .unlock | .broadcast => True
  | .shmOpen | .ftruncate | .mmap | .mutexInit | .condInit | .setFlag | .lock | .readVersion
  | .writeVersion _ | .exited => False

/-- The version only changes in the step after which a broadcast is owed. -/
theorem CreatorAct.dataVersion {pc k : CreatorPc} {s s' : Shmem} (h : CreatorAct pc s s' k) :
    s'.dataVersion = s.dataVersion ∨ k.Owes := by
  cases h with
  | writeVersion => exact .inr trivial
  | shmOpen | ftruncate | mmap | mutexInit | condInit | exit | setFlag | readVersion | readArg
  | writeText => exact .inl rfl

theorem creator_keep {pc k : CreatorPc} (hk : (creator pc).Leads k) (ho : pc.Owes) : k.Owes := by
  cases pc with
  | readArg | writeText =>
    obtain ⟨e, s, s', hf⟩ := hk
    cases hf
    trivial
  | unlock => cases hk; trivial
  | broadcast => cases hk
  | shmOpen | ftruncate | mmap | mutexInit | condInit | setFlag | lock | readVersion
  | writeVersion | exited => cases ho

/-- A user in its wait loop is up to date. -/
def UserPc.UpToDate : UserPc → Shmem → Prop
  | .test x, s => x.lastVersion = s.dataVersion
  | _, _ => True

/-- The wake-up argument: a user sleeps on the current version. -/
def wakeup (υ : Type) : Wakeup (outline υ) where
  idle
    | .creator => fun _ _ => True
    | .user _ => UserPc.UpToDate
  owes
    | .creator => CreatorPc.Owes
    | .user _ => fun _ => False
  sleep {i pc k s} hc hp := by
    cases i with
    | creator => cases pc <;> cases hc
    | user => cases pc <;> cases hc; exact ⟨hp.2.2.2, id⟩
  act {j pc k s s' e f} hc hf hp {i q} hij _ hidle := by
    cases j with
    | user =>
      obtain ⟨rfl, -⟩ := user_act hc hf
      exact .inl hidle
    | creator =>
      cases i with
      | creator => exact absurd rfl hij
      | user u =>
        apply (creator_act hc hf).dataVersion.imp_left
        intro hv
        change UserPc at q
        cases q with
        | test x => exact Eq.trans hidle hv.symm
        | _ => trivial
  keep {j pc k} hk ho := by
    cases j with
    | creator => exact creator_keep hk ho
    | user => exact ho
  only {j pc k} hc _ := by
    cases j with
    | creator => cases pc <;> cases hc
    | user => cases pc <;> cases hc

variable {υ : Type} [DecidableEq υ]

/-- **No update notification is lost.** -/
theorem no_update_lost (c : Config (program υ)) (h : Reachable c) (u : υ) (k : UserPc) (x : Vars)
    (hs : userAt c u = .asleep k) (hx : k.vars = some x) (hm : c.mutex = none)
    (hold : x.lastVersion ≠ c.shared.dataVersion) : creatorAt c = .run .broadcast := by
  -- The only wait is the one in the wait loop.
  obtain ⟨y, rfl⟩ := pcOf_of_waits (h.owned.waits (.user u) k (.inl hs))
  cases hx
  rcases (wakeup υ).sound outline_start h (.user u) _ hs with hidle | ⟨j, pc, hj, ho⟩
  · exact absurd hidle hold
  · cases j with
    | user => exact ho.elim
    | creator =>
      have hout := h.owned.outside hm hj
      change CreatorPc at pc
      cases pc with
      | broadcast => exact hj
      | readArg | writeText | unlock => cases hout
      | shmOpen | ftruncate | mmap | mutexInit | condInit | setFlag | lock | readVersion
      | writeVersion | exited => cases ho

theorem no_update_lost_first : ∃ c : Config (program (Fin 1)), Reachable c ∧
    userAt c 0 = .asleep (.test .start) ∧ c.shared.dataVersion = 1 ∧
    creatorAt c = .run .broadcast := by
  obtain ⟨c, hc, hp⟩ := exists_reach (P := program (Fin 1)) (I := (· = start)) rfl
    (l := List.replicate 6 (.creator, .ok) ++ List.replicate 6 (.user 0, .ok) ++
      List.replicate 6 (.creator, .ok))
    (p := fun c => userAt c 0 == .asleep (.test .start) && c.mutex == none &&
      c.shared.dataVersion == 1) (by decide)
  simp only [Bool.and_eq_true, beq_iff_eq] at hp
  obtain ⟨⟨hs, hm⟩, hv⟩ := hp
  exact ⟨c, hc, hs, hv, no_update_lost c hc 0 _ .start hs rfl hm (by rw [hv]; decide)⟩

end QnxTutorial.ShmemPosix
