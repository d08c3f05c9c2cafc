import Mathlib.Logic.Function.Basic
import Mathlib.Tactic.SplitIfs

/-!
# Robust mutexes

Processes share a mutex, and may die while they hold it. A robust mutex is then passed on: the next
process that locks it is told that the owner has died, and has to make it consistent again before
it unlocks it. A mutex that is not robust stays locked.

**Theorem (`Inv.step`).** If everybody makes the mutex consistent before unlocking it, then only
processes that live own a robust mutex, and it never becomes unusable.

**Theorem (`Inv.lock_of_nobody_inside`).** So a robust mutex that nobody is using can be locked,
whoever has died.
-/

namespace RobustMutex

/-- What the calls return. -/
inductive Status where
  | eok
  | eownerdead
  | enotrecoverable
  | einval
  | eperm
  deriving DecidableEq

/-- A mutex is `orphaned` when its owner has died, `inconsistent` when another one has been told so
and owns it, and not recoverable when it was unlocked then. -/
inductive State (ι : Type) where
  | free
  | held (i : ι)
  | orphaned
  | inconsistent (i : ι)
  | notRecoverable
  deriving DecidableEq

structure Mutex (ι : Type) where
  robust : Bool
  state : State ι
  deriving DecidableEq

variable {ι : Type}

/-- `pthread_mutex_lock`, which blocks while somebody owns the mutex. -/
def Mutex.lock (m : Mutex ι) (i : ι) : Option (Mutex ι × Status) :=
  match m.state with
  | .free => some ({ m with state := .held i }, .eok)
  | .orphaned => some ({ m with state := .inconsistent i }, .eownerdead)
  | .notRecoverable => some (m, .enotrecoverable)
  | .held _ | .inconsistent _ => none

theorem Mutex.lock_robust {m m' : Mutex ι} {i : ι} {status : Status}
    (h : m.lock i = some (m', status)) : m'.robust = m.robust := by
  unfold lock at h
  cases hstate : m.state <;> simp only [hstate] at h <;> cases h <;> rfl

section Calls

variable [DecidableEq ι]

/-- `pthread_mutex_consistent`. -/
def Mutex.consistent (m : Mutex ι) (i : ι) : Mutex ι × Status :=
  if m.state = .inconsistent i then ({ m with state := .held i }, .eok) else (m, .einval)

/-- `pthread_mutex_unlock`. -/
def Mutex.unlock (m : Mutex ι) (i : ι) : Mutex ι × Status :=
  if m.state = .held i then ({ m with state := .free }, .eok)
  else if m.state = .inconsistent i then ({ m with state := .notRecoverable }, .eok)
  else (m, .eperm)

/-- `i` terminates. -/
def Mutex.die (m : Mutex ι) (i : ι) : Mutex ι :=
  if m.robust = true ∧ (m.state = .held i ∨ m.state = .inconsistent i) then
    { m with state := .orphaned }
  else m

@[simp] theorem Mutex.die_robust (m : Mutex ι) (i : ι) : (m.die i).robust = m.robust := by
  unfold die
  split_ifs <;> rfl

@[simp] theorem Mutex.consistent_robust (m : Mutex ι) (i : ι) :
    (m.consistent i).1.robust = m.robust := by
  unfold consistent
  split_ifs <;> rfl

@[simp] theorem Mutex.unlock_robust (m : Mutex ι) (i : ι) :
    (m.unlock i).1.robust = m.robust := by
  unfold unlock
  split_ifs <;> rfl

end Calls

/-! ## Processes that use the mutex as they should -/

/-- Who is `inside` owns the mutex, and who is `recovering` has to make it consistent as well. -/
inductive User where
  | out
  | inside
  | recovering
  | dead
  deriving DecidableEq

structure Config (ι : Type) where
  mutex : Mutex ι
  user : ι → User

section Steps

variable [DecidableEq ι]

def Config.set (c : Config ι) (i : ι) (m : Mutex ι) (u : User) : Config ι :=
  ⟨m, Function.update c.user i u⟩

@[simp] theorem Config.set_user_self (c : Config ι) (i : ι) (m : Mutex ι) (u : User) :
    (c.set i m u).user i = u :=
  Function.update_self ..

theorem Config.set_user_ne {i j : ι} (c : Config ι) (m : Mutex ι) (u : User) (hj : j ≠ i) :
    (c.set i m u).user j = c.user j :=
  Function.update_of_ne hj ..

@[simp] theorem Config.set_set (c : Config ι) (i : ι) (m m' : Mutex ι) (u u' : User) :
    (c.set i m u).set i m' u' = c.set i m' u' := by
  simp only [Config.set, Function.update_idem]

inductive Step (c : Config ι) : Config ι → Prop
  | lock {i : ι} {m : Mutex ι} : c.user i = .out → c.mutex.lock i = some (m, .eok) →
      Step c (c.set i m .inside)
  | lockDead {i : ι} {m : Mutex ι} : c.user i = .out → c.mutex.lock i = some (m, .eownerdead) →
      Step c (c.set i m .recovering)
  | consistent {i : ι} {m : Mutex ι} : c.user i = .recovering →
      c.mutex.consistent i = (m, .eok) → Step c (c.set i m .inside)
  | unlock {i : ι} {m : Mutex ι} : c.user i = .inside → c.mutex.unlock i = (m, .eok) →
      Step c (c.set i m .out)
  | die (i : ι) : Step c (c.set i (c.mutex.die i) .dead)

end Steps

/-- The mutex and the users agree about who owns it. -/
structure Inv (c : Config ι) : Prop where
  inside : ∀ i, c.user i = .inside → c.mutex.state = .held i
  recovering : ∀ i, c.user i = .recovering → c.mutex.state = .inconsistent i
  held : ∀ i, c.mutex.state = .held i → c.mutex.robust = true → c.user i = .inside
  inconsistent : ∀ i, c.mutex.state = .inconsistent i → c.mutex.robust = true →
    c.user i = .recovering
  usable : c.mutex.state ≠ .notRecoverable

variable {c d : Config ι}

/-- Whoever is let in finds nobody else inside. -/
theorem Inv.enter (h : Inv c) {i : ι} {m : Mutex ι} {status : Status}
    (hlock : c.mutex.lock i = some (m, status)) :
    (∀ j, c.user j ≠ .inside ∧ c.user j ≠ .recovering) ∧
    (m.state = .held i ∧ status = .eok ∨ m.state = .inconsistent i ∧ status = .eownerdead) := by
  unfold Mutex.lock at hlock
  cases hstate : c.mutex.state with
  | free | orphaned =>
    simp only [hstate, Option.some.injEq, Prod.mk.injEq] at hlock
    obtain ⟨rfl, rfl⟩ := hlock
    refine ⟨fun j => ⟨fun hj => ?_, fun hj => ?_⟩, by simp⟩
    · exact nomatch hstate.symm.trans (h.inside j hj)
    · exact nomatch hstate.symm.trans (h.recovering j hj)
  | notRecoverable => exact (h.usable hstate).elim
  | held | inconsistent =>
    simp only [hstate] at hlock
    cases hlock

/-- **A robust mutex that nobody is using can be locked.** -/
theorem Inv.lock_of_nobody_inside (h : Inv c) (hrobust : c.mutex.robust = true)
    (hnobody : ∀ j, c.user j ≠ .inside ∧ c.user j ≠ .recovering) (i : ι) :
    ∃ m status, c.mutex.lock i = some (m, status) ∧ (status = .eok ∨ status = .eownerdead) := by
  unfold Mutex.lock
  cases hstate : c.mutex.state with
  | free => exact ⟨_, _, rfl, .inl rfl⟩
  | orphaned => exact ⟨_, _, rfl, .inr rfl⟩
  | notRecoverable => exact (h.usable hstate).elim
  | held j => exact ((hnobody j).1 (h.held j hstate hrobust)).elim
  | inconsistent j => exact ((hnobody j).2 (h.inconsistent j hstate hrobust)).elim

variable [DecidableEq ι]

theorem inv_of_owner {i : ι} {m : Mutex ι} {u : User}
    (hothers : ∀ j, j ≠ i → c.user j ≠ .inside ∧ c.user j ≠ .recovering)
    (hm : m.state = .held i ∧ u = .inside ∨ m.state = .inconsistent i ∧ u = .recovering) :
    Inv (c.set i m u) := by
  have hstate : (c.set i m u).mutex.state = m.state := rfl
  constructor
  · intro j hj
    by_cases hji : j = i
    · subst hji
      rw [Config.set_user_self] at hj
      rcases hm with ⟨hm, -⟩ | ⟨-, hu⟩
      · exact hm
      · exact nomatch hj.symm.trans hu
    · rw [Config.set_user_ne c m u hji] at hj
      exact ((hothers j hji).1 hj).elim
  · intro j hj
    by_cases hji : j = i
    · subst hji
      rw [Config.set_user_self] at hj
      rcases hm with ⟨-, hu⟩ | ⟨hm, -⟩
      · exact nomatch hj.symm.trans hu
      · exact hm
    · rw [Config.set_user_ne c m u hji] at hj
      exact ((hothers j hji).2 hj).elim
  · intro j hj _
    rw [hstate] at hj
    rcases hm with ⟨hm, rfl⟩ | ⟨hm, -⟩
    · cases hm.symm.trans hj
      exact Config.set_user_self ..
    · exact nomatch hm.symm.trans hj
  · intro j hj _
    rw [hstate] at hj
    rcases hm with ⟨hm, -⟩ | ⟨hm, rfl⟩
    · exact nomatch hm.symm.trans hj
    · cases hm.symm.trans hj
      exact Config.set_user_self ..
  · rw [hstate]
    rcases hm with ⟨hm, -⟩ | ⟨hm, -⟩ <;> rw [hm] <;> nofun

theorem inv_of_nobody {i : ι} {m : Mutex ι} {u : User}
    (hothers : ∀ j, j ≠ i → c.user j ≠ .inside ∧ c.user j ≠ .recovering)
    (hu : u ≠ .inside ∧ u ≠ .recovering) (hm : m.state = .free ∨ m.state = .orphaned) :
    Inv (c.set i m u) := by
  have hnobody : ∀ j, (c.set i m u).user j ≠ .inside ∧ (c.set i m u).user j ≠ .recovering := by
    intro j
    by_cases hji : j = i
    · subst hji
      rw [Config.set_user_self]
      exact hu
    · rw [Config.set_user_ne c m u hji]
      exact hothers j hji
  have hstate : (c.set i m u).mutex.state = m.state := rfl
  refine ⟨fun j hj => ((hnobody j).1 hj).elim, fun j hj => ((hnobody j).2 hj).elim, ?_, ?_, ?_⟩
  · intro j hj
    rw [hstate] at hj
    rcases hm with hm | hm <;> exact nomatch hm.symm.trans hj
  · intro j hj
    rw [hstate] at hj
    rcases hm with hm | hm <;> exact nomatch hm.symm.trans hj
  · rw [hstate]
    rcases hm with hm | hm <;> rw [hm] <;> nofun

omit [DecidableEq ι] in
theorem Inv.others (h : Inv c) {i : ι} (hi : c.user i = .inside ∨ c.user i = .recovering) (j : ι)
    (hj : j ≠ i) : c.user j ≠ .inside ∧ c.user j ≠ .recovering := by
  rcases hi with hi | hi
  · have hheld := h.inside i hi
    constructor
    · intro hj'
      cases hheld.symm.trans (h.inside j hj')
      exact hj rfl
    · intro hj'
      exact nomatch hheld.symm.trans (h.recovering j hj')
  · have hheld := h.recovering i hi
    constructor
    · intro hj'
      exact nomatch hheld.symm.trans (h.inside j hj')
    · intro hj'
      cases hheld.symm.trans (h.recovering j hj')
      exact hj rfl

/-- Who dies outside leaves the mutex as it is, and a robust mutex has one owner less. -/
theorem Inv.die (h : Inv c) (i : ι) : Inv (c.set i (c.mutex.die i) .dead) := by
  by_cases hdie : c.mutex.robust = true ∧
      (c.mutex.state = .held i ∨ c.mutex.state = .inconsistent i)
  · rw [Mutex.die, if_pos hdie]
    obtain ⟨hrobust, hstate⟩ := hdie
    have hi : c.user i = .inside ∨ c.user i = .recovering :=
      hstate.imp (h.held i · hrobust) (h.inconsistent i · hrobust)
    exact inv_of_nobody (h.others hi) ⟨nofun, nofun⟩ (.inr rfl)
  · rw [Mutex.die, if_neg hdie]
    constructor
    · intro j hj
      by_cases hji : j = i
      · subst hji
        rw [Config.set_user_self] at hj
        cases hj
      · rw [Config.set_user_ne _ _ _ hji] at hj
        exact h.inside j hj
    · intro j hj
      by_cases hji : j = i
      · subst hji
        rw [Config.set_user_self] at hj
        cases hj
      · rw [Config.set_user_ne _ _ _ hji] at hj
        exact h.recovering j hj
    · intro j hj hrobust
      have hji : j ≠ i := by
        intro heq
        subst heq
        exact hdie ⟨hrobust, .inl hj⟩
      rw [Config.set_user_ne _ _ _ hji]
      exact h.held j hj hrobust
    · intro j hj hrobust
      have hji : j ≠ i := by
        intro heq
        subst heq
        exact hdie ⟨hrobust, .inr hj⟩
      rw [Config.set_user_ne _ _ _ hji]
      exact h.inconsistent j hj hrobust
    · exact h.usable

/-- **Every step keeps the invariant.** -/
theorem Inv.step (h : Inv c) (hst : Step c d) : Inv d := by
  cases hst with
  | lock hi hlock =>
    obtain ⟨hnobody, hm⟩ := h.enter hlock
    refine inv_of_owner (fun j _ => hnobody j) (.inl ⟨?_, rfl⟩)
    exact (hm.resolve_right fun hm => nomatch hm.2).1
  | lockDead hi hlock =>
    obtain ⟨hnobody, hm⟩ := h.enter hlock
    refine inv_of_owner (fun j _ => hnobody j) (.inr ⟨?_, rfl⟩)
    exact (hm.resolve_left fun hm => nomatch hm.2).1
  | @consistent i m hi hconsistent =>
    rw [Mutex.consistent, if_pos (h.recovering i hi)] at hconsistent
    cases hconsistent
    exact inv_of_owner (h.others (.inr hi)) (.inl ⟨rfl, rfl⟩)
  | @unlock i m hi hunlock =>
    rw [Mutex.unlock, if_pos (h.inside i hi)] at hunlock
    cases hunlock
    exact inv_of_nobody (h.others (.inl hi)) ⟨nofun, nofun⟩ (.inl rfl)
  | die i => exact h.die i

end RobustMutex
