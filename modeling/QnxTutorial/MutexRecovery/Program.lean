import QnxTutorial.Machine
import QnxTutorial.RobustMutex

/-!
# The processes of `shmem_mutex_recovery.c`

The parent sets a mutex up in shared memory and forks. The child locks the mutex and exits with it.
The parent waits for the child, locks the mutex and recovers it.

Any call may fail, and the child may be killed. The results of `pthread_mutexattr_setrobust` and
`pthread_mutexattr_setpshared` are not looked at: whether the mutex is robust is part of the state,
and that it is shared is taken for granted.
-/

namespace QnxTutorial.MutexRecovery

open RobustMutex

inductive Process where
  | parent
  | child
  deriving DecidableEq

inductive Exit where
  | success
  | failure
  deriving DecidableEq

/-- The calls before `fork` that are checked. -/
inductive Setup where
  | shmOpen
  | ftruncate
  | mmap
  | mutexInit
  deriving DecidableEq

/-- Control points of the parent, named after the next call. -/
inductive ParentPc where
  | setup (call : Setup)
  | fork
  | waitpid
  | lock
  | consistent
  | unlock
  | exited (status : Exit)
  deriving DecidableEq

/-- Control points of the child. It has the mutex at `printf` and at `exit`. -/
inductive ChildPc where
  | notForked
  | lock
  | printf
  | exit
  | exited (status : Exit)
  | killed
  deriving DecidableEq

/-- What goes to stdout. -/
inductive Line where
  | childExiting
  | parentRecovered
  deriving DecidableEq

structure System where
  parent : ParentPc
  child : ChildPc
  mutex : Mutex Process
  output : List Line
  deriving DecidableEq

/-- The mutex is there from the start, as `pthread_mutex_init` will leave it. -/
def start (robust : Bool) : System := ⟨.setup .shmOpen, .notForked, ⟨robust, .free⟩, []⟩

/-- The call after a call of the setup. -/
def Setup.next : Setup → ParentPc
  | .shmOpen => .setup .ftruncate
  | .ftruncate => .setup .mmap
  | .mmap => .setup .mutexInit
  | .mutexInit => .fork

def exitParent (status : Exit) (s : System) : System :=
  { s with parent := .exited status, mutex := s.mutex.die .parent }

def exitChild (status : Exit) (s : System) : System :=
  { s with child := .exited status, mutex := s.mutex.die .child }

/-- A step of the parent, unless it is blocked or has exited. `fails` says that the next call fails
for a reason of its own. -/
def parent (fails : Bool) (s : System) : Option System :=
  match s.parent with
  | .setup call => some (if fails then exitParent .failure s else { s with parent := call.next })
  | .fork => some <| if fails then exitParent .failure s
      else { s with parent := .waitpid, child := .lock }
  | .waitpid =>
    if fails then some (exitParent .failure s)
    else match s.child with
      | .exited .success => some { s with parent := .lock }
      | .exited .failure | .killed => some (exitParent .success s)
      | .notForked | .lock | .printf | .exit => none
  | .lock =>
    if fails then some (exitParent .success s)
    else (s.mutex.lock .parent).map fun (mutex, ret) =>
      if ret = .eownerdead then { s with parent := .consistent, mutex := mutex }
      else exitParent .success { s with mutex := mutex }
  | .consistent =>
    let (mutex, ret) := s.mutex.consistent .parent
    some <| if fails ∨ ret ≠ .eok then exitParent .failure s
      else { s with parent := .unlock, mutex := mutex, output := s.output ++ [.parentRecovered] }
  | .unlock =>
    let (mutex, ret) := s.mutex.unlock .parent
    some <| if fails ∨ ret ≠ .eok then exitParent .failure s
      else exitParent .success { s with mutex := mutex }
  | .exited _ => none

/-- A step of the child. -/
def child (fails : Bool) (s : System) : Option System :=
  match s.child with
  | .lock =>
    if fails then some (exitChild .failure s)
    else (s.mutex.lock .child).map fun (mutex, ret) =>
      if ret ≠ .eok then exitChild .failure { s with mutex := mutex }
      else { s with child := .printf, mutex := mutex }
  | .printf => some { s with child := .exit, output := s.output ++ [.childExiting] }
  | .exit => some (exitChild .success s)
  | .notForked | .exited _ | .killed => none

/-- A signal ends the child. -/
def kill (s : System) : Option System :=
  match s.child with
  | .lock | .printf | .exit => some { s with child := .killed, mutex := s.mutex.die .child }
  | .notForked | .exited _ | .killed => none

inductive Event where
  | parent (fails : Bool)
  | child (fails : Bool)
  | kill
  deriving DecidableEq

def step (s : System) : Event → Option System
  | .parent fails => parent fails s
  | .child fails => child fails s
  | .kill => kill s

/-- The processes. Setting the robust attribute may have failed. -/
def processes : Machine System Event where
  init s := ∃ robust, s = start robust
  allowed s e := (step s e).isSome
  next s e := (step s e).getD s

/-! ## What a step does -/

/-- The steps of the parent. -/
inductive ParentAct (s : System) : System → Prop
  | setup {call : Setup} : s.parent = .setup call → ParentAct s { s with parent := call.next }
  | fork : s.parent = .fork → ParentAct s { s with parent := .waitpid, child := .lock }
  | childDied : s.parent = .waitpid → s.child = .exited .success →
      ParentAct s { s with parent := .lock }
  | told {mutex : Mutex Process} : s.parent = .lock →
      s.mutex.lock .parent = some (mutex, .eownerdead) →
      ParentAct s { s with parent := .consistent, mutex := mutex }
  | locked {mutex : Mutex Process} {ret : Status} : s.parent = .lock → ret ≠ .eownerdead →
      s.mutex.lock .parent = some (mutex, ret) →
      ParentAct s (exitParent .success { s with mutex := mutex })
  | consistent {mutex : Mutex Process} : s.parent = .consistent →
      s.mutex.consistent .parent = (mutex, .eok) → ParentAct s
        { s with parent := .unlock, mutex := mutex, output := s.output ++ [.parentRecovered] }
  | unlock {mutex : Mutex Process} : s.parent = .unlock →
      s.mutex.unlock .parent = (mutex, .eok) →
      ParentAct s (exitParent .success { s with mutex := mutex })
  | fails : s.parent ≠ .lock → (∀ status, s.parent ≠ .exited status) →
      ParentAct s (exitParent .failure s)
  | leaves : s.parent = .waitpid ∧ (s.child = .exited .failure ∨ s.child = .killed) ∨
      s.parent = .lock → ParentAct s (exitParent .success s)

/-- The steps of the child, and its end. -/
inductive ChildAct (s : System) : System → Prop
  | fails : s.child = .lock → ChildAct s (exitChild .failure s)
  | refused {mutex : Mutex Process} {ret : Status} : s.child = .lock → ret ≠ .eok →
      s.mutex.lock .child = some (mutex, ret) →
      ChildAct s (exitChild .failure { s with mutex := mutex })
  | lock {mutex : Mutex Process} : s.child = .lock → s.mutex.lock .child = some (mutex, .eok) →
      ChildAct s { s with child := .printf, mutex := mutex }
  | prints : s.child = .printf →
      ChildAct s { s with child := .exit, output := s.output ++ [.childExiting] }
  | exits : s.child = .exit → ChildAct s (exitChild .success s)
  | killed : s.child = .lock ∨ s.child = .printf ∨ s.child = .exit →
      ChildAct s { s with child := .killed, mutex := s.mutex.die .child }

theorem parent_act {fails : Bool} {s s' : System} (h : parent fails s = some s') :
    ParentAct s s' := by
  unfold parent at h
  cases hp : s.parent with
  | setup call =>
    simp only [hp, Option.some.injEq] at h
    subst h
    split_ifs
    · exact .fails (by simp [hp]) (by simp [hp])
    · exact .setup hp
  | fork =>
    simp only [hp, Option.some.injEq] at h
    subst h
    split_ifs
    · exact .fails (by simp [hp]) (by simp [hp])
    · exact .fork hp
  | waitpid =>
    simp only [hp] at h
    split_ifs at h
    · cases h
      exact .fails (by simp [hp]) (by simp [hp])
    · cases hc : s.child with
      | exited status =>
        simp only [hc] at h
        cases status with
        | success =>
          cases h
          have hact := ParentAct.childDied hp hc
          rwa [hc] at hact
        | failure =>
          cases h
          exact .leaves (.inl ⟨hp, .inl hc⟩)
      | killed =>
        simp only [hc, Option.some.injEq] at h
        subst h
        exact .leaves (.inl ⟨hp, .inr hc⟩)
      | notForked | lock | printf | exit => simp [hc] at h
  | lock =>
    simp only [hp] at h
    split_ifs at h
    · cases h
      exact .leaves (.inr hp)
    · obtain ⟨⟨mutex, ret⟩, hlock, rfl⟩ := Option.map_eq_some_iff.1 h
      by_cases hret : ret = .eownerdead
      · subst hret
        exact .told hp hlock
      · simp only [if_neg hret]
        exact .locked hp hret hlock
  | consistent =>
    simp only [hp, Option.some.injEq] at h
    subst h
    split_ifs with hfails
    · exact .fails (by simp [hp]) (by simp [hp])
    · obtain ⟨-, hret⟩ := not_or.1 hfails
      exact .consistent hp (Prod.ext rfl (not_not.1 hret))
  | unlock =>
    simp only [hp, Option.some.injEq] at h
    subst h
    split_ifs with hfails
    · exact .fails (by simp [hp]) (by simp [hp])
    · obtain ⟨-, hret⟩ := not_or.1 hfails
      exact .unlock hp (Prod.ext rfl (not_not.1 hret))
  | exited status => simp [hp] at h

theorem child_act {fails : Bool} {s s' : System} (h : child fails s = some s') :
    ChildAct s s' := by
  unfold child at h
  cases hc : s.child with
  | lock =>
    simp only [hc] at h
    split_ifs at h
    · cases h
      exact .fails hc
    · obtain ⟨⟨mutex, ret⟩, hlock, rfl⟩ := Option.map_eq_some_iff.1 h
      by_cases hret : ret = .eok
      · subst hret
        exact .lock hc hlock
      · simp only [if_pos (show ret ≠ .eok from hret)]
        exact .refused hc hret hlock
  | printf =>
    simp only [hc, Option.some.injEq] at h
    subst h
    exact .prints hc
  | exit =>
    simp only [hc, Option.some.injEq] at h
    subst h
    exact .exits hc
  | notForked | exited | killed => simp [hc] at h

theorem kill_act {s s' : System} (h : kill s = some s') : ChildAct s s' := by
  unfold kill at h
  cases hc : s.child with
  | lock | printf | exit =>
    simp only [hc, Option.some.injEq] at h
    subst h
    exact .killed (by simp [hc])
  | notForked | exited | killed => simp [hc] at h

/-! ## The processes as users of the mutex -/

/-- Where the parent is with the mutex. -/
def ParentPc.user : ParentPc → User
  | .setup _ | .fork | .waitpid | .lock => .out
  | .consistent => .recovering
  | .unlock => .inside
  | .exited _ => .dead

def ChildPc.user : ChildPc → User
  | .notForked | .lock => .out
  | .printf | .exit => .inside
  | .exited _ | .killed => .dead

def System.users (s : System) : Process → User
  | .parent => s.parent.user
  | .child => s.child.user

/-- The processes and the mutex. -/
def System.seen (s : System) : Config Process := ⟨s.mutex, s.users⟩

theorem seen_congr {s s' : System} (hmutex : s'.mutex = s.mutex)
    (hparent : s'.parent.user = s.parent.user) (hchild : s'.child.user = s.child.user) :
    s'.seen = s.seen := by
  simp only [System.seen, Config.mk.injEq]
  refine ⟨hmutex, ?_⟩
  funext p
  cases p with
  | parent => exact hparent
  | child => exact hchild

theorem child_ne_parent : Process.child ≠ .parent := nofun

theorem seen_parent {s s' : System} {u : User} {mutex : Mutex Process} (hu : s'.parent.user = u)
    (hmutex : s'.mutex = mutex) (hchild : s'.child = s.child) :
    s'.seen = s.seen.set .parent mutex u := by
  simp only [System.seen, Config.set, Config.mk.injEq]
  refine ⟨hmutex, ?_⟩
  funext p
  cases p with
  | parent => rw [Function.update_self]; exact hu
  | child =>
    rw [Function.update_of_ne child_ne_parent]
    exact congrArg ChildPc.user hchild

theorem seen_child {s s' : System} {u : User} {mutex : Mutex Process} (hu : s'.child.user = u)
    (hmutex : s'.mutex = mutex) (hparent : s'.parent = s.parent) :
    s'.seen = s.seen.set .child mutex u := by
  simp only [System.seen, Config.set, Config.mk.injEq]
  refine ⟨hmutex, ?_⟩
  funext p
  cases p with
  | child => rw [Function.update_self]; exact hu
  | parent =>
    rw [Function.update_of_ne child_ne_parent.symm]
    exact congrArg ParentPc.user hparent

end QnxTutorial.MutexRecovery
