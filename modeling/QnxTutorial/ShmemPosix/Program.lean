import Mathlib.Data.Nat.Notation
import Mathlib.Tactic.SplitIfs
import QnxTutorial.Monitor.Wakeup

/-!
# `shmem_posix_creator.c` and `shmem_posix_user.c`

One creator and any number of users, which are processes that start whenever they like. They
share a `shmem_t`: the creator makes it, initialises the mutex and the condition variable, sets
`init_flag`, and then updates version and text for ever; a user waits for the object and for
`init_flag`, and then copies version and text whenever the version differs from its last one.

Each read and each write of a shared field is a step of its own. Every call up to `init_flag` may
fail; a failed creator removes the name and exits, a user gives up after its retries. The mutex
and condition variable calls of the two update loops are taken to succeed. A user that touches
the object before `ftruncate` gave it memory is killed (`stopped`).

A `char` array is modelled by the string it holds. `updates` counts the creator's updates and a
user's `record` collects what it had after each of its own; no step reads them.
-/

namespace QnxTutorial.ShmemPosix

open Monitor

/-! ## Strings -/

/-- A 64-bit version. -/
abbrev Version := BitVec 64

def maxTextLen : ℕ := 100

/-- `snprintf(buf, size, ..)` of the string `s`: as much of it as fits before the final NUL. -/
def snprintf (size : ℕ) (s : List Char) : List Char := s.take (size - 1)

/-- `strlcpy(dst, src, size)`. -/
def strlcpy (size : ℕ) (src : List Char) : List Char := src.take (size - 1)

/-- `"data update: %lu"`, with the version for `%lu`. -/
def updateText (v : Version) : List Char :=
  ['d', 'a', 't', 'a', ' ', 'u', 'p', 'd', 'a', 't', 'e', ':', ' '] ++ Nat.toDigits 10 v.toNat

/-- The text of every version fits the buffer. -/
theorem length_updateText (v : Version) : (updateText v).length ≤ maxTextLen - 1 := by
  have hv : v.toNat < 10 ^ 20 := by omega
  have hdigits : (Nat.toDigits 10 v.toNat).length ≤ 20 :=
    (Nat.length_toDigits_le_iff (by decide) (by decide)).2 hv
  simp only [updateText, List.length_append, List.length_cons, List.length_nil, maxTextLen]
  omega

@[simp] theorem snprintf_updateText (v : Version) :
    snprintf maxTextLen (updateText v) = updateText v :=
  List.take_of_length_le (length_updateText v)

@[simp] theorem strlcpy_updateText (v : Version) :
    strlcpy maxTextLen (updateText v) = updateText v :=
  List.take_of_length_le (length_updateText v)

/-! ## Shared memory -/

/-- The object and the name it is reached by: the name may not exist yet (`bound`), and the object
may have no memory (`sized`). -/
structure Shmem where
  bound : Bool
  sized : Bool
  mutexInit : Bool
  condInit : Bool
  initFlag : BitVec 32
  dataVersion : Version
  text : List Char
  updates : ℕ

/-- Before the creator starts. What will be the object's memory is zeros. -/
def start : Shmem := ⟨false, false, false, false, 0, 0, [], 0⟩

/-- Whether a call that can fail does. -/
inductive Input where
  | ok
  | fail
  deriving DecidableEq

/-! ## The creator -/

/-- Control points of the creator. `readArg` and `writeText` are the `snprintf`. -/
inductive CreatorPc where
  | shmOpen
  | ftruncate
  | mmap
  | mutexInit
  | condInit
  | setFlag
  | lock
  | readVersion
  | writeVersion (v : Version)
  | readArg
  | writeText (v : Version)
  | unlock
  | broadcast
  | exited
  deriving DecidableEq

def CreatorPc.holds : CreatorPc → Bool
  | .readVersion | .writeVersion _ | .readArg | .writeText _ | .unlock => true
  | .shmOpen | .ftruncate | .mmap | .mutexInit | .condInit | .setFlag | .lock | .broadcast
  | .exited => false

/-- A call of the set-up: go on, or `unlink_and_exit`. -/
def orExit (s' : Shmem) (next : CreatorPc) : Input → Shmem → Option (Shmem × CreatorPc)
  | .ok, _ => some (s', next)
  | .fail, s => some ({ s with bound := false }, .exited)

/-- `main` of the creator. -/
def creator : CreatorPc → Instr Shmem Input CreatorPc
  | .shmOpen => .act fun e s => orExit { s with bound := true } .ftruncate e s
  | .ftruncate => .act fun e s => orExit { s with sized := true } .mmap e s
  | .mmap => .act fun e s => orExit s .mutexInit e s
  | .mutexInit => .act fun e s => orExit { s with mutexInit := true } .condInit e s
  | .condInit => .act fun e s => orExit { s with condInit := true } .setFlag e s
  | .setFlag => .act fun _ s => some ({ s with initFlag := 1 }, .lock)
  | .lock => .lock .readVersion
  | .readVersion => .act fun _ s => some (s, .writeVersion s.dataVersion)
  | .writeVersion v => .act fun _ s =>
      some ({ s with dataVersion := v + 1, updates := s.updates + 1 }, .readArg)
  | .readArg => .act fun _ s => some (s, .writeText s.dataVersion)
  | .writeText v => .act fun _ s =>
      some ({ s with text := snprintf maxTextLen (updateText v) }, .unlock)
  | .unlock => .unlock .broadcast
  | .broadcast => .broadcast .lock
  | .exited => .halt

/-! ## A user -/

/-- A user's variables, and for every finished update its version and its text. -/
structure Vars where
  lastVersion : Version
  localDataCopy : List Char
  record : List (Version × List Char)
  deriving DecidableEq

/-- `last_version` is 0 and nothing is recorded. -/
def Vars.start : Vars := ⟨0, [], []⟩

/-- Control points of a user. The first three are the loops of `get_shared_memory_pointer`. -/
inductive UserPc where
  | shmOpen (tries : ℕ)
  | mmap (tries : ℕ)
  | readFlag (tries : ℕ)
  | lock (x : Vars)
  | test (x : Vars)
  | wait (x : Vars)
  | readVersion (x : Vars)
  | readText (x : Vars)
  | unlock (x : Vars)
  | stopped
  deriving DecidableEq

def UserPc.holds : UserPc → Bool
  | .test _ | .wait _ | .readVersion _ | .readText _ | .unlock _ => true
  | .shmOpen _ | .mmap _ | .readFlag _ | .lock _ | .stopped => false

/-- The retries that `main` allows. -/
def numRetries : ℕ := 100

/-- `++tries`, and give up or go round again. -/
def retry (loop : ℕ → UserPc) (tries : ℕ) : UserPc :=
  if tries + 1 > numRetries then .stopped else loop (tries + 1)

/-- `main` of a user, with `get_shared_memory_pointer`. -/
def user : UserPc → Instr Shmem Input UserPc
  | .shmOpen tries => .act fun e s =>
      some (s, if e = .ok ∧ s.bound then .mmap 0 else retry .shmOpen tries)
  | .mmap tries => .act fun e s => some (s, if e = .ok then .readFlag 0 else retry .mmap tries)
  | .readFlag tries => .act fun _ s =>
      some (s, if s.sized = false then .stopped
        else if s.initFlag ≠ 0 then .lock .start else retry .readFlag tries)
  | .lock x => .lock (.test x)
  | .test x => .act fun _ s =>
      some (s, if x.lastVersion = s.dataVersion then .wait x else .readVersion x)
  | .wait x => .wait (.test x)
  | .readVersion x => .act fun _ s => some (s, .readText { x with lastVersion := s.dataVersion })
  | .readText x => .act fun _ s =>
      let copy := strlcpy maxTextLen s.text
      some (s, .unlock
        { x with localDataCopy := copy, record := x.record ++ [(x.lastVersion, copy)] })
  | .unlock x => .unlock (.lock x)
  | .stopped => .halt

/-! ## What an act does -/

/-- The acts of the creator. -/
inductive CreatorAct : CreatorPc → Shmem → Shmem → CreatorPc → Prop
  | shmOpen {s : Shmem} : CreatorAct .shmOpen s { s with bound := true } .ftruncate
  | ftruncate {s : Shmem} : CreatorAct .ftruncate s { s with sized := true } .mmap
  | mmap {s : Shmem} : CreatorAct .mmap s s .mutexInit
  | mutexInit {s : Shmem} : CreatorAct .mutexInit s { s with mutexInit := true } .condInit
  | condInit {s : Shmem} : CreatorAct .condInit s { s with condInit := true } .setFlag
  | exit {pc : CreatorPc} {s : Shmem} : pc.holds = false →
      CreatorAct pc s { s with bound := false } .exited
  | setFlag {s : Shmem} : CreatorAct .setFlag s { s with initFlag := 1 } .lock
  | readVersion {s : Shmem} : CreatorAct .readVersion s s (.writeVersion s.dataVersion)
  | writeVersion {s : Shmem} {v : Version} :
      CreatorAct (.writeVersion v) s { s with dataVersion := v + 1, updates := s.updates + 1 }
        .readArg
  | readArg {s : Shmem} : CreatorAct .readArg s s (.writeText s.dataVersion)
  | writeText {s : Shmem} {v : Version} :
      CreatorAct (.writeText v) s { s with text := updateText v } .unlock

/-- In `get_shared_memory_pointer`, or out of it for good. -/
def UserPc.Early : UserPc → Prop
  | .shmOpen _ | .mmap _ | .readFlag _ | .stopped => True
  | .lock _ | .test _ | .wait _ | .readVersion _ | .readText _ | .unlock _ => False

/-- The acts of a user, none of which changes the shared memory. -/
inductive UserAct (s : Shmem) : UserPc → UserPc → Prop
  | loop {pc k : UserPc} : pc.Early → k.Early → UserAct s pc k
  | ready {tries : ℕ} : s.initFlag ≠ 0 → UserAct s (.readFlag tries) (.lock .start)
  | same {x : Vars} : x.lastVersion = s.dataVersion → UserAct s (.test x) (.wait x)
  | changed {x : Vars} : x.lastVersion ≠ s.dataVersion → UserAct s (.test x) (.readVersion x)
  | readVersion {x : Vars} :
      UserAct s (.readVersion x) (.readText { x with lastVersion := s.dataVersion })
  | readText {x : Vars} : UserAct s (.readText x)
      (.unlock { x with
        localDataCopy := strlcpy maxTextLen s.text
        record := x.record ++ [(x.lastVersion, strlcpy maxTextLen s.text)] })

theorem retry_early {loop : ℕ → UserPc} (h : ∀ n, (loop n).Early) (tries : ℕ) :
    (retry loop tries).Early := by
  unfold retry
  split_ifs
  · trivial
  · exact h (tries + 1)

theorem creator_act {pc k : CreatorPc} {f : Input → Shmem → Option (Shmem × CreatorPc)}
    {e : Input} {s s' : Shmem} (hc : creator pc = .act f) (hf : f e s = some (s', k)) :
    CreatorAct pc s s' k := by
  cases pc with
  | shmOpen => cases hc; cases e <;> cases hf <;> first | exact .shmOpen | exact .exit rfl
  | ftruncate => cases hc; cases e <;> cases hf <;> first | exact .ftruncate | exact .exit rfl
  | mmap => cases hc; cases e <;> cases hf <;> first | exact .mmap | exact .exit rfl
  | mutexInit => cases hc; cases e <;> cases hf <;> first | exact .mutexInit | exact .exit rfl
  | condInit => cases hc; cases e <;> cases hf <;> first | exact .condInit | exact .exit rfl
  | setFlag => cases hc; cases hf; exact .setFlag
  | readVersion => cases hc; cases hf; exact .readVersion
  | writeVersion => cases hc; cases hf; exact .writeVersion
  | readArg => cases hc; cases hf; exact .readArg
  | writeText v =>
    cases hc
    simp only [snprintf_updateText, Option.some.injEq, Prod.mk.injEq] at hf
    obtain ⟨rfl, rfl⟩ := hf
    exact .writeText
  | lock | unlock | broadcast | exited => cases hc

theorem user_act {pc k : UserPc} {f : Input → Shmem → Option (Shmem × UserPc)} {e : Input}
    {s s' : Shmem} (hc : user pc = .act f) (hf : f e s = some (s', k)) :
    s' = s ∧ UserAct s pc k := by
  cases pc with
  | lock | wait | unlock | stopped => cases hc
  | shmOpen tries =>
    cases hc
    simp only [Option.some.injEq, Prod.mk.injEq] at hf
    obtain ⟨rfl, rfl⟩ := hf
    refine ⟨rfl, .loop trivial ?_⟩
    split_ifs
    · trivial
    · exact retry_early (fun _ => by trivial) tries
  | mmap tries =>
    cases hc
    simp only [Option.some.injEq, Prod.mk.injEq] at hf
    obtain ⟨rfl, rfl⟩ := hf
    refine ⟨rfl, .loop trivial ?_⟩
    split_ifs
    · trivial
    · exact retry_early (fun _ => by trivial) tries
  | readFlag tries =>
    cases hc
    simp only [Option.some.injEq, Prod.mk.injEq] at hf
    obtain ⟨rfl, rfl⟩ := hf
    refine ⟨rfl, ?_⟩
    split_ifs with _ hflag
    · exact .loop trivial trivial
    · exact .ready hflag
    · exact .loop trivial (retry_early (fun _ => by trivial) tries)
  | test x =>
    cases hc
    simp only [Option.some.injEq, Prod.mk.injEq] at hf
    obtain ⟨rfl, rfl⟩ := hf
    refine ⟨rfl, ?_⟩
    split_ifs with hv
    · exact .same hv
    · exact .changed hv
  | readVersion x => cases hc; cases hf; exact ⟨rfl, .readVersion⟩
  | readText x => cases hc; cases hf; exact ⟨rfl, .readText⟩

/-! ## The program -/

/-- The processes: the creator, and the users `υ`. -/
inductive Pid (υ : Type) where
  | creator
  | user (u : υ)
  deriving DecidableEq

theorem creator_disciplined (pc : CreatorPc) :
    (creator pc).Disciplined CreatorPc.holds pc.holds := by
  cases hc : creator pc with
  | act f =>
    intro e s s' k hf
    cases creator_act hc hf with
    | exit h => exact h.symm
    | _ => rfl
  | broadcast | halt => cases pc <;> cases hc; rfl
  | _ => cases pc <;> cases hc <;> exact ⟨rfl, rfl⟩

theorem UserPc.Early.holds {pc : UserPc} (h : pc.Early) : pc.holds = false := by
  cases pc <;> first | rfl | exact h.elim

theorem user_disciplined (pc : UserPc) : (user pc).Disciplined UserPc.holds pc.holds := by
  cases hc : user pc with
  | act f =>
    intro e s s' k hf
    cases (user_act hc hf).2 with
    | loop hpc hk => rw [hpc.holds, hk.holds]
    | _ => rfl
  | halt => cases pc <;> cases hc; rfl
  | _ => cases pc <;> cases hc <;> exact ⟨rfl, rfl⟩

/-- The processes of the program. -/
def program (υ : Type) : Program (Pid υ) Shmem Input where
  Pc
    | .creator => CreatorPc
    | .user _ => UserPc
  start
    | .creator => .shmOpen
    | .user _ => .shmOpen 0
  code
    | .creator => creator
    | .user _ => user
  holds
    | .creator => CreatorPc.holds
    | .user _ => UserPc.holds
  start_free
    | .creator => rfl
    | .user _ => rfl
  disciplined
    | .creator => creator_disciplined
    | .user _ => user_disciplined

variable {υ : Type}

/-- Every interleaving of the creator with users `υ`. -/
abbrev Reachable [DecidableEq υ] (c : Config (program υ)) : Prop :=
  Reach (program υ) (· = start) c

/-- Where the creator is. -/
def creatorAt (c : Config (program υ)) : Thread CreatorPc := c.thread .creator

/-- Where a user is. -/
def userAt (c : Config (program υ)) (u : υ) : Thread UserPc := c.thread (.user u)

end QnxTutorial.ShmemPosix
