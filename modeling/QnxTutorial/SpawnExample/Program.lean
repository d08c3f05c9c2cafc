import QnxTutorial.Machine
import QnxTutorial.Signals

/-!
# The processes of `spawn_example.c`

The parent masks `SIGCHLD` and attaches a handler to it, spawns a child, waits for the signal and
then for the child. Any call may fail, the child may die at any time with any status, and others may
send `SIGCHLD` as well.

The comment at the top of `main` says why the signal is both masked and handled, on a kernel that
discards an ignored signal even if it is masked. `Variant` is the program with or without the two
calls.
-/

namespace QnxTutorial.SpawnExample

open Signals

/-- Whether `pthread_sigmask` and `signal` are called. -/
structure Variant where
  masks : Bool
  handles : Bool
  deriving DecidableEq

/-- The program as it is. -/
def Variant.both : Variant := ⟨true, true⟩

inductive Exit where
  | success
  | failure
  deriving DecidableEq

inductive Setup where
  | sigemptyset
  | sigaddset
  | sigmask
  | signal
  deriving DecidableEq

/-- Control points of the parent, named after the next call. -/
inductive ParentPc where
  | setup (call : Setup)
  | posixSpawn
  | sigwaitinfo
  | sleep
  | wait
  | sleepAgain
  | exited (status : Exit)
  deriving DecidableEq

inductive Child where
  | notSpawned
  | running
  | zombie (status : Int)
  | reaped (status : Int)
  deriving DecidableEq

/-- What the parent prints to stdout. The hints about `pidin` come with the pid of the child. -/
inductive Line where
  | parentPid
  | childPid (pid : Int)
  | childHasDied
  | diedWith (pid status : Int)
  deriving DecidableEq

/-- The two processes, with the pid that `posix_spawn` gives the child. -/
structure System where
  parent : ParentPc
  child : Child
  pid : Int
  sigchld : Signal
  output : List Line
  deriving DecidableEq

def start (pid : Int) (masked : Bool) : System :=
  ⟨.setup .sigemptyset, .notSpawned, pid, .inherited masked, []⟩

/-- The next call after a call of the setup. -/
def Setup.next : Setup → ParentPc
  | .sigemptyset => .setup .sigaddset
  | .sigaddset => .setup .sigmask
  | .sigmask => .setup .signal
  | .signal => .posixSpawn

/-- What a call of the setup does. -/
def Setup.effect (v : Variant) : Setup → Signal → Signal
  | .sigemptyset, sigchld | .sigaddset, sigchld => sigchld
  | .sigmask, sigchld => if v.masks then sigchld.mask else sigchld
  | .signal, sigchld => if v.handles then sigchld.attach else sigchld

/-- After the setup the parent prints its pid. -/
def Setup.prints : Setup → List Line
  | .sigemptyset | .sigaddset | .sigmask => []
  | .signal => [.parentPid]

def exit (status : Exit) (s : System) : System := { s with parent := .exited status }

/-- A step of the parent, unless it is blocked or has exited. `fails` says that the next call fails.
`sleep` does not. -/
def parent (v : Variant) (fails : Bool) (s : System) : Option System :=
  match s.parent with
  | .setup call => some <| if fails then exit .failure s
      else { s with
        parent := call.next
        sigchld := call.effect v s.sigchld
        output := s.output ++ call.prints }
  | .posixSpawn => some <| if fails then exit .failure s
      else { s with
        parent := .sigwaitinfo
        child := .running
        output := s.output ++ [.childPid s.pid] }
  | .sigwaitinfo =>
    if fails then some (exit .failure s)
    else s.sigchld.take.map fun sigchld =>
      { s with parent := .sleep, sigchld := sigchld, output := s.output ++ [.childHasDied] }
  | .sleep => some { s with parent := .wait }
  | .wait =>
    if fails then some (exit .failure s)
    else match s.child with
      | .zombie status => some { s with
          parent := .sleepAgain
          child := .reaped status
          output := s.output ++ [.diedWith s.pid status] }
      | .notSpawned | .running | .reaped _ => none
  | .sleepAgain => some (exit .success s)
  | .exited _ => none

/-- `SIGCHLD` is sent to the parent. -/
def raise (K : Kernel) (s : System) : System := { s with sigchld := s.sigchld.raise K }

/-- The child dies. -/
def die (K : Kernel) (status : Int) (s : System) : Option System :=
  match s.child with
  | .running => some (raise K { s with child := .zombie status })
  | .notSpawned | .zombie _ | .reaped _ => none

/-- Somebody else may send `SIGCHLD`, as may the child when it is stopped. -/
inductive Event where
  | parent (fails : Bool)
  | die (status : Int)
  | sigchld
  deriving DecidableEq

def step (K : Kernel) (v : Variant) (s : System) : Event → Option System
  | .parent fails => parent v fails s
  | .die status => die K status s
  | .sigchld => some (raise K s)

/-- The processes. The mask is inherited. -/
def processes (K : Kernel) (v : Variant) : Machine System Event where
  init s := ∃ pid masked, s = start pid masked
  allowed s e := (step K v s e).isSome
  next s e := (step K v s e).getD s

/-! ## What a step does -/

inductive Act (K : Kernel) (v : Variant) (s : System) : Event → System → Prop
  | setup {call : Setup} : s.parent = .setup call → Act K v s (.parent false) { s with
      parent := call.next
      sigchld := call.effect v s.sigchld
      output := s.output ++ call.prints }
  | spawn : s.parent = .posixSpawn → Act K v s (.parent false) { s with
      parent := .sigwaitinfo
      child := .running
      output := s.output ++ [.childPid s.pid] }
  | sigwaitinfo {sigchld : Signal} : s.parent = .sigwaitinfo → s.sigchld.take = some sigchld →
      Act K v s (.parent false)
        { s with parent := .sleep, sigchld := sigchld, output := s.output ++ [.childHasDied] }
  | sleep {fails : Bool} : s.parent = .sleep → Act K v s (.parent fails) { s with parent := .wait }
  | wait {status : Int} : s.parent = .wait → s.child = .zombie status →
      Act K v s (.parent false) { s with
        parent := .sleepAgain
        child := .reaped status
        output := s.output ++ [.diedWith s.pid status] }
  | exits {fails : Bool} : s.parent = .sleepAgain → Act K v s (.parent fails) (exit .success s)
  | fails : s.parent ≠ .sleep → s.parent ≠ .sleepAgain → (∀ status, s.parent ≠ .exited status) →
      Act K v s (.parent true) (exit .failure s)
  | die {status : Int} : s.child = .running →
      Act K v s (.die status) (raise K { s with child := .zombie status })
  | sigchld : Act K v s .sigchld (raise K s)

variable {K : Kernel} {v : Variant}

theorem step_act {e : Event} {s s' : System} (h : step K v s e = some s') : Act K v s e s' := by
  cases e with
  | parent fails =>
    unfold step parent at h
    cases hp : s.parent with
    | setup call =>
      simp only [hp, Option.some.injEq] at h
      subst h
      cases fails with
      | true => exact .fails (by simp [hp]) (by simp [hp]) (by simp [hp])
      | false => exact .setup hp
    | posixSpawn =>
      simp only [hp, Option.some.injEq] at h
      subst h
      cases fails with
      | true => exact .fails (by simp [hp]) (by simp [hp]) (by simp [hp])
      | false => exact .spawn hp
    | sigwaitinfo =>
      simp only [hp] at h
      cases fails with
      | true =>
        cases h
        exact .fails (by simp [hp]) (by simp [hp]) (by simp [hp])
      | false =>
        obtain ⟨sigchld, htake, rfl⟩ := Option.map_eq_some_iff.1 h
        exact .sigwaitinfo hp htake
    | sleep =>
      simp only [hp, Option.some.injEq] at h
      subst h
      exact .sleep hp
    | wait =>
      simp only [hp] at h
      cases fails with
      | true =>
        cases h
        exact .fails (by simp [hp]) (by simp [hp]) (by simp [hp])
      | false =>
        cases hc : s.child with
        | zombie status =>
          simp only [hc, Bool.false_eq_true, if_false, Option.some.injEq] at h
          subst h
          exact .wait hp hc
        | notSpawned | running | reaped => simp [hc] at h
    | sleepAgain =>
      simp only [hp, Option.some.injEq] at h
      subst h
      exact .exits hp
    | exited status => simp [hp] at h
  | die status =>
    simp only [step, die] at h
    cases hc : s.child with
    | running =>
      simp only [hc, Option.some.injEq] at h
      subst h
      exact .die hc
    | notSpawned | zombie | reaped => simp [hc] at h
  | sigchld =>
    cases h
    exact .sigchld

theorem next_act {e : Event} {s : System} (ha : (processes K v).allowed s e) :
    Act K v s e ((processes K v).next s e) := by
  obtain ⟨s', hs'⟩ := Option.isSome_iff_exists.1 ha
  rw [show (processes K v).next s e = (step K v s e).getD s from rfl, hs']
  exact step_act hs'

theorem processes_invariant {I : System → Prop} {h : List (System × Event)} {s : System}
    (hrun : (processes K v).Run h s) (hinit : ∀ pid masked, I (start pid masked))
    (hact : ∀ s e s', I s → Act K v s e s' → I s') : I s := by
  apply hrun.invariant
  · rintro s ⟨pid, masked, rfl⟩
    exact hinit pid masked
  · exact fun s e ha hs => hact s e _ hs (next_act ha)

end QnxTutorial.SpawnExample
