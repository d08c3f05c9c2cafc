import Mathlib.Data.Nat.Notation
import Mathlib.Tactic.SplitIfs
import QnxTutorial.Monitor.Wakeup

/-!
# The four threads of `condvar.c`

Each thread implements one state of a state machine: it waits until the global `state` is its own,
moves it on, and wakes all the others. Only state 1 has a variable of its own, a counter that
decides where it goes; the `int` is taken modulo `2 ^ 32`.

`assigned` is a history variable: the values assigned to `state`, each with the thread that did
it. No step reads it.
-/

namespace QnxTutorial.Condvar

open Monitor

inductive Tid where
  | state0
  | state1
  | state2
  | state3
  deriving DecidableEq

/-- The globals, with the history. -/
structure Shared where
  state : BitVec 32
  assigned : List (Tid × BitVec 32)

/-- `main` sets `state` to 0 before it creates the threads. -/
def start : Shared := ⟨0, []⟩

/-- Control points of a thread, with its local variable: `test` is `while (state != ..)`, and
`leave` assigns to `state`. -/
inductive Pc (L : Type) where
  | lock (x : L)
  | test (x : L)
  | wait (x : L)
  | leave (x : L)
  | broadcast (x : L)
  | unlock (x : L)

def Pc.holds {L : Type} : Pc L → Bool
  | .test _ | .wait _ | .leave _ | .broadcast _ | .unlock _ => true
  | .lock _ => false

/-! ## The threads -/

/-- The loop that the four threads have in common: wait for `own`, and then assign what `leave`
makes of the local variable. -/
def handler {L : Type} (me : Tid) (own : BitVec 32) (leave : L → L × BitVec 32) :
    Pc L → Instr Shared Unit (Pc L)
  | .lock x => .lock (.test x)
  | .test x => .act fun _ s => some (s, if s.state ≠ own then .wait x else .leave x)
  | .wait x => .wait (.test x)
  | .leave x => .act fun _ s =>
      let (x, v) := leave x
      some ({ s with state := v, assigned := s.assigned ++ [(me, v)] }, .broadcast x)
  | .broadcast x => .broadcast (.unlock x)
  | .unlock x => .unlock (.lock x)

/-- `if (++i & 0x1) state = 3; else state = 2;`. -/
def leave1 (i : BitVec 32) : BitVec 32 × BitVec 32 :=
  let i := i + 1
  (i, if i &&& 1 ≠ 0 then 3 else 2)

def state0 : Pc Unit → Instr Shared Unit (Pc Unit) := handler .state0 0 fun _ => ((), 1)

def state1 : Pc (BitVec 32) → Instr Shared Unit (Pc (BitVec 32)) := handler .state1 1 leave1

def state2 : Pc Unit → Instr Shared Unit (Pc Unit) := handler .state2 2 fun _ => ((), 0)

def state3 : Pc Unit → Instr Shared Unit (Pc Unit) := handler .state3 3 fun _ => ((), 0)

/-! ## The program -/

/-- The state that a thread implements. -/
def own : Tid → BitVec 32
  | .state0 => 0
  | .state1 => 1
  | .state2 => 2
  | .state3 => 3

/-- A thread's local variable. -/
def Local : Tid → Type
  | .state1 => BitVec 32
  | .state0 | .state2 | .state3 => Unit

/-- The local variable at the start. -/
def Local.start : (i : Tid) → Local i
  | .state1 => (1 : BitVec 32)
  | .state0 | .state2 | .state3 => ()

/-- The local variable after the state is left, and the state it is left for. -/
def leave : (i : Tid) → Local i → Local i × BitVec 32
  | .state0, _ => ((), 1)
  | .state1, i => leave1 i
  | .state2, _ => ((), 0)
  | .state3, _ => ((), 0)

def code : (i : Tid) → Pc (Local i) → Instr Shared Unit (Pc (Local i))
  | .state0 => state0
  | .state1 => state1
  | .state2 => state2
  | .state3 => state3

theorem code_eq (i : Tid) : code i = handler i (own i) (leave i) := by
  cases i <;> rfl

/-- All threads have the control flow of the loop. -/
theorem handler_of_code {i : Tid} {pc : Pc (Local i)} {x : Instr Shared Unit (Pc (Local i))}
    (hc : code i pc = x) : handler i (own i) (leave i) pc = x := by
  rwa [code_eq] at hc

/-- After thread `i` has left its state. -/
def Shared.left (s : Shared) (i : Tid) (x : Local i) : Shared :=
  { s with state := (leave i x).2, assigned := s.assigned ++ [(i, (leave i x).2)] }

/-- The acts of thread `i`. -/
inductive Act (i : Tid) : Pc (Local i) → Shared → Shared → Pc (Local i) → Prop
  | notMine {s : Shared} {x : Local i} : s.state ≠ own i → Act i (.test x) s s (.wait x)
  | mine {s : Shared} {x : Local i} : s.state = own i → Act i (.test x) s s (.leave x)
  | leave {s : Shared} {x : Local i} : Act i (.leave x) s (s.left i x) (.broadcast (leave i x).1)

theorem code_act {i : Tid} {pc k : Pc (Local i)}
    {f : Unit → Shared → Option (Shared × Pc (Local i))} {e : Unit} {s s' : Shared}
    (hc : code i pc = .act f) (hf : f e s = some (s', k)) : Act i pc s s' k := by
  replace hc := handler_of_code hc
  cases pc with
  | lock | wait | broadcast | unlock => cases hc
  | test x =>
    cases hc
    simp only [Option.some.injEq, Prod.mk.injEq] at hf
    obtain ⟨rfl, rfl⟩ := hf
    split_ifs with h
    · exact .notMine h
    · exact .mine (not_not.1 h)
  | leave x => cases hc; cases hf; exact .leave

theorem Act.inside {i : Tid} {pc k : Pc (Local i)} {s s' : Shared} (h : Act i pc s s' k) :
    pc.holds = true ∧ k.holds = true := by
  cases h <;> exact ⟨rfl, rfl⟩

theorem code_disciplined (i : Tid) (pc : Pc (Local i)) :
    (code i pc).Disciplined Pc.holds pc.holds := by
  cases hc : code i pc with
  | act f =>
    intro e s s' k hf
    obtain ⟨hpc, hk⟩ := (code_act hc hf).inside
    rw [hpc, hk]
  | signal | halt => cases pc <;> cases handler_of_code hc
  | broadcast k => cases pc <;> cases handler_of_code hc; rfl
  | _ => cases pc <;> cases handler_of_code hc; exact ⟨rfl, rfl⟩

def program : Program Tid Shared Unit where
  Pc i := Pc (Local i)
  start i := .lock (Local.start i)
  code := code
  holds _ := Pc.holds
  start_free _ := rfl
  disciplined := code_disciplined

/-- Every interleaving of the four threads. -/
abbrev Reachable (c : Config program) : Prop := Reach program (· = start) c

end QnxTutorial.Condvar
