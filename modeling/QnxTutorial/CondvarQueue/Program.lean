import QnxTutorial.CondvarQueue.Queue
import QnxTutorial.Monitor.Wakeup

/-!
# The threads of `condvar_queue_ex.c`

One `hardwareHandler` and any number of threads that call `add_to_queue`, each as often and with
whatever data it likes. Control points are named after what comes next; a value that the thread
has in a local variable is an argument of the control point.

`add_element_to_queue` is entered by one step and does its work by another, so that there are
states in which it is half done. Outcomes that exit the process end the run: they have no step.

`added`, `removed` and `written` are history variables. They record the values passed to
`add_element_to_queue` (by callers that hold the mutex, hence in the order in which they acquired
it), the values taken off the queue, and the values passed to `write_to_hardware`. No step reads
them.
-/

namespace QnxTutorial.CondvarQueue

open Monitor

/-- The globals, with the history of the calls. -/
structure Shared where
  queue : Queue
  dataReady : ℤ
  added : List ℤ
  removed : List ℤ
  written : List ℤ

/-- `main` clears the flag and the queue before it creates the threads. -/
def start : Shared := ⟨Queue.empty, 0, [], [], []⟩

/-- What a step may need from outside: the argument of the next `add_to_queue`, or the result of
`malloc` and the number of nodes that the walk to the end looks at. -/
inductive Input where
  | call (data : ℤ)
  | malloc (newp : Ptr) (loops : ℕ)
  deriving DecidableEq

/-- Control points of `hardwareHandler`: `test` is `while (!data_ready)`, `take` the loop that takes
elements out of the queue, and `clear` is `data_ready = 0`. -/
inductive HandlerPc where
  | lock
  | test
  | wait
  | take
  | unlockTaken (data : ℤ)
  | write (data : ℤ)
  | relock
  | clear
  | unlock
  deriving DecidableEq

/-- Control points of a thread that calls `add_to_queue`: `idle` is outside, `link` inside
`add_element_to_queue`, and `ready` is `data_ready = 1`. -/
inductive ProducerPc where
  | idle
  | lock (data : ℤ)
  | add (data : ℤ)
  | link (data : ℤ)
  | ready
  | unlock
  | signal
  deriving DecidableEq

def HandlerPc.holds : HandlerPc → Bool
  | .test | .wait | .take | .unlockTaken _ | .clear | .unlock => true
  | .lock | .write _ | .relock => false

def ProducerPc.holds : ProducerPc → Bool
  | .add _ | .link _ | .ready | .unlock => true
  | .idle | .lock _ | .signal => false

/-- `hardwareHandler`. -/
def hardwareHandler : HandlerPc → Instr Shared Input HandlerPc
  | .lock => .lock .test
  | .test => .act fun _ s => some (s, if s.dataReady = 0 then .wait else .take)
  | .wait => .wait .test
  | .take => .act fun _ s =>
      (getDataAndRemoveFromQueue s.queue).map fun
        | (none, queue) => ({ s with queue := queue }, .clear)
        | (some data, queue) =>
          ({ s with queue := queue, removed := s.removed ++ [data] }, .unlockTaken data)
  | .unlockTaken data => .unlock (.write data)
  | .write data => .act fun _ s => some ({ s with written := s.written ++ [data] }, .relock)
  | .relock => .lock .take
  | .clear => .act fun _ s => some ({ s with dataReady := 0 }, .unlock)
  | .unlock => .unlock .lock

/-- `add_to_queue`, called again and again. -/
def addToQueue : ProducerPc → Instr Shared Input ProducerPc
  | .idle => .act fun
      | .call data, s => some (s, .lock data)
      | .malloc _ _, _ => none
  | .lock data => .lock (.add data)
  | .add data => .act fun _ s => some ({ s with added := s.added ++ [data] }, .link data)
  | .link data => .act fun
      | .malloc newp loops, s =>
        if Fresh newp s.queue then
          (addElementToQueue newp loops data s.queue).map fun queue =>
            ({ s with queue := queue }, .ready)
        else none
      | .call _, _ => none
  | .ready => .act fun _ s => some ({ s with dataReady := 1 }, .unlock)
  | .unlock => .unlock .signal
  | .signal => .signal .idle

/-! ## What an act does -/

/-- The acts of the handler. -/
inductive HandlerAct : HandlerPc → Shared → Shared → HandlerPc → Prop
  | notReady {s : Shared} : s.dataReady = 0 → HandlerAct .test s s .wait
  | isReady {s : Shared} : s.dataReady ≠ 0 → HandlerAct .test s s .take
  | none {s : Shared} {queue : Queue} : getDataAndRemoveFromQueue s.queue = some (none, queue) →
      HandlerAct .take s { s with queue := queue } .clear
  | some {s : Shared} {data : ℤ} {queue : Queue} :
      getDataAndRemoveFromQueue s.queue = some (some data, queue) →
      HandlerAct .take s { s with queue := queue, removed := s.removed ++ [data] }
        (.unlockTaken data)
  | write {s : Shared} {data : ℤ} :
      HandlerAct (.write data) s { s with written := s.written ++ [data] } .relock
  | clear {s : Shared} : HandlerAct .clear s { s with dataReady := 0 } .unlock

/-- The acts of a producer. -/
inductive ProducerAct : ProducerPc → Shared → Shared → ProducerPc → Prop
  | call {s : Shared} {data : ℤ} : ProducerAct .idle s s (.lock data)
  | add {s : Shared} {data : ℤ} :
      ProducerAct (.add data) s { s with added := s.added ++ [data] } (.link data)
  | link {s : Shared} {data : ℤ} {newp : Ptr} {loops : ℕ} {queue : Queue} :
      Fresh newp s.queue → addElementToQueue newp loops data s.queue = some queue →
      ProducerAct (.link data) s { s with queue := queue } .ready
  | ready {s : Shared} : ProducerAct .ready s { s with dataReady := 1 } .unlock

theorem hardwareHandler_act {pc k : HandlerPc} {f : Input → Shared → Option (Shared × HandlerPc)}
    {e : Input} {s s' : Shared} (hc : hardwareHandler pc = .act f) (hf : f e s = some (s', k)) :
    HandlerAct pc s s' k := by
  cases pc with
  | test =>
    cases hc
    simp only [Option.some.injEq, Prod.mk.injEq] at hf
    obtain ⟨rfl, rfl⟩ := hf
    split_ifs with h
    · exact .notReady h
    · exact .isReady h
  | take =>
    cases hc
    simp only [Option.map_eq_some_iff, Prod.exists] at hf
    obtain ⟨data, queue, hq, hk⟩ := hf
    cases data <;> cases hk
    · exact .none hq
    · exact .some hq
  | write data =>
    cases hc
    cases hf
    exact .write
  | clear =>
    cases hc
    cases hf
    exact .clear
  | lock | wait | unlockTaken | relock | unlock => cases hc

theorem addToQueue_act {pc k : ProducerPc} {f : Input → Shared → Option (Shared × ProducerPc)}
    {e : Input} {s s' : Shared} (hc : addToQueue pc = .act f) (hf : f e s = some (s', k)) :
    ProducerAct pc s s' k := by
  cases pc with
  | idle =>
    cases hc
    cases e <;> cases hf
    exact .call
  | add data =>
    cases hc
    cases hf
    exact .add
  | link data =>
    cases hc
    cases e with
    | call => cases hf
    | malloc newp loops =>
      simp only at hf
      split_ifs at hf with hfresh
      obtain ⟨queue, hq, hk⟩ := Option.map_eq_some_iff.1 hf
      cases hk
      exact .link hfresh hq
  | ready =>
    cases hc
    cases hf
    exact .ready
  | lock | unlock | signal => cases hc

/-! ## The program -/

/-- The threads: the handler, and the producers `κ`. -/
inductive Tid (κ : Type) where
  | hardwareHandler
  | producer (k : κ)
  deriving DecidableEq

theorem hardwareHandler_disciplined (pc : HandlerPc) :
    (hardwareHandler pc).Disciplined HandlerPc.holds pc.holds := by
  cases hc : hardwareHandler pc with
  | act f => exact fun e s s' k hf => by cases hardwareHandler_act hc hf <;> rfl
  | _ => cases pc <;> cases hc <;> exact ⟨rfl, rfl⟩

theorem addToQueue_disciplined (pc : ProducerPc) :
    (addToQueue pc).Disciplined ProducerPc.holds pc.holds := by
  cases hc : addToQueue pc with
  | act f => exact fun e s s' k hf => by cases addToQueue_act hc hf <;> rfl
  | signal k => cases pc <;> cases hc; rfl
  | _ => cases pc <;> cases hc <;> exact ⟨rfl, rfl⟩

/-- The threads of the program. -/
def program (κ : Type) : Program (Tid κ) Shared Input where
  Pc
    | .hardwareHandler => HandlerPc
    | .producer _ => ProducerPc
  start
    | .hardwareHandler => .lock
    | .producer _ => .idle
  code
    | .hardwareHandler => hardwareHandler
    | .producer _ => addToQueue
  holds
    | .hardwareHandler => HandlerPc.holds
    | .producer _ => ProducerPc.holds
  start_free
    | .hardwareHandler => rfl
    | .producer _ => rfl
  disciplined
    | .hardwareHandler => hardwareHandler_disciplined
    | .producer _ => addToQueue_disciplined

/-- Every interleaving of the handler with producers `κ`. -/
abbrev Reachable [DecidableEq κ] (c : Config (program κ)) : Prop :=
  Reach (program κ) (· = start) c

/-- Where the handler is. -/
def handler (c : Config (program κ)) : Thread HandlerPc := c.thread .hardwareHandler

/-- Where a producer is. -/
def producer (c : Config (program κ)) (k : κ) : Thread ProducerPc := c.thread (.producer k)

end QnxTutorial.CondvarQueue
