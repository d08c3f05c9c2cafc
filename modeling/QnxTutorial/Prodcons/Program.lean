import Mathlib.Data.Nat.Notation
import Mathlib.Tactic.SplitIfs
import QnxTutorial.Monitor.Wakeup

/-!
# The producer and the consumer of `prodcons.c`

Two threads hand a product over. `state` says whether there is one, and each thread waits on the
same condition variable while it is not its turn. Each read and write of a global is a step of its
own, except those whose only use is to be printed. Outcomes of the pthread calls that exit the
process end the run: they have no step.

`produced` and `consumed` are history variables: how often the producer has counted `product` up,
and the values of `product` that the consumer has found. No step reads them.
-/

namespace QnxTutorial.Prodcons

open Monitor

/-- The globals, with the history. -/
structure Shared where
  state : BitVec 32
  product : BitVec 32
  produced : ℕ
  consumed : List (BitVec 32)

def start : Shared := ⟨0, 0, 0, []⟩

/-- Control points of `producer`: `test` is `while (state == 1)`. -/
inductive ProducerPc where
  | lock
  | test
  | wait
  | readProduct
  | writeProduct (v : BitVec 32)
  | setState
  | signal
  | unlock
  deriving DecidableEq

/-- Control points of `consumer`: `test` is `while (state == 0)`. -/
inductive ConsumerPc where
  | lock
  | test
  | wait
  | readProduct
  | setState
  | signal
  | unlock
  deriving DecidableEq

def ProducerPc.holds : ProducerPc → Bool
  | .test | .wait | .readProduct | .writeProduct _ | .setState | .signal | .unlock => true
  | .lock => false

def ConsumerPc.holds : ConsumerPc → Bool
  | .test | .wait | .readProduct | .setState | .signal | .unlock => true
  | .lock => false

/-- `producer`. -/
def producer : ProducerPc → Instr Shared Unit ProducerPc
  | .lock => .lock .test
  | .test => .act fun _ s => some (s, if s.state = 1 then .wait else .readProduct)
  | .wait => .wait .test
  | .readProduct => .act fun _ s => some (s, .writeProduct (s.product + 1))
  | .writeProduct v => .act fun _ s =>
      some ({ s with product := v, produced := s.produced + 1 }, .setState)
  | .setState => .act fun _ s => some ({ s with state := 1 }, .signal)
  | .signal => .signal .unlock
  | .unlock => .unlock .lock

/-- `consumer`. -/
def consumer : ConsumerPc → Instr Shared Unit ConsumerPc
  | .lock => .lock .test
  | .test => .act fun _ s => some (s, if s.state = 0 then .wait else .readProduct)
  | .wait => .wait .test
  | .readProduct => .act fun _ s =>
      some ({ s with consumed := s.consumed ++ [s.product] }, .setState)
  | .setState => .act fun _ s => some ({ s with state := 0 }, .signal)
  | .signal => .signal .unlock
  | .unlock => .unlock .lock

/-! ## What an act does -/

inductive ProducerAct : ProducerPc → Shared → Shared → ProducerPc → Prop
  | full {s : Shared} : s.state = 1 → ProducerAct .test s s .wait
  | empty {s : Shared} : s.state ≠ 1 → ProducerAct .test s s .readProduct
  | readProduct {s : Shared} : ProducerAct .readProduct s s (.writeProduct (s.product + 1))
  | writeProduct {s : Shared} {v : BitVec 32} :
      ProducerAct (.writeProduct v) s { s with product := v, produced := s.produced + 1 } .setState
  | setState {s : Shared} : ProducerAct .setState s { s with state := 1 } .signal

inductive ConsumerAct : ConsumerPc → Shared → Shared → ConsumerPc → Prop
  | empty {s : Shared} : s.state = 0 → ConsumerAct .test s s .wait
  | full {s : Shared} : s.state ≠ 0 → ConsumerAct .test s s .readProduct
  | readProduct {s : Shared} : ConsumerAct .readProduct s
      { s with consumed := s.consumed ++ [s.product] } .setState
  | setState {s : Shared} : ConsumerAct .setState s { s with state := 0 } .signal

theorem producer_act {pc k : ProducerPc} {f : Unit → Shared → Option (Shared × ProducerPc)}
    {e : Unit} {s s' : Shared} (hc : producer pc = .act f) (hf : f e s = some (s', k)) :
    ProducerAct pc s s' k := by
  cases pc with
  | lock | wait | signal | unlock => cases hc
  | test =>
    cases hc
    simp only [Option.some.injEq, Prod.mk.injEq] at hf
    obtain ⟨rfl, rfl⟩ := hf
    split_ifs with h
    · exact .full h
    · exact .empty h
  | readProduct => cases hc; cases hf; exact .readProduct
  | writeProduct => cases hc; cases hf; exact .writeProduct
  | setState => cases hc; cases hf; exact .setState

theorem consumer_act {pc k : ConsumerPc} {f : Unit → Shared → Option (Shared × ConsumerPc)}
    {e : Unit} {s s' : Shared} (hc : consumer pc = .act f) (hf : f e s = some (s', k)) :
    ConsumerAct pc s s' k := by
  cases pc with
  | lock | wait | signal | unlock => cases hc
  | test =>
    cases hc
    simp only [Option.some.injEq, Prod.mk.injEq] at hf
    obtain ⟨rfl, rfl⟩ := hf
    split_ifs with h
    · exact .empty h
    · exact .full h
  | readProduct => cases hc; cases hf; exact .readProduct
  | setState => cases hc; cases hf; exact .setState

theorem ProducerAct.inside {pc k : ProducerPc} {s s' : Shared} (h : ProducerAct pc s s' k) :
    pc.holds = true ∧ k.holds = true := by
  cases h <;> exact ⟨rfl, rfl⟩

theorem ConsumerAct.inside {pc k : ConsumerPc} {s s' : Shared} (h : ConsumerAct pc s s' k) :
    pc.holds = true ∧ k.holds = true := by
  cases h <;> exact ⟨rfl, rfl⟩

/-! ## The program -/

inductive Tid where
  | producer
  | consumer
  deriving DecidableEq

theorem producer_disciplined (pc : ProducerPc) :
    (producer pc).Disciplined ProducerPc.holds pc.holds := by
  cases hc : producer pc with
  | act f =>
    intro e s s' k hf
    obtain ⟨hpc, hk⟩ := (producer_act hc hf).inside
    rw [hpc, hk]
  | signal => cases pc <;> cases hc; rfl
  | _ => cases pc <;> cases hc <;> exact ⟨rfl, rfl⟩

theorem consumer_disciplined (pc : ConsumerPc) :
    (consumer pc).Disciplined ConsumerPc.holds pc.holds := by
  cases hc : consumer pc with
  | act f =>
    intro e s s' k hf
    obtain ⟨hpc, hk⟩ := (consumer_act hc hf).inside
    rw [hpc, hk]
  | signal => cases pc <;> cases hc; rfl
  | _ => cases pc <;> cases hc <;> exact ⟨rfl, rfl⟩

def program : Program Tid Shared Unit where
  Pc
    | .producer => ProducerPc
    | .consumer => ConsumerPc
  start
    | .producer => .lock
    | .consumer => .lock
  code
    | .producer => producer
    | .consumer => consumer
  holds
    | .producer => ProducerPc.holds
    | .consumer => ConsumerPc.holds
  start_free
    | .producer => rfl
    | .consumer => rfl
  disciplined
    | .producer => producer_disciplined
    | .consumer => consumer_disciplined

/-- Every interleaving of the two threads. -/
abbrev Reachable (c : Config program) : Prop := Reach program (· = start) c

/-- Where the producer is. -/
def producerAt (c : Config program) : Thread ProducerPc := c.thread .producer

/-- Where the consumer is. -/
def consumerAt (c : Config program) : Thread ConsumerPc := c.thread .consumer

end QnxTutorial.Prodcons
