import Mathlib.Algebra.BigOperators.Fin
import QnxTutorial.Monitor.Basic

/-!
# The threads of `mutex_sync.c`

Any number of threads run `update_thread`: compare `var1` with `var2` in one critical section, and
count both up in another. `main` sets `done`, at a time of its choosing, joins the threads one
after the other, and prints both. Each read and each write of a global is a step of its own, so
`var1 += 2` is two of them. A pthread call that fails ends the process: it has no step.

Two things are counted that the program does not count. The control points of a thread carry the
number `k` of iterations that it has completed, and `counts` has the updates of each thread.
-/

namespace QnxTutorial.MutexSync

open Monitor

/-! ## The globals -/

/-- The globals, and which threads have terminated. -/
structure Shared (n : ℕ) where
  var1 : BitVec 32
  var2 : BitVec 32
  done : BitVec 32
  var3 : BitVec 32
  exited : Fin n → Bool
  counts : Fin n → ℕ

def start (n : ℕ) : Shared n := ⟨0, 0, 0, 1, fun _ => false, fun _ => 0⟩

/-- `var1 += 2; var1--; var2 += 2; var2--;` in the second critical section. -/
inductive Update where
  | add1
  | dec1
  | add2
  | dec2
  deriving DecidableEq

/-- The variable that is read and written. -/
def Update.var {n : ℕ} : Update → Shared n → BitVec 32
  | .add1, s | .dec1, s => s.var1
  | .add2, s | .dec2, s => s.var2

def Update.value : Update → BitVec 32 → BitVec 32
  | .add1, v | .add2, v => v + 2
  | .dec1, v | .dec2, v => v - 1

def Update.assign {n : ℕ} : Update → BitVec 32 → Shared n → Shared n
  | .add1, v, s | .dec1, v, s => { s with var1 := v }
  | .add2, v, s | .dec2, v, s => { s with var2 := v }

/-- The assignment that follows. -/
def Update.next : Update → Option Update
  | .add1 => some .dec1
  | .dec1 => some .add2
  | .add2 => some .dec2
  | .dec2 => none

/-! ## The threads -/

/-- Control points of `update_thread` after `k` iterations, with the local variables. Every read and
every write of a shared variable is a step. -/
inductive UpdatePc where
  | loop (k : ℕ)
  | lock1 (k : ℕ)
  | compare1 (k : ℕ)
  | compare2 (k : ℕ) (v : BitVec 32)
  | readLvar1 (k : ℕ)
  | readLvar2 (k : ℕ) (lvar1 : BitVec 32)
  | readVar2 (k : ℕ) (lvar1 lvar2 : BitVec 32)
  | writeVar1 (k : ℕ) (lvar1 lvar2 v : BitVec 32)
  | unlockRepaired (k : ℕ) (lvar1 lvar2 : BitVec 32)
  | printf (k : ℕ) (lvar1 lvar2 : BitVec 32)
  | unlock1 (k : ℕ)
  | work (k : ℕ)
  | lock2 (k : ℕ)
  | read (k : ℕ) (u : Update)
  | write (k : ℕ) (u : Update) (v : BitVec 32)
  | unlock2 (k : ℕ)
  | leave (k : ℕ)
  | exited (k : ℕ)
  deriving DecidableEq

/-- Control points of `main` after the threads are created. -/
inductive MainPc where
  | sleep
  | join (i : ℕ)
  | readVar1
  | readVar2 (var1 : BitVec 32)
  | printed (var1 var2 : BitVec 32)
  deriving DecidableEq

def UpdatePc.holds : UpdatePc → Bool
  | .compare1 _ | .compare2 .. | .readLvar1 _ | .readLvar2 .. | .readVar2 .. | .writeVar1 .. |
    .unlockRepaired .. | .unlock1 _ | .read .. | .write .. | .unlock2 _ => true
  | .loop _ | .lock1 _ | .printf .. | .work _ | .lock2 _ | .leave _ | .exited _ => false

variable {n : ℕ}

/-- `update_thread`. -/
def updateThread (i : Fin n) : UpdatePc → Instr (Shared n) Unit UpdatePc
  | .loop k => .act fun _ s => some (s, if s.done = 0 then .lock1 k else .leave k)
  | .lock1 k => .lock (.compare1 k)
  | .compare1 k => .act fun _ s => some (s, .compare2 k s.var1)
  | .compare2 k v => .act fun _ s => some (s, if v ≠ s.var2 then .readLvar1 k else .unlock1 k)
  | .readLvar1 k => .act fun _ s => some (s, .readLvar2 k s.var1)
  | .readLvar2 k lvar1 => .act fun _ s => some (s, .readVar2 k lvar1 s.var2)
  | .readVar2 k lvar1 lvar2 => .act fun _ s => some (s, .writeVar1 k lvar1 lvar2 s.var2)
  | .writeVar1 k lvar1 lvar2 v => .act fun _ s =>
      some ({ s with var1 := v }, .unlockRepaired k lvar1 lvar2)
  | .unlockRepaired k lvar1 lvar2 => .unlock (.printf k lvar1 lvar2)
  | .printf k _ _ => .act fun _ s => some (s, .work k)
  | .unlock1 k => .unlock (.work k)
  | .work k => .act fun _ s => some ({ s with var3 := s.var3 + 1 }, .lock2 k)
  | .lock2 k => .lock (.read k .add1)
  | .read k u => .act fun _ s => some (s, .write k u (u.value (u.var s)))
  | .write k u v => .act fun _ s =>
      match u.next with
      | some u' => some (u.assign v s, .read k u')
      | none => some ({ u.assign v s with counts := s.counts + Pi.single i 1 }, .unlock2 k)
  | .unlock2 k => .unlock (.loop (k + 1))
  | .leave k => .act fun _ s =>
      some ({ s with exited := Function.update s.exited i true }, .exited k)
  | .exited _ => .halt

/-- `main`. A join blocks until the thread has terminated. -/
def main : MainPc → Instr (Shared n) Unit MainPc
  | .sleep => .act fun _ s => some ({ s with done := 1 }, .join 0)
  | .join i => .act fun _ s =>
      if h : i < n then
        if s.exited ⟨i, h⟩ then some (s, .join (i + 1)) else none
      else some (s, .readVar1)
  | .readVar1 => .act fun _ s => some (s, .readVar2 s.var1)
  | .readVar2 var1 => .act fun _ s => some (s, .printed var1 s.var2)
  | .printed .. => .halt

/-! ## What an act does -/

/-- The acts of thread `i`. -/
inductive UpdateAct (i : Fin n) : UpdatePc → Shared n → Shared n → UpdatePc → Prop
  | again {s : Shared n} {k : ℕ} : s.done = 0 → UpdateAct i (.loop k) s s (.lock1 k)
  | done {s : Shared n} {k : ℕ} : s.done ≠ 0 → UpdateAct i (.loop k) s s (.leave k)
  | compare1 {s : Shared n} {k : ℕ} : UpdateAct i (.compare1 k) s s (.compare2 k s.var1)
  | differ {s : Shared n} {k : ℕ} {v : BitVec 32} : v ≠ s.var2 →
      UpdateAct i (.compare2 k v) s s (.readLvar1 k)
  | agree {s : Shared n} {k : ℕ} {v : BitVec 32} : v = s.var2 →
      UpdateAct i (.compare2 k v) s s (.unlock1 k)
  | readLvar1 {s : Shared n} {k : ℕ} : UpdateAct i (.readLvar1 k) s s (.readLvar2 k s.var1)
  | readLvar2 {s : Shared n} {k : ℕ} {lvar1 : BitVec 32} :
      UpdateAct i (.readLvar2 k lvar1) s s (.readVar2 k lvar1 s.var2)
  | readVar2 {s : Shared n} {k : ℕ} {lvar1 lvar2 : BitVec 32} :
      UpdateAct i (.readVar2 k lvar1 lvar2) s s (.writeVar1 k lvar1 lvar2 s.var2)
  | writeVar1 {s : Shared n} {k : ℕ} {lvar1 lvar2 v : BitVec 32} :
      UpdateAct i (.writeVar1 k lvar1 lvar2 v) s { s with var1 := v }
        (.unlockRepaired k lvar1 lvar2)
  | printf {s : Shared n} {k : ℕ} {lvar1 lvar2 : BitVec 32} :
      UpdateAct i (.printf k lvar1 lvar2) s s (.work k)
  | work {s : Shared n} {k : ℕ} :
      UpdateAct i (.work k) s { s with var3 := s.var3 + 1 } (.lock2 k)
  | read {s : Shared n} {k : ℕ} {u : Update} :
      UpdateAct i (.read k u) s s (.write k u (u.value (u.var s)))
  | write {s : Shared n} {k : ℕ} {u u' : Update} {v : BitVec 32} : u.next = some u' →
      UpdateAct i (.write k u v) s (u.assign v s) (.read k u')
  | last {s : Shared n} {k : ℕ} {u : Update} {v : BitVec 32} : u.next = none →
      UpdateAct i (.write k u v) s { u.assign v s with counts := s.counts + Pi.single i 1 }
        (.unlock2 k)
  | leave {s : Shared n} {k : ℕ} :
      UpdateAct i (.leave k) s { s with exited := Function.update s.exited i true } (.exited k)

/-- The acts of `main`. -/
inductive MainAct : MainPc → Shared n → Shared n → MainPc → Prop
  | sleep {s : Shared n} : MainAct .sleep s { s with done := 1 } (.join 0)
  | joined {s : Shared n} {i : ℕ} (h : i < n) : s.exited ⟨i, h⟩ = true →
      MainAct (.join i) s s (.join (i + 1))
  | allJoined {s : Shared n} {i : ℕ} : ¬ i < n → MainAct (.join i) s s .readVar1
  | readVar1 {s : Shared n} : MainAct .readVar1 s s (.readVar2 s.var1)
  | readVar2 {s : Shared n} {var1 : BitVec 32} :
      MainAct (.readVar2 var1) s s (.printed var1 s.var2)

theorem update_act {i : Fin n} {pc l : UpdatePc}
    {f : Unit → Shared n → Option (Shared n × UpdatePc)} {e : Unit} {s s' : Shared n}
    (hc : updateThread i pc = .act f) (hf : f e s = some (s', l)) : UpdateAct i pc s s' l := by
  cases pc with
  | lock1 | unlockRepaired | unlock1 | lock2 | unlock2 | exited => cases hc
  | loop k =>
    cases hc
    simp only [Option.some.injEq, Prod.mk.injEq] at hf
    obtain ⟨rfl, rfl⟩ := hf
    split_ifs with h
    · exact .again h
    · exact .done h
  | compare2 k v =>
    cases hc
    simp only [Option.some.injEq, Prod.mk.injEq] at hf
    obtain ⟨rfl, rfl⟩ := hf
    split_ifs with h
    · exact .differ h
    · exact .agree (not_not.1 h)
  | write k u v =>
    cases hc
    simp only at hf
    split at hf
    next u' hu => cases hf; exact .write hu
    next hu => cases hf; exact .last hu
  | compare1 => cases hc; cases hf; exact .compare1
  | readLvar1 => cases hc; cases hf; exact .readLvar1
  | readLvar2 => cases hc; cases hf; exact .readLvar2
  | readVar2 => cases hc; cases hf; exact .readVar2
  | writeVar1 => cases hc; cases hf; exact .writeVar1
  | printf => cases hc; cases hf; exact .printf
  | work => cases hc; cases hf; exact .work
  | read => cases hc; cases hf; exact .read
  | leave => cases hc; cases hf; exact .leave

theorem main_act {pc l : MainPc} {f : Unit → Shared n → Option (Shared n × MainPc)} {e : Unit}
    {s s' : Shared n} (hc : main pc = .act f) (hf : f e s = some (s', l)) :
    MainAct pc s s' l := by
  cases pc with
  | printed => cases hc
  | sleep => cases hc; cases hf; exact .sleep
  | readVar1 => cases hc; cases hf; exact .readVar1
  | readVar2 => cases hc; cases hf; exact .readVar2
  | join i =>
    cases hc
    simp only at hf
    split_ifs at hf with h hexited
    · cases hf
      exact .joined h hexited
    · cases hf
      exact .allJoined h

/-- No act crosses the border of a critical section. -/
theorem UpdateAct.holds {i : Fin n} {pc l : UpdatePc} {s s' : Shared n}
    (h : UpdateAct i pc s s' l) : l.holds = pc.holds := by
  cases h <;> rfl

theorem join_exited {s : Shared n} {i : ℕ} (hi : i < n) (hexited : s.exited ⟨i, hi⟩ = true) :
    (if h : i < n then if s.exited ⟨i, h⟩ then some (s, MainPc.join (i + 1)) else none
      else some (s, MainPc.readVar1)) = some (s, MainPc.join (i + 1)) := by
  rw [dif_pos hi, if_pos hexited]

theorem join_end {s : Shared n} {i : ℕ} (hi : ¬ i < n) :
    (if h : i < n then if s.exited ⟨i, h⟩ then some (s, MainPc.join (i + 1)) else none
      else some (s, MainPc.readVar1)) = some (s, MainPc.readVar1) := by
  rw [dif_neg hi]

/-! ## The program -/

inductive Tid (n : ℕ) where
  | main
  | update (i : Fin n)
  deriving DecidableEq

theorem update_disciplined (i : Fin n) (pc : UpdatePc) :
    (updateThread i pc).Disciplined UpdatePc.holds pc.holds := by
  cases hc : updateThread i pc with
  | act f => exact fun e s s' l hf => (update_act hc hf).holds
  | lock | unlock => cases pc <;> cases hc <;> exact ⟨rfl, rfl⟩
  | halt => cases pc <;> cases hc; rfl
  | _ => cases pc <;> cases hc

theorem main_disciplined (pc : MainPc) :
    (main pc : Instr (Shared n) Unit MainPc).Disciplined (fun _ => false) false := by
  cases hc : (main pc : Instr (Shared n) Unit MainPc) with
  | act f => exact fun _ _ _ _ _ => rfl
  | halt => cases pc <;> cases hc; rfl
  | _ => cases pc <;> cases hc

def program (n : ℕ) : Program (Tid n) (Shared n) Unit where
  Pc
    | .main => MainPc
    | .update _ => UpdatePc
  start
    | .main => .sleep
    | .update _ => .loop 0
  code
    | .main => main
    | .update i => updateThread i
  holds
    | .main => fun _ => false
    | .update _ => UpdatePc.holds
  start_free
    | .main => rfl
    | .update _ => rfl
  disciplined
    | .main => main_disciplined
    | .update i => update_disciplined i

/-- Every interleaving of `main` and `n` threads. -/
abbrev Reachable (c : Config (program n)) : Prop := Reach (program n) (· = start n) c

/-- Where thread `i` is. -/
def updateAt (c : Config (program n)) (i : Fin n) : Thread UpdatePc := c.thread (.update i)

/-- Where `main` is. -/
def mainAt (c : Config (program n)) : Thread MainPc := c.thread .main

end QnxTutorial.MutexSync
