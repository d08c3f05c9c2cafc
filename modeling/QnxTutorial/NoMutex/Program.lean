import QnxTutorial.MutexSync.Counters

/-!
# The threads of `nomutex.c`

The program that `mutex_sync.c` repairs: the same globals, the same four assignments and the same
`main`, but no mutex. A thread that finds `var1` and `var2` different prints both, reading them
once more, and makes `var1` equal to `var2`. Each read and each write of a global is a step of its
own, also those of `do_work`.

The control points of a thread carry the number `k` of iterations that it has completed, and
`counts` has the updates of each thread. No step reads them.
-/

namespace QnxTutorial.NoMutex

open Monitor MutexSync

variable {n : ℕ}

/-- `do_work` has its own counter, which starts at 0 here. -/
def start (n : ℕ) : Shared n := ⟨0, 0, 0, 0, fun _ => false, fun _ => 0⟩

/-! ## The threads -/

/-- Control points of `update_thread` after `k` iterations, with what was read. Every read and every
write of a shared variable is a step. `testVar3` decides about a message. -/
inductive UpdatePc where
  | loop (k : ℕ)
  | compare1 (k : ℕ)
  | compare2 (k : ℕ) (v : BitVec 32)
  | printVar1 (k : ℕ)
  | printVar2 (k : ℕ) (v : BitVec 32)
  | readVar2 (k : ℕ)
  | writeVar1 (k : ℕ) (v : BitVec 32)
  | readVar3 (k : ℕ)
  | writeVar3 (k : ℕ) (v : BitVec 32)
  | testVar3 (k : ℕ)
  | read (k : ℕ) (u : Update)
  | write (k : ℕ) (u : Update) (v : BitVec 32)
  | leave (k : ℕ)
  | exited (k : ℕ)
  deriving DecidableEq

/-- `update_thread`. -/
def updateThread (i : Fin n) : UpdatePc → Instr (Shared n) Unit UpdatePc
  | .loop k => .act fun _ s => some (s, if s.done = 0 then .compare1 k else .leave k)
  | .compare1 k => .act fun _ s => some (s, .compare2 k s.var1)
  | .compare2 k v => .act fun _ s => some (s, if v ≠ s.var2 then .printVar1 k else .readVar3 k)
  | .printVar1 k => .act fun _ s => some (s, .printVar2 k s.var1)
  | .printVar2 k _ => .act fun _ s => some (s, .readVar2 k)
  | .readVar2 k => .act fun _ s => some (s, .writeVar1 k s.var2)
  | .writeVar1 k v => .act fun _ s => some ({ s with var1 := v }, .readVar3 k)
  | .readVar3 k => .act fun _ s => some (s, .writeVar3 k (s.var3 + 1))
  | .writeVar3 k v => .act fun _ s => some ({ s with var3 := v }, .testVar3 k)
  | .testVar3 k => .act fun _ s => some (s, .read k .add1)
  | .read k u => .act fun _ s => some (s, .write k u (u.value (u.var s)))
  | .write k u v => .act fun _ s =>
      match u.next with
      | some u' => some (u.assign v s, .read k u')
      | none => some ({ u.assign v s with counts := s.counts + Pi.single i 1 }, .loop (k + 1))
  | .leave k => .act fun _ s =>
      some ({ s with exited := Function.update s.exited i true }, .exited k)
  | .exited _ => .halt

/-- The acts of thread `i`. -/
inductive UpdateAct (i : Fin n) : UpdatePc → Shared n → Shared n → UpdatePc → Prop
  | again {s : Shared n} {k : ℕ} : s.done = 0 → UpdateAct i (.loop k) s s (.compare1 k)
  | done {s : Shared n} {k : ℕ} : s.done ≠ 0 → UpdateAct i (.loop k) s s (.leave k)
  | compare1 {s : Shared n} {k : ℕ} : UpdateAct i (.compare1 k) s s (.compare2 k s.var1)
  | differ {s : Shared n} {k : ℕ} {v : BitVec 32} : v ≠ s.var2 →
      UpdateAct i (.compare2 k v) s s (.printVar1 k)
  | agree {s : Shared n} {k : ℕ} {v : BitVec 32} : v = s.var2 →
      UpdateAct i (.compare2 k v) s s (.readVar3 k)
  | printVar1 {s : Shared n} {k : ℕ} : UpdateAct i (.printVar1 k) s s (.printVar2 k s.var1)
  | printVar2 {s : Shared n} {k : ℕ} {v : BitVec 32} :
      UpdateAct i (.printVar2 k v) s s (.readVar2 k)
  | readVar2 {s : Shared n} {k : ℕ} : UpdateAct i (.readVar2 k) s s (.writeVar1 k s.var2)
  | writeVar1 {s : Shared n} {k : ℕ} {v : BitVec 32} :
      UpdateAct i (.writeVar1 k v) s { s with var1 := v } (.readVar3 k)
  | readVar3 {s : Shared n} {k : ℕ} : UpdateAct i (.readVar3 k) s s (.writeVar3 k (s.var3 + 1))
  | writeVar3 {s : Shared n} {k : ℕ} {v : BitVec 32} :
      UpdateAct i (.writeVar3 k v) s { s with var3 := v } (.testVar3 k)
  | testVar3 {s : Shared n} {k : ℕ} : UpdateAct i (.testVar3 k) s s (.read k .add1)
  | read {s : Shared n} {k : ℕ} {u : Update} :
      UpdateAct i (.read k u) s s (.write k u (u.value (u.var s)))
  | write {s : Shared n} {k : ℕ} {u u' : Update} {v : BitVec 32} : u.next = some u' →
      UpdateAct i (.write k u v) s (u.assign v s) (.read k u')
  | last {s : Shared n} {k : ℕ} {u : Update} {v : BitVec 32} : u.next = none →
      UpdateAct i (.write k u v) s { u.assign v s with counts := s.counts + Pi.single i 1 }
        (.loop (k + 1))
  | leave {s : Shared n} {k : ℕ} :
      UpdateAct i (.leave k) s { s with exited := Function.update s.exited i true } (.exited k)

theorem update_act {i : Fin n} {pc l : UpdatePc}
    {f : Unit → Shared n → Option (Shared n × UpdatePc)} {e : Unit} {s s' : Shared n}
    (hc : updateThread i pc = .act f) (hf : f e s = some (s', l)) : UpdateAct i pc s s' l := by
  cases pc with
  | exited => cases hc
  | loop k =>
    cases hc
    simp only [Option.some.injEq, Prod.mk.injEq] at hf
    obtain ⟨rfl, rfl⟩ := hf
    split_ifs with h
    · exact .again h
    · exact .done h
  | compare2 k v =>
    cases hc
    simp only [Option.some.injEq, Prod.mk.injEq] at hf
    obtain ⟨rfl, rfl⟩ := hf
    split_ifs with h
    · exact .differ h
    · exact .agree (not_not.1 h)
  | write k u v =>
    cases hc
    simp only at hf
    split at hf
    next u' hu => cases hf; exact .write hu
    next hu => cases hf; exact .last hu
  | compare1 => cases hc; cases hf; exact .compare1
  | printVar1 => cases hc; cases hf; exact .printVar1
  | printVar2 => cases hc; cases hf; exact .printVar2
  | readVar2 => cases hc; cases hf; exact .readVar2
  | writeVar1 => cases hc; cases hf; exact .writeVar1
  | readVar3 => cases hc; cases hf; exact .readVar3
  | writeVar3 => cases hc; cases hf; exact .writeVar3
  | testVar3 => cases hc; cases hf; exact .testVar3
  | read => cases hc; cases hf; exact .read
  | leave => cases hc; cases hf; exact .leave

/-! ## The program -/

theorem update_disciplined (i : Fin n) (pc : UpdatePc) :
    (updateThread i pc).Disciplined (fun _ => false) false := by
  cases hc : updateThread i pc with
  | act f => exact fun _ _ _ _ _ => rfl
  | halt => rfl
  | _ => cases pc <;> cases hc

/-- `main` is that of `mutex_sync.c`. -/
def program (n : ℕ) : Program (Tid n) (Shared n) Unit where
  Pc
    | .main => MainPc
    | .update _ => UpdatePc
  start
    | .main => .sleep
    | .update _ => .loop 0
  code
    | .main => main
    | .update i => updateThread i
  holds _ _ := false
  start_free _ := rfl
  disciplined
    | .main => main_disciplined
    | .update i => update_disciplined i

/-- Every interleaving of `main` and `n` threads. -/
abbrev Reachable (c : Config (program n)) : Prop := Reach (program n) (· = start n) c

/-- Where thread `i` is. -/
def updateAt (c : Config (program n)) (i : Fin n) : Thread UpdatePc := c.thread (.update i)

/-- Where `main` is. -/
def mainAt (c : Config (program n)) : Thread MainPc := c.thread .main

end QnxTutorial.NoMutex
