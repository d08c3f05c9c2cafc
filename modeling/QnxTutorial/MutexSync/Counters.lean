import QnxTutorial.Monitor.Outline
import QnxTutorial.Monitor.Schedule
import QnxTutorial.MutexSync.Program

/-!
# The two counters stay equal

While the mutex is free both variables have the number of updates in them (`Inv`). Between the four
assignments each is ahead of that number by a constant of the control point (`Update.ahead`). A
thread that knows how often it has updated the variables knows how many iterations it has completed,
since nobody else touches its entry of `counts`.

**Theorem (`no_increment_lost`).** While the mutex is free `var1 = var2`. No thread repairs them.
When all threads have exited, both are the number of iterations, modulo `2 ^ 32`.
-/

namespace QnxTutorial.MutexSync

open Monitor

variable {n : ℕ}

/-! ## Assertions -/

/-- The number of updates, as an `unsigned`. -/
def total (counts : Fin n → ℕ) : BitVec 32 := BitVec.ofNat 32 (∑ i, counts i)

/-- How far the two variables are ahead of the number of updates. -/
structure Ahead (d : BitVec 32 × BitVec 32) (s : Shared n) : Prop where
  var1 : s.var1 = total s.counts + d.1
  var2 : s.var2 = total s.counts + d.2

/-- What holds while the mutex is free. -/
def Inv (s : Shared n) : Prop := Ahead (0, 0) s

/-- Before an assignment. -/
def Update.ahead : Update → BitVec 32 × BitVec 32
  | .add1 => (0, 0)
  | .dec1 => (2, 0)
  | .add2 => (1, 0)
  | .dec2 => (1, 2)

/-- The branch that sets `var1 = var2`. -/
def UpdatePc.Repairs : UpdatePc → Prop
  | .readLvar1 _ | .readLvar2 .. | .readVar2 .. | .writeVar1 .. | .unlockRepaired .. |
    .printf .. => True
  | .loop _ | .lock1 _ | .compare1 _ | .compare2 .. | .unlock1 _ | .work _ | .lock2 _ |
    .read .. | .write .. | .unlock2 _ | .leave _ | .exited _ => False

/-- The updates that a thread has made. -/
def UpdatePc.updates : UpdatePc → ℕ
  | .loop k | .lock1 k | .compare1 k | .compare2 k _ | .readLvar1 k | .readLvar2 k _ |
    .readVar2 k _ _ | .writeVar1 k _ _ _ | .unlockRepaired k _ _ | .printf k _ _ | .unlock1 k |
    .work k | .lock2 k | .read k _ | .write k _ _ | .leave k | .exited k => k
  | .unlock2 k => k + 1

def UpdatePc.hasExited : UpdatePc → Bool
  | .exited _ => true
  | .loop _ | .lock1 _ | .compare1 _ | .compare2 .. | .readLvar1 _ | .readLvar2 .. |
    .readVar2 .. | .writeVar1 .. | .unlockRepaired .. | .printf .. | .unlock1 _ | .work _ |
    .lock2 _ | .read .. | .write .. | .unlock2 _ | .leave _ => false

/-- What a thread knows of the variables. -/
def UpdatePc.Knows : UpdatePc → Shared n → Prop
  | .loop _, _ | .lock1 _, _ | .work _, _ | .lock2 _, _ | .leave _, _ | .exited _, _ => True
  | .compare1 _, s | .unlock1 _, s | .unlock2 _, s => Inv s
  | .compare2 _ v, s => Inv s ∧ v = s.var1
  | .readLvar1 _, _ | .readLvar2 .., _ | .readVar2 .., _ | .writeVar1 .., _ |
    .unlockRepaired .., _ | .printf .., _ => False
  | .read _ u, s => Ahead u.ahead s
  | .write _ u v, s => Ahead u.ahead s ∧ v = u.value (u.var s)

/-- What thread `i` knows. -/
structure UpdatePre (i : Fin n) (pc : UpdatePc) (s : Shared n) : Prop where
  counts : s.counts i = pc.updates
  exited : s.exited i = pc.hasExited
  knows : pc.Knows s

/-- What `main` knows: the threads that it has joined have exited, and what it has read is still
there. -/
def mainPre : MainPc → Shared n → Prop
  | .sleep, _ => True
  | .join i, s => ∀ j : Fin n, j < i → s.exited j = true
  | .readVar1, s => ∀ j, s.exited j = true
  | .readVar2 var1, s => (∀ j, s.exited j = true) ∧ var1 = s.var1
  | .printed var1 var2, s => (∀ j, s.exited j = true) ∧ var1 = s.var1 ∧ var2 = s.var2

/-! ## The assignments -/

@[simp] theorem Update.assign_counts (u : Update) (v : BitVec 32) (s : Shared n) :
    (u.assign v s).counts = s.counts := by
  cases u <;> rfl

@[simp] theorem Update.assign_exited (u : Update) (v : BitVec 32) (s : Shared n) :
    (u.assign v s).exited = s.exited := by
  cases u <;> rfl

theorem total_add_single (counts : Fin n → ℕ) (i : Fin n) :
    total (counts + Pi.single i 1) = total counts + 1 := by
  have hsum : ∑ j, (counts + Pi.single i 1 : Fin n → ℕ) j = (∑ j, counts j) + 1 := by
    simp only [Pi.add_apply, Finset.sum_add_distrib, Finset.sum_pi_single', Finset.mem_univ,
      if_true]
  rw [total, hsum, BitVec.ofNat_add]
  rfl

/-- Each assignment leaves the variables as far ahead as the next one expects. -/
theorem Ahead.assign {u u' : Update} {s : Shared n} (h : Ahead u.ahead s)
    (hnext : u.next = some u') : Ahead u'.ahead (u.assign (u.value (u.var s)) s) := by
  obtain ⟨h₁, h₂⟩ := h
  cases u with
  | add1 =>
    cases hnext
    refine ⟨?_, h₂⟩
    show s.var1 + 2 = total s.counts + 2
    rw [h₁]
    exact congrArg (· + 2) (BitVec.add_zero _)
  | dec1 =>
    cases hnext
    refine ⟨?_, h₂⟩
    show s.var1 - 1 = total s.counts + 1
    rw [h₁]
    show total s.counts + 2 - 1 = total s.counts + 1
    bv_omega
  | add2 =>
    cases hnext
    refine ⟨h₁, ?_⟩
    show s.var2 + 2 = total s.counts + 2
    rw [h₂]
    exact congrArg (· + 2) (BitVec.add_zero _)
  | dec2 => cases hnext

/-- After the last one there is one more update, and both variables have it. -/
theorem Ahead.last {u : Update} {s : Shared n} (h : Ahead u.ahead s) (hlast : u.next = none)
    (i : Fin n) :
    Inv { u.assign (u.value (u.var s)) s with counts := s.counts + Pi.single i 1 } := by
  obtain ⟨h₁, h₂⟩ := h
  cases u with
  | add1 | dec1 | add2 => cases hlast
  | dec2 =>
    constructor
    · show s.var1 = total (s.counts + Pi.single i 1) + 0
      rw [h₁, total_add_single]
      exact (BitVec.add_zero _).symm
    · show s.var2 - 1 = total (s.counts + Pi.single i 1) + 0
      rw [h₂, total_add_single]
      show total s.counts + 2 - 1 = total s.counts + 1 + 0
      bv_omega

/-! ## Acts -/

theorem UpdatePre.act {i : Fin n} {pc l : UpdatePc} {s s' : Shared n} (h : UpdateAct i pc s s' l)
    (hp : UpdatePre i pc s) : UpdatePre i l s' := by
  obtain ⟨hcounts, hexited, hknows⟩ := hp
  cases h with
  | again | done => exact ⟨hcounts, hexited, trivial⟩
  | compare1 => exact ⟨hcounts, hexited, hknows, rfl⟩
  | differ hne =>
    obtain ⟨hinv, rfl⟩ := hknows
    exact absurd (hinv.var1.trans hinv.var2.symm) hne
  | agree => exact ⟨hcounts, hexited, hknows.1⟩
  | readLvar1 | readLvar2 | readVar2 | writeVar1 | printf => exact hknows.elim
  | work => exact ⟨hcounts, hexited, trivial⟩
  | read => exact ⟨hcounts, hexited, hknows, rfl⟩
  | write hnext =>
    obtain ⟨hahead, rfl⟩ := hknows
    refine ⟨?_, ?_, hahead.assign hnext⟩
    · rw [Update.assign_counts, hcounts]
      rfl
    · rw [Update.assign_exited, hexited]
      rfl
  | last hlast =>
    obtain ⟨hahead, rfl⟩ := hknows
    refine ⟨?_, ?_, hahead.last hlast i⟩
    · simp only [Pi.add_apply, Pi.single_eq_same, hcounts]
      rfl
    · simp only [Update.assign_exited, hexited]
      rfl
  | leave =>
    refine ⟨hcounts, ?_, trivial⟩
    simp only [Function.update_self]
    rfl

theorem UpdateAct.counts {i j : Fin n} {pc l : UpdatePc} {s s' : Shared n}
    (h : UpdateAct i pc s s' l) (hj : j ≠ i) : s'.counts j = s.counts j := by
  cases h with
  | last => simp only [Pi.add_apply, Pi.single_eq_of_ne hj, add_zero]
  | write => rw [Update.assign_counts]
  | _ => rfl

theorem UpdateAct.exited {i j : Fin n} {pc l : UpdatePc} {s s' : Shared n}
    (h : UpdateAct i pc s s' l) (hj : j ≠ i) : s'.exited j = s.exited j := by
  cases h with
  | leave => exact Function.update_of_ne hj _ _
  | write => rw [Update.assign_exited]
  | last => exact congrFun (Update.assign_exited ..) j
  | _ => rfl

theorem UpdateAct.exited_mono {i j : Fin n} {pc l : UpdatePc} {s s' : Shared n}
    (h : UpdateAct i pc s s' l) (hexited : s.exited j = true) : s'.exited j = true := by
  by_cases hj : j = i
  · subst hj
    cases h with
    | leave => exact Function.update_self ..
    | write => rwa [Update.assign_exited]
    | last => exact (congrFun (Update.assign_exited ..) j).trans hexited
    | _ => exact hexited
  · rwa [h.exited hj]

theorem mainPre_act {pc l : MainPc} {s s' : Shared n} (h : MainAct pc s s' l)
    (hp : mainPre pc s) : mainPre l s' := by
  cases h with
  | sleep => exact fun j hj => absurd hj (Nat.not_lt_zero _)
  | joined hi hexited =>
    intro j hj
    rcases Nat.lt_succ_iff_lt_or_eq.1 hj with hj | hj
    · exact hp j hj
    · subst hj
      exact hexited
  | allJoined hi => exact fun j => hp j (by omega)
  | readVar1 => exact ⟨hp, rfl⟩
  | readVar2 => exact ⟨hp.1, hp.2, rfl⟩

/-- A thread that acts has not exited, so `main` is not past its joins. -/
theorem mainPre_other {i : Fin n} {pc l : UpdatePc} {s s' : Shared n} {m : MainPc}
    (h : UpdateAct i pc s s' l) (hi : UpdatePre i pc s) (hp : mainPre m s) : mainPre m s' := by
  have hrunning : ¬ ∀ j, s.exited j = true := by
    intro hall
    have hexited := hi.exited.symm.trans (hall i)
    cases h <;> cases hexited
  cases m with
  | sleep => trivial
  | join => exact fun j hj => h.exited_mono (hp j hj)
  | readVar1 => exact absurd hp hrunning
  | readVar2 | printed => exact absurd hp.1 hrunning

/-! ## The outline -/

/-- Outside its critical sections a thread relies on what it counts. -/
theorem UpdatePre.outside {j : Fin n} {pc : UpdatePc} {s s' : Shared n} (hp : UpdatePre j pc s)
    (hout : pc.holds = false) (hcounts : s'.counts j = s.counts j)
    (hexited : s'.exited j = s.exited j) : UpdatePre j pc s' := by
  refine ⟨hcounts.trans hp.counts, hexited.trans hp.exited, ?_⟩
  cases pc with
  | loop | lock1 | work | lock2 | leave | exited => trivial
  | printf => exact hp.knows
  | _ => cases hout

/-- A step that leaves the two variables alone. -/
structure Frame (s s' : Shared n) : Prop where
  var1 : s'.var1 = s.var1
  var2 : s'.var2 = s.var2
  counts : s'.counts = s.counts

theorem Ahead.frame {d : BitVec 32 × BitVec 32} {s s' : Shared n} (h : Ahead d s)
    (hframe : Frame s s') : Ahead d s' :=
  ⟨by rw [hframe.var1, hframe.counts, h.var1], by rw [hframe.var2, hframe.counts, h.var2]⟩

theorem UpdatePre.frame {j : Fin n} {pc : UpdatePc} {s s' : Shared n} (hp : UpdatePre j pc s)
    (hframe : Frame s s') (hexited : s'.exited j = s.exited j) : UpdatePre j pc s' := by
  have hvar : ∀ u : Update, u.var s' = u.var s := by
    intro u
    cases u with
    | add1 | dec1 => exact hframe.var1
    | add2 | dec2 => exact hframe.var2
  refine ⟨(congrFun hframe.counts j).trans hp.counts, hexited.trans hp.exited, ?_⟩
  have hknows := hp.knows
  cases pc with
  | compare1 | unlock1 | unlock2 | read => exact hknows.frame hframe
  | compare2 => exact ⟨hknows.1.frame hframe, hknows.2.trans hframe.var1.symm⟩
  | write => exact ⟨hknows.1.frame hframe, by rw [hvar]; exact hknows.2⟩
  | _ => exact hknows

theorem UpdateAct.frame {i : Fin n} {pc l : UpdatePc} {s s' : Shared n} (h : UpdateAct i pc s s' l)
    (hout : pc.holds = false) : Frame s s' := by
  cases h with
  | again | done | printf | work | leave => exact ⟨rfl, rfl, rfl⟩
  | _ => cases hout

theorem MainAct.frame {pc l : MainPc} {s s' : Shared n} (h : MainAct pc s s' l) : Frame s s' := by
  cases h <;> exact ⟨rfl, rfl, rfl⟩

theorem MainAct.exited {pc l : MainPc} {s s' : Shared n} (h : MainAct pc s s' l) :
    s'.exited = s.exited := by
  cases h <;> rfl

/-- What an act of thread `i` does not take from another one. -/
theorem UpdateAct.other {i j : Fin n} {pc l pc' : UpdatePc} {s s' : Shared n}
    (h : UpdateAct i pc s s' l) (hj : j ≠ i) (hin : pc.holds = true → pc'.holds = false)
    (hp : UpdatePre j pc' s) : UpdatePre j pc' s' := by
  by_cases hholds : pc.holds = true
  · exact hp.outside (hin hholds) (h.counts hj) (h.exited hj)
  · exact hp.frame (h.frame (Bool.not_eq_true _ ▸ hholds)) (h.exited hj)

/-- The proof outline. -/
def outline (n : ℕ) : Outline (program n) where
  inv := Inv
  pre
    | .main => mainPre
    | .update i => UpdatePre i
  rest _ _ _ := False
  lock {i pc k s} hc hp hinv := by
    cases i with
    | main => cases pc <;> cases hc
    | update i => cases pc <;> cases hc <;> exact ⟨hp.counts, hp.exited, hinv⟩
  unlock {i pc k s} hc hp := by
    cases i with
    | main => cases pc <;> cases hc
    | update i =>
      cases pc with
      | unlockRepaired => exact hp.knows.elim
      | unlock1 | unlock2 => cases hc; exact ⟨hp.knows, hp.counts, hp.exited, trivial⟩
      | _ => cases hc
  wait {i pc k s} hc hp := by
    cases i <;> cases pc <;> cases hc
  relock {i pc k s} hc hp hinv := by
    cases i <;> cases pc <;> cases hc
  notify {i pc k s} hc hp := by
    rcases hc with hc | hc <;> cases i <;> cases pc <;> cases hc
  act {i pc k s s' e f} hc hf hp := by
    cases i with
    | main => exact mainPre_act (main_act hc hf) hp
    | update i => exact hp.act (update_act hc hf)
  act_inv {i pc k s s' e f} hc hf hout _ hinv := by
    cases i with
    | main => exact hinv.frame (main_act hc hf).frame
    | update i => exact hinv.frame ((update_act hc hf).frame hout)
  act_other {i pc k s s' e f} hc hf hp {j t} hj hin ht := by
    cases t with
    | asleep | woken => exact ht
    | run pc' =>
      cases i with
      | main =>
        have hact := main_act hc hf
        cases j with
        | main => exact absurd rfl hj
        | update j => exact UpdatePre.frame ht hact.frame (congrFun hact.exited j)
      | update i =>
        have hact := update_act hc hf
        cases j with
        | main => exact mainPre_other hact hp ht
        | update j => exact hact.other (fun heq => hj (congrArg _ heq)) hin ht

theorem outline_start (s : Shared n) (hs : s = start n) :
    (outline n).inv s ∧ ∀ i, (outline n).pre i ((program n).start i) s := by
  subst hs
  constructor
  · have htotal : total (start n).counts = 0 := by
      simp only [total, start, Finset.sum_const_zero]
      rfl
    exact ⟨by rw [htotal]; rfl, by rw [htotal]; rfl⟩
  · intro i
    cases i with
    | main => trivial
    | update i => exact ⟨rfl, rfl, trivial⟩

theorem holds_of_reachable {c : Config (program n)} (h : Reachable c) : (outline n).Holds c :=
  (outline n).sound outline_start h

/-! ## The theorem -/

theorem updatePre_of_reachable {c : Config (program n)} (h : Reachable c) {i : Fin n}
    {pc : UpdatePc} (hi : updateAt c i = .run pc) : UpdatePre i pc c.shared :=
  (holds_of_reachable h).pre (i := .update i) hi

theorem mutex_eq_none {c : Config (program n)} (h : Reachable c) {iterations : Fin n → ℕ}
    (hexited : ∀ i, updateAt c i = .run (.exited (iterations i))) : c.mutex = none := by
  cases hm : c.mutex with
  | none => rfl
  | some i =>
    obtain ⟨pc, hi, hin⟩ := h.owned.holder hm
    cases i with
    | main => cases hin
    | update i =>
      cases hi.symm.trans (hexited i)
      cases hin

/-- When all threads have exited, the variables are the number of iterations. -/
theorem eq_iterations {c : Config (program n)} (h : Reachable c) {iterations : Fin n → ℕ}
    (hexited : ∀ i, updateAt c i = .run (.exited (iterations i))) :
    c.shared.var1 = BitVec.ofNat 32 (∑ i, iterations i) ∧
    c.shared.var2 = BitVec.ofNat 32 (∑ i, iterations i) := by
  have hinv : Inv c.shared := (holds_of_reachable h).inv (mutex_eq_none h hexited)
  have hcounts : c.shared.counts = iterations :=
    funext fun i => (updatePre_of_reachable h (hexited i)).counts
  rw [← hcounts]
  exact ⟨hinv.var1.trans (BitVec.add_zero _), hinv.var2.trans (BitVec.add_zero _)⟩

/-- **No increment is lost.** -/
theorem no_increment_lost (n : ℕ) (c : Config (program n)) (h : Reachable c) :
    (c.mutex = none → c.shared.var1 = c.shared.var2) ∧
    (∀ i pc, updateAt c i = .run pc → ¬ pc.Repairs) ∧
    ∀ iterations : Fin n → ℕ, (∀ i, updateAt c i = .run (.exited (iterations i))) →
      c.shared.var1 = BitVec.ofNat 32 (∑ i, iterations i) ∧
      c.shared.var2 = BitVec.ofNat 32 (∑ i, iterations i) := by
  refine ⟨fun hm => ?_, fun i pc hi hrepairs => ?_, fun iterations => eq_iterations h⟩
  · have hinv : Inv c.shared := (holds_of_reachable h).inv hm
    exact hinv.var1.trans hinv.var2.symm
  · have hknows := (updatePre_of_reachable h hi).knows
    cases pc with
    | readLvar1 | readLvar2 | readVar2 | writeVar1 | unlockRepaired | printf => exact hknows
    | _ => exact hrepairs

/-- One iteration of a thread. -/
def iteration (i : Fin 2) : List (Tid 2 × Unit) := List.replicate 16 (.update i, ())

/-- The first thread has compared the variables when the second one comes, then they take turns:
two iterations and one. -/
theorem no_increment_lost_turns : ∃ c : Config (program 2), Reachable c ∧
    updateAt c 0 = .run (.exited 2) ∧ updateAt c 1 = .run (.exited 1) ∧ c.shared.var1 = 3 := by
  obtain ⟨c, hc, hp⟩ := exists_reach (P := program 2) (I := (· = start 2)) rfl
    (l := List.replicate 6 (.update 0, ()) ++ iteration 1 ++
      List.replicate 10 (.update 0, ()) ++ iteration 0 ++ [(.main, ())] ++
      [(.update 0, ()), (.update 0, ()), (.update 1, ()), (.update 1, ())])
    (p := fun c => updateAt c 0 == .run (.exited 2) && updateAt c 1 == .run (.exited 1))
    (by decide)
  simp only [Bool.and_eq_true, beq_iff_eq] at hp
  have hexited : ∀ i, updateAt c i = .run (.exited (![2, 1] i)) := by
    rw [Fin.forall_fin_two]
    exact hp
  exact ⟨c, hc, hp.1, hp.2, ((no_increment_lost 2 c hc).2.2 _ hexited).1⟩

theorem exited_of_joined {c : Config (program n)} (h : Reachable c) {i : Fin n}
    (hi : c.shared.exited i = true) : ∃ k, updateAt c i = .run (.exited k) := by
  have hmeets := (holds_of_reachable h).at_ (.update i)
  change (updateAt c i).Meets (UpdatePre i) (fun _ _ => False) c.shared at hmeets
  cases ht : updateAt c i with
  | asleep | woken =>
    rw [ht] at hmeets
    exact hmeets.elim
  | run pc =>
    rw [ht] at hmeets
    have hexited := hmeets.exited.symm.trans hi
    cases pc with
    | exited k => exact ⟨k, rfl⟩
    | _ => cases hexited

/-- **What `main` prints.** Both values are the number of iterations that the threads have made. -/
theorem prints_iterations {c : Config (program n)} (h : Reachable c) {v₁ v₂ : BitVec 32}
    (hmain : mainAt c = .run (.printed v₁ v₂)) :
    ∃ iterations : Fin n → ℕ, (∀ i, updateAt c i = .run (.exited (iterations i))) ∧
      v₁ = BitVec.ofNat 32 (∑ i, iterations i) ∧ v₂ = BitVec.ofNat 32 (∑ i, iterations i) := by
  obtain ⟨hjoined, rfl, rfl⟩ : mainPre (.printed v₁ v₂) c.shared :=
    (holds_of_reachable h).pre (i := .main) hmain
  obtain ⟨iterations, hiterations⟩ := Classical.axiomOfChoice fun i =>
    exited_of_joined h (hjoined i)
  exact ⟨iterations, hiterations, eq_iterations h hiterations⟩

end QnxTutorial.MutexSync
