import Mathlib.Algebra.Group.Nat.Defs
import QnxTutorial.Condvar.Program
import QnxTutorial.Monitor.Schedule

/-!
# The program refines its state machine

The comment at the head of `condvar.c` documents a state machine (`Chart`): state 0 goes to 1, and
state 1 goes to 2 and to 3 in turn, which go back to 0. The values assigned to `state` are those
that the state machine passes through (`Inv`). What connects the program to it is the counter of
`state_1`: one more than the number of times that state 1 has been left, modulo `2 ^ 32`, which
keeps the parity (`Knows`).

**Theorem (`refines`).** Whatever the interleaving, the values assigned are `1, 2, 0, 1, 3, 0`
again and again, and each state is left by its own thread.
-/

namespace QnxTutorial.Condvar

open Monitor

/-! ## The documented state machine -/

/-- The state, and how often state 1 has been left. -/
structure Chart where
  state : BitVec 32
  passes : ℕ
  deriving DecidableEq

/-- The transitions. Every other pass through state 1 goes to state 3. -/
def Chart.next (c : Chart) : Chart :=
  if c.state = 0 then ⟨1, c.passes⟩
  else if c.state = 1 then ⟨if c.passes % 2 = 0 then 2 else 3, c.passes + 1⟩
  else ⟨0, c.passes⟩

/-- After `n` transitions. -/
def chart : ℕ → Chart
  | 0 => ⟨0, 0⟩
  | n + 1 => (chart n).next

theorem chart_mul_six (q : ℕ) : chart (6 * q) = ⟨0, 2 * q⟩ := by
  induction q with
  | zero => rfl
  | succ q ih =>
    show (chart (6 * q)).next.next.next.next.next.next = _
    rw [ih]
    simp [Chart.next, show (2 * q + 1) % 2 = 1 by omega]
    omega

/-- `1, 2, 0, 1, 3, 0, ..`. -/
def period (n : ℕ) : BitVec 32 :=
  match n % 6 with
  | 0 | 3 => 1
  | 1 => 2
  | 4 => 3
  | _ => 0

theorem chart_state (n : ℕ) : (chart (n + 1)).state = period n := by
  have hn : n = 6 * (n / 6) + n % 6 := by omega
  have hlt : n % 6 < 6 := Nat.mod_lt _ (by decide)
  generalize n / 6 = q at hn
  generalize hr : n % 6 = r at hn hlt
  subst hn
  have hodd : (2 * q + 1) % 2 = 1 := by omega
  unfold period
  rw [hr]
  match r with
  | 0 => simp [chart, chart_mul_six, Chart.next]
  | 1 => simp [chart, chart_mul_six, Chart.next]
  | 2 => simp [chart, chart_mul_six, Chart.next]
  | 3 => simp [chart, chart_mul_six, Chart.next]
  | 4 => simp [chart, chart_mul_six, Chart.next, hodd]
  | 5 => simp [chart, chart_mul_six, Chart.next, hodd]

theorem exists_own (n : ℕ) : ∃ i, (chart n).state = own i := by
  induction n with
  | zero => exact ⟨.state0, rfl⟩
  | succ n ih =>
    show ∃ i, (chart n).next.state = own i
    unfold Chart.next
    split_ifs
    · exact ⟨.state1, rfl⟩
    · exact ⟨.state2, rfl⟩
    · exact ⟨.state3, rfl⟩
    · exact ⟨.state0, rfl⟩

/-! ## Assertions -/

/-- The state machine has come as far as the program. -/
def Shared.chart (s : Shared) : Chart := Condvar.chart s.assigned.length

/-- The program follows the state machine. -/
structure Inv (s : Shared) : Prop where
  state : s.state = s.chart.state
  values : s.assigned.map Prod.snd =
    (List.range s.assigned.length).map fun n => (Condvar.chart (n + 1)).state
  leavers : s.assigned.map (own ∘ Prod.fst) =
    (List.range s.assigned.length).map fun n => (Condvar.chart n).state

/-- What a thread knows about its local variable, when state 1 has been left `passes` times. -/
def Knows : (i : Tid) → Local i → (passes : ℕ) → Prop
  | .state1, i, passes => i = BitVec.ofNat 32 (passes + 1)
  | .state0, _, _ | .state2, _, _ | .state3, _, _ => True

def pre (i : Tid) : Pc (Local i) → Shared → Prop
  | .lock x, s => Knows i x s.chart.passes
  | .test x, s | .broadcast x, s | .unlock x, s => Knows i x s.chart.passes ∧ Inv s
  | .wait x, s => Knows i x s.chart.passes ∧ Inv s ∧ s.state ≠ own i
  | .leave x, s => Knows i x s.chart.passes ∧ Inv s ∧ s.state = own i

/-- What a thread relies on while it waits. -/
def rest (i : Tid) : Pc (Local i) → Shared → Prop
  | .test x, s => Knows i x s.chart.passes
  | _, _ => True

theorem inv_start : Inv start := ⟨rfl, rfl, rfl⟩

theorem knows_start (i : Tid) : Knows i (Local.start i) 0 := by
  cases i <;> trivial

/-! ## Leaving a state -/

theorem and_one_ne_zero_iff (n : ℕ) : BitVec.ofNat 32 n &&& 1 ≠ 0 ↔ n % 2 = 1 := by
  have hnat : (BitVec.ofNat 32 n &&& 1).toNat = n % 2 := by
    rw [BitVec.toNat_and]
    show (BitVec.ofNat 32 n).toNat &&& 1 = n % 2
    rw [Nat.and_one_is_mod, BitVec.toNat_ofNat]
    omega
  rw [Ne, ← BitVec.toNat_inj, hnat]
  show ¬ n % 2 = 0 ↔ n % 2 = 1
  omega

/-- What `state_1` does when its counter is one more than the number of passes. -/
theorem leave1_ofNat (n : ℕ) :
    leave1 (BitVec.ofNat 32 (n + 1)) = (BitVec.ofNat 32 (n + 2), if n % 2 = 0 then 2 else 3) := by
  have hcount : BitVec.ofNat 32 (n + 1) + 1 = BitVec.ofNat 32 (n + 2) :=
    (BitVec.ofNat_add ..).symm
  simp only [leave1, hcount, and_one_ne_zero_iff, Nat.add_mod_right, Prod.mk.injEq, true_and]
  rcases Nat.mod_two_eq_zero_or_one n with h | h <;> rw [h] <;> rfl

theorem Shared.chart_left (s : Shared) (i : Tid) (x : Local i) :
    (s.left i x).chart = s.chart.next := by
  simp [Shared.chart, Shared.left, Condvar.chart]

/-- A thread takes the transition of the state machine, and keeps count. -/
theorem leave_next {s : Shared} {i : Tid} {x : Local i} (hx : Knows i x s.chart.passes)
    (hs : s.chart.state = own i) :
    (leave i x).2 = s.chart.next.state ∧ Knows i (leave i x).1 s.chart.next.passes := by
  cases i with
  | state0 | state2 | state3 =>
    refine ⟨?_, trivial⟩
    simp [Chart.next, hs, own, leave]
  | state1 =>
    have hnext : s.chart.next =
        ⟨if s.chart.passes % 2 = 0 then 2 else 3, s.chart.passes + 1⟩ := by
      simp [Chart.next, hs, own]
    have hleave : leave .state1 x = leave1 (BitVec.ofNat 32 (s.chart.passes + 1)) :=
      congrArg leave1 hx
    rw [hleave, leave1_ofNat, hnext]
    exact ⟨rfl, rfl⟩

theorem Inv.left {s : Shared} (h : Inv s) {i : Tid} {x : Local i} (hx : Knows i x s.chart.passes)
    (hs : s.state = own i) : Inv (s.left i x) := by
  have hown : s.chart.state = own i := h.state.symm.trans hs
  have hv := (leave_next hx hown).1
  refine ⟨?_, ?_, ?_⟩
  · rw [s.chart_left]
    exact hv
  · simp only [Shared.left, List.map_append, h.values, List.length_append, List.length_singleton,
      List.range_succ, List.map_singleton, hv]
    rfl
  · simp only [Shared.left, List.map_append, h.leavers, List.length_append, List.length_singleton,
      List.range_succ, List.map_singleton, Function.comp_apply, ← hown]
    rfl

theorem Knows.next {c : Chart} {i j : Tid} {y : Local j} (hy : Knows j y c.passes)
    (hs : c.state = own i) (hj : j ≠ i) : Knows j y c.next.passes := by
  cases j with
  | state0 | state2 | state3 => trivial
  | state1 =>
    have hpasses : c.next.passes = c.passes := by
      unfold Chart.next
      rw [hs]
      cases i with
      | state1 => exact absurd rfl hj
      | state0 | state2 | state3 => rfl
    rw [hpasses]
    exact hy

theorem pre_act {i : Tid} {pc k : Pc (Local i)} {s s' : Shared} (h : Act i pc s s' k)
    (hp : pre i pc s) : pre i k s' := by
  cases h with
  | notMine hs => exact ⟨hp.1, hp.2, hs⟩
  | mine hs => exact ⟨hp.1, hp.2, hs⟩
  | @leave s x =>
    obtain ⟨hx, hinv, hs⟩ := hp
    refine ⟨?_, hinv.left hx hs⟩
    rw [s.chart_left]
    exact (leave_next hx (hinv.state.symm.trans hs)).2

/-- A thread outside its critical section relies on its counter, which is its own. -/
theorem meets_act {i j : Tid} {pc k : Pc (Local i)} {s s' : Shared} (h : Act i pc s s' k)
    (hp : pre i pc s) (hj : j ≠ i) {t : Thread (Pc (Local j))}
    (hout : t.inside Pc.holds = false) (ht : t.Meets (pre j) (rest j) s) :
    t.Meets (pre j) (rest j) s' := by
  cases h with
  | notMine | mine => exact ht
  | @leave s x =>
    obtain ⟨-, hinv, hs⟩ := hp
    have hknows : ∀ {y}, Knows j y s.chart.passes → Knows j y (s.left i x).chart.passes := by
      intro y hy
      rw [s.chart_left]
      exact hy.next (hinv.state.symm.trans hs) hj
    cases t with
    | run pc =>
      cases pc with
      | lock y => exact hknows ht
      | test | wait | leave | broadcast | unlock => cases hout
    | asleep q | woken q =>
      cases q with
      | test y => exact hknows ht
      | _ => trivial

/-! ## The outline -/

/-- The proof outline. -/
def outline : Outline program where
  inv := Inv
  pre := pre
  rest := rest
  lock {i pc k s} hc hp hinv := by
    cases pc <;> cases handler_of_code hc
    exact ⟨hp, hinv⟩
  unlock {i pc k s} hc hp := by
    cases pc <;> cases handler_of_code hc
    exact ⟨hp.2, hp.1⟩
  wait {i pc k s} hc hp := by
    cases pc <;> cases handler_of_code hc
    exact ⟨hp.2.1, hp.1⟩
  relock {i pc k s} hc hp hinv := by
    cases pc <;> cases handler_of_code hc
    exact ⟨hp, hinv⟩
  notify {i pc k s} hc hp := by
    rcases hc with hc | hc <;> cases pc <;> cases handler_of_code hc
    exact hp
  act hc hf hp := pre_act (code_act hc hf) hp
  act_inv hc hf hout _ _ := nomatch hout.symm.trans (code_act hc hf).inside.1
  act_other hc hf hp _ _ hj hin ht :=
    meets_act (code_act hc hf) hp hj (hin (code_act hc hf).inside.1) ht

theorem outline_start (s : Shared) (hs : s = start) :
    outline.inv s ∧ ∀ i, outline.pre i (program.start i) s := by
  subst hs
  exact ⟨inv_start, knows_start⟩

theorem holds_of_reachable {c : Config program} (h : Reachable c) : outline.Holds c :=
  outline.sound outline_start h

/-! ## The theorem -/

/-- The program follows the state machine also inside a critical section. -/
theorem inv_of_reachable {c : Config program} (h : Reachable c) : Inv c.shared := by
  have hO := holds_of_reachable h
  cases hm : c.mutex with
  | none => exact hO.inv hm
  | some i =>
    obtain ⟨pc, hi, hin⟩ := h.owned.holder hm
    have hpre : pre i pc c.shared := hO.pre hi
    cases pc with
    | lock => cases hin
    | test | broadcast | unlock => exact hpre.2
    | wait | leave => exact hpre.2.1

/-- **The program refines its state machine.** The values assigned to `state` are the first of the
periodic sequence, each by the thread whose state it was before. -/
theorem refines (c : Config program) (h : Reachable c) :
    c.shared.assigned.map Prod.snd = (List.range c.shared.assigned.length).map period ∧
    ∀ n (hn : n < c.shared.assigned.length), own c.shared.assigned[n].1 = (chart n).state := by
  have hinv := inv_of_reachable h
  constructor
  · rw [hinv.values]
    exact List.map_congr_left fun n _ => chart_state n
  · intro n hn
    have hget := List.getElem_of_eq hinv.leavers (i := n) (by simpa using hn)
    simpa using hget

/-- A pass of one thread through its loop. -/
def pass (i : Tid) : List (Tid × Unit) := List.replicate 5 (i, ())

theorem refines_twice : ∃ c : Config program, Reachable c ∧
    c.shared.assigned.map Prod.snd = (List.range 5).map period ∧ c.shared.state = 3 := by
  obtain ⟨c, hc, hp⟩ := exists_reach (P := program) (I := (· = start)) rfl
    (l := pass .state0 ++ pass .state1 ++ pass .state2 ++ pass .state0 ++ pass .state1)
    (p := fun c => c.shared.assigned.length == 5 && c.shared.state == 3) (by decide)
  simp only [Bool.and_eq_true, beq_iff_eq] at hp
  obtain ⟨hlength, hstate⟩ := hp
  exact ⟨c, hc, hlength ▸ (refines c hc).1, hstate⟩

end QnxTutorial.Condvar
