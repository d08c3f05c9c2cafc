import Mathlib.Data.Set.Finite.Basic
import QnxTutorial.CondvarQueue.Wakeup
import QnxTutorial.Monitor.Pace

/-!
# The queue is drained

When the producers stop calling `add_to_queue`, the program comes to rest: the handler takes off
what is left, writes it, and goes to sleep. How long that takes is a matter of how many values
there are; only spurious wake-ups prolong it.

**Theorem (`drains`).** The length of a run is bounded by the values waiting at its start, the
values added, and the spurious wake-ups; and when no thread can go on but producers that make new
calls, every value added has been written.
-/

namespace QnxTutorial.CondvarQueue

open Monitor

instance {κ : Type} [Fintype κ] [DecidableEq κ] : Fintype (Tid κ) where
  elems := insert .hardwareHandler (Finset.univ.image .producer)
  complete i := by cases i <;> simp

/-! ## What the handler knows about the flag -/

/-- Past its test and not yet at the point where it clears the flag. -/
def HandlerPc.Busy : HandlerPc → Prop
  | .take | .unlockTaken _ | .write _ | .relock | .clear => True
  | .lock | .test | .wait | .unlock => False

/-- A busy handler has seen the flag set. -/
def flagPre (pc : HandlerPc) (s : Shared) : Prop := pc.Busy → s.dataReady ≠ 0

theorem HandlerAct.flagPre {pc k : HandlerPc} {s s' : Shared} (h : HandlerAct pc s s' k)
    (hp : flagPre pc s) : flagPre k s' := by
  cases h with
  | isReady hr => exact fun _ => hr
  | none | some | write => exact fun _ => hp trivial
  | notReady | clear => exact False.elim

theorem ProducerAct.dataReady_ne {pc k : ProducerPc} {s s' : Shared} (h : ProducerAct pc s s' k)
    (hr : s.dataReady ≠ 0) : s'.dataReady ≠ 0 := by
  cases h with
  | call | add | link => exact hr
  | ready => exact one_ne_zero

/-- The outline that only speaks of the flag. -/
def flagOutline (κ : Type) : Outline (program κ) where
  inv _ := True
  pre
    | .hardwareHandler => flagPre
    | .producer _ => fun _ _ => True
  rest _ _ _ := True
  lock {i pc k s} hc hp _ := by
    cases i with
    | producer => trivial
    | hardwareHandler =>
      cases pc <;> cases hc
      · exact False.elim
      · exact fun _ => hp trivial
  unlock {i pc k s} hc hp := by
    cases i with
    | producer => exact ⟨trivial, trivial⟩
    | hardwareHandler =>
      cases pc <;> cases hc
      · exact ⟨trivial, fun _ => hp trivial⟩
      · exact ⟨trivial, False.elim⟩
  wait _ _ := ⟨trivial, trivial⟩
  relock {i pc k s} hc _ _ := by
    cases i with
    | producer => trivial
    | hardwareHandler =>
      cases pc <;> cases hc
      exact False.elim
  notify {i pc k s} hc _ := by
    cases i with
    | producer => trivial
    | hardwareHandler => rcases hc with hc | hc <;> cases pc <;> cases hc
  act {i pc k s s' e f} hc hf hp := by
    cases i with
    | producer => trivial
    | hardwareHandler => exact (hardwareHandler_act hc hf).flagPre hp
  act_inv _ _ _ _ _ := trivial
  act_other {i pc k s s' e f} hc hf _ {j t} hj _ ht := by
    cases j with
    | producer => cases t <;> trivial
    | hardwareHandler =>
      cases i with
      | hardwareHandler => exact absurd rfl hj
      | producer =>
        cases t with
        | run pc => exact fun hb => (addToQueue_act hc hf).dataReady_ne (ht hb)
        | asleep | woken => trivial

variable {κ : Type} [DecidableEq κ]

theorem flag_of_reachable {c : Config (program κ)} (h : Reachable c) : (flagOutline κ).Holds c := by
  apply (flagOutline κ).sound _ h
  intro s hs
  refine ⟨trivial, ?_⟩
  intro i
  cases i with
  | hardwareHandler => exact False.elim
  | producer => trivial

/-! ## The ranks -/

def HandlerPc.rank : HandlerPc → ℕ
  | .wait | .clear => 1
  | .take => 2
  | .test | .relock => 3
  | .lock | .write _ => 4
  | .unlock | .unlockTaken _ => 5

def ProducerPc.rank : ProducerPc → ℕ
  | .add _ => 1
  | .lock _ => 2
  | .idle => 3
  | .signal => 8
  | .unlock => 9
  | .ready => 15
  | .link _ => 16

/-- Every value in the queue pays for its turn of the inner loop, a set flag for a turn of the
outer one. -/
def stock (s : Shared) : ℕ :=
  4 * (s.added.length - s.removed.length) + if s.dataReady = 0 then 0 else 5

theorem HandlerAct.rank_lt {pc k : HandlerPc} {s s' : Shared} (h : HandlerAct pc s s' k)
    (hp : handlerPre pc s) (hflag : CondvarQueue.flagPre pc s) :
    k.rank + stock s' + 20 * s.added.length < pc.rank + stock s + 20 * s'.added.length := by
  cases h with
  | notReady | isReady | none | write =>
    simp only [HandlerPc.rank, stock]
    omega
  | @some s data queue hq =>
    -- There is a value to take, so it is one that was added and not yet removed.
    obtain ⟨⟨⟨l, hl, hadd⟩, -⟩, -⟩ := hp
    cases l with
    | nil =>
      rw [getDataAndRemoveFromQueue_nil hl] at hq
      cases hq
    | cons x l =>
      have hlength := congrArg List.length hadd
      rw [List.length_append, List.length_cons] at hlength
      simp only [HandlerPc.rank, stock, List.length_append, List.length_singleton]
      omega
  | clear =>
    have hr := hflag trivial
    simp only [HandlerPc.rank, stock, if_neg hr, if_true]
    omega

theorem ProducerAct.rank_lt {pc k : ProducerPc} {s s' : Shared} (h : ProducerAct pc s s' k) :
    k.rank + stock s' + 20 * s.added.length < pc.rank + stock s + 20 * s'.added.length := by
  cases h with
  | call | link =>
    simp only [ProducerPc.rank, stock]
    omega
  | add =>
    simp only [ProducerPc.rank, stock, List.length_append, List.length_singleton]
    omega
  | ready =>
    simp only [ProducerPc.rank, stock, one_ne_zero, if_false]
    omega

/-- A value added pays for twenty steps. -/
def pace (κ : Type) [Fintype κ] [DecidableEq κ] : Pace (program κ) where
  know
    | .hardwareHandler => fun pc s => handlerPre pc s ∧ flagPre pc s
    | .producer _ => fun _ _ => True
  rank
    | .hardwareHandler => HandlerPc.rank
    | .producer _ => ProducerPc.rank
  stock := stock
  goals s := s.added.length
  worth := 20
  wake := 4
  lock {i pc k} hc := by
    cases i <;> cases pc <;> cases hc <;> simp [HandlerPc.rank, ProducerPc.rank]
  unlock {i pc k} hc := by
    cases i <;> cases pc <;> cases hc <;> simp [HandlerPc.rank, ProducerPc.rank]
  wait {i pc k} hc := by
    cases i <;> cases pc <;> cases hc
    simp [HandlerPc.rank]
  signal {i pc k} hc := by
    cases i <;> cases pc <;> cases hc
    simp [ProducerPc.rank]
  broadcast {i pc k} hc := by cases i <;> cases pc <;> cases hc
  act {i pc k s s' e f} hc hf hk := by
    cases i with
    | hardwareHandler => exact (hardwareHandler_act hc hf).rank_lt hk.1 hk.2
    | producer => exact (addToQueue_act hc hf).rank_lt

theorem HandlerPc.rank_le (pc : HandlerPc) : pc.rank ≤ 16 := by
  cases pc <;> simp [rank]

theorem ProducerPc.rank_le (pc : ProducerPc) : pc.rank ≤ 16 := by
  cases pc <;> simp [rank]

variable [Fintype κ]

theorem knows_of_reachable {c : Config (program κ)} (h : Reachable c) : (pace κ).Knows c := by
  intro i pc hi
  cases i with
  | hardwareHandler => exact ⟨(holds_of_reachable h).pre hi, (flag_of_reachable h).pre hi⟩
  | producer => trivial

theorem card_tid : Fintype.card (Tid κ) = Fintype.card κ + 1 := by
  have hinj : Function.Injective (Tid.producer : κ → Tid κ) := fun _ _ h => by cases h; rfl
  show (insert Tid.hardwareHandler (Finset.univ.image Tid.producer)).card = _
  rw [Finset.card_insert_of_notMem (by simp), Finset.card_image_of_injective _ hinj]
  rfl

theorem potential_le (c : Config (program κ)) : (pace κ).potential c ≤
    16 * (Fintype.card κ + 1) + 4 * (c.shared.added.length - c.shared.removed.length) + 5 := by
  have hthread : ∀ i ∈ Finset.univ, (pace κ).ofThread i (c.thread i) ≤ 16 := by
    intro i _
    cases c.thread i with
    | run pc =>
      cases i with
      | hardwareHandler => exact HandlerPc.rank_le pc
      | producer => exact ProducerPc.rank_le pc
    | asleep => exact Nat.zero_le _
    | woken => show 4 ≤ 16; decide
  have htotal : (pace κ).total c.thread ≤ Fintype.card (Tid κ) * 16 :=
    Finset.sum_le_card_nsmul _ _ _ hthread
  have hstock : (pace κ).stock c.shared ≤
      4 * (c.shared.added.length - c.shared.removed.length) + 5 := by
    show stock _ ≤ _
    unfold stock
    split_ifs <;> omega
  rw [card_tid] at htotal
  unfold Pace.potential
  omega

/-! ## Who can go on -/

/-- The nodes in use. -/
def Queue.used (q : Queue) : Set Ptr := {p | q.heap p ≠ none}

theorem finite_used_update {q q' : Queue} (h : q.used.Finite) {a : Ptr}
    {x : Option (LinkedList.Node Ptr ℤ)} (hq : q'.heap = Function.update q.heap a x) :
    q'.used.Finite := by
  apply (h.insert a).subset
  intro p hp
  by_cases ha : p = a
  · exact .inl ha
  · rw [Queue.used, Set.mem_ofPred_eq, hq, Function.update_of_ne ha] at hp
    exact .inr hp

theorem finite_used_take {q q' : Queue} {data : Option ℤ} (h : q.used.Finite)
    (hq : getDataAndRemoveFromQueue q = some (data, q')) : q'.used.Finite := by
  unfold getDataAndRemoveFromQueue at hq
  cases hp : q.dataQueuep with
  | none =>
    simp only [hp, Option.some.injEq, Prod.mk.injEq] at hq
    exact hq.2 ▸ h
  | some curp =>
    simp only [hp, Option.map_eq_some_iff, Prod.mk.injEq] at hq
    obtain ⟨node, -, -, rfl⟩ := hq
    exact finite_used_update h rfl

theorem finite_used_add {q q' : Queue} {newp : Ptr} {loops : ℕ} {data : ℤ} (h : q.used.Finite)
    (hq : addElementToQueue newp loops data q = some q') : q'.used.Finite := by
  unfold addElementToQueue at hq
  let new : Queue := { q with heap := Function.update q.heap newp (some ⟨none, data⟩) }
  have hnew : new.used.Finite := finite_used_update h rfl
  cases hp : q.dataQueuep with
  | none =>
    simp only [hp, Option.some.injEq] at hq
    exact hq ▸ hnew
  | some endofqueuep =>
    simp only [hp, Option.bind_eq_some_iff, Option.map_eq_some_iff] at hq
    obtain ⟨last, -, node, -, rfl⟩ := hq
    exact finite_used_update hnew rfl

omit [Fintype κ] in
/-- Finitely many nodes are in use, so there is always one for `malloc` to give. -/
theorem exists_fresh {c : Config (program κ)} (h : Reachable c) :
    ∃ newp, Fresh newp c.shared.queue := by
  have hfinite : c.shared.queue.used.Finite := by
    apply h.shared_invariant (J := fun s => s.queue.used.Finite)
    · rintro s rfl
      simp [start, Queue.empty, Queue.used]
    · intro i pc k f e s s' hc hf hs
      cases i with
      | hardwareHandler =>
        cases hardwareHandler_act hc hf with
        | none hq | some hq => exact finite_used_take hs hq
        | notReady | isReady | write | clear => exact hs
      | producer =>
        cases addToQueue_act hc hf with
        | link hfresh hq => exact finite_used_add hs hq
        | call | add | ready => exact hs
  obtain ⟨newp, hnewp⟩ := hfinite.exists_notMem
  exact ⟨newp, not_not.1 hnewp⟩

omit [Fintype κ] in
theorem ready_of_holder {c : Config (program κ)} (h : Reachable c) {i : Tid κ}
    (hm : c.mutex = some i) : c.Ready i := by
  obtain ⟨pc, hi, hin⟩ := h.owned.holder hm
  have hpre := (holds_of_reachable h).pre hi
  unfold Config.Ready
  simp only [hi]
  cases i with
  | hardwareHandler =>
    change HandlerPc at pc
    cases pc with
    | lock | write | relock => cases hin
    | wait | unlockTaken | unlock => exact hm
    | test | clear => exact ⟨.call 0, _, _, rfl⟩
    | take =>
      obtain ⟨⟨⟨l, hl, -⟩, -⟩, -⟩ := hpre
      cases l with
      | nil =>
        have hq := getDataAndRemoveFromQueue_nil hl
        exact ⟨.call 0, _, _, Option.map_eq_some_iff.2 ⟨_, hq, rfl⟩⟩
      | cons x l =>
        obtain ⟨q', hq, -⟩ := getDataAndRemoveFromQueue_cons hl
        exact ⟨.call 0, _, _, Option.map_eq_some_iff.2 ⟨_, hq, rfl⟩⟩
  | producer k =>
    change ProducerPc at pc
    cases pc with
    | idle | lock | signal => cases hin
    | unlock => exact hm
    | add | ready => exact ⟨.call 0, _, _, rfl⟩
    | link data =>
      obtain ⟨l, ⟨cells, hcells, -⟩, -⟩ := hpre
      obtain ⟨newp, hfresh⟩ := exists_fresh h
      obtain ⟨q', hq, -⟩ := addElementToQueue_adds hcells hfresh data
      refine ⟨.malloc newp cells.length, { c.shared with queue := q' }, .ready, ?_⟩
      show (if Fresh newp c.shared.queue then _ else none) = _
      rw [if_pos hfresh, hq _ (Nat.le_refl _)]
      rfl

omit [DecidableEq κ] [Fintype κ] in
theorem ready_of_free {c : Config (program κ)} (hm : c.mutex = none) {i : Tid κ}
    (hi : ∀ k, c.thread i ≠ .asleep k) (hout : (c.thread i).inside ((program κ).holds i) = false) :
    c.Ready i := by
  unfold Config.Ready
  cases ht : c.thread i with
  | asleep k => exact hi k ht
  | woken k => exact hm
  | run pc =>
    rw [ht] at hout
    cases i with
    | hardwareHandler =>
      change HandlerPc at pc
      cases pc with
      | lock | relock => exact hm
      | write => exact ⟨.call 0, _, _, rfl⟩
      | test | wait | take | unlockTaken | clear | unlock => cases hout
    | producer k =>
      change ProducerPc at pc
      cases pc with
      | lock => exact hm
      | idle => exact ⟨.call 0, _, _, rfl⟩
      | signal => trivial
      | add | link | ready | unlock => cases hout

/-! ## At rest -/

/-- Nobody can go on but producers that call `add_to_queue` again. -/
def AtRest (c : Config (program κ)) : Prop :=
  ∀ i, c.Ready i → ∃ k, i = .producer k ∧ producer c k = .run .idle

omit [Fintype κ] in
theorem AtRest.mutex {c : Config (program κ)} (hr : AtRest c) (h : Reachable c) :
    c.mutex = none := by
  cases hm : c.mutex with
  | none => rfl
  | some i =>
    obtain ⟨k, rfl, hk⟩ := hr i (ready_of_holder h hm)
    obtain ⟨pc, hi, hin⟩ := h.owned.holder hm
    cases hk.symm.trans hi
    cases hin

omit [Fintype κ] in
/-- At rest the handler sleeps, and all that was added has been written. -/
theorem AtRest.written {c : Config (program κ)} (hr : AtRest c) (h : Reachable c) :
    (∃ k, handler c = .asleep k) ∧ c.shared.queue.dataQueuep = none ∧
      c.shared.written = c.shared.added := by
  have hm := hr.mutex h
  have hout : ∀ i, (c.thread i).inside ((program κ).holds i) = false := by
    intro i
    rw [← Bool.not_eq_true]
    intro hin
    exact nomatch hm.symm.trans ((h.owned.owner i).1 hin)
  have hasleep : ∃ k, handler c = .asleep k := by
    by_contra hawake
    simp only [not_exists] at hawake
    obtain ⟨k, hk, -⟩ := hr .hardwareHandler (ready_of_free hm hawake (hout _))
    cases hk
  obtain ⟨k, hk⟩ := hasleep
  -- A producer that has something to do could go on.
  have hidle : ∀ i pc, producer c i = .run pc → pc = .idle := by
    intro i pc hi
    have hawake : ∀ k, c.thread (.producer i) ≠ .asleep k := fun k hk => nomatch hi.symm.trans hk
    obtain ⟨j, hj, hjdle⟩ := hr (.producer i) (ready_of_free hm hawake (hout _))
    cases hj
    cases hi.symm.trans hjdle
    rfl
  have hempty : c.shared.queue.dataQueuep = none := by
    by_contra hdata
    obtain ⟨i, pc, hi, hway⟩ := onItsWay h hk hdata
    cases hidle i pc hi
    rcases hway with hway | hway <;> cases hway
  have hfull : ¬ HalfDone c := by
    rintro ⟨i, data, hi⟩
    cases hidle i _ hi
  obtain ⟨l, hl, hadd⟩ := complete_of_reachable h hfull
  have hnil : l = [] := hl.unique (Queue.is_nil_iff.2 hempty)
  have hhand : inHand c = [] := by
    unfold inHand
    rw [hk]
  refine ⟨⟨k, hk⟩, hempty, ?_⟩
  rw [hadd, removed_eq h, hhand, hnil, List.append_nil, List.append_nil]

/-- **The queue is drained.** A run takes at most so many steps for what is in the queue, for the
values added and for the spurious wake-ups, and when it has come to rest all is written. -/
theorem drains (c d : Config (program κ)) (h : Reachable c) (n m : ℕ) (hp : Path c n m d) :
    n ≤ 16 * (Fintype.card κ + 1) + 4 * (c.shared.added.length - c.shared.removed.length) + 5 +
      20 * (d.shared.added.length - c.shared.added.length) + 4 * m ∧
    (AtRest d → (∃ k, handler d = .asleep k) ∧ d.shared.queue.dataQueuep = none ∧
      d.shared.written = d.shared.added) := by
  constructor
  · have hbound : n + (pace κ).potential d + 20 * c.shared.added.length ≤
        (pace κ).potential c + 20 * d.shared.added.length + 4 * m :=
      Pace.bound (K := pace κ) h hp fun hp => knows_of_reachable (h.path hp)
    have hpotential := potential_le c
    omega
  · exact fun hr => hr.written (h.path hp)

/-- The handler waits. A producer adds 7 and wakes it, and it writes 7 and waits again. -/
def addOne : List (Move (Tid (Fin 1)) Input) :=
  List.replicate 3 (.step .hardwareHandler (.call 0)) ++
  (untilSignal 0 7 100).map (fun move => .step move.1 move.2) ++
  .signal (.producer 0) .hardwareHandler ::
  List.replicate 12 (.step .hardwareHandler (.call 0))

theorem drains_one : ∃ d : Config (program (Fin 1)), Reachable d ∧ AtRest d ∧
    d.shared.written = [7] := by
  obtain ⟨d, hd, hp⟩ := Option.map_eq_some_iff.1 (show
    (play (.init (program (Fin 1)) start) addOne).map (fun d =>
      handler d == .asleep .test && producer d 0 == .run .idle && d.shared.added == [7]) =
        some true by decide)
  simp only [Bool.and_eq_true, beq_iff_eq] at hp
  obtain ⟨⟨hasleep, hidle⟩, hadded⟩ := hp
  have hrest : AtRest d := by
    intro i hi
    cases i with
    | hardwareHandler =>
      unfold Config.Ready at hi
      rw [show d.thread .hardwareHandler = .asleep .test from hasleep] at hi
      exact hi.elim
    | producer k => match k with | 0 => exact ⟨0, rfl, hidle⟩
  obtain ⟨n, m, hpath⟩ := Path.play .refl hd
  have hinit : Reachable (.init (program (Fin 1)) start) := .init rfl
  exact ⟨d, hinit.path hpath, hrest, hadded ▸ ((drains _ d hinit n m hpath).2 hrest).2.2⟩

end QnxTutorial.CondvarQueue
