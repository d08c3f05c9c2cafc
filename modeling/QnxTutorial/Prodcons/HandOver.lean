import Mathlib.Algebra.Group.Nat.Defs
import QnxTutorial.Monitor.Schedule
import QnxTutorial.Prodcons.Program

/-!
# Every product is handed over once

While the mutex is free, `state` says how far the producer is ahead: not at all, or by one product
(`Inv`). In between the count runs ahead of `state`, but only while the producer is between its
two assignments, or the consumer between finding the product and clearing `state`.

**Theorem (`hand_over`).** The consumer has found `1, 2, .., c`, the product is `p`, the number of
productions, and `p - c` is `state`.
-/

namespace QnxTutorial.Prodcons

open Monitor

/-! ## Assertions -/

/-- The first `n` products. -/
def products (n : ℕ) : List (BitVec 32) := (List.range n).map fun i => BitVec.ofNat 32 (i + 1)

theorem products_succ (n : ℕ) : products (n + 1) = products n ++ [BitVec.ofNat 32 (n + 1)] := by
  simp [products, List.range_succ]

/-- The products so far, of which the last `ahead` are not consumed. -/
structure Ahead (ahead : ℕ) (s : Shared) : Prop where
  product : s.product = BitVec.ofNat 32 s.produced
  consumed : s.consumed = products s.consumed.length
  ahead : s.produced = s.consumed.length + ahead

/-- What holds while the mutex is free. -/
def Inv (s : Shared) : Prop := s.state = 0 ∧ Ahead 0 s ∨ s.state = 1 ∧ Ahead 1 s

/-- What the producer knows. -/
def producerPre : ProducerPc → Shared → Prop
  | .lock, _ => True
  | .test, s | .signal, s | .unlock, s => Inv s
  | .wait, s => Inv s ∧ s.state = 1
  | .readProduct, s => s.state = 0 ∧ Ahead 0 s
  | .writeProduct v, s => s.state = 0 ∧ Ahead 0 s ∧ v = s.product + 1
  | .setState, s => Ahead 1 s

/-- What the consumer knows. -/
def consumerPre : ConsumerPc → Shared → Prop
  | .lock, _ => True
  | .test, s | .signal, s | .unlock, s => Inv s
  | .wait, s => Inv s ∧ s.state = 0
  | .readProduct, s => s.state = 1 ∧ Ahead 1 s
  | .setState, s => Ahead 0 s

theorem inv_start : Inv start := .inl ⟨rfl, rfl, rfl, rfl⟩

/-! ## Acts -/

theorem Ahead.produce {s : Shared} (h : Ahead 0 s) :
    Ahead 1 { s with product := s.product + 1, produced := s.produced + 1 } where
  product := by
    show s.product + 1 = BitVec.ofNat 32 (s.produced + 1)
    rw [h.product, BitVec.ofNat_add]
    rfl
  consumed := h.consumed
  ahead := by
    have := h.ahead
    show s.produced + 1 = s.consumed.length + 1
    omega

/-- The product that is not consumed yet is the next one. -/
theorem Ahead.consume {s : Shared} (h : Ahead 1 s) :
    Ahead 0 { s with consumed := s.consumed ++ [s.product] } where
  product := h.product
  consumed := by
    show s.consumed ++ [s.product] = products (s.consumed ++ [s.product]).length
    rw [List.length_append, List.length_singleton, products_succ, ← h.consumed, h.product, h.ahead]
  ahead := by
    have := h.ahead
    show s.produced = (s.consumed ++ [s.product]).length
    rw [List.length_append, List.length_singleton]
    omega

theorem producerPre_act {pc k : ProducerPc} {s s' : Shared} (h : ProducerAct pc s s' k)
    (hp : producerPre pc s) : producerPre k s' := by
  cases h with
  | full hs => exact ⟨hp, hs⟩
  | empty hs =>
    rcases hp with hp | hp
    · exact hp
    · exact absurd hp.1 hs
  | readProduct => exact ⟨hp.1, hp.2, rfl⟩
  | writeProduct =>
    obtain ⟨-, hahead, rfl⟩ := hp
    exact hahead.produce
  | setState => exact .inr ⟨rfl, hp.product, hp.consumed, hp.ahead⟩

theorem consumerPre_act {pc k : ConsumerPc} {s s' : Shared} (h : ConsumerAct pc s s' k)
    (hp : consumerPre pc s) : consumerPre k s' := by
  cases h with
  | empty hs => exact ⟨hp, hs⟩
  | full hs =>
    rcases hp with hp | hp
    · exact absurd hp.1 hs
    · exact hp
  | readProduct => exact hp.2.consume
  | setState => exact .inl ⟨rfl, hp.product, hp.consumed, hp.ahead⟩

/-! ## The outline -/

theorem producer_meets_outside {t : Thread ProducerPc} (hout : t.inside ProducerPc.holds = false)
    (s : Shared) : t.Meets producerPre (fun _ _ => True) s := by
  cases t with
  | run pc =>
    cases pc with
    | lock => trivial
    | test | wait | readProduct | writeProduct | setState | signal | unlock => cases hout
  | asleep | woken => trivial

theorem consumer_meets_outside {t : Thread ConsumerPc} (hout : t.inside ConsumerPc.holds = false)
    (s : Shared) : t.Meets consumerPre (fun _ _ => True) s := by
  cases t with
  | run pc =>
    cases pc with
    | lock => trivial
    | test | wait | readProduct | setState | signal | unlock => cases hout
  | asleep | woken => trivial

/-- The proof outline. -/
def outline : Outline program where
  inv := Inv
  pre
    | .producer => producerPre
    | .consumer => consumerPre
  rest _ _ _ := True
  lock {i pc k s} hc hp hinv := by
    cases i <;> cases pc <;> cases hc <;> exact hinv
  unlock {i pc k s} hc hp := by
    cases i <;> cases pc <;> cases hc <;> exact ⟨hp, trivial⟩
  wait {i pc k s} hc hp := by
    cases i <;> cases pc <;> cases hc <;> exact ⟨hp.1, trivial⟩
  relock {i pc k s} hc hp hinv := by
    cases i <;> cases pc <;> cases hc <;> exact hinv
  notify {i pc k s} hc hp := by
    rcases hc with hc | hc <;> cases i <;> cases pc <;> cases hc <;> exact hp
  act {i pc k s s' e f} hc hf hp := by
    cases i with
    | producer => exact producerPre_act (producer_act hc hf) hp
    | consumer => exact consumerPre_act (consumer_act hc hf) hp
  act_inv {i pc k s s' e f} hc hf hout _ _ := by
    cases i with
    | producer => exact nomatch hout.symm.trans (producer_act hc hf).inside.1
    | consumer => exact nomatch hout.symm.trans (consumer_act hc hf).inside.1
  act_other {i pc k s s' e f} hc hf hp {j t} hj hin ht := by
    cases i <;> cases j
    · exact absurd rfl hj
    · exact consumer_meets_outside (hin (producer_act hc hf).inside.1) s'
    · exact producer_meets_outside (hin (consumer_act hc hf).inside.1) s'
    · exact absurd rfl hj

theorem outline_start (s : Shared) (hs : s = start) :
    outline.inv s ∧ ∀ i, outline.pre i (program.start i) s := by
  subst hs
  constructor
  · exact inv_start
  · intro i
    cases i <;> trivial

theorem holds_of_reachable {c : Config program} (h : Reachable c) : outline.Holds c :=
  outline.sound outline_start h

/-! ## The theorem -/

theorem toInt_ofNat {n : ℕ} (hn : n < 2 ^ 31) : (BitVec.ofNat 32 n).toInt = n := by
  rw [BitVec.toInt_ofNat', Int.bmod_eq_of_le (by omega) (by omega)]

/-- As long as the count has not overflowed, the products are `1, 2, .., n`. -/
theorem toInt_products {n : ℕ} (hn : n < 2 ^ 31) :
    (products n).map BitVec.toInt = (List.range n).map fun i : ℕ => (i : ℤ) + 1 := by
  rw [products, List.map_map]
  apply List.map_congr_left
  intro i hi
  have hi' := List.mem_range.1 hi
  show (BitVec.ofNat 32 (i + 1)).toInt = _
  rw [toInt_ofNat (by omega)]
  rfl

/-- **Every product is handed over once**, and in order. -/
theorem hand_over (c : Config program) (h : Reachable c) (hm : c.mutex = none)
    (hp : c.shared.produced < 2 ^ 31) :
    c.shared.consumed.map BitVec.toInt =
      (List.range c.shared.consumed.length).map (fun i : ℕ => (i : ℤ) + 1) ∧
    c.shared.product.toInt = c.shared.produced ∧
    (c.shared.produced : ℤ) - c.shared.consumed.length = c.shared.state.toInt ∧
    (c.shared.state = 0 ∨ c.shared.state = 1) := by
  have hinv : Inv c.shared := (holds_of_reachable h).inv hm
  -- Both cases give the first two claims in the same way.
  have hvalues : ∀ {n}, Ahead n c.shared → c.shared.consumed.map BitVec.toInt =
      (List.range c.shared.consumed.length).map (fun i : ℕ => (i : ℤ) + 1) ∧
      c.shared.product.toInt = c.shared.produced := by
    intro n hahead
    have hle := hahead.ahead
    constructor
    · have hconsumed := toInt_products (n := c.shared.consumed.length) (by omega)
      rwa [← hahead.consumed] at hconsumed
    · rw [hahead.product, toInt_ofNat hp]
  rcases hinv with ⟨hs, hahead⟩ | ⟨hs, hahead⟩
  · refine ⟨(hvalues hahead).1, (hvalues hahead).2, ?_, .inl hs⟩
    rw [hs, hahead.ahead]
    simp
  · refine ⟨(hvalues hahead).1, (hvalues hahead).2, ?_, .inr hs⟩
    rw [hs, hahead.ahead]
    show ((c.shared.consumed.length + 1 : ℕ) : ℤ) - c.shared.consumed.length = 1
    omega

/-- The steps of one thread. -/
def steps (i : Tid) (n : ℕ) : List (Move Tid Unit) := List.replicate n (.step i ())

/-- The consumer waits. The producer produces, wakes it, and waits in turn. -/
def produceOnce : List (Move Tid Unit) :=
  steps .consumer 3 ++ steps .producer 5 ++ .signal .producer .consumer :: steps .producer 4

/-- Then the consumer takes the product and wakes the producer. -/
theorem hand_over_first : ∃ c : Config program, Reachable c ∧ c.shared.consumed = [1] ∧
    c.shared.product.toInt = 1 ∧ c.shared.state = 0 := by
  obtain ⟨c, hc, hp⟩ := exists_reach_play (P := program) (I := (· = start)) rfl
    (l := produceOnce ++ steps .consumer 4 ++ .signal .consumer .producer :: steps .consumer 1)
    (p := fun c => c.mutex == none && c.shared.consumed == [1] && c.shared.produced == 1 &&
      c.shared.state == 0) (by decide)
  simp only [Bool.and_eq_true, beq_iff_eq] at hp
  obtain ⟨⟨⟨hm, hconsumed⟩, hproduced⟩, hstate⟩ := hp
  have hproduct := (hand_over c hc hm (by rw [hproduced]; decide)).2.1
  exact ⟨c, hc, hconsumed, by rw [hproduct, hproduced]; rfl, hstate⟩

end QnxTutorial.Prodcons
