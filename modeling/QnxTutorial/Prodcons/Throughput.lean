import QnxTutorial.Monitor.Pace
import QnxTutorial.Prodcons.Signal

/-!
# The two threads keep working

A thread that finds that it is not its turn goes to sleep, so neither can run on its own for
long: between two products there is room for a bounded number of steps, however the threads are
scheduled. Only a spurious wake-up can make a thread look in vain.

**Theorem (`keeps_working`).** Some thread can always go on, and every stretch of a run hands over
products in proportion to its length.
-/

namespace QnxTutorial.Prodcons

open Monitor

instance : Fintype Tid where
  elems := {.producer, .consumer}
  complete i := by cases i <;> decide

/-! ## The ranks -/

/-- How far the producer is from its next production, or from going to sleep. -/
def ProducerPc.rank : ProducerPc → ℕ
  | .wait | .writeProduct _ => 1
  | .readProduct => 2
  | .test => 3
  | .lock => 4
  | .unlock => 5
  | .signal => 10
  | .setState => 11

def ConsumerPc.rank : ConsumerPc → ℕ
  | .wait | .readProduct => 1
  | .test => 2
  | .lock => 3
  | .unlock => 4
  | .signal => 9
  | .setState => 10

theorem ProducerPc.rank_le (pc : ProducerPc) : pc.rank ≤ 11 := by
  cases pc <;> simp [rank]

theorem ConsumerPc.rank_le (pc : ConsumerPc) : pc.rank ≤ 10 := by
  cases pc <;> simp [rank]

/-- Productions, and products that were consumed. -/
def handed (s : Shared) : ℕ := s.produced + s.consumed.length

def rank : (i : Tid) → program.Pc i → ℕ
  | .producer => ProducerPc.rank
  | .consumer => ConsumerPc.rank

theorem ProducerAct.rank_lt {pc k : ProducerPc} {s s' : Shared} (h : ProducerAct pc s s' k) :
    k.rank + 11 * handed s < pc.rank + 11 * handed s' := by
  cases h with
  | full | empty | readProduct | setState => simp [ProducerPc.rank, handed]
  | writeProduct =>
    simp only [ProducerPc.rank, handed]
    omega

theorem ConsumerAct.rank_lt {pc k : ConsumerPc} {s s' : Shared} (h : ConsumerAct pc s s' k) :
    k.rank + 11 * handed s < pc.rank + 11 * handed s' := by
  cases h with
  | empty | full | setState => simp [ConsumerPc.rank, handed]
  | readProduct =>
    simp only [ConsumerPc.rank, handed, List.length_append, List.length_singleton]
    omega

/-- A production and a consumption pay for eleven steps each. -/
def pace : Pace program where
  know _ _ _ := True
  rank := rank
  stock _ := 0
  goals := handed
  worth := 11
  wake := 4
  lock {i pc k} hc := by cases i <;> cases pc <;> cases hc <;> decide
  unlock {i pc k} hc := by cases i <;> cases pc <;> cases hc <;> decide
  wait {i pc k} hc := by cases i <;> cases pc <;> cases hc <;> decide
  signal {i pc k} hc := by cases i <;> cases pc <;> cases hc <;> decide
  broadcast {i pc k} hc := by cases i <;> cases pc <;> cases hc
  act {i pc k s s' e f} hc hf _ := by
    cases i with
    | producer => exact (producer_act hc hf).rank_lt
    | consumer => exact (consumer_act hc hf).rank_lt

theorem potential_le (c : Config program) : pace.potential c ≤ 21 := by
  have hproducer : pace.ofThread .producer (c.thread .producer) ≤ 11 := by
    cases c.thread .producer with
    | run pc => exact ProducerPc.rank_le pc
    | asleep => exact Nat.zero_le _
    | woken => show 4 ≤ 11; decide
  have hconsumer : pace.ofThread .consumer (c.thread .consumer) ≤ 10 := by
    cases c.thread .consumer with
    | run pc => exact ConsumerPc.rank_le pc
    | asleep => exact Nat.zero_le _
    | woken => show 4 ≤ 10; decide
  have htotal : pace.total c.thread = pace.ofThread .producer (c.thread .producer) +
      pace.ofThread .consumer (c.thread .consumer) := Finset.sum_pair (by decide)
  have hstock : pace.stock c.shared = 0 := rfl
  unfold Pace.potential
  omega

/-! ## What a run achieves -/

/-- The producer is at most one product ahead, also inside the critical sections. -/
theorem ahead_of_reachable {c : Config program} (h : Reachable c) :
    ∃ ahead ≤ 1, Ahead ahead c.shared := by
  have hO := holds_of_reachable h
  have hInv : Inv c.shared → ∃ ahead ≤ 1, Ahead ahead c.shared := by
    rintro (hinv | hinv)
    · exact ⟨0, by decide, hinv.2⟩
    · exact ⟨1, by decide, hinv.2⟩
  cases hm : c.mutex with
  | none => exact hInv (hO.inv hm)
  | some i =>
    obtain ⟨pc, hi, hin⟩ := h.owned.holder hm
    have hpre := hO.pre hi
    cases i with
    | producer =>
      change ProducerPc at pc
      cases pc with
      | lock => cases hin
      | test | signal | unlock => exact hInv hpre
      | wait => exact hInv hpre.1
      | readProduct => exact ⟨0, by decide, hpre.2⟩
      | writeProduct => exact ⟨0, by decide, hpre.2.1⟩
      | setState => exact ⟨1, by decide, hpre⟩
    | consumer =>
      change ConsumerPc at pc
      cases pc with
      | lock => cases hin
      | test | signal | unlock => exact hInv hpre
      | wait => exact hInv hpre.1
      | readProduct => exact ⟨1, by decide, hpre.2⟩
      | setState => exact ⟨0, by decide, hpre⟩

/-- The two threads do not both sleep, since they wait for opposite things. -/
theorem not_allAsleep {c : Config program} (h : Reachable c) : ¬ c.AllAsleep := by
  intro hall
  have hm := h.owned.mutex_of_allAsleep hall
  obtain ⟨k, hk⟩ := hall .producer
  obtain ⟨k', hk'⟩ := hall .consumer
  have hfull : c.shared.state = 1 := idle_of_asleep h hm (i := .producer) hk
  have hempty : c.shared.state = 0 := idle_of_asleep h hm (i := .consumer) hk'
  exact nomatch hfull.symm.trans hempty

/-- **The threads keep working.** Of `n` steps with `m` spurious wake-ups in between, at
least `(n - 32 - 4 * m) / 22` consume a product. -/
theorem keeps_working (c d : Config program) (h : Reachable c) (n m : ℕ) (hp : Path c n m d) :
    (∃ d', Proper d d') ∧
    n ≤ 32 + 22 * (d.shared.consumed.length - c.shared.consumed.length) + 4 * m := by
  have hd : Reachable d := h.path hp
  constructor
  · obtain ⟨i, hi⟩ := hd.owned.exists_ready program_live (not_allAsleep hd)
    exact pace.exists_step hi
  · have hbound : n + pace.potential d + 11 * handed c.shared ≤
        pace.potential c + 11 * handed d.shared + 4 * m :=
      Pace.bound (K := pace) h hp fun _ _ _ _ => trivial
    have hpotential := potential_le c
    obtain ⟨ahead, hahead, hc⟩ := ahead_of_reachable h
    obtain ⟨ahead', hahead', hd⟩ := ahead_of_reachable hd
    have hlead := hc.ahead
    have hlead' := hd.ahead
    unfold handed at hbound
    omega

instance : (i : Tid) → DecidableEq (program.Pc i)
  | .producer => inferInstanceAs (DecidableEq ProducerPc)
  | .consumer => inferInstanceAs (DecidableEq ConsumerPc)

/-- The consumer takes the product, wakes the producer, and waits for it to produce again. -/
def handOver : List (Move Tid Unit) :=
  steps .consumer 4 ++ .signal .consumer .producer :: steps .consumer 4 ++ steps .producer 5 ++
    .signal .producer .consumer :: steps .producer 4

/-- In so long a run something has been consumed. -/
theorem keeps_working_twice : ∃ d, Reachable d ∧ Path (.init program start) 51 0 d ∧
    (∃ d', Proper d d') ∧ 0 < d.shared.consumed.length := by
  obtain ⟨d, hd⟩ := Option.isSome_iff_exists.1 (show
    (playOn (.init program start) (produceOnce ++ handOver ++ handOver)).isSome by decide)
  have hinit : Reachable (.init program start) := .init rfl
  have hpath : Path (.init program start) 51 0 d := Path.playOn .refl hd
  obtain ⟨hgoes, hbound⟩ := keeps_working _ d hinit 51 0 hpath
  have hstart : (Config.init program start).shared.consumed.length = 0 := rfl
  exact ⟨d, hinit.path hpath, hpath, hgoes, by omega⟩

end QnxTutorial.Prodcons
