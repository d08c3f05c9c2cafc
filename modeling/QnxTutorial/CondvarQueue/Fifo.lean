import QnxTutorial.CondvarQueue.Program
import QnxTutorial.Monitor.Schedule

/-!
# The queue hands every value over once and in order

`outline` is the proof outline of the program. While the mutex is free, the values added are
those removed followed by the queue, and a cleared flag means an empty queue (`Inv`). Outside its
critical sections the handler knows what it holds in its hand: the values removed are those
written, plus the one it is about to write. No producer touches either list.

**Theorem (`fifo`).** Whatever the interleaving, the values written, followed by the value in the
handler's hand, followed by the queue, are the values added, unless a producer is in the middle
of `add_element_to_queue`.
-/

namespace QnxTutorial.CondvarQueue

open Monitor

/-! ## Assertions -/

/-- The values added are those removed and those still in the queue. -/
def Complete (s : Shared) : Prop := ∃ l, s.queue.Is l ∧ s.added = s.removed ++ l

/-- What holds while the mutex is free. -/
structure Inv (s : Shared) : Prop where
  complete : Complete s
  empty : s.dataReady = 0 → s.queue.Is []

/-- What the handler knows. -/
def handlerPre : HandlerPc → Shared → Prop
  | .lock, s | .relock, s => s.removed = s.written
  | .test, s | .take, s | .unlock, s => Inv s ∧ s.removed = s.written
  | .wait, s => Inv s ∧ s.removed = s.written ∧ s.dataReady = 0
  | .unlockTaken data, s => Inv s ∧ s.removed = s.written ++ [data]
  | .write data, s => s.removed = s.written ++ [data]
  | .clear, s => Complete s ∧ s.queue.Is [] ∧ s.removed = s.written

/-- What a producer knows. Between the call of `add_element_to_queue` and its effect the value is
counted as added, yet not in the queue. -/
def producerPre : ProducerPc → Shared → Prop
  | .idle, _ | .lock _, _ | .signal, _ => True
  | .add _, s | .unlock, s => Inv s
  | .link data, s =>
    ∃ l, s.queue.Is l ∧ s.added = s.removed ++ l ++ [data] ∧ (s.dataReady = 0 → l = [])
  | .ready, s => Complete s

theorem inv_start : Inv start := ⟨⟨[], Queue.is_empty, rfl⟩, fun _ => Queue.is_empty⟩

/-! ## Acts -/

theorem handlerPre_act {pc k : HandlerPc} {s s' : Shared} (h : HandlerAct pc s s' k)
    (hp : handlerPre pc s) : handlerPre k s' := by
  cases h with
  | notReady hr => exact ⟨hp.1, hp.2, hr⟩
  | isReady => exact hp
  | none hq =>
    obtain ⟨⟨⟨l, hl, hadd⟩, -⟩, hw⟩ := hp
    cases l with
    | nil =>
      rw [getDataAndRemoveFromQueue_nil hl] at hq
      cases hq
      exact ⟨⟨[], hl, hadd⟩, hl, hw⟩
    | cons x l =>
      obtain ⟨q', hq', -⟩ := getDataAndRemoveFromQueue_cons hl
      rw [hq'] at hq
      cases hq
  | @some s data queue hq =>
    obtain ⟨⟨⟨l, hl, hadd⟩, hempty⟩, hw⟩ := hp
    cases l with
    | nil =>
      rw [getDataAndRemoveFromQueue_nil hl] at hq
      cases hq
    | cons x l =>
      obtain ⟨q', hq', hl', -⟩ := getDataAndRemoveFromQueue_cons hl
      rw [hq'] at hq
      cases hq
      refine ⟨⟨⟨l, hl', by simp [hadd]⟩, ?_⟩, by rw [hw]⟩
      intro hr
      -- There was something to take, so the flag was set.
      exact absurd (hl.unique (hempty hr)) (List.cons_ne_nil _ _)
  | write => exact hp
  | clear => exact ⟨⟨hp.1, fun _ => hp.2.1⟩, hp.2.2⟩

theorem producerPre_act {pc k : ProducerPc} {s s' : Shared} (h : ProducerAct pc s s' k)
    (hp : producerPre pc s) : producerPre k s' := by
  cases h with
  | call => trivial
  | @add s data =>
    obtain ⟨l, hl, hadd⟩ := hp.complete
    exact ⟨l, hl, by rw [hadd], fun hr => hl.unique (hp.empty hr)⟩
  | @link s data newp loops queue hf hq =>
    obtain ⟨l, hl, hadd, -⟩ := hp
    exact ⟨l ++ [data], (addElementToQueue_is hl hf hq).1, by rw [hadd, List.append_assoc]⟩
  | ready => exact ⟨hp, nofun⟩

theorem HandlerAct.outside {pc k : HandlerPc} {s s' : Shared} (h : HandlerAct pc s s' k)
    (hout : pc.holds = false) : ∃ written, s' = { s with written := written } := by
  cases h with
  | write => exact ⟨_, rfl⟩
  | notReady | isReady | none | some | clear => cases hout

theorem ProducerAct.outside {pc k : ProducerPc} {s s' : Shared} (h : ProducerAct pc s s' k)
    (hout : pc.holds = false) : s' = s := by
  cases h with
  | call => rfl
  | add | link | ready => cases hout

theorem ProducerAct.frame {pc k : ProducerPc} {s s' : Shared} (h : ProducerAct pc s s' k) :
    s'.removed = s.removed ∧ s'.written = s.written := by
  cases h <;> exact ⟨rfl, rfl⟩

theorem Inv.written {s : Shared} (h : Inv s) (written : List ℤ) :
    Inv { s with written := written } :=
  ⟨h.complete, h.empty⟩

theorem producerPre_written {pc : ProducerPc} {s : Shared} (h : producerPre pc s)
    (written : List ℤ) : producerPre pc { s with written := written } := by
  cases pc with
  | add | unlock => exact Inv.written h written
  | idle | lock | signal | link | ready => exact h

/-- What the handler relies on while it waits. -/
def handlerRest (_ : HandlerPc) (s : Shared) : Prop := s.removed = s.written

/-- Outside its critical sections the handler only relies on the two lists. -/
theorem handler_meets_frame {t : Thread HandlerPc} {s s' : Shared}
    (hout : t.inside HandlerPc.holds = false)
    (hframe : s'.removed = s.removed ∧ s'.written = s.written)
    (h : t.Meets handlerPre handlerRest s) : t.Meets handlerPre handlerRest s' := by
  cases t with
  | run pc =>
    cases pc with
    | lock | relock | write => simpa only [Thread.Meets, handlerPre, hframe] using h
    | test | wait | take | unlockTaken | clear | unlock => cases hout
  | asleep | woken => simpa only [Thread.Meets, handlerRest, hframe] using h

theorem producer_meets_outside {t : Thread ProducerPc} (hout : t.inside ProducerPc.holds = false)
    (s : Shared) : t.Meets producerPre (fun _ _ => True) s := by
  cases t with
  | run pc =>
    cases pc with
    | idle | lock | signal => trivial
    | add | link | ready | unlock => cases hout
  | asleep | woken => trivial

theorem producer_meets_written {t : Thread ProducerPc} {s : Shared}
    (h : t.Meets producerPre (fun _ _ => True) s) (written : List ℤ) :
    t.Meets producerPre (fun _ _ => True) { s with written := written } := by
  cases t with
  | run pc => exact producerPre_written h written
  | asleep | woken => trivial

/-! ## The outline -/

/-- The proof outline. -/
def outline (κ : Type) : Outline (program κ) where
  inv := Inv
  pre
    | .hardwareHandler => handlerPre
    | .producer _ => producerPre
  rest
    | .hardwareHandler => handlerRest
    | .producer _ => fun _ _ => True
  lock {i pc k s} hc hp hinv := by
    cases i with
    | hardwareHandler => cases pc <;> cases hc <;> exact ⟨hinv, hp⟩
    | producer => cases pc <;> cases hc; exact hinv
  unlock {i pc k s} hc hp := by
    cases i with
    | hardwareHandler => cases pc <;> cases hc <;> exact hp
    | producer => cases pc <;> cases hc; exact ⟨hp, trivial⟩
  wait {i pc k s} hc hp := by
    cases i with
    | hardwareHandler => cases pc <;> cases hc; exact ⟨hp.1, hp.2.1⟩
    | producer => cases pc <;> cases hc
  relock {i pc k s} hc hp hinv := by
    cases i with
    | hardwareHandler => cases pc <;> cases hc; exact ⟨hinv, hp⟩
    | producer => cases pc <;> cases hc
  notify {i pc k s} hc hp := by
    cases i with
    | hardwareHandler => rcases hc with hc | hc <;> cases pc <;> cases hc
    | producer => rcases hc with hc | hc <;> cases pc <;> cases hc; trivial
  act {i pc k s s' e f} hc hf hp := by
    cases i with
    | hardwareHandler => exact handlerPre_act (hardwareHandler_act hc hf) hp
    | producer => exact producerPre_act (addToQueue_act hc hf) hp
  act_inv {i pc k s s' e f} hc hf hout _ hinv := by
    cases i with
    | hardwareHandler =>
      obtain ⟨written, rfl⟩ := (hardwareHandler_act hc hf).outside hout
      exact hinv.written written
    | producer =>
      cases (addToQueue_act hc hf).outside hout
      exact hinv
  act_other {i pc k s s' e f} hc hf hp {j t} hj hin ht := by
    cases i with
    | hardwareHandler =>
      cases j with
      | hardwareHandler => exact absurd rfl hj
      | producer =>
        by_cases hh : HandlerPc.holds pc = true
        · exact producer_meets_outside (hin hh) s'
        · obtain ⟨written, rfl⟩ := (hardwareHandler_act hc hf).outside (Bool.not_eq_true _ ▸ hh)
          exact producer_meets_written ht written
    | producer =>
      by_cases hh : ProducerPc.holds pc = true
      · cases j with
        | hardwareHandler =>
          exact handler_meets_frame (hin hh) (addToQueue_act hc hf).frame ht
        | producer => exact producer_meets_outside (hin hh) s'
      · cases (addToQueue_act hc hf).outside (Bool.not_eq_true _ ▸ hh)
        exact ht

theorem outline_start {κ : Type} (s : Shared) (hs : s = start) :
    (outline κ).inv s ∧ ∀ i, (outline κ).pre i ((program κ).start i) s := by
  subst hs
  constructor
  · exact inv_start
  · intro i
    cases i with
    | hardwareHandler => rfl
    | producer => trivial

theorem holds_of_reachable {κ : Type} [DecidableEq κ] {c : Config (program κ)}
    (h : Reachable c) : (outline κ).Holds c :=
  (outline κ).sound outline_start h

/-! ## The FIFO property -/

variable {κ : Type}

/-- The value that the handler has removed and not yet written. -/
def inHand (c : Config (program κ)) : List ℤ :=
  match handler c with
  | .run (.unlockTaken data) | .run (.write data) => [data]
  | _ => []

/-- Some producer is inside `add_element_to_queue`. -/
def HalfDone (c : Config (program κ)) : Prop :=
  ∃ k data, producer c k = .run (.link data)

/-- The values removed are the values written and the one in hand. -/
theorem removed_eq [DecidableEq κ] {c : Config (program κ)} (h : Reachable c) :
    c.shared.removed = c.shared.written ++ inHand c := by
  have hmeets : (handler c).Meets handlerPre handlerRest c.shared :=
    (holds_of_reachable h).at_ .hardwareHandler
  unfold inHand
  cases ht : handler c with
  | asleep k | woken k =>
    rw [ht] at hmeets
    exact hmeets.trans (List.append_nil _).symm
  | run pc =>
    rw [ht] at hmeets
    cases pc with
    | lock | relock => exact hmeets.trans (List.append_nil _).symm
    | test | take | unlock => exact hmeets.2.trans (List.append_nil _).symm
    | wait => exact hmeets.2.1.trans (List.append_nil _).symm
    | clear => exact hmeets.2.2.trans (List.append_nil _).symm
    | unlockTaken data => exact hmeets.2
    | write data => exact hmeets

/-- Off the half-done states the queue accounts for what was added and not removed. -/
theorem complete_of_reachable [DecidableEq κ] {c : Config (program κ)} (h : Reachable c)
    (hfull : ¬ HalfDone c) : Complete c.shared := by
  have hO := holds_of_reachable h
  cases hm : c.mutex with
  | none => exact (hO.inv hm).complete
  | some i =>
    obtain ⟨pc, hi, hin⟩ := h.owned.holder hm
    have hpre := hO.pre hi
    cases i with
    | hardwareHandler =>
      change HandlerPc at pc
      cases pc with
      | test | take | unlock | wait | unlockTaken => exact hpre.1.complete
      | clear => exact hpre.1
      | lock | write | relock => cases hin
    | producer k =>
      change ProducerPc at pc
      cases pc with
      | add | unlock => exact hpre.complete
      | link data => exact absurd ⟨k, data, hi⟩ hfull
      | ready => exact hpre
      | idle | lock | signal => cases hin

/-- **FIFO transfer.** Values written, value in hand and queue are the values added, in order. -/
theorem fifo [DecidableEq κ] (c : Config (program κ)) (h : Reachable c) (hfull : ¬ HalfDone c) :
    ∃ l, c.shared.queue.Is l ∧ c.shared.written ++ inHand c ++ l = c.shared.added := by
  obtain ⟨l, hl, hadd⟩ := complete_of_reachable h hfull
  exact ⟨l, hl, by rw [hadd, removed_eq h]⟩

/-- `add_to_queue(data)` by producer `k`, up to the signal. -/
def untilSignal {n : ℕ} (k : Fin n) (data : ℤ) (newp : Ptr) : List (Tid (Fin n) × Input) :=
  [.call data, .call data, .call data, .malloc newp 2, .call data, .call data].map (.producer k, ·)

/-- A run in which the handler has taken 7 off the queue and a second producer has added 8. -/
def overtaking : List (Tid (Fin 2) × Input) :=
  untilSignal 0 7 100 ++ List.replicate 4 (.hardwareHandler, .call 0) ++ untilSignal 1 8 200

theorem fifo_overtaking : ∃ c : Config (program (Fin 2)), Reachable c ∧ inHand c = [7] ∧
    ∃ l, c.shared.queue.Is l ∧ c.shared.written ++ inHand c ++ l = [7, 8] := by
  obtain ⟨c, hc, hp⟩ := exists_reach (P := program (Fin 2)) (I := (· = start)) rfl
    (l := overtaking) (p := fun c => inHand c == [7] && c.shared.added == [7, 8] &&
      producer c 0 == .run .signal && producer c 1 == .run .signal) (by decide)
  simp only [Bool.and_eq_true, beq_iff_eq] at hp
  obtain ⟨⟨⟨hhand, hadd⟩, h0⟩, h1⟩ := hp
  refine ⟨c, hc, hhand, hadd ▸ fifo c hc ?_⟩
  rintro ⟨k, data, hk⟩
  match k with
  | 0 => exact nomatch h0.symm.trans hk
  | 1 => exact nomatch h1.symm.trans hk

end QnxTutorial.CondvarQueue
