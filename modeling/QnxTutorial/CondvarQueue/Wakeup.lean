import QnxTutorial.CondvarQueue.Fifo

/-!
# The handler does not sleep on data

The signal is sent after the mutex is given back, and is forgotten if the handler does not wait.
What saves the program is the flag: only a producer sets it, and from then on that producer owes
a signal. The handler is the only thread that waits, so the signal reaches it.

**Theorem (`no_lost_wakeup`).** While the mutex is free a cleared flag means an empty queue; and
if the handler sleeps over a non-empty queue, some producer is about to signal.
-/

namespace QnxTutorial.CondvarQueue

open Monitor

/-- A producer that has set the flag and not yet signalled. -/
def ProducerPc.Owes : ProducerPc → Prop
  | .unlock | .signal => True
  | .idle | .lock _ | .add _ | .link _ | .ready => False

theorem ProducerAct.dataReady {pc k : ProducerPc} {s s' : Shared} (h : ProducerAct pc s s' k) :
    s'.dataReady = s.dataReady ∨ k.Owes := by
  cases h with
  | call | add | link => exact .inl rfl
  | ready => exact .inr trivial

theorem waits_eq {κ : Type} {i : Tid κ} {k : (program κ).Pc i} (h : (program κ).Waits i k) :
    i = .hardwareHandler := by
  obtain ⟨pc, hc⟩ := h
  cases i with
  | hardwareHandler => rfl
  | producer => cases pc <;> cases hc

/-- The wake-up argument: the handler sleeps while the flag is clear. -/
def wakeup (κ : Type) : Wakeup (outline κ) where
  idle
    | .hardwareHandler => fun _ s => s.dataReady = 0
    | .producer _ => fun _ _ => True
  owes
    | .hardwareHandler => fun _ => False
    | .producer _ => ProducerPc.Owes
  sleep {i pc k s} hc hp := by
    cases i with
    | hardwareHandler => cases pc <;> cases hc; exact ⟨hp.2.2, id⟩
    | producer => cases pc <;> cases hc
  act {j pc k s s' e f} hc hf hp {i q} hij hq hidle := by
    cases waits_eq hq
    cases j with
    | hardwareHandler => exact absurd rfl hij
    | producer => exact (addToQueue_act hc hf).dataReady.imp_left fun h => h.trans hidle
  keep {j pc k} hk ho := by
    cases j with
    | hardwareHandler => exact ho
    | producer =>
      cases pc with
      | unlock => cases hk; trivial
      | signal => cases hk
      | idle | lock | add | link | ready => cases ho
  only _ _ _ _ _ _ _ _ hq hq' := (waits_eq hq).trans (waits_eq hq').symm

variable {κ : Type} [DecidableEq κ]

/-- A sleeping handler sleeps over a clear flag, or a producer owes it a signal. -/
theorem clear_or_owing {c : Config (program κ)} (h : Reachable c) {k : HandlerPc}
    (hs : handler c = .asleep k) :
    c.shared.dataReady = 0 ∨
      ∃ i pc, producer c i = .run pc ∧ pc.Owes := by
  rcases (wakeup κ).sound outline_start h .hardwareHandler k hs with hidle | ⟨j, pc, hj, ho⟩
  · exact .inl hidle
  · cases j with
    | hardwareHandler => exact ho.elim
    | producer i => exact .inr ⟨i, pc, hj, ho⟩

/-- A producer that has put data into the queue and not yet signalled. -/
def ProducerPc.OnItsWay (pc : ProducerPc) : Prop := pc = .ready ∨ pc.Owes

/-- Data in the queue and the handler asleep: a wake-up is on its way. -/
theorem onItsWay {c : Config (program κ)} (h : Reachable c) {k : HandlerPc}
    (hs : handler c = .asleep k) (hdata : c.shared.queue.dataQueuep ≠ none) :
    ∃ i pc, producer c i = .run pc ∧ pc.OnItsWay := by
  rcases clear_or_owing h hs with hclear | ⟨i, pc, hi, ho⟩
  · rw [Ne, ← Queue.is_nil_iff] at hdata
    have hO := holds_of_reachable h
    -- The flag is clear over a non-empty queue: a producer is between the two updates.
    cases hm : c.mutex with
    | none => exact absurd ((hO.inv hm).empty hclear) hdata
    | some i =>
      obtain ⟨pc, hi, hin⟩ := h.owned.holder hm
      have hpre := hO.pre hi
      cases i with
      | hardwareHandler => exact nomatch hs.symm.trans hi
      | producer i =>
        change ProducerPc at pc
        cases pc with
        | add | unlock => exact absurd (hpre.empty hclear) hdata
        | link data =>
          obtain ⟨l, hl, -, hnil⟩ := hpre
          exact absurd (hnil hclear ▸ hl) hdata
        | ready => exact ⟨i, .ready, hi, .inl rfl⟩
        | idle | lock | signal => cases hin
  · exact ⟨i, pc, hi, .inr ho⟩

/-- **No wake-up is lost.** -/
theorem no_lost_wakeup (c : Config (program κ)) (h : Reachable c) :
    (c.mutex = none → c.shared.dataReady = 0 → c.shared.queue.dataQueuep = none) ∧
    ∀ k, handler c = .asleep k → c.shared.queue.dataQueuep ≠ none →
      (c.mutex = none → ∃ i, producer c i = .run .signal) ∧
      ∃ i pc, producer c i = .run pc ∧ pc.OnItsWay := by
  constructor
  · intro hm hr
    exact Queue.is_nil_iff.1 (((holds_of_reachable h).inv hm).empty hr)
  · intro k hs hdata
    refine ⟨?_, onItsWay h hs hdata⟩
    intro hm
    obtain ⟨i, pc, hi, ho⟩ := onItsWay h hs hdata
    have hout := h.owned.outside hm hi
    cases pc with
    | signal => exact ⟨i, hi⟩
    | ready | unlock => cases hout
    | idle | lock | add | link => rcases ho with ho | ho <;> cases ho

theorem no_lost_wakeup_asleep : ∃ c : Config (program (Fin 1)), Reachable c ∧
    handler c = .asleep .test ∧ c.mutex = none ∧ c.shared.queue.dataQueuep = some 100 ∧
    ∃ i, producer c i = .run .signal := by
  obtain ⟨c, hc, hp⟩ := exists_reach (P := program (Fin 1)) (I := (· = start)) rfl
    (l := List.replicate 3 (.hardwareHandler, .call 0) ++ untilSignal 0 7 100)
    (p := fun c => handler c == .asleep .test && c.mutex == none &&
      c.shared.queue.dataQueuep == some 100) (by decide)
  simp only [Bool.and_eq_true, beq_iff_eq] at hp
  obtain ⟨⟨hs, hm⟩, hq⟩ := hp
  exact ⟨c, hc, hs, hm, hq, ((no_lost_wakeup c hc).2 .test hs (by simp [hq])).1 hm⟩

end QnxTutorial.CondvarQueue
