import QnxTutorial.Monitor.Progress
import QnxTutorial.Prodcons.HandOver

/-!
# One signal is enough

Both threads wait on the same condition variable, for opposite values of `state`, and a signal
wakes only one waiter. Since each thread signals before it gives the mutex back, and the other is
the only one that can be waiting then, the signal reaches the thread whose turn it is.

**Theorem (`signal_suffices`).** While the mutex is free, the producer only sleeps if there is a
product and the consumer only if there is none; and some thread can always go on.
-/

namespace QnxTutorial.Prodcons

open Monitor

/-- Whose turn it is only changes in the step after which the other is signalled. -/
theorem ProducerAct.state {pc k : ProducerPc} {s s' : Shared} (h : ProducerAct pc s s' k) :
    s'.state = s.state ∨ k = .signal := by
  cases h with
  | full | empty | readProduct | writeProduct => exact .inl rfl
  | setState => exact .inr rfl

theorem ConsumerAct.state {pc k : ConsumerPc} {s s' : Shared} (h : ConsumerAct pc s s' k) :
    s'.state = s.state ∨ k = .signal := by
  cases h with
  | empty | full | readProduct => exact .inl rfl
  | setState => exact .inr rfl

theorem eq_of_ne {i i' j : Tid} (hi : i ≠ j) (hi' : i' ≠ j) : i = i' := by
  cases i <;> cases i' <;> cases j <;> first | rfl | exact absurd rfl hi | exact absurd rfl hi'

/-- The wake-up argument: the producer sleeps on a product, the consumer on none. -/
def wakeup : Wakeup outline where
  idle
    | .producer => fun _ s => s.state = 1
    | .consumer => fun _ s => s.state = 0
  owes
    | .producer => (· = .signal)
    | .consumer => (· = .signal)
  sleep {i pc k s} hc hp := by
    cases i <;> cases pc <;> cases hc <;> exact ⟨hp.2, nofun⟩
  act {j pc k s s' e f} hc hf hp {i q} hij _ hidle := by
    cases j <;> cases i
    · exact absurd rfl hij
    · exact (producer_act hc hf).state.imp_left fun hs => hs.trans hidle
    · exact (consumer_act hc hf).state.imp_left fun hs => hs.trans hidle
    · exact absurd rfl hij
  keep {j pc k} hk ho := by
    cases j <;> cases ho <;> exact hk.elim
  only _ _ _ _ _ _ hi hi' _ _ := eq_of_ne hi hi'

theorem program_live : program.Live where
  ne_halt i pc := by cases i <;> cases pc <;> nofun
  act i pc f hc s := by
    cases i <;> cases pc <;> cases hc <;> exact ⟨(), _, _, rfl⟩

theorem not_owing {c : Config program} (h : Reachable c) (hm : c.mutex = none) :
    ¬ wakeup.Owing c := by
  rintro ⟨j, pc, hj, ho⟩
  have hout := h.owned.outside hm hj
  cases j <;> cases ho <;> cases hout

theorem idle_of_asleep {c : Config program} (h : Reachable c) (hm : c.mutex = none) {i : Tid}
    {k : program.Pc i} (hs : c.thread i = .asleep k) : wakeup.idle i k c.shared :=
  (wakeup.sound outline_start h i k hs).resolve_right (not_owing h hm)

/-- **One signal is enough.** -/
theorem signal_suffices (c : Config program) (h : Reachable c) :
    (c.mutex = none →
      (∀ k, producerAt c = .asleep k → c.shared.state = 1) ∧
      (∀ k, consumerAt c = .asleep k → c.shared.state = 0)) ∧
    ¬ c.AllAsleep ∧ ∃ i, c.Ready i := by
  have hidle : c.mutex = none → (∀ k, producerAt c = .asleep k → c.shared.state = 1) ∧
      (∀ k, consumerAt c = .asleep k → c.shared.state = 0) := fun hm =>
    ⟨fun _ hs => idle_of_asleep h hm (i := .producer) hs,
      fun _ hs => idle_of_asleep h hm (i := .consumer) hs⟩
  have hawake : ¬ c.AllAsleep := by
    intro hall
    obtain ⟨hproducer, hconsumer⟩ := hidle (h.owned.mutex_of_allAsleep hall)
    obtain ⟨k, hk⟩ := hall .producer
    obtain ⟨k', hk'⟩ := hall .consumer
    exact nomatch (hproducer k hk).symm.trans (hconsumer k' hk')
  exact ⟨hidle, hawake, h.owned.exists_ready program_live hawake⟩

/-- After a production the producer sleeps, and the consumer has been woken. -/
theorem signal_suffices_once : ∃ c : Config program, Reachable c ∧
    producerAt c = .asleep .test ∧ consumerAt c = .woken .test ∧ c.shared.state = 1 ∧
    ∃ i, c.Ready i := by
  obtain ⟨c, hc, hp⟩ := exists_reach_play (P := program) (I := (· = start)) rfl
    (l := produceOnce)
    (p := fun c => c.mutex == none && producerAt c == .asleep .test &&
      consumerAt c == .woken .test) (by decide)
  simp only [Bool.and_eq_true, beq_iff_eq] at hp
  obtain ⟨⟨hm, hs⟩, hw⟩ := hp
  obtain ⟨hidle, -, hready⟩ := signal_suffices c hc
  exact ⟨c, hc, hs, hw, (hidle hm).1 _ hs, hready⟩

end QnxTutorial.Prodcons
