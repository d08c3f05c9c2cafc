import QnxTutorial.CondvarQueue.Drain
import QnxTutorial.Monitor.Refinement

/-!
# The bursts of `dataProvider`

`dataProvider` calls `add_to_queue` in bursts of fewer than ten, with data that say which burst they
are from and which place they have in it. `add_to_queue` is the code of a producer, and
`dataProvider` is a producer that chooses its data so (`refinement`): what holds of producers that
add whatever they like holds of it.

**Theorem (`writes_bursts`).** What is written to the hardware is burst after burst, in order and
without gaps, and all of it whenever the provider is between two bursts and nobody else can go on.
-/

namespace QnxTutorial.CondvarQueue

open Monitor

/-! ## The provider -/

/-- What a step may need from outside: the result of `rand()`, or what a producer needs. -/
inductive ProviderInput where
  | rand (r : ℕ)
  | queue (e : Input)

def ProviderInput.queue? : ProviderInput → Option Input
  | .rand _ => none
  | .queue e => some e

/-- Control points of `dataProvider`, with its local variables: the choice of `n_loops`, the test of
the `for` loop with a `delay` after the loop, and the inside of `add_to_queue`. -/
inductive ProviderPc where
  | rand
  | loop (nLoops i : ℕ)
  | call (nLoops i : ℕ) (pc : ProducerPc)
  deriving DecidableEq

/-- `n_loops * 100 + i`. -/
def datum (nLoops i : ℕ) : ℤ := nLoops * 100 + i

/-- After a step inside `add_to_queue`. -/
def inCall (nLoops i : ℕ) : ProducerPc → ProviderPc
  | .idle => .loop nLoops (i + 1)
  | pc => .call nLoops i pc

/-- `dataProvider`. -/
def dataProvider : ProviderPc → Instr Shared ProviderInput ProviderPc
  | .rand => .act fun
      | .rand r, s => some (s, .loop (r % 10) 0)
      | .queue _, _ => none
  | .loop nLoops i => .act fun _ s =>
      some (s, if i < nLoops then .call nLoops i (.lock (datum nLoops i)) else .rand)
  | .call nLoops i pc => (addToQueue pc).map (inCall nLoops i) ProviderInput.queue?

/-- The provider as a producer. -/
def ProviderPc.producer : ProviderPc → ProducerPc
  | .rand | .loop .. => .idle
  | .call _ _ pc => pc

theorem producer_inCall (nLoops i : ℕ) (pc : ProducerPc) :
    (inCall nLoops i pc).producer = pc := by
  cases pc <;> rfl

theorem dataProvider_disciplined (pc : ProviderPc) :
    (dataProvider pc).Disciplined (fun pc => pc.producer.holds) pc.producer.holds := by
  cases pc with
  | rand =>
    intro e s s' k hf
    cases e <;> cases hf
    rfl
  | loop nLoops i =>
    intro e s s' k hf
    cases hf
    by_cases hi : i < nLoops
    · rw [if_pos hi]
      rfl
    · rw [if_neg hi]
      rfl
  | call nLoops i pc =>
    exact (addToQueue_disciplined pc).map fun k => congrArg _ (producer_inCall nLoops i k)

/-- The threads that `main` creates. -/
def mainProgram : Program (Tid Unit) Shared ProviderInput where
  Pc
    | .hardwareHandler => HandlerPc
    | .producer _ => ProviderPc
  start
    | .hardwareHandler => .lock
    | .producer _ => .rand
  code
    | .hardwareHandler => fun pc => (hardwareHandler pc).map id ProviderInput.queue?
    | .producer _ => dataProvider
  holds
    | .hardwareHandler => HandlerPc.holds
    | .producer _ => fun pc => pc.producer.holds
  start_free
    | .hardwareHandler => rfl
    | .producer _ => rfl
  disciplined
    | .hardwareHandler => fun pc => (hardwareHandler_disciplined pc).map fun _ => rfl
    | .producer _ => dataProvider_disciplined

theorem dataProvider_refines (pc : ProviderPc) :
    (dataProvider pc).Refines ProviderPc.producer id pc.producer (addToQueue pc.producer) := by
  cases pc with
  | rand =>
    intro e s s' k hf
    cases e <;> cases hf
    exact .inl ⟨rfl, rfl⟩
  | loop nLoops i =>
    intro e s s' k hf
    cases hf
    by_cases hi : i < nLoops
    · rw [if_pos hi]
      exact .inr ⟨_, .call (datum nLoops i), rfl, rfl⟩
    · rw [if_neg hi]
      exact .inl ⟨rfl, rfl⟩
  | call nLoops i pc => exact Instr.refines_map (producer_inCall nLoops i) pc

/-- **The provider is a producer.** -/
def refinement : Refinement mainProgram (program Unit) where
  pc
    | .hardwareHandler => id
    | .producer _ => ProviderPc.producer
  shared := id
  start
    | .hardwareHandler => rfl
    | .producer _ => rfl
  refines
    | .hardwareHandler => fun pc => Instr.refines_map (fun _ => rfl) pc
    | .producer _ => dataProvider_refines

/-! ## What the provider has added -/

/-- The data of a burst. -/
def burst (nLoops : ℕ) : List ℤ := (List.range nLoops).map (datum nLoops)

/-- Some bursts have been added, and `i` data of the one that is under way. -/
def Added (nLoops i : ℕ) (added : List ℤ) : Prop :=
  ∃ bursts : List ℕ, (∀ n ∈ bursts, n < 10) ∧
    added = bursts.flatMap burst ++ (burst nLoops).take i

/-- Where a call of `add_to_queue` is, and whether it has counted its datum as added. -/
inductive Calling (data : ℤ) : ProducerPc → ℕ → Prop
  | lock : Calling data (.lock data) 0
  | add : Calling data (.add data) 0
  | link : Calling data (.link data) 1
  | ready : Calling data .ready 1
  | unlock : Calling data .unlock 1
  | signal : Calling data .signal 1

/-- What the provider knows. -/
def providerPre : ProviderPc → Shared → Prop
  | .rand, s => Added 0 0 s.added
  | .loop nLoops i, s => nLoops < 10 ∧ i ≤ nLoops ∧ Added nLoops i s.added
  | .call nLoops i pc, s => nLoops < 10 ∧ i < nLoops ∧
      ∃ m, Calling (datum nLoops i) pc m ∧ Added nLoops (i + m) s.added

theorem take_burst {nLoops i : ℕ} (hi : i < nLoops) :
    (burst nLoops).take (i + 1) = (burst nLoops).take i ++ [datum nLoops i] := by
  rw [burst, List.take_succ_eq_append_getElem (by simpa using hi)]
  simp

theorem Added.start {added : List ℤ} (h : Added 0 0 added) (nLoops : ℕ) :
    Added nLoops 0 added := by
  obtain ⟨bursts, hall, hadded⟩ := h
  exact ⟨bursts, hall, by simpa using hadded⟩

theorem Added.add {added : List ℤ} {nLoops i : ℕ} (h : Added nLoops i added) (hi : i < nLoops) :
    Added nLoops (i + 1) (added ++ [datum nLoops i]) := by
  obtain ⟨bursts, hall, rfl⟩ := h
  exact ⟨bursts, hall, by rw [take_burst hi, List.append_assoc]⟩

theorem Added.finish {added : List ℤ} {nLoops : ℕ} (h : Added nLoops nLoops added)
    (hn : nLoops < 10) : Added 0 0 added := by
  obtain ⟨bursts, hall, rfl⟩ := h
  refine ⟨bursts ++ [nLoops], ?_, ?_⟩
  · intro n hmem
    rcases List.mem_append.1 hmem with hmem | hmem
    · exact hall n hmem
    · exact List.mem_singleton.1 hmem ▸ hn
  · have hfull : (burst nLoops).take nLoops = burst nLoops :=
      List.take_of_length_le (by simp [burst])
    simp [hfull]

/-- What is added so far is the beginning of some bursts. -/
theorem Added.exists_bursts {added : List ℤ} {nLoops i : ℕ} (h : Added nLoops i added)
    (hn : nLoops < 10) :
    ∃ bursts : List ℕ, (∀ n ∈ bursts, n < 10) ∧ added <+: bursts.flatMap burst := by
  obtain ⟨bursts, hall, rfl⟩ := h
  refine ⟨bursts ++ [nLoops], ?_, ?_⟩
  · intro n hmem
    rcases List.mem_append.1 hmem with hmem | hmem
    · exact hall n hmem
    · exact List.mem_singleton.1 hmem ▸ hn
  · rw [List.flatMap_append, List.flatMap_singleton]
    exact (List.prefix_append_right_inj _).2 (List.take_prefix _ _)

/-! ## The outline -/

/-- The pthread calls in `add_to_queue` are steps of the provider, and it goes on as expected. -/
theorem providerPre_call {pc k : ProviderPc} {s : Shared} (hp : providerPre pc s)
    (hc : dataProvider pc = .lock k ∨ dataProvider pc = .unlock k ∨ dataProvider pc = .signal k) :
    providerPre k s := by
  cases pc with
  | rand | loop => rcases hc with hc | hc | hc <;> cases hc
  | call nLoops i pc =>
    obtain ⟨hn, hi, m, hpc, hadded⟩ := hp
    cases hpc with
    | lock =>
      rcases hc with hc | hc | hc <;> cases hc
      exact ⟨hn, hi, 0, .add, hadded⟩
    | unlock =>
      rcases hc with hc | hc | hc <;> cases hc
      exact ⟨hn, hi, 1, .signal, hadded⟩
    | signal =>
      rcases hc with hc | hc | hc <;> cases hc
      exact ⟨hn, hi, hadded⟩
    | add | link | ready => rcases hc with hc | hc | hc <;> cases hc

theorem providerPre_act {pc k : ProviderPc} {e : ProviderInput} {s s' : Shared}
    {f : ProviderInput → Shared → Option (Shared × ProviderPc)} (hc : dataProvider pc = .act f)
    (hf : f e s = some (s', k)) (hp : providerPre pc s) : providerPre k s' := by
  cases pc with
  | rand =>
    cases hc
    cases e with
    | queue => cases hf
    | rand r =>
      cases hf
      exact ⟨Nat.mod_lt r (by decide), Nat.zero_le _, hp.start _⟩
  | loop nLoops i =>
    obtain ⟨hn, hle, hadded⟩ := hp
    cases hc
    cases hf
    by_cases hi : i < nLoops
    · rw [if_pos hi]
      exact ⟨hn, hi, 0, .lock, hadded⟩
    · rw [if_neg hi]
      have heq : i = nLoops := by omega
      exact (heq ▸ hadded).finish hn
  | call nLoops i pc =>
    obtain ⟨hn, hi, m, hpc, hadded⟩ := hp
    obtain ⟨a, e', k', ha, hf', rfl⟩ := Instr.exists_of_map hc hf
    cases addToQueue_act ha hf' with
    | call => cases hpc
    | add =>
      cases hpc
      exact ⟨hn, hi, 1, .link, hadded.add hi⟩
    | link =>
      cases hpc
      exact ⟨hn, hi, 1, .ready, hadded⟩
    | ready =>
      cases hpc
      exact ⟨hn, hi, 1, .unlock, hadded⟩

theorem providerPre_congr {pc : ProviderPc} {s s' : Shared} (h : s'.added = s.added)
    (hp : providerPre pc s) : providerPre pc s' := by
  cases pc <;> simpa only [providerPre, h] using hp

theorem HandlerAct.added {pc k : HandlerPc} {s s' : Shared} (h : HandlerAct pc s s' k) :
    s'.added = s.added := by
  cases h <;> rfl

/-- The proof outline: nobody touches what the provider has added. -/
def burstOutline : Outline mainProgram where
  inv _ := True
  pre
    | .hardwareHandler => fun _ _ => True
    | .producer _ => providerPre
  rest _ _ _ := True
  lock {i pc k s} hc hp _ := by
    cases i with
    | hardwareHandler => trivial
    | producer => exact providerPre_call hp (.inl hc)
  unlock {i pc k s} hc hp := by
    cases i with
    | hardwareHandler => exact ⟨trivial, trivial⟩
    | producer => exact ⟨trivial, providerPre_call hp (.inr (.inl hc))⟩
  wait _ _ := ⟨trivial, trivial⟩
  relock {i pc k s} hc _ _ := by
    cases i with
    | hardwareHandler => trivial
    | producer =>
      cases pc with
      | rand | loop => cases hc
      | call nLoops i pc => cases pc <;> cases hc
  notify {i pc k s} hc hp := by
    cases i with
    | hardwareHandler => trivial
    | producer =>
      rcases hc with hc | hc
      · exact providerPre_call hp (.inr (.inr hc))
      · cases pc with
        | rand | loop => cases hc
        | call nLoops i pc => cases pc <;> cases hc
  act {i pc k s s' e f} hc hf hp := by
    cases i with
    | hardwareHandler => trivial
    | producer => exact providerPre_act hc hf hp
  act_inv _ _ _ _ _ := trivial
  act_other {i pc k s s' e f} hc hf hp {j t} hj _ ht := by
    cases j with
    | hardwareHandler => cases t <;> trivial
    | producer =>
      cases i with
      | producer => exact (hj rfl).elim
      | hardwareHandler =>
        obtain ⟨a, e', k', ha, hf', rfl⟩ := Instr.exists_of_map hc hf
        have hadded := (hardwareHandler_act ha hf').added
        cases t with
        | run pc => exact providerPre_congr hadded ht
        | asleep | woken => trivial

/-! ## The theorem -/

abbrev MainReachable (c : Config mainProgram) : Prop := Reach mainProgram (· = start) c

/-- Where the handler is. -/
def mainHandler (c : Config mainProgram) : Thread HandlerPc := c.thread .hardwareHandler

/-- Where the provider is. -/
def provider (c : Config mainProgram) : Thread ProviderPc := c.thread (.producer ())

variable {c : Config mainProgram}

theorem MainReachable.seen (h : MainReachable c) : Reachable (refinement.config c) :=
  refinement.reach (fun _ hs => hs) h

/-- The provider never waits, and what it knows is true. -/
theorem MainReachable.exists_provider (h : MainReachable c) :
    ∃ pc, provider c = .run pc ∧ providerPre pc c.shared := by
  have hstart : ∀ s, s = start → burstOutline.inv s ∧
      ∀ i, burstOutline.pre i (mainProgram.start i) s := by
    intro s hs
    subst hs
    refine ⟨trivial, fun i => ?_⟩
    cases i with
    | hardwareHandler => trivial
    | producer => exact ⟨[], nofun, rfl⟩
  have hholds := burstOutline.sound hstart h
  have hwaits := h.owned.waits (.producer ())
  have hnowait : ∀ pc k, dataProvider pc ≠ .wait k := by
    intro pc k hc
    cases pc with
    | rand | loop => cases hc
    | call nLoops i pc => cases pc <;> cases hc
  cases ht : provider c with
  | run pc => exact ⟨pc, rfl, hholds.pre ht⟩
  | asleep k =>
    obtain ⟨pc, hc⟩ := hwaits k (.inl ht)
    exact (hnowait pc k hc).elim
  | woken k =>
    obtain ⟨pc, hc⟩ := hwaits k (.inr ht)
    exact (hnowait pc k hc).elim

theorem written_isPrefix_added {κ : Type} [DecidableEq κ] {c : Config (program κ)}
    (h : Reachable c) : c.shared.written <+: c.shared.added := by
  have hremoved : c.shared.written <+: c.shared.removed := by
    rw [removed_eq h]
    exact List.prefix_append _ _
  apply hremoved.trans
  by_cases hfull : HalfDone c
  · obtain ⟨k, data, hk⟩ := hfull
    obtain ⟨l, -, hadded, -⟩ : producerPre (.link data) c.shared := (holds_of_reachable h).pre hk
    rw [hadded, List.append_assoc]
    exact List.prefix_append _ _
  · obtain ⟨l, -, hadded⟩ := complete_of_reachable h hfull
    rw [hadded]
    exact List.prefix_append _ _

/-- Nobody can go on but the provider, which is between two bursts. -/
def BetweenBursts (c : Config mainProgram) : Prop :=
  provider c = .run .rand ∧ ∀ i, c.Ready i → i = .producer ()

theorem BetweenBursts.atRest (hb : BetweenBursts c) : AtRest (refinement.config c) := by
  obtain ⟨hprovider, hall⟩ := hb
  have hidle : producer (refinement.config c) () = .run .idle := refinement.config_run hprovider
  intro i hi
  cases i with
  | producer k => exact ⟨(), rfl, hidle⟩
  | hardwareHandler =>
    have hready : c.Ready .hardwareHandler := by
      cases ht : c.thread .hardwareHandler with
      | run pc =>
        exact refinement.ready_of_map rfl ht (fun e => ⟨.queue e, rfl⟩) rfl hi
      | asleep k =>
        unfold Config.Ready at hi
        rw [refinement.config_asleep ht] at hi
        exact hi.elim
      | woken k =>
        unfold Config.Ready at hi ⊢
        rw [refinement.config_woken ht] at hi
        rw [ht]
        exact hi
    cases hall _ hready

/-- **The hardware gets burst after burst.** -/
theorem writes_bursts (c : Config mainProgram) (h : MainReachable c) :
    (c.shared.written <+: c.shared.added ∧
      ∃ bursts : List ℕ, (∀ n ∈ bursts, n < 10) ∧ c.shared.added <+: bursts.flatMap burst) ∧
    (BetweenBursts c → c.shared.written = c.shared.added ∧
      ∃ bursts : List ℕ, (∀ n ∈ bursts, n < 10) ∧ c.shared.added = bursts.flatMap burst) := by
  obtain ⟨pc, hpc, hpre⟩ := h.exists_provider
  refine ⟨⟨written_isPrefix_added h.seen, ?_⟩, ?_⟩
  · cases pc with
    | rand => exact hpre.exists_bursts (by decide)
    | loop => exact hpre.2.2.exists_bursts hpre.1
    | call =>
      obtain ⟨hn, -, m, -, hadded⟩ := hpre
      exact hadded.exists_bursts hn
  · intro hb
    cases hb.1.symm.trans hpc
    obtain ⟨bursts, hall, hadded⟩ := hpre
    refine ⟨(hb.atRest.written h.seen).2.2, bursts, hall, ?_⟩
    rw [hadded]
    simp [burst]

/-- The handler waits. A burst of one datum is added, and the handler writes it and waits again. -/
def burstOfOne : List (Move (Tid Unit) ProviderInput) :=
  List.replicate 3 (.step .hardwareHandler (.queue (.call 0))) ++
  [.step (.producer ()) (.rand 1), .step (.producer ()) (.rand 0), .step (.producer ()) (.rand 0),
    .step (.producer ()) (.queue (.call 0)), .step (.producer ()) (.queue (.malloc 100 2)),
    .step (.producer ()) (.queue (.call 0)), .step (.producer ()) (.rand 0),
    .signal (.producer ()) .hardwareHandler, .step (.producer ()) (.rand 0)] ++
  List.replicate 12 (.step .hardwareHandler (.queue (.call 0)))

theorem writes_bursts_one : ∃ c : Config mainProgram, MainReachable c ∧
    c.shared.written = [100] ∧ c.shared.written = c.shared.added ∧
    ∃ bursts : List ℕ, (∀ n ∈ bursts, n < 10) ∧ c.shared.added = bursts.flatMap burst := by
  obtain ⟨c, hc, hp⟩ := exists_reach_play (P := mainProgram) (I := (· = start)) rfl
    (l := burstOfOne) (p := fun c => mainHandler c == .asleep .test && provider c == .run .rand &&
      c.shared.written == [100]) (by decide)
  simp only [Bool.and_eq_true, beq_iff_eq] at hp
  obtain ⟨⟨hasleep, hprovider⟩, hwritten⟩ := hp
  refine ⟨c, hc, hwritten, (writes_bursts c hc).2 ⟨hprovider, fun i hi => ?_⟩⟩
  cases i with
  | producer => rfl
  | hardwareHandler =>
    unfold Config.Ready at hi
    rw [show c.thread .hardwareHandler = .asleep .test from hasleep] at hi
    exact hi.elim

end QnxTutorial.CondvarQueue
