import QnxTutorial.Potential

/-!
# Clients and a server that meet

A client that sends a message is blocked until the server has received it and has replied. A pulse
does not block its sender. The server receives one message or pulse at a time, makes its calls, and
receives again.

A server is the relation between what it knows and what it has received, and what it knows then and
what calls it makes. The clients, the order of receiving, the pulses from elsewhere and the deaths
of clients are not in its hands.

**Theorem (`inv_of_path`).** If the server answers every message once and properly, then whoever is
waiting for a reply is the only one, and his reply is among the calls that are still to be made.
-/

namespace Rendezvous

/-- A call of the server. -/
inductive Call (ρ : Type) where
  | reply (rcvid : ℤ) (answer : ρ)
  | other
  deriving DecidableEq

/-- What the calls reply to `rcvid`. -/
def replies {ρ : Type} (rcvid : ℤ) : List (Call ρ) → List ρ
  | [] => []
  | .reply rcvid' r :: calls => if rcvid' = rcvid then r :: replies rcvid calls
    else replies rcvid calls
  | .other :: calls => replies rcvid calls

/-- What a server makes of a message and of a pulse. -/
structure Server (σ μ π ρ : Type) where
  message : σ → ℤ → μ → σ → List (Call ρ) → Prop
  pulse : σ → π → σ → List (Call ρ) → Prop

inductive Request (μ π : Type) where
  | send (m : μ)
  | pulse (p : π)

/-- The messages of a program. -/
def sends {μ π : Type} : List (Request μ π) → List μ
  | [] => []
  | .send m :: todo => m :: sends todo
  | .pulse _ :: todo => sends todo

/-- A client, with what it has still to do. -/
inductive Client (μ π : Type) where
  | running (todo : List (Request μ π))
  | sendBlocked (m : μ) (todo : List (Request μ π))
  | replyBlocked (rcvid : ℤ) (m : μ) (todo : List (Request μ π))
  | gone

/-- The messages that have not been answered. -/
def Client.pending {μ π : Type} : Client μ π → List μ
  | .running todo => sends todo
  | .sendBlocked m todo | .replyBlocked _ m todo => m :: sends todo
  | .gone => []

variable {σ μ π ρ κ : Type}

/-- The server, with the calls that it has still to make before it receives again, and its clients,
with the replies that each has had to which messages. -/
structure Config (σ μ π ρ κ : Type) where
  state : σ
  busy : Option (List (Call ρ))
  client : κ → Client μ π
  pulses : List π
  results : κ → List (μ × ρ)

variable {S : Server σ μ π ρ} {c d : Config σ μ π ρ κ}

def Config.init (s : σ) (program : κ → List (Request μ π)) : Config σ μ π ρ κ :=
  ⟨s, none, fun i => .running (program i), [], fun _ => []⟩

/-- The calls that are still to be made. -/
def Config.calls (c : Config σ μ π ρ κ) : List (Call ρ) := c.busy.getD []

/-- `rcvid` is that of a client who waits. -/
def Config.Awaits (c : Config σ μ π ρ κ) (i : κ) (rcvid : ℤ) (m : μ) : Prop :=
  ∃ todo, c.client i = .replyBlocked rcvid m todo

section Steps

variable [DecidableEq κ]

def Config.set (c : Config σ μ π ρ κ) (i : κ) (x : Client μ π) : Config σ μ π ρ κ :=
  { c with client := Function.update c.client i x }

@[simp] theorem Config.set_client_self (c : Config σ μ π ρ κ) (i : κ) (x : Client μ π) :
    (c.set i x).client i = x :=
  Function.update_self ..

theorem Config.set_client_ne {i j : κ} (c : Config σ μ π ρ κ) (x : Client μ π) (hj : j ≠ i) :
    (c.set i x).client j = c.client j :=
  Function.update_of_ne hj ..

/-- A step of a client or of the server. Any client that is blocked may be received from, and any
pulse that is pending. -/
inductive Step (S : Server σ μ π ρ) (c : Config σ μ π ρ κ) : Config σ μ π ρ κ → Prop
  | pulse {i : κ} {p : π} {todo : List (Request μ π)} :
      c.client i = .running (.pulse p :: todo) →
      Step S c { c.set i (.running todo) with pulses := c.pulses ++ [p] }
  | pulseFails {i : κ} {p : π} {todo : List (Request μ π)} :
      c.client i = .running (.pulse p :: todo) → Step S c (c.set i (.running todo))
  | send {i : κ} {m : μ} {todo : List (Request μ π)} :
      c.client i = .running (.send m :: todo) → Step S c (c.set i (.sendBlocked m todo))
  | receive {i : κ} {m : μ} {todo : List (Request μ π)} {rcvid : ℤ} {s : σ}
      {calls : List (Call ρ)} : c.busy = none → c.client i = .sendBlocked m todo → 0 < rcvid →
      (∀ j m', ¬ c.Awaits j rcvid m') → S.message c.state rcvid m s calls →
      Step S c { c.set i (.replyBlocked rcvid m todo) with state := s, busy := some calls }
  | receivePulse {before after : List π} {p : π} {s : σ} {calls : List (Call ρ)} :
      c.busy = none → c.pulses = before ++ p :: after → S.pulse c.state p s calls →
      Step S c { c with state := s, busy := some calls, pulses := before ++ after }
  | reply {i : κ} {m : μ} {todo : List (Request μ π)} {rcvid : ℤ} {r : ρ}
      {calls : List (Call ρ)} : c.busy = some (.reply rcvid r :: calls) →
      c.client i = .replyBlocked rcvid m todo →
      Step S c { c.set i (.running todo) with
        busy := some calls
        results := Function.update c.results i (c.results i ++ [(m, r)]) }
  | replyFails {rcvid : ℤ} {r : ρ} {calls : List (Call ρ)} :
      c.busy = some (.reply rcvid r :: calls) → (∀ i m, ¬ c.Awaits i rcvid m) →
      Step S c { c with busy := some calls }
  | other {calls : List (Call ρ)} : c.busy = some (.other :: calls) →
      Step S c { c with busy := some calls }
  | finish : c.busy = some [] → Step S c { c with busy := none }

/-- A client dies, or a pulse comes from elsewhere. -/
inductive Event (c : Config σ μ π ρ κ) : Config σ μ π ρ κ → Prop
  | kill (i : κ) : Event c (c.set i .gone)
  | arrives (p : π) : Event c { c with pulses := c.pulses ++ [p] }

abbrev Path (S : Server σ μ π ρ) : Config σ μ π ρ κ → ℕ → ℕ → Config σ μ π ρ κ → Prop :=
  Potential.Path (Step S) Event

end Steps

/-- The server always gets on, keeps `inv`, and makes at most `most` calls, with one reply to a
message, which is `ok` for it. -/
structure Server.Serves (S : Server σ μ π ρ) (inv : σ → Prop) (ok : μ → ρ → Prop) (most : ℕ) :
    Prop where
  message : ∀ s rcvid m, inv s → 0 < rcvid → ∃ s' calls, S.message s rcvid m s' calls
  pulse : ∀ s p, inv s → ∃ s' calls, S.pulse s p s' calls
  after_message : ∀ s rcvid m s' calls, inv s → 0 < rcvid → S.message s rcvid m s' calls →
    inv s' ∧ calls.length ≤ most ∧ ∃ r, replies rcvid calls = [r] ∧ ok m r
  after_pulse : ∀ s p s' calls, inv s → S.pulse s p s' calls → inv s' ∧ calls.length ≤ most

/-! ## The invariant -/

/-- Where a client is in its program. One that is gone has done the first part of it. -/
structure History (program : List (Request μ π)) (results : List (μ × ρ)) (x : Client μ π) :
    Prop where
  answered : results.map Prod.fst <+: sends program
  pending : x ≠ .gone → results.map Prod.fst ++ x.pending = sends program

structure Inv (inv : σ → Prop) (ok : μ → ρ → Prop) (most : ℕ) (program : κ → List (Request μ π))
    (c : Config σ μ π ρ κ) : Prop where
  state : inv c.state
  length : c.calls.length ≤ most
  owed : ∀ i rcvid m, c.Awaits i rcvid m → ∃ r, replies rcvid c.calls = [r] ∧ ok m r
  alone : ∀ i rcvid m j rcvid' m', c.Awaits i rcvid m → c.Awaits j rcvid' m' → i = j
  results : ∀ i, ∀ p ∈ c.results i, ok p.1 p.2
  history : ∀ i, History (program i) (c.results i) (c.client i)

variable {inv : σ → Prop} {ok : μ → ρ → Prop} {most : ℕ} {program : κ → List (Request μ π)}

theorem History.move {todo : List (Request μ π)} {results : List (μ × ρ)} {x y : Client μ π}
    (h : History todo results x) (hx : x ≠ .gone) (hpending : y.pending = x.pending) :
    History todo results y :=
  ⟨h.answered, fun _ => hpending ▸ h.pending hx⟩

theorem Inv.init {s : σ} (hs : inv s) : Inv inv ok most program (.init s program) where
  state := hs
  length := Nat.zero_le _
  owed i rcvid m h := by
    obtain ⟨todo, h⟩ := h
    cases h
  alone i rcvid m j rcvid' m' h := by
    obtain ⟨todo, h⟩ := h
    cases h
  results i p hp := by cases hp
  history i := ⟨List.nil_prefix, fun _ => rfl⟩

/-- While nothing is left to be done, nobody waits for a reply. -/
theorem Inv.not_awaits (h : Inv inv ok most program c) (hidle : c.busy = none) (i : κ) (rcvid : ℤ)
    (m : μ) : ¬ c.Awaits i rcvid m := by
  intro hi
  obtain ⟨r, hr, -⟩ := h.owed i rcvid m hi
  rw [Config.calls, hidle] at hr
  cases hr

theorem Inv.set_pulses (h : Inv inv ok most program c) (pulses : List π) :
    Inv inv ok most program { c with pulses := pulses } :=
  { h with }

theorem Inv.receivePulse (h : Inv inv ok most program c) (hidle : c.busy = none) {s : σ}
    {calls : List (Call ρ)} {pulses : List π} (hs : inv s) (hlength : calls.length ≤ most) :
    Inv inv ok most program { c with state := s, busy := some calls, pulses := pulses } where
  state := hs
  length := hlength
  owed i rcvid m hi := (h.not_awaits hidle i rcvid m hi).elim
  alone i rcvid m _ _ _ hi := (h.not_awaits hidle i rcvid m hi).elim
  results := h.results
  history := h.history

theorem Inv.call (h : Inv inv ok most program c) {x : Call ρ} {calls : List (Call ρ)}
    (hbusy : c.busy = some (x :: calls))
    (hx : ∀ i rcvid m, c.Awaits i rcvid m → replies rcvid (x :: calls) = replies rcvid calls) :
    Inv inv ok most program { c with busy := some calls } := by
  have hlength := h.length
  rw [Config.calls, hbusy, Option.getD_some] at hlength
  refine ⟨h.state, Nat.le_of_succ_le hlength, ?_, h.alone, h.results, h.history⟩
  intro i rcvid m hi
  obtain ⟨r, hr, hok⟩ := h.owed i rcvid m hi
  rw [Config.calls, hbusy, Option.getD_some, hx i rcvid m hi] at hr
  exact ⟨r, hr, hok⟩

variable [DecidableEq κ]

theorem awaits_set {i j : κ} (x : Client μ π) {rcvid : ℤ} {m : μ}
    (hx : ∀ rcvid m todo, x ≠ .replyBlocked rcvid m todo) (h : (c.set i x).Awaits j rcvid m) :
    c.Awaits j rcvid m := by
  obtain ⟨todo, h⟩ := h
  by_cases hj : j = i
  · subst hj
    rw [Config.set_client_self] at h
    exact (hx _ _ _ h).elim
  · rw [Config.set_client_ne c x hj] at h
    exact ⟨todo, h⟩

theorem history_set {i : κ} {x : Client μ π}
    (h : ∀ j, History (program j) (c.results j) (c.client j))
    (hx : History (program i) (c.results i) x) (j : κ) :
    History (program j) (c.results j) ((c.set i x).client j) := by
  by_cases hj : j = i
  · subst hj
    rwa [Config.set_client_self]
  · rw [Config.set_client_ne c x hj]
    exact h j

theorem Inv.set (h : Inv inv ok most program c) {i : κ} (x : Client μ π)
    (hx : ∀ rcvid m todo, x ≠ .replyBlocked rcvid m todo)
    (hhistory : History (program i) (c.results i) x) : Inv inv ok most program (c.set i x) where
  state := h.state
  length := h.length
  owed j rcvid m hj := h.owed j rcvid m (awaits_set x hx hj)
  alone j rcvid m j' rcvid' m' hj hj' :=
    h.alone j rcvid m j' rcvid' m' (awaits_set x hx hj) (awaits_set x hx hj')
  results := h.results
  history := history_set h.history hhistory

theorem Inv.receive (h : Inv inv ok most program c) (hidle : c.busy = none) {i : κ} {m : μ}
    {todo : List (Request μ π)} (hi : c.client i = .sendBlocked m todo) {rcvid : ℤ} {s : σ}
    {calls : List (Call ρ)} (hs : inv s) (hlength : calls.length ≤ most) {r : ρ}
    (hr : replies rcvid calls = [r]) (hok : ok m r) : Inv inv ok most program
      { c.set i (.replyBlocked rcvid m todo) with state := s, busy := some calls } := by
  have honly : ∀ j rcvid' m', (c.set i (.replyBlocked rcvid m todo)).Awaits j rcvid' m' →
      j = i ∧ rcvid' = rcvid ∧ m' = m := by
    intro j rcvid' m' hj
    obtain ⟨todo', hj⟩ := hj
    by_cases hji : j = i
    · subst hji
      rw [Config.set_client_self] at hj
      cases hj
      exact ⟨rfl, rfl, rfl⟩
    · rw [Config.set_client_ne c _ hji] at hj
      exact (h.not_awaits hidle j rcvid' m' ⟨todo', hj⟩).elim
  refine ⟨hs, hlength, ?_, ?_, h.results, history_set h.history ?_⟩
  · intro j rcvid' m' hj
    obtain ⟨rfl, rfl, rfl⟩ := honly j rcvid' m' hj
    exact ⟨r, hr, hok⟩
  · intro j rcvid' m' j' rcvid'' m'' hj hj'
    rw [(honly j rcvid' m' hj).1, (honly j' rcvid'' m'' hj').1]
  · have hhistory := h.history i
    rw [hi] at hhistory
    exact hhistory.move nofun rfl

/-- The client gets its reply, and nobody else waits. -/
theorem Inv.reply (h : Inv inv ok most program c) {i : κ} {m : μ} {todo : List (Request μ π)}
    {rcvid : ℤ} {r : ρ} {calls : List (Call ρ)} (hbusy : c.busy = some (.reply rcvid r :: calls))
    (hi : c.client i = .replyBlocked rcvid m todo) : Inv inv ok most program
      { c.set i (.running todo) with
        busy := some calls
        results := Function.update c.results i (c.results i ++ [(m, r)]) } := by
  have hlength := h.length
  obtain ⟨r', hr', hok⟩ := h.owed i rcvid m ⟨todo, hi⟩
  rw [Config.calls, hbusy, Option.getD_some] at hlength hr'
  rw [replies, if_pos rfl] at hr'
  obtain ⟨rfl, -⟩ := List.cons.inj hr'
  have hnobody : ∀ j rcvid' m', ¬ (c.set i (.running todo)).Awaits j rcvid' m' := by
    intro j rcvid' m' hj
    have hji := h.alone j rcvid' m' i rcvid m (awaits_set (.running todo) nofun hj) ⟨todo, hi⟩
    obtain ⟨todo', hj⟩ := hj
    rw [hji, Config.set_client_self] at hj
    cases hj
  refine ⟨h.state, Nat.le_of_succ_le hlength, ?_, ?_, ?_, ?_⟩
  · exact fun j rcvid' m' hj => (hnobody j rcvid' m' hj).elim
  · exact fun j rcvid' m' _ _ _ hj => (hnobody j rcvid' m' hj).elim
  · intro j p hp
    by_cases hji : j = i
    · subst hji
      simp only [Function.update_self, List.mem_append, List.mem_singleton] at hp
      rcases hp with hp | rfl
      · exact h.results j p hp
      · exact hok
    · simp only [Function.update_of_ne hji] at hp
      exact h.results j p hp
  · intro j
    by_cases hji : j = i
    · subst hji
      have hpending := (h.history j).pending (by simp [hi])
      rw [hi] at hpending
      have hall : (c.results j ++ [(m, r)]).map Prod.fst ++ sends todo = sends (program j) := by
        simpa [Client.pending] using hpending
      simp only [Config.set_client_self, Function.update_self]
      exact ⟨⟨_, hall⟩, fun _ => hall⟩
    · simp only [Config.set_client_ne c _ hji, Function.update_of_ne hji]
      exact h.history j

/-- **Every step keeps the invariant.** -/
theorem Inv.step (hS : S.Serves inv ok most) (h : Inv inv ok most program c) (hst : Step S c d) :
    Inv inv ok most program d := by
  cases hst with
  | @pulse i _ todo hi =>
    have hhistory := h.history i
    rw [hi] at hhistory
    exact (h.set (.running todo) nofun (hhistory.move nofun rfl)).set_pulses _
  | @pulseFails i _ todo hi =>
    have hhistory := h.history i
    rw [hi] at hhistory
    exact h.set (.running todo) nofun (hhistory.move nofun rfl)
  | @send i m todo hi =>
    have hhistory := h.history i
    rw [hi] at hhistory
    exact h.set (.sendBlocked m todo) nofun (hhistory.move nofun rfl)
  | receive hidle hi hpos hfresh hm =>
    obtain ⟨hs, hlength, r, hr, hok⟩ := hS.after_message _ _ _ _ _ h.state hpos hm
    exact h.receive hidle hi hs hlength hr hok
  | receivePulse hidle hp hm =>
    obtain ⟨hs, hlength⟩ := hS.after_pulse _ _ _ _ h.state hm
    exact h.receivePulse hidle hs hlength
  | reply hbusy hi => exact h.reply hbusy hi
  | @replyFails rcvid _ _ hbusy hnobody =>
    apply h.call hbusy
    intro i rcvid' m hi
    have hne : rcvid ≠ rcvid' := by
      intro heq
      subst heq
      exact hnobody i m hi
    rw [replies, if_neg hne]
  | other hbusy => exact h.call hbusy fun _ _ _ _ => rfl
  | finish hbusy =>
    refine ⟨h.state, Nat.zero_le _, ?_, h.alone, h.results, h.history⟩
    intro i rcvid m hi
    obtain ⟨r, hr, hok⟩ := h.owed i rcvid m hi
    rw [Config.calls, hbusy] at hr
    cases hr

theorem Inv.event (h : Inv inv ok most program c) (he : Event c d) :
    Inv inv ok most program d := by
  cases he with
  | kill i => exact h.set .gone nofun ⟨(h.history i).answered, fun hgone => (hgone rfl).elim⟩
  | arrives p => exact h.set_pulses _

/-- **The invariant holds in every run.** -/
theorem inv_of_path (hS : S.Serves inv ok most) {s : σ} (hs : inv s) {n m : ℕ}
    (hp : Path S (.init s program) n m c) : Inv inv ok most program c :=
  hp.invariant (fun _ _ h hst => h.step hS hst) (fun _ _ h he => h.event he) (.init hs)

end Rendezvous
