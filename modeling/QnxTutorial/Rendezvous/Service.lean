import QnxTutorial.Rendezvous.Basic

/-!
# Everybody is served

**Theorem (`exists_step`).** As long as a client who lives has something to do, somebody can take a
step: a client is blocked only while the server can be expected to do something for it.

**Theorem (`bound`).** And there are only so many steps to take, for each request and for each pulse
that comes from elsewhere. So everybody is served after so many steps, whatever the order.
-/

namespace Rendezvous

variable {σ μ π ρ κ : Type} {S : Server σ μ π ρ} {c d : Config σ μ π ρ κ} {inv : σ → Prop}
  {ok : μ → ρ → Prop} {most : ℕ} {program : κ → List (Request μ π)}

/-! ## Progress -/

/-- The client is through with its program, or dead. -/
def Client.Done {μ π : Type} (x : Client μ π) : Prop := x = .gone ∨ x = .running []

/-- Who is done without having died has sent all his messages and has had all the replies. -/
theorem Inv.answered_of_done (h : Inv inv ok most program c) {i : κ}
    (hi : c.client i = .running []) : (c.results i).map Prod.fst = sends (program i) := by
  have hpending := (h.history i).pending (by rw [hi]; nofun)
  rw [hi] at hpending
  simpa [Client.pending, sends] using hpending

/-- A client with one message has the reply to that message, or none yet. -/
theorem Inv.results_eq (h : Inv inv ok most program c) {i : κ} {q : μ}
    (hq : sends (program i) = [q]) :
    c.results i = [] ∨ ∃ r, c.results i = [(q, r)] ∧ ok q r := by
  have hprefix := (h.history i).answered
  have hok := h.results i
  rw [hq] at hprefix
  generalize c.results i = results at hprefix hok
  rcases results with _ | ⟨⟨q', r⟩, results⟩
  · exact .inl rfl
  · rw [List.map_cons, List.cons_prefix_cons, List.prefix_nil, List.map_eq_nil_iff] at hprefix
    obtain ⟨rfl, rfl⟩ := hprefix
    exact .inr ⟨r, rfl, hok _ (List.mem_singleton_self _)⟩

variable [DecidableEq κ]

theorem exists_step_of_busy {calls : List (Call ρ)} (hbusy : c.busy = some calls) :
    ∃ d, Step S c d := by
  cases calls with
  | nil => exact ⟨_, .finish hbusy⟩
  | cons x calls =>
    cases x with
    | other => exact ⟨_, .other hbusy⟩
    | reply rcvid r =>
      by_cases hnobody : ∀ i m, ¬ c.Awaits i rcvid m
      · exact ⟨_, .replyFails hbusy hnobody⟩
      · simp only [not_forall, not_not] at hnobody
        obtain ⟨i, m, todo, hi⟩ := hnobody
        exact ⟨_, .reply hbusy hi⟩

/-- **Somebody can take a step**, unless everybody is done. -/
theorem exists_step (hS : S.Serves inv ok most) (h : Inv inv ok most program c) :
    (∃ d, Step S c d) ∨ ∀ i, (c.client i).Done := by
  cases hbusy : c.busy with
  | some calls => exact .inl (exists_step_of_busy hbusy)
  | none =>
    by_cases hdone : ∀ i, (c.client i).Done
    · exact .inr hdone
    · left
      simp only [not_forall] at hdone
      obtain ⟨i, hi⟩ := hdone
      cases hclient : c.client i with
      | gone => exact (hi (.inl hclient)).elim
      | running todo =>
        cases todo with
        | nil => exact (hi (.inr hclient)).elim
        | cons x todo =>
          cases x with
          | send m => exact ⟨_, .send hclient⟩
          | pulse p => exact ⟨_, .pulse hclient⟩
      | replyBlocked rcvid m todo => exact (h.not_awaits hbusy i rcvid m ⟨todo, hclient⟩).elim
      | sendBlocked m todo =>
        -- Nobody waits for a reply, so that any receive id will do.
        obtain ⟨s, calls, hm⟩ := hS.message c.state 1 m h.state Int.one_pos
        exact ⟨_, .receive hbusy hclient Int.one_pos (fun j m' => h.not_awaits hbusy j 1 m') hm⟩

/-- **Where nobody can go on, everybody who lives is served.** -/
theorem Inv.served (hS : S.Serves inv ok most) (h : Inv inv ok most program c)
    (hstuck : ∀ d, ¬ Step S c d) {i : κ} {q : μ} (hq : sends (program i) = [q]) :
    c.client i = .gone ∨ c.client i = .running [] ∧ ∃ r, c.results i = [(q, r)] ∧ ok q r := by
  have hdone := ((exists_step hS h).resolve_left fun ⟨d, hd⟩ => hstuck d hd) i
  rcases hdone with hgone | hrunning
  · exact .inl hgone
  · right
    refine ⟨hrunning, (h.results_eq hq).resolve_left ?_⟩
    intro hnil
    have hanswered := h.answered_of_done hrunning
    rw [hnil, hq] at hanswered
    cases hanswered

/-! ## The number of steps -/

/-- What a client has still to do is worth so many steps. -/
def Client.rank {μ π : Type} (most : ℕ) : Client μ π → ℕ
  | .running todo | .replyBlocked _ _ todo => (most + 3) * todo.length
  | .sendBlocked _ todo => (most + 3) * todo.length + (most + 2)
  | .gone => 0

/-- The steps of the server before it receives again. -/
def left {ρ : Type} : Option (List (Call ρ)) → ℕ
  | none => 0
  | some calls => calls.length + 1

variable [Fintype κ]

def total (most : ℕ) (client : κ → Client μ π) : ℕ := ∑ i, (client i).rank most

def Config.potential (most : ℕ) (c : Config σ μ π ρ κ) : ℕ :=
  total most c.client + (most + 2) * c.pulses.length + left c.busy

theorem total_set (most : ℕ) (c : Config σ μ π ρ κ) (i : κ) (x : Client μ π) :
    total most (c.set i x).client + (c.client i).rank most = total most c.client + x.rank most :=
  Potential.sum_update (fun _ => Client.rank most) c.client i x

theorem potential_step (hS : S.Serves inv ok most) (h : Inv inv ok most program c)
    (hst : Step S c d) : d.potential most < c.potential most := by
  cases hst with
  | @pulse i _ todo hi =>
    have hset := total_set most c i (.running todo)
    rw [hi] at hset
    simp only [Client.rank, List.length_cons, Nat.mul_succ] at hset
    simp only [Config.potential, List.length_append, List.length_singleton, Nat.mul_succ]
    show _ + left c.busy < _
    omega
  | @pulseFails i _ todo hi =>
    have hset := total_set most c i (.running todo)
    rw [hi] at hset
    simp only [Client.rank, List.length_cons, Nat.mul_succ] at hset
    simp only [Config.potential]
    show _ + (most + 2) * c.pulses.length + left c.busy < _
    omega
  | @send i m todo hi =>
    have hset := total_set most c i (.sendBlocked m todo)
    rw [hi] at hset
    simp only [Client.rank, List.length_cons, Nat.mul_succ] at hset
    simp only [Config.potential]
    show _ + (most + 2) * c.pulses.length + left c.busy < _
    omega
  | @receive i m todo rcvid s calls hidle hi hpos hfresh hm =>
    have hset := total_set most c i (.replyBlocked rcvid m todo)
    rw [hi] at hset
    simp only [Client.rank] at hset
    have hlength := (hS.after_message _ _ _ _ _ h.state hpos hm).2.1
    simp only [Config.potential, hidle, left]
    show _ + (most + 2) * c.pulses.length + _ < _
    omega
  | @receivePulse before after p s calls hidle hp hm =>
    have hlength := (hS.after_pulse _ _ _ _ h.state hm).2
    simp only [Config.potential, hidle, left, hp, List.length_append, List.length_cons,
      ← Nat.add_assoc, Nat.mul_succ]
    omega
  | @reply i m todo rcvid r calls hbusy hi =>
    have hset := total_set most c i (.running todo)
    rw [hi] at hset
    simp only [Client.rank] at hset
    simp only [Config.potential, hbusy, left, List.length_cons]
    show _ + (most + 2) * c.pulses.length + _ < _
    omega
  | replyFails hbusy _ => simp [Config.potential, hbusy, left]
  | other hbusy => simp [Config.potential, hbusy, left]
  | finish hbusy => simp [Config.potential, hbusy, left]

theorem potential_event (most : ℕ) (he : Event c d) :
    d.potential most ≤ c.potential most + (most + 2) := by
  cases he with
  | kill i =>
    have hset := total_set most c i .gone
    simp only [Client.rank] at hset
    simp only [Config.potential]
    show _ + (most + 2) * c.pulses.length + left c.busy ≤ _
    omega
  | arrives p =>
    simp only [Config.potential, List.length_append, List.length_singleton, Nat.mul_succ]
    omega

/-- **The number of steps** in a run. -/
theorem bound (hS : S.Serves inv ok most) {s : σ} (hs : inv s) {n m : ℕ}
    (hp : Path S (.init s program) n m c) :
    n ≤ (most + 3) * ∑ i, (program i).length + (most + 2) * m := by
  have hbound : n + c.potential most + 0 * 0 ≤
      (Config.init s program : Config σ μ π ρ κ).potential most + 0 * 0 + (most + 2) * m := by
    apply Potential.Path.bound (J := Inv inv ok most program) (F := Config.potential most)
      (G := fun _ => 0) hp
    · exact fun hp => inv_of_path hS hs hp
    · intro b d hb hst
      have := potential_step hS hb hst
      omega
    · intro b d _ he
      have := potential_event most he
      omega
  have hinit : (Config.init s program : Config σ μ π ρ κ).potential most =
      (most + 3) * ∑ i, (program i).length := by
    simp [Config.potential, Config.init, total, Client.rank, left, Finset.mul_sum]
  omega

end Rendezvous
