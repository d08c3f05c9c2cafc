import Mathlib.Data.Int.Notation
import Mathlib.Data.Nat.Notation
import Mathlib.Logic.Function.Basic
import Mathlib.Tactic.SplitIfs

/-!
# Server connection ids

What the kernel does with the ids by which a server knows its clients. A client that connects gets
any id that is not attached. Its messages are received in order, and when it closes its last
connection a pulse is queued behind them. The id stays attached until the server detaches it, and
may then be given to another client.

Clients are numbered, and one that comes back after its last connection gets a new number. So the
owner of an id is not just a client but one life of it.

**Theorem (`owner_act`).** Nothing that clients do changes the owner of an attached id.

**Theorem (`Tracks.detach`).** A saved id keeps its owner as long as the server detaches others.
-/

namespace ConnectionIds

/-- A client, as the kernel knows it: the connections that it has open, its messages of type `μ`
that were not received yet, and whether its pulse has been received. The pulse is in the queue when
there are no connections. -/
structure Connection (μ : Type) where
  client : ℕ
  coids : ℕ
  queue : List μ
  gone : Bool

/-- A change, for those it is possible for. The client stays who it is. -/
def Change (μ : Type) : Type :=
  {f : Connection μ → Option (Connection μ) // ∀ c c', f c = some c' → c'.client = c.client}

/-- What becomes of those that meet a condition. -/
def Change.when {μ : Type} (p : Connection μ → Prop) [DecidablePred p]
    (f : Connection μ → Connection μ) (hf : ∀ c, (f c).client = c.client) : Change μ :=
  ⟨fun c => if p c then some (f c) else none, by
    intro c c' h
    obtain ⟨-, h⟩ := Option.ite_none_right_eq_some.1 h
    exact Option.some.inj h ▸ hf c⟩

/-- The attached ids. An id is never zero, and belongs to one client. Clients are numbered. -/
structure Kernel (μ : Type) where
  conn : ℤ → Option (Connection μ)
  next : ℕ
  conn_zero : conn 0 = none
  client_lt : ∀ {scoid c}, conn scoid = some c → c.client < next
  client_inj : ∀ {scoid scoid' c c'}, conn scoid = some c → conn scoid' = some c' →
    c.client = c'.client → scoid = scoid'

namespace Kernel

variable {μ : Type}

/-- Nobody is connected. -/
def empty : Kernel μ := ⟨fun _ => none, 0, rfl, nofun, nofun⟩

variable (K : Kernel μ)

/-- Whom the id belongs to, while it is attached. -/
def owner (scoid : ℤ) : Option ℕ := (K.conn scoid).map Connection.client

/-! ## Operations -/

theorem eq_some_of_update {β : Type} {f : ℤ → Option β} {scoid s : ℤ} {o : Option β} {x : β}
    (h : Function.update f scoid o s = some x) : s = scoid ∧ o = some x ∨ f s = some x := by
  by_cases hs : s = scoid
  · rw [hs, Function.update_self] at h
    exact .inl ⟨hs, h⟩
  · rw [Function.update_of_ne hs] at h
    exact .inr h

/-- Let `c` have the id. Nobody else may have the number of its client. -/
def put (scoid : ℤ) (c : Connection μ) (next : ℕ) (hne : scoid ≠ 0) (hle : K.next ≤ next)
    (hlt : c.client < next)
    (hinj : ∀ s c', K.conn s = some c' → c'.client = c.client → s = scoid) : Kernel μ where
  conn := Function.update K.conn scoid (some c)
  next := next
  conn_zero := by rw [Function.update_of_ne hne.symm, K.conn_zero]
  client_lt := by
    intro s x hx
    rcases eq_some_of_update hx with ⟨-, hc⟩ | hx
    · cases hc
      exact hlt
    · exact Nat.lt_of_lt_of_le (K.client_lt hx) hle
  client_inj := by
    intro s s' x x' hx hx' heq
    rcases eq_some_of_update hx with ⟨hs, hc⟩ | hx <;>
      rcases eq_some_of_update hx' with ⟨hs', hc'⟩ | hx'
    · rw [hs, hs']
    · cases hc
      exact hs.trans (hinj s' x' hx' heq.symm).symm
    · cases hc'
      exact (hinj s x hx heq).trans hs'.symm
    · exact K.client_inj hx hx' heq

/-- A new client gets the id. -/
def connect (scoid : ℤ) : Option (Kernel μ) :=
  if h : scoid ≠ 0 ∧ K.conn scoid = none then
    some (K.put scoid ⟨K.next, 1, [], false⟩ (K.next + 1) h.1 (Nat.le_succ _) (Nat.lt_succ_self _)
      fun _ _ hc' heq => absurd heq (Nat.ne_of_lt (K.client_lt hc')))
  else none

/-- Change what is known about the client with an id. -/
def update (scoid : ℤ) (f : Change μ) : Option (Kernel μ) :=
  match hc : K.conn scoid with
  | none => none
  | some c =>
    match hf' : f.1 c with
    | none => none
    | some c' =>
      some (K.put scoid c' K.next (by rintro rfl; exact nomatch K.conn_zero.symm.trans hc)
        (Nat.le_refl _) (f.2 c c' hf' ▸ K.client_lt hc)
        fun _ _ hx heq => K.client_inj hx hc (heq.trans (f.2 c c' hf')))

/-- What the client with an id does, or one without: its first connection attaches the id, and it
may open others (`again`). -/
inductive ClientAct (μ : Type) where
  | connect (scoid : ℤ)
  | again (scoid : ℤ)
  | close (scoid : ℤ)
  | send (scoid : ℤ) (m : μ)

/-- Only a client with a connection can do anything. -/
def act : ClientAct μ → Option (Kernel μ)
  | .connect scoid => K.connect scoid
  | .again scoid => K.update scoid <|
      .when (fun c => 0 < c.coids) (fun c => { c with coids := c.coids + 1 }) fun _ => rfl
  | .close scoid => K.update scoid <|
      .when (fun c => 0 < c.coids) (fun c => { c with coids := c.coids - 1 }) fun _ => rfl
  | .send scoid m => K.update scoid <|
      .when (fun c => 0 < c.coids) (fun c => { c with queue := c.queue ++ [m] }) fun _ => rfl

/-- The server receives `m`, if that is the next message of the client. -/
def receive [DecidableEq μ] (scoid : ℤ) (m : μ) : Option (Kernel μ) :=
  K.update scoid <|
    .when (fun c => c.queue.head? = some m) (fun c => { c with queue := c.queue.tail }) fun _ => rfl

/-- The server receives the pulse, once, when there are no messages before it. -/
def receivePulse (scoid : ℤ) : Option (Kernel μ) :=
  K.update scoid <|
    .when (fun c => c.coids = 0 ∧ c.queue = [] ∧ c.gone = false) (fun c => { c with gone := true })
      fun _ => rfl

/-- `ConnectDetach(scoid)`. -/
def detach (scoid : ℤ) : Kernel μ where
  conn := Function.update K.conn scoid none
  next := K.next
  conn_zero := by
    by_cases h0 : scoid = 0
    · rw [h0, Function.update_self]
    · rw [Function.update_of_ne (Ne.symm h0), K.conn_zero]
  client_lt := by
    intro s x hx
    rcases eq_some_of_update hx with ⟨-, hnone⟩ | hx
    · cases hnone
    · exact K.client_lt hx
  client_inj := by
    intro s s' x x' hx hx' heq
    rcases eq_some_of_update hx with ⟨-, hnone⟩ | hx
    · cases hnone
    · rcases eq_some_of_update hx' with ⟨-, hnone⟩ | hx'
      · cases hnone
      · exact K.client_inj hx hx' heq

/-! ## Owners -/

variable {K} {K' : Kernel μ} {scoid s : ℤ} {n : ℕ}

theorem ne_zero_of_owner (h : K.owner scoid = some n) : scoid ≠ 0 := by
  rintro rfl
  rw [owner, K.conn_zero] at h
  cases h

/-- Only an attached id can be changed, and it keeps its owner. -/
theorem owner_update {f : Change μ} (h : K.update scoid f = some K') :
    K'.owner = K.owner ∧ ∃ n, K.owner scoid = some n := by
  unfold update at h
  split at h
  · cases h
  next c hc =>
    split at h
    · cases h
    next c' hf' =>
      cases h
      refine ⟨?_, c.client, by rw [owner, hc, Option.map_some]⟩
      funext s
      by_cases hs : s = scoid
      · subst hs
        simp only [owner, put, Function.update_self, hc, Option.map_some, f.2 c c' hf']
      · simp only [owner, put, Function.update_of_ne hs]

/-- **An attached id keeps its owner**, whatever clients do. -/
theorem owner_act {a : ClientAct μ} (h : K.act a = some K') (hs : K.owner s = some n) :
    K'.owner s = some n := by
  cases a with
  | connect scoid =>
    simp only [act, connect] at h
    split_ifs at h with hfree
    cases h
    have hne : s ≠ scoid := by
      rintro rfl
      rw [owner, hfree.2] at hs
      cases hs
    simpa only [owner, put, Function.update_of_ne hne] using hs
  | again | close | send => exact (congrFun (owner_update h).1 s).trans hs

theorem owner_receive [DecidableEq μ] {m : μ} (h : K.receive scoid m = some K') :
    K'.owner = K.owner ∧ ∃ n, K.owner scoid = some n :=
  owner_update h

theorem owner_receivePulse (h : K.receivePulse scoid = some K') :
    K'.owner = K.owner ∧ ∃ n, K.owner scoid = some n :=
  owner_update h

theorem owner_detach_of_ne (hs : s ≠ scoid) : (K.detach scoid).owner s = K.owner s := by
  simp only [owner, detach, Function.update_of_ne hs]

/-! ## Saved ids -/

/-- A server has saved `saved` for the client `who`: it is zero, or attached and that client's. -/
def Tracks (K : Kernel μ) (saved : ℤ) (who : Option ℕ) : Prop :=
  saved ≠ 0 → ∃ n, who = some n ∧ K.owner saved = some n

variable {saved : ℤ} {who : Option ℕ}

theorem tracks_zero (who : Option ℕ) : K.Tracks 0 who := fun h => absurd rfl h

theorem tracks_save (h : K.owner scoid = some n) : K.Tracks scoid (some n) := fun _ => ⟨n, rfl, h⟩

theorem Tracks.who_eq (h : K.Tracks saved who) (hn : K.owner saved = some n) : who = some n := by
  obtain ⟨m, hwho, hm⟩ := h (ne_zero_of_owner hn)
  exact hwho.trans (hm.symm.trans hn)

theorem Tracks.congr (h : K.Tracks saved who) (howner : K'.owner = K.owner) :
    K'.Tracks saved who := by
  intro hne
  rw [howner]
  exact h hne

theorem Tracks.act (h : K.Tracks saved who) {a : ClientAct μ} (ha : K.act a = some K') :
    K'.Tracks saved who := by
  intro hne
  obtain ⟨n, hwho, hn⟩ := h hne
  exact ⟨n, hwho, owner_act ha hn⟩

theorem Tracks.detach (h : K.Tracks saved who) (hne : saved ≠ scoid) :
    (K.detach scoid).Tracks saved who := by
  intro h0
  rw [owner_detach_of_ne hne]
  exact h h0

end Kernel

end ConnectionIds
