import QnxTutorial.Registry
import QnxTutorial.ShmemQnx.Server

/-!
# Who holds the region

According to the history, the region belongs to the client of the last GET that succeeded, until
that client releases it or disconnects (`holders`).

**Theorem (`only_holder_acts`).** `client_scoid` is the holder, and nobody else can change or
release the region.
-/

namespace QnxTutorial.ShmemQnx

open Machine RecvBuf

/-! ## The holder -/

def holders : Registry Event Scoid where
  grant
    | .message info (.get n) env =>
      if n.toNat > 64 * 1024 then none
      else match env.creation with
        | .created _ => some info.scoid
        | .noObject | .noMapping | .noHandle _ => none
    | _ => none
  revokes
    | .message info .release _, scoid => info.scoid = scoid
    | .disconnect gone, scoid => gone = scoid
    | _, _ => false

theorem holders_revokes_iff {e : Event} {scoid : Scoid} :
    holders.revokes e scoid = true ↔ e.Frees scoid := by
  cases e with
  | message info req env =>
    cases req with
    | release => simp [holders, Event.Frees, Subtype.ext_iff]
    | get | changed | unknown => simp [holders, Event.Frees]
  | disconnect gone => simp [holders, Event.Frees, Subtype.ext_iff]
  | otherPulse => simp [holders, Event.Frees]

theorem holders_grant_eq_none {e : Event} (h : e.isGet = false) : holders.grant e = none := by
  cases e with
  | message info req env =>
    cases req with
    | get => cases h
    | changed | release | unknown => rfl
  | disconnect | otherPulse => rfl

/-! ## `client_scoid` -/

/-- The holder, as an `int`. -/
def holderScoid (holder : Option Scoid) : ℤ := holder.elim 0 (·.1)

theorem holderScoid_eq_iff {holder : Option Scoid} {scoid : Scoid} :
    holderScoid holder = scoid.1 ↔ holder = some scoid := by
  cases holder with
  | none => simp [holderScoid, scoid.2.symm]
  | some a => simp [holderScoid, Subtype.ext_iff]

variable {resp : List Byte} {h : List (State × Event)} {s : State}

/-- An event does the same to `client_scoid` as to the holder. -/
theorem Act.clientScoid {e : Event} {s' : State} {holder : Option Scoid} (ha : Act s e s')
    (hs : s.clientScoid = holderScoid holder) :
    s'.clientScoid = holderScoid (holders.next holder e) := by
  cases ha with
  | @get info n env s' hget =>
    have hkept : holders.grant (.message info (.get n) env) = none →
        holders.next holder (.message info (.get n) env) = holder :=
      fun hgrant => Registry.next_of_kept hgrant fun _ _ => rfl
    cases hget with
    | refused hn => rw [hkept (if_pos hn)]; exact hs
    | noObject hn hc => rw [hkept (by simp [holders, hc])]; exact hs
    | noMapping hn hc => rw [hkept (by simp [holders, hc])]; exact hs
    | noHandle hn hc => rw [hkept (by simp [holders, hc])]; exact hs
    | created hn hc =>
      rw [Registry.next_of_grant (a := info.scoid) (by simp [holders, hc, Nat.not_lt.2 hn])]
      rfl
  | frees hfrees =>
    rw [munmap_clientScoid, Registry.next_of_revoked (holders_grant_eq_none hfrees.isGet)]
    · rfl
    · intro scoid hscoid
      rw [holders_revokes_iff, ← holderScoid_eq_iff.2 hscoid, ← hs]
      exact hfrees
  | keeps hget hnot =>
    rw [Registry.next_of_kept (holders_grant_eq_none hget)]
    · exact hs
    · intro scoid hscoid
      rw [← Bool.not_eq_true, holders_revokes_iff, ← holderScoid_eq_iff.2 hscoid, ← hs]
      exact hnot

/-- `client_scoid` is the holder, after any history. -/
theorem clientScoid_eq (hrun : (server resp).Run h s) :
    s.clientScoid = holderScoid (holders.current (events h)) := by
  induction hrun with
  | init hs => exact hs.1
  | @step h s e hrun ha ih =>
    rw [events, List.map_append, List.map_singleton, Registry.current_concat]
    exact (handle_act resp (wellFormed_of_run hrun).separate.pos ha).clientScoid ih

theorem clientScoid_eq_iff (hrun : (server resp).Run h s) (scoid : Scoid) :
    s.clientScoid = scoid ↔ holders.Latest (events h) scoid := by
  rw [clientScoid_eq hrun, holderScoid_eq_iff, Registry.current_eq_some_iff]

/-! ## The theorem -/

/-- The client `info` is turned away. -/
def Refused (resp : List Byte) (s : State) (e : Event) : Prop :=
  (handle resp e s).2 = [.msgError .eperm]

theorem changed_refused_iff {info : MsgInfo} {offset length : BitVec 32} {env : Env} :
    Refused resp s (.message info (.changed offset length) env) ↔
      info.scoid.1 ≠ s.clientScoid := by
  show (changedShmem resp info offset length env s).2 = _ ↔ _
  unfold changedShmem
  split_ifs with hscoid hbounds <;> simp [hscoid]

theorem release_refused_iff {info : MsgInfo} {env : Env} :
    Refused resp s (.message info .release env) ↔ info.scoid.1 ≠ s.clientScoid := by
  show (releaseShmem info env s).2 = _ ↔ _
  unfold releaseShmem
  split_ifs with hscoid <;> simp [hscoid]

/-- The events that must not change the region: a CHANGED or unknown message, a RELEASE that is
refused, and a pulse that is not the disconnect of the holder. -/
def Powerless (resp : List Byte) (h : List Event) (s : State) : Event → Prop
  | .message _ (.get _) _ => False
  | .message _ (.changed ..) _ | .message _ .unknown _ | .otherPulse => True
  | .message info .release env => Refused resp s (.message info .release env)
  | .disconnect scoid => ¬ holders.Latest h scoid

/-- Only the holder acts on the region. -/
structure OnlyHolderActs (resp : List Byte) (h : List Event) (s : State) : Prop where
  holder : ∀ scoid, holders.Latest h scoid → s.clientScoid = scoid
  nobody : (∀ scoid, ¬ holders.Latest h scoid) → s.clientScoid = 0
  changed : ∀ info offset length env,
    ¬ Refused resp s (.message info (.changed offset length) env) ↔ holders.Latest h info.scoid
  release : ∀ info env,
    ¬ Refused resp s (.message info .release env) ↔ holders.Latest h info.scoid
  kept : ∀ e, Powerless resp h s e → (handle resp e s).1 = s

theorem handle_eq_of_not_frees {e : Event} (hpos : ∀ m ∈ s.mappings, 0 < m.len)
    (hget : e.isGet = false) (hnot : ¬ e.Frees s.clientScoid) : (handle resp e s).1 = s := by
  have ha := handle_act resp hpos (Event.onGet_of_not_get hget)
  generalize (handle resp e s).1 = s' at ha
  cases ha with
  | get => cases hget
  | frees hfrees => exact absurd hfrees hnot
  | keeps => rfl

/-- **Only the holder acts on the region**, after every history. -/
theorem only_holder_acts (h : List (State × Event)) (s : State) (hrun : (server resp).Run h s) :
    OnlyHolderActs resp (events h) s where
  holder scoid hlatest := (clientScoid_eq_iff hrun scoid).2 hlatest
  nobody hnone := by
    rw [clientScoid_eq hrun, (Registry.current_eq_none_iff _ _).2 hnone]
    rfl
  changed info offset length env := by
    rw [changed_refused_iff, not_ne_iff, eq_comm, clientScoid_eq_iff hrun]
  release info env := by
    rw [release_refused_iff, not_ne_iff, eq_comm, clientScoid_eq_iff hrun]
  kept e he := by
    have hpos := (wellFormed_of_run hrun).separate.pos
    cases e with
    | message info req env =>
      cases req with
      | get => exact he.elim
      | changed | unknown => exact handle_eq_of_not_frees hpos rfl id
      | release => exact handle_eq_of_not_frees hpos rfl (release_refused_iff.1 he)
    | disconnect scoid =>
      refine handle_eq_of_not_frees hpos rfl fun hfrees => he ?_
      exact (clientScoid_eq_iff hrun scoid).1 hfrees.symm
    | otherPulse => exact handle_eq_of_not_frees hpos rfl id

theorem only_holder_acts_first : ∃ (h : List (State × Event)) (s : State),
    (server (response none)).Run h s ∧
    events h = [.message firstClient (.get 8192) (.allWell 0x10000),
      .disconnect secondClient.scoid] ∧
    s.clientScoid = 1 ∧ OnlyHolderActs (response none) (events h) s := by
  have hrun := (run_first (response none) (n := 8192) (by decide) (by decide)).step
    (e := .disconnect secondClient.scoid) (Event.onGet_of_not_get rfl)
  exact ⟨_, _, hrun, rfl, rfl, only_holder_acts _ _ hrun⟩

end QnxTutorial.ShmemQnx
