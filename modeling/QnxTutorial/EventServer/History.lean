import QnxTutorial.EventServer.Program

/-!
# What the history says

The registration in force after a history is the last one whose scoid has not disconnected since
(`registrations`). Along with it, `session` collects the values that were delivered for it.
`Consistent` is what a history has to satisfy up to each of its entries: a notification delivers
exactly if a registration is in force, and then to its client and with its event; a complete
message was registered with its own event; a registration found the scoid of the one in force, or
no scoid and no count; and the values delivered for an updateable event count up from what
`notify_count` was when it was registered.
-/

namespace QnxTutorial.EventServer

variable (H : Headers)

/-! ## The registration in force -/

def registrations : Registry Entry Registration where
  grant
    | .registered r => some r
    | .disconnected _ | .notified _ => none
  revokes
    | .disconnected scoid, r => scoid = r.msg.scoid
    | .registered _, _ | .notified _, _ => false

/-- The registration in force, and the values delivered for it. -/
abbrev Session := Option (Registration × List (BitVec 32))

def nextSession (cur : Session) : Entry → Session
  | .registered r => some (r, [])
  | .disconnected scoid => cur.filter fun p => !decide (scoid = p.1.msg.scoid)
  | .notified none => cur
  | .notified (some (_, ev)) => cur.map fun p => (p.1, p.2 ++ [ev.sivalInt])

def session (log : List Entry) : Session := log.foldl nextSession none

@[simp] theorem session_concat (log : List Entry) (e : Entry) :
    session (log ++ [e]) = nextSession (session log) e := by
  simp [session]

theorem session_fst (log : List Entry) :
    (session log).map Prod.fst = registrations.current log := by
  induction log using List.reverseRecOn with
  | nil => rfl
  | append_singleton log e ih =>
    rw [session_concat, Registry.current_concat, ← ih]
    cases e with
    | registered r => rfl
    | disconnected scoid =>
      cases session log with
      | none => rfl
      | some p =>
        by_cases hp : scoid = p.1.msg.scoid <;>
          simp [nextSession, Registry.next, registrations, Option.filter, hp]
    | notified d =>
      rcases d with _ | ⟨rcvid, ev⟩ <;> cases session log <;>
        simp [nextSession, Registry.next, registrations, Option.filter]

theorem current_of_session {log : List Entry} {r : Registration} {vs : List (BitVec 32)}
    (h : session log = some (r, vs)) : registrations.current log = some r := by
  rw [← session_fst, h]
  rfl

theorem mem_of_current {log : List Entry} {r : Registration}
    (h : registrations.current log = some r) : .registered r ∈ log := by
  obtain ⟨pre, e, post, rfl, hgrant, -⟩ := (registrations.current_eq_some_iff log r).1 h
  cases e with
  | registered r' =>
    cases hgrant
    simp
  | disconnected | notified => cases hgrant

theorem session_eq_none {log : List Entry} (h : registrations.current log = none) :
    session log = none := by
  rw [← session_fst, Option.map_eq_none_iff] at h
  exact h

@[simp] theorem current_notified (log : List Entry) (d : Option (ℤ × Sigevent)) :
    registrations.current (log ++ [.notified d]) = registrations.current log := by
  rw [Registry.current_concat]
  exact Registry.next_of_kept rfl fun _ _ => rfl

@[simp] theorem current_registered (log : List Entry) (r : Registration) :
    registrations.current (log ++ [.registered r]) = some r := by
  rw [Registry.current_concat]
  exact Registry.next_of_grant rfl

theorem current_disconnected_self {log : List Entry} {scoid : ℤ}
    (h : ∀ r, registrations.current log = some r → scoid = r.msg.scoid) :
    registrations.current (log ++ [.disconnected scoid]) = none := by
  rw [Registry.current_concat]
  exact Registry.next_of_revoked rfl fun r hr => decide_eq_true (h r hr)

theorem current_disconnected_other {log : List Entry} {scoid : ℤ}
    (h : ∀ r, registrations.current log = some r → scoid ≠ r.msg.scoid) :
    registrations.current (log ++ [.disconnected scoid]) = registrations.current log := by
  rw [Registry.current_concat]
  exact Registry.next_of_kept rfl fun r hr => decide_eq_false (h r hr)

theorem session_disconnected_other {log : List Entry} {scoid : ℤ}
    (h : ∀ r, registrations.current log = some r → scoid ≠ r.msg.scoid) :
    session (log ++ [.disconnected scoid]) = session log := by
  rw [session_concat]
  cases hs : session log with
  | none => rfl
  | some p => simp [nextSession, Option.filter, h p.1 (current_of_session hs)]

/-! ## Counting up -/

/-- The values delivered, in order. -/
def delivered (log : List Entry) : List (BitVec 32) :=
  log.filterMap fun
    | .notified (some (_, ev)) => some ev.sivalInt
    | .notified none | .registered _ | .disconnected _ => none

/-- `n, n + 1, ..`, for `k` values. -/
def ramp (n : BitVec 32) (k : ℕ) : List (BitVec 32) :=
  (List.range k).map fun i => n + BitVec.ofNat 32 i

theorem ramp_succ (n : BitVec 32) (k : ℕ) :
    ramp n (k + 1) = ramp n k ++ [n + BitVec.ofNat 32 k] := by
  simp [ramp, List.range_succ]

/-- The values delivered in the session count up, and `n` is next. -/
def CountIs (log : List Entry) (n : BitVec 32) : Prop :=
  ∀ r vs, session log = some (r, vs) → H.Updateable r.ev →
    vs = ramp r.foundCount vs.length ∧ n = r.foundCount + BitVec.ofNat 32 vs.length

/-! ## Consistent histories -/

/-- The event `e'` is delivered for `e`: they agree, but for the value of an updateable event. -/
structure Carries (e e' : Sigevent) : Prop where
  same : e.SameButValue e'
  value : ¬ H.Updateable e → e' = e

theorem Sigevent.SameButValue.updateable {e e' : Sigevent} (h : e.SameButValue e') :
    H.Updateable e ↔ H.Updateable e' := by
  unfold Headers.Updateable
  rw [h.1]

/-- What `notify_thread` should do after `log`. -/
def Right (log : List Entry) : Option (ℤ × Sigevent) → Prop
  | none => registrations.current log = none
  | some (rcvid, ev) =>
    ∃ r, registrations.current log = some r ∧ rcvid = r.msg.rcvid ∧ Carries H r.ev ev

/-- `save_scoid` and `notify_count` when the registration `cur` is in force. -/
def Found (cur : Option Registration) (scoid : ℤ) (count : BitVec 32) : Prop :=
  match cur with
  | none => scoid = 0 ∧ count = 0
  | some r => scoid = r.msg.scoid

/-- The last entry of a history is as it should be. -/
structure Consistent (log : List Entry) : Prop where
  right : ∀ q d, log = q ++ [.notified d] → Right H q d
  found : ∀ q r, log = q ++ [.registered r] →
    Found (registrations.current q) r.foundScoid r.foundCount
  own : ∀ r, registrations.current log = some r → r.msg.Complete H → r.ev = r.msg.event H
  counts : ∀ r vs, session log = some (r, vs) → H.Updateable r.ev →
    vs = ramp r.foundCount vs.length

/-- Every entry is as it should be. -/
def LogOk (log : List Entry) : Prop := ∀ p, p <+: log → Consistent H p

variable {H}

theorem LogOk.nil : LogOk H [] := by
  intro p hp
  rw [List.prefix_nil.1 hp]
  exact ⟨fun q d h => by simp at h, fun q r h => by simp at h, nofun, nofun⟩

theorem LogOk.last {log : List Entry} (h : LogOk H log) : Consistent H log :=
  h log List.prefix_rfl

theorem LogOk.concat {log : List Entry} (h : LogOk H log) {e : Entry}
    (he : Consistent H (log ++ [e])) : LogOk H (log ++ [e]) := by
  intro p hp
  rcases List.prefix_concat_iff.1 hp with rfl | hp
  · exact he
  · exact h p hp

/-- A registration is logged with what it found, and with the event of a complete message. -/
theorem LogOk.registered {log : List Entry} (h : LogOk H log) {r : Registration}
    (hfound : Found (registrations.current log) r.foundScoid r.foundCount)
    (hown : r.msg.Complete H → r.ev = r.msg.event H) : LogOk H (log ++ [.registered r]) := by
  refine h.concat ⟨?_, ?_, ?_, ?_⟩
  · intro q d hq
    cases (List.append_inj' hq rfl).2
  · intro q r' hq
    obtain ⟨rfl, hr⟩ := List.append_inj' hq rfl
    cases hr
    exact hfound
  · intro r' hr
    rw [current_registered] at hr
    cases hr
    exact hown
  · intro r' vs hs _
    rw [session_concat] at hs
    cases hs
    rfl

/-- A disconnect pulse never makes a history inconsistent. -/
theorem LogOk.disconnected {log : List Entry} (h : LogOk H log) (scoid : ℤ) :
    LogOk H (log ++ [.disconnected scoid]) := by
  refine h.concat ⟨?_, ?_, ?_, ?_⟩
  · intro q d hq
    cases (List.append_inj' hq rfl).2
  · intro q r hq
    cases (List.append_inj' hq rfl).2
  · intro r hr
    rw [Registry.current_concat] at hr
    obtain ⟨hr, -⟩ := Option.filter_eq_some_iff.1 hr
    exact h.last.own r hr
  · intro r vs hs
    rw [session_concat] at hs
    obtain ⟨hs, -⟩ := Option.filter_eq_some_iff.1 hs
    exact h.last.counts r vs hs

/-- A notification is logged when it is due, and continues the count. -/
theorem LogOk.notified {log : List Entry} (h : LogOk H log) {d : Option (ℤ × Sigevent)}
    (hright : Right H log d)
    (hcounts : ∀ r vs, session (log ++ [.notified d]) = some (r, vs) → H.Updateable r.ev →
      vs = ramp r.foundCount vs.length) : LogOk H (log ++ [.notified d]) := by
  refine h.concat ⟨?_, ?_, ?_, hcounts⟩
  · intro q d' hq
    obtain ⟨rfl, hd⟩ := List.append_inj' hq rfl
    cases hd
    exact hright
  · intro q r hq
    cases (List.append_inj' hq rfl).2
  · intro r hr
    rw [current_notified] at hr
    exact h.last.own r hr

end QnxTutorial.EventServer
