import QnxTutorial.EventServer.History
import QnxTutorial.Monitor.Outline

/-!
# The server notifies whom its history says

While the mutex is free, the saved data is that of the registration in force (`Saved`), the
history so far is as it should be, and `notify_count` continues the values delivered in the
session (`Inv`). A registration and a disconnect break the first in the middle of their critical
sections; a delivery writes the value into the saved event, which only an updateable event
allows.

**Theorem (`notifies_current`).** Each time `notify_thread` passes its critical section, it
delivers exactly if a registration is in force after the sections before, and then to the client
of that registration and with the event in its message, if all messages were complete.

**Theorem (`notifies_leftover`).** A message without an event gets the one left in the buffer.
-/

namespace QnxTutorial.EventServer

open Monitor RecvBuf

variable (H : Headers)

/-! ## Assertions -/

/-- The saved message and event are those of the registration in force. -/
def Saved (s : Shared) : Option Registration → Prop
  | none => s.saveRcvid = 0
  | some r => s.saveRcvid = r.msg.rcvid ∧ Carries H r.ev s.saveEvent

/-- The saved scoid and the count fit the registration in force. -/
def Fits (s : Shared) : Prop :=
  Found (registrations.current s.log) s.saveScoid s.notifyCount

/-- What holds while the mutex is free. -/
structure Inv (s : Shared) : Prop where
  log : LogOk H s.log
  saved : Saved H s (registrations.current s.log)
  fits : Fits s
  count : CountIs H s.log s.notifyCount

/-- A complete message has its event in the buffer. -/
def InBuf (m : Message) (s : Shared) : Prop := m.Complete H → H.clientEv s.recvBuf = m.event H

/-- What the main thread knows. -/
def mainPre : MainPc → Shared → Prop
  | .verify m, s | .lockRequest m, s => InBuf H m s
  | .setRcvid m, s => InBuf H m s ∧ Inv H s
  | .setEvent m, s => InBuf H m s ∧ LogOk H s.log ∧ Fits s ∧ s.saveRcvid = m.rcvid
  | .setScoid m, s => InBuf H m s ∧ LogOk H s.log ∧ Fits s ∧ s.saveRcvid = m.rcvid ∧
      s.saveEvent = H.clientEv s.recvBuf
  | .unlockRequest _, s | .testScoid, s | .unlockDisconnect, s => Inv H s
  | .clearScoid, s => LogOk H s.log ∧ registrations.current s.log = none
  | .clearRcvid, s => LogOk H s.log ∧ registrations.current s.log = none ∧ s.saveScoid = 0
  | .clearCount, s => LogOk H s.log ∧ registrations.current s.log = none ∧ s.saveScoid = 0 ∧
      s.saveRcvid = 0
  | .receive, _ | .reply _, _ | .lockDisconnect, _ | .detach, _ => True

/-- The parts of `Inv` that hold all through the critical section of a delivery. -/
structure Delivering (s : Shared) : Prop where
  log : LogOk H s.log
  saved : Saved H s (registrations.current s.log)
  fits : Fits s
  somebody : s.saveRcvid ≠ 0

/-- What the notification thread knows. -/
def notifyPre : NotifyPc → Shared → Prop
  | .lock, _ => True
  | .testRcvid, s => Inv H s
  | .testFlag, s => Delivering H s ∧ CountIs H s.log s.notifyCount
  | .readCount, s => Delivering H s ∧ CountIs H s.log s.notifyCount ∧ H.Updateable s.saveEvent
  | .writeCount n, s => Delivering H s ∧ CountIs H s.log n ∧ H.Updateable s.saveEvent
  | .writeValue n, s => Delivering H s ∧ CountIs H s.log n ∧ H.Updateable s.saveEvent ∧
      s.notifyCount = n + 1
  | .deliver, s => Delivering H s ∧ (H.Updateable s.saveEvent →
      CountIs H s.log s.saveEvent.sivalInt ∧ s.notifyCount = s.saveEvent.sivalInt + 1)
  | .unlock, s => Inv H s ∧ ∃ q d, s.log = q ++ [.notified d]

variable {H}

/-! ## What the saved data says -/

theorem Saved.current_eq_none {s : Shared} (h : Saved H s (registrations.current s.log))
    (hr : s.saveRcvid = 0) : registrations.current s.log = none := by
  cases hc : registrations.current s.log with
  | none => rfl
  | some r =>
    rw [hc] at h
    exact absurd (h.1.symm.trans hr) r.msg.rcvid_ne

theorem Delivering.exists_current {s : Shared} (h : Delivering H s) :
    ∃ r, registrations.current s.log = some r ∧ s.saveRcvid = r.msg.rcvid ∧
      Carries H r.ev s.saveEvent := by
  have hsaved := h.saved
  cases hc : registrations.current s.log with
  | none =>
    rw [hc] at hsaved
    exact absurd hsaved h.somebody
  | some r =>
    rw [hc] at hsaved
    exact ⟨r, rfl, hsaved⟩

/-- Whether the saved scoid is that of the pulse decides whether the registration goes. -/
theorem Fits.scoid_eq {s : Shared} (h : Fits s) {r : Registration}
    (hr : registrations.current s.log = some r) : s.saveScoid = r.msg.scoid := by
  rw [Fits, hr] at h
  exact h

theorem inv_of_current {s : Shared} {cur : Option Registration}
    (hcur : registrations.current s.log = cur) (hlog : LogOk H s.log) (hsaved : Saved H s cur)
    (hfits : Found cur s.saveScoid s.notifyCount) (hcount : CountIs H s.log s.notifyCount) :
    Inv H s := by
  subst hcur
  exact ⟨hlog, hsaved, hfits, hcount⟩

theorem delivering_of_current {s : Shared} {r : Registration}
    (hcur : registrations.current s.log = some r) (hlog : LogOk H s.log)
    (hsaved : Saved H s (some r)) (hscoid : s.saveScoid = r.msg.scoid) : Delivering H s where
  log := hlog
  saved := hcur ▸ hsaved
  fits := by
    rw [Fits, hcur]
    exact hscoid
  somebody h0 := r.msg.rcvid_ne (hsaved.1.symm.trans h0)

theorem Delivering.setCount {s : Shared} (h : Delivering H s) (n : BitVec 32) :
    Delivering H { s with notifyCount := n } := by
  obtain ⟨r, hr, hsaved⟩ := h.exists_current
  exact delivering_of_current hr h.log hsaved (h.fits.scoid_eq hr)

theorem Delivering.setValue {s : Shared} (h : Delivering H s) (hup : H.Updateable s.saveEvent)
    (n : BitVec 32) :
    Delivering H { s with saveEvent := { s.saveEvent with sivalInt := n } } := by
  obtain ⟨r, hr, hrcvid, hsame, -⟩ := h.exists_current
  have hcarries : Carries H r.ev { s.saveEvent with sivalInt := n } :=
    ⟨hsame, fun hnot => absurd ((hsame.updateable H).2 hup) hnot⟩
  exact delivering_of_current hr h.log ⟨hrcvid, hcarries⟩ (h.fits.scoid_eq hr)

/-! ## Acts of the notification thread -/

theorem Inv.nobody {s : Shared} (h : Inv H s) (hr : s.saveRcvid = 0) :
    Inv H { s with log := s.log ++ [.notified none] } := by
  have hnone := h.saved.current_eq_none hr
  have hcur := current_notified s.log none
  have hs : session (s.log ++ [.notified none]) = none := session_eq_none (hcur.trans hnone)
  refine inv_of_current hcur (h.log.notified hnone ?_) h.saved h.fits ?_
  · intro r vs hvs
    cases hs.symm.trans hvs
  · intro r vs hvs
    cases hs.symm.trans hvs

theorem session_delivered {log : List Entry} {rcvid : ℤ} {ev : Sigevent} {r : Registration}
    {vs' : List (BitVec 32)} (h : session (log ++ [.notified (some (rcvid, ev))]) = some (r, vs')) :
    ∃ vs, session log = some (r, vs) ∧ vs' = vs ++ [ev.sivalInt] := by
  rw [session_concat] at h
  obtain ⟨⟨r', vs⟩, hs, heq⟩ := Option.map_eq_some_iff.1 h
  cases heq
  exact ⟨vs, hs, rfl⟩

/-- A delivery carries the value that is next, and the count moves on. -/
theorem countIs_delivered {log : List Entry} (rcvid : ℤ) {ev : Sigevent}
    (h : ∀ r, registrations.current log = some r → H.Updateable r.ev → CountIs H log ev.sivalInt)
    (r : Registration) (vs : List (BitVec 32))
    (hs : session (log ++ [.notified (some (rcvid, ev))]) = some (r, vs))
    (hup : H.Updateable r.ev) :
    vs = ramp r.foundCount vs.length ∧
      ev.sivalInt + 1 = r.foundCount + BitVec.ofNat 32 vs.length := by
  obtain ⟨vs₀, hs₀, rfl⟩ := session_delivered hs
  obtain ⟨hvs, hv⟩ := h r (current_of_session hs₀) hup r vs₀ hs₀ hup
  rw [List.length_append, List.length_singleton, ramp_succ, ← hvs, ← hv]
  refine ⟨rfl, ?_⟩
  rw [hv, BitVec.ofNat_add, BitVec.add_assoc]
  rfl

/-- `MsgDeliverEvent` goes to the registration in force. -/
theorem inv_delivered {s : Shared} (hp : notifyPre H .deliver s) :
    Inv H { s with log := s.log ++ [.notified (some (s.saveRcvid, s.saveEvent))] } := by
  obtain ⟨h, hcount⟩ := hp
  obtain ⟨r, hr, hrcvid, hcarries⟩ := h.exists_current
  have hvalue : ∀ r', registrations.current s.log = some r' → H.Updateable r'.ev →
      CountIs H s.log s.saveEvent.sivalInt ∧ s.notifyCount = s.saveEvent.sivalInt + 1 := by
    intro r' hr' hup
    obtain rfl : r' = r := Option.some.inj (hr'.symm.trans hr)
    exact hcount ((hcarries.same.updateable H).1 hup)
  have hnext := countIs_delivered s.saveRcvid fun r' hr' hup => (hvalue r' hr' hup).1
  refine inv_of_current (current_notified ..) (h.log.notified ⟨r, hr, hrcvid, hcarries⟩ ?_)
    h.saved h.fits ?_
  · intro r' vs hs hup
    exact (hnext r' vs hs hup).1
  · intro r' vs hs hup
    obtain ⟨vs₀, hs₀, -⟩ := session_delivered hs
    rw [(hvalue r' (current_of_session hs₀) hup).2]
    exact hnext r' vs hs hup

theorem notifyPre_act {pc k : NotifyPc} {s s' : Shared} (h : NotifyAct H pc s s' k)
    (hp : notifyPre H pc s) : notifyPre H k s' := by
  cases h with
  | nobody hr => exact ⟨hp.nobody hr, s.log, none, rfl⟩
  | somebody hr => exact ⟨⟨hp.log, hp.saved, hp.fits, hr⟩, hp.count⟩
  | update hup => exact ⟨hp.1, hp.2, hup⟩
  | asIs hup => exact ⟨hp.1, fun h => absurd h hup⟩
  | readCount => exact hp
  | writeCount => exact ⟨hp.1.setCount _, hp.2.1, hp.2.2, rfl⟩
  | writeValue =>
    obtain ⟨h, hcount, hup, hn⟩ := hp
    exact ⟨h.setValue hup _, fun _ => ⟨hcount, hn⟩⟩
  | deliver => exact ⟨inv_delivered hp, s.log, _, rfl⟩

/-! ## Acts of the main thread -/

theorem Carries.refl (e : Sigevent) : Carries H e e := ⟨⟨rfl, rfl⟩, fun _ => rfl⟩

/-- The last assignment of a registration puts it in force. -/
theorem inv_registered {m : Message} {s : Shared} (hp : mainPre H (.setScoid m) s) :
    Inv H { s with
      saveScoid := m.scoid
      log := s.log ++ [.registered ⟨m, H.clientEv s.recvBuf, s.saveScoid, s.notifyCount⟩] } := by
  obtain ⟨hbuf, hlog, hfits, hrcvid, hev⟩ := hp
  have hcarries : Carries H (H.clientEv s.recvBuf) s.saveEvent := by
    rw [hev]
    exact .refl _
  refine inv_of_current (current_registered ..) (hlog.registered hfits hbuf) ⟨hrcvid, hcarries⟩
    rfl ?_
  intro r vs hs _
  rw [session_concat] at hs
  cases hs
  exact ⟨rfl, (BitVec.add_zero _).symm⟩

theorem Inv.notOurs {s : Shared} (h : Inv H s) {scoid : ℤ} (hne : s.saveScoid ≠ scoid) :
    Inv H { s with log := s.log ++ [.disconnected scoid] } := by
  have hother : ∀ r, registrations.current s.log = some r → scoid ≠ r.msg.scoid := by
    rintro r hr rfl
    exact hne (h.fits.scoid_eq hr)
  refine inv_of_current (current_disconnected_other hother) (h.log.disconnected scoid) h.saved
    h.fits ?_
  unfold CountIs
  rw [session_disconnected_other hother]
  exact h.count

theorem Inv.ours {s : Shared} (h : Inv H s) {scoid : ℤ} (heq : s.saveScoid = scoid) :
    registrations.current (s.log ++ [.disconnected scoid]) = none :=
  current_disconnected_self fun _ hr => heq.symm.trans (h.fits.scoid_eq hr)

/-- All saved data is cleared, and nobody is registered. -/
theorem inv_cleared {s : Shared} (hp : mainPre H .clearCount s) :
    Inv H { s with notifyCount := 0 } := by
  obtain ⟨hlog, hnone, hscoid, hrcvid⟩ := hp
  refine inv_of_current hnone hlog hrcvid ⟨hscoid, rfl⟩ ?_
  intro r vs hs
  cases (session_eq_none hnone).symm.trans hs

theorem mainPre_act {pc k : MainPc} {s s' : Shared} (h : MainAct H pc s s' k)
    (hp : mainPre H pc s) : mainPre H k s' := by
  cases h with
  | message => exact fun hm => clientEv_receive hm _
  | other hk => rcases hk with rfl | rfl <;> trivial
  | verified => exact hp
  | done => trivial
  | setRcvid => exact ⟨hp.1, hp.2.log, hp.2.fits, rfl⟩
  | setEvent => exact ⟨hp.1, hp.2.1, hp.2.2.1, hp.2.2.2, rfl⟩
  | setScoid => exact inv_registered hp
  | ours heq => exact ⟨hp.log.disconnected _, hp.ours heq⟩
  | notOurs hne => exact hp.notOurs hne
  | clearScoid => exact ⟨hp.1, hp.2, rfl⟩
  | clearRcvid => exact ⟨hp.1, hp.2.1, hp.2.2, rfl⟩
  | clearCount => exact inv_cleared hp

/-! ## Interference -/

/-- Outside the mutex the main thread only touches the receive buffer. -/
theorem MainAct.outside {pc k : MainPc} {s s' : Shared} (h : MainAct H pc s s' k)
    (hout : pc.holds = false) : ∃ buf, s' = { s with recvBuf := buf } := by
  cases h with
  | message | other | verified | done => exact ⟨_, rfl⟩
  | setRcvid | setEvent | setScoid | ours | notOurs | clearScoid | clearRcvid | clearCount =>
    cases hout

/-- The notification thread never touches the receive buffer, and acts only inside. -/
theorem NotifyAct.inside {pc k : NotifyPc} {s s' : Shared} (h : NotifyAct H pc s s' k) :
    s'.recvBuf = s.recvBuf ∧ pc.holds = true := by
  cases h <;> exact ⟨rfl, rfl⟩

theorem Saved.setBuf {s : Shared} {cur : Option Registration} (h : Saved H s cur) (buf : Buf) :
    Saved H { s with recvBuf := buf } cur := by
  cases cur <;> exact h

theorem Inv.setBuf {s : Shared} (h : Inv H s) (buf : Buf) : Inv H { s with recvBuf := buf } :=
  ⟨h.log, h.saved.setBuf buf, h.fits, h.count⟩

theorem Delivering.setBuf {s : Shared} (h : Delivering H s) (buf : Buf) :
    Delivering H { s with recvBuf := buf } :=
  ⟨h.log, h.saved.setBuf buf, h.fits, h.somebody⟩

theorem notifyPre_setBuf {pc : NotifyPc} {s : Shared} (h : notifyPre H pc s) (buf : Buf) :
    notifyPre H pc { s with recvBuf := buf } := by
  cases pc with
  | lock => trivial
  | testRcvid => exact Inv.setBuf h buf
  | unlock => exact ⟨h.1.setBuf buf, h.2⟩
  | testFlag | readCount | writeCount | writeValue | deliver => exact ⟨h.1.setBuf buf, h.2⟩

/-- A main thread outside its critical section only relies on the receive buffer. -/
theorem mainPre_outside {pc : MainPc} {s s' : Shared} (hout : pc.holds = false)
    (hbuf : s'.recvBuf = s.recvBuf) (h : mainPre H pc s) : mainPre H pc s' := by
  cases pc with
  | receive | reply | lockDisconnect | detach => trivial
  | verify m | lockRequest m => exact fun hm => hbuf ▸ h hm
  | setRcvid | setEvent | setScoid | unlockRequest | testScoid | clearScoid | clearRcvid
  | clearCount | unlockDisconnect => cases hout

theorem notifyPre_other {pc k : MainPc} {pc' : NotifyPc} {s s' : Shared} (h : MainAct H pc s s' k)
    (hin : pc.holds = true → pc'.holds = false) (hp : notifyPre H pc' s) :
    notifyPre H pc' s' := by
  by_cases hh : pc.holds
  · cases pc' with
    | lock => trivial
    | testRcvid | testFlag | readCount | writeCount | writeValue | deliver | unlock =>
      cases hin hh
  · obtain ⟨buf, rfl⟩ := h.outside (Bool.not_eq_true _ ▸ hh)
    exact notifyPre_setBuf hp buf

/-! ## The outline -/

/-- The proof outline. -/
def outline (H : Headers) : Outline (program H) where
  inv := Inv H
  pre
    | .main => mainPre H
    | .notifyThread => notifyPre H
  rest _ _ _ := True
  lock {i pc k s} hc hp hinv := by
    cases i with
    | main => cases pc <;> cases hc <;> first | exact ⟨hp, hinv⟩ | exact hinv
    | notifyThread => cases pc <;> cases hc; exact hinv
  unlock {i pc k s} hc hp := by
    cases i with
    | main => cases pc <;> cases hc <;> exact ⟨hp, trivial⟩
    | notifyThread => cases pc <;> cases hc; exact ⟨hp.1, trivial⟩
  wait {i pc k s} hc hp := by cases i <;> cases pc <;> cases hc
  relock {i pc k s} hc hp hinv := by cases i <;> cases pc <;> cases hc
  notify {i pc k s} hc hp := by rcases hc with hc | hc <;> cases i <;> cases pc <;> cases hc
  act {i pc k s s' e f} hc hf hp := by
    cases i with
    | main => exact mainPre_act (main_act hc hf) hp
    | notifyThread => exact notifyPre_act (notifyThread_act hc hf) hp
  act_inv {i pc k s s' e f} hc hf hout _ hinv := by
    cases i with
    | main =>
      obtain ⟨buf, rfl⟩ := (main_act hc hf).outside hout
      exact hinv.setBuf buf
    | notifyThread => exact nomatch hout.symm.trans (notifyThread_act hc hf).inside.2
  act_other {i pc k s s' e f} hc hf hp {j t} hj hin ht := by
    cases t with
    | asleep k | woken k => trivial
    | run pc' =>
      cases i <;> cases j
      · exact absurd rfl hj
      · exact notifyPre_other (main_act hc hf) hin ht
      · obtain ⟨hbuf, hhold⟩ := (notifyThread_act hc hf).inside
        exact mainPre_outside (hin hhold) hbuf ht
      · exact absurd rfl hj

theorem outline_start {s : Shared} (hs : Start s) :
    Inv H s ∧ ∀ i, (outline H).pre i ((program H).start i) s := by
  obtain ⟨hrcvid, hscoid, hcount, hlog⟩ := hs
  have hnone : registrations.current s.log = none := by
    rw [hlog]
    rfl
  refine ⟨inv_of_current hnone (hlog ▸ .nil) hrcvid ⟨hscoid, hcount⟩ ?_, ?_⟩
  · intro r vs hr
    cases (session_eq_none hnone).symm.trans hr
  · intro i
    cases i <;> trivial

theorem holds_of_reachable {c : Config (program H)} (hc : Reachable c) : (outline H).Holds c :=
  (outline H).sound (fun _ hs => outline_start hs) hc

/-! ## The theorem -/

/-- The history is also as it should be inside a critical section. -/
theorem mainPre_log {pc : MainPc} {s : Shared} (hin : pc.holds = true) (h : mainPre H pc s) :
    LogOk H s.log := by
  cases pc with
  | setRcvid => exact h.2.log
  | setEvent | setScoid => exact h.2.1
  | unlockRequest | testScoid | unlockDisconnect => exact Inv.log h
  | clearScoid | clearRcvid | clearCount => exact h.1
  | receive | verify | lockRequest | reply | lockDisconnect | detach => cases hin

theorem notifyPre_log {pc : NotifyPc} {s : Shared} (hin : pc.holds = true)
    (h : notifyPre H pc s) : LogOk H s.log := by
  cases pc with
  | lock => cases hin
  | testRcvid => exact Inv.log h
  | testFlag | readCount | writeCount | writeValue | deliver => exact h.1.log
  | unlock => exact h.1.log

theorem logOk_of_reachable {c : Config (program H)} (hc : Reachable c) : LogOk H c.shared.log := by
  have h := holds_of_reachable hc
  cases hm : c.mutex with
  | none => exact (h.inv hm).log
  | some i =>
    obtain ⟨pc, hpc, hin⟩ := hc.owned.holder hm
    cases i with
    | main => exact mainPre_log hin (h.pre hpc)
    | notifyThread => exact notifyPre_log hin (h.pre hpc)

/-- The notification due after `h`: to the client that registered last and did not disconnect since,
with the event in its message, and none if there is no such client. -/
def Notifies (H : Headers) (h : List Entry) : Option (ℤ × Sigevent) → Prop
  | none => ∀ r, ¬ registrations.Latest h r
  | some (rcvid, ev) => ∃ r, registrations.Latest h r ∧ rcvid = r.msg.rcvid ∧
      Carries H (r.msg.event H) ev

/-- Each pass of `notify_thread` through its critical section leaves its entry in the history, and
does what is due. -/
structure NotifiesCurrent (H : Headers) (c : Config (program H)) : Prop where
  due : ∀ pre d post, c.shared.log = pre ++ .notified d :: post → Notifies H pre d
  entry : notifyAt c = .run .unlock → ∃ pre d, c.shared.log = pre ++ [.notified d]

theorem LogOk.notifies {log pre post : List Entry} {d : Option (ℤ × Sigevent)} (h : LogOk H log)
    (hcomplete : ∀ r, .registered r ∈ log → r.msg.Complete H)
    (hlog : log = pre ++ .notified d :: post) : Notifies H pre d := by
  have hpre : pre ++ [.notified d] <+: log := ⟨post, by simp [hlog]⟩
  have hright := (h _ hpre).right pre d rfl
  rcases d with _ | ⟨rcvid, ev⟩
  · exact (registrations.current_eq_none_iff pre).1 hright
  · obtain ⟨r, hr, hrcvid, hcarries⟩ := hright
    have hmem : .registered r ∈ log := by
      rw [hlog]
      exact List.mem_append_left _ (mem_of_current hr)
    have hown := (h pre ((List.prefix_append ..).trans hpre)).own r hr (hcomplete r hmem)
    exact ⟨r, (registrations.current_eq_some_iff pre r).1 hr, hrcvid, hown ▸ hcarries⟩

/-- A message with an updateable event. -/
def request (scoid : ℤ) (h : scoid ≠ 0) : Message where
  rcvid := 7
  scoid := scoid
  bytes := [0x63, 0x02, 0, 0, 0, 0, 0, 0, 0, 0x20] ++ List.replicate 22 0
  rcvid_ne := by decide
  scoid_ne := h

/-- The moves of the main thread up to the unlock. -/
def registering (m : Message) : List (Tid × Input) :=
  (.main, .message m) :: List.replicate 6 (.main, .result true)

/-- **The server notifies whom its history says**, if every accepted message was complete. -/
theorem notifies_current (c : Config (program H)) (hc : Reachable c)
    (hcomplete : ∀ r, .registered r ∈ c.shared.log → r.msg.Complete H) : NotifiesCurrent H c where
  due _ _ _ hlog := (logOk_of_reachable hc).notifies hcomplete hlog
  entry hat := ((holds_of_reachable hc).pre (i := .notifyThread) hat).2

theorem notifies_current_first : ∃ c : Config (program .x86_64), Reachable c ∧
    delivered c.shared.log = [0] ∧ NotifiesCurrent .x86_64 c := by
  obtain ⟨c, hc, hp⟩ := exists_reach (P := program .x86_64) (I := Start) (s := start)
    ⟨rfl, rfl, rfl, rfl⟩
    (l := registering (request 1 (by decide)) ++ List.replicate 7 (.notifyThread, .result true))
    (p := fun c => delivered c.shared.log == [0] && c.shared.log.all fun
      | .registered r => decide (r.msg.Complete .x86_64)
      | _ => true) (by decide)
  simp only [Bool.and_eq_true, beq_iff_eq, List.all_eq_true] at hp
  obtain ⟨hd, hcomplete⟩ := hp
  exact ⟨c, hc, hd, notifies_current c hc fun r hr => of_decide_eq_true (hcomplete _ hr)⟩

/-- A message of another client, with nothing but the type. -/
def typeOnly (rcvid scoid : ℤ) (hrcvid : rcvid ≠ 0) (hscoid : scoid ≠ 0) : Message :=
  ⟨rcvid, scoid, [0x63, 0x02], hrcvid, hscoid⟩

/-- **A short message takes over an event**: it is delivered to one client, and was registered by
another one. -/
theorem notifies_leftover : ∃ c : Config (program .x86_64), Reachable c ∧
    (∃ r r' ev, c.shared.log =
        [.registered r, .registered r', .notified (some (r'.msg.rcvid, ev))] ∧
      ev = r.msg.event .x86_64 ∧ r.msg.rcvid ≠ r'.msg.rcvid) ∧
    ¬ NotifiesCurrent .x86_64 c := by
  obtain ⟨c, hc, hp⟩ := exists_reach (P := program .x86_64) (I := Start) (s := start)
    ⟨rfl, rfl, rfl, rfl⟩
    (l := registering (request 1 (by decide)) ++ [(.main, .result true)] ++
      registering (typeOnly 8 2 (by decide) (by decide)) ++ [(.main, .result true)] ++
      List.replicate 7 (.notifyThread, .result true))
    (p := fun c => match c.shared.log with
      | [.registered r, .registered r', .notified (some (rcvid, ev))] =>
        (rcvid == r'.msg.rcvid && ev == r.msg.event .x86_64) &&
          (r.msg.rcvid != r'.msg.rcvid && ev.sigevNotify != (r'.msg.event .x86_64).sigevNotify)
      | _ => false) (by decide)
  split at hp
  case h_2 => cases hp
  case h_1 r r' rcvid ev hlog =>
    simp only [Bool.and_eq_true, beq_iff_eq, bne_iff_ne, ne_eq] at hp
    obtain ⟨⟨rfl, hev⟩, hrcvid, hnotify⟩ := hp
    refine ⟨c, hc, ⟨r, r', ev, hlog, hev, hrcvid⟩, fun hnotifies => hnotify ?_⟩
    have hcur := current_registered [.registered r] r'
    obtain ⟨r₁, hlatest, -, hcarries⟩ := hnotifies.due [.registered r, .registered r'] _ [] hlog
    cases hcur.symm.trans ((registrations.current_eq_some_iff _ r₁).2 hlatest)
    exact hcarries.same.1.symm

end QnxTutorial.EventServer
