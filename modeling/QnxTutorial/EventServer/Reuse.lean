import QnxTutorial.ConnectionIds
import QnxTutorial.EventServer.Program
import QnxTutorial.Monitor.Environment

/-!
# Ids that are used again

The two threads together with the kernel and any number of clients, which connect, send and go away
between any two steps. What `MsgReceive` returns now comes from the kernel. `handling` and
`registrant` are history variables: the client whose message or pulse was received last, and the
message that `save_scoid` was set for with the client that sent it.

**Theorem (`ownRegistration_of_reachable`).** While `save_scoid` is not zero, it is attached and
belongs to the client of the registration.
-/

namespace QnxTutorial.EventServer

open ConnectionIds Monitor RecvBuf

deriving instance DecidableEq for Message

/-! ## The environment -/

/-- The kernel, and the history variables. -/
structure World where
  kernel : Kernel Message
  handling : Option ℕ
  registrant : Option (Message × ℕ)

variable (H : Headers)

/-- What an act of the main thread means to the kernel. Disconnect pulses are the kernel's, and any
other pulse may come. -/
def follow : MainPc → Input → Shared → World → Option World
  | .receive, .message m, _, w => (w.kernel.receive m.scoid m).map fun K =>
      { w with kernel := K, handling := K.owner m.scoid }
  | .receive, .pulse bytes, s, w =>
    let buf := RecvBuf.receive H.sizeofRecvBuf bytes s.recvBuf
    if H.pulseCode buf = H.pulseCodeDisconnect then
      (w.kernel.receivePulse (H.pulseScoid buf)).map fun K =>
        { w with kernel := K, handling := K.owner (H.pulseScoid buf) }
    else some w
  | .setScoid m, _, _, w => some { w with registrant := w.handling.map (m, ·) }
  | .detach, _, s, w => some { w with kernel := w.kernel.detach (H.pulseScoid s.recvBuf) }
  | _, _, _, w => some w

def clients : Environment (program H) World (Kernel.ClientAct Message) where
  follow
    | .main => follow H
    | .notifyThread => fun _ _ _ w => some w
  event a w := (w.kernel.act a).map fun K => { w with kernel := K }

/-- The program and its clients. -/
abbrev system : Program (Option Tid) (Shared × World) (Input ⊕ Kernel.ClientAct Message) :=
  (program H).within (clients H)

/-- Nobody is connected. -/
def SystemStart (s : Shared × World) : Prop := Start s.1 ∧ s.2.kernel = .empty

/-! ## The invariant -/

/-- The saved id is tracked, and that of the message. -/
structure OwnClient (s : Shared) (w : World) : Prop where
  tracks : w.kernel.Tracks s.saveScoid (w.registrant.map Prod.snd)
  scoid : s.saveScoid ≠ 0 → ∀ r, w.registrant = some r → r.1.scoid = s.saveScoid

/-- The saved receive id is that of the message. -/
def OwnRcvid (s : Shared) (w : World) : Prop :=
  s.saveScoid ≠ 0 → ∀ r, w.registrant = some r → r.1.rcvid = s.saveRcvid

/-- The id is that of the client whose message or pulse is being handled. -/
def Handles (w : World) (scoid : ℤ) : Prop :=
  ∃ n, w.handling = some n ∧ w.kernel.owner scoid = some n

/-- What the main thread knows of the message or the pulse at hand. -/
def AtHand (H : Headers) : MainPc → Shared → World → Prop
  | .verify m, s, w | .lockRequest m, s, w | .setRcvid m, s, w => Handles w m.scoid ∧ OwnRcvid s w
  | .setEvent m, s, w | .setScoid m, s, w => Handles w m.scoid ∧ s.saveRcvid = m.rcvid
  | .lockDisconnect, s, w | .testScoid, s, w => Handles w (H.pulseScoid s.recvBuf) ∧ OwnRcvid s w
  | .clearScoid, s, w => Handles w (H.pulseScoid s.recvBuf) ∧
      s.saveScoid = H.pulseScoid s.recvBuf ∧ OwnRcvid s w
  | .clearRcvid, s, _ | .clearCount, s, _ => H.pulseScoid s.recvBuf ≠ 0 ∧ s.saveScoid = 0
  | .unlockDisconnect, s, w | .detach, s, w =>
      s.saveScoid ≠ H.pulseScoid s.recvBuf ∧ OwnRcvid s w
  | .receive, s, w | .unlockRequest _, s, w | .reply _, s, w => OwnRcvid s w

/-- What holds when the main thread is at `pc`. -/
def MainKnows (H : Headers) (pc : MainPc) (s : Shared × World) : Prop :=
  OwnClient s.1 s.2 ∧ AtHand H pc s.1 s.2

variable {H} {s s' : Shared} {w w' : World}

/-! ## What does not matter -/

theorem Handles.event {K : Kernel Message} {scoid : ℤ} (h : Handles w scoid)
    {a : Kernel.ClientAct Message} (ha : w.kernel.act a = some K) :
    Handles { w with kernel := K } scoid := by
  obtain ⟨n, hn, howner⟩ := h
  exact ⟨n, hn, Kernel.owner_act ha howner⟩

theorem MainKnows.event {pc : MainPc} {K : Kernel Message} (h : MainKnows H pc (s, w))
    {a : Kernel.ClientAct Message} (ha : w.kernel.act a = some K) :
    MainKnows H pc (s, { w with kernel := K }) := by
  obtain ⟨hown, hat⟩ := h
  refine ⟨⟨hown.tracks.act ha, hown.scoid⟩, ?_⟩
  cases pc with
  | verify | lockRequest | setRcvid | setEvent | setScoid | lockDisconnect | testScoid
  | clearScoid => exact ⟨hat.1.event ha, hat.2⟩
  | clearRcvid | clearCount | unlockDisconnect | detach | receive | unlockRequest | reply =>
    exact hat

theorem MainKnows.notify {pc : MainPc} {npc k : NotifyPc} (h : MainKnows H pc (s, w))
    (ha : NotifyAct H npc s s' k) : MainKnows H pc (s', w) := by
  have hsame : s'.saveScoid = s.saveScoid ∧ s'.saveRcvid = s.saveRcvid ∧
      s'.recvBuf = s.recvBuf := by
    cases ha <;> exact ⟨rfl, rfl, rfl⟩
  obtain ⟨hscoid, hrcvid, hbuf⟩ := hsame
  have hown : OwnClient s' w := by
    refine ⟨?_, ?_⟩
    · rw [hscoid]
      exact h.1.tracks
    · rw [hscoid]
      exact h.1.scoid
  refine ⟨hown, ?_⟩
  have hat := h.2
  cases pc <;> simpa only [AtHand, OwnRcvid, hscoid, hrcvid, hbuf] using hat

/-! ## What the main thread does -/

theorem OwnClient.of_zero (h0 : s.saveScoid = 0) : OwnClient s w where
  tracks := by
    rw [h0]
    exact Kernel.tracks_zero _
  scoid := fun hne => absurd h0 hne

/-- The kernel delivers something of the client with the id. -/
theorem OwnClient.receive (h : OwnClient s w) {K : Kernel Message} {scoid : ℤ}
    (howner : K.owner = w.kernel.owner ∧ ∃ n, w.kernel.owner scoid = some n) (buf : Buf) :
    OwnClient { s with recvBuf := buf } { w with kernel := K, handling := K.owner scoid } ∧
      Handles { w with kernel := K, handling := K.owner scoid } scoid := by
  obtain ⟨hsame, n, hn⟩ := howner
  have hK : K.owner scoid = some n := by rw [hsame, hn]
  exact ⟨⟨h.tracks.congr hsame, h.scoid⟩, n, hK, hK⟩

theorem MainKnows.receive {k : MainPc} {e : Input} (h : MainKnows H .receive (s, w))
    (hg : dispatch H e s = some (s', k)) (hfollow : follow H .receive e s w = some w') :
    MainKnows H k (s', w') := by
  obtain ⟨hown, hrcvid⟩ := h
  cases e with
  | result => cases hg
  | message m =>
    cases hg
    obtain ⟨K, hK, rfl⟩ := Option.map_eq_some_iff.1 hfollow
    obtain ⟨hown', hhandles⟩ := hown.receive (Kernel.owner_receive hK)
      (RecvBuf.receive H.sizeofRecvBuf m.bytes s.recvBuf)
    refine ⟨hown', ?_⟩
    split_ifs
    · exact ⟨hhandles, hrcvid⟩
    · exact hrcvid
  | pulse bytes =>
    cases hg
    simp only [follow] at hfollow
    split_ifs at hfollow ⊢ with hcode
    · obtain ⟨K, hK, rfl⟩ := Option.map_eq_some_iff.1 hfollow
      obtain ⟨hown', hhandles⟩ := hown.receive (Kernel.owner_receivePulse hK)
        (RecvBuf.receive H.sizeofRecvBuf bytes s.recvBuf)
      exact ⟨hown', hhandles, hrcvid⟩
    · cases hfollow
      exact ⟨⟨hown.tracks, hown.scoid⟩, hrcvid⟩

theorem MainKnows.act {pc k : MainPc} {g : Input → Shared → Option (Shared × MainPc)} {e : Input}
    (h : MainKnows H pc (s, w)) (hc : main H pc = .act g) (hg : g e s = some (s', k))
    (hfollow : follow H pc e s w = some w') : MainKnows H k (s', w') := by
  obtain ⟨hown, hat⟩ := h
  cases pc with
  | lockRequest | unlockRequest | lockDisconnect | unlockDisconnect => cases hc
  | receive =>
    cases hc
    exact MainKnows.receive ⟨hown, hat⟩ hg hfollow
  | verify m =>
    cases hc
    cases hfollow
    rcases e with bytes | m' | ok
    · cases hg
    · cases hg
    · cases ok <;> cases hg
      · exact ⟨hown, hat.2⟩
      · exact ⟨hown, hat⟩
  | setRcvid m =>
    cases hc
    cases hg
    cases hfollow
    exact ⟨⟨hown.tracks, hown.scoid⟩, hat.1, rfl⟩
  | setEvent m =>
    cases hc
    cases hg
    cases hfollow
    exact ⟨⟨hown.tracks, hown.scoid⟩, hat.1, hat.2⟩
  | setScoid m =>
    cases hc
    cases hg
    cases hfollow
    obtain ⟨⟨n, hn, howner⟩, hrcvid⟩ := hat
    have hregistrant : w.handling.map (m, ·) = some (m, n) := congrArg (Option.map (m, ·)) hn
    refine ⟨⟨?_, ?_⟩, ?_⟩
    · simp only [hregistrant]
      exact Kernel.tracks_save howner
    · rintro - r hr
      cases hregistrant.symm.trans hr
      rfl
    · rintro - r hr
      cases hregistrant.symm.trans hr
      exact hrcvid.symm
  | reply m =>
    cases hc
    cases hg
    cases hfollow
    exact ⟨hown, hat⟩
  | testScoid =>
    cases hc
    cases hg
    cases hfollow
    split_ifs with hours
    · exact ⟨⟨hown.tracks, hown.scoid⟩, hat.1, hours, hat.2⟩
    · exact ⟨⟨hown.tracks, hown.scoid⟩, hours, hat.2⟩
  | clearScoid =>
    cases hc
    cases hg
    cases hfollow
    obtain ⟨⟨n, -, howner⟩, -⟩ := hat
    exact ⟨.of_zero rfl, Kernel.ne_zero_of_owner howner, rfl⟩
  | clearRcvid =>
    cases hc
    cases hg
    cases hfollow
    exact ⟨.of_zero hat.2, hat⟩
  | clearCount =>
    cases hc
    cases hg
    cases hfollow
    exact ⟨.of_zero hat.2, hat.2.trans_ne hat.1.symm, fun hne => absurd hat.2 hne⟩
  | detach =>
    cases hc
    cases hg
    cases hfollow
    exact ⟨⟨hown.tracks.detach hat.1, hown.scoid⟩, hat.2⟩

/-! ## The outline -/

theorem MainKnows.unlock {pc k : MainPc} {s : Shared × World} (hc : main H pc = .unlock k)
    (h : MainKnows H pc s) : MainKnows H k s := by
  cases pc with
  | unlockRequest | unlockDisconnect =>
    cases hc
    exact h
  | _ => cases hc

theorem MainKnows.lock {pc k : MainPc} {s : Shared × World} (hc : main H pc = .lock k)
    (h : MainKnows H pc s) : MainKnows H k s := by
  cases pc with
  | lockRequest | lockDisconnect =>
    cases hc
    exact h
  | _ => cases hc

/-- The notification thread and the clients need not know anything. -/
def systemPre (H : Headers) : (i : Option Tid) → (system H).Pc i → Shared × World → Prop
  | some .main => MainKnows H
  | some .notifyThread | none => fun _ _ => True

theorem systemPre_other {i j : Option Tid} {pc k : (system H).Pc i} {s s' : Shared × World}
    {f : Input ⊕ Kernel.ClientAct Message → Shared × World →
      Option ((Shared × World) × (system H).Pc i)} {e : Input ⊕ Kernel.ClientAct Message}
    (hc : (system H).code i pc = .act f) (hf : f e s = some (s', k)) (hj : j ≠ i)
    {pc' : (system H).Pc j} (h : systemPre H j pc' s) : systemPre H j pc' s' := by
  rcases j with _ | _ | _
  · trivial
  · obtain ⟨s, w⟩ := s
    obtain ⟨s', w'⟩ := s'
    rcases i with _ | _ | _
    · obtain ⟨hsame, a, ha⟩ := Program.within_event hc hf
      obtain ⟨K, hK, rfl⟩ := Option.map_eq_some_iff.1 ha
      cases hsame
      exact MainKnows.event h hK
    · exact absurd rfl hj
    · obtain ⟨g, e', hg, hg', hfollow⟩ := Instr.within_act hc hf
      cases hfollow
      exact MainKnows.notify h (notifyThread_act hg hg')
  · trivial

def systemOutline (H : Headers) : Outline (system H) where
  inv _ := True
  pre := systemPre H
  rest _ _ _ := False
  lock {i pc k s} hc hpre _ := by
    rcases i with _ | _ | _
    · trivial
    · exact MainKnows.lock (Instr.within_lock hc) hpre
    · trivial
  unlock {i pc k s} hc hpre := by
    refine ⟨trivial, ?_⟩
    rcases i with _ | _ | _
    · trivial
    · exact MainKnows.unlock (Instr.within_unlock hc) hpre
    · trivial
  wait {i pc k s} hc := by
    rcases i with _ | _ | _ <;> cases pc <;> cases hc
  relock {i pc k s} hc := by
    rcases i with _ | _ | _ <;> cases pc <;> cases hc
  notify {i pc k s} hc := by
    rcases i with _ | _ | _ <;> cases pc <;> rcases hc with hc | hc <;> cases hc
  act {i pc k s s' e f} hc hf hpre := by
    rcases i with _ | _ | _
    · trivial
    · obtain ⟨g, e', hg, hg', hfollow⟩ := Instr.within_act hc hf
      exact MainKnows.act hpre hg hg' hfollow
    · trivial
  act_inv _ _ _ _ _ := trivial
  act_other {i pc k s s' e f} hc hf _ {j t} hji _ hmeets := by
    cases t with
    | run pc' => exact systemPre_other hc hf hji hmeets
    | asleep | woken => exact hmeets

/-! ## What is reachable -/

/-- Every interleaving of the threads and the clients. -/
abbrev SystemReachable (c : Config (system H)) : Prop := Reach (system H) SystemStart c

theorem holds_start {s : Shared × World} (hs : SystemStart s) :
    (systemOutline H).inv s ∧ ∀ i, (systemOutline H).pre i ((system H).start i) s := by
  refine ⟨trivial, fun i => ?_⟩
  rcases i with _ | _ | _
  · trivial
  · exact ⟨.of_zero hs.1.2.1, fun hne => absurd hs.1.2.1 hne⟩
  · trivial

/-- What is known of `save_scoid`. Its client sent the registration, whose receive id is saved
unless the next registration is just being stored. No other client has the id, and the pulse that
clears it is the client's own. -/
structure OwnRegistration (c : Config (system H)) : Prop where
  own : c.shared.1.saveScoid ≠ 0 → ∃ m n, c.shared.2.registrant = some (m, n) ∧
    m.scoid = c.shared.1.saveScoid ∧ c.shared.2.kernel.owner c.shared.1.saveScoid = some n ∧
    (c.mutex = none → m.rcvid = c.shared.1.saveRcvid)
  others : ∀ scoid n, c.shared.2.kernel.owner scoid = some n →
    c.shared.2.registrant.map Prod.snd ≠ some n → scoid ≠ c.shared.1.saveScoid
  clears : c.thread (some .main) = .run .clearScoid →
    c.shared.2.handling = c.shared.2.registrant.map Prod.snd

/-- Outside the critical sections the receive id is that of the registration. -/
theorem AtHand.ownRcvid {pc : MainPc} (h : AtHand H pc s w) (hfree : pc.holds = false) :
    OwnRcvid s w := by
  cases pc with
  | receive | reply => exact h
  | verify | lockRequest | lockDisconnect | detach => exact h.2
  | setRcvid | setEvent | setScoid | unlockRequest | testScoid | clearScoid | clearRcvid
  | clearCount | unlockDisconnect => cases hfree

theorem ownRegistration_of_reachable {c : Config (system H)} (hc : SystemReachable c) :
    OwnRegistration c := by
  have hmeets := ((systemOutline H).sound (fun _ => holds_start) hc).at_ (some .main)
  cases hpc : c.thread (some .main) with
  | run pc =>
    rw [hpc] at hmeets
    obtain ⟨hown, hat⟩ : MainKnows H pc c.shared := hmeets
    refine ⟨?_, ?_, ?_⟩
    · intro hne
      obtain ⟨n, hregistrant, howner⟩ := hown.tracks hne
      obtain ⟨⟨m, n⟩, hr, rfl⟩ := Option.map_eq_some_iff.1 hregistrant
      refine ⟨m, n, hr, hown.scoid hne _ hr, howner, fun hm => ?_⟩
      exact hat.ownRcvid (hc.owned.outside hm hpc) hne _ hr
    · rintro scoid n hn hother rfl
      exact hother (hown.tracks.who_eq hn)
    · intro hclear
      cases hpc.symm.trans hclear
      obtain ⟨⟨n, hn, howner⟩, hscoid, -⟩ := hat
      rw [hn, hown.tracks.who_eq (hscoid ▸ howner)]
  | asleep | woken =>
    rw [hpc] at hmeets
    exact hmeets.elim

end QnxTutorial.EventServer
