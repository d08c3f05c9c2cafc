import QnxTutorial.EventServer.Client
import QnxTutorial.EventServer.Count
import QnxTutorial.Monitor.Inner

/-!
# What a client sees

Each client that runs `event_client.c` sends one message, so the server registers it at most once,
and every value that is due for it belongs to that registration. The invariant (`WholeOk`) is about
the main thread, which may have the message at hand. It is kept by each act of the threads, the
kernel and the clients, together with what the server by itself keeps true (`LogOk`) and what it
knows of its ids (`OwnClient`).

**Theorem (`client_counts`).** A client prints its values one after the other, counting up, and
nothing else.
-/

namespace QnxTutorial.EventServer

open ConnectionIds Monitor RecvBuf

variable (H : ClientHeaders) (connection : ℤ → ℤ) (runs : ℕ → Bool)

/-! ## The invariant -/

/-- The values that the client has printed. -/
def Line.value : Line → Option (BitVec 32)
  | .gotMyPulse value => some value
  | .gotUnexpectedPulse _ => none

/-- The values printed and those of the pulses in the channel. -/
def EventClient.values (c : EventClient) : List (BitVec 32) :=
  c.output.filterMap Line.value ++ c.queue.map Sigevent.sivalInt

/-- The client has sent its message, and the server has received it. -/
def EventClient.Past (c : EventClient) : Prop := c.pc ≠ .msgSend ∧ c.pc ≠ .sendBlocked

/-- What is true of a client by itself. -/
structure EventClient.Ok (c : EventClient) : Prop where
  request : ∀ m, c.request = some m → IsRequest H m
  own : ∀ ev ∈ c.queue, H.sigevCode ev.others = H.myPulseCode
  lines : ∀ line ∈ c.output, ∃ value, line = .gotMyPulse value
  values : c.values.Sublist c.due
  all : c.lost = false → c.values = c.due

/-- Nothing is due for a client before its message is received, and it is not registered. -/
def Fresh (registrant : Option (Message × ℕ)) (n : ℕ) (c : EventClient) : Prop :=
  ¬ c.Past → c.due = [] ∧ registrant.map Prod.snd ≠ some n

/-- The values due count up from what a registration of the client found. -/
def Numbered (log : List Entry) (c : EventClient) : Prop :=
  c.due = [] ∨ ∃ r, .registered r ∈ log ∧ c.request = some r.msg ∧
    c.due = ramp r.foundCount c.due.length

/-- The registration in force is that of the last registrant, for whom its values are due. -/
def InForce (r : Registration) (log : List Entry) (registrant : Option (Message × ℕ))
    (cs : Clients) : Prop :=
  ∃ n, registrant = some (r.msg, n) ∧ connection r.msg.rcvid = r.msg.scoid ∧
    (runs n → (cs n).request = some r.msg ∧ session log = some (r, (cs n).due))

/-- The clients and what the server remembers of them. -/
structure ClientsOk (log : List Entry) (registrant : Option (Message × ℕ)) (cs : Clients) :
    Prop where
  ok : ∀ n, runs n → (cs n).Ok H
  fresh : ∀ n, runs n → Fresh registrant n (cs n)
  numbered : ∀ n, runs n → Numbered log (cs n)
  inForce : ∀ r, registrations.current log = some r →
    InForce connection runs r log registrant cs

/-- The message at hand is the first and last of its client. -/
def FirstMessage (m : Message) (handling : Option ℕ) (registrant : Option (Message × ℕ))
    (cs : Clients) : Prop :=
  connection m.rcvid = m.scoid ∧ ∀ n, handling = some n → runs n →
    (cs n).request = some m ∧ (cs n).Past ∧ (cs n).due = [] ∧
      registrant.map Prod.snd ≠ some n

/-- What the main thread knows of it. -/
def MessageAtHand : MainPc → Option ℕ → Option (Message × ℕ) → Clients → Prop
  | .verify m | .lockRequest m | .setRcvid m | .setEvent m | .setScoid m =>
    FirstMessage connection runs m
  | .receive | .unlockRequest _ | .reply _ | .lockDisconnect | .testScoid | .clearScoid
  | .clearRcvid | .clearCount | .unlockDisconnect | .detach => fun _ _ _ => True

/-- What holds when the main thread is at `pc`. -/
def WholeOk (pc : MainPc) (s : (Shared × World) × Outside) : Prop :=
  ClientsOk H s.2.connection runs s.1.1.log s.1.2.registrant s.2.clients ∧
    MessageAtHand s.2.connection runs pc s.1.2.handling s.1.2.registrant s.2.clients

variable {H connection runs} {log : List Entry} {registrant : Option (Message × ℕ)}
  {cs cs' : Clients}

/-! ## What a client does by itself -/

/-- A client that goes on, with the same values due. -/
structure EventClient.GoesOn (H : ClientHeaders) (c c' : EventClient) : Prop where
  past : c.Past → c'.Past
  due : c'.due = c.due
  request : c.Past → c'.request = c.request
  ok : c.Ok H → c'.Ok H

namespace EventClient

variable {c c' : EventClient}

theorem goesOn_pc (pc : ClientPc) (exited : Bool)
    (hpc : c.Past → pc ≠ .msgSend ∧ pc ≠ .sendBlocked) :
    c.GoesOn H { c with pc := pc, exited := exited } where
  past := hpc
  due := rfl
  request _ := rfl
  ok h := ⟨h.request, h.own, h.lines, h.values, h.all⟩

theorem goesOn_send {m : Message} (h : c.send H m = some c') : c.GoesOn H c' := by
  unfold send at h
  split_ifs at h with hif
  cases h
  have hnot : ¬ c.Past := fun hpast => hpast.1 hif.1
  refine ⟨fun hpast => absurd hpast hnot, rfl, fun hpast => absurd hpast hnot, ?_⟩
  intro hok
  refine ⟨?_, hok.own, hok.lines, hok.values, hok.all⟩
  rintro m' hm'
  cases hm'
  exact hif.2.2

theorem goesOn_received {m : Message} (h : c.received m = some c') : c.GoesOn H c' := by
  unfold received at h
  split_ifs at h
  cases h
  exact goesOn_pc _ _ fun _ => ⟨nofun, nofun⟩

theorem goesOn_reply (ok : Bool) : c.GoesOn H (c.reply ok) := by
  by_cases hpc : c.pc = .replyBlocked
  · rw [reply, if_pos hpc]
    exact goesOn_pc _ _ fun _ => ⟨nofun, nofun⟩
  · rw [reply, if_neg hpc]
    exact goesOn_pc _ _ id

theorem goesOn_exit : c.GoesOn H c.exit := goesOn_pc _ _ id

/-- The pulses in the channel are the client's own. -/
theorem Ok.line (h : c.Ok H) {ev : Sigevent} (hev : ev ∈ c.queue) :
    EventClient.line H ev = .gotMyPulse ev.sivalInt := if_pos (h.own ev hev)

theorem goesOn_receive (h : c.receive H = some c') : c.GoesOn H c' := by
  unfold receive at h
  split at h
  next ev queue hpc hexited hqueue =>
    cases h
    refine ⟨id, rfl, fun _ => rfl, ?_⟩
    intro hok
    have hmem : ev ∈ c.queue := by
      rw [hqueue]
      exact List.mem_cons_self
    have hline := hok.line hmem
    have hvalues : EventClient.values { c with
        queue := queue
        output := c.output ++ [EventClient.line H ev] } = c.values := by
      simp [EventClient.values, hqueue, hline, Line.value]
    refine ⟨hok.request, ?_, ?_, ?_, ?_⟩
    · intro ev' hev'
      exact hok.own ev' (by rw [hqueue]; exact List.mem_cons_of_mem _ hev')
    · intro l hl
      rcases List.mem_append.1 hl with hl | hl
      · exact hok.lines l hl
      · rw [List.mem_singleton.1 hl, hline]
        exact ⟨_, rfl⟩
    · rw [hvalues]
      exact hok.values
    · rw [hvalues]
      exact hok.all
  · cases h

end EventClient

theorem onClient_cases {who : Option ℕ} {f : EventClient → Option EventClient}
    (h : onClient runs who f cs = some cs') :
    (cs' = cs ∧ ∀ n, who = some n → runs n = false) ∨
    ∃ n c', who = some n ∧ runs n ∧ f (cs n) = some c' ∧ cs' = Function.update cs n c' := by
  unfold onClient at h
  cases who with
  | none =>
    cases h
    exact .inl ⟨rfl, nofun⟩
  | some n =>
    cases hn : runs n with
    | true =>
      simp only [hn, if_true, Option.map_eq_some_iff] at h
      obtain ⟨c', hc', rfl⟩ := h
      exact .inr ⟨n, c', rfl, hn, hc', rfl⟩
    | false =>
      simp only [hn, Bool.false_eq_true, if_false, Option.some.injEq] at h
      refine .inl ⟨h.symm, ?_⟩
      rintro n' hn'
      cases hn'
      exact hn

/-- A client that may have values due has sent its message. -/
theorem ClientsOk.past (h : ClientsOk H connection runs log registrant cs) {n : ℕ} (hn : runs n)
    (hdue : (cs n).due ≠ [] ∨ registrant.map Prod.snd = some n) : (cs n).Past := by
  by_contra hpast
  obtain ⟨hnil, hne⟩ := h.fresh n hn hpast
  rcases hdue with hdue | heq
  · exact hdue hnil
  · exact hne heq

theorem forall_update {p : ℕ → EventClient → Prop} {n : ℕ} {c' : EventClient}
    (h : ∀ k, runs k → p k (cs k)) (hn : runs n → p n c') :
    ∀ k, runs k → p k (Function.update cs n c' k) :=
  (Function.forall_update_iff cs fun k c => runs k → p k c).2 ⟨hn, fun k _ => h k⟩

theorem ClientsOk.update (h : ClientsOk H connection runs log registrant cs) {n : ℕ}
    (hn : runs n) {c' : EventClient} (hgo : (cs n).GoesOn H c') :
    ClientsOk H connection runs log registrant (Function.update cs n c') where
  ok := forall_update h.ok fun hn => hgo.ok (h.ok n hn)
  fresh := by
    refine forall_update (p := Fresh registrant) h.fresh ?_
    intro _ hpast
    rw [hgo.due]
    exact h.fresh n hn (mt hgo.past hpast)
  numbered := by
    refine forall_update (p := fun _ => Numbered log) h.numbered ?_
    intro _
    by_cases hdue : (cs n).due = []
    · exact .inl (hgo.due.trans hdue)
    · have hpast := h.past hn (.inl hdue)
      unfold Numbered
      rw [hgo.due, hgo.request hpast]
      exact h.numbered n hn
  inForce r hr := by
    obtain ⟨k, hregistrant, hconnection, hk⟩ := h.inForce r hr
    refine ⟨k, hregistrant, hconnection, ?_⟩
    intro hruns
    by_cases hkn : k = n
    · subst hkn
      have hpast := h.past hruns (.inr (by rw [hregistrant]; rfl))
      rw [Function.update_self, hgo.request hpast, hgo.due]
      exact hk hruns
    · rw [Function.update_of_ne hkn]
      exact hk hruns

theorem FirstMessage.update {m : Message} {handling : Option ℕ}
    (h : FirstMessage connection runs m handling registrant cs) {n : ℕ} {c' : EventClient}
    (hgo : (cs n).GoesOn H c') :
    FirstMessage connection runs m handling registrant (Function.update cs n c') := by
  refine ⟨h.1, ?_⟩
  intro k hk hruns
  obtain ⟨hrequest, hpast, hdue, hne⟩ := h.2 k hk hruns
  by_cases hkn : k = n
  · subst hkn
    rw [Function.update_self, hgo.request hpast, hgo.due]
    exact ⟨hrequest, hgo.past hpast, hdue, hne⟩
  · rw [Function.update_of_ne hkn]
    exact ⟨hrequest, hpast, hdue, hne⟩

variable {pc : MainPc} {o o' : Outside}

theorem MessageAtHand.update {handling : Option ℕ}
    (h : MessageAtHand connection runs pc handling registrant cs) {n : ℕ} {c' : EventClient}
    (hgo : (cs n).GoesOn H c') :
    MessageAtHand connection runs pc handling registrant (Function.update cs n c') := by
  cases pc with
  | verify | lockRequest | setRcvid | setEvent | setScoid => exact FirstMessage.update h hgo
  | receive | unlockRequest | reply | lockDisconnect | testScoid | clearScoid | clearRcvid
  | clearCount | unlockDisconnect | detach => trivial

/-- **A client goes on.** -/
theorem WholeOk.client {s : Shared × World} (h : WholeOk H runs pc (s, o)) {who : Option ℕ}
    {f : EventClient → Option EventClient} (ho : o.client runs who f = some o')
    (hf : ∀ {n c'}, f (o.clients n) = some c' → (o.clients n).GoesOn H c') :
    WholeOk H runs pc (s, o') := by
  obtain ⟨cs', hcs, rfl⟩ := Option.map_eq_some_iff.1 ho
  rcases onClient_cases hcs with ⟨rfl, -⟩ | ⟨n, c', -, hn, hc', rfl⟩
  · exact h
  · exact ⟨h.1.update hn (hf hc'), h.2.update (hf hc')⟩

/-! ## What the clients and the kernel do -/

theorem WholeOk.act {s : Shared × World} {w : World} {a : Kernel.ClientAct Message}
    (h : WholeOk H runs pc (s, o)) (ho : followAct H runs a w o = some o') :
    WholeOk H runs pc (s, o') := by
  unfold followAct at ho
  cases a with
  | connect =>
    cases ho
    exact h
  | again =>
    refine h.client ho ?_
    rintro n c' hc'
    cases hc'
  | close =>
    refine h.client ho ?_
    rintro n c' hc'
    cases hc'
    exact EventClient.goesOn_exit
  | send => exact h.client ho EventClient.goesOn_send

/-! ## What the main thread does -/

/-- A receive id is given to a connection, unless it is that of the registration in force and of
another one. -/
theorem ClientsOk.connects (h : ClientsOk H connection runs log registrant cs) {m : Message}
    (hm : ∀ r, registrations.current log = some r → r.msg.rcvid = m.rcvid →
      m.scoid = r.msg.scoid) :
    ClientsOk H (Function.update connection m.rcvid m.scoid) runs log registrant cs := by
  refine ⟨h.ok, h.fresh, h.numbered, ?_⟩
  intro r hr
  obtain ⟨n, hregistrant, hconnection, hn⟩ := h.inForce r hr
  refine ⟨n, hregistrant, ?_, hn⟩
  by_cases hrcvid : r.msg.rcvid = m.rcvid
  · rw [hrcvid, Function.update_self]
    exact hm r hr hrcvid
  · rw [Function.update_of_ne hrcvid]
    exact hconnection

theorem WholeOk.message {s : Shared} {w : World} {K : Kernel Message} {m : Message}
    (h : WholeOk H runs .receive ((s, w), o)) (hown : OwnClient s w) (hfits : Fits s)
    (hK : w.kernel.receive m.scoid m = some K) (ho : o.receives runs m w = some o') :
    ClientsOk H o'.connection runs s.log w.registrant o'.clients ∧
      FirstMessage o'.connection runs m (K.owner m.scoid) w.registrant o'.clients := by
  unfold Outside.receives at ho
  split_ifs at ho with hrcvid
  obtain ⟨cs', hcs, rfl⟩ := Option.map_eq_some_iff.1 ho
  have hconnects := h.1.connects (m := m) fun r hr heq => by
    obtain ⟨k, -, hconnection, -⟩ := h.1.inForce r hr
    rw [← heq, hconnection] at hrcvid
    rcases hrcvid with hsame | hnone
    · exact hsame.symm
    · have hscoid : s.saveScoid = r.msg.scoid := hfits.scoid_eq hr
      obtain ⟨n, -, howner⟩ := hown.tracks (hscoid ▸ r.msg.scoid_ne)
      rw [hscoid, hnone] at howner
      cases howner
  obtain ⟨howner, n, hn⟩ := Kernel.owner_receive hK
  rw [howner, hn]
  rw [hn] at hcs
  rcases onClient_cases hcs with ⟨rfl, hnone⟩ | ⟨k, c', hk, hruns, hc', rfl⟩
  · refine ⟨hconnects, Function.update_self .., ?_⟩
    intro k hk hruns
    rw [hnone k hk] at hruns
    cases hruns
  · refine ⟨hconnects.update hruns (EventClient.goesOn_received hc'),
      Function.update_self .., ?_⟩
    intro k' hk' _
    obtain rfl : k = k' := Option.some.inj (hk.symm.trans hk')
    unfold EventClient.received at hc'
    split_ifs at hc' with hif
    cases hc'
    obtain ⟨hdue, hne⟩ := h.1.fresh k hruns fun hpast => hpast.2 hif.1
    simp only [Function.update_self]
    exact ⟨hif.2, ⟨nofun, nofun⟩, hdue, hne⟩

/-! ## What is entered in the history -/

theorem Numbered.mono {c : EventClient} (h : Numbered log c) {log' : List Entry}
    (hlog : log <+: log') : Numbered log' c := by
  rcases h with hdue | ⟨r, hr, hrequest, hdue⟩
  · exact .inl hdue
  · exact .inr ⟨r, hlog.subset hr, hrequest, hdue⟩

/-- More entries do not change what a client has, apart from the registration in force. -/
theorem ClientsOk.mono (h : ClientsOk H connection runs log registrant cs) {log' : List Entry}
    (hlog : log <+: log') (hinForce : ∀ r, registrations.current log' = some r →
      InForce connection runs r log' registrant cs) :
    ClientsOk H connection runs log' registrant cs where
  ok := h.ok
  fresh := h.fresh
  numbered n hn := (h.numbered n hn).mono hlog
  inForce := hinForce

/-- A registration in force stays in force, if its session stays the same. -/
theorem ClientsOk.same_session (h : ClientsOk H connection runs log registrant cs)
    {log' : List Entry} (hlog : log <+: log')
    (hsession : ∀ p, session log' = some p → session log = some p) :
    ClientsOk H connection runs log' registrant cs := by
  refine h.mono hlog ?_
  intro r hr
  rw [← session_fst] at hr
  obtain ⟨⟨r, vs⟩, hp, rfl⟩ := Option.map_eq_some_iff.1 hr
  have hold := hsession _ hp
  obtain ⟨n, hregistrant, hconnection, hn⟩ := h.inForce r (current_of_session hold)
  refine ⟨n, hregistrant, hconnection, ?_⟩
  intro hruns
  obtain ⟨hrequest, hdue⟩ := hn hruns
  exact ⟨hrequest, by rw [hp, ← hold, hdue]⟩

theorem ClientsOk.disconnected (h : ClientsOk H connection runs log registrant cs) (scoid : ℤ) :
    ClientsOk H connection runs (log ++ [.disconnected scoid]) registrant cs := by
  refine h.same_session (List.prefix_append ..) ?_
  intro p hp
  rw [session_concat] at hp
  exact (Option.filter_eq_some_iff.1 hp).1

theorem ClientsOk.nobody (h : ClientsOk H connection runs log registrant cs) :
    ClientsOk H connection runs (log ++ [.notified none]) registrant cs := by
  refine h.same_session (List.prefix_append ..) ?_
  intro p hp
  rwa [session_concat] at hp

theorem ClientsOk.registered (h : ClientsOk H connection runs log registrant cs) {r : Registration}
    {n : ℕ} (hfirst : FirstMessage connection runs r.msg (some n) registrant cs) :
    ClientsOk H connection runs (log ++ [.registered r]) (some (r.msg, n)) cs := by
  refine ⟨h.ok, ?_, ?_, ?_⟩
  · intro k hk hpast
    refine ⟨(h.fresh k hk hpast).1, ?_⟩
    intro hkn
    obtain rfl : n = k := Option.some.inj hkn
    exact hpast (hfirst.2 n rfl hk).2.1
  · intro k hk
    exact (h.numbered k hk).mono (List.prefix_append ..)
  · intro r' hr'
    rw [current_registered] at hr'
    cases hr'
    refine ⟨n, rfl, hfirst.1, ?_⟩
    intro hruns
    obtain ⟨hrequest, -, hdue, -⟩ := hfirst.2 n rfl hruns
    rw [hdue, session_concat]
    exact ⟨hrequest, rfl⟩

theorem EventClient.Ok.deliver {c : EventClient} (h : c.Ok H) (ok : Bool) {ev : Sigevent}
    (hev : H.sigevCode ev.others = H.myPulseCode) : (c.deliver ok ev).Ok H := by
  unfold EventClient.deliver
  split_ifs
  · have hvalues : EventClient.values { c with
        queue := c.queue ++ [ev], due := c.due ++ [ev.sivalInt] } = c.values ++ [ev.sivalInt] := by
      simp [EventClient.values]
    refine ⟨h.request, ?_, h.lines, ?_, ?_⟩
    · intro ev' hev'
      rcases List.mem_append.1 hev' with hev' | hev'
      · exact h.own ev' hev'
      · rw [List.mem_singleton.1 hev']
        exact hev
    · rw [hvalues]
      exact h.values.append (List.Sublist.refl _)
    · intro hlost
      rw [hvalues, h.all hlost]
  · refine ⟨h.request, h.own, h.lines, h.values.trans (List.sublist_append_left ..), ?_⟩
    intro hlost
    cases hlost

/-- Whether the call fails or not, the value is due. -/
theorem EventClient.deliver_due (c : EventClient) (ok : Bool) (ev : Sigevent) :
    (c.deliver ok ev).due = c.due ++ [ev.sivalInt] := by
  unfold EventClient.deliver
  split_ifs <;> rfl

theorem EventClient.deliver_request (c : EventClient) (ok : Bool) (ev : Sigevent) :
    (c.deliver ok ev).request = c.request := by
  unfold EventClient.deliver
  split_ifs <;> rfl

theorem EventClient.deliver_pc (c : EventClient) (ok : Bool) (ev : Sigevent) :
    (c.deliver ok ev).pc = c.pc := by
  unfold EventClient.deliver
  split_ifs <;> rfl

section Deliver

variable {r : Registration} {n : ℕ} {rcvid : ℤ} {ev : Sigevent}

theorem ClientsOk.delivered_other (h : ClientsOk H connection runs log registrant cs)
    (hr : registrations.current log = some r) (hregistrant : registrant = some (r.msg, n))
    (hn : runs n = false) :
    ClientsOk H connection runs (log ++ [.notified (some (rcvid, ev))]) registrant cs := by
  refine h.mono (List.prefix_append ..) ?_
  intro r' hr'
  rw [current_notified] at hr'
  obtain rfl : r = r' := Option.some.inj (hr.symm.trans hr')
  obtain ⟨k, hk, hconnection, -⟩ := h.inForce r hr
  refine ⟨n, hregistrant, hconnection, ?_⟩
  intro hruns
  rw [hn] at hruns
  cases hruns

/-- A delivery continues the count of the client that registered last. -/
theorem ClientsOk.delivered (h : ClientsOk H connection runs log registrant cs)
    (hr : registrations.current log = some r) (hregistrant : registrant = some (r.msg, n))
    (hn : runs n) (hcarries : Carries H.toHeaders r.ev ev)
    (hlog : LogOk H.toHeaders (log ++ [.notified (some (rcvid, ev))])) (ok : Bool) :
    ClientsOk H connection runs (log ++ [.notified (some (rcvid, ev))]) registrant
      (Function.update cs n ((cs n).deliver ok ev)) := by
  obtain ⟨n', hlast, hconnection, hinForce⟩ := h.inForce r hr
  obtain rfl : n = n' := (Prod.mk.inj (Option.some.inj (hregistrant.symm.trans hlast))).2
  obtain ⟨hrequest, hsession⟩ := hinForce hn
  have hvalid := (h.ok n hn).request r.msg hrequest
  have hcur := (current_notified log (some (rcvid, ev))).trans hr
  have hown : r.ev = r.msg.event H.toHeaders := hlog.last.own r hcur hvalid.complete
  have hcode : H.sigevCode ev.others = H.myPulseCode := by
    rw [← hcarries.same.2, hown]
    exact hvalid.code
  have hpast := h.past hn (.inr (by rw [hregistrant]; rfl))
  have hsession' : session (log ++ [.notified (some (rcvid, ev))]) =
      some (r, ((cs n).deliver ok ev).due) := by
    rw [session_concat, hsession, EventClient.deliver_due]
    rfl
  refine ⟨?_, ?_, ?_, ?_⟩
  · exact forall_update h.ok fun _ => (h.ok n hn).deliver ok hcode
  · refine forall_update (p := Fresh registrant) h.fresh ?_
    intro _ hnot
    rw [EventClient.Past, EventClient.deliver_pc] at hnot
    exact absurd hpast hnot
  · have hlater : ∀ k, runs k → Numbered (log ++ [.notified (some (rcvid, ev))]) (cs k) :=
      fun k hk => (h.numbered k hk).mono (List.prefix_append ..)
    refine forall_update (p := fun _ => Numbered _) hlater ?_
    intro _
    have hup : H.Updateable r.ev := hown ▸ hvalid.updateable
    refine .inr ⟨r, List.mem_append_left _ (mem_of_current hr), ?_, ?_⟩
    · rw [EventClient.deliver_request, hrequest]
    · exact hlog.last.counts r _ hsession' hup
  · intro r' hr'
    obtain rfl : r = r' := Option.some.inj (hcur.symm.trans hr')
    refine ⟨n, hregistrant, hconnection, fun _ => ?_⟩
    rw [Function.update_self, EventClient.deliver_request]
    exact ⟨hrequest, hsession'⟩

theorem MessageAtHand.delivered {handling : Option ℕ}
    (h : MessageAtHand connection runs pc handling registrant cs)
    (hregistrant : registrant.map Prod.snd = some n) (c' : EventClient) :
    MessageAtHand connection runs pc handling registrant (Function.update cs n c') := by
  cases pc with
  | verify | lockRequest | setRcvid | setEvent | setScoid =>
    refine ⟨h.1, ?_⟩
    intro k hk hruns
    obtain ⟨hrequest, hpast, hdue, hne⟩ := h.2 k hk hruns
    have hkn : k ≠ n := by
      rintro rfl
      exact hne hregistrant
    rw [Function.update_of_ne hkn]
    exact ⟨hrequest, hpast, hdue, hne⟩
  | receive | unlockRequest | reply | lockDisconnect | testScoid | clearScoid | clearRcvid
  | clearCount | unlockDisconnect | detach => trivial

end Deliver

/-! ## The acts of the two threads -/

variable {s s' : Shared} {w w' : World}

theorem WholeOk.main_act {k : MainPc} {g : Input → Shared → Option (Shared × MainPc)} {e : Input}
    (h : WholeOk H runs pc ((s, w), o)) (hknows : MainKnows H.toHeaders pc (s, w))
    (hfits : pc.holds = false → Fits s) (hc : main H.toHeaders pc = .act g)
    (hg : g e s = some (s', k)) (hfollow : follow H.toHeaders pc e s w = some w')
    (ho : followMain runs pc e w o = some o') : WholeOk H runs k ((s', w'), o') := by
  cases pc with
  | lockRequest | unlockRequest | lockDisconnect | unlockDisconnect => cases hc
  | receive =>
    cases hc
    cases e with
    | result => cases hg
    | message m =>
      cases hg
      obtain ⟨K, hK, rfl⟩ := Option.map_eq_some_iff.1 hfollow
      obtain ⟨hok, hfirst⟩ := h.message hknows.1 (hfits rfl) hK ho
      refine ⟨hok, ?_⟩
      split_ifs
      · exact hfirst
      · trivial
    | pulse bytes =>
      cases hg
      cases ho
      simp only [follow] at hfollow
      split_ifs at hfollow ⊢
      · obtain ⟨K, hK, rfl⟩ := Option.map_eq_some_iff.1 hfollow
        exact ⟨h.1, trivial⟩
      · cases hfollow
        exact ⟨h.1, trivial⟩
  | verify m =>
    cases hc
    cases hfollow
    rcases e with bytes | m' | ok
    · cases hg
    · cases hg
    · cases ok <;> cases hg
      · refine ⟨(h.client ho ?_).1, trivial⟩
        rintro n c' hc'
        cases hc'
        exact EventClient.goesOn_reply false
      · cases ho
        exact h
  | setRcvid m | setEvent m =>
    cases hc
    cases hg
    cases hfollow
    cases ho
    exact h
  | setScoid m =>
    cases hc
    cases hg
    cases hfollow
    cases ho
    obtain ⟨⟨n, hn, -⟩, -⟩ := hknows.2
    have hfirst : FirstMessage o.connection runs m w.handling w.registrant o.clients := h.2
    rw [hn] at hfirst
    refine ⟨?_, trivial⟩
    show ClientsOk H o.connection runs _ (w.handling.map (m, ·)) o.clients
    rw [hn]
    exact h.1.registered (r := ⟨m, _, _, _⟩) hfirst
  | reply m =>
    cases hc
    cases hg
    cases hfollow
    rcases e with bytes | m' | ok
    · cases ho
      exact ⟨h.1, trivial⟩
    · cases ho
      exact ⟨h.1, trivial⟩
    · cases ok
      · cases ho
        exact ⟨h.1, trivial⟩
      · refine ⟨(h.client ho ?_).1, trivial⟩
        rintro n c' hc'
        cases hc'
        exact EventClient.goesOn_reply true
  | testScoid =>
    cases hc
    cases hg
    cases hfollow
    cases ho
    refine ⟨h.1.disconnected _, ?_⟩
    split_ifs <;> trivial
  | clearScoid | clearRcvid | clearCount | detach =>
    cases hc
    cases hg
    cases hfollow
    cases ho
    exact ⟨h.1, trivial⟩

theorem WholeOk.notify_act {npc k : NotifyPc} {g : Input → Shared → Option (Shared × NotifyPc)}
    {e : Input} (h : WholeOk H runs pc ((s, w), o)) (hown : OwnClient s w)
    (hpre : notifyPre H.toHeaders npc s) (hc : notifyThread H.toHeaders npc = .act g)
    (hg : g e s = some (s', k)) (ho : followNotify runs npc e s w o = some o') :
    WholeOk H runs pc ((s', w), o') := by
  cases notifyThread_act hc hg with
  | nobody =>
    cases ho
    exact ⟨h.1.nobody, h.2⟩
  | somebody | update | asIs | readCount | writeCount | writeValue =>
    cases ho
    exact h
  | deliver =>
    cases e with
    | pulse | message => cases ho
    | result ok =>
      have hlog := (inv_delivered hpre).log
      obtain ⟨r, hr, hrcvid, hcarries⟩ := hpre.1.exists_current
      have hscoid : s.saveScoid = r.msg.scoid := hpre.1.fits.scoid_eq hr
      obtain ⟨n, hregistrant, howner⟩ := hown.tracks (hscoid ▸ r.msg.scoid_ne)
      obtain ⟨n', hlast, hconnection, -⟩ := h.1.inForce r hr
      obtain rfl : n = n' := by
        rw [hlast] at hregistrant
        exact (Option.some.inj hregistrant).symm
      obtain ⟨cs', hcs, rfl⟩ := Option.map_eq_some_iff.1 ho
      rw [hrcvid, hconnection, ← hscoid, howner] at hcs
      rcases onClient_cases hcs with ⟨rfl, hother⟩ | ⟨k, c', hk, hruns, hc', rfl⟩
      · exact ⟨h.1.delivered_other hr hlast (hother n rfl), h.2⟩
      · cases hk
        cases hc'
        exact ⟨h.1.delivered hr hlast hruns hcarries hlog ok, h.2.delivered hregistrant _⟩

/-! ## What is reachable -/

theorem WholeOk.of_start {s : (Shared × World) × Outside} (hs : WholeStart s) :
    WholeOk H runs .receive s := by
  obtain ⟨⟨⟨-, -, -, hlog⟩, -⟩, hregistrant, houtside⟩ := hs
  refine ⟨?_, trivial⟩
  rw [hlog, hregistrant, houtside]
  refine ⟨?_, ?_, ?_, ?_⟩
  · intro n _
    exact ⟨nofun, nofun, nofun, List.Sublist.refl _, fun _ => rfl⟩
  · intro n _ _
    exact ⟨rfl, nofun⟩
  · intro n _
    exact .inl rfl
  · intro r hr
    cases hr

/-- While the main thread is outside its critical sections, the saved scoid fits. -/
theorem fits_outside {c : Config (program H.toHeaders)} (hc : Reachable c) {pc : MainPc}
    (hpc : c.thread .main = .run pc) (hout : pc.holds = false) : Fits c.shared := by
  have h := holds_of_reachable hc
  cases hm : c.mutex with
  | none => exact (h.inv hm).fits
  | some i =>
    obtain ⟨k, hk, hin⟩ := hc.owned.holder hm
    cases i with
    | main =>
      cases hpc.symm.trans hk
      cases hout.symm.trans hin
    | notifyThread =>
      have hpre : notifyPre H.toHeaders k c.shared := h.pre hk
      cases k with
      | lock => cases hin
      | testRcvid => exact Inv.fits hpre
      | testFlag | readCount | writeCount | writeValue | deliver | unlock => exact hpre.1.fits

theorem main_never_waits (pc k : MainPc) :
    (wholeSystem H runs).code (some (some .main)) pc ≠ .wait k := by
  intro hwait
  have hmain := Instr.within_wait (Instr.within_wait hwait)
  cases pc <;> cases hmain

theorem WholeReachable.system {c : Config (wholeSystem H runs)} (hc : WholeReachable H runs c) :
    SystemReachable c.inner := hc.inner fun _ hs => hs.1

theorem WholeReachable.program {c : Config (wholeSystem H runs)} (hc : WholeReachable H runs c) :
    Reachable c.inner.inner := hc.system.inner fun _ hs => hs.1

theorem WholeReachable.exists_main {c : Config (wholeSystem H runs)}
    (hc : WholeReachable H runs c) : ∃ pc : MainPc, c.thread (some (some .main)) = .run pc :=
  hc.owned.exists_run (i := some (some Tid.main)) fun pc k => main_never_waits pc k

/-- **The invariant of the whole system.** -/
theorem wholeOk_of_reachable {c : Config (wholeSystem H runs)} (hc : WholeReachable H runs c)
    {pc : MainPc} (hpc : c.thread (some (some .main)) = .run pc) :
    WholeOk H runs pc c.shared := by
  refine Reach.at_thread (J := WholeOk H runs) main_never_waits
    (fun _ hs => WholeOk.of_start hs) ?_ ?_ ?_ hc hpc
  · intro pc k s hpass h
    have hmain := hpass.of_within.of_within
    change (main H.toHeaders pc).Passes k at hmain
    cases pc with
    | lockRequest | unlockRequest | lockDisconnect | unlockDisconnect =>
      cases hmain
      exact ⟨h.1, h.2⟩
    | _ => exact hmain.elim
  · intro c pc k f e s hreach hi h hcode hf
    obtain ⟨g, e', -, hg, hg', ho⟩ := Instr.within_act_inl hcode hf
    obtain ⟨g₂, e₂, rfl, hg₂, hg₂', hfollow⟩ := Instr.within_act_inl hg hg'
    have hknows := ((systemOutline H.toHeaders).sound (fun _ => holds_start)
      (WholeReachable.system hreach)).pre (i := some .main) hi
    exact h.main_act hknows (fits_outside (WholeReachable.program hreach) hi) hg₂ hg₂' hfollow ho
  · intro c pc j pc' k f e s hreach hi h hj hpc' hcode hf
    obtain ⟨⟨sv, w⟩, o⟩ := s
    rcases j with _ | _ | _ | _
    · -- A client takes its next pulse.
      obtain ⟨hsame, n, ho⟩ := Program.within_event hcode hf
      change c.shared.2.client runs (some n) (·.receive H) = some o at ho
      have hon := h.client ho EventClient.goesOn_receive
      rwa [← hsame] at hon
    · -- A client does something that concerns the kernel.
      obtain ⟨g, e', -, hg, hg', ho⟩ :=
        Instr.within_act_inl (c := (system H.toHeaders).code none pc') hcode hf
      obtain ⟨hsame, a, ha⟩ := Program.within_event hg hg'
      change (c.shared.1.2.kernel.act a).map (fun K => { c.shared.1.2 with kernel := K }) =
        some w at ha
      obtain ⟨K, -, rfl⟩ := Option.map_eq_some_iff.1 ha
      cases hsame
      cases e' with
      | inl => cases ho
      | inr a' => exact h.act ho
    · exact absurd rfl hj
    · obtain ⟨g, e', -, hg, hg', ho⟩ := Instr.within_act_inl
        (c := (system H.toHeaders).code (some .notifyThread) pc') hcode hf
      obtain ⟨g₂, e₂, rfl, hg₂, hg₂', hfollow⟩ := Instr.within_act_inl
        (c := (program H.toHeaders).code .notifyThread pc') hg hg'
      have hknows := ((systemOutline H.toHeaders).sound (fun _ => holds_start)
        (WholeReachable.system hreach)).pre (i := some .main) hi
      have hpre := (holds_of_reachable (WholeReachable.program hreach)).pre
        (i := .notifyThread) hpc'
      cases hfollow
      exact h.notify_act hknows.1 hpre hg₂ hg₂' ho

/-! ## The theorem -/

/-- What a client sees: its values count up from what its registration found. -/
structure EventClient.SeesCount (c : EventClient) (log : List Entry) : Prop where
  lines : ∀ line ∈ c.output, ∃ value, line = .gotMyPulse value
  values : c.values.Sublist c.due
  all : c.lost = false → c.values = c.due
  counts : c.due = [] ∨ ∃ r, .registered r ∈ log ∧ c.request = some r.msg ∧
    c.due = ramp r.foundCount c.due.length ∧ (r.foundScoid = 0 → r.foundCount = 0)

/-- **A client sees its own count.** It prints a line for each of its pulses and no other. The
values that are due for it count up from what its registration found, and they are what it has
printed and still finds in its channel, unless `MsgDeliverEvent` has failed. What is delivered for a
registration in force is due for the client that has registered. -/
theorem client_counts (H : ClientHeaders) (runs : ℕ → Bool) (c : Config (wholeSystem H runs))
    (hc : WholeReachable H runs c) :
    (∀ n, runs n → (c.shared.2.clients n).SeesCount c.shared.1.1.log) ∧
    ∀ r, registrations.Latest c.shared.1.1.log r → ∃ n,
      c.shared.1.2.registrant = some (r.msg, n) ∧
      (runs n → (c.shared.2.clients n).request = some r.msg ∧
        session c.shared.1.1.log = some (r, (c.shared.2.clients n).due)) := by
  obtain ⟨pc, hpc⟩ := hc.exists_main
  obtain ⟨h, -⟩ := wholeOk_of_reachable hc hpc
  have hlog : LogOk H.toHeaders c.shared.1.1.log := logOk_of_reachable hc.program
  constructor
  · intro n hn
    have hok := h.ok n hn
    refine ⟨hok.lines, hok.values, hok.all, ?_⟩
    rcases h.numbered n hn with hdue | ⟨r, hr, hrequest, hdue⟩
    · exact .inl hdue
    · exact .inr ⟨r, hr, hrequest, hdue, hlog.found_none hr⟩
  · intro r hr
    obtain ⟨n, hregistrant, -, hn⟩ := h.inForce r ((registrations.current_eq_some_iff _ r).2 hr)
    exact ⟨n, hregistrant, hn⟩

/-- The message of `event_client.c`. -/
def clientRequest (scoid : ℤ) (h : scoid ≠ 0) : Message :=
  { request scoid h with
    bytes := [0x63, 0x02, 0, 0, 0, 0, 0, 0, 0, 0x20] ++ List.replicate 14 0 ++ [3] ++
      List.replicate 7 0 }

/-- A client sends `m`, and is notified `k` times. -/
def served (m : Message) (k : ℕ) :
    List (Option (Option Tid) × ((Input ⊕ Kernel.ClientAct Message) ⊕ ℕ)) :=
  [(some none, .inl (.inr (.connect m.scoid))), (some none, .inl (.inr (.send m.scoid m))),
    (some (some .main), .inl (.inl (.message m)))] ++
    List.replicate 7 (some (some .main), .inl (.inl (.result true))) ++
    List.replicate (8 * k) (some (some .notifyThread), .inl (.inl (.result true)))

theorem client_counts_twice : ∃ c : Config (wholeSystem .x86_64 fun _ => true),
    WholeReachable .x86_64 _ c ∧ (c.shared.2.clients 0).output = [.gotMyPulse 0] ∧
    (c.shared.2.clients 0).due = [0, 1] ∧
    (c.shared.2.clients 0).SeesCount c.shared.1.1.log := by
  obtain ⟨c, hc, hp⟩ := exists_reach (P := wholeSystem .x86_64 fun _ => true) (I := WholeStart)
    (s := ((start, ⟨.empty, none, none⟩), ⟨fun _ => .start, fun _ => 0⟩))
    ⟨⟨⟨rfl, rfl, rfl, rfl⟩, rfl⟩, rfl, rfl⟩
    (l := served (clientRequest 1 (by decide)) 2 ++ [(none, .inr 0)])
    (p := fun c => (c.shared.2.clients 0).output == [.gotMyPulse 0] &&
      (c.shared.2.clients 0).due == [0, 1]) (by decide)
  simp only [Bool.and_eq_true, beq_iff_eq] at hp
  exact ⟨c, hc, hp.1, hp.2, (client_counts .x86_64 _ c hc).1 0 rfl⟩

end QnxTutorial.EventServer
