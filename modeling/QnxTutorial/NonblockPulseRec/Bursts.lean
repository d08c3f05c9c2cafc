import QnxTutorial.NonblockPulseRec.Program

/-!
# No pulse is lost

**Theorem (`receives_all`).** Every pulse that has been sent is in the queue, or has been reported
once. The main thread never spins: it waits after four steps for each step of the other thread.

**Theorem (`one_line_for_each_burst`).** If the main thread has time to go back to its main loop
between two bursts, and no burst is interrupted, then every line reports a burst of seven.
-/

namespace QnxTutorial.NonblockPulseRec

variable {s s' : System} {e : Event}

/-! ## What is printed -/

/-- A line that reports a pulse and `n` more, as far as it is printed. -/
def opened (n : Nat) : List Text := .received :: List.replicate n .pulse

/-- The same line when it is finished. -/
def line (n : Nat) : List Text := opened n ++ [.newline]

theorem opened_append (n m : Nat) : opened n ++ List.replicate m .pulse = opened (n + m) := by
  simp [opened, List.replicate_append_replicate]

/-- The output consists of lines, and the main thread is on the way to print another. -/
inductive Printed : MainPc → List Nat → Option Nat → Prop
  | setup {m : MainPc} : m = .channelCreate ∨ m = .pthreadCreate → Printed m [] none
  | msgReceive {lines : List Nat} : Printed .msgReceive lines none
  | inLine {m : MainPc} {lines : List Nat} {n : Nat} :
      m = .timerTimeout ∨ m = .newline ∨ (∃ timeout, m = .msgReceivePulse timeout) →
      Printed m lines (some n)
  | exited {lines : List Nat} {cur : Option Nat} : Printed .exited lines cur

def text (lines : List Nat) (cur : Option Nat) : List Text :=
  .starting :: lines.flatMap line ++ cur.elim [] opened

/-- The pulses that are reported. -/
def reported (lines : List Nat) (cur : Option Nat) : Nat :=
  (lines.flatMap opened).length + cur.elim 0 (· + 1)

/-- What has been printed reports all the pulses that are not in the queue. -/
def Reports (s : System) : Prop :=
  ∃ lines cur, Printed s.main lines cur ∧ s.output = text lines cur ∧
    s.sent = s.queued + reported lines cur

theorem reports_start : Reports start :=
  ⟨[], none, .setup (.inl rfl), rfl, rfl⟩

theorem Printed.inLine_cur {m : MainPc} {lines : List Nat} {cur : Option Nat}
    (h : Printed m lines cur) (hm : m = .newline ∨ ∃ timeout, m = .msgReceivePulse timeout) :
    ∃ n, cur = some n := by
  cases h with
  | inLine => exact ⟨_, rfl⟩
  | setup hsetup =>
    rcases hm with rfl | ⟨timeout, rfl⟩ <;> rcases hsetup with h | h <;> cases h
  | msgReceive | exited => rcases hm with hm | ⟨timeout, hm⟩ <;> cases hm

theorem Reports.act (h : Reports s) (ha : Act s e s') : Reports s' := by
  obtain ⟨lines, cur, hprinted, houtput, hsent⟩ := h
  cases ha with
  | channelCreate hm =>
    rw [hm] at hprinted
    cases hprinted with
    | setup => exact ⟨[], none, .setup (.inr rfl), houtput, hsent⟩
    | inLine hm => simp at hm
  | pthreadCreate hm =>
    rw [hm] at hprinted
    cases hprinted with
    | setup => exact ⟨[], none, .msgReceive, houtput, hsent⟩
    | inLine hm => simp at hm
  | @msgReceive n hm hq =>
    rw [hm] at hprinted
    cases hprinted with
    | msgReceive =>
      refine ⟨lines, some 0, .inLine (.inl rfl), ?_, ?_⟩
      · simp [houtput, text, opened]
      · simp only [hsent, hq, reported, Option.elim]
        omega
    | setup hm | inLine hm => simp at hm
  | timerTimeout hm =>
    rw [hm] at hprinted
    cases hprinted with
    | inLine => exact ⟨lines, _, .inLine (.inr (.inr ⟨_, rfl⟩)), houtput, hsent⟩
    | setup hm => simp at hm
  | timedOut hm | receiveFails hm =>
    obtain ⟨n, rfl⟩ := (hm ▸ hprinted).inLine_cur (.inr ⟨_, rfl⟩)
    exact ⟨lines, _, .inLine (.inr (.inl rfl)), houtput, hsent⟩
  | @receivePulse timeout q hm hq =>
    obtain ⟨n, rfl⟩ := (hm ▸ hprinted).inLine_cur (.inr ⟨_, rfl⟩)
    refine ⟨lines, some (n + 1), .inLine (.inl rfl), ?_, ?_⟩
    · simp [houtput, text, opened, List.replicate_succ']
    · simp only [hsent, hq, reported, Option.elim]
      omega
  | newline hm =>
    obtain ⟨n, rfl⟩ := (hm ▸ hprinted).inLine_cur (.inl rfl)
    refine ⟨lines ++ [n], none, .msgReceive, ?_, ?_⟩
    · simp [houtput, text, line]
    · simp [hsent, reported, opened]
  | mainExits | senderExits => exact ⟨lines, cur, .exited, houtput, hsent⟩
  | connectAttach | wakes | sendFails => exact ⟨lines, cur, hprinted, houtput, hsent⟩
  | sends =>
    refine ⟨lines, cur, hprinted, houtput, ?_⟩
    show s.sent + 1 = s.queued + 1 + reported lines cur
    omega

theorem reports_of_run {h : List (System × Event)} (hrun : threads.Run h s) : Reports s := by
  apply hrun.invariant
  · rintro s rfl
    exact reports_start
  · exact fun s e ha hs => hs.act (next_act ha)

/-! ## The main thread waits -/

def Event.isMain : Event → Bool
  | .main _ => true
  | .sender _ => false

/-- The steps that the main thread can take before it waits for a pulse. -/
def System.ahead (s : System) : Nat :=
  match s.main with
  | .channelCreate => 4 * s.queued + 3
  | .pthreadCreate => 4 * s.queued + 2
  | .msgReceive => 4 * s.queued + 1
  | .timerTimeout => 4 * s.queued + 4
  | .msgReceivePulse _ => 4 * s.queued + 3
  | .newline => 4 * s.queued + 2
  | .exited => 0

/-- The main thread takes one of its steps, and a pulse is worth four. -/
theorem Act.ahead (ha : Act s e s') :
    s'.ahead + (if e.isMain then 1 else 0) ≤ s.ahead + if e.isMain then 0 else 4 := by
  cases ha with
  | channelCreate hm | pthreadCreate hm | timerTimeout hm | newline hm =>
    simp [System.ahead, Event.isMain, hm]
  | msgReceive hm hq =>
    simp only [System.ahead, Event.isMain, hm, hq, if_true]
    omega
  | timedOut hm hq => simp [System.ahead, Event.isMain, hm, hq]
  | receivePulse hm hq =>
    simp only [System.ahead, Event.isMain, hm, hq, if_true]
    omega
  | receiveFails hm => simp [System.ahead, Event.isMain, hm]
  | mainExits hm => rcases hm with hm | hm | hm <;> simp [System.ahead, Event.isMain, hm]
  | senderExits => simp [System.ahead, Event.isMain]
  | connectAttach | wakes | sendFails => simp [System.ahead, Event.isMain]
  | sends => cases hm : s.main <;> simp [System.ahead, Event.isMain, hm] <;> omega

theorem ahead_of_run {h : List (System × Event)} (hrun : threads.Run h s) :
    h.countP (·.2.isMain) + s.ahead ≤ 4 * h.countP (!·.2.isMain) + 3 := by
  induction hrun with
  | init hs =>
    cases hs
    decide
  | @step h s e hrun ha ih =>
    have hnext := (next_act ha).ahead
    simp only [List.countP_append, List.countP_singleton]
    cases hmain : e.isMain <;> simp [hmain] at hnext ⊢ <;> omega

/-- **Every pulse is received, and reported once.** -/
theorem receives_all (h : List (System × Event)) (s : System) (hrun : threads.Run h s) :
    (∃ lines cur, Printed s.main lines cur ∧ s.output = text lines cur ∧
      s.sent = s.queued + reported lines cur) ∧
    h.countP (·.2.isMain) ≤ 4 * h.countP (!·.2.isMain) + 3 := by
  refine ⟨reports_of_run hrun, ?_⟩
  have hahead := ahead_of_run hrun
  omega

/-! ## Bursts that are not interrupted -/

/-- No call fails, the main thread does not run during a burst, and there is no burst before it
waits again. -/
def Apart : System × Event → Prop
  | (s, .main fails) =>
    fails = false ∧ (s.sender = .notCreated ∨ s.sender = .connectAttach ∨ s.sender = .sleep)
  | (s, .sender fails) =>
    fails = false ∧ (s.sender = .sleep → s.main = .msgReceive ∧ s.queued = 0)

instance : DecidablePred Apart
  | (_, .main _) => inferInstanceAs (Decidable (_ ∧ _))
  | (_, .sender _) => inferInstanceAs (Decidable (_ ∧ _))

/-- Where the threads are after `n` bursts: with a part of a burst sent, and then with a part of it
received. -/
inductive Cycle (n : Nat) : System → Prop
  | setup {m : MainPc} : n = 0 → m = .channelCreate ∨ m = .pthreadCreate →
      Cycle n ⟨m, .notCreated, 0, 0, [.starting]⟩
  | idle {p : SenderPc} : p = .connectAttach ∨ p = .sleep →
      Cycle n ⟨.msgReceive, p, 0, 7 * n, text (List.replicate n 6) none⟩
  | burst {i : Nat} : i < 7 →
      Cycle n ⟨.msgReceive, .msgSendPulse i, i, 7 * n + i, text (List.replicate n 6) none⟩
  | full : Cycle n ⟨.msgReceive, .sleep, 7, 7 * n + 7, text (List.replicate n 6) none⟩
  | inLine {m : MainPc} {k q : Nat} : m = .timerTimeout ∨ m = .msgReceivePulse true → k + q = 6 →
      Cycle n ⟨m, .sleep, q, 7 * n + 7, text (List.replicate n 6) (some k)⟩
  | newline : Cycle n ⟨.newline, .sleep, 0, 7 * n + 7, text (List.replicate n 6) (some 6)⟩

theorem Cycle.act {n : Nat} (h : Cycle n s) (ha : Act s e s') (hapart : Apart (s, e)) :
    ∃ n, Cycle n s' := by
  cases ha with
  | channelCreate hm =>
    cases h with
    | setup hn => exact ⟨n, .setup hn (.inr rfl)⟩
    | inLine hinLine => rcases hinLine with rfl | rfl <;> cases hm
    | idle | burst | full | newline => cases hm
  | pthreadCreate hm =>
    cases h with
    | setup hn =>
      subst hn
      exact ⟨0, .idle (.inl rfl)⟩
    | inLine hinLine => rcases hinLine with rfl | rfl <;> cases hm
    | idle | burst | full | newline => cases hm
  | msgReceive hm hq =>
    cases h with
    | setup _ hsetup => rcases hsetup with rfl | rfl <;> cases hm
    | idle => cases hq
    | burst => rcases hapart.2 with hs | hs | hs <;> cases hs
    | full =>
      cases hq
      have hcycle : Cycle n _ := .inLine (.inl rfl) (Nat.zero_add 6)
      exact ⟨n, by simpa [text, opened] using hcycle⟩
    | inLine hinLine => rcases hinLine with rfl | rfl <;> cases hm
    | newline => cases hm
  | timerTimeout hm =>
    cases hapart.1
    cases h with
    | setup _ hsetup => rcases hsetup with rfl | rfl <;> cases hm
    | inLine _ hk => exact ⟨n, .inLine (.inr rfl) hk⟩
    | idle | burst | full | newline => cases hm
  | timedOut hm hq =>
    cases h with
    | setup _ hsetup => rcases hsetup with rfl | rfl <;> cases hm
    | inLine _ hk =>
      cases hq
      cases hk
      exact ⟨n, .newline⟩
    | idle | burst | full | newline => cases hm
  | receivePulse hm hq =>
    cases h with
    | setup _ hsetup => rcases hsetup with rfl | rfl <;> cases hm
    | @inLine _ k q _ hk =>
      cases hq
      have hcycle : Cycle n _ := .inLine (.inl rfl) ((Nat.succ_add_eq_add_succ k _).trans hk)
      exact ⟨n, by simpa [text, opened, List.replicate_succ'] using hcycle⟩
    | idle | burst | full | newline => cases hm
  | newline hm =>
    cases h with
    | setup _ hsetup => rcases hsetup with rfl | rfl <;> cases hm
    | inLine hinLine => rcases hinLine with rfl | rfl <;> cases hm
    | idle | burst | full => cases hm
    | newline =>
      have hcycle : Cycle (n + 1) _ := .idle (.inr rfl)
      exact ⟨n + 1, by simpa [text, line, List.replicate_succ', Nat.mul_succ] using hcycle⟩
  | receiveFails | mainExits | senderExits | sendFails => cases hapart.1
  | connectAttach hs =>
    cases h with
    | idle => exact ⟨n, .idle (.inr rfl)⟩
    | setup | burst | full | inLine | newline => cases hs
  | wakes hs =>
    obtain ⟨hm, hq⟩ := hapart.2 hs
    cases h with
    | idle => exact ⟨n, .burst (by decide)⟩
    | full => cases hq
    | inLine hinLine => rcases hinLine with rfl | rfl <;> cases hm
    | newline => cases hm
    | setup | burst => cases hs
  | @sends i hs =>
    cases h with
    | @burst j hj =>
      cases hs
      by_cases hi : i + 1 < 7
      · rw [nextPulse, if_pos hi]
        exact ⟨n, .burst hi⟩
      · have hsix : i = 6 := by omega
        subst hsix
        exact ⟨n, .full⟩
    | idle hidle => rcases hidle with rfl | rfl <;> cases hs
    | setup | full | inLine | newline => cases hs

theorem cycle_of_run {h : List (System × Event)} (hrun : threads.Run h s)
    (hapart : ∀ p ∈ h, Apart p) : ∃ n, Cycle n s := by
  induction hrun with
  | init hs =>
    cases hs
    exact ⟨0, .setup rfl (.inl rfl)⟩
  | @step h s e hrun ha ih =>
    obtain ⟨hbefore, hlast⟩ := List.forall_mem_append.1 hapart
    obtain ⟨n, hcycle⟩ := ih hbefore
    exact hcycle.act (next_act ha) (hlast (s, e) (List.mem_singleton_self _))

theorem text_cur_le {n k : Nat} (hk : k ≤ 6) :
    text (List.replicate n 6) (some k) <+: text (List.replicate (n + 1) 6) none := by
  refine ⟨List.replicate (6 - k) .pulse ++ [.newline], ?_⟩
  have hopened := opened_append k (6 - k)
  rw [Nat.add_sub_cancel' hk] at hopened
  simp [text, line, List.replicate_succ' (n := n), ← hopened]

/-- **Every burst is reported in a line of its own.** -/
theorem one_line_for_each_burst (h : List (System × Event)) (s : System) (hrun : threads.Run h s)
    (hapart : ∀ p ∈ h, Apart p) : ∃ n, s.output <+: text (List.replicate n 6) none ∧
      (s.main = .msgReceive → s.sender = .sleep → s.queued = 0 →
        s.sent = 7 * n ∧ s.output = text (List.replicate n 6) none) := by
  obtain ⟨n, hcycle⟩ := cycle_of_run hrun hapart
  cases hcycle with
  | setup hn hm => exact ⟨0, by simp [text], by rintro ⟨⟩ ⟨⟩⟩
  | idle => exact ⟨n, List.prefix_refl _, fun _ _ _ => ⟨rfl, rfl⟩⟩
  | burst => exact ⟨n, List.prefix_refl _, by rintro ⟨⟩ ⟨⟩⟩
  | full => exact ⟨n, List.prefix_refl _, by rintro ⟨⟩ ⟨⟩ ⟨⟩⟩
  | inLine hm hk =>
    refine ⟨n + 1, text_cur_le (by omega), ?_⟩
    rintro ⟨⟩
    simp at hm
  | newline => exact ⟨n + 1, text_cur_le (Nat.le_refl 6), by rintro ⟨⟩⟩

/-- The first burst, and the main thread that reports it. -/
def firstBurst : List Event :=
  List.replicate 2 (.main false) ++ List.replicate 9 (.sender false) ++
    List.replicate 16 (.main false)

theorem run_firstBurst :
    threads.Run (threads.trace start firstBurst) (firstBurst.foldl threads.next start) := by
  have hinit : threads.Run [] start := .init rfl
  have hallowed : ∀ p ∈ threads.trace start firstBurst, (step p.1 p.2).isSome := by decide
  exact hinit.trace hallowed

theorem receives_all_firstBurst : (firstBurst.foldl threads.next start).sent = 7 ∧
    ∃ lines cur, (firstBurst.foldl threads.next start).output = text lines cur ∧
      reported lines cur = 7 := by
  obtain ⟨⟨lines, cur, -, houtput, hsent⟩, -⟩ := receives_all _ _ run_firstBurst
  refine ⟨rfl, lines, cur, houtput, ?_⟩
  have hzero : (firstBurst.foldl threads.next start).queued = 0 := rfl
  have hseven : (firstBurst.foldl threads.next start).sent = 7 := rfl
  omega

theorem one_line_for_firstBurst : ∃ n, (firstBurst.foldl threads.next start).sent = 7 * n ∧
    (firstBurst.foldl threads.next start).output = text (List.replicate n 6) none := by
  have hapart : ∀ p ∈ threads.trace start firstBurst, Apart p := by decide
  obtain ⟨n, -, hwaits⟩ := one_line_for_each_burst _ _ run_firstBurst hapart
  exact ⟨n, hwaits rfl rfl rfl⟩

end QnxTutorial.NonblockPulseRec
