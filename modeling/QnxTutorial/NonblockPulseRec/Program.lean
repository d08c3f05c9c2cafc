import QnxTutorial.Machine

/-!
# The threads of `nonblockpulserec.c`

A thread sends bursts of pulses. The main thread receives one, and then all that are in the queue,
before it goes back to the main loop: `TimerTimeout` makes `MsgReceivePulse` return when there is
none. Any call may fail. All the pulses are equal, so that the queue is a number.
-/

namespace QnxTutorial.NonblockPulseRec

/-- Control points of the main thread, named after the next call. There is no timeout for
`MsgReceivePulse` if `TimerTimeout` has failed. When the main thread exits, so does the process. -/
inductive MainPc where
  | channelCreate
  | pthreadCreate
  | msgReceive
  | timerTimeout
  | msgReceivePulse (timeout : Bool)
  | newline
  | exited
  deriving DecidableEq

inductive SenderPc where
  | notCreated
  | connectAttach
  | sleep
  | msgSendPulse (i : Nat)
  deriving DecidableEq

/-- What the main thread prints to stdout. -/
inductive Text where
  | starting
  | received
  | pulse
  | newline
  deriving DecidableEq

/-- The threads, with the pulses that are queued and the number of those sent so far. -/
structure System where
  main : MainPc
  sender : SenderPc
  queued : Nat
  sent : Nat
  output : List Text
  deriving DecidableEq

def start : System := ⟨.channelCreate, .notCreated, 0, 0, [.starting]⟩

/-- The next pulse of the burst, or the next burst. -/
def nextPulse (i : Nat) : SenderPc := if i + 1 < 7 then .msgSendPulse (i + 1) else .sleep

/-- A step of the main thread, unless it is blocked. -/
def mainThread (fails : Bool) (s : System) : Option System :=
  match s.main with
  | .channelCreate => some { s with main := if fails then .exited else .pthreadCreate }
  | .pthreadCreate => some <| if fails then { s with main := .exited }
      else { s with main := .msgReceive, sender := .connectAttach }
  | .msgReceive =>
    if fails then some { s with main := .exited }
    else match s.queued with
      | 0 => none
      | n + 1 => some { s with
          main := .timerTimeout
          queued := n
          output := s.output ++ [.received] }
  | .timerTimeout => some { s with main := .msgReceivePulse !fails }
  | .msgReceivePulse timeout =>
    if fails then some { s with main := .newline }
    else match s.queued with
      | 0 => if timeout then some { s with main := .newline } else none
      | n + 1 => some { s with
          main := .timerTimeout
          queued := n
          output := s.output ++ [.pulse] }
  | .newline => some { s with main := .msgReceive, output := s.output ++ [.newline] }
  | .exited => none

/-- A step of `pulse_sender_thread`. -/
def pulseSenderThread (fails : Bool) (s : System) : Option System :=
  if s.main = .exited then none
  else match s.sender with
    | .notCreated => none
    | .connectAttach => some <| if fails then { s with main := .exited }
        else { s with sender := .sleep }
    | .sleep => some { s with sender := .msgSendPulse 0 }
    | .msgSendPulse i => some <| if fails then { s with sender := nextPulse i }
        else { s with sender := nextPulse i, queued := s.queued + 1, sent := s.sent + 1 }

inductive Event where
  | main (fails : Bool)
  | sender (fails : Bool)
  deriving DecidableEq

def step (s : System) : Event → Option System
  | .main fails => mainThread fails s
  | .sender fails => pulseSenderThread fails s

def threads : Machine System Event where
  init s := s = start
  allowed s e := (step s e).isSome
  next s e := (step s e).getD s

/-! ## What a step does -/

inductive Act (s : System) : Event → System → Prop
  | channelCreate : s.main = .channelCreate →
      Act s (.main false) { s with main := .pthreadCreate }
  | pthreadCreate : s.main = .pthreadCreate →
      Act s (.main false) { s with main := .msgReceive, sender := .connectAttach }
  | msgReceive {n : Nat} : s.main = .msgReceive → s.queued = n + 1 → Act s (.main false)
      { s with main := .timerTimeout, queued := n, output := s.output ++ [.received] }
  | timerTimeout {fails : Bool} : s.main = .timerTimeout →
      Act s (.main fails) { s with main := .msgReceivePulse !fails }
  | timedOut : s.main = .msgReceivePulse true → s.queued = 0 →
      Act s (.main false) { s with main := .newline }
  | receivePulse {timeout : Bool} {n : Nat} : s.main = .msgReceivePulse timeout →
      s.queued = n + 1 → Act s (.main false)
        { s with main := .timerTimeout, queued := n, output := s.output ++ [.pulse] }
  | receiveFails {timeout : Bool} : s.main = .msgReceivePulse timeout →
      Act s (.main true) { s with main := .newline }
  | newline {fails : Bool} : s.main = .newline →
      Act s (.main fails) { s with main := .msgReceive, output := s.output ++ [.newline] }
  | mainExits : s.main = .channelCreate ∨ s.main = .pthreadCreate ∨ s.main = .msgReceive →
      Act s (.main true) { s with main := .exited }
  | senderExits : s.sender = .connectAttach → Act s (.sender true) { s with main := .exited }
  | connectAttach : s.sender = .connectAttach → Act s (.sender false) { s with sender := .sleep }
  | wakes {fails : Bool} : s.sender = .sleep →
      Act s (.sender fails) { s with sender := .msgSendPulse 0 }
  | sends {i : Nat} : s.sender = .msgSendPulse i → Act s (.sender false)
      { s with sender := nextPulse i, queued := s.queued + 1, sent := s.sent + 1 }
  | sendFails {i : Nat} : s.sender = .msgSendPulse i →
      Act s (.sender true) { s with sender := nextPulse i }

theorem mainThread_act {fails : Bool} {s s' : System} (h : mainThread fails s = some s') :
    Act s (.main fails) s' := by
  unfold mainThread at h
  cases hm : s.main with
  | channelCreate =>
    simp only [hm, Option.some.injEq] at h
    subst h
    cases fails with
    | true => exact .mainExits (.inl hm)
    | false => exact .channelCreate hm
  | pthreadCreate =>
    simp only [hm, Option.some.injEq] at h
    subst h
    cases fails with
    | true => exact .mainExits (.inr (.inl hm))
    | false => exact .pthreadCreate hm
  | msgReceive =>
    simp only [hm] at h
    cases fails with
    | true =>
      cases h
      exact .mainExits (.inr (.inr hm))
    | false =>
      cases hq : s.queued with
      | zero => simp [hq] at h
      | succ n =>
        simp only [hq, Bool.false_eq_true, if_false, Option.some.injEq] at h
        subst h
        exact .msgReceive hm hq
  | timerTimeout =>
    simp only [hm, Option.some.injEq] at h
    subst h
    exact .timerTimeout hm
  | msgReceivePulse timeout =>
    simp only [hm] at h
    cases fails with
    | true =>
      cases h
      exact .receiveFails hm
    | false =>
      cases hq : s.queued with
      | zero =>
        cases timeout with
        | true =>
          simp only [hq, Bool.false_eq_true, if_false, if_true, Option.some.injEq] at h
          subst h
          have hact := Act.timedOut hm hq
          rwa [hq] at hact
        | false => simp [hq] at h
      | succ n =>
        simp only [hq, Bool.false_eq_true, if_false, Option.some.injEq] at h
        subst h
        exact .receivePulse hm hq
  | newline =>
    simp only [hm, Option.some.injEq] at h
    subst h
    exact .newline hm
  | exited => simp [hm] at h

theorem pulseSenderThread_act {fails : Bool} {s s' : System}
    (h : pulseSenderThread fails s = some s') : s.main ≠ .exited ∧ Act s (.sender fails) s' := by
  unfold pulseSenderThread at h
  by_cases hm : s.main = .exited
  · simp [hm] at h
  · refine ⟨hm, ?_⟩
    rw [if_neg hm] at h
    cases hs : s.sender with
    | notCreated => simp [hs] at h
    | connectAttach =>
      simp only [hs, Option.some.injEq] at h
      subst h
      cases fails with
      | true =>
        have hact := Act.senderExits hs
        rwa [hs] at hact
      | false => exact .connectAttach hs
    | sleep =>
      simp only [hs, Option.some.injEq] at h
      subst h
      exact .wakes hs
    | msgSendPulse i =>
      simp only [hs, Option.some.injEq] at h
      subst h
      cases fails with
      | true => exact .sendFails hs
      | false => exact .sends hs

theorem next_act {e : Event} {s : System} (ha : threads.allowed s e) :
    Act s e (threads.next s e) := by
  obtain ⟨s', hs'⟩ := Option.isSome_iff_exists.1 ha
  rw [show threads.next s e = (step s e).getD s from rfl, hs', Option.getD_some]
  cases e with
  | main fails => exact mainThread_act hs'
  | sender fails => exact (pulseSenderThread_act hs').2

end QnxTutorial.NonblockPulseRec
