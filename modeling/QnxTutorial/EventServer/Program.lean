import Mathlib.Tactic.SplitIfs
import QnxTutorial.Monitor.Schedule
import QnxTutorial.Neutrino
import QnxTutorial.Registry

/-!
# The two threads of `event_server.c`

The main thread receives messages and pulses and keeps one registration in `save_rcvid`,
`save_event` and `save_scoid`; `notify_thread` delivers the saved event once a second. Both use the
mutex `save_data_mutex` around the saved data. Each assignment is a step of its own; outcomes of
the kernel calls that exit the process have no step.

`log` is a history variable: what each critical section did, in the order of the sections. A
registration is logged with the `save_scoid` and the `notify_count` that its section found.
Messages and pulses that are handled without a critical section leave no entry.
-/

namespace QnxTutorial.EventServer

open Monitor RecvBuf

/-! ## Data -/

/-- `struct sigevent`: the flags and the value that the server looks at, and all other bytes. -/
structure Sigevent where
  sigevNotify : BitVec 32
  sivalInt : BitVec 32
  others : List Byte
  deriving DecidableEq

/-- The events agree in every field except the value. -/
def Sigevent.SameButValue (e e' : Sigevent) : Prop :=
  e.sigevNotify = e'.sigevNotify ∧ e.others = e'.others

/-- The system headers, with the layout of `struct notification_request_msg`. The event lies in the
bytes of the message. -/
structure Headers extends Neutrino where
  flagUpdateable : BitVec 32
  sizeofRequest : ℕ
  clientEv : Buf → Sigevent
  clientEv_congr : ∀ {b b'}, Agree sizeofRequest b b' → clientEv b = clientEv b'

/-- The layout on a 64-bit system: the event is at 8, its value at 16. -/
def Headers.x86_64 : Headers where
  toNeutrino := .x86_64
  flagUpdateable := 0x2000
  sizeofRequest := 32
  clientEv b := ⟨u32 b 8, u32 b 16, (List.range' 12 4 ++ List.range' 20 12).map b⟩
  clientEv_congr h := by
    rw [h.u32 (by decide), h.u32 (by decide), List.map_congr_left fun i hi => h i ?_]
    simp only [List.mem_append, List.mem_range'_1] at hi
    omega

/-- `REQUEST_NOTIFICATIONS`. -/
def Headers.requestNotifications (H : Headers) : ℕ := H.ioMax + 100

/-- `sizeof(recv_buf)`, a union. -/
def Headers.sizeofRecvBuf (H : Headers) : ℕ := max (max H.sizeofRequest H.sizeofPulse) 2

def Headers.Updateable (H : Headers) (e : Sigevent) : Prop :=
  e.sigevNotify &&& H.flagUpdateable ≠ 0

instance (H : Headers) (e : Sigevent) : Decidable (H.Updateable e) :=
  inferInstanceAs (Decidable (_ ≠ _))

/-- A message, with what the kernel says about it. Receive and connection ids are not zero. -/
structure Message where
  rcvid : ℤ
  scoid : ℤ
  bytes : List Byte
  rcvid_ne : rcvid ≠ 0
  scoid_ne : scoid ≠ 0

/-- The message has all the bytes of a `notification_request_msg`. -/
def Message.Complete (H : Headers) (m : Message) : Prop := H.sizeofRequest ≤ m.bytes.length

instance (H : Headers) (m : Message) : Decidable (m.Complete H) :=
  inferInstanceAs (Decidable (_ ≤ _))

/-- The event in the bytes of the message, where those that are missing are zero. -/
def Message.event (H : Headers) (m : Message) : Sigevent :=
  H.clientEv (receive H.sizeofRecvBuf m.bytes fun _ => 0)

/-- A complete message leaves its own event in the buffer, whatever was there. -/
theorem clientEv_receive {H : Headers} {m : Message} (hm : m.Complete H) (buf : Buf) :
    H.clientEv (receive H.sizeofRecvBuf m.bytes buf) = m.event H := by
  have hsize : H.sizeofRequest ≤ H.sizeofRecvBuf := by
    unfold Headers.sizeofRecvBuf
    omega
  exact H.clientEv_congr (receive_agree hsize hsize hm buf _)

/-- A registration: the message, the event that `MsgVerifyEvent` accepted, and the `save_scoid` and
`notify_count` found at the time. -/
structure Registration where
  msg : Message
  ev : Sigevent
  foundScoid : ℤ
  foundCount : BitVec 32

/-- What a critical section did: register, handle a disconnect pulse, or notify (`none` if it did
not call `MsgDeliverEvent`). -/
inductive Entry where
  | registered (r : Registration)
  | disconnected (scoid : ℤ)
  | notified (delivery : Option (ℤ × Sigevent))

/-- The globals. -/
structure Shared where
  recvBuf : Buf
  saveRcvid : ℤ
  saveScoid : ℤ
  saveEvent : Sigevent
  notifyCount : BitVec 32
  log : List Entry

/-- The globals before `main`: the client data is zero, the buffer and the event are anything. -/
def Start (s : Shared) : Prop :=
  s.saveRcvid = 0 ∧ s.saveScoid = 0 ∧ s.notifyCount = 0 ∧ s.log = []

/-- The globals at the start, with nothing in the buffer and the event. -/
def start : Shared := ⟨fun _ => 0, 0, 0, ⟨0, 0, []⟩, 0, []⟩

/-- From outside: what `MsgReceive` returns, or how a kernel call ends that does not exit. -/
inductive Input where
  | pulse (bytes : List Byte)
  | message (m : Message)
  | result (ok : Bool)

/-! ## The main thread -/

/-- Control points of `main`, named after the next call or the variable that is next tested or set.
-/
inductive MainPc where
  | receive
  | verify (m : Message)
  | lockRequest (m : Message)
  | setRcvid (m : Message)
  | setEvent (m : Message)
  | setScoid (m : Message)
  | unlockRequest (m : Message)
  | reply (m : Message)
  | lockDisconnect
  | testScoid
  | clearScoid
  | clearRcvid
  | clearCount
  | unlockDisconnect
  | detach

def MainPc.holds : MainPc → Bool
  | .setRcvid _ | .setEvent _ | .setScoid _ | .unlockRequest _ | .testScoid | .clearScoid
  | .clearRcvid | .clearCount | .unlockDisconnect => true
  | .receive | .verify _ | .lockRequest _ | .reply _ | .lockDisconnect | .detach => false

variable (H : Headers)

/-- One round of the receive loop up to the next call: pulses other than a disconnect and messages
of another type are answered and done with. -/
def dispatch : Input → Shared → Option (Shared × MainPc)
  | .pulse bytes, s =>
    let buf := RecvBuf.receive H.sizeofRecvBuf bytes s.recvBuf
    some ({ s with recvBuf := buf },
      if H.pulseCode buf = H.pulseCodeDisconnect then .lockDisconnect else .receive)
  | .message m, s =>
    let buf := RecvBuf.receive H.sizeofRecvBuf m.bytes s.recvBuf
    some ({ s with recvBuf := buf },
      if (u16 buf 0).toNat = H.requestNotifications then .verify m else .receive)
  | .result _, _ => none

/-- `main`, after it has created `notify_thread`. -/
def main : MainPc → Instr Shared Input MainPc
  | .receive => .act (dispatch H)
  | .verify m => .act fun
      | .result ok, s => some (s, if ok then .lockRequest m else .receive)
      | _, _ => none
  | .lockRequest m => .lock (.setRcvid m)
  | .setRcvid m => .act fun _ s => some ({ s with saveRcvid := m.rcvid }, .setEvent m)
  | .setEvent m => .act fun _ s =>
      some ({ s with saveEvent := H.clientEv s.recvBuf }, .setScoid m)
  | .setScoid m => .act fun _ s =>
      some ({ s with
        saveScoid := m.scoid
        log := s.log ++
          [.registered ⟨m, H.clientEv s.recvBuf, s.saveScoid, s.notifyCount⟩] },
        .unlockRequest m)
  | .unlockRequest m => .unlock (.reply m)
  | .reply _ => .act fun _ s => some (s, .receive)
  | .lockDisconnect => .lock .testScoid
  | .testScoid => .act fun _ s =>
      let scoid := H.pulseScoid s.recvBuf
      some ({ s with log := s.log ++ [.disconnected scoid] },
        if s.saveScoid = scoid then .clearScoid else .unlockDisconnect)
  | .clearScoid => .act fun _ s => some ({ s with saveScoid := 0 }, .clearRcvid)
  | .clearRcvid => .act fun _ s => some ({ s with saveRcvid := 0 }, .clearCount)
  | .clearCount => .act fun _ s => some ({ s with notifyCount := 0 }, .unlockDisconnect)
  | .unlockDisconnect => .unlock .detach
  | .detach => .act fun _ s => some (s, .receive)

/-! ## The notification thread -/

/-- Control points of `notify_thread`. `save_event.sigev_value.sival_int = notify_count++` is three
of them. -/
inductive NotifyPc where
  | lock
  | testRcvid
  | testFlag
  | readCount
  | writeCount (n : BitVec 32)
  | writeValue (n : BitVec 32)
  | deliver
  | unlock
  deriving DecidableEq

def NotifyPc.holds : NotifyPc → Bool
  | .testRcvid | .testFlag | .readCount | .writeCount _ | .writeValue _ | .deliver | .unlock => true
  | .lock => false

/-- `notify_thread`. -/
def notifyThread : NotifyPc → Instr Shared Input NotifyPc
  | .lock => .lock .testRcvid
  | .testRcvid => .act fun _ s =>
      if s.saveRcvid ≠ 0 then some (s, .testFlag)
      else some ({ s with log := s.log ++ [.notified none] }, .unlock)
  | .testFlag => .act fun _ s =>
      some (s, if H.Updateable s.saveEvent then .readCount else .deliver)
  | .readCount => .act fun _ s => some (s, .writeCount s.notifyCount)
  | .writeCount n => .act fun _ s => some ({ s with notifyCount := n + 1 }, .writeValue n)
  | .writeValue n => .act fun _ s =>
      some ({ s with saveEvent := { s.saveEvent with sivalInt := n } }, .deliver)
  | .deliver => .act fun _ s =>
      some ({ s with log := s.log ++ [.notified (some (s.saveRcvid, s.saveEvent))] }, .unlock)
  | .unlock => .unlock .lock

/-! ## What an act does -/

/-- The acts of the main thread. -/
inductive MainAct : MainPc → Shared → Shared → MainPc → Prop
  | message {s : Shared} {m : Message} : MainAct .receive s
      { s with recvBuf := RecvBuf.receive H.sizeofRecvBuf m.bytes s.recvBuf } (.verify m)
  | other {s : Shared} {buf : Buf} {k : MainPc} : k = .lockDisconnect ∨ k = .receive →
      MainAct .receive s { s with recvBuf := buf } k
  | verified {s : Shared} {m : Message} : MainAct (.verify m) s s (.lockRequest m)
  | done {s : Shared} {pc : MainPc} : pc.holds = false → MainAct pc s s .receive
  | setRcvid {s : Shared} {m : Message} :
      MainAct (.setRcvid m) s { s with saveRcvid := m.rcvid } (.setEvent m)
  | setEvent {s : Shared} {m : Message} :
      MainAct (.setEvent m) s { s with saveEvent := H.clientEv s.recvBuf } (.setScoid m)
  | setScoid {s : Shared} {m : Message} :
      MainAct (.setScoid m) s { s with
        saveScoid := m.scoid
        log := s.log ++
          [.registered ⟨m, H.clientEv s.recvBuf, s.saveScoid, s.notifyCount⟩] }
        (.unlockRequest m)
  | ours {s : Shared} : s.saveScoid = H.pulseScoid s.recvBuf →
      MainAct .testScoid s { s with log := s.log ++ [.disconnected (H.pulseScoid s.recvBuf)] }
        .clearScoid
  | notOurs {s : Shared} : s.saveScoid ≠ H.pulseScoid s.recvBuf →
      MainAct .testScoid s { s with log := s.log ++ [.disconnected (H.pulseScoid s.recvBuf)] }
        .unlockDisconnect
  | clearScoid {s : Shared} : MainAct .clearScoid s { s with saveScoid := 0 } .clearRcvid
  | clearRcvid {s : Shared} : MainAct .clearRcvid s { s with saveRcvid := 0 } .clearCount
  | clearCount {s : Shared} : MainAct .clearCount s { s with notifyCount := 0 } .unlockDisconnect

/-- The acts of the notification thread. -/
inductive NotifyAct : NotifyPc → Shared → Shared → NotifyPc → Prop
  | nobody {s : Shared} : s.saveRcvid = 0 →
      NotifyAct .testRcvid s { s with log := s.log ++ [.notified none] } .unlock
  | somebody {s : Shared} : s.saveRcvid ≠ 0 → NotifyAct .testRcvid s s .testFlag
  | update {s : Shared} : H.Updateable s.saveEvent → NotifyAct .testFlag s s .readCount
  | asIs {s : Shared} : ¬ H.Updateable s.saveEvent → NotifyAct .testFlag s s .deliver
  | readCount {s : Shared} : NotifyAct .readCount s s (.writeCount s.notifyCount)
  | writeCount {s : Shared} {n : BitVec 32} :
      NotifyAct (.writeCount n) s { s with notifyCount := n + 1 } (.writeValue n)
  | writeValue {s : Shared} {n : BitVec 32} :
      NotifyAct (.writeValue n) s { s with saveEvent := { s.saveEvent with sivalInt := n } }
        .deliver
  | deliver {s : Shared} : NotifyAct .deliver s
      { s with log := s.log ++ [.notified (some (s.saveRcvid, s.saveEvent))] } .unlock

variable {H}

theorem main_act {pc k : MainPc} {f : Input → Shared → Option (Shared × MainPc)} {e : Input}
    {s s' : Shared} (hc : main H pc = .act f) (hf : f e s = some (s', k)) :
    MainAct H pc s s' k := by
  cases pc with
  | lockRequest | unlockRequest | lockDisconnect | unlockDisconnect => cases hc
  | receive =>
    cases hc
    cases e with
    | result => cases hf
    | pulse bytes =>
      simp only [dispatch, Option.some.injEq, Prod.mk.injEq] at hf
      obtain ⟨rfl, rfl⟩ := hf
      refine .other ?_
      split_ifs
      · exact .inl rfl
      · exact .inr rfl
    | message m =>
      simp only [dispatch, Option.some.injEq, Prod.mk.injEq] at hf
      obtain ⟨rfl, rfl⟩ := hf
      split_ifs
      · exact .message
      · exact .other (.inr rfl)
  | verify m =>
    cases hc
    rcases e with bytes | m' | ok
    · cases hf
    · cases hf
    · cases ok <;> cases hf
      · exact .done rfl
      · exact .verified
  | setRcvid => cases hc; cases hf; exact .setRcvid
  | setEvent => cases hc; cases hf; exact .setEvent
  | setScoid => cases hc; cases hf; exact .setScoid
  | reply => cases hc; cases hf; exact .done rfl
  | testScoid =>
    cases hc
    simp only [Option.some.injEq, Prod.mk.injEq] at hf
    obtain ⟨rfl, rfl⟩ := hf
    split_ifs with h
    · exact .ours h
    · exact .notOurs h
  | clearScoid => cases hc; cases hf; exact .clearScoid
  | clearRcvid => cases hc; cases hf; exact .clearRcvid
  | clearCount => cases hc; cases hf; exact .clearCount
  | detach => cases hc; cases hf; exact .done rfl

theorem notifyThread_act {pc k : NotifyPc} {f : Input → Shared → Option (Shared × NotifyPc)}
    {e : Input} {s s' : Shared} (hc : notifyThread H pc = .act f) (hf : f e s = some (s', k)) :
    NotifyAct H pc s s' k := by
  cases pc with
  | lock | unlock => cases hc
  | testRcvid =>
    cases hc
    simp only at hf
    split_ifs at hf with h <;> cases hf
    · exact .somebody h
    · exact .nobody (not_not.1 h)
  | testFlag =>
    cases hc
    simp only [Option.some.injEq, Prod.mk.injEq] at hf
    obtain ⟨rfl, rfl⟩ := hf
    split_ifs with h
    · exact .update h
    · exact .asIs h
  | readCount => cases hc; cases hf; exact .readCount
  | writeCount => cases hc; cases hf; exact .writeCount
  | writeValue => cases hc; cases hf; exact .writeValue
  | deliver => cases hc; cases hf; exact .deliver

/-! ## The program -/

inductive Tid where
  | main
  | notifyThread
  deriving DecidableEq

theorem main_disciplined (pc : MainPc) : (main H pc).Disciplined MainPc.holds pc.holds := by
  cases hc : main H pc with
  | act f =>
    intro e s s' k hf
    cases main_act hc hf with
    | other hk => rcases hk with rfl | rfl <;> rfl
    | done h => exact h.symm
    | _ => rfl
  | _ => cases pc <;> cases hc <;> exact ⟨rfl, rfl⟩

theorem notifyThread_disciplined (pc : NotifyPc) :
    (notifyThread H pc).Disciplined NotifyPc.holds pc.holds := by
  cases hc : notifyThread H pc with
  | act f => exact fun e s s' k hf => by cases notifyThread_act hc hf <;> rfl
  | _ => cases pc <;> cases hc <;> exact ⟨rfl, rfl⟩

/-- The threads of the program. -/
def program (H : Headers) : Program Tid Shared Input where
  Pc
    | .main => MainPc
    | .notifyThread => NotifyPc
  start
    | .main => .receive
    | .notifyThread => .lock
  code
    | .main => main H
    | .notifyThread => notifyThread H
  holds
    | .main => MainPc.holds
    | .notifyThread => NotifyPc.holds
  start_free
    | .main => rfl
    | .notifyThread => rfl
  disciplined
    | .main => main_disciplined
    | .notifyThread => notifyThread_disciplined

/-- Every interleaving of the two threads, with any messages, pulses and results. -/
abbrev Reachable (c : Config (program H)) : Prop := Reach (program H) Start c

/-- Where the notification thread is. -/
def notifyAt (c : Config (program H)) : Thread NotifyPc := c.thread .notifyThread

end QnxTutorial.EventServer
