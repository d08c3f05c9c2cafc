import QnxTutorial.EventServer.Reuse

/-!
# `event_client.c`

The server, the kernel, and any number of clients, of which those in `runs` run `event_client.c` and
the others do what they like. A client registers an event and then prints a line for each pulse. It
may die at any time, as it does when one of its calls fails.

A receive id belongs to the connection of the last message that had it, and the kernel gives it to
no other one before that is detached. `MsgDeliverEvent` sends the pulse to the client at the other
end. The call may fail, and does so if the client is gone. A message stays in the queue when its
client dies.

`request`, `due` and `lost` are history variables of a client: the message that it has sent, the
values that `MsgDeliverEvent` was called with for it, and whether one of these calls has failed.
-/

namespace QnxTutorial.EventServer

open ConnectionIds Monitor RecvBuf

/-! ## A client -/

/-- The system headers, as far as a client needs them. The code is in the other bytes of an event.
-/
structure ClientHeaders extends Headers where
  sigevCode : List Byte → ℤ
  myPulseCode : ℤ

/-- The code is at 24. -/
def ClientHeaders.x86_64 : ClientHeaders where
  toHeaders := .x86_64
  sigevCode others := (others.getD 9 0 ++ others.getD 8 0).toInt
  myPulseCode := 3

/-- Where a client is that has set up and is connected to the server. -/
inductive ClientPc where
  | msgSend
  | sendBlocked
  | replyBlocked
  | msgReceive
  deriving DecidableEq

inductive Line where
  | gotMyPulse (value : BitVec 32)
  | gotUnexpectedPulse (code : ℤ)
  deriving DecidableEq

/-- A client, with the pulses in its channel. -/
structure EventClient where
  pc : ClientPc
  exited : Bool
  queue : List Sigevent
  output : List Line
  request : Option Message
  due : List (BitVec 32)
  lost : Bool

def EventClient.start : EventClient := ⟨.msgSend, false, [], [], none, [], false⟩

variable (H : ClientHeaders)

/-- The message of `event_client.c`: its event is a pulse with its own code, and updateable. -/
structure IsRequest (m : Message) : Prop where
  complete : m.Complete H.toHeaders
  type : (u16 (RecvBuf.receive 2 m.bytes fun _ => 0) 0).toNat = H.requestNotifications
  updateable : H.Updateable (m.event H.toHeaders)
  value : (m.event H.toHeaders).sivalInt = 0
  code : H.sigevCode (m.event H.toHeaders).others = H.myPulseCode

instance (m : Message) : Decidable (IsRequest H m) :=
  decidable_of_iff (H.sizeofRequest ≤ m.bytes.length ∧
      (u16 (RecvBuf.receive 2 m.bytes fun _ => 0) 0).toNat = H.requestNotifications ∧
      H.Updateable (m.event H.toHeaders) ∧ (m.event H.toHeaders).sivalInt = 0 ∧
      H.sigevCode (m.event H.toHeaders).others = H.myPulseCode)
    ⟨fun h => ⟨h.1, h.2.1, h.2.2.1, h.2.2.2.1, h.2.2.2.2⟩,
      fun h => ⟨h.complete, h.type, h.updateable, h.value, h.code⟩⟩

namespace EventClient

/-- `MsgSend`. -/
def send (m : Message) (c : EventClient) : Option EventClient :=
  if c.pc = .msgSend ∧ c.exited = false ∧ IsRequest H m then
    some { c with pc := .sendBlocked, request := some m }
  else none

/-- The server receives the message. -/
def received (m : Message) (c : EventClient) : Option EventClient :=
  if c.pc = .sendBlocked ∧ c.request = some m then some { c with pc := .replyBlocked } else none

/-- `MsgSend` returns, with an error or not. -/
def reply (ok : Bool) (c : EventClient) : EventClient :=
  if c.pc = .replyBlocked then { c with pc := .msgReceive, exited := c.exited || !ok } else c

def exit (c : EventClient) : EventClient := { c with exited := true }

/-- `MsgDeliverEvent` of the server. -/
def deliver (ok : Bool) (ev : Sigevent) (c : EventClient) : EventClient :=
  if ok ∧ c.exited = false then
    { c with queue := c.queue ++ [ev], due := c.due ++ [ev.sivalInt] }
  else { c with due := c.due ++ [ev.sivalInt], lost := true }

/-- The line for a pulse. -/
def line (ev : Sigevent) : Line :=
  if H.sigevCode ev.others = H.myPulseCode then .gotMyPulse ev.sivalInt
  else .gotUnexpectedPulse (H.sigevCode ev.others)

/-- `MsgReceive` returns the next pulse. -/
def receive (c : EventClient) : Option EventClient :=
  match c.pc, c.exited, c.queue with
  | .msgReceive, false, ev :: queue =>
    some { c with queue := queue, output := c.output ++ [line H ev] }
  | _, _, _ => none

end EventClient

/-! ## The clients and the server -/

/-- All clients, by the numbers that the kernel gives them. -/
abbrev Clients := ℕ → EventClient

/-- The clients, and the connection of the last message that had a receive id. -/
structure Outside where
  clients : Clients
  connection : ℤ → ℤ

variable (runs : ℕ → Bool)

/-- What becomes of a client, if it runs `event_client.c`. -/
def onClient (who : Option ℕ) (f : EventClient → Option EventClient) (cs : Clients) :
    Option Clients :=
  match who with
  | some n => if runs n then (f (cs n)).map (Function.update cs n) else some cs
  | none => some cs

def Outside.client (who : Option ℕ) (f : EventClient → Option EventClient) (o : Outside) :
    Option Outside :=
  (onClient runs who f o.clients).map fun cs => { o with clients := cs }

/-- The message `m` comes: its receive id is that of the connection, or of one that is detached. -/
def Outside.receives (m : Message) (w : World) (o : Outside) : Option Outside :=
  if o.connection m.rcvid = m.scoid ∨ w.kernel.owner (o.connection m.rcvid) = none then
    { o with connection := Function.update o.connection m.rcvid m.scoid }.client runs
      (w.kernel.owner m.scoid) (·.received m)
  else none

/-- What the main thread does to the clients. -/
def followMain : MainPc → Input → World → Outside → Option Outside
  | .receive, .message m, w, o => o.receives runs m w
  | .verify m, .result false, w, o =>
    o.client runs (w.kernel.owner m.scoid) fun c => some (c.reply false)
  | .reply m, .result true, w, o =>
    o.client runs (w.kernel.owner m.scoid) fun c => some (c.reply true)
  | _, _, _, o => some o

/-- What the notification thread does to them. -/
def followNotify : NotifyPc → Input → Shared → World → Outside → Option Outside
  | .deliver, .result ok, s, w, o =>
    o.client runs (w.kernel.owner (o.connection s.saveRcvid)) fun c =>
      some (c.deliver ok s.saveEvent)
  | .deliver, _, _, _, _ => none
  | _, _, _, _, o => some o

/-- What the clients do to the kernel. -/
def followAct : Kernel.ClientAct Message → World → Outside → Option Outside
  | .connect _, _, o => some o
  | .again scoid, w, o => o.client runs (w.kernel.owner scoid) fun _ => none
  | .close scoid, w, o => o.client runs (w.kernel.owner scoid) fun c => some c.exit
  | .send scoid m, w, o => o.client runs (w.kernel.owner scoid) (·.send H m)

/-- The clients as the environment of the server and the kernel. -/
def eventClients : Environment (system H.toHeaders) Outside ℕ where
  follow
    | some .main => fun pc e s o => match e with
      | .inl e => followMain runs pc e s.2 o
      | .inr _ => none
    | some .notifyThread => fun pc e s o => match e with
      | .inl e => followNotify runs pc e s.1 s.2 o
      | .inr _ => none
    | none => fun _ e s o => match e with
      | .inl _ => none
      | .inr a => followAct H runs a s.2 o
  event n o := o.client runs (some n) (·.receive H)

/-- The server, the kernel and the clients. -/
abbrev wholeSystem := (system H.toHeaders).within (eventClients H runs)

def WholeStart (s : (Shared × World) × Outside) : Prop :=
  SystemStart s.1 ∧ s.1.2.registrant = none ∧ s.2 = ⟨fun _ => .start, fun _ => 0⟩

/-- Every interleaving of the threads and the clients. -/
abbrev WholeReachable (c : Config (wholeSystem H runs)) : Prop :=
  Reach (wholeSystem H runs) WholeStart c

end QnxTutorial.EventServer
