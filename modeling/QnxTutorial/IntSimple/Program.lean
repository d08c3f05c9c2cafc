import QnxTutorial.Machine

/-!
# The interrupt handlers `intsimple_kbd_ev.c` and `intsimple_kbd_ist.c`

The one has the kernel send a pulse for each interrupt, the other is woken up by the kernel. The
kernel masks an interrupt when it delivers it, and the programs unmask it. The two are the same but
for this and for their setup, and so they are one definition, with a `Program` as its parameter.

A device may request an interrupt at any time, and any call may fail. The channel is private, and
pulses that come to it otherwise do not have the code of the interrupt. The count wraps around.
-/

namespace QnxTutorial.IntSimple

/-- The calls after which the programs exit when they fail. -/
inductive Call where
  | channelCreate
  | connectAttach
  | interruptAttachEvent
  | interruptAttachThread
  | msgReceivePulse
  | interruptWait
  deriving DecidableEq

/-- What is printed, to stdout or stderr. -/
inductive Text where
  | starting
  | count (n : BitVec 32)
  | fails (call : Call)
  | unmaskFails
  | unexpectedPulse (code : Int)
  deriving DecidableEq

/-- What a program is told when it waits. -/
inductive Told (κ : Type) where
  | blocks
  | interrupt (inbox : κ)
  | unexpectedPulse (code : Int) (inbox : κ)

/-- How a program gets its interrupts. `first` and `rest` are its setup, which ends with attaching
the interrupt; `deliver` is what the kernel does with an interrupt, and `pulse` what it does with a
pulse from elsewhere. -/
structure Program (κ : Type) where
  first : Call
  rest : List Call
  wait : Call
  empty : κ
  deliver : κ → κ
  pulse : Int → κ → Option κ
  take : κ → Told κ

/-- `intsimple_kbd_ev.c`, with a queue of pulse codes. -/
def ev (intPulseCode : Int) : Program (List Int) where
  first := .channelCreate
  rest := [.connectAttach, .interruptAttachEvent]
  wait := .msgReceivePulse
  empty := []
  deliver queue := queue ++ [intPulseCode]
  pulse code queue := if code = intPulseCode then none else some (queue ++ [code])
  take
    | [] => .blocks
    | code :: queue => if code = intPulseCode then .interrupt queue else .unexpectedPulse code queue

/-- `intsimple_kbd_ist.c`, with whether the thread is to be woken up. -/
def ist : Program Bool where
  first := .interruptAttachThread
  rest := []
  wait := .interruptWait
  empty := false
  deliver _ := true
  pulse _ _ := none
  take ready := if ready then .interrupt false else .blocks

/-- Control points, named after the next call. -/
inductive Pc where
  | setup (call : Call) (rest : List Call)
  | wait
  | interruptUnmask
  | printf
  | exited
  deriving DecidableEq

/-- The interrupt is attached. -/
def Pc.Attached (pc : Pc) : Prop := pc = .wait ∨ pc = .interruptUnmask ∨ pc = .printf

instance : DecidablePred Pc.Attached :=
  fun _ => inferInstanceAs (Decidable (_ ∨ _))

/-- A program and its device, with a request that is to be delivered, and the number of those that
have been. -/
structure System (κ : Type) where
  pc : Pc
  inbox : κ
  requested : Bool
  masked : Bool
  count : BitVec 32
  delivered : Nat
  output : List Text

variable {κ : Type}

def start (P : Program κ) : System κ :=
  ⟨.setup P.first P.rest, P.empty, false, false, 0#32, 0, [.starting]⟩

/-- The call after a call of the setup. -/
def nextCall : List Call → Pc
  | [] => .wait
  | call :: rest => .setup call rest

def exit (call : Call) (s : System κ) : System κ :=
  { s with pc := .exited, output := s.output ++ [.fails call] }

/-- A step of the program, unless it is blocked or has exited. -/
def main (P : Program κ) (fails : Bool) (s : System κ) : Option (System κ) :=
  match s.pc with
  | .setup call rest => some (if fails then exit call s else { s with pc := nextCall rest })
  | .wait =>
    if fails then some (exit P.wait s)
    else match P.take s.inbox with
      | .blocks => none
      | .interrupt inbox => some { s with pc := .interruptUnmask, inbox := inbox }
      | .unexpectedPulse code inbox =>
        some { s with inbox := inbox, output := s.output ++ [.unexpectedPulse code] }
  | .interruptUnmask => some <| if fails then
      { s with pc := .printf, output := s.output ++ [.unmaskFails] }
    else { s with pc := .printf, masked := false }
  | .printf => some { s with
      pc := .wait
      count := s.count + 1#32
      output := s.output ++ [.count s.count] }
  | .exited => none

/-- The kernel delivers a requested interrupt that is attached and not masked. -/
def deliver (P : Program κ) (s : System κ) : Option (System κ) :=
  if s.pc.Attached ∧ s.requested = true ∧ s.masked = false then
    some { s with
      inbox := P.deliver s.inbox
      requested := false
      masked := true
      delivered := s.delivered + 1 }
  else none

inductive Event where
  | main (fails : Bool)
  | request
  | deliver
  | pulse (code : Int)
  deriving DecidableEq

def step (P : Program κ) (s : System κ) : Event → Option (System κ)
  | .main fails => main P fails s
  | .request => some { s with requested := true }
  | .deliver => deliver P s
  | .pulse code => (P.pulse code s.inbox).map fun inbox => { s with inbox := inbox }

def machine (P : Program κ) : Machine (System κ) Event where
  init s := s = start P
  allowed s e := (step P s e).isSome
  next s e := (step P s e).getD s

/-! ## What a step does -/

inductive Act (P : Program κ) (s : System κ) : Event → System κ → Prop
  | setup {call : Call} {rest : List Call} : s.pc = .setup call rest →
      Act P s (.main false) { s with pc := nextCall rest }
  | setupFails {call : Call} {rest : List Call} : s.pc = .setup call rest →
      Act P s (.main true) (exit call s)
  | waitFails : s.pc = .wait → Act P s (.main true) (exit P.wait s)
  | interrupt {inbox : κ} : s.pc = .wait → P.take s.inbox = .interrupt inbox →
      Act P s (.main false) { s with pc := .interruptUnmask, inbox := inbox }
  | unexpectedPulse {code : Int} {inbox : κ} : s.pc = .wait →
      P.take s.inbox = .unexpectedPulse code inbox → Act P s (.main false)
        { s with inbox := inbox, output := s.output ++ [.unexpectedPulse code] }
  | unmask : s.pc = .interruptUnmask →
      Act P s (.main false) { s with pc := .printf, masked := false }
  | unmaskFails : s.pc = .interruptUnmask → Act P s (.main true)
      { s with pc := .printf, output := s.output ++ [.unmaskFails] }
  | printf {fails : Bool} : s.pc = .printf → Act P s (.main fails) { s with
      pc := .wait
      count := s.count + 1#32
      output := s.output ++ [.count s.count] }
  | request : Act P s .request { s with requested := true }
  | deliver : s.pc.Attached → s.requested = true → s.masked = false →
      Act P s .deliver { s with
        inbox := P.deliver s.inbox
        requested := false
        masked := true
        delivered := s.delivered + 1 }
  | pulse {code : Int} {inbox : κ} : P.pulse code s.inbox = some inbox →
      Act P s (.pulse code) { s with inbox := inbox }

variable {P : Program κ} {s s' : System κ} {e : Event}

theorem main_act {fails : Bool} (h : main P fails s = some s') : Act P s (.main fails) s' := by
  unfold main at h
  cases hp : s.pc with
  | setup call rest =>
    simp only [hp, Option.some.injEq] at h
    subst h
    cases fails with
    | true => exact .setupFails hp
    | false => exact .setup hp
  | wait =>
    simp only [hp] at h
    cases fails with
    | true =>
      cases h
      exact .waitFails hp
    | false =>
      simp only [Bool.false_eq_true, if_false] at h
      cases ht : P.take s.inbox with
      | blocks => simp [ht] at h
      | interrupt inbox =>
        simp only [ht, Option.some.injEq] at h
        subst h
        exact .interrupt hp ht
      | unexpectedPulse code inbox =>
        simp only [ht, Option.some.injEq] at h
        subst h
        have hact := Act.unexpectedPulse hp ht
        rwa [hp] at hact
  | interruptUnmask =>
    simp only [hp, Option.some.injEq] at h
    subst h
    cases fails with
    | true => exact .unmaskFails hp
    | false => exact .unmask hp
  | printf =>
    simp only [hp, Option.some.injEq] at h
    subst h
    exact .printf hp
  | exited => simp [hp] at h

theorem deliver_act (h : deliver P s = some s') : Act P s .deliver s' := by
  unfold deliver at h
  by_cases hdeliver : s.pc.Attached ∧ s.requested = true ∧ s.masked = false
  · rw [if_pos hdeliver] at h
    cases h
    exact .deliver hdeliver.1 hdeliver.2.1 hdeliver.2.2
  · rw [if_neg hdeliver] at h
    cases h

theorem step_act (h : step P s e = some s') : Act P s e s' := by
  cases e with
  | main fails => exact main_act h
  | request =>
    cases h
    exact .request
  | deliver => exact deliver_act h
  | pulse code =>
    obtain ⟨inbox, hinbox, rfl⟩ := Option.map_eq_some_iff.1 h
    exact .pulse hinbox

theorem next_act (ha : (machine P).allowed s e) : Act P s e ((machine P).next s e) := by
  obtain ⟨s', hs'⟩ := Option.isSome_iff_exists.1 ha
  rw [show (machine P).next s e = (step P s e).getD s from rfl, hs', Option.getD_some]
  exact step_act hs'

end QnxTutorial.IntSimple
