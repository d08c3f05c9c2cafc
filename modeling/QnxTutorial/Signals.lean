/-!
# A signal that is waited for

A process may mask a signal, attach a handler to it, and take it when it is pending. This is about
signals that are ignored by default. One without a handler that is not masked is discarded. Whether
it becomes pending when it is masked depends on the kernel: POSIX allows both.

**Theorem (`Kept.raise_eq`).** A signal that is masked and not discarded is kept until it is taken.

**Theorem (`Quiet.raise`, `Quiet.attach`).** If the handler is attached while the signal is masked,
then it is never called.
-/

namespace Signals

/-- What a kernel does with an ignored signal that is masked. -/
structure Kernel where
  keepsIgnored : Bool
  deriving DecidableEq

/-- It discards it, as any other ignored signal. -/
def Kernel.Discards (K : Kernel) : Prop := K.keepsIgnored = false

/-- A signal as a process sees it, and how often its handler has been called. -/
structure Signal where
  masked : Bool
  handler : Bool
  pending : Bool
  calls : Nat
  deriving DecidableEq

namespace Signal

/-- Handlers are not inherited, the mask is. -/
def inherited (masked : Bool) : Signal := ⟨masked, false, false, 0⟩

def mask (s : Signal) : Signal := { s with masked := true }

def attach (s : Signal) : Signal := { s with handler := true }

/-- The signal is sent to the process. -/
def raise (K : Kernel) (s : Signal) : Signal :=
  if s.masked then
    if s.handler || K.keepsIgnored then { s with pending := true } else s
  else if s.handler then { s with calls := s.calls + 1 } else s

/-- `sigwaitinfo`, which blocks until the signal is pending. -/
def take (s : Signal) : Option Signal :=
  if s.pending then some { s with pending := false } else none

variable {K : Kernel} {s s' : Signal}

@[simp] theorem raise_masked (s : Signal) : (s.raise K).masked = s.masked := by
  unfold raise
  by_cases hmasked : s.masked = true
  · by_cases hkept : (s.handler || K.keepsIgnored) = true <;> simp [hmasked, hkept]
  · by_cases hhandler : s.handler = true <;> simp [hmasked, hhandler]

theorem take_eq_none_iff : s.take = none ↔ s.pending = false := by
  unfold take
  by_cases hpending : s.pending = true <;> simp [hpending]

theorem take_eq (h : s.take = some s') :
    s.pending = true ∧ s' = { s with pending := false } := by
  unfold take at h
  by_cases hpending : s.pending = true
  · rw [if_pos hpending] at h
    exact ⟨hpending, (Option.some.inj h).symm⟩
  · rw [if_neg hpending] at h
    cases h

/-! ## Signals that are kept -/

/-- The signal is masked, and is not discarded. -/
def Kept (K : Kernel) (s : Signal) : Prop :=
  s.masked = true ∧ (s.handler = true ∨ K.keepsIgnored = true)

theorem Kept.raise_eq (h : s.Kept K) : s.raise K = { s with pending := true } := by
  unfold raise
  rw [if_pos h.1, if_pos (Bool.or_eq_true_iff.2 h.2)]

theorem Kept.raise (h : s.Kept K) : (s.raise K).Kept K := by
  rw [h.raise_eq]
  exact h

theorem Kept.take (h : s.Kept K) (ht : s.take = some s') : s'.Kept K := by
  rw [(take_eq ht).2]
  exact h

/-! ## Handlers that are never called -/

/-- The handler has not been called, and will not be. -/
structure Quiet (s : Signal) : Prop where
  calls : s.calls = 0
  masked : s.handler = true → s.masked = true

theorem quiet_inherited (masked : Bool) : (inherited masked).Quiet where
  calls := rfl
  masked h := by cases h

theorem Quiet.mask (h : s.Quiet) : s.mask.Quiet where
  calls := h.calls
  masked _ := rfl

theorem Quiet.attach (h : s.Quiet) (hmasked : s.masked = true) : s.attach.Quiet where
  calls := h.calls
  masked _ := hmasked

theorem Quiet.take (h : s.Quiet) (ht : s.take = some s') : s'.Quiet := by
  rw [(take_eq ht).2]
  exact ⟨h.calls, h.masked⟩

/-- A signal that is sent finds no handler, or is masked. -/
theorem Quiet.raise (h : s.Quiet) : (s.raise K).Quiet := by
  unfold Signal.raise
  by_cases hmasked : s.masked = true
  · rw [if_pos hmasked]
    by_cases hkept : (s.handler || K.keepsIgnored) = true
    · rw [if_pos hkept]
      exact ⟨h.calls, h.masked⟩
    · rw [if_neg hkept]
      exact h
  · have hhandler : ¬ s.handler = true := mt h.masked hmasked
    rw [if_neg hmasked, if_neg hhandler]
    exact h

end Signal

end Signals
