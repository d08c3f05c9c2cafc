import QnxTutorial.IntSimple.Count

/-!
# The two programs do the same

Any two programs that find their interrupts can follow each other. The one that follows is never
sent any other pulses, and goes through its setup when the other has gone through its own.

**Theorem (`agree`).** Whatever `intsimple_kbd_ev.c` prints about its interrupts, and whenever it is
told of them, so may `intsimple_kbd_ist.c`, and the other way round.
-/

namespace QnxTutorial.IntSimple

variable {κ μ : Type} {P : Program κ} {Q : Program μ} {pending : κ → Nat}
  {pending' : μ → Nat} {s s' : System κ} {t t' : System μ} {e : Event}

/-- What both programs print in the same way. -/
def Text.common : Text → Bool
  | .starting | .count _ | .unmaskFails => true
  | .fails _ | .unexpectedPulse _ => false

/-- `t` follows `s`. -/
structure Follows (P : Program κ) (Q : Program μ) (pending : κ → Nat) (s : System κ)
    (t : System μ) : Prop where
  pc : (∃ call rest, s.pc = .setup call rest) ∧ t.pc = .setup Q.first Q.rest ∨
    (∀ call rest, s.pc ≠ .setup call rest) ∧ t.pc = s.pc
  inbox : t.inbox = if pending s.inbox = 0 then Q.empty else Q.deliver Q.empty
  requested : t.requested = s.requested
  masked : t.masked = s.masked
  count : t.count = s.count
  delivered : t.delivered = s.delivered
  output : t.output.filter Text.common = s.output.filter Text.common

theorem follows_start (hP : P.Keeps pending) : Follows P Q pending (start P) (start Q) where
  pc := .inl ⟨⟨_, _, rfl⟩, rfl⟩
  inbox := (if_pos hP.empty).symm
  requested := rfl
  masked := rfl
  count := rfl
  delivered := rfl
  output := rfl

/-- After the setup both are at the same point. -/
theorem Follows.pc_eq (h : Follows P Q pending s t) {pc : Pc} (hp : s.pc = pc)
    (hsetup : ∀ call rest, pc ≠ .setup call rest) : t.pc = pc := by
  rcases h.pc with ⟨⟨call, rest, hcall⟩, -⟩ | ⟨-, hpc⟩
  · exact (hsetup call rest (hp.symm.trans hcall)).elim
  · exact hpc.trans hp

theorem run_step {h : List (System μ × Event)} (hrun : (machine Q).Run h t)
    (hst : step Q t e = some t') : (machine Q).Run (h ++ [(t, e)]) t' := by
  have hnext : (machine Q).next t e = t' := by
    show (step Q t e).getD t = t'
    rw [hst]
    rfl
  rw [← hnext]
  exact hrun.step (Option.isSome_iff_exists.2 ⟨t', hst⟩)

/-- The setup may go well. -/
theorem run_setup {h : List (System μ × Event)} {call : Call} {rest : List Call}
    (hrun : (machine Q).Run h t) (hp : t.pc = .setup call rest) :
    ∃ h', (machine Q).Run h' { t with pc := .wait } := by
  induction rest generalizing h t call with
  | nil => exact ⟨_, run_step (e := .main false) hrun (by simp [step, main, hp, nextCall])⟩
  | cons call' rest ih =>
    have hst : step Q t (.main false) = some { t with pc := .setup call' rest } := by
      simp [step, main, hp, nextCall]
    obtain ⟨h', hrun'⟩ := ih (run_step hrun hst) rfl
    exact ⟨h', hrun'⟩

/-- **One program follows the other.** -/
theorem Follows.act (hP : P.Keeps pending) (hQ : Q.Keeps pending') {n : Nat}
    (hs : Sound pending s n)
    (h : Follows P Q pending s t) {ht : List (System μ × Event)} (hrun : (machine Q).Run ht t)
    (ha : Act P s e s') : ∃ ht' t', (machine Q).Run ht' t' ∧ Follows P Q pending s' t' := by
  have hmasked := hs.masked
  have hle := s.masked.toNat_le
  cases ha with
  | @setup call rest hp =>
    have hpt : t.pc = .setup Q.first Q.rest := by
      rcases h.pc with ⟨-, hpc⟩ | ⟨hnot, -⟩
      · exact hpc
      · exact (hnot _ _ hp).elim
    cases rest with
    | nil =>
      obtain ⟨ht', hrun'⟩ := run_setup hrun hpt
      exact ⟨ht', _, hrun', { h with pc := .inr ⟨by simp [nextCall], rfl⟩ }⟩
    | cons call' rest => exact ⟨ht, t, hrun, { h with pc := .inl ⟨⟨_, _, rfl⟩, hpt⟩ }⟩
  | setupFails hp =>
    have hpt : t.pc = .setup Q.first Q.rest := by
      rcases h.pc with ⟨-, hpc⟩ | ⟨hnot, -⟩
      · exact hpc
      · exact (hnot _ _ hp).elim
    have hst : step Q t (.main true) = some (exit Q.first t) := by simp [step, main, hpt]
    refine ⟨_, _, run_step hrun hst, { h with pc := .inr ⟨by simp [exit], rfl⟩, output := ?_ }⟩
    simpa [exit, Text.common] using h.output
  | waitFails hp =>
    have hpt := h.pc_eq hp (by simp)
    have hst : step Q t (.main true) = some (exit Q.wait t) := by simp [step, main, hpt]
    refine ⟨_, _, run_step hrun hst, { h with pc := .inr ⟨by simp [exit], rfl⟩, output := ?_ }⟩
    simpa [exit, Text.common] using h.output
  | @interrupt inbox hp htake =>
    have hpt := h.pc_eq hp (by simp)
    have hpending := hP.interrupt _ _ htake
    have hnone : pending inbox = 0 := by omega
    have hinbox := h.inbox
    rw [if_neg (by omega)] at hinbox
    have hst : step Q t (.main false) =
        some { t with pc := .interruptUnmask, inbox := Q.empty } := by
      simp [step, main, hpt, hinbox, hQ.take_deliver]
    refine ⟨_, _, run_step hrun hst, { h with pc := .inr ⟨by simp, rfl⟩, inbox := ?_ }⟩
    exact (if_pos hnone).symm
  | unexpectedPulse hp htake =>
    refine ⟨ht, t, hrun, { h with inbox := ?_, output := ?_ }⟩
    · simpa [hP.unexpectedPulse _ _ _ htake] using h.inbox
    · simpa [Text.common] using h.output
  | unmask hp =>
    have hpt := h.pc_eq hp (by simp)
    have hst : step Q t (.main false) = some { t with pc := .printf, masked := false } := by
      simp [step, main, hpt]
    exact ⟨_, _, run_step hrun hst, { h with pc := .inr ⟨by simp, rfl⟩, masked := rfl }⟩
  | unmaskFails hp =>
    have hpt := h.pc_eq hp (by simp)
    have hst : step Q t (.main true) =
        some { t with pc := .printf, output := t.output ++ [.unmaskFails] } := by
      simp [step, main, hpt]
    refine ⟨_, _, run_step hrun hst, { h with pc := .inr ⟨by simp, rfl⟩, output := ?_ }⟩
    simpa [Text.common] using h.output
  | printf hp =>
    have hpt := h.pc_eq hp (by simp)
    have hst : step Q t (.main false) = some { t with
        pc := .wait
        count := t.count + 1
        output := t.output ++ [.count t.count] } := by
      simp [step, main, hpt]
    refine ⟨_, _, run_step hrun hst, { h with
      pc := .inr ⟨by simp, rfl⟩
      count := congrArg (· + 1) h.count
      output := ?_ }⟩
    simpa [Text.common, h.count] using h.output
  | request =>
    have hst : step Q t .request = some { t with requested := true } := rfl
    exact ⟨_, _, run_step hrun hst, { h with requested := rfl }⟩
  | deliver hattached hrequested hunmasked =>
    have hsetup : ∀ call rest, s.pc ≠ .setup call rest := by
      rcases hattached with hp | hp | hp <;> simp [hp]
    have hpt := h.pc_eq rfl hsetup
    have hnone : pending s.inbox = 0 := by
      rw [hunmasked, Bool.toNat_false] at hmasked
      omega
    have hst : step Q t .deliver = some { t with
        inbox := Q.deliver t.inbox
        requested := false
        masked := true
        delivered := t.delivered + 1 } :=
      if_pos ⟨hpt ▸ hattached, h.requested.trans hrequested, h.masked.trans hunmasked⟩
    refine ⟨_, _, run_step hrun hst, { h with
      inbox := ?_
      requested := rfl
      masked := rfl
      delivered := congrArg (· + 1) h.delivered }⟩
    have hinbox := h.inbox
    rw [if_pos hnone] at hinbox
    simp [hinbox, hP.deliver _ hnone]
  | pulse hpulse =>
    refine ⟨ht, t, hrun, { h with inbox := ?_ }⟩
    simpa [hP.pulse _ _ _ hpulse] using h.inbox

theorem follows_of_run (hP : P.Keeps pending) (hQ : Q.Keeps pending')
    {h : List (System κ × Event)} (hrun : (machine P).Run h s) :
    ∃ ht t, (machine Q).Run ht t ∧ Follows P Q pending s t := by
  induction hrun with
  | init hs =>
    cases hs
    exact ⟨[], start Q, .init rfl, follows_start hP⟩
  | @step h s e hrun ha ih =>
    obtain ⟨ht, t, hrunt, hfollows⟩ := ih
    obtain ⟨n, hs⟩ := sound_of_run hP hrun
    exact hfollows.act hP hQ hs hrunt (next_act ha)

/-- The same interrupts have been delivered, and the same has been printed about them. -/
structure SameSoFar (s : System κ) (t : System μ) : Prop where
  delivered : t.delivered = s.delivered
  masked : t.masked = s.masked
  output : t.output.filter Text.common = s.output.filter Text.common
  exited : t.pc = .exited ↔ s.pc = .exited

theorem Follows.sameSoFar (h : Follows P Q pending s t) : SameSoFar s t where
  delivered := h.delivered
  masked := h.masked
  output := h.output
  exited := by
    rcases h.pc with ⟨⟨call, rest, hp⟩, hpt⟩ | ⟨-, hpt⟩
    · simp [hp, hpt]
    · rw [hpt]

/-- **The two programs do the same.** -/
theorem agree (intPulseCode : Int) :
    (∀ h s, (machine (ev intPulseCode)).Run h s →
      ∃ ht t, (machine ist).Run ht t ∧ SameSoFar s t) ∧
    (∀ h t, (machine ist).Run h t →
      ∃ hs s, (machine (ev intPulseCode)).Run hs s ∧ SameSoFar t s) := by
  have hev := ev_keeps intPulseCode
  constructor
  · intro h s hrun
    obtain ⟨ht, t, hrunt, hfollows⟩ := follows_of_run hev ist_keeps hrun
    exact ⟨ht, t, hrunt, hfollows.sameSoFar⟩
  · intro h t hrun
    obtain ⟨hs, s, hruns, hfollows⟩ := follows_of_run ist_keeps hev hrun
    exact ⟨hs, s, hruns, hfollows.sameSoFar⟩

end QnxTutorial.IntSimple
