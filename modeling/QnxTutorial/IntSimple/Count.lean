import Mathlib.Algebra.Group.Nat.Defs
import QnxTutorial.IntSimple.Program

/-!
# Every interrupt is counted

The programs rely on one thing only: an interrupt that is delivered is found once, among whatever
else comes (`Program.Keeps`).

**Theorem (`counts_interrupts`).** Each of the programs counts all its interrupts. While one of them
is not handled the interrupt is masked, so that there is never another one; and it stays masked
forever if `InterruptUnmask` fails, which can happen once.
-/

namespace QnxTutorial.IntSimple

variable {κ : Type} {P : Program κ} {pending : κ → Nat} {s s' : System κ} {e : Event}

/-- The program finds the interrupts that have been delivered, and no others. -/
structure Program.Keeps (P : Program κ) (pending : κ → Nat) : Prop where
  empty : pending P.empty = 0
  deliver : ∀ inbox, pending inbox = 0 → pending (P.deliver inbox) = 1
  pulse : ∀ code inbox inbox', P.pulse code inbox = some inbox' → pending inbox' = pending inbox
  blocks : ∀ inbox, P.take inbox = .blocks → pending inbox = 0
  interrupt : ∀ inbox inbox', P.take inbox = .interrupt inbox' →
    pending inbox = pending inbox' + 1
  unexpectedPulse : ∀ code inbox inbox', P.take inbox = .unexpectedPulse code inbox' →
    pending inbox' = pending inbox
  take_deliver : P.take (P.deliver P.empty) = .interrupt P.empty

theorem ev_keeps (intPulseCode : Int) : (ev intPulseCode).Keeps (List.count intPulseCode) where
  empty := rfl
  deliver inbox h := by
    show (inbox ++ [intPulseCode]).count intPulseCode = 1
    simp [h]
  pulse code inbox inbox' h := by
    unfold ev at h
    by_cases hcode : code = intPulseCode
    · simp [hcode] at h
    · simp only [if_neg hcode, Option.some.injEq] at h
      simp [← h, hcode]
  blocks inbox h := by
    cases inbox with
    | nil => rfl
    | cons code inbox => by_cases hcode : code = intPulseCode <;> simp [ev, hcode] at h
  interrupt inbox inbox' h := by
    cases inbox with
    | nil => simp [ev] at h
    | cons code inbox =>
      by_cases hcode : code = intPulseCode
      · simp only [ev, if_pos hcode, Told.interrupt.injEq] at h
        simp [hcode, h]
      · simp [ev, hcode] at h
  unexpectedPulse code inbox inbox' h := by
    cases inbox with
    | nil => simp [ev] at h
    | cons code' inbox =>
      by_cases hcode : code' = intPulseCode
      · simp [ev, hcode] at h
      · simp only [ev, if_neg hcode, Told.unexpectedPulse.injEq] at h
        simp [← h.2, hcode]
  take_deliver := by simp [ev]

theorem ist_keeps : ist.Keeps Bool.toNat where
  empty := rfl
  deliver _ _ := rfl
  pulse _ _ _ h := by cases h
  blocks inbox h := by cases inbox <;> simp [ist] at h ⊢
  interrupt inbox inbox' h := by
    cases inbox with
    | false => simp [ist] at h
    | true =>
      simp only [ist, if_true, Told.interrupt.injEq] at h
      simp [← h]
  unexpectedPulse _ inbox _ h := by cases inbox <;> simp [ist] at h
  take_deliver := rfl

/-! ## The invariant -/

def Text.count? : Text → Option (BitVec 32)
  | .count n => some n
  | .starting | .fails _ | .unmaskFails | .unexpectedPulse _ => none

/-- The interrupts that have been taken and not unmasked. -/
def Pc.unmasks : Pc → Nat
  | .interruptUnmask => 1
  | .setup .. | .wait | .printf | .exited => 0

/-- The interrupts that have been taken and not counted. -/
def Pc.counts : Pc → Nat
  | .interruptUnmask | .printf => 1
  | .setup .. | .wait | .exited => 0

/-- The counts printed so far. -/
def System.counts (s : System κ) : List (BitVec 32) := s.output.filterMap Text.count?

def System.counted (s : System κ) : Nat := s.counts.length

/-- `0, 1, ..`, for `n` counts. -/
def upTo (n : Nat) : List (BitVec 32) := (List.range n).map (BitVec.ofNat 32)

theorem length_upTo (n : Nat) : (upTo n).length = n := by simp [upTo]

theorem upTo_succ (n : Nat) : upTo (n + 1) = upTo n ++ [BitVec.ofNat 32 n] := by
  simp [upTo, List.range_succ]

/-- As long as they are small they are the numbers themselves. -/
theorem map_toInt_upTo {n : Nat} (hn : n ≤ 2 ^ 31) :
    (upTo n).map BitVec.toInt = (List.range n).map Int.ofNat := by
  rw [upTo, List.map_map]
  refine List.map_congr_left fun i hi => ?_
  have hlt : i < 2 ^ 31 := Nat.lt_of_lt_of_le (List.mem_range.1 hi) hn
  show (BitVec.ofNat 32 i).toInt = (i : Int)
  rw [BitVec.toInt_ofNat', Int.bmod_eq_of_le (by omega) (by omega)]

/-- `n` interrupts have been counted. -/
structure Sound (pending : κ → Nat) (s : System κ) (n : Nat) : Prop where
  delivered : s.delivered = n + pending s.inbox + s.pc.counts
  masked : pending s.inbox + s.pc.unmasks + s.output.count .unmaskFails = s.masked.toNat
  counts : s.counts = upTo n
  count : s.count = BitVec.ofNat 32 n

theorem sound_start (hP : P.Keeps pending) : Sound pending (start P) 0 where
  delivered := by simp [start, hP.empty, Pc.counts]
  masked := by simp [start, hP.empty, Pc.unmasks]
  counts := rfl
  count := rfl

theorem nextCall_quiet (rest : List Call) :
    (nextCall rest).counts = 0 ∧ (nextCall rest).unmasks = 0 := by
  cases rest <;> exact ⟨rfl, rfl⟩

theorem counts_append {text : Text} (ht : text.count? = none) (s : System κ) :
    (s.output ++ [text]).filterMap Text.count? = s.counts := by
  simp [System.counts, ht]

theorem Sound.act (hP : P.Keeps pending) {n : Nat} (h : Sound pending s n) (ha : Act P s e s') :
    ∃ n, Sound pending s' n := by
  obtain ⟨hdelivered, hmasked, hcounts, hcount⟩ := h
  cases ha with
  | @setup call rest hp =>
    rw [hp] at hdelivered hmasked
    have hquiet := nextCall_quiet rest
    exact ⟨n, by rw [hquiet.1]; exact hdelivered, by rw [hquiet.2]; exact hmasked, hcounts, hcount⟩
  | setupFails hp | waitFails hp =>
    rw [hp] at hdelivered hmasked
    refine ⟨n, hdelivered, ?_, (counts_append rfl s).trans hcounts, hcount⟩
    simpa [exit, Pc.unmasks] using hmasked
  | interrupt hp ht =>
    rw [hp, hP.interrupt _ _ ht] at hdelivered hmasked
    simp only [Pc.counts, Pc.unmasks] at hdelivered hmasked
    refine ⟨n, ?_, ?_, hcounts, hcount⟩ <;> simp only [Pc.counts, Pc.unmasks] <;> omega
  | unexpectedPulse hp ht =>
    have hpending := hP.unexpectedPulse _ _ _ ht
    refine ⟨n, by rw [hpending]; exact hdelivered, ?_, (counts_append rfl s).trans hcounts, hcount⟩
    simpa [hpending] using hmasked
  | unmask hp =>
    rw [hp] at hdelivered hmasked
    refine ⟨n, hdelivered, ?_, hcounts, hcount⟩
    have hle := s.masked.toNat_le
    simp only [Pc.unmasks, Bool.toNat_false] at hmasked ⊢
    omega
  | unmaskFails hp =>
    rw [hp] at hdelivered hmasked
    refine ⟨n, hdelivered, ?_, (counts_append rfl s).trans hcounts, hcount⟩
    simp only [Pc.unmasks, List.count_append, List.count_singleton_self] at hmasked ⊢
    omega
  | printf hp =>
    rw [hp] at hdelivered hmasked
    refine ⟨n + 1, ?_, ?_, ?_, ?_⟩
    · simp only [Pc.counts] at hdelivered ⊢
      omega
    · simpa [Pc.unmasks] using hmasked
    · rw [upTo_succ, ← hcounts, ← hcount]
      simp [System.counts, Text.count?]
    · rw [hcount, BitVec.ofNat_add]
  | request => exact ⟨n, hdelivered, hmasked, hcounts, hcount⟩
  | deliver _ _ hunmasked =>
    rw [hunmasked, Bool.toNat_false] at hmasked
    have hpending := hP.deliver s.inbox (by omega)
    refine ⟨n, ?_, ?_, hcounts, hcount⟩
    · simp only [hpending]
      omega
    · simp only [hpending, Bool.toNat_true]
      omega
  | pulse hpulse =>
    have hpending := hP.pulse _ _ _ hpulse
    exact ⟨n, by rw [hpending]; exact hdelivered, by rw [hpending]; exact hmasked, hcounts, hcount⟩

theorem sound_of_run (hP : P.Keeps pending) {h : List (System κ × Event)}
    (hrun : (machine P).Run h s) : ∃ n, Sound pending s n := by
  apply hrun.invariant
  · rintro s rfl
    exact ⟨0, sound_start hP⟩
  · rintro s e ha ⟨n, hs⟩
    exact hs.act hP (next_act ha)

/-- The program waits only when it has taken every interrupt. -/
theorem pending_of_blocked (hP : P.Keeps pending) (hblocked : main P false s = none)
    (hp : s.pc ≠ .exited) : s.pc = .wait ∧ pending s.inbox = 0 := by
  unfold main at hblocked
  cases hpc : s.pc with
  | setup | interruptUnmask | printf => simp [hpc] at hblocked
  | wait =>
    refine ⟨rfl, hP.blocks _ ?_⟩
    cases ht : P.take s.inbox with
    | blocks => rfl
    | interrupt | unexpectedPulse => simp [hpc, ht] at hblocked
  | exited => exact (hp hpc).elim

/-! ## The theorem -/

/-- What is printed about the interrupts, and whether there can be more of them. -/
structure Counted (P : Program κ) (s : System κ) : Prop where
  counts : s.counts = upTo s.counted
  ints : s.delivered < 2 ^ 31 → s.counts.map BitVec.toInt = (List.range s.counted).map Int.ofNat
  bounds : s.counted ≤ s.delivered ∧ s.delivered ≤ s.counted + 2
  failures : s.output.count .unmaskFails ≤ 1
  masked : .unmaskFails ∈ s.output → s.masked = true ∧ s.delivered ≤ s.counted + 1
  waits : main P false s = none → s.pc ≠ .exited →
    s.delivered = s.counted ∧ (s.masked = true ↔ .unmaskFails ∈ s.output)

theorem Sound.counted (hP : P.Keeps pending) {n : Nat} (h : Sound pending s n) : Counted P s := by
  obtain ⟨hdelivered, hmasked, hcounts, -⟩ := h
  obtain rfl : s.counted = n := by rw [System.counted, hcounts, length_upTo]
  have hle := s.masked.toNat_le
  have hpc : s.pc.counts ≤ 1 := by cases s.pc <;> simp [Pc.counts]
  refine ⟨hcounts, ?_, by omega, by omega, ?_, ?_⟩
  · intro hsmall
    rw [hcounts]
    exact map_toInt_upTo (by omega)
  · intro hmem
    have hpos : 0 < s.output.count .unmaskFails := List.count_pos_iff.2 hmem
    refine ⟨?_, by omega⟩
    cases hm : s.masked with
    | true => rfl
    | false => simp [hm] at hmasked; omega
  · intro hblocked hexited
    obtain ⟨hp, hpending⟩ := pending_of_blocked hP hblocked hexited
    rw [hp, hpending] at hdelivered hmasked
    refine ⟨hdelivered, ?_⟩
    rw [← List.count_pos_iff]
    simp only [Pc.unmasks, Nat.zero_add] at hmasked
    rw [hmasked]
    cases s.masked <;> simp

theorem counted_of_run (hP : P.Keeps pending) {h : List (System κ × Event)}
    (hrun : (machine P).Run h s) : Counted P s := by
  obtain ⟨n, hs⟩ := sound_of_run hP hrun
  exact hs.counted hP

/-- **Both programs count their interrupts.** -/
theorem counts_interrupts (intPulseCode : Int) :
    (∀ h s, (machine (ev intPulseCode)).Run h s → Counted (ev intPulseCode) s) ∧
    (∀ h s, (machine ist).Run h s → Counted ist s) :=
  ⟨fun _ _ => counted_of_run (ev_keeps intPulseCode), fun _ _ => counted_of_run ist_keeps⟩

end QnxTutorial.IntSimple
