import Mathlib.Algebra.Group.Nat.Defs
import QnxTutorial.EventServer.Notify

/-!
# The notification count

`notify_count` goes back to zero when the registered client disconnects, but not when another
client registers in its place.

**Theorem (`count_from_zero`).** If every client that took over with an updateable event found the
count at zero, every new client sees its deliveries numbered from zero.

**Theorem (`count_continues`).** A second client can start at one.
-/

namespace QnxTutorial.EventServer

open Monitor

variable {H : Headers}

/-! ## Deliveries of one registration -/

/-- No entry replaces or ends the registration. -/
def Undisturbed (r : Registration) (mid : List Entry) : Prop :=
  ∀ e ∈ mid, registrations.grant e = none ∧ registrations.revokes e r = false

theorem session_undisturbed (pre : List Entry) {r : Registration} {mid : List Entry}
    (h : Undisturbed r mid) : session (pre ++ .registered r :: mid) = some (r, delivered mid) := by
  induction mid using List.reverseRecOn with
  | nil => rw [session_concat]; rfl
  | append_singleton mid e ih =>
    have hmid := ih fun e' he' => h e' (List.mem_append_left _ he')
    obtain ⟨hgrant, hrevokes⟩ := h e (by simp)
    rw [← List.cons_append, ← List.append_assoc, session_concat, hmid]
    cases e with
    | registered r' => cases hgrant
    | disconnected scoid =>
      have hne : scoid ≠ r.msg.scoid := of_decide_eq_false hrevokes
      simp [nextSession, Option.filter, hne, delivered]
    | notified d =>
      rcases d with _ | ⟨rcvid, ev⟩ <;> simp [nextSession, delivered]

theorem LogOk.delivered_eq_ramp {log pre mid post : List Entry} {r : Registration}
    (h : LogOk H log) (hlog : log = pre ++ .registered r :: (mid ++ post))
    (hup : H.Updateable r.ev) (hmid : Undisturbed r mid) :
    delivered mid = ramp r.foundCount (delivered mid).length := by
  have hpre : pre ++ .registered r :: mid <+: log := ⟨post, by simp [hlog]⟩
  exact (h _ hpre).counts r _ (session_undisturbed pre hmid) hup

theorem LogOk.found_none {log : List Entry} {r : Registration} (h : LogOk H log)
    (hr : .registered r ∈ log) (hscoid : r.foundScoid = 0) : r.foundCount = 0 := by
  obtain ⟨pre, post, hlog⟩ := List.append_of_mem hr
  have hpre : pre ++ [.registered r] <+: log := ⟨post, by simp [hlog]⟩
  have hfound := (h _ hpre).found pre r rfl
  cases hcur : registrations.current pre with
  | none =>
    rw [hcur] at hfound
    exact hfound.2
  | some r' =>
    rw [hcur] at hfound
    exact absurd (hfound.symm.trans hscoid) r'.msg.scoid_ne

theorem ramp_zero_toInt {n i : ℕ} (hi : i < (ramp 0 n).length) (hbound : i < 2 ^ 31) :
    (ramp 0 n)[i].toInt = i := by
  have h0 : (0 : BitVec 32) + BitVec.ofNat 32 i = BitVec.ofNat 32 i := BitVec.zero_add _
  simp only [ramp, List.getElem_map, List.getElem_range]
  rw [h0, BitVec.toInt_ofNat', Int.bmod_eq_of_le (by omega) (by omega)]

/-! ## The theorems -/

/-- Whoever registers an updateable event under a new scoid sees `0, 1, 2, ..`. -/
def CountsFromZero (H : Headers) (log : List Entry) : Prop :=
  ∀ pre r mid post, log = pre ++ .registered r :: (mid ++ post) → r.foundScoid ≠ r.msg.scoid →
    H.Updateable r.ev → Undisturbed r mid →
    ∀ (i : ℕ) (hi : i < (delivered mid).length), i < 2 ^ 31 → (delivered mid)[i].toInt = i

/-- The registration replaces that of another client and has an updateable event. -/
def Registration.TakesOver (H : Headers) (r : Registration) : Prop :=
  r.foundScoid ≠ 0 ∧ r.foundScoid ≠ r.msg.scoid ∧ H.Updateable r.ev

/-- **The count starts at zero** for everyone, provided takeovers find it at zero. -/
theorem count_from_zero (c : Config (program H)) (hc : Reachable c)
    (hzero : ∀ r, .registered r ∈ c.shared.log → r.TakesOver H → r.foundCount = 0) :
    CountsFromZero H c.shared.log := by
  intro pre r mid post hlog hscoid hup hmid i hi hbound
  have hok := logOk_of_reachable hc
  have hr : .registered r ∈ c.shared.log := by simp [hlog]
  have hfound : r.foundCount = 0 := by
    by_cases h0 : r.foundScoid = 0
    · exact hok.found_none hr h0
    · exact hzero r hr ⟨h0, hscoid, hup⟩
  have hramp := hok.delivered_eq_ramp hlog hup hmid
  rw [hfound] at hramp
  have hi' : i < (ramp 0 (delivered mid).length).length := hramp ▸ hi
  calc (delivered mid)[i].toInt = (ramp 0 (delivered mid).length)[i].toInt := by
        congr 1
        exact List.getElem_of_eq hramp hi
    _ = i := ramp_zero_toInt hi' hbound

/-- The second of two clients takes over before the first delivery. -/
theorem count_from_zero_early : ∃ c : Config (program .x86_64), Reachable c ∧
    delivered c.shared.log = [0, 1] ∧ CountsFromZero .x86_64 c.shared.log := by
  obtain ⟨c, hc, hp⟩ := exists_reach (P := program .x86_64) (I := Start) (s := start)
    ⟨rfl, rfl, rfl, rfl⟩
    (l := registering (request 1 (by decide)) ++ [(.main, .result true)] ++
      registering (request 2 (by decide)) ++ [(.main, .result true)] ++
      List.replicate 15 (.notifyThread, .result true))
    (p := fun c => delivered c.shared.log == [0, 1] && c.shared.log.all fun
      | .registered r => r.foundCount == 0
      | _ => true) (by decide)
  simp only [Bool.and_eq_true, beq_iff_eq, List.all_eq_true] at hp
  obtain ⟨hd, hfound⟩ := hp
  exact ⟨c, hc, hd, count_from_zero c hc fun r hr _ => beq_iff_eq.1 (hfound _ hr)⟩

/-- **The count continues** when a client takes over after a delivery. -/
theorem count_continues : ¬ ∀ c : Config (program .x86_64), Reachable c →
    CountsFromZero .x86_64 c.shared.log := by
  intro hall
  obtain ⟨c, hc, hp⟩ := exists_reach (P := program .x86_64) (I := Start) (s := start)
    ⟨rfl, rfl, rfl, rfl⟩
    (l := registering (request 1 (by decide)) ++ [(.main, .result true)] ++
      List.replicate 8 (.notifyThread, .result true) ++
      registering (request 2 (by decide)) ++ [(.main, .result true)] ++
      List.replicate 7 (.notifyThread, .result true))
    (p := fun c => match c.shared.log with
      | [_, _, .registered r, .notified (some (_, ev))] => r.foundScoid == 1 &&
        r.msg.scoid == 2 && decide (Headers.x86_64.Updateable r.ev) && ev.sivalInt == 1
      | _ => false) (by decide)
  split at hp
  case h_2 => cases hp
  case h_1 e₁ e₂ r rcvid ev hlog =>
    simp only [Bool.and_eq_true, beq_iff_eq, decide_eq_true_eq] at hp
    obtain ⟨⟨⟨hfound, hscoid⟩, hup⟩, hvalue⟩ := hp
    have hfirst := hall c hc [e₁, e₂] r [.notified (some (rcvid, ev))] [] hlog
      (by rw [hfound, hscoid]; decide) hup (by simp [Undisturbed, registrations]) 0 Nat.one_pos
      (by decide)
    have hone : ev.sivalInt.toInt = 0 := hfirst
    rw [hvalue] at hone
    cases hone

end QnxTutorial.EventServer
