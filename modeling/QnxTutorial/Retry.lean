import Mathlib.Algebra.Group.Nat.Defs
import Mathlib.Data.Nat.Find

/-!
# Retrying with a counter that can wrap

A loop makes attempts until one succeeds. It counts the failures in a word of `w` bits, and gives
up as soon as there are more of them than a limit. If the limit is the largest word, the count
wraps before it is over the limit, and the loop never gives up.

**Theorems (`ends_of_retry`, `retry_of_ends`).** The loop ends as `Ends` says, with enough fuel.

**Theorem (`exists_attempts_le_iff`).** When it ends after at most one attempt more than the limit.
-/

namespace Retry

variable {w : ℕ} {α : Type}

/-- What the loop ends with, if it did not give up, and how many attempts it made. -/
structure Result (α : Type) where
  value : Option α
  attempts : ℕ

/-- The loop, from attempt `k` on. -/
def loop (limit : BitVec w) (attempt : ℕ → Option α) :
    (fuel k : ℕ) → (tries : BitVec w) → Option (Result α)
  | 0, _, _ => none
  | fuel + 1, k, tries =>
    match attempt k with
    | some a => some ⟨some a, k + 1⟩
    | none =>
      let tries := tries + 1
      if tries > limit then some ⟨none, k + 1⟩ else loop limit attempt fuel (k + 1) tries

def retry (limit : BitVec w) (attempt : ℕ → Option α) (fuel : ℕ) : Option (Result α) :=
  loop limit attempt fuel 0 0

/-! ## How the loop ends -/

/-- The count reaches a value over the limit, and every attempt until then fails. -/
def GivesUp (limit : BitVec w) (attempt : ℕ → Option α) : Prop :=
  limit.toNat + 1 < 2 ^ w ∧ ∀ k ≤ limit.toNat, attempt k = none

/-- The loop ends with the first success, unless it gives up before. -/
inductive Ends (limit : BitVec w) (attempt : ℕ → Option α) : Result α → Prop
  | success {a : α} {k : ℕ} : (∀ j < k, attempt j = none) → attempt k = some a →
      (limit.toNat + 1 < 2 ^ w → k ≤ limit.toNat) → Ends limit attempt ⟨some a, k + 1⟩
  | gaveUp : GivesUp limit attempt → Ends limit attempt ⟨none, limit.toNat + 1⟩

variable {limit : BitVec w} {attempt : ℕ → Option α} {k fuel : ℕ} {r : Result α}

theorem ofNat_succ (k : ℕ) : BitVec.ofNat w (k + 1) = BitVec.ofNat w k + 1 := BitVec.ofNat_add ..

/-- The count after `k + 1` failures is over the limit exactly if it has not wrapped and `k` is
the limit. -/
theorem over_limit_iff (hk : limit.toNat + 1 < 2 ^ w → k ≤ limit.toNat) :
    BitVec.ofNat w k + 1 > limit ↔ limit.toNat + 1 < 2 ^ w ∧ k = limit.toNat := by
  have hlimit := limit.isLt
  rw [gt_iff_lt, BitVec.lt_def, ← ofNat_succ, BitVec.toNat_ofNat]
  by_cases hwrap : limit.toNat + 1 < 2 ^ w
  · have := hk hwrap
    rw [Nat.mod_eq_of_lt (by omega)]
    omega
  · have := Nat.mod_lt (k + 1) (Nat.two_pow_pos w)
    omega

/-- The loop ends as it should. The count is the number of failures so far, as a word. -/
theorem ends_of_loop (hfailed : ∀ j < k, attempt j = none)
    (hk : limit.toNat + 1 < 2 ^ w → k ≤ limit.toNat)
    (hloop : loop limit attempt fuel k (BitVec.ofNat w k) = some r) : Ends limit attempt r := by
  induction fuel generalizing k with
  | zero => cases hloop
  | succ fuel ih =>
    cases hattempt : attempt k with
    | some a =>
      simp only [loop, hattempt, Option.some.injEq] at hloop
      exact hloop ▸ .success hfailed hattempt hk
    | none =>
      have hfailed' : ∀ j < k + 1, attempt j = none := by
        intro j hj
        rcases Nat.lt_succ_iff_lt_or_eq.1 hj with hlt | rfl
        · exact hfailed j hlt
        · exact hattempt
      simp only [loop, hattempt] at hloop
      split_ifs at hloop with hover
      · obtain ⟨hwrap, rfl⟩ := (over_limit_iff hk).1 hover
        cases hloop
        exact .gaveUp ⟨hwrap, fun j hj => hfailed' j (Nat.lt_succ_of_le hj)⟩
      · refine ih hfailed' (fun hwrap => ?_) (ofNat_succ k ▸ hloop)
        have := hk hwrap
        have hne : k ≠ limit.toNat := fun heq => hover ((over_limit_iff hk).2 ⟨hwrap, heq⟩)
        omega

theorem loop_of_ends (h : Ends limit attempt r) (hk : k < r.attempts)
    (hfuel : r.attempts ≤ fuel + k) :
    loop limit attempt fuel k (BitVec.ofNat w k) = some r := by
  induction fuel generalizing k with
  | zero => omega
  | succ fuel ih =>
    have hnext : k + 1 < r.attempts →
        loop limit attempt fuel (k + 1) (BitVec.ofNat w k + 1) = some r := by
      intro hlt
      exact ofNat_succ k ▸ ih hlt (by omega)
    cases h with
    | @success a n hfailed hn hlimit =>
      simp only at hk hnext
      by_cases hkn : k = n
      · simp only [loop, hkn, hn]
      · have hnot : ¬ BitVec.ofNat w k + 1 > limit := by
          rw [over_limit_iff fun hwrap => by have := hlimit hwrap; omega]
          rintro ⟨hwrap, rfl⟩
          have := hlimit hwrap
          omega
        simp only [loop, hfailed k (by omega), if_neg hnot]
        exact hnext (by omega)
    | gaveUp hgives =>
      simp only at hk hnext
      simp only [loop, hgives.2 k (by omega)]
      have hover : BitVec.ofNat w k + 1 > limit ↔ limit.toNat + 1 < 2 ^ w ∧ k = limit.toNat :=
        over_limit_iff fun _ => by omega
      by_cases hlast : k = limit.toNat
      · rw [if_pos (hover.2 ⟨hgives.1, hlast⟩), hlast]
      · rw [if_neg fun h => hlast (hover.1 h).2]
        exact hnext (by omega)

theorem ends_of_retry (h : retry limit attempt fuel = some r) : Ends limit attempt r :=
  ends_of_loop (k := 0) (fun j hj => absurd hj (Nat.not_lt_zero j)) (fun _ => Nat.zero_le _) h

theorem retry_of_ends (h : Ends limit attempt r) (hfuel : r.attempts ≤ fuel) :
    retry limit attempt fuel = some r := by
  refine loop_of_ends (k := 0) h ?_ hfuel
  cases h <;> exact Nat.succ_pos _

/-! ## What it ends with -/

theorem Ends.value_eq_none_iff (h : Ends limit attempt r) :
    r.value = none ↔ GivesUp limit attempt := by
  cases h with
  | success _ hk hlimit =>
    refine iff_of_false nofun fun hgives => ?_
    exact nomatch hk.symm.trans (hgives.2 _ (hlimit hgives.1))
  | gaveUp hgives => exact iff_of_true rfl hgives

/-- Its value is that of the last attempt, which is the first success. -/
theorem Ends.first (h : Ends limit attempt r) {a : α} (ha : r.value = some a) :
    ∃ k, r.attempts = k + 1 ∧ (∀ j < k, attempt j = none) ∧ attempt k = some a := by
  cases h with
  | success hfailed hk => exact ⟨_, rfl, hfailed, hk.trans ha⟩
  | gaveUp => cases ha

theorem Ends.unique {r' : Result α} (h : Ends limit attempt r) (h' : Ends limit attempt r') :
    r = r' := by
  have hr := retry_of_ends h (Nat.le_max_left r.attempts r'.attempts)
  have hr' := retry_of_ends h' (Nat.le_max_right r.attempts r'.attempts)
  exact Option.some.inj (hr.symm.trans hr')

/-- **When the attempts are bounded**: whenever the limit is not the largest word, and otherwise if
some attempt succeeds before the count wraps. -/
theorem exists_attempts_le_iff :
    (∃ r, Ends limit attempt r ∧ r.attempts ≤ limit.toNat + 1) ↔
      limit.toNat + 1 < 2 ^ w ∨ ∃ k < 2 ^ w, (attempt k).isSome := by
  have hlimit := limit.isLt
  constructor
  · rintro ⟨r, h, hle⟩
    cases h with
    | @success a k _ hk =>
      simp only at hle
      exact .inr ⟨k, by omega, by rw [hk, Option.isSome_some]⟩
    | gaveUp hgives => exact .inl hgives.1
  · intro h
    by_cases hex : ∃ k, k ≤ limit.toNat ∧ (attempt k).isSome
    · obtain ⟨hle, hsome⟩ := Nat.find_spec hex
      obtain ⟨a, ha⟩ := Option.isSome_iff_exists.1 hsome
      refine ⟨_, .success (fun j hj => ?_) ha fun _ => hle, Nat.succ_le_succ hle⟩
      have hnot := Nat.find_min hex hj
      rw [not_and, Option.not_isSome_iff_eq_none] at hnot
      exact hnot (by omega)
    · have hnone : ∀ k ≤ limit.toNat, attempt k = none := by
        intro k hk
        by_contra hne
        exact hex ⟨k, hk, Option.isSome_iff_ne_none.2 hne⟩
      rcases h with hwrap | ⟨k, hk, hsome⟩
      · exact ⟨_, .gaveUp ⟨hwrap, hnone⟩, Nat.le_refl _⟩
      · by_cases hwrap : limit.toNat + 1 < 2 ^ w
        · exact ⟨_, .gaveUp ⟨hwrap, hnone⟩, Nat.le_refl _⟩
        · exact absurd ⟨k, by omega, hsome⟩ hex

end Retry
