import Mathlib.Algebra.BigOperators.Ring.Finset
import Mathlib.Algebra.Order.BigOperators.Group.Finset

/-!
# Counting steps by a potential

A system takes steps of its own, and there are events that it can do nothing about. If its own
steps use up a potential, unless they achieve something, then the number of steps in a run is
bounded by what is achieved and by the number of events.

**Theorem (`Path.bound`).** The steps of a run are at most the potential at the start, so much for
each goal that is achieved, and so much for each event.
-/

namespace Potential

variable {α : Type} {Step Event : α → α → Prop} {a b c : α} {n m : ℕ}

/-- A run of `n` steps with `m` events in between. -/
inductive Path (Step Event : α → α → Prop) (a : α) : ℕ → ℕ → α → Prop
  | refl : Path Step Event a 0 0 a
  | step {n m : ℕ} {b c : α} : Path Step Event a n m b → Step b c → Path Step Event a (n + 1) m c
  | event {n m : ℕ} {b c : α} : Path Step Event a n m b → Event b c → Path Step Event a n (m + 1) c

theorem Path.invariant {J : α → Prop} (hp : Path Step Event a n m b)
    (hstep : ∀ b c, J b → Step b c → J c) (hevent : ∀ b c, J b → Event b c → J c) (ha : J a) :
    J b := by
  induction hp with
  | refl => exact ha
  | step _ hst ih => exact hstep _ _ ih hst
  | event _ he ih => exact hevent _ _ ih he

/-- **The steps are paid for** by the potential, by goals that are worth so many steps, and by
events, which add to the potential. -/
theorem Path.bound {J : α → Prop} {F G : α → ℕ} {worth gain : ℕ}
    (hp : Path Step Event a n m b) (hJ : ∀ {n m c}, Path Step Event a n m c → J c)
    (hstep : ∀ b c, J b → Step b c → F c + worth * G b < F b + worth * G c)
    (hevent : ∀ b c, J b → Event b c → F c + worth * G b ≤ F b + worth * G c + gain) :
    n + F b + worth * G a ≤ F a + worth * G b + gain * m := by
  induction hp with
  | refl => omega
  | step hp hst ih =>
    have := hstep _ _ (hJ hp) hst
    omega
  | event hp he ih =>
    have := hevent _ _ (hJ hp) he
    rw [Nat.mul_succ]
    omega

/-! ## The total over the parts of a system -/

variable {ι : Type} [Fintype ι] [DecidableEq ι] {β : ι → Type}

theorem sum_update (f : (i : ι) → β i → ℕ) (t : (i : ι) → β i) (i : ι) (x : β i) :
    ∑ j, f j (Function.update t i x j) + f i (t i) = ∑ j, f j (t j) + f i x := by
  have hrest : ∑ j ∈ Finset.univ.erase i, f j (Function.update t i x j) =
      ∑ j ∈ Finset.univ.erase i, f j (t j) := by
    apply Finset.sum_congr rfl
    intro j hj
    rw [Function.update_of_ne (Finset.ne_of_mem_erase hj)]
  rw [← Finset.add_sum_erase _ _ (Finset.mem_univ i),
    ← Finset.add_sum_erase _ (fun j => f j (t j)) (Finset.mem_univ i), hrest,
    Function.update_self]
  omega

end Potential
