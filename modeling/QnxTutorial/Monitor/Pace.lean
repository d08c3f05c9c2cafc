import QnxTutorial.Monitor.Shares

/-!
# Shares that depend on the control point

In most programs the share of a thread is the *rank* of its control point, whatever the shared data
are. A sleeping thread has no share, and gets a fixed one when it is woken.

**Theorem (`Pace.bound`).** In every run, the number of steps is bounded by the goals achieved and
the spurious wake-ups.
-/

namespace Monitor

variable {ι σ ε : Type} {P : Program ι σ ε} [DecidableEq ι] {I : σ → Prop} {c c' d : Config P}
  {n m : ℕ}

/-- The accounting with ranks. The shared data have a `stock` to pay from later, a goal pays for
`worth` steps, and `wake` is the rank of a thread that was woken. -/
structure Pace (P : Program ι σ ε) [Fintype ι] where
  know : (i : ι) → P.Pc i → σ → Prop
  rank : (i : ι) → P.Pc i → ℕ
  stock : σ → ℕ
  goals : σ → ℕ
  worth : ℕ
  wake : ℕ
  lock : ∀ {i pc k}, P.code i pc = .lock k → rank i k < rank i pc
  unlock : ∀ {i pc k}, P.code i pc = .unlock k → rank i k < rank i pc
  wait : ∀ {i pc k}, P.code i pc = .wait k → 0 < rank i pc ∧ rank i k < wake
  signal : ∀ {i pc k}, P.code i pc = .signal k → rank i k + wake < rank i pc
  broadcast : ∀ {i pc k}, P.code i pc = .broadcast k →
    rank i k + Fintype.card ι * wake < rank i pc
  act : ∀ {i pc k s s' e f}, P.code i pc = .act f → f e s = some (s', k) → know i pc s →
    rank i k + stock s' + worth * goals s < rank i pc + stock s + worth * goals s'

namespace Pace

variable [Fintype ι] (K : Pace P)

/-- The rank of a thread. -/
def ofThread (i : ι) : Thread (P.Pc i) → ℕ
  | .run pc => K.rank i pc
  | .asleep _ => 0
  | .woken _ => K.wake

/-- The rank of all threads. -/
def total (t : (i : ι) → Thread (P.Pc i)) : ℕ := ∑ i, K.ofThread i (t i)

/-- The steps that are paid for. -/
def potential (c : Config P) : ℕ := K.total c.thread + K.stock c.shared

/-- The ranks as shares. -/
def shares : Shares P where
  know := K.know
  share i t _ := K.ofThread i t
  stock := K.stock
  goals := K.goals
  worth := K.worth
  grow := 0
  wake := K.wake
  lock := K.lock
  unlock := K.unlock
  wait hc := (K.wait hc).1
  relock hc := (K.wait hc).2
  woken := Nat.le_add_left ..
  signal := K.signal
  broadcast := K.broadcast
  act := K.act
  others _ _ _ _ _ _ := by simp

/-- What is known at the control points where the threads are. -/
def Knows (c : Config P) : Prop := ∀ i pc, c.thread i = .run pc → K.know i pc c.shared

variable {K}

/-- **The steps of a run** are paid for by the goals achieved and by what was paid in advance,
spurious wake-ups apart. -/
theorem bound (hc : Reach P I c) (hp : Path c n m c') (hk : ∀ {n m d}, Path c n m d → K.Knows d) :
    n + K.potential c' + K.worth * K.goals c.shared ≤
      K.potential c + K.worth * K.goals c'.shared + K.wake * m := by
  have hbound := Shares.bound (K := K.shares) hc hp hk
  rwa [show K.shares.price = K.worth from Nat.add_zero _] at hbound

/-- **A ready thread** does not wait for a spurious wake-up. -/
theorem exists_step (K : Pace P) {i : ι} (h : c.Ready i) : ∃ c', Proper c c' :=
  K.shares.exists_step h

end Pace

end Monitor
