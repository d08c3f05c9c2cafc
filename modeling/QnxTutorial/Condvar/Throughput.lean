import QnxTutorial.Condvar.Wakeup
import QnxTutorial.Monitor.Pace

/-!
# The state machine keeps moving

A thread that finds the state of another goes to sleep, so only the thread whose turn it is runs
on, and it changes the state. Since the state machine comes by every state within six transitions,
no thread is left out.

**Theorem (`keeps_moving`).** Some thread can always go on, and in every stretch of a run every
thread leaves its state in proportion to the length of the stretch.
-/

namespace QnxTutorial.Condvar

open Monitor

instance : Fintype Tid where
  elems := {.state0, .state1, .state2, .state3}
  complete i := by cases i <;> decide

/-! ## The ranks -/

/-- How far a thread is from leaving its state, or from going to sleep. -/
def Pc.rank {L : Type} : Pc L → ℕ
  | .wait _ | .leave _ => 1
  | .test _ => 2
  | .lock _ => 3
  | .unlock _ => 4
  | .broadcast _ => 17

theorem Pc.rank_le {L : Type} (pc : Pc L) : pc.rank ≤ 17 := by
  cases pc <;> simp [rank]

theorem Act.rank_lt {i : Tid} {pc k : Pc (Local i)} {s s' : Shared} (h : Act i pc s s' k) :
    k.rank + 17 * s.assigned.length < pc.rank + 17 * s'.assigned.length := by
  cases h with
  | notMine | mine => simp [Pc.rank]
  | leave =>
    simp only [Pc.rank, Shared.left, List.length_append, List.length_singleton]
    omega

/-- A transition pays for seventeen steps. -/
def pace : Pace program where
  know _ _ _ := True
  rank _ := Pc.rank
  stock _ := 0
  goals s := s.assigned.length
  worth := 17
  wake := 3
  lock {i pc k} hc := by cases pc <;> cases handler_of_code hc; simp [Pc.rank]
  unlock {i pc k} hc := by cases pc <;> cases handler_of_code hc; simp [Pc.rank]
  wait {i pc k} hc := by cases pc <;> cases handler_of_code hc; simp [Pc.rank]
  signal {i pc k} hc := by cases pc <;> cases handler_of_code hc
  broadcast {i pc k} hc := by
    cases pc <;> cases handler_of_code hc
    show 4 + Fintype.card Tid * 3 < 17
    decide
  act {i pc k s s' e f} hc hf _ := (code_act hc hf).rank_lt

theorem potential_le (c : Config program) : pace.potential c ≤ 68 := by
  have hthread : ∀ i ∈ Finset.univ, pace.ofThread i (c.thread i) ≤ 17 := by
    intro i _
    cases c.thread i with
    | run pc => exact Pc.rank_le pc
    | asleep => exact Nat.zero_le _
    | woken => show 3 ≤ 17; decide
  have htotal : pace.total c.thread ≤ Fintype.card Tid • 17 :=
    Finset.sum_le_card_nsmul _ _ _ hthread
  exact htotal

/-! ## Every thread's turn comes -/

/-- How often thread `i` has left its state. -/
def Shared.turns (s : Shared) (i : Tid) : ℕ := (s.assigned.map (own ∘ Prod.fst)).count (own i)

/-- How often the state of thread `i` is left in the first `n` transitions. -/
def turns (i : Tid) (n : ℕ) : ℕ :=
  ((List.range n).map fun k => (chart k).state).count (own i)

theorem Inv.turns {s : Shared} (h : Inv s) (i : Tid) :
    s.turns i = Condvar.turns i s.assigned.length := by
  rw [Shared.turns, h.leavers]
  rfl

theorem turns_succ (i : Tid) (n : ℕ) :
    turns i (n + 1) = turns i n + if (chart n).state = own i then 1 else 0 := by
  simp [turns, List.range_succ, List.count_append, List.count_singleton]

theorem turns_mono (i : Tid) : Monotone (turns i) := by
  apply monotone_nat_of_le_succ
  intro n
  rw [turns_succ]
  exact Nat.le_add_right _ _

/-- Where the state of a thread comes in the period. -/
def offset : Tid → ℕ
  | .state0 => 0
  | .state1 => 1
  | .state2 => 2
  | .state3 => 5

theorem chart_offset (i : Tid) (q : ℕ) : (chart (6 * q + offset i)).state = own i := by
  have hodd : (2 * q + 1) % 2 = 1 := by omega
  cases i <;> simp [offset, chart, chart_mul_six, Chart.next, own, hodd]

theorem turns_add_six (i : Tid) (n : ℕ) : turns i n + 1 ≤ turns i (n + 6) := by
  have hoffset : offset i < 6 := by cases i <;> decide
  obtain ⟨k, hk, hlt, hturn⟩ : ∃ k, n ≤ k ∧ k < n + 6 ∧ (chart k).state = own i := by
    by_cases h : n % 6 ≤ offset i
    · exact ⟨6 * (n / 6) + offset i, by omega, by omega, chart_offset i _⟩
    · exact ⟨6 * (n / 6 + 1) + offset i, by omega, by omega, chart_offset i _⟩
  calc turns i n + 1 ≤ turns i k + 1 := Nat.add_le_add_right (turns_mono i hk) 1
    _ = turns i (k + 1) := by rw [turns_succ, if_pos hturn]
    _ ≤ turns i (n + 6) := turns_mono i hlt

theorem turns_add_mul_six (i : Tid) (n q : ℕ) : turns i n + q ≤ turns i (n + 6 * q) := by
  induction q with
  | zero => exact Nat.le_refl _
  | succ q ih =>
    have hsix := turns_add_six i (n + 6 * q)
    rw [show n + 6 * (q + 1) = n + 6 * q + 6 by omega]
    omega

/-- The transitions that a thread sees itself are a sixth of all. -/
theorem le_turns (i : Tid) (n n' : ℕ) : n' ≤ n + 6 * (turns i n' - turns i n) + 5 := by
  by_cases hle : n ≤ n'
  · have hmul := turns_add_mul_six i n ((n' - n) / 6)
    have hmono : turns i (n + 6 * ((n' - n) / 6)) ≤ turns i n' := turns_mono i (by omega)
    omega
  · omega

/-! ## The theorem -/

/-- **The state machine keeps moving.** Of `n` steps with `m` spurious wake-ups in between, at
least `(n - 153 - 3 * m) / 102` are those by which thread `i` leaves its state. -/
theorem keeps_moving (c d : Config program) (h : Reachable c) (n m : ℕ) (hp : Path c n m d) :
    (∃ d', Proper d d') ∧
    ∀ i, n ≤ 153 + 102 * (d.shared.turns i - c.shared.turns i) + 3 * m := by
  have hd : Reachable d := h.path hp
  have hawake : ¬ d.AllAsleep := by
    intro hall
    obtain ⟨i, hi⟩ := exists_own d.shared.assigned.length
    obtain ⟨k, hk⟩ := hall i
    exact state_ne_of_asleep hd (hd.owned.mutex_of_allAsleep hall) hk
      ((inv_of_reachable hd).state.trans hi)
  constructor
  · obtain ⟨i, hi⟩ := hd.owned.exists_ready program_live hawake
    exact pace.exists_step hi
  · intro i
    have hbound : n + pace.potential d + 17 * c.shared.assigned.length ≤
        pace.potential c + 17 * d.shared.assigned.length + 3 * m :=
      Pace.bound (K := pace) h hp fun _ _ _ _ => trivial
    have hpotential := potential_le c
    have hturns := le_turns i c.shared.assigned.length d.shared.assigned.length
    rw [(inv_of_reachable hd).turns, (inv_of_reachable h).turns]
    omega

deriving instance DecidableEq for Pc

instance : (i : Tid) → DecidableEq (program.Pc i)
  | .state1 => inferInstanceAs (DecidableEq (Pc (BitVec 32)))
  | .state0 | .state2 | .state3 => inferInstanceAs (DecidableEq (Pc Unit))

/-- Twice `k` rounds, with five steps of each thread whose turn it is. -/
def rounds (k : ℕ) : List (Move Tid Unit) :=
  (List.replicate k [Tid.state0, .state1, .state2, .state0, .state1, .state3]).flatten.flatMap
    fun i => List.replicate 5 (.step i ())

/-- In so long a run every thread has had its turn. -/
theorem keeps_moving_six : ∃ d, Reachable d ∧ Path (.init program start) 180 0 d ∧
    (∃ d', Proper d d') ∧ ∀ i, 0 < d.shared.turns i := by
  obtain ⟨d, hd⟩ := Option.isSome_iff_exists.1 (show
    (playOn (.init program start) (rounds 6)).isSome by decide +kernel)
  have hinit : Reachable (.init program start) := .init rfl
  have hlength : 0 + (rounds 6).length = 180 := by decide +kernel
  have hpath : Path (.init program start) 180 0 d := hlength ▸ Path.playOn .refl hd
  obtain ⟨hgoes, hbound⟩ := keeps_moving _ d hinit 180 0 hpath
  refine ⟨d, hinit.path hpath, hpath, hgoes, fun i => ?_⟩
  have hi := hbound i
  omega

end QnxTutorial.Condvar
