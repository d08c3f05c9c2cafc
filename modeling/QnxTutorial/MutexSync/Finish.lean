import QnxTutorial.Monitor.Pace
import QnxTutorial.MutexSync.Counters

/-!
# The program finishes

Once `main` has set `done`, every thread completes at most the iteration that it is in, and `main`
joins them all and prints. Nothing can stop that: the threads only wait for the mutex, and whoever
holds it can give it back.

**Theorem (`finishes`).** After `done` is set a run has a bounded number of steps, and it can only
end with the number of iterations printed, twice.
-/

namespace QnxTutorial.MutexSync

open Monitor

variable {n : ℕ}

instance : Fintype (Tid n) where
  elems := insert .main (Finset.univ.image .update)
  complete i := by cases i <;> simp

/-! ## The ranks -/

/-- The assignments that are left. -/
def Update.rank : Update → ℕ
  | .add1 => 4
  | .dec1 => 3
  | .add2 => 2
  | .dec2 => 1

/-- The steps of a thread until it exits, if `done` is set. -/
def UpdatePc.rank : UpdatePc → ℕ
  | .exited _ => 0
  | .leave _ => 1
  | .loop _ => 2
  | .unlock2 _ => 3
  | .write _ u _ => 2 * u.rank + 2
  | .read _ u => 2 * u.rank + 3
  | .lock2 _ => 12
  | .work _ => 13
  | .unlock1 _ | .printf .. => 14
  | .unlockRepaired .. => 15
  | .writeVar1 .. => 16
  | .readVar2 .. => 17
  | .readLvar2 .. => 18
  | .readLvar1 _ => 19
  | .compare2 .. => 20
  | .compare1 _ => 21
  | .lock1 _ => 22

def MainPc.rank (n : ℕ) : MainPc → ℕ
  | .sleep => n + 4
  | .join i => n - i + 3
  | .readVar1 => 2
  | .readVar2 _ => 1
  | .printed .. => 0

theorem UpdateAct.rank_lt {i : Fin n} {pc l : UpdatePc} {s s' : Shared n}
    (h : UpdateAct i pc s s' l) (hdone : s.done ≠ 0) : l.rank < pc.rank := by
  cases h with
  | again h0 => exact absurd h0 hdone
  | @write s k u u' v hu => cases u <;> cases hu <;> simp [UpdatePc.rank, Update.rank]
  | @last s k u v hu => cases u <;> cases hu; simp [UpdatePc.rank, Update.rank]
  | _ => simp [UpdatePc.rank]

theorem MainAct.rank_lt {pc l : MainPc} {s s' : Shared n} (h : MainAct pc s s' l) :
    l.rank n < pc.rank n := by
  cases h with
  | joined hi =>
    simp only [MainPc.rank]
    omega
  | _ => simp [MainPc.rank]

/-- Nothing needs to be achieved to pay for a step: the ranks go down. -/
def pace (n : ℕ) : Pace (program n) where
  know _ _ s := s.done ≠ 0
  rank
    | .main => MainPc.rank n
    | .update _ => UpdatePc.rank
  stock _ := 0
  goals _ := 0
  worth := 0
  wake := 0
  lock {i pc k} hc := by cases i <;> cases pc <;> cases hc <;> simp [UpdatePc.rank, Update.rank]
  unlock {i pc k} hc := by cases i <;> cases pc <;> cases hc <;> simp [UpdatePc.rank]
  wait {i pc k} hc := by cases i <;> cases pc <;> cases hc
  signal {i pc k} hc := by cases i <;> cases pc <;> cases hc
  broadcast {i pc k} hc := by cases i <;> cases pc <;> cases hc
  act {i pc k s s' e f} hc hf hdone := by
    cases i with
    | main => exact (main_act hc hf).rank_lt
    | update i => exact (update_act hc hf).rank_lt hdone

theorem UpdatePc.rank_le (pc : UpdatePc) : pc.rank ≤ 22 := by
  cases pc with
  | read k u => cases u <;> simp [rank, Update.rank]
  | write k u => cases u <;> simp [rank, Update.rank]
  | _ => simp [rank]

theorem MainPc.rank_le (pc : MainPc) : pc.rank n ≤ n + 4 := by
  cases pc <;> simp only [rank] <;> omega

theorem sum_tid (f : Tid n → ℕ) : ∑ i, f i = f .main + ∑ i, f (.update i) := by
  have hinj : Function.Injective (Tid.update : Fin n → Tid n) := fun _ _ h => by cases h; rfl
  show ∑ i ∈ insert Tid.main (Finset.univ.image Tid.update), f i = _
  rw [Finset.sum_insert (by simp), Finset.sum_image hinj.injOn]

theorem potential_le (c : Config (program n)) : (pace n).potential c ≤ 23 * n + 4 := by
  have hmain : (pace n).ofThread .main (mainAt c) ≤ n + 4 := by
    cases mainAt c with
    | run pc => exact MainPc.rank_le pc
    | asleep | woken => exact Nat.zero_le _
  have hupdate : ∀ i ∈ Finset.univ, (pace n).ofThread (.update i) (updateAt c i) ≤ 22 := by
    intro i _
    cases updateAt c i with
    | run pc => exact UpdatePc.rank_le pc
    | asleep | woken => exact Nat.zero_le _
  have hupdates : ∑ i, (pace n).ofThread (.update i) (updateAt c i) ≤ Fintype.card (Fin n) * 22 :=
    Finset.sum_le_card_nsmul _ _ _ hupdate
  have htotal : (pace n).total c.thread = (pace n).ofThread .main (mainAt c) +
      ∑ i, (pace n).ofThread (.update i) (updateAt c i) := sum_tid _
  have hstock : (pace n).stock c.shared = 0 := rfl
  rw [Fintype.card_fin] at hupdates
  unfold Pace.potential
  omega

/-! ## Nobody sleeps, and nobody is stuck -/

theorem run_of_reachable {c : Config (program n)} (h : Reachable c) (i : Tid n) :
    ∃ pc, c.thread i = .run pc :=
  h.exists_run (fun i pc k => by cases i <;> cases pc <;> nofun) i

theorem done_of_path {c d : Config (program n)} {N m : ℕ} (hp : Path c N m d)
    (hdone : c.shared.done ≠ 0) : d.shared.done ≠ 0 := by
  apply shared_invariant_of_path (J := fun s => s.done ≠ 0) hp _ hdone
  intro i pc k f e s s' hc hf hs
  cases i with
  | main =>
    cases main_act hc hf with
    | sleep => exact (by decide : (1 : BitVec 32) ≠ 0)
    | _ => exact hs
  | update i =>
    cases update_act hc hf with
    | @write s k u => cases u <;> exact hs
    | @last s k u => cases u <;> exact hs
    | _ => exact hs

/-- An update thread can go on, unless it waits for the mutex or has exited. -/
theorem ready_update {c : Config (program n)} {i : Fin n} {pc : UpdatePc}
    (hi : updateAt c i = .run pc) (hexited : pc.hasExited = false)
    (hm : if pc.holds then c.mutex = some (.update i) else c.mutex = none) :
    c.Ready (.update i) := by
  unfold Config.Ready
  simp only [show c.thread (.update i) = .run pc from hi]
  cases pc with
  | exited => cases hexited
  | lock1 | lock2 | unlockRepaired | unlock1 | unlock2 => exact hm
  | write k u v => cases u <;> exact ⟨(), _, _, rfl⟩
  | _ => exact ⟨(), _, _, rfl⟩

/-- **The end.** Where nobody can go on, all threads have exited and `main` has printed. -/
theorem printed_of_stuck {c : Config (program n)} (h : Reachable c)
    (hstuck : ∀ c', ¬ Step c c') : ∃ v₁ v₂, mainAt c = .run (.printed v₁ v₂) := by
  have hready : ∀ i, ¬ c.Ready i := by
    intro i hi
    obtain ⟨c', hstep⟩ := hi.step
    exact hstuck c' hstep
  have hfree : c.mutex = none := by
    cases hm : c.mutex with
    | none => rfl
    | some i =>
      obtain ⟨pc, hi, hin⟩ := h.owned.holder hm
      cases i with
      | main => cases hin
      | update i =>
        replace hin : UpdatePc.holds pc = true := hin
        have hexited : UpdatePc.hasExited pc = false := by
          cases pc <;> first | rfl | cases hin
        exact absurd (ready_update hi hexited (by rw [if_pos hin, hm])) (hready _)
  have hexited : ∀ i, c.shared.exited i = true := by
    intro i
    obtain ⟨pc, hi⟩ := run_of_reachable h (.update i)
    rw [(updatePre_of_reachable h hi).exited]
    by_contra hrunning
    have hout : UpdatePc.holds pc = false := h.owned.outside hfree hi
    have hm : if UpdatePc.holds pc then c.mutex = some (.update i) else c.mutex = none := by
      rw [if_neg (by rw [hout]; exact Bool.false_ne_true)]
      exact hfree
    exact hready _ (ready_update hi (Bool.not_eq_true _ ▸ hrunning) hm)
  obtain ⟨pc, hmain⟩ := run_of_reachable h .main
  have hblocked := hready .main
  unfold Config.Ready at hblocked
  simp only [hmain] at hblocked
  cases pc with
  | printed v₁ v₂ => exact ⟨v₁, v₂, hmain⟩
  | join i =>
    by_cases hi : i < n
    · exact absurd ⟨(), _, _, join_exited hi (hexited ⟨i, hi⟩)⟩ hblocked
    · exact absurd ⟨(), _, _, join_end hi⟩ hblocked
  | sleep | readVar1 | readVar2 => exact absurd ⟨(), _, _, rfl⟩ hblocked

/-- **The program finishes.** -/
theorem finishes (n : ℕ) (c d : Config (program n)) (h : Reachable c)
    (hdone : c.shared.done ≠ 0) (N m : ℕ) (hp : Path c N m d) :
    N ≤ 23 * n + 4 ∧ ((∀ d', ¬ Step d d') →
      ∃ iterations : Fin n → ℕ, (∀ i, updateAt d i = .run (.exited (iterations i))) ∧
        mainAt d = .run (.printed (BitVec.ofNat 32 (∑ i, iterations i))
          (BitVec.ofNat 32 (∑ i, iterations i)))) := by
  constructor
  · have hbound : N + (pace n).potential d + 0 * 0 ≤ (pace n).potential c + 0 * 0 + 0 * m :=
      Pace.bound (K := pace n) h hp fun hp _ _ _ => done_of_path hp hdone
    have hpotential := potential_le c
    omega
  · intro hstuck
    have hd : Reachable d := h.path hp
    obtain ⟨v₁, v₂, hmain⟩ := printed_of_stuck hd hstuck
    obtain ⟨iterations, hexited, rfl, rfl⟩ := prints_iterations hd hmain
    exact ⟨iterations, hexited, hmain⟩

/-- A thread completes an iteration, then `main` sets `done`. -/
def oneIteration : List (Tid 1 × Unit) :=
  List.replicate 16 (.update ⟨0, Nat.one_pos⟩, ()) ++ [(.main, ())]

theorem finishes_one : ∃ d : Config (program 1), Reachable d ∧ mainAt d = .run (.printed 1 1) := by
  obtain ⟨c, hc, hp⟩ := Option.map_eq_some_iff.1 (show
    (run (.init (program 1) (start 1)) oneIteration).map (fun c => c.shared.done == 1 &&
      (play c (List.replicate 2 (.step (.update 0) ()) ++
        List.replicate 4 (.step .main ()))).any fun d =>
          updateAt d 0 == .run (.exited 1) && mainAt d == .run (.printed 1 1)) =
        some true by decide)
  simp only [Bool.and_eq_true, beq_iff_eq, Option.any_eq_true] at hp
  obtain ⟨hdone, d, hd, hexited, hprinted⟩ := hp
  have hstuck : ∀ d', ¬ Step d d' := by
    intro d'
    apply not_step_of_halt
    intro i
    cases i with
    | main => exact ⟨_, hprinted, rfl⟩
    | update i => match i with | 0 => exact ⟨_, hexited, rfl⟩
  have hreach : Reachable c := Reach.run (I := (· = start 1)) (.init rfl) hc
  obtain ⟨N, m, hpath⟩ := Path.play .refl hd
  obtain ⟨iterations, hiterations, hmain⟩ :=
    (finishes 1 c d hreach (by rw [hdone]; decide) N m hpath).2 hstuck
  have hone : iterations 0 = 1 := by
    have := (hiterations 0).symm.trans hexited
    simpa using this
  rw [Fin.sum_univ_one, hone] at hmain
  exact ⟨d, hreach.path hpath, hmain⟩

end QnxTutorial.MutexSync
