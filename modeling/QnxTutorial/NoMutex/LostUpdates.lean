import QnxTutorial.Monitor.Schedule
import QnxTutorial.NoMutex.Program

/-!
# Updates get lost

A thread that has read `var1` and is then preempted for a while writes back what it read, and all
that the others did to `var1` in the meantime is gone. With two threads or more there is no bound
on what is lost.

**Theorem (`loses_updates`).** For every `k` there is a run with `k + 1` iterations at the end of
which `main` prints 1 for `var1`, and the right number for `var2`.
-/

namespace QnxTutorial.NoMutex

open Monitor MutexSync

variable {n : ℕ} {c : Config (program n)} {i : Fin n} {j : ℕ} {s : Shared n}

/-- Thread `i` at `pc` and the globals `s`, everything else as in `c`. -/
abbrev at_ (c : Config (program n)) (i : Fin n) (pc : UpdatePc) (s : Shared n) :
    Config (program n) :=
  c.put (.update i) pc s

theorem reach_at (h : Reachable c) {pc : UpdatePc} (hi : updateAt c i = .run pc) :
    Reachable (at_ c i pc c.shared) := by
  rw [at_, Config.put_self hi]
  exact h

theorem at_ne {pc : UpdatePc} {i' : Fin n} (hi : i' ≠ i) :
    updateAt (at_ c i pc s) i' = updateAt c i' := by
  apply Config.put_thread_ne
  intro heq
  cases heq
  exact hi rfl

/-! ## Iterations of one thread -/

/-- From the head of the loop to the first assignment, if the variables agree. -/
theorem reach_first (h : Reachable (at_ c i (.loop j) s)) (hdone : s.done = 0)
    (heq : s.var1 = s.var2) : ∃ v, Reachable (at_ c i (.read j .add1) { s with var3 := v }) := by
  have hcompare1 : Reachable (at_ c i (.compare1 j) s) :=
    h.put (e := ()) rfl (by rw [if_pos hdone]; rfl)
  have hcompare2 : Reachable (at_ c i (.compare2 j s.var1) s) := hcompare1.put (e := ()) rfl rfl
  have hread : Reachable (at_ c i (.readVar3 j) s) :=
    hcompare2.put (e := ()) rfl (by rw [if_neg (not_not.2 heq)]; rfl)
  have hwrite : Reachable (at_ c i (.writeVar3 j (s.var3 + 1)) s) := hread.put (e := ()) rfl rfl
  have htest : Reachable (at_ c i (.testVar3 j) { s with var3 := s.var3 + 1 }) :=
    hwrite.put (e := ()) rfl rfl
  exact ⟨_, htest.put (e := ()) rfl rfl⟩

theorem reach_write {u : Update} {v : BitVec 32} (u' : Update)
    (h : Reachable (at_ c i (.write j u v) s)) (hnext : u.next = some u') :
    Reachable (at_ c i (.read j u') (u.assign v s)) := by
  cases u <;> cases hnext <;> exact h.put (e := ()) rfl rfl

theorem reach_read {u : Update} (h : Reachable (at_ c i (.read j u) s)) :
    Reachable (at_ c i (.write j u (u.value (u.var s))) s) :=
  h.put (e := ()) rfl rfl

/-- From the write of the first assignment to the head of the loop. `v` is what the thread has
found in `var1`, plus 2. -/
theorem reach_rest {v : BitVec 32} (h : Reachable (at_ c i (.write j .add1 v) s)) :
    ∃ counts, Reachable (at_ c i (.loop (j + 1))
      { s with var1 := v - 1, var2 := s.var2 + 1, counts := counts }) := by
  have hdec1 := reach_read (reach_write .dec1 h rfl)
  have hadd2 := reach_read (reach_write .add2 hdec1 rfl)
  have hdec2 := reach_read (reach_write .dec2 hadd2 rfl)
  have hloop := hdec2.put (e := ()) (k := UpdatePc.loop (j + 1)) rfl rfl
  have hvar2 : s.var2 + 2 - 1 = s.var2 + 1 := by bv_omega
  refine ⟨s.counts + Pi.single i 1, ?_⟩
  rw [← hvar2]
  exact hloop

theorem reach_iteration (h : Reachable (at_ c i (.loop j) s)) (hdone : s.done = 0)
    (heq : s.var1 = s.var2) : ∃ v counts, Reachable (at_ c i (.loop (j + 1))
      { s with var1 := s.var1 + 1, var2 := s.var2 + 1, var3 := v, counts := counts }) := by
  obtain ⟨v, hfirst⟩ := reach_first h hdone heq
  obtain ⟨counts, hrest⟩ := reach_rest (reach_read hfirst)
  have hvar1 : s.var1 + 2 - 1 = s.var1 + 1 := by bv_omega
  refine ⟨v, counts, ?_⟩
  rw [← hvar1]
  exact hrest

theorem reach_iterations (k : ℕ) (h : Reachable (at_ c i (.loop j) s)) (hdone : s.done = 0)
    (heq : s.var1 = s.var2) : ∃ v counts, Reachable (at_ c i (.loop (j + k))
      { s with
        var1 := s.var1 + BitVec.ofNat 32 k
        var2 := s.var2 + BitVec.ofNat 32 k
        var3 := v
        counts := counts }) := by
  induction k with
  | zero =>
    refine ⟨s.var3, s.counts, ?_⟩
    rw [BitVec.add_zero, BitVec.add_zero]
    exact h
  | succ k ih =>
    obtain ⟨v, counts, hk⟩ := ih
    obtain ⟨v', counts', hsucc⟩ := reach_iteration hk hdone (congrArg (· + _) heq)
    refine ⟨v', counts', ?_⟩
    rw [BitVec.ofNat_add, ← BitVec.add_assoc, ← BitVec.add_assoc]
    exact hsucc

/-! ## The end -/

theorem reach_exited (h : Reachable (at_ c i (.loop j) s)) (hdone : s.done ≠ 0) :
    Reachable (at_ c i (.exited j) { s with exited := Function.update s.exited i true }) := by
  have hleave : Reachable (at_ c i (.leave j) s) :=
    h.put (e := ()) rfl (by rw [if_neg hdone]; rfl)
  exact hleave.put (e := ()) rfl rfl

/-- What threads of `l` that exit leave as it is. -/
structure Exits (l : List (Fin n)) (iterations : Fin n → ℕ) (c c' : Config (program n)) :
    Prop where
  exited : ∀ i ∈ l, updateAt c' i = .run (.exited (iterations i)) ∧ c'.shared.exited i = true
  others : ∀ i, i ∉ l → updateAt c' i = updateAt c i ∧ c'.shared.exited i = c.shared.exited i
  main : mainAt c' = mainAt c
  var1 : c'.shared.var1 = c.shared.var1
  var2 : c'.shared.var2 = c.shared.var2

theorem exists_exits {iterations : Fin n → ℕ} (l : List (Fin n)) (hl : l.Nodup) (h : Reachable c)
    (hdone : c.shared.done ≠ 0) (hloop : ∀ i ∈ l, updateAt c i = .run (.loop (iterations i))) :
    ∃ c', Reachable c' ∧ Exits l iterations c c' := by
  induction l generalizing c with
  | nil => exact ⟨c, h, nofun, fun _ _ => ⟨rfl, rfl⟩, rfl, rfl, rfl⟩
  | cons i l ih =>
    obtain ⟨hi, hl⟩ := List.nodup_cons.1 hl
    have hexit := reach_exited (reach_at h (hloop i (List.mem_cons_self ..))) hdone
    obtain ⟨c', hc', hexits⟩ := ih hl hexit hdone fun j hj => by
      have hji : j ≠ i := fun heq => hi (heq ▸ hj)
      rw [at_ne hji]
      exact hloop j (List.mem_cons_of_mem _ hj)
    refine ⟨c', hc', ?_, ?_, hexits.main, hexits.var1, hexits.var2⟩
    · intro j hj
      rcases List.mem_cons.1 hj with rfl | hj
      · obtain ⟨hat, hflag⟩ := hexits.others j hi
        exact ⟨hat.trans (Config.put_thread_self ..), hflag.trans (Function.update_self ..)⟩
      · exact hexits.exited j hj
    · intro j hj
      obtain ⟨hji, hj⟩ := not_or.1 (mt List.mem_cons.2 hj)
      obtain ⟨hat, hflag⟩ := hexits.others j hj
      exact ⟨hat.trans (at_ne hji), hflag.trans (Function.update_of_ne hji ..)⟩

theorem reach_printed (h : Reachable c) (hmain : mainAt c = .run (.join 0))
    (hexited : ∀ i, c.shared.exited i = true) : Reachable
      (c.put .main (MainPc.printed c.shared.var1 c.shared.var2) c.shared) := by
  have hjoin : ∀ j ≤ n, Reachable (c.put .main (MainPc.join j) c.shared) := by
    intro j hj
    induction j with
    | zero =>
      rw [Config.put_self hmain]
      exact h
    | succ j ih =>
      exact (ih (Nat.le_of_succ_le hj)).put (e := ()) rfl (join_exited hj (hexited ⟨j, hj⟩))
  have hread : Reachable (c.put .main MainPc.readVar1 c.shared) :=
    (hjoin n (Nat.le_refl n)).put (e := ()) rfl (join_end (Nat.lt_irrefl n))
  exact (hread.put (e := ()) rfl rfl).put (e := ()) rfl rfl

/-! ## The run -/

theorem at_main {pc : UpdatePc} : mainAt (at_ c i pc s) = mainAt c :=
  Config.put_thread_ne (i := Tid.update i) (j := .main) c pc s nofun

/-- What a run in which thread `i` is preempted by `k` iterations of thread `i'` leads to. -/
structure Preempted (i i' : Fin n) (k : ℕ) (c c' : Config (program n)) : Prop where
  first : ∀ j, updateAt c i = .run (.loop j) → updateAt c' i = .run (.loop (j + 1))
  second : ∀ j, updateAt c i' = .run (.loop j) → updateAt c' i' = .run (.loop (j + k))
  others : ∀ l, l ≠ i → l ≠ i' → updateAt c' l = updateAt c l
  main : mainAt c' = mainAt c
  done : c'.shared.done = c.shared.done
  var1 : c'.shared.var1 = c.shared.var1 + 1
  var2 : c'.shared.var2 = c.shared.var2 + BitVec.ofNat 32 (k + 1)

/-- **The lost updates.** Of `k + 1` iterations, `var1` has only one. -/
theorem exists_preempted {i' : Fin n} (hne : i' ≠ i) {j' : ℕ} (h : Reachable c)
    (hi : updateAt c i = .run (.loop j)) (hi' : updateAt c i' = .run (.loop j'))
    (hdone : c.shared.done = 0) (heq : c.shared.var1 = c.shared.var2) (k : ℕ) :
    ∃ c', Reachable c' ∧ Preempted i i' k c c' := by
  -- The first thread reads `var1` and is preempted.
  obtain ⟨v, hfirst⟩ := reach_first (reach_at h hi) hdone heq
  have hstale := reach_read hfirst
  -- The second thread makes its iterations.
  obtain ⟨v', counts, hsecond⟩ :=
    reach_iterations k (reach_at hstale ((at_ne hne).trans hi')) hdone heq
  -- The first thread goes on with what it has read.
  obtain ⟨counts', hrest⟩ :=
    reach_rest (reach_at hsecond ((at_ne hne.symm).trans (Config.put_thread_self ..)))
  refine ⟨_, hrest, ?_, ?_, ?_, ?_, rfl, ?_, ?_⟩
  · intro a ha
    cases hi.symm.trans ha
    exact Config.put_thread_self ..
  · intro a ha
    cases hi'.symm.trans ha
    exact (at_ne hne).trans (Config.put_thread_self ..)
  · intro l hl hl'
    exact (at_ne hl).trans ((at_ne hl').trans (at_ne hl))
  · exact at_main.trans (at_main.trans at_main)
  · show c.shared.var1 + 2 - 1 = _
    bv_omega
  · show c.shared.var2 + BitVec.ofNat 32 k + 1 = _
    rw [BitVec.ofNat_add, BitVec.add_assoc]
    rfl

/-- One iteration of the first thread, `k` of the second. -/
def iterations (n k : ℕ) : Fin (n + 2) → ℕ := Fin.cons 1 (Fin.cons k fun _ => 0)

theorem sum_iterations (n k : ℕ) : ∑ i, iterations n k i = k + 1 := by
  simp [iterations, Fin.sum_univ_succ, Nat.add_comm]

/-- **Updates get lost.** The first thread completes one iteration, the second `k`, and there may
be more threads that do nothing. -/
theorem loses_updates (n k : ℕ) : ∃ c : Config (program (n + 2)), Reachable c ∧
    (∃ iterations : Fin (n + 2) → ℕ, (∀ i, updateAt c i = .run (.exited (iterations i))) ∧
      ∑ i, iterations i = k + 1) ∧
    mainAt c = .run (.printed 1 (BitVec.ofNat 32 (k + 1))) := by
  have h : Reachable (.init (program (n + 2)) (start (n + 2))) := .init rfl
  have hstart : ∀ i, updateAt (.init (program (n + 2)) (start (n + 2))) i = .run (.loop 0) :=
    fun _ => rfl
  obtain ⟨c₁, h₁, hpreempted⟩ :=
    exists_preempted Fin.zero_ne_one.symm h (hstart 0) (hstart 1) rfl rfl k
  have hloop : ∀ i, updateAt c₁ i = .run (.loop (iterations n k i)) := by
    intro i
    refine Fin.cases ?_ (Fin.cases ?_ ?_) i
    · exact hpreempted.first 0 rfl
    · have := hpreempted.second 0 rfl
      rwa [Nat.zero_add] at this
    · intro l
      exact hpreempted.others l.succ.succ (Fin.succ_ne_zero _)
        (fun heq => Fin.succ_ne_zero l (Fin.succ_injective _ heq))
  -- `main` sets `done`, and everybody leaves.
  have hdone : Reachable (c₁.put .main (MainPc.join 0) { c₁.shared with done := 1 }) := by
    have hsleep : c₁.put .main MainPc.sleep c₁.shared = c₁ := Config.put_self hpreempted.main
    rw [← hsleep] at h₁
    exact h₁.put (e := ()) rfl rfl
  obtain ⟨c₂, h₂, hexits⟩ := exists_exits (List.finRange (n + 2)) (List.nodup_finRange _) hdone
    (by decide : (1 : BitVec 32) ≠ 0) fun i _ =>
      (Config.put_thread_ne (i := Tid.main) (j := .update i) c₁ _ _ nofun).trans (hloop i)
  have hjoin : mainAt c₂ = .run (.join 0) := hexits.main.trans (Config.put_thread_self ..)
  have hprinted := reach_printed h₂ hjoin fun i => (hexits.exited i (List.mem_finRange i)).2
  have hvar1 : c₂.shared.var1 = 1 := hexits.var1.trans hpreempted.var1
  have hvar2 : c₂.shared.var2 = BitVec.ofNat 32 (k + 1) :=
    hexits.var2.trans (hpreempted.var2.trans (BitVec.zero_add _))
  rw [hvar1, hvar2] at hprinted
  refine ⟨_, hprinted, ⟨iterations n k, ?_, sum_iterations n k⟩, Config.put_thread_self ..⟩
  intro i
  exact (Config.put_thread_ne (i := Tid.main) (j := .update i) c₂ _ _ nofun).trans
    (hexits.exited i (List.mem_finRange i)).1

end QnxTutorial.NoMutex
