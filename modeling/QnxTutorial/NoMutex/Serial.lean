import QnxTutorial.NoMutex.Program

/-!
# Without interference nothing is lost

A thread works on the two variables in two passages: from reading `var1` for the comparison to the
read of `var2`, and from the first of the four assignments to the last. In a *serial* run no two
threads are inside these passages at the same time. Then the program does what `mutex_sync.c` does
with its mutex, by the same assertions.

**Theorem (`serial_keeps_count`).** In a serial run the variables are equal whenever no thread is
inside, no thread ever reports a difference, and `main` prints the number of iterations, twice.
-/

namespace QnxTutorial.NoMutex

open Monitor MutexSync

variable {n : ℕ}

/-! ## Serial runs -/

/-- Inside one of the two passages: something was read that must not change. -/
def UpdatePc.inside : UpdatePc → Bool
  | .compare2 .. | .printVar1 _ | .printVar2 .. | .readVar2 _ | .writeVar1 .. | .write .. => true
  | .read _ u => u != .add1
  | .loop _ | .compare1 _ | .readVar3 _ | .writeVar3 .. | .testVar3 _ | .leave _ | .exited _ =>
    false

/-- Thread `i` is inside. -/
def insideAt (c : Config (program n)) (i : Fin n) : Bool :=
  match updateAt c i with
  | .run pc => pc.inside
  | .asleep _ | .woken _ => false

/-- No two threads are inside. -/
def Alone (c : Config (program n)) : Prop :=
  ∀ i j pc pc', updateAt c i = .run pc → updateAt c j = .run pc' → pc.inside = true →
    pc'.inside = true → i = j

/-- The configurations that serial runs reach. -/
inductive Serial : Config (program n) → Prop
  | init : Serial (.init _ (start n))
  | step {c c' : Config (program n)} : Serial c → Step c c' → Alone c' → Serial c'

theorem Serial.reachable {c : Config (program n)} (h : Serial c) : Reachable c := by
  induction h with
  | init => exact .init rfl
  | step _ hst _ ih => exact ih.step hst

theorem Serial.alone {c : Config (program n)} (h : Serial c) : Alone c := by
  cases h with
  | init =>
    intro i j pc pc' hi _ hin
    cases hi
    cases hin
  | step _ _ ha => exact ha

theorem exists_inside {c : Config (program n)} {i : Fin n} (h : insideAt c i = true) :
    ∃ pc, updateAt c i = .run pc ∧ pc.inside = true := by
  cases hi : updateAt c i with
  | run pc => exact ⟨pc, rfl, by simpa [insideAt, hi] using h⟩
  | asleep | woken => simp [insideAt, hi] at h

theorem alone_iff {c : Config (program n)} :
    Alone c ↔ ∀ i j, insideAt c i = true → insideAt c j = true → i = j := by
  constructor
  · intro ha i j hi hj
    obtain ⟨pc, hpc, hin⟩ := exists_inside hi
    obtain ⟨pc', hpc', hin'⟩ := exists_inside hj
    exact ha i j pc pc' hpc hpc' hin hin'
  · intro hall i j pc pc' hi hj hin hin'
    refine hall i j ?_ ?_
    · rwa [insideAt, hi]
    · rwa [insideAt, hj]

instance : DecidablePred (Alone (n := n)) := fun _ => decidable_of_iff _ alone_iff.symm

/-- Run a schedule, as long as no two threads are inside. -/
def runSerial (c : Config (program n)) : List (Tid n) → Option (Config (program n))
  | [] => some c
  | i :: rest => (exec c i ()).bind fun c' => if Alone c' then runSerial c' rest else none

theorem Serial.run {c c' : Config (program n)} (h : Serial c) {l : List (Tid n)}
    (hrun : runSerial c l = some c') : Serial c' := by
  induction l generalizing c with
  | nil =>
    cases hrun
    exact h
  | cons i rest ih =>
    obtain ⟨d, hd, hrest⟩ := Option.bind_eq_some_iff.1 hrun
    obtain ⟨ha, hrest⟩ := Option.ite_none_right_eq_some.1 hrest
    exact ih (h.step (exec_step hd) ha) hrest

/-! ## Steps -/

theorem run_of_reachable {c : Config (program n)} (h : Reachable c) (i : Tid n) :
    ∃ pc, c.thread i = .run pc :=
  h.exists_run (fun i pc k => by cases i <;> cases pc <;> nofun) i

/-- What a step can be. -/
inductive Acts (c : Config (program n)) : Config (program n) → Prop
  | main {pc l : MainPc} {s : Shared n} : mainAt c = .run pc → MainAct pc c.shared s l →
      Acts c { c.set .main (.run l) with shared := s }
  | update {i : Fin n} {pc l : UpdatePc} {s : Shared n} : updateAt c i = .run pc →
      UpdateAct i pc c.shared s l → Acts c { c.set (.update i) (.run l) with shared := s }

theorem acts_of_step {c c' : Config (program n)} (h : Reachable c) (hst : Step c c') :
    Acts c c' := by
  cases hst with
  | @act i pc k f e s hi hc hf =>
    cases i with
    | main => exact .main hi (main_act hc hf)
    | update i => exact .update hi (update_act hc hf)
  | @lock i pc k hi hc | @unlock i pc k hi hc | @wait i pc k hi hc | @signalNone i pc k hi hc
  | @signal i j pc k k' hi hc | @broadcast i pc k hi hc =>
    cases i <;> cases pc <;> cases hc
  | @spurious i k hi | @relock i k hi =>
    obtain ⟨pc, hpc⟩ := run_of_reachable h i
    exact nomatch hi.symm.trans hpc

/-! ## Assertions -/

/-- The updates that a thread has made. -/
def UpdatePc.updates : UpdatePc → ℕ
  | .loop k | .compare1 k | .compare2 k _ | .printVar1 k | .printVar2 k _ | .readVar2 k |
    .writeVar1 k _ | .readVar3 k | .writeVar3 k _ | .testVar3 k | .read k _ | .write k _ _ |
    .leave k | .exited k => k

def UpdatePc.hasExited : UpdatePc → Bool
  | .exited _ => true
  | .loop _ | .compare1 _ | .compare2 .. | .printVar1 _ | .printVar2 .. | .readVar2 _ |
    .writeVar1 .. | .readVar3 _ | .writeVar3 .. | .testVar3 _ | .read .. | .write .. |
    .leave _ => false

/-- The branch for a difference. -/
def UpdatePc.Reports : UpdatePc → Prop
  | .printVar1 _ | .printVar2 .. | .readVar2 _ | .writeVar1 .. => True
  | .loop _ | .compare1 _ | .compare2 .. | .readVar3 _ | .writeVar3 .. | .testVar3 _ | .read .. |
    .write .. | .leave _ | .exited _ => False

/-- What a thread inside knows of the variables. -/
def UpdatePc.Knows : UpdatePc → Shared n → Prop
  | .compare2 _ v, s => Inv s ∧ v = s.var1
  | .printVar1 _, _ | .printVar2 .., _ | .readVar2 _, _ | .writeVar1 .., _ => False
  | .read _ u, s => u ≠ .add1 → Ahead u.ahead s
  | .write _ u v, s => Ahead u.ahead s ∧ v = u.value (u.var s)
  | .loop _, _ | .compare1 _, _ | .readVar3 _, _ | .writeVar3 .., _ | .testVar3 _, _ |
    .leave _, _ | .exited _, _ => True

/-- The assertion of a control point of thread `i`. -/
structure UpdatePre (i : Fin n) (pc : UpdatePc) (s : Shared n) : Prop where
  counts : s.counts i = pc.updates
  exited : s.exited i = pc.hasExited
  knows : pc.Knows s

/-- The assertions, and what holds while no thread is inside. -/
structure Invariant (c : Config (program n)) : Prop where
  update : ∀ i pc, updateAt c i = .run pc → UpdatePre i pc c.shared
  main : ∀ pc, mainAt c = .run pc → mainPre pc c.shared
  free : (∀ i pc, updateAt c i = .run pc → pc.inside = false) → Inv c.shared

theorem UpdatePc.knows_of_outside {pc : UpdatePc} (h : pc.inside = false) (s : Shared n) :
    pc.Knows s := by
  cases pc with
  | read k u =>
    intro hu
    exact absurd h (by simpa [inside] using hu)
  | loop | compare1 | readVar3 | writeVar3 | testVar3 | leave | exited => trivial
  | compare2 | printVar1 | printVar2 | readVar2 | writeVar1 | write => cases h

/-! ## Acts -/

/-- A thread keeps its own assertions, if it finds the variables in order when it goes inside. -/
theorem UpdatePre.act {i : Fin n} {pc l : UpdatePc} {s s' : Shared n} (h : UpdateAct i pc s s' l)
    (hp : UpdatePre i pc s) (henter : pc.inside = false → l.inside = true → Inv s) :
    UpdatePre i l s' := by
  obtain ⟨hcounts, hexited, hknows⟩ := hp
  cases h with
  | again | done | readVar3 | writeVar3 => exact ⟨hcounts, hexited, trivial⟩
  | agree => exact ⟨hcounts, hexited, trivial⟩
  | testVar3 => exact ⟨hcounts, hexited, fun hu => absurd rfl hu⟩
  | compare1 => exact ⟨hcounts, hexited, henter rfl rfl, rfl⟩
  | differ hne =>
    obtain ⟨⟨h₁, h₂⟩, rfl⟩ := hknows
    exact absurd (h₁.trans h₂.symm) hne
  | printVar1 | printVar2 | readVar2 | writeVar1 => exact hknows.elim
  | @read s k u =>
    refine ⟨hcounts, hexited, ?_, rfl⟩
    by_cases hu : u = .add1
    · subst hu
      exact henter rfl rfl
    · exact hknows hu
  | @write s k u u' v hnext =>
    obtain ⟨hahead, rfl⟩ := hknows
    refine ⟨?_, ?_, fun _ => hahead.assign hnext⟩
    · rw [Update.assign_counts]
      exact hcounts
    · rw [Update.assign_exited]
      exact hexited
  | @last s k u v hlast =>
    refine ⟨?_, ?_, trivial⟩
    · show s.counts i + Pi.single (M := fun _ : Fin n => ℕ) i 1 i = k + 1
      rw [Pi.single_eq_same]
      exact congrArg (· + 1) hcounts
    · exact (congrFun (Update.assign_exited u v s) i).trans hexited
  | leave => exact ⟨hcounts, Function.update_self .., trivial⟩

/-- Who comes out leaves the variables in order. -/
theorem UpdateAct.inv {i : Fin n} {pc l : UpdatePc} {s s' : Shared n} (h : UpdateAct i pc s s' l)
    (hp : UpdatePre i pc s) (hout : l.inside = false) (hinv : pc.inside = false → Inv s) :
    Inv s' := by
  cases h with
  | again | done | testVar3 | readVar3 => exact hinv rfl
  | writeVar3 | leave =>
    obtain ⟨h₁, h₂⟩ := hinv rfl
    exact ⟨h₁, h₂⟩
  | agree => exact hp.knows.1
  | writeVar1 => exact hp.knows.elim
  | @write s k u u' v hnext => cases u <;> cases hnext <;> cases hout
  | last hlast =>
    obtain ⟨hahead, rfl⟩ := hp.knows
    exact hahead.last hlast i
  | compare1 | differ | printVar1 | printVar2 | readVar2 | read => cases hout

theorem UpdateAct.frame {i : Fin n} {pc l : UpdatePc} {s s' : Shared n} (h : UpdateAct i pc s s' l)
    (hpc : pc.inside = false) : Frame s s' := by
  cases h with
  | again | done | compare1 | testVar3 | readVar3 | writeVar3 | leave | read =>
    exact ⟨rfl, rfl, rfl⟩
  | differ | agree | printVar1 | printVar2 | readVar2 | writeVar1 | write | last => cases hpc

theorem UpdateAct.others {i j : Fin n} {pc l : UpdatePc} {s s' : Shared n}
    (h : UpdateAct i pc s s' l) (hj : j ≠ i) :
    s'.counts j = s.counts j ∧ s'.exited j = s.exited j := by
  cases h with
  | write => rw [Update.assign_counts, Update.assign_exited]; exact ⟨rfl, rfl⟩
  | @last s k u v =>
    refine ⟨?_, congrFun (Update.assign_exited u v s) j⟩
    simp only [Pi.add_apply, Pi.single_eq_of_ne hj, add_zero]
  | leave => exact ⟨rfl, Function.update_of_ne hj _ _⟩
  | _ => exact ⟨rfl, rfl⟩

theorem UpdatePre.other {i : Fin n} {pc : UpdatePc} {s s' : Shared n} (hp : UpdatePre i pc s)
    (hothers : s'.counts i = s.counts i ∧ s'.exited i = s.exited i)
    (hframe : pc.inside = true → Frame s s') : UpdatePre i pc s' := by
  refine ⟨hothers.1.trans hp.counts, hothers.2.trans hp.exited, ?_⟩
  by_cases hin : pc.inside = true
  · have hf := hframe hin
    have hvar : ∀ u : Update, u.var s' = u.var s := by
      intro u
      cases u with
      | add1 | dec1 => exact hf.var1
      | add2 | dec2 => exact hf.var2
    have hknows := hp.knows
    cases pc with
    | compare2 k v => exact ⟨hknows.1.frame hf, hknows.2.trans hf.var1.symm⟩
    | read k u => exact fun hu => (hknows hu).frame hf
    | write k u v => exact ⟨hknows.1.frame hf, by rw [hvar]; exact hknows.2⟩
    | printVar1 | printVar2 | readVar2 | writeVar1 => exact hknows.elim
    | loop | compare1 | readVar3 | writeVar3 | testVar3 | leave | exited => cases hin
  · exact UpdatePc.knows_of_outside (Bool.not_eq_true _ ▸ hin) s'

/-- `main` does not look at the variables before all threads have exited. -/
theorem mainPre_update {i : Fin n} {pc l : UpdatePc} {s s' : Shared n} {m : MainPc}
    (h : UpdateAct i pc s s' l) (hi : UpdatePre i pc s) (hp : mainPre m s) : mainPre m s' := by
  have hrunning : ¬ ∀ j, s.exited j = true := by
    intro hall
    have hexited := hi.exited.symm.trans (hall i)
    cases h <;> cases hexited
  have hmono : ∀ j, s.exited j = true → s'.exited j = true := by
    intro j hj
    by_cases hji : j = i
    · subst hji
      have hexited := hi.exited.symm.trans hj
      cases h <;> cases hexited
    · rw [(h.others hji).2]
      exact hj
  cases m with
  | sleep => trivial
  | join k => exact fun j hj => hmono j (hp j hj)
  | readVar1 => exact absurd hp hrunning
  | readVar2 | printed => exact absurd hp.1 hrunning

/-! ## The invariant -/

theorem invariant_init : Invariant (.init (program n) (start n)) where
  update i pc hi := by
    cases hi
    exact ⟨rfl, rfl, trivial⟩
  main pc hi := by
    cases hi
    trivial
  free _ := by
    have htotal : total (start n).counts = 0 := by
      simp only [total, start, Finset.sum_const_zero]
      rfl
    constructor
    · show (0 : BitVec 32) = total (start n).counts + 0
      rw [htotal]
      rfl
    · show (0 : BitVec 32) = total (start n).counts + 0
      rw [htotal]
      rfl

theorem invariant_step {c c' : Config (program n)} (hc : Serial c) (hI : Invariant c)
    (hst : Step c c') (halone : Alone c') : Invariant c' := by
  cases acts_of_step hc.reachable hst with
  | @main pc l s hi hact =>
    have hthreads : ∀ j, updateAt { c.set .main (.run l) with shared := s } j = updateAt c j :=
      fun j => Config.set_thread_ne (i := Tid.main) (j := .update j) c (.run l) nofun
    have hframe : Frame c.shared s := hact.frame
    refine ⟨?_, ?_, ?_⟩
    · intro j pc' hj
      rw [hthreads] at hj
      refine (hI.update j pc' hj).other ⟨?_, ?_⟩ fun _ => hframe
      · exact congrFun hframe.counts j
      · exact congrFun hact.exited j
    · intro m hm
      have hl : (c.set .main (.run l)).thread .main = .run l := Config.set_thread_self ..
      cases hm.symm.trans hl
      exact mainPre_act hact (hI.main pc hi)
    · intro hfree
      exact (hI.free fun j pc' hj => hfree j pc' ((hthreads j).trans hj)).frame hframe
  | @update i pc l s hi hact =>
    have hself : updateAt { c.set (.update i) (.run l) with shared := s } i = .run l :=
      Config.set_thread_self ..
    have hothers : ∀ j, j ≠ i →
        updateAt { c.set (.update i) (.run l) with shared := s } j = updateAt c j := by
      intro j hj
      apply Config.set_thread_ne
      intro heq
      cases heq
      exact hj rfl
    have hpre := hI.update i pc hi
    -- If thread `i` is outside before and inside after, nobody is inside before.
    have hinv : pc.inside = false →
        (∀ j pc', j ≠ i → updateAt c j = .run pc' → pc'.inside = false) → Inv c.shared := by
      intro hout hrest
      apply hI.free
      intro j pc' hj
      by_cases hji : j = i
      · subst hji
        cases hi.symm.trans hj
        exact hout
      · exact hrest j pc' hji hj
    refine ⟨?_, ?_, ?_⟩
    · intro j pc' hj
      by_cases hji : j = i
      · subst hji
        cases hj.symm.trans hself
        apply hpre.act hact
        intro hout hin
        apply hinv hout
        intro j' pc'' hne hj'
        by_contra hin'
        rw [Bool.not_eq_false] at hin'
        exact hne (halone j' _ pc'' _ ((hothers j' hne).trans hj') hself hin' hin)
      · rw [hothers j hji] at hj
        refine (hI.update j pc' hj).other (hact.others hji) fun hin => ?_
        apply hact.frame
        by_contra hin'
        rw [Bool.not_eq_false] at hin'
        exact hji (hc.alone j i pc' pc hj hi hin hin')
    · intro m hm
      have hmain : mainAt { c.set (.update i) (.run l) with shared := s } = mainAt c :=
        Config.set_thread_ne (i := Tid.update i) (j := .main) c (.run l) nofun
      rw [hmain] at hm
      exact mainPre_update hact hpre (hI.main m hm)
    · intro hfree
      apply hact.inv hpre (hfree i l hself)
      intro hout
      apply hinv hout
      intro j pc' hne hj
      exact hfree j pc' ((hothers j hne).trans hj)

theorem invariant_of_serial {c : Config (program n)} (h : Serial c) : Invariant c := by
  induction h with
  | init => exact invariant_init
  | step hc hst ha ih => exact invariant_step hc ih hst ha

/-! ## The theorem -/

/-- **Without interference nothing is lost.** -/
theorem serial_keeps_count (n : ℕ) (c : Config (program n)) (h : Serial c) :
    ((∀ i pc, updateAt c i = .run pc → pc.inside = false) → c.shared.var1 = c.shared.var2) ∧
    (∀ i pc, updateAt c i = .run pc → ¬ pc.Reports) ∧
    ∀ v₁ v₂, mainAt c = .run (.printed v₁ v₂) → ∃ iterations : Fin n → ℕ,
      (∀ i, updateAt c i = .run (.exited (iterations i))) ∧
        v₁ = BitVec.ofNat 32 (∑ i, iterations i) ∧ v₂ = BitVec.ofNat 32 (∑ i, iterations i) := by
  have hI := invariant_of_serial h
  refine ⟨?_, ?_, ?_⟩
  · intro hfree
    obtain ⟨h₁, h₂⟩ := hI.free hfree
    exact h₁.trans h₂.symm
  · intro i pc hi hreports
    have hknows := (hI.update i pc hi).knows
    cases pc with
    | printVar1 | printVar2 | readVar2 | writeVar1 => exact hknows
    | _ => exact hreports
  · intro v₁ v₂ hmain
    obtain ⟨hall, rfl, rfl⟩ : mainPre (.printed v₁ v₂) c.shared := hI.main _ hmain
    have hexited : ∀ i, ∃ k, updateAt c i = .run (.exited k) := by
      intro i
      obtain ⟨pc, hi⟩ := run_of_reachable h.reachable (.update i)
      have hpc := (hI.update i pc hi).exited.symm.trans (hall i)
      cases pc with
      | exited k => exact ⟨k, hi⟩
      | _ => cases hpc
    obtain ⟨iterations, hiterations⟩ := Classical.axiomOfChoice hexited
    have hcounts : c.shared.counts = iterations :=
      funext fun i => (hI.update i _ (hiterations i)).counts
    have hinv : Inv c.shared := by
      apply hI.free
      intro i pc hi
      cases hi.symm.trans (hiterations i)
      rfl
    refine ⟨iterations, hiterations, ?_, ?_⟩
    · rw [hinv.var1, total, hcounts]
      exact BitVec.add_zero _
    · rw [hinv.var2, total, hcounts]
      exact BitVec.add_zero _

/-- One thread is between its two passages while the other completes an iteration. -/
theorem serial_keeps_count_two : ∃ c : Config (program 2), Serial c ∧
    updateAt c 0 = .run (.loop 1) ∧ updateAt c 1 = .run (.loop 1) ∧
    c.shared.var1 = c.shared.var2 := by
  obtain ⟨c, hc, hp⟩ := Option.map_eq_some_iff.1 (show
    (runSerial (.init (program 2) (start 2)) (List.replicate 3 (.update 0) ++
      List.replicate 14 (.update 1) ++ List.replicate 11 (.update 0))).map (fun c =>
        updateAt c 0 == .run (.loop 1) && updateAt c 1 == .run (.loop 1)) = some true by decide)
  simp only [Bool.and_eq_true, beq_iff_eq] at hp
  have hserial : Serial c := Serial.init.run hc
  refine ⟨c, hserial, hp.1, hp.2, (serial_keeps_count 2 c hserial).1 ?_⟩
  intro i pc hi
  match i with
  | 0 =>
    cases hp.1.symm.trans hi
    rfl
  | 1 =>
    cases hp.2.symm.trans hi
    rfl

end QnxTutorial.NoMutex
