import QnxTutorial.Machine
import QnxTutorial.ShmemPosix.Program

/-!
# Creators with the same name

Any number of processes run `shmem_posix_creator` with the same name. `shm_open` succeeds if the
name is free, and every call after it may fail. Every failure ends in `unlink_and_exit`, which
removes the name, whoever has made the object behind it.

**Theorem (`unlinks_own_iff`).** A run is fine exactly if nobody whose `shm_open` failed gets to
remove an object, as is the case if nobody is started while the name is taken.

**Theorem (`unlinks_other`).** A second creator removes the object of the first.
-/

namespace QnxTutorial.ShmemPosix.Names

open Machine

/-! ## The processes -/

/-- The calls of `main`, with the assignment to `init_flag` and the update. The memory that they
write is left out. -/
inductive Call where
  | shmOpen
  | ftruncate
  | mmap
  | mutexInit
  | condInit
  | setFlag
  | lock
  | update
  | unlock
  | broadcast
  deriving DecidableEq

def Call.next : Call → Call
  | .shmOpen => .ftruncate
  | .ftruncate => .mmap
  | .mmap => .mutexInit
  | .mutexInit => .condInit
  | .condInit => .setFlag
  | .setFlag => .lock
  | .lock => .update
  | .update => .unlock
  | .unlock => .broadcast
  | .broadcast => .lock

def Call.canFail : Call → Bool
  | .setFlag | .update => false
  | _ => true

/-- `main`, or `unlink_and_exit`. -/
inductive Pc where
  | main (c : Call)
  | unlink
  | exited
  deriving DecidableEq

/-- The `while` loop. -/
def Pc.inLoop : Pc → Bool
  | .main .lock | .main .update | .main .unlock | .main .broadcast => true
  | _ => false

/-- The object that the name is bound to, and the processes with the object that each has made.
Objects are numbered. -/
structure State (ι : Type) where
  name : Option ℕ
  fresh : ℕ
  pc : ι → Pc
  made : ι → Option ℕ

variable {ι : Type} [DecidableEq ι]

def State.goto (s : State ι) (p : ι) (pc : Pc) : State ι :=
  { s with pc := Function.update s.pc p pc }

/-- `shm_open(name, O_RDWR | O_CREAT | O_EXCL, 0660)`. -/
def shmOpen (p : ι) (s : State ι) : State ι :=
  match s.name with
  | some _ => s.goto p .unlink
  | none => { s with
      name := some s.fresh
      fresh := s.fresh + 1
      pc := Function.update s.pc p (.main .ftruncate)
      made := Function.update s.made p (some s.fresh) }

/-- `shm_unlink(name)`. -/
def shmUnlink (p : ι) (i : Input) (s : State ι) : State ι :=
  match i with
  | .ok => { s.goto p .exited with name := none }
  | .fail => s.goto p .exited

/-- The next step of process `p`. -/
def step (s : State ι) (p : ι) (i : Input) : State ι :=
  match s.pc p with
  | .main .shmOpen => shmOpen p s
  | .main c =>
    match i with
    | .ok => s.goto p (.main c.next)
    | .fail => s.goto p .unlink
  | .unlink => shmUnlink p i s
  | .exited => s

def canStep : Pc → Input → Bool
  | .main _, .ok | .unlink, _ => true
  | .main c, .fail => c.canFail
  | .exited, _ => false

/-- The processes take steps in any order. A process that has not made a step has not been
started. -/
def creators (ι : Type) [DecidableEq ι] : Machine (State ι) (ι × Input) where
  init s := s = ⟨none, 0, fun _ => .main .shmOpen, fun _ => none⟩
  allowed s e := canStep (s.pc e.1) e.2
  next s e := step s e.1 e.2

/-! ## Good runs -/

/-- If the step removes an object, its process has made it. -/
def RemovesOwn (s : State ι) (e : ι × Input) : Prop :=
  s.pc e.1 = .unlink → e.2 = .ok → ∀ o, s.name = some o → s.made e.1 = some o

/-- The name of every creator that is in its loop is bound to its object. -/
def LoopsBound (s : State ι) : Prop :=
  ∀ p, (s.pc p).inLoop → s.name.isSome ∧ s.name = s.made p

/-- After its `shm_open` failed the process finds the name bound, and removes it. -/
def RemovesAfterFailure (s : State ι) (e : ι × Input) : Prop :=
  s.pc e.1 = .unlink ∧ e.2 = .ok ∧ s.made e.1 = none ∧ s.name.isSome

/-- A creator is started while the name is taken. -/
def OpensTaken (s : State ι) (e : ι × Input) : Prop :=
  s.pc e.1 = .main .shmOpen ∧ s.name.isSome

/-! ## What a step can do -/

variable {s : State ι} {p : ι} {i : Input}

@[simp] theorem goto_pc_self (pc : Pc) : (s.goto p pc).pc p = pc := Function.update_self _ _ _

theorem goto_pc_of_ne {q : ι} (hq : q ≠ p) (pc : Pc) : (s.goto p pc).pc q = s.pc q :=
  Function.update_of_ne hq _ _

theorem pc_of_goto {q : ι} {pc pc' : Pc} (h : (s.goto p pc).pc q = pc') :
    q = p ∧ pc = pc' ∨ q ≠ p ∧ s.pc q = pc' := by
  by_cases hq : q = p
  · subst hq
    exact .inl ⟨rfl, (goto_pc_self pc).symm.trans h⟩
  · exact .inr ⟨hq, (goto_pc_of_ne hq pc).symm.trans h⟩

/-- A process opens a name that is taken, or one that is free; it makes one of the other calls; it
removes the name, or fails to. -/
theorem step_cases (ha : (creators ι).allowed s (p, i)) :
    (s.pc p = .main .shmOpen ∧ s.name.isSome ∧ step s p i = s.goto p .unlink) ∨
    (s.pc p = .main .shmOpen ∧ s.name = none ∧ step s p i = { s.goto p (.main .ftruncate) with
      name := some s.fresh
      fresh := s.fresh + 1
      made := Function.update s.made p (some s.fresh) }) ∨
    (∃ c pc, s.pc p = .main c ∧ c ≠ .shmOpen ∧ pc ≠ .main .shmOpen ∧ step s p i = s.goto p pc) ∨
    (s.pc p = .unlink ∧ i = .ok ∧ step s p i = { s.goto p .exited with name := none }) ∨
    (s.pc p = .unlink ∧ step s p i = s.goto p .exited) := by
  cases hpc : s.pc p with
  | main c =>
    by_cases hc : c = .shmOpen
    · subst hc
      cases hname : s.name with
      | some o => exact .inl ⟨rfl, rfl, by simp [step, hpc, shmOpen, hname]⟩
      | none => exact .inr (.inl ⟨rfl, rfl, by simp [step, hpc, shmOpen, hname, State.goto]⟩)
    · refine .inr (.inr (.inl ⟨c, if i = .ok then .main c.next else .unlink, rfl, hc, ?_, ?_⟩))
      · cases i <;> cases c <;> simp [Call.next]
      · cases i <;> cases c <;> simp_all [step]
  | unlink =>
    cases i with
    | ok => exact .inr (.inr (.inr (.inl ⟨rfl, rfl, by simp [step, hpc, shmUnlink]⟩)))
    | fail => exact .inr (.inr (.inr (.inr ⟨rfl, by simp [step, hpc, shmUnlink]⟩)))
  | exited => simp [creators, canStep, hpc] at ha

/-! ## The invariant -/

/-- As long as nobody removes an object of others: a process that has opened the name has made an
object, and until it exits the name is bound to it. -/
structure Inv (s : State ι) : Prop where
  made_lt : ∀ p o, s.made p = some o → o < s.fresh
  made_inj : ∀ p q o, s.made p = some o → s.made q = some o → p = q
  made_eq_none : ∀ p, s.pc p = .main .shmOpen → s.made p = none
  made_ne_none : ∀ p c, s.pc p = .main c → c ≠ .shmOpen → s.made p ≠ none
  bound : ∀ p o, s.made p = some o → s.pc p ≠ .exited → s.name = some o

omit [DecidableEq ι] in
theorem Inv.loopsBound (h : Inv s) : LoopsBound s := by
  intro p hp
  obtain ⟨c, hc, hopen⟩ : ∃ c, s.pc p = .main c ∧ c ≠ .shmOpen := by
    unfold Pc.inLoop at hp
    split at hp <;> simp_all
  obtain ⟨o, ho⟩ := Option.ne_none_iff_exists'.1 (h.made_ne_none p c hc hopen)
  have hname := h.bound p o ho (by rw [hc]; nofun)
  rw [hname, ho]
  exact ⟨rfl, rfl⟩

omit [DecidableEq ι] in
theorem Inv.removesOwn (h : Inv s) (hnot : ¬ RemovesAfterFailure s (p, i)) :
    RemovesOwn s (p, i) := by
  intro hpc hi o ho
  cases hmade : s.made p with
  | none => exact absurd ⟨hpc, hi, hmade, by rw [ho]; rfl⟩ hnot
  | some o' =>
    have hname := h.bound p o' hmade (by rw [show s.pc p = .unlink from hpc]; nofun)
    exact hname.symm.trans ho

/-- A process that goes on, with what it has made, unless it is still to open the name. -/
theorem Inv.goto (h : Inv s) {pc : Pc} (hopen : pc ≠ .main .shmOpen)
    (hmade : ∀ c, pc = .main c → s.made p ≠ none) (hexited : s.pc p ≠ .exited) :
    Inv (s.goto p pc) where
  made_lt := h.made_lt
  made_inj := h.made_inj
  made_eq_none q hq := by
    rcases pc_of_goto hq with ⟨-, hpc⟩ | ⟨-, hq⟩
    · exact absurd hpc hopen
    · exact h.made_eq_none q hq
  made_ne_none q c hq hc := by
    rcases pc_of_goto hq with ⟨rfl, hpc⟩ | ⟨-, hq⟩
    · exact hmade c hpc
    · exact h.made_ne_none q c hq hc
  bound q o ho hq := by
    by_cases hqp : q = p
    · subst hqp
      exact h.bound q o ho hexited
    · exact h.bound q o ho (goto_pc_of_ne hqp pc ▸ hq)

theorem Inv.exit (h : Inv s) (hpc : s.pc p = .unlink) : Inv (s.goto p .exited) :=
  h.goto nofun nofun (by rw [hpc]; nofun)

/-- A new object, for a name that was free. Nobody else has an object then. -/
theorem Inv.create (h : Inv s) (hpc : s.pc p = .main .shmOpen) (hname : s.name = none) :
    Inv { s.goto p (.main .ftruncate) with
      name := some s.fresh
      fresh := s.fresh + 1
      made := Function.update s.made p (some s.fresh) } where
  made_lt q o ho := by
    by_cases hqp : q = p
    · subst hqp
      simp only [Function.update_self, Option.some.injEq] at ho
      exact ho ▸ Nat.lt_succ_self _
    · simp only [Function.update_of_ne hqp] at ho
      exact Nat.lt_succ_of_lt (h.made_lt q o ho)
  made_inj q q' o ho ho' := by
    by_cases hqp : q = p
    · by_cases hqp' : q' = p
      · rw [hqp, hqp']
      · subst hqp
        simp only [Function.update_self, Function.update_of_ne hqp', Option.some.injEq] at ho ho'
        exact absurd (h.made_lt q' o ho') (by omega)
    · by_cases hqp' : q' = p
      · subst hqp'
        simp only [Function.update_self, Function.update_of_ne hqp, Option.some.injEq] at ho ho'
        exact absurd (h.made_lt q o ho) (by omega)
      · simp only [Function.update_of_ne hqp, Function.update_of_ne hqp'] at ho ho'
        exact h.made_inj q q' o ho ho'
  made_eq_none q hq := by
    rcases pc_of_goto hq with ⟨-, hpc⟩ | ⟨hqp, hq⟩
    · cases hpc
    · simp only [Function.update_of_ne hqp]
      exact h.made_eq_none q hq
  made_ne_none q c hq hc := by
    rcases pc_of_goto hq with ⟨rfl, -⟩ | ⟨hqp, hq⟩
    · simp only [Function.update_self]
      nofun
    · simp only [Function.update_of_ne hqp]
      exact h.made_ne_none q c hq hc
  bound q o ho hq := by
    by_cases hqp : q = p
    · subst hqp
      simpa only [Function.update_self] using ho
    · simp only [Function.update_of_ne hqp] at ho
      have hq' : s.pc q ≠ .exited := goto_pc_of_ne hqp _ ▸ hq
      exact nomatch hname.symm.trans (h.bound q o ho hq')

/-- The name is removed by the process that has made the object, or was free anyway. -/
theorem Inv.unlink (h : Inv s) (hpc : s.pc p = .unlink) (hown : RemovesOwn s (p, .ok)) :
    Inv { s.goto p .exited with name := none } where
  made_lt := h.made_lt
  made_inj := h.made_inj
  made_eq_none := (h.exit hpc).made_eq_none
  made_ne_none := (h.exit hpc).made_ne_none
  bound q o ho hq := by
    by_cases hqp : q = p
    · subst hqp
      exact absurd (goto_pc_self _) hq
    · have hq' : s.pc q ≠ .exited := goto_pc_of_ne hqp _ ▸ hq
      have hname := h.bound q o ho hq'
      exact absurd (h.made_inj q p o ho (hown hpc rfl o hname)) hqp

theorem Inv.step (h : Inv s) (ha : (creators ι).allowed s (p, i))
    (hnot : ¬ RemovesAfterFailure s (p, i)) : Inv (step s p i) := by
  rcases step_cases ha with ⟨hpc, -, heq⟩ | ⟨hpc, hname, heq⟩ | ⟨c, pc, hpc, hc, hopen, heq⟩ |
    ⟨hpc, rfl, heq⟩ | ⟨hpc, heq⟩ <;> rw [heq]
  · exact h.goto nofun nofun (by rw [hpc]; nofun)
  · exact h.create hpc hname
  · exact h.goto hopen (fun _ _ => h.made_ne_none p c hpc hc) (by rw [hpc]; nofun)
  · exact h.unlink hpc (h.removesOwn hnot)
  · exact h.exit hpc

theorem Inv.init (hs : (creators ι).init s) : Inv s := by
  subst hs
  exact ⟨nofun, nofun, fun _ _ => rfl, fun _ c hc hne => by cases hc; exact absurd rfl hne, nofun⟩

/-! ## Runs -/

variable {h : List (State ι × ι × Input)}

/-- Every process that has come to remove the name has made an object. -/
def UnlinkersMade (s : State ι) : Prop := ∀ p, s.pc p = .unlink → s.made p ≠ none

theorem inv_throughout (hrun : (creators ι).Run h s)
    (hnot : ∀ e ∈ h, ¬ RemovesAfterFailure e.1 e.2) : Throughout Inv h s := by
  induction hrun with
  | init hs => exact ⟨nofun, Inv.init hs⟩
  | @step h s e hrun ha ih =>
    simp only [List.forall_mem_append, List.forall_mem_singleton] at hnot
    have hinv := ih hnot.1
    refine ⟨?_, hinv.2.step ha hnot.2⟩
    simp only [List.forall_mem_append, List.forall_mem_singleton]
    exact ⟨hinv.1, hinv.2⟩

omit [DecidableEq ι] in
theorem UnlinkersMade.not_removesAfterFailure (hs : UnlinkersMade s) :
    ¬ RemovesAfterFailure s (p, i) :=
  fun ⟨hpc, _, hmade, _⟩ => hs p hpc hmade

theorem UnlinkersMade.goto (hs : UnlinkersMade s) {pc : Pc}
    (hpc : pc = .unlink → s.made p ≠ none) : UnlinkersMade (s.goto p pc) := by
  intro q hq
  rcases pc_of_goto hq with ⟨rfl, hgoto⟩ | ⟨-, hq⟩
  · exact hpc hgoto
  · exact hs q hq

theorem UnlinkersMade.step (hs : UnlinkersMade s) (h : Inv s)
    (ha : (creators ι).allowed s (p, i)) (hnot : ¬ OpensTaken s (p, i)) :
    UnlinkersMade (step s p i) := by
  rcases step_cases ha with ⟨hpc, hname, -⟩ | ⟨hpc, hname, heq⟩ | ⟨c, pc, hpc, hc, hopen, heq⟩ |
    ⟨hpc, rfl, heq⟩ | ⟨hpc, heq⟩
  · exact absurd ⟨hpc, hname⟩ hnot
  · rw [heq]
    intro q hq
    rcases pc_of_goto hq with ⟨-, hgoto⟩ | ⟨hqp, hq⟩
    · cases hgoto
    · simp only [Function.update_of_ne hqp]
      exact hs q hq
  · rw [heq]
    exact hs.goto fun _ => h.made_ne_none p c hpc hc
  · rw [heq]
    exact hs.goto nofun
  · rw [heq]
    exact hs.goto nofun

/-- If nobody is started while the name is taken, nobody removes it after a failure. -/
theorem not_removesAfterFailure (hrun : (creators ι).Run h s)
    (hnot : ∀ e ∈ h, ¬ OpensTaken e.1 e.2) : ∀ e ∈ h, ¬ RemovesAfterFailure e.1 e.2 := by
  suffices hall : (∀ e ∈ h, ¬ RemovesAfterFailure e.1 e.2) ∧ Inv s ∧ UnlinkersMade s from hall.1
  induction hrun with
  | init hs =>
    refine ⟨nofun, Inv.init hs, ?_⟩
    subst hs
    exact nofun
  | @step h s e hrun ha ih =>
    simp only [List.forall_mem_append, List.forall_mem_singleton] at hnot ⊢
    obtain ⟨hbefore, hinv, hmade⟩ := ih hnot.1
    have hgood : ¬ RemovesAfterFailure s e := hmade.not_removesAfterFailure
    exact ⟨⟨hbefore, hgood⟩, hinv.step ha hgood, hmade.step hinv ha hnot.2⟩

/-! ## The theorems -/

/-- A creator gets as far as `init_flag`. -/
def setUp (p : ι) : List (ι × Input) := List.replicate 6 (p, .ok)

/-- A second one is started, finds the name taken and removes it. -/
theorem unlinks_other : ¬ ∀ (h : List (State ℕ × ℕ × Input)) (s : State ℕ),
    (creators ℕ).Run h s → (∀ e ∈ h, RemovesOwn e.1 e.2) ∧ Throughout LoopsBound h s := by
  intro hall
  have hrun := (Run.init (M := creators ℕ) rfl).trace (l := setUp 0 ++ [(1, .ok), (1, .ok)])
    (by simp only [creators]; decide)
  have hbound := (hall _ _ hrun).2.2 0 rfl
  exact absurd hbound.1 (by decide)

/-- **Whose object is removed.** In a run every object that is removed has been made by the process
that removes it, and every creator in its loop has the name bound to its object, exactly if no
process whose `shm_open` failed removes an object. That is so if no creator is started while the
name is taken. -/
theorem unlinks_own_iff (hrun : (creators ι).Run h s) :
    ((∀ e ∈ h, RemovesOwn e.1 e.2) ∧ Throughout LoopsBound h s ↔
      ∀ e ∈ h, ¬ RemovesAfterFailure e.1 e.2) ∧
    ((∀ e ∈ h, ¬ OpensTaken e.1 e.2) → ∀ e ∈ h, ¬ RemovesAfterFailure e.1 e.2) := by
  refine ⟨⟨?_, ?_⟩, not_removesAfterFailure hrun⟩
  · rintro ⟨hown, -⟩ e he ⟨hpc, hi, hmade, hname⟩
    obtain ⟨o, ho⟩ := Option.isSome_iff_exists.1 hname
    exact nomatch hmade.symm.trans (hown e he hpc hi o ho)
  · intro hnot
    have hinv := inv_throughout hrun hnot
    refine ⟨fun e he => (hinv.1 e he).removesOwn (hnot e he), fun e he => ?_, hinv.2.loopsBound⟩
    exact (hinv.1 e he).loopsBound

/-- A creator, and a second one when the first has failed and removed its name. -/
theorem unlinks_own_iff_twice : ∃ (h : List (State ℕ × ℕ × Input)) (s : State ℕ),
    (creators ℕ).Run h s ∧ (s.pc 1).inLoop ∧ s.name = some 1 ∧
    (∀ e ∈ h, RemovesOwn e.1 e.2) ∧ Throughout LoopsBound h s := by
  have hrun := (Run.init (M := creators ℕ) rfl).trace
    (l := setUp 0 ++ [(0, .fail), (0, .ok)] ++ setUp 1) (by simp only [creators]; decide)
  have hopen : ∀ e ∈ (creators ℕ).trace ⟨none, 0, fun _ => .main .shmOpen, fun _ => none⟩
      (setUp 0 ++ [(0, .fail), (0, .ok)] ++ setUp 1), ¬ OpensTaken e.1 e.2 := by
    unfold OpensTaken
    decide
  obtain ⟨hiff, hsuff⟩ := unlinks_own_iff hrun
  exact ⟨_, _, hrun, rfl, rfl, hiff.2 (hsuff hopen)⟩

end QnxTutorial.ShmemPosix.Names
