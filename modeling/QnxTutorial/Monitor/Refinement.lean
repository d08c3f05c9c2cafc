import QnxTutorial.Monitor.Progress

/-!
# Programs that refine programs

A program refines another if each thread does what the other's thread does, seen through a map of
the control points and of the shared data. An act may also be none of the other's business: then it
leaves what is seen as it was.

**Theorem (`Refinement.reach`).** What the one reaches is seen to be reached by the other. So what
holds of every run of the other holds of every run of the one.
-/

namespace Monitor

variable {ι σ ε σ' ε' : Type}

/-- At the point that is seen as `pc`, the first instruction does what the second does. -/
def Instr.Refines {L L' : Type} (f : L' → L) (g : σ' → σ) (pc : L) :
    Instr σ' ε' L' → Instr σ ε L → Prop
  | .lock k', .lock k => f k' = k
  | .unlock k', .unlock k => f k' = k
  | .wait k', .wait k => f k' = k
  | .signal k', .signal k => f k' = k
  | .broadcast k', .broadcast k => f k' = k
  | .act a', x => ∀ e' s' t' k', a' e' s' = some (t', k') → (f k' = pc ∧ g t' = g s') ∨
      ∃ a e, x = .act a ∧ a e (g s') = some (g t', f k')
  | .halt, .halt => True
  | _, _ => False

section Inversion

variable {L L' : Type} {f : L' → L} {g : σ' → σ} {pc : L} {k : L'} {x : Instr σ ε L}

theorem Instr.Refines.eq_lock (h : (Instr.lock k : Instr σ' ε' L').Refines f g pc x) :
    x = .lock (f k) := by
  cases x with
  | lock => exact congrArg _ (Eq.symm h)
  | _ => exact h.elim

theorem Instr.Refines.eq_unlock (h : (Instr.unlock k : Instr σ' ε' L').Refines f g pc x) :
    x = .unlock (f k) := by
  cases x with
  | unlock => exact congrArg _ (Eq.symm h)
  | _ => exact h.elim

theorem Instr.Refines.eq_wait (h : (Instr.wait k : Instr σ' ε' L').Refines f g pc x) :
    x = .wait (f k) := by
  cases x with
  | wait => exact congrArg _ (Eq.symm h)
  | _ => exact h.elim

theorem Instr.Refines.eq_signal (h : (Instr.signal k : Instr σ' ε' L').Refines f g pc x) :
    x = .signal (f k) := by
  cases x with
  | signal => exact congrArg _ (Eq.symm h)
  | _ => exact h.elim

theorem Instr.Refines.eq_broadcast (h : (Instr.broadcast k : Instr σ' ε' L').Refines f g pc x) :
    x = .broadcast (f k) := by
  cases x with
  | broadcast => exact congrArg _ (Eq.symm h)
  | _ => exact h.elim

end Inversion

/-! ## The same instruction with other control points -/

section Map

variable {L L' : Type}

/-- The instruction with other control points, and with other inputs. -/
def Instr.map (f : L → L') (input : ε' → Option ε) : Instr σ ε L → Instr σ ε' L'
  | .lock k => .lock (f k)
  | .unlock k => .unlock (f k)
  | .wait k => .wait (f k)
  | .signal k => .signal (f k)
  | .broadcast k => .broadcast (f k)
  | .act a => .act fun e' s => (input e').bind fun e => (a e s).map fun p => (p.1, f p.2)
  | .halt => .halt

variable {f : L → L'} {input : ε' → Option ε} {x : Instr σ ε L}

theorem Instr.exists_of_map {a' : ε' → σ → Option (σ × L')} (h : x.map f input = .act a') {e' : ε'}
    {s s' : σ} {k' : L'} (ha : a' e' s = some (s', k')) :
    ∃ a e k, x = .act a ∧ a e s = some (s', k) ∧ k' = f k := by
  cases x with
  | act a =>
    cases h
    obtain ⟨e, -, he⟩ := Option.bind_eq_some_iff.1 ha
    obtain ⟨⟨s'', k⟩, hk, heq⟩ := Option.map_eq_some_iff.1 he
    cases heq
    exact ⟨a, e, k, rfl, hk, rfl⟩
  | _ => cases h

theorem Instr.refines_map {g : L' → L} (hg : ∀ k, g (f k) = k) (pc : L) :
    (x.map f input).Refines g id pc x := by
  cases x with
  | lock k | unlock k | wait k | signal k | broadcast k => exact hg k
  | halt => trivial
  | act a =>
    intro e' s s' k' ha
    obtain ⟨a', e, k, hx, hk, rfl⟩ := Instr.exists_of_map (x := .act a) rfl ha
    refine .inr ⟨a', e, hx, ?_⟩
    rw [hg]
    exact hk

theorem Instr.Disciplined.map {holds : L → Bool} {holds' : L' → Bool} {h : Bool}
    (hx : x.Disciplined holds h) (hf : ∀ k, holds' (f k) = holds k) :
    (x.map f input).Disciplined holds' h := by
  cases x with
  | lock k | unlock k | wait k => exact ⟨hx.1, (hf k).trans hx.2⟩
  | signal k | broadcast k => exact (hf k).trans hx
  | halt => exact hx
  | act a =>
    intro e' s s' k' ha
    obtain ⟨a', e, k, heq, hk, rfl⟩ := Instr.exists_of_map (x := .act a) rfl ha
    cases heq
    exact (hf k).trans (hx e s s' k hk)

end Map

/-- How the first program is seen as the second. -/
structure Refinement (P' : Program ι σ' ε') (P : Program ι σ ε) where
  pc : (i : ι) → P'.Pc i → P.Pc i
  shared : σ' → σ
  start : ∀ i, pc i (P'.start i) = P.start i
  refines : ∀ i k, (P'.code i k).Refines (pc i) shared (pc i k) (P.code i (pc i k))

/-- A thread, as it is seen. -/
def Thread.map {L L' : Type} (f : L' → L) : Thread L' → Thread L
  | .run pc => .run (f pc)
  | .asleep pc => .asleep (f pc)
  | .woken pc => .woken (f pc)

theorem Thread.map_wake {L L' : Type} (f : L' → L) (t : Thread L') :
    t.wake.map f = (t.map f).wake := by
  cases t <;> rfl

namespace Refinement

variable {P' : Program ι σ' ε'} {P : Program ι σ ε} (R : Refinement P' P)

/-- A configuration, as it is seen. -/
def config (c : Config P') : Config P :=
  ⟨c.mutex, R.shared c.shared, fun i => (c.thread i).map (R.pc i)⟩

theorem config_run {c : Config P'} {i : ι} {k : P'.Pc i} (hi : c.thread i = .run k) :
    (R.config c).thread i = .run (R.pc i k) :=
  congrArg (Thread.map (R.pc i)) hi

theorem config_asleep {c : Config P'} {i : ι} {k : P'.Pc i} (hi : c.thread i = .asleep k) :
    (R.config c).thread i = .asleep (R.pc i k) :=
  congrArg (Thread.map (R.pc i)) hi

theorem config_woken {c : Config P'} {i : ι} {k : P'.Pc i} (hi : c.thread i = .woken k) :
    (R.config c).thread i = .woken (R.pc i k) :=
  congrArg (Thread.map (R.pc i)) hi

theorem exists_asleep {c : Config P'} {i : ι} {k : P.Pc i}
    (hi : (R.config c).thread i = .asleep k) : ∃ k', c.thread i = .asleep k' := by
  unfold config at hi
  cases ht : c.thread i with
  | asleep k' => exact ⟨k', rfl⟩
  | run | woken =>
    simp only [ht] at hi
    cases hi

theorem config_wakeAll (c : Config P') : R.config c.wakeAll = (R.config c).wakeAll := by
  simp only [config, Config.wakeAll, Thread.map_wake]

/-- A thread whose instruction is that of the other program is ready if it is seen to be. -/
theorem ready_of_map {P' : Program ι σ ε'} (R : Refinement P' P) (hshared : R.shared = id)
    {c : Config P'} {i : ι} {k : P'.Pc i} (hi : c.thread i = .run k) {f : P.Pc i → P'.Pc i}
    {input : ε' → Option ε} (hinput : ∀ e, ∃ e', input e' = some e)
    (hcode : P'.code i k = (P.code i (R.pc i k)).map f input) (h : (R.config c).Ready i) :
    c.Ready i := by
  unfold Config.Ready at h ⊢
  rw [R.config_run hi] at h
  simp only [hi, hcode]
  cases hx : P.code i (R.pc i k) with
  | act a =>
    simp only [hx] at h
    obtain ⟨e, s, k', ha⟩ := h
    obtain ⟨e', he⟩ := hinput e
    have ha' : a e c.shared = some (s, k') := by
      rw [config, hshared] at ha
      exact ha
    refine ⟨e', s, f k', ?_⟩
    show ((input e').bind fun e => (a e c.shared).map fun p => (p.1, f p.2)) = _
    rw [he, Option.bind_some, ha']
    rfl
  | lock | unlock | wait =>
    simp only [hx] at h
    exact h
  | signal | broadcast => trivial
  | halt =>
    simp only [hx] at h

variable [DecidableEq ι] {c c' : Config P'}

theorem config_set (c : Config P') (i : ι) (t : Thread (P'.Pc i)) :
    R.config (c.set i t) = (R.config c).set i (t.map (R.pc i)) := by
  simp only [config, Config.set, Config.mk.injEq, true_and]
  funext j
  by_cases hj : j = i
  · subst hj
    rw [Function.update_self, Function.update_self]
  · rw [Function.update_of_ne hj, Function.update_of_ne hj]

theorem config_set_mutex (c : Config P') (i : ι) (t : Thread (P'.Pc i)) (m : Option ι) :
    R.config { c.set i t with mutex := m } =
      { (R.config c).set i (t.map (R.pc i)) with mutex := m } :=
  congrArg (fun d : Config P => { d with mutex := m }) (R.config_set c i t)

theorem config_set_shared (c : Config P') (i : ι) (t : Thread (P'.Pc i)) (s : σ') :
    R.config { c.set i t with shared := s } =
      { (R.config c).set i (t.map (R.pc i)) with shared := R.shared s } :=
  congrArg (fun d : Config P => { d with shared := R.shared s }) (R.config_set c i t)

/-- **A step is seen as a step**, or is not seen. -/
theorem step (hst : Step c c') : Step (R.config c) (R.config c') ∨ R.config c' = R.config c := by
  cases hst with
  | @lock i pc k hi hcode hm =>
    have hr := R.refines i pc
    rw [hcode] at hr
    rw [config_set_mutex]
    exact .inl (.lock (R.config_run hi) hr.eq_lock hm)
  | @unlock i pc k hi hcode hm =>
    have hr := R.refines i pc
    rw [hcode] at hr
    rw [config_set_mutex]
    exact .inl (.unlock (R.config_run hi) hr.eq_unlock hm)
  | @wait i pc k hi hcode hm =>
    have hr := R.refines i pc
    rw [hcode] at hr
    rw [config_set_mutex]
    exact .inl (.wait (R.config_run hi) hr.eq_wait hm)
  | @spurious i k hi =>
    rw [config_set]
    exact .inl (.spurious (R.config_asleep hi))
  | @relock i k hi hm =>
    rw [config_set_mutex]
    exact .inl (.relock (R.config_woken hi) hm)
  | @signalNone i pc k hi hcode hnone =>
    have hr := R.refines i pc
    rw [hcode] at hr
    rw [config_set]
    refine .inl (.signalNone (R.config_run hi) hr.eq_signal fun j k' hj => ?_)
    obtain ⟨k'', hk⟩ := R.exists_asleep hj
    exact hnone j k'' hk
  | @signal i j pc k k' hi hcode hj =>
    have hr := R.refines i pc
    rw [hcode] at hr
    rw [config_set, config_set]
    exact .inl (.signal (R.config_run hi) hr.eq_signal (R.config_asleep hj))
  | @broadcast i pc k hi hcode =>
    have hr := R.refines i pc
    rw [hcode] at hr
    rw [config_set, config_wakeAll]
    exact .inl (.broadcast (R.config_run hi) hr.eq_broadcast)
  | @act i pc k f e s hi hcode hf =>
    have hr := R.refines i pc
    rw [hcode] at hr
    rw [config_set_shared]
    have hrun := R.config_run hi
    rcases hr e c.shared s k hf with ⟨hpc, hshared⟩ | ⟨a, e', hx, ha⟩
    · right
      rw [Thread.map, hpc, hshared, ← hrun, Config.set, Function.update_eq_self]
      rfl
    · exact .inl (.act hrun hx ha)

/-- **What is reached is seen to be reached.** -/
theorem reach {I' : σ' → Prop} {I : σ → Prop} (hI : ∀ s, I' s → I (R.shared s))
    (h : Reach P' I' c) : Reach P I (R.config c) := by
  induction h with
  | @init s hs =>
    have hinit : R.config (.init P' s) = .init P (R.shared s) := by
      simp only [config, Config.init, Thread.map, R.start]
    rw [hinit]
    exact .init (hI s hs)
  | step _ hst ih =>
    rcases R.step hst with hstep | hsame
    · exact .step ih hstep
    · rwa [hsame]

end Refinement

end Monitor
