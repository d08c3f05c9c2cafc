import Mathlib.Logic.Function.Basic

/-!
# Threads that share a mutex and a condition variable

A *program* gives every thread its control points (with the thread's local variables in them)
and the instruction at each. The pthread calls are instructions of their own, and everything
between two of them is an `act`: one atomic step on the shared data. A step of the system is a
step of one thread, so a run is an arbitrary interleaving.

* `pthread_mutex_lock` is enabled while the mutex is free;
* `pthread_cond_wait` gives the mutex back and puts the thread to sleep in one step; a sleeping
  thread is woken by a signal, a broadcast or spuriously, and takes the mutex again before it
  goes on;
* `pthread_cond_signal` wakes one sleeping thread, whichever, and does nothing if none sleeps.

Every program says at which points a thread holds the mutex, and carries the proof that its
instructions respect that. Main result: `Reach.owned`, by which only the holder of the mutex is
inside a critical section.
-/

namespace Monitor

/-! ## Programs -/

/-- An instruction: shared data `σ`, input from the environment `ε`, control points `L`. An `act`
that gives `none` cannot happen with that input. -/
inductive Instr (σ ε L : Type) where
  | lock (next : L)
  | unlock (next : L)
  | wait (next : L)
  | signal (next : L)
  | broadcast (next : L)
  | act (f : ε → σ → Option (σ × L))
  | halt

/-- The instruction respects the mutex: `h` says whether the thread holds it before, `holds`
whether it does at each control point. -/
def Instr.Disciplined {σ ε L : Type} (holds : L → Bool) (h : Bool) : Instr σ ε L → Prop
  | .lock k => h = false ∧ holds k = true
  | .unlock k => h = true ∧ holds k = false
  | .wait k => h = true ∧ holds k = true
  | .signal k | .broadcast k => holds k = h
  | .act f => ∀ e s s' k, f e s = some (s', k) → holds k = h
  | .halt => h = false

/-- A thread runs at a control point, sleeps in a wait, or was woken and needs the mutex; the
last two carry the point after the wait. -/
inductive Thread (L : Type) where
  | run (pc : L)
  | asleep (pc : L)
  | woken (pc : L)
  deriving DecidableEq

/-- The threads' code. -/
structure Program (ι σ ε : Type) where
  Pc : ι → Type
  start : (i : ι) → Pc i
  code : (i : ι) → Pc i → Instr σ ε (Pc i)
  holds : (i : ι) → Pc i → Bool
  start_free : ∀ i, holds i (start i) = false
  disciplined : ∀ i pc, (code i pc).Disciplined (holds i) (holds i pc)

variable {ι σ ε : Type} {P : Program ι σ ε}

/-! ## Configurations and steps -/

/-- The owner of the mutex, the shared data, and where every thread is. -/
structure Config (P : Program ι σ ε) where
  mutex : Option ι
  shared : σ
  thread : (i : ι) → Thread (P.Pc i)

/-- Everything a thread is doing when it is inside its critical section. -/
def Thread.inside {L : Type} (holds : L → Bool) : Thread L → Bool
  | .run pc => holds pc
  | .asleep _ | .woken _ => false

/-- What a broadcast does to a thread. -/
def Thread.wake {L : Type} : Thread L → Thread L
  | .asleep pc => .woken pc
  | t => t

@[simp] theorem Thread.inside_wake {L : Type} (holds : L → Bool) (t : Thread L) :
    t.wake.inside holds = t.inside holds := by
  cases t <;> rfl

theorem Thread.wake_ne_asleep {L : Type} (t : Thread L) (k : L) : t.wake ≠ .asleep k := by
  cases t <;> simp [wake]

namespace Config

/-- All threads at their first instruction, the mutex free. -/
def init (P : Program ι σ ε) (s : σ) : Config P :=
  ⟨none, s, fun i => .run (P.start i)⟩

/-- Wake every sleeping thread. -/
def wakeAll (c : Config P) : Config P :=
  { c with thread := fun j => (c.thread j).wake }

@[simp] theorem wakeAll_mutex (c : Config P) : c.wakeAll.mutex = c.mutex := rfl

@[simp] theorem wakeAll_shared (c : Config P) : c.wakeAll.shared = c.shared := rfl

@[simp] theorem wakeAll_thread (c : Config P) (j : ι) :
    c.wakeAll.thread j = (c.thread j).wake := rfl

variable [DecidableEq ι]

/-- Move thread `i`. -/
def set (c : Config P) (i : ι) (t : Thread (P.Pc i)) : Config P :=
  { c with thread := Function.update c.thread i t }

@[simp] theorem set_mutex (c : Config P) (i : ι) (t : Thread (P.Pc i)) :
    (c.set i t).mutex = c.mutex := rfl

@[simp] theorem set_shared (c : Config P) (i : ι) (t : Thread (P.Pc i)) :
    (c.set i t).shared = c.shared := rfl

@[simp] theorem set_thread_self (c : Config P) (i : ι) (t : Thread (P.Pc i)) :
    (c.set i t).thread i = t := Function.update_self ..

theorem set_thread_ne (c : Config P) {i j : ι} (t : Thread (P.Pc i)) (h : j ≠ i) :
    (c.set i t).thread j = c.thread j := Function.update_of_ne h ..

end Config

section Steps

variable [DecidableEq ι]

/-- One step of one thread. -/
inductive Step : Config P → Config P → Prop
  | lock {c : Config P} {i : ι} {pc k : P.Pc i} :
      c.thread i = .run pc → P.code i pc = .lock k → c.mutex = none →
      Step c { c.set i (.run k) with mutex := some i }
  | unlock {c : Config P} {i : ι} {pc k : P.Pc i} :
      c.thread i = .run pc → P.code i pc = .unlock k → c.mutex = some i →
      Step c { c.set i (.run k) with mutex := none }
  | wait {c : Config P} {i : ι} {pc k : P.Pc i} :
      c.thread i = .run pc → P.code i pc = .wait k → c.mutex = some i →
      Step c { c.set i (.asleep k) with mutex := none }
  | spurious {c : Config P} {i : ι} {k : P.Pc i} :
      c.thread i = .asleep k → Step c (c.set i (.woken k))
  | relock {c : Config P} {i : ι} {k : P.Pc i} :
      c.thread i = .woken k → c.mutex = none →
      Step c { c.set i (.run k) with mutex := some i }
  | signalNone {c : Config P} {i : ι} {pc k : P.Pc i} :
      c.thread i = .run pc → P.code i pc = .signal k → (∀ j k', c.thread j ≠ .asleep k') →
      Step c (c.set i (.run k))
  | signal {c : Config P} {i j : ι} {pc k : P.Pc i} {k' : P.Pc j} :
      c.thread i = .run pc → P.code i pc = .signal k → c.thread j = .asleep k' →
      Step c ((c.set i (.run k)).set j (.woken k'))
  | broadcast {c : Config P} {i : ι} {pc k : P.Pc i} :
      c.thread i = .run pc → P.code i pc = .broadcast k →
      Step c (c.wakeAll.set i (.run k))
  | act {c : Config P} {i : ι} {pc k : P.Pc i} {f : ε → σ → Option (σ × P.Pc i)} {e : ε} {s : σ} :
      c.thread i = .run pc → P.code i pc = .act f → f e c.shared = some (s, k) →
      Step c { c.set i (.run k) with shared := s }

/-- The configurations that runs from initial data `I` reach. -/
inductive Reach (P : Program ι σ ε) (I : σ → Prop) : Config P → Prop
  | init {s : σ} : I s → Reach P I (Config.init P s)
  | step {c c' : Config P} : Reach P I c → Step c c' → Reach P I c'

/-- **The invariant rule.** What holds at the start and is kept by every step holds throughout. -/
theorem Reach.invariant {I : σ → Prop} {J : Config P → Prop} (h₀ : ∀ s, I s → J (.init P s))
    (hstep : ∀ c c', Reach P I c → J c → Step c c' → J c') {c : Config P} (h : Reach P I c) :
    J c := by
  induction h with
  | init hs => exact h₀ _ hs
  | step hc hst ih => exact hstep _ _ hc ih hst

theorem Step.shared_invariant {J : σ → Prop} {c c' : Config P} (hst : Step c c')
    (hact : ∀ {i pc k f e s s'}, P.code i pc = .act f → f e s = some (s', k) → J s → J s')
    (hc : J c.shared) : J c'.shared := by
  cases hst with
  | act _ hcode hf => exact hact hcode hf hc
  | lock | unlock | wait | spurious | relock | signalNone | signal | broadcast => exact hc

theorem Reach.shared_invariant {I J : σ → Prop} {c : Config P} (h : Reach P I c)
    (h₀ : ∀ s, I s → J s) (hact : ∀ {i pc k f e s s'}, P.code i pc = .act f →
      f e s = some (s', k) → J s → J s') : J c.shared :=
  h.invariant h₀ fun _ _ _ hc hst => hst.shared_invariant hact hc

/-! ## The mutex -/

/-- The mutex is held exactly by the thread inside its critical section, and a thread that sleeps
or was woken is in one of its waits. -/
structure Owned (c : Config P) : Prop where
  owner : ∀ i, (c.thread i).inside (P.holds i) = true ↔ c.mutex = some i
  waits : ∀ i k, c.thread i = .asleep k ∨ c.thread i = .woken k → ∃ pc, P.code i pc = .wait k

/-- `t` is a place where thread `i` may be without breaking `Owned.waits`. -/
def Thread.Placed (P : Program ι σ ε) (i : ι) (t : Thread (P.Pc i)) : Prop :=
  ∀ k, t = .asleep k ∨ t = .woken k → ∃ pc, P.code i pc = .wait k

omit [DecidableEq ι] in
theorem Thread.placed_run (i : ι) (pc : P.Pc i) : Thread.Placed P i (.run pc) := by
  intro k h
  rcases h with h | h <;> cases h

omit [DecidableEq ι] in
theorem owned_init (s : σ) : Owned (.init P s) where
  owner i := by simp [Config.init, Thread.inside, P.start_free i]
  waits i := Thread.placed_run i (P.start i)

namespace Owned

variable {c : Config P} {i : ι}

theorem waits_set (h : Owned c) {t : Thread (P.Pc i)} (ht : t.Placed P i) (j : ι) :
    ((c.set i t).thread j).Placed P j := by
  by_cases hj : j = i
  · subst hj
    simpa using ht
  · rw [Config.set_thread_ne c t hj]
    exact h.waits j

theorem set (h : Owned c) {t : Thread (P.Pc i)} (hp : t.Placed P i)
    (ht : t.inside (P.holds i) = (c.thread i).inside (P.holds i)) : Owned (c.set i t) where
  owner j := by
    by_cases hj : j = i
    · subst hj
      simpa [ht] using h.owner j
    · simpa [Config.set_thread_ne c t hj] using h.owner j
  waits := h.waits_set hp

theorem acquire (h : Owned c) {k : P.Pc i} (hfree : c.mutex = none)
    (hk : P.holds i k = true) : Owned { c.set i (.run k) with mutex := some i } where
  owner j := by
    by_cases hj : j = i
    · subst hj
      simp [Thread.inside, hk]
    · simp only [Config.set_thread_ne c _ hj, h.owner j, hfree]
      simp [Ne.symm hj]
  waits := h.waits_set (Thread.placed_run i k)

theorem release (h : Owned c) {t : Thread (P.Pc i)} (howner : c.mutex = some i)
    (hp : t.Placed P i) (ht : t.inside (P.holds i) = false) :
    Owned { c.set i t with mutex := none } where
  owner j := by
    by_cases hj : j = i
    · subst hj
      simp [ht]
    · simp only [Config.set_thread_ne c _ hj, h.owner j, howner]
      simp [Ne.symm hj]
  waits := h.waits_set hp

omit [DecidableEq ι] in
theorem wakeAll (h : Owned c) : Owned c.wakeAll where
  owner j := by simpa using h.owner j
  waits j k hk := by
    rcases hk with hk | hk
    · exact absurd hk (Thread.wake_ne_asleep _ _)
    · apply h.waits j k
      rw [Config.wakeAll_thread] at hk
      cases ht : c.thread j <;> rw [ht] at hk <;> simp_all [Thread.wake]

theorem step {c' : Config P} (h : Owned c) (hst : Step c c') : Owned c' := by
  cases hst with
  | @lock i pc k hi hc hm =>
    have hd := P.disciplined i pc
    rw [hc] at hd
    exact h.acquire hm hd.2
  | @unlock i pc k hi hc hm =>
    have hd := P.disciplined i pc
    rw [hc] at hd
    exact h.release hm (Thread.placed_run i k) hd.2
  | @wait i pc k hi hc hm =>
    refine h.release hm (fun k' hk' => ?_) rfl
    rcases hk' with hk' | hk' <;> cases hk'
    exact ⟨pc, hc⟩
  | @spurious i k hi =>
    refine h.set (fun k' hk' => ?_) (by rw [hi]; rfl)
    rcases hk' with hk' | hk' <;> cases hk'
    exact h.waits i k (.inl hi)
  | @relock i k hi hm =>
    obtain ⟨pc, hc⟩ := h.waits i k (.inr hi)
    have hd := P.disciplined i pc
    rw [hc] at hd
    exact h.acquire hm hd.2
  | @signalNone i pc k hi hc _ =>
    have hd := P.disciplined i pc
    rw [hc] at hd
    exact h.set (Thread.placed_run i k) (by rw [hi]; exact hd)
  | @signal i j pc k k' hi hc hj =>
    have hd := P.disciplined i pc
    rw [hc] at hd
    have hij : j ≠ i := by
      rintro rfl
      rw [hi] at hj
      cases hj
    refine (h.set (Thread.placed_run i k) (by rw [hi]; exact hd)).set (fun k₂ hk₂ => ?_) ?_
    · rcases hk₂ with hk₂ | hk₂ <;> cases hk₂
      exact h.waits j k' (.inl hj)
    · rw [Config.set_thread_ne c _ hij, hj]
      rfl
  | @broadcast i pc k hi hc =>
    have hd := P.disciplined i pc
    rw [hc] at hd
    apply h.wakeAll.set (Thread.placed_run i k)
    rw [Config.wakeAll_thread, Thread.inside_wake, hi]
    exact hd
  | @act i pc k f e s hi hc hf =>
    have hd := P.disciplined i pc
    rw [hc] at hd
    have hs : Owned (c.set i (.run k)) :=
      h.set (Thread.placed_run i k) (by rw [hi]; exact hd _ _ _ _ hf)
    exact ⟨hs.owner, hs.waits⟩

end Owned

/-- **Mutual exclusion.** In every reachable configuration the mutex is held exactly by the
thread inside its critical section. -/
theorem Reach.owned {I : σ → Prop} {c : Config P} (h : Reach P I c) : Owned c :=
  h.invariant (fun s _ => owned_init s) fun _ _ _ hc hst => hc.step hst

omit [DecidableEq ι] in
/-- The holder of the mutex runs inside its critical section. -/
theorem Owned.holder {c : Config P} (h : Owned c) {i : ι} (hm : c.mutex = some i) :
    ∃ pc, c.thread i = .run pc ∧ P.holds i pc = true := by
  have hin := (h.owner i).2 hm
  cases ht : c.thread i with
  | run pc => exact ⟨pc, rfl, by rwa [ht] at hin⟩
  | asleep | woken => rw [ht] at hin; cases hin

omit [DecidableEq ι] in
theorem Owned.outside {c : Config P} (h : Owned c) (hm : c.mutex = none) {i : ι} {pc : P.Pc i}
    (hi : c.thread i = .run pc) : P.holds i pc = false := by
  by_contra hh
  rw [Bool.not_eq_false] at hh
  have := (h.owner i).1 (by rw [hi]; exact hh)
  rw [hm] at this
  cases this

/-- Where nobody waits, everybody runs. -/
theorem Reach.exists_run {I : σ → Prop} {c : Config P} (h : Reach P I c)
    (hP : ∀ i pc k, P.code i pc ≠ .wait k) (i : ι) : ∃ pc, c.thread i = .run pc := by
  have hwaits := h.owned.waits i
  cases hi : c.thread i with
  | run pc => exact ⟨pc, rfl⟩
  | asleep k =>
    obtain ⟨pc, hc⟩ := hwaits k (.inl hi)
    exact absurd hc (hP i pc k)
  | woken k =>
    obtain ⟨pc, hc⟩ := hwaits k (.inr hi)
    exact absurd hc (hP i pc k)

end Steps

end Monitor
