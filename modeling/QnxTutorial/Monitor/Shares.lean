import QnxTutorial.Monitor.Progress
import QnxTutorial.Monitor.Schedule
import QnxTutorial.Potential

/-!
# How many steps the work takes

That a program is never stuck does not mean that it gets anything done. Here is an accounting of
steps: every thread has a *share* of the steps still to be taken, which may depend on the shared
data, and `goals` counts in these what the program is for. A step lowers the share of its thread,
unless it achieves a goal, which is worth a fixed number of steps and may raise the shares of the
others; a sender pays in advance for the thread that it wakes. Only spurious wake-ups are not paid
for by anybody.

**Theorem (`Shares.bound`).** In every run, the number of steps is bounded by the goals achieved and
the spurious wake-ups.
-/

namespace Monitor

variable {ι σ ε : Type} {P : Program ι σ ε} [DecidableEq ι] {I : σ → Prop} {c c' d : Config P}
  {n m : ℕ}

/-! ## Runs of a given length -/

/-- A step that only wakes a sleeping thread. -/
def Spurious (c c' : Config P) : Prop := ∃ i k, c.thread i = .asleep k ∧ c' = c.set i (.woken k)

/-- Any other step. -/
def Proper (c c' : Config P) : Prop := Step c c' ∧ ¬ Spurious c c'

/-- A run of `n` steps, with `m` spurious wake-ups in between. -/
abbrev Path (c : Config P) : ℕ → ℕ → Config P → Prop := Potential.Path Proper Spurious c

theorem Spurious.toStep (h : Spurious c c') : Step c c' := by
  obtain ⟨i, k, hi, rfl⟩ := h
  exact .spurious hi

theorem Spurious.mutex (h : Spurious c c') : c'.mutex = c.mutex := by
  obtain ⟨i, k, hi, rfl⟩ := h
  rfl

theorem Spurious.exists_woken (h : Spurious c c') :
    ∃ j k, c.thread j = .asleep k ∧ c'.thread j = .woken k := by
  obtain ⟨i, k, hi, rfl⟩ := h
  exact ⟨i, k, hi, Config.set_thread_self ..⟩

theorem Spurious.run (h : Spurious c c') {i : ι} {pc : P.Pc i} (hi : c.thread i = .run pc) :
    c'.thread i = .run pc := by
  obtain ⟨j, k, hj, rfl⟩ := h
  have hij : i ≠ j := by
    rintro rfl
    exact nomatch hi.symm.trans hj
  rwa [Config.set_thread_ne c _ hij]

theorem Reach.path (hc : Reach P I c) (hp : Path c n m c') : Reach P I c' :=
  Potential.Path.invariant hp (fun _ _ hc hst => hc.step hst.1) (fun _ _ hc hs => hc.step hs.toStep)
    hc

theorem shared_invariant_of_path {J : σ → Prop} (hp : Path c n m d)
    (hact : ∀ {i pc k f e s s'}, P.code i pc = .act f → f e s = some (s', k) → J s → J s')
    (hc : J c.shared) : J d.shared :=
  Potential.Path.invariant (J := fun c => J c.shared) hp
    (fun _ _ hc hst => hst.1.shared_invariant hact hc)
    (fun _ _ hc hs => hs.toStep.shared_invariant hact hc) hc

theorem Path.play (hp : Path c n m d) {l : List (Move ι ε)} (h : Monitor.play d l = some c') :
    ∃ n m, Path c n m c' := by
  induction l generalizing n m d with
  | nil =>
    cases h
    exact ⟨n, m, hp⟩
  | cons move rest ih =>
    obtain ⟨d', hmove, hrest⟩ := Option.bind_eq_some_iff.1 h
    have hst : Step d d' := by
      cases move with
      | step i e => exact exec_step hmove
      | signal i w => exact execSignal_step hmove
    by_cases hs : Spurious d d'
    · exact ih (hp.event hs) hrest
    · exact ih (hp.step ⟨hst, hs⟩) hrest

/-- Thread `i` was running and has moved on, or the mutex has changed hands. -/
def movesOn [(i : ι) → DecidableEq (P.Pc i)] (c c' : Config P) (i : ι) : Bool :=
  c'.mutex != c.mutex ||
    match c.thread i with
    | .run pc => c'.thread i != .run pc
    | .asleep _ | .woken _ => false

theorem not_spurious_of_movesOn [(i : ι) → DecidableEq (P.Pc i)] {i : ι}
    (h : movesOn c c' i = true) : ¬ Spurious c c' := by
  intro hs
  unfold movesOn at h
  rw [hs.mutex, bne_self_eq_false, Bool.false_or] at h
  cases hi : c.thread i with
  | run pc => simp [hi, hs.run hi] at h
  | asleep | woken => simp [hi] at h

def Move.mover : Move ι ε → ι
  | .step i _ | .signal i _ => i

/-- Run a schedule without spurious wake-ups. -/
def playOn [(i : ι) → DecidableEq (P.Pc i)] (c : Config P) : List (Move ι ε) → Option (Config P)
  | [] => some c
  | move :: rest => (move.exec c).bind fun c' =>
      if movesOn c c' move.mover then playOn c' rest else none

theorem Path.playOn [(i : ι) → DecidableEq (P.Pc i)] (hp : Path c n m d) {l : List (Move ι ε)}
    (h : Monitor.playOn d l = some c') : Path c (n + l.length) m c' := by
  induction l generalizing n d with
  | nil =>
    cases h
    exact hp
  | cons move rest ih =>
    obtain ⟨d', hmove, hrest⟩ := Option.bind_eq_some_iff.1 h
    obtain ⟨hon, hrest⟩ := Option.ite_none_right_eq_some.1 hrest
    have hst : Step d d' := by
      cases move with
      | step i e => exact exec_step hmove
      | signal i w => exact execSignal_step hmove
    have hpath := ih (hp.step ⟨hst, not_spurious_of_movesOn hon⟩) hrest
    rwa [Nat.add_right_comm, Nat.add_assoc] at hpath

/-! ## Shares -/

/-- The accounting. It may rely on what is known at a control point (`know`). The shared data have a
`stock` to pay from later. A goal pays for `worth` steps and raises the share of every other thread
by `grow`, a notification that of a sleeper by `wake`. -/
structure Shares (P : Program ι σ ε) [Fintype ι] where
  know : (i : ι) → P.Pc i → σ → Prop
  share : (i : ι) → Thread (P.Pc i) → σ → ℕ
  stock : σ → ℕ
  goals : σ → ℕ
  worth : ℕ
  grow : ℕ
  wake : ℕ
  lock : ∀ {i pc k s}, P.code i pc = .lock k → share i (.run k) s < share i (.run pc) s
  unlock : ∀ {i pc k s}, P.code i pc = .unlock k → share i (.run k) s < share i (.run pc) s
  wait : ∀ {i pc k s}, P.code i pc = .wait k → share i (.asleep k) s < share i (.run pc) s
  relock : ∀ {i pc k s}, P.code i pc = .wait k → share i (.run k) s < share i (.woken k) s
  woken : ∀ {i k s}, share i (.woken k) s ≤ share i (.asleep k) s + wake
  signal : ∀ {i pc k s}, P.code i pc = .signal k →
    share i (.run k) s + wake < share i (.run pc) s
  broadcast : ∀ {i pc k s}, P.code i pc = .broadcast k →
    share i (.run k) s + Fintype.card ι * wake < share i (.run pc) s
  act : ∀ {i pc k s s' e f}, P.code i pc = .act f → f e s = some (s', k) → know i pc s →
    share i (.run k) s' + stock s' + worth * goals s <
      share i (.run pc) s + stock s + worth * goals s'
  others : ∀ {i pc k s s' e f}, P.code i pc = .act f → f e s = some (s', k) → know i pc s →
    ∀ j t, j ≠ i → share j t s' + grow * goals s ≤ share j t s + grow * goals s'

namespace Shares

variable [Fintype ι] (K : Shares P)

/-- What is known at the control points where the threads are. -/
def Knows (c : Config P) : Prop := ∀ i pc, c.thread i = .run pc → K.know i pc c.shared

/-- The shares of all threads. -/
def total (t : (i : ι) → Thread (P.Pc i)) (s : σ) : ℕ := ∑ i, K.share i (t i) s

/-- The steps that are paid for. -/
def potential (c : Config P) : ℕ := K.total c.thread c.shared + K.stock c.shared

/-- What a goal is worth, with what the other threads get. -/
def price : ℕ := K.worth + (Fintype.card ι - 1) * K.grow

variable {K}

/-- Moving one thread exchanges its share. -/
theorem total_set (c : Config P) (i : ι) (x : Thread (P.Pc i)) (s : σ) :
    K.total (c.set i x).thread s + K.share i (c.thread i) s =
      K.total c.thread s + K.share i x s :=
  Potential.sum_update (fun i t => K.share i t s) c.thread i x

omit [DecidableEq ι] in
theorem total_wakeAll_le (c : Config P) (s : σ) :
    K.total c.wakeAll.thread s ≤ K.total c.thread s + Fintype.card ι * K.wake := by
  have hle : ∑ i, K.share i (c.thread i).wake s ≤ ∑ i, (K.share i (c.thread i) s + K.wake) := by
    apply Finset.sum_le_sum
    intro i _
    cases c.thread i with
    | asleep k => exact K.woken
    | run | woken => exact Nat.le_add_right _ _
  rw [Finset.sum_add_distrib, Finset.sum_const_nat (m := K.wake) fun _ _ => rfl,
    Finset.card_univ] at hle
  exact hle

/-- A thread whose share gets lower by more than `a` lowers the total by as much. -/
theorem total_set_add_lt {i : ι} {t : Thread (P.Pc i)} (hi : c.thread i = t)
    (x : Thread (P.Pc i)) (a : ℕ) (hlt : K.share i x c.shared + a < K.share i t c.shared) :
    K.total (c.set i x).thread c.shared + a < K.total c.thread c.shared := by
  have := total_set (K := K) c i x c.shared
  rw [hi] at this
  omega

/-- An act changes the shares of the others only by what it achieves. -/
theorem total_act {i : ι} (t : (j : ι) → Thread (P.Pc j)) {s s' : σ}
    (hothers : ∀ j x, j ≠ i →
      K.share j x s' + K.grow * K.goals s ≤ K.share j x s + K.grow * K.goals s') :
    K.total t s' + K.share i (t i) s + (Fintype.card ι - 1) * (K.grow * K.goals s) ≤
      K.total t s + K.share i (t i) s' + (Fintype.card ι - 1) * (K.grow * K.goals s') := by
  have hsum : ∑ j ∈ Finset.univ.erase i, (K.share j (t j) s' + K.grow * K.goals s) ≤
      ∑ j ∈ Finset.univ.erase i, (K.share j (t j) s + K.grow * K.goals s') :=
    Finset.sum_le_sum fun j hj => hothers j (t j) (Finset.ne_of_mem_erase hj)
  have hcard : (Finset.univ.erase i).card = Fintype.card ι - 1 :=
    Finset.card_erase_of_mem (Finset.mem_univ i)
  rw [Finset.sum_add_distrib, Finset.sum_add_distrib,
    Finset.sum_const_nat (m := K.grow * K.goals s) fun _ _ => rfl,
    Finset.sum_const_nat (m := K.grow * K.goals s') fun _ _ => rfl, hcard] at hsum
  have h := Finset.add_sum_erase Finset.univ (fun j => K.share j (t j) s) (Finset.mem_univ i)
  have h' := Finset.add_sum_erase Finset.univ (fun j => K.share j (t j) s') (Finset.mem_univ i)
  unfold total
  omega

/-- **One step** is paid for by the share that it lowers, or by what it achieves. -/
theorem potential_step (ho : Owned c) (hk : K.Knows c) (hst : Proper c c') :
    K.potential c' + K.price * K.goals c.shared <
      K.potential c + K.price * K.goals c'.shared := by
  obtain ⟨hst, hs⟩ := hst
  unfold potential
  cases hst with
  | @lock i pc k hi hc hm =>
    have := total_set_add_lt (K := K) hi (.run k) 0 (K.lock hc)
    simp only [Config.set_shared]
    omega
  | @unlock i pc k hi hc hm =>
    have := total_set_add_lt (K := K) hi (.run k) 0 (K.unlock hc)
    simp only [Config.set_shared]
    omega
  | @wait i pc k hi hc hm =>
    have := total_set_add_lt (K := K) hi (.asleep k) 0 (K.wait hc)
    simp only [Config.set_shared]
    omega
  | @spurious i k hi => exact absurd ⟨i, k, hi, rfl⟩ hs
  | @relock i k hi hm =>
    obtain ⟨pc, hc⟩ := ho.waits i k (.inr hi)
    have := total_set_add_lt (K := K) hi (.run k) 0 (K.relock hc)
    simp only [Config.set_shared]
    omega
  | @signalNone i pc k hi hc hnone =>
    have := total_set_add_lt (K := K) hi (.run k) K.wake (K.signal hc)
    simp only [Config.set_shared]
    omega
  | @signal i j pc k k' hi hc hj =>
    have hij : j ≠ i := by
      rintro rfl
      exact nomatch hi.symm.trans hj
    have hsender := total_set_add_lt (K := K) hi (.run k) K.wake (K.signal hc)
    have hwoken := total_set (K := K) (c.set i (.run k)) j (.woken k') c.shared
    have hwake := K.woken (i := j) (k := k') (s := c.shared)
    rw [Config.set_thread_ne c _ hij, hj] at hwoken
    simp only [Config.set_shared]
    omega
  | @broadcast i pc k hi hc =>
    have hall := total_wakeAll_le (K := K) c c.shared
    have hi' : c.wakeAll.thread i = .run pc := by rw [Config.wakeAll_thread, hi]; rfl
    have := total_set_add_lt (K := K) hi' (.run k) (Fintype.card ι * K.wake) (K.broadcast hc)
    rw [Config.wakeAll_shared] at this
    simp only [Config.set_shared, Config.wakeAll_shared]
    omega
  | @act i pc k f e s hi hc hf =>
    have hknow := hk i pc hi
    have hshare := K.act hc hf hknow
    have hmoved := total_set (K := K) c i (.run k) s
    have hacted := total_act (K := K) c.thread (K.others hc hf hknow)
    rw [hi] at hmoved hacted
    simp only [price, Nat.add_mul, Nat.mul_assoc] at hacted ⊢
    omega

/-- A spurious wake-up raises one share, and nothing else happens. -/
theorem potential_spurious (hs : Spurious c c') :
    K.potential c' ≤ K.potential c + K.wake ∧ c'.shared = c.shared := by
  obtain ⟨i, k, hi, rfl⟩ := hs
  have hset := total_set (K := K) c i (.woken k) c.shared
  have hwake := K.woken (i := i) (k := k) (s := c.shared)
  rw [hi] at hset
  refine ⟨?_, rfl⟩
  simp only [potential, Config.set_shared]
  omega

/-- **The steps of a run** are paid for by the goals achieved and by what was paid in advance,
spurious wake-ups apart. -/
theorem bound (hc : Reach P I c) (hp : Path c n m c') (hk : ∀ {n m d}, Path c n m d → K.Knows d) :
    n + K.potential c' + K.price * K.goals c.shared ≤
      K.potential c + K.price * K.goals c'.shared + K.wake * m := by
  apply Potential.Path.bound (J := fun d => Owned d ∧ K.Knows d) (F := K.potential)
    (G := fun c => K.goals c.shared) hp
  · exact fun hp => ⟨(hc.path hp).owned, hk hp⟩
  · exact fun b d hb hst => potential_step hb.1 hb.2 hst
  · intro b d _ hs
    obtain ⟨hpot, hshared⟩ := potential_spurious (K := K) hs
    rw [hshared]
    omega

omit [Fintype ι] in
theorem not_spurious_act {i : ι} {pc k : P.Pc i} (hi : c.thread i = .run pc) (s : σ) :
    ¬ Spurious c { c.set i (.run k) with shared := s } := by
  intro hs
  obtain ⟨j, k', hj, hw⟩ := hs.exists_woken
  have hij : j ≠ i := by
    rintro rfl
    exact nomatch hi.symm.trans hj
  exact nomatch hj.symm.trans ((Config.set_thread_ne c _ hij).symm.trans hw)

/-- **A ready thread** does not wait for a spurious wake-up. -/
theorem exists_step (K : Shares P) {i : ι} (h : c.Ready i) :
    ∃ c', Proper c c' := by
  unfold Config.Ready at h
  cases hi : c.thread i with
  | asleep k =>
    rw [hi] at h
    exact h.elim
  | woken k =>
    rw [hi] at h
    exact ⟨_, .relock hi h, fun hs => nomatch hs.mutex.trans h⟩
  | run pc =>
    simp only [hi] at h
    cases hc : P.code i pc with
    | lock k =>
      rw [hc] at h
      exact ⟨_, .lock hi hc h, fun hs => nomatch hs.mutex.trans h⟩
    | unlock k =>
      rw [hc] at h
      exact ⟨_, .unlock hi hc h, fun hs => nomatch hs.mutex.trans h⟩
    | wait k =>
      rw [hc] at h
      exact ⟨_, .wait hi hc h, fun hs => nomatch hs.mutex.trans h⟩
    | signal k =>
      have hlt := K.signal (s := c.shared) hc
      by_cases hnone : ∀ j k', c.thread j ≠ .asleep k'
      · refine ⟨_, .signalNone hi hc hnone, ?_⟩
        intro hs
        obtain ⟨j, k', hj, -⟩ := hs.exists_woken
        exact hnone j k' hj
      · simp only [not_forall, not_not] at hnone
        obtain ⟨j, k', hj⟩ := hnone
        refine ⟨_, .signal hi hc hj, ?_⟩
        intro hs
        have hij : i ≠ j := by
          rintro rfl
          exact nomatch hi.symm.trans hj
        have hrun := hs.run hi
        rw [Config.set_thread_ne _ _ hij, Config.set_thread_self] at hrun
        cases hrun
        omega
    | broadcast k =>
      have hlt := K.broadcast (s := c.shared) hc
      refine ⟨_, .broadcast hi hc, ?_⟩
      intro hs
      have hrun := hs.run hi
      rw [Config.set_thread_self] at hrun
      cases hrun
      omega
    | act f =>
      rw [hc] at h
      obtain ⟨e, s, k, hf⟩ := h
      exact ⟨_, .act hi hc hf, not_spurious_act hi s⟩
    | halt =>
      rw [hc] at h
      exact h.elim

end Shares

end Monitor
