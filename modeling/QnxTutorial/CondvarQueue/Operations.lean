import Mathlib.Algebra.Group.Nat.Defs
import QnxTutorial.CondvarQueue.Queue
import QnxTutorial.Machine

/-!
# The queue, operation by operation

`System` is the queue after any sequence of calls of the two functions, with the calls of `malloc`
and `free` that are about its nodes.

**Theorem (`fifo_on_heap`).** On a queue that is well-formed for a list, the functions do what they
should. In every run the queue is well-formed, no node is freed twice, and no freed node is
reachable. `q_n_items` is the length of the list as long as that is less than 2^31.
-/

namespace QnxTutorial.CondvarQueue

open LinkedList Machine

variable {newp : Ptr} {data : ℤ} {cells : List (Ptr × ℤ)} {q q' : Queue}

/-! ## Nodes that are allocated and freed -/

/-- A call for a node. -/
inductive HeapCall where
  | malloc (p : Ptr)
  | free (p : Ptr)
  deriving DecidableEq

/-- The node was allocated, and not freed since. -/
def live (log : List HeapCall) (p : Ptr) : Prop :=
  log.foldl (fun l c => match c with
    | .malloc a => l ∨ p = a
    | .free a => l ∧ p ≠ a) False

/-- Only live nodes are freed. -/
def FreedOnce (log : List HeapCall) : Prop :=
  ∀ pre p post, log = pre ++ .free p :: post → live pre p

@[simp] theorem live_malloc {log : List HeapCall} {a p : Ptr} :
    live (log ++ [.malloc a]) p ↔ live log p ∨ p = a := by
  simp [live]

@[simp] theorem live_free {log : List HeapCall} {a p : Ptr} :
    live (log ++ [.free a]) p ↔ live log p ∧ p ≠ a := by
  simp [live]

theorem freedOnce_nil : FreedOnce [] :=
  fun pre p post heq => absurd heq.symm (by simp)

theorem FreedOnce.concat {log : List HeapCall} (h : FreedOnce log) {c : HeapCall}
    (hc : ∀ p, c = .free p → live log p) : FreedOnce (log ++ [c]) := by
  intro pre p post heq
  rcases List.eq_nil_or_concat post with rfl | ⟨post, c', rfl⟩
  · obtain ⟨rfl, hlast⟩ := List.append_inj' heq rfl
    cases hlast
    exact hc p rfl
  · rw [List.concat_eq_append, ← List.cons_append, ← List.append_assoc] at heq
    obtain ⟨rfl, -⟩ := List.append_inj' heq rfl
    exact h pre p post rfl

/-! ## Sequences of calls -/

/-- A call of one of the functions. -/
inductive Op where
  | add (data : ℤ) (newp : Ptr) (loops : ℕ)
  | get

/-- What a call does to the list. -/
def Op.list (l : List ℤ) : Op → List ℤ
  | .add data _ _ => l ++ [data]
  | .get => l.tail

/-- The queue, and the calls for its nodes so far. -/
structure System where
  queue : Queue
  log : List HeapCall

def System.step (s : System) : Op → Option System
  | .add data newp loops =>
    if Fresh newp s.queue then
      (addElementToQueue newp loops data s.queue).map fun queue => ⟨queue, s.log ++ [.malloc newp]⟩
    else none
  | .get => (getDataAndRemoveFromQueue s.queue).map fun p =>
    ⟨p.2, s.log ++ s.queue.dataQueuep.toList.map .free⟩

/-- Any sequence of calls, from the empty queue. -/
def system : Machine System Op where
  init s := s = ⟨.empty, []⟩
  allowed s op := (s.step op).isSome
  next s op := (s.step op).getD s

/-- What holds between two calls. -/
structure Represents (cells : List (Ptr × ℤ)) (s : System) : Prop where
  chain : Chain s.queue.heap s.queue.dataQueuep cells
  live : ∀ p, live s.log p ↔ s.queue.heap p ≠ none
  once : FreedOnce s.log
  qNItems : s.queue.qNItems = BitVec.ofNat 32 cells.length

variable {s s' : System}

theorem Represents.ne_none (h : Represents cells s) {p : Ptr} (hp : p ∈ cells.map Prod.fst) :
    s.queue.heap p ≠ none :=
  fun hnone => Fresh.not_mem hnone h.chain hp

theorem represents_init : Represents [] ⟨.empty, []⟩ :=
  ⟨rfl, fun _ => iff_of_false id fun h => h rfl, freedOnce_nil, rfl⟩

theorem Represents.add (h : Represents cells s) (hadds : Adds newp data cells s.queue q) :
    Represents (cells ++ [(newp, data)]) ⟨q, s.log ++ [.malloc newp]⟩ where
  chain := hadds.chain
  live p := by
    rw [live_malloc, h.live]
    by_cases hp : p = newp
    · subst hp
      exact iff_of_true (.inr rfl) (by rw [hadds.node]; nofun)
    · rw [or_iff_left hp]
      by_cases hlast : ∃ init x, cells = init ++ [(p, x)]
      · obtain ⟨init, x, rfl⟩ := hlast
        exact iff_of_true (h.ne_none (by simp)) (by rw [hadds.last init p x rfl]; nofun)
      · simp only [not_exists] at hlast
        rw [hadds.others p hp hlast]
  once := h.once.concat nofun
  qNItems := by
    rw [hadds.qNItems, h.qNItems, List.length_append, List.length_singleton, BitVec.ofNat_add]
    rfl

theorem Represents.take {a : Ptr} {x : ℤ} (h : Represents ((a, x) :: cells) s)
    (htakes : Takes a cells s.queue q) : Represents cells ⟨q, s.log ++ [.free a]⟩ where
  chain := htakes.chain
  live p := by
    rw [live_free, h.live]
    by_cases hp : p = a
    · subst hp
      exact iff_of_false (fun h => h.2 rfl) fun h => h htakes.head
    · rw [and_iff_left hp, htakes.others p hp]
  once := by
    apply h.once.concat
    intro p hp
    cases hp
    exact (h.live a).2 (h.ne_none (by simp))
  qNItems := by
    rw [htakes.qNItems, h.qNItems, List.length_cons, BitVec.ofNat_add]
    exact BitVec.add_sub_cancel _ _

theorem Represents.step (h : Represents cells s) {op : Op} (hs : s.step op = some s') :
    ∃ cells', Represents cells' s' ∧ cells'.map Prod.snd = op.list (cells.map Prod.snd) := by
  cases op with
  | add data newp loops =>
    obtain ⟨hf, hs⟩ := Option.ite_none_right_eq_some.1 hs
    obtain ⟨q, hq, rfl⟩ := Option.map_eq_some_iff.1 hs
    exact ⟨_, h.add (adds_of_eq_some h.chain hf hq), by simp [Op.list]⟩
  | get =>
    obtain ⟨⟨data, q⟩, hq, rfl⟩ := Option.map_eq_some_iff.1 hs
    cases cells with
    | nil =>
      have hp : s.queue.dataQueuep = none := h.chain
      rw [getDataAndRemoveFromQueue_empty h.chain] at hq
      cases hq
      rw [hp, Option.toList_none, List.map_nil, List.append_nil]
      exact ⟨[], h, rfl⟩
    | cons cell cells =>
      obtain ⟨a, x⟩ := cell
      have hp : s.queue.dataQueuep = some a := h.chain.1
      obtain ⟨q', hq', htakes⟩ := getDataAndRemoveFromQueue_takes h.chain
      cases hq'.symm.trans hq
      rw [hp, Option.toList_some, List.map_singleton]
      exact ⟨cells, h.take htakes, rfl⟩

theorem represents_of_run {h : List (System × Op)} (hrun : system.Run h s) :
    ∃ cells, Represents cells s ∧ cells.map Prod.snd = (events h).foldl Op.list [] := by
  induction hrun with
  | init hs =>
    cases hs
    exact ⟨[], represents_init, rfl⟩
  | @step h s op hrun ha ih =>
    obtain ⟨cells, hrep, hcells⟩ := ih
    obtain ⟨s', hs'⟩ := Option.isSome_iff_exists.1 ha
    obtain ⟨cells', hrep', hcells'⟩ := hrep.step hs'
    have hnext : system.next s op = s' := by
      show (s.step op).getD s = s'
      rw [hs', Option.getD_some]
    refine ⟨cells', hnext ▸ hrep', ?_⟩
    rw [hcells', hcells]
    simp only [events, List.map_append, List.map_singleton, List.foldl_append, List.foldl_cons,
      List.foldl_nil]

/-! ## The theorem -/

theorem toInt_ofNat_eq_iff {n : ℕ} : (BitVec.ofNat 32 n).toInt = n ↔ n < 2 ^ 31 := by
  constructor
  · intro h
    have hlt := BitVec.toInt_lt (x := BitVec.ofNat 32 n)
    omega
  · intro hn
    rw [BitVec.toInt_ofNat', Int.bmod_eq_of_le (by omega) (by omega)]

/-- What the functions do to a queue that is well-formed for a list of cells. -/
structure Operates (cells : List (Ptr × ℤ)) (q : Queue) : Prop where
  nodup : (cells.map Prod.fst).Nodup
  allocated : ∀ p ∈ cells.map Prod.fst, q.heap p ≠ none
  add : ∀ newp data, Fresh newp q → ∃ q', (∀ loops, cells.length ≤ loops →
    addElementToQueue newp loops data q = some q') ∧ Adds newp data cells q q'
  get : ∀ a x rest, cells = (a, x) :: rest →
    ∃ q', getDataAndRemoveFromQueue q = some (some x, q') ∧ Takes a rest q q'
  empty : cells = [] → getDataAndRemoveFromQueue q = some (none, q)

/-- What holds after a sequence of calls: the list is that of a FIFO queue. -/
structure Holds (ops : List Op) (cells : List (Ptr × ℤ)) (s : System) : Prop where
  chain : Chain s.queue.heap s.queue.dataQueuep cells
  list : cells.map Prod.snd = ops.foldl Op.list []
  once : FreedOnce s.log
  live : ∀ p ∈ cells.map Prod.fst, CondvarQueue.live s.log p
  qNItems : s.queue.qNItems.toInt = cells.length ∧ 0 ≤ s.queue.qNItems.toInt ↔
    cells.length < 2 ^ 31

/-- **A FIFO list on a heap.** -/
theorem fifo_on_heap {h : List (System × Op)} {s : System} (hrun : system.Run h s) :
    (∀ q cells, Chain q.heap q.dataQueuep cells → Operates cells q) ∧
      ∃ cells, Holds (events h) cells s := by
  constructor
  · intro q cells hc
    refine ⟨hc.nodup, fun p hp hnone => Fresh.not_mem hnone hc hp,
      fun newp data hf => addElementToQueue_adds hc hf data, ?_, ?_⟩
    · rintro a x rest rfl
      exact getDataAndRemoveFromQueue_takes hc
    · rintro rfl
      exact getDataAndRemoveFromQueue_empty hc
  · obtain ⟨cells, hrep, hcells⟩ := represents_of_run hrun
    refine ⟨cells, hrep.chain, hcells, hrep.once, fun p hp => (hrep.live p).2 (hrep.ne_none hp), ?_⟩
    rw [hrep.qNItems, ← toInt_ofNat_eq_iff]
    exact and_iff_left_of_imp fun hcount => by omega

/-- Two elements are added and one is taken. -/
def twoAdded : List Op := [.add 7 100 0, .add 8 200 1, .get]

theorem fifo_on_heap_two : ∃ (h : List (System × Op)) (s : System) (cells : List (Ptr × ℤ)),
    system.Run h s ∧ events h = twoAdded ∧ Holds (events h) cells s := by
  have ha : ∀ p ∈ system.trace ⟨.empty, []⟩ twoAdded, system.allowed p.1 p.2 := by
    simp only [twoAdded, Machine.trace, List.forall_mem_cons]
    exact ⟨rfl, rfl, rfl, List.forall_mem_nil _⟩
  have hrun := (Run.init rfl).trace ha
  obtain ⟨cells, hcells⟩ := (fifo_on_heap hrun).2
  exact ⟨_, _, cells, hrun, rfl, hcells⟩

/-- The queue can get as long as one likes. -/
theorem exists_run_length (n : ℕ) : ∃ h s cells, system.Run h s ∧ Represents cells s ∧
    cells.length = n ∧ ∀ p, n ≤ p → s.queue.heap p = none := by
  induction n with
  | zero => exact ⟨[], _, [], .init rfl, represents_init, rfl, fun _ _ => rfl⟩
  | succ n ih =>
    obtain ⟨h, s, cells, hrun, hrep, hlen, hfree⟩ := ih
    have hf : Fresh n s.queue := hfree n (Nat.le_refl n)
    obtain ⟨q, hq, hadds⟩ := addElementToQueue_adds hrep.chain hf 0
    have hstep : s.step (.add 0 n cells.length) = some ⟨q, s.log ++ [.malloc n]⟩ := by
      rw [System.step, if_pos hf, hq _ (Nat.le_refl _), Option.map_some]
    have hnext : system.next s (.add 0 n cells.length) = ⟨q, s.log ++ [.malloc n]⟩ := by
      show (s.step _).getD s = _
      rw [hstep, Option.getD_some]
    have ha : system.allowed s (.add 0 n cells.length) := by
      show (s.step _).isSome
      rw [hstep, Option.isSome_some]
    refine ⟨_, _, _, hnext ▸ hrun.step ha, hrep.add hadds, ?_, fun p hp => ?_⟩
    · rw [List.length_append, hlen, List.length_singleton]
    · rw [hadds.others p (Nat.ne_of_gt hp), hfree p (by omega)]
      rintro init x rfl
      exact hrep.ne_none (by simp) (hfree p (by omega))

/-- **The count goes wrong** at 2^31 elements. -/
theorem count_overflows : ¬ ∀ h s cells, system.Run h s →
    Chain s.queue.heap s.queue.dataQueuep cells →
    s.queue.qNItems.toInt = cells.length ∧ 0 ≤ s.queue.qNItems.toInt := by
  intro hall
  obtain ⟨h, s, cells, hrun, hrep, hlen, -⟩ := exists_run_length (2 ^ 31)
  have hcount := (hall h s cells hrun hrep.chain).1
  rw [hrep.qNItems, toInt_ofNat_eq_iff, hlen] at hcount
  exact Nat.lt_irrefl _ hcount

end QnxTutorial.CondvarQueue
