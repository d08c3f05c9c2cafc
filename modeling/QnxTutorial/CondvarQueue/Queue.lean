import Mathlib.Data.Int.Notation
import QnxTutorial.LinkedList

/-!
# The data queue of `condvar_queue_ex.c`

The queue is a chain of `queueNode_t` on the heap, from `dataQueuep` to a node whose `next_ptr`
is `NULL`. An element is added behind the last node, which is found by walking there, and taken
off at the front.

Both functions fail (`none`) where the C code would follow a dangling pointer, and
`addElementToQueue` also when the walk is given too few iterations. On a well-formed queue neither
happens (`addElementToQueue_adds`, `getDataAndRemoveFromQueue_takes`): adding changes one pointer
of one node, taking frees one node, and the functions are the two ends of a FIFO list.
-/

namespace QnxTutorial.CondvarQueue

open LinkedList

/-- A non-null pointer. -/
abbrev Ptr := ℕ

/-- The queue's globals, and the heap they point into. `q_n_items` is an `int`. -/
structure Queue where
  heap : Heap Ptr ℤ
  dataQueuep : Option Ptr
  qNItems : BitVec 32

namespace Queue

def empty : Queue := ⟨fun _ => none, none, 0⟩

/-- The queue holds the values `l`, from head to tail. -/
def Is (q : Queue) (l : List ℤ) : Prop :=
  ∃ cells, Chain q.heap q.dataQueuep cells ∧ cells.map Prod.snd = l

theorem is_empty : empty.Is [] := ⟨[], rfl, rfl⟩

theorem Is.unique {q : Queue} {l l' : List ℤ} (h : q.Is l) (h' : q.Is l') : l = l' := by
  obtain ⟨cells, hc, rfl⟩ := h
  obtain ⟨cells', hc', rfl⟩ := h'
  rw [hc.unique hc']

theorem is_nil_iff {q : Queue} : q.Is [] ↔ q.dataQueuep = none := by
  constructor
  · rintro ⟨cells, hc, hnil⟩
    rw [List.map_eq_nil_iff] at hnil
    subst hnil
    exact hc
  · exact fun hq => ⟨[], hq, rfl⟩

end Queue

/-! ## `add_element_to_queue` -/

/-- `newp` is the address that `malloc` gave, `loops` the number of looks that the walk to the
end takes. -/
def addElementToQueue (newp : Ptr) (loops : ℕ) (data : ℤ) (q : Queue) : Option Queue :=
  let heap := Function.update q.heap newp (some ⟨none, data⟩)
  match q.dataQueuep with
  | none => some { heap := heap, dataQueuep := some newp, qNItems := q.qNItems + 1 }
  | some endofqueuep =>
    (lastNode heap loops endofqueuep).bind fun endofqueuep =>
      (heap endofqueuep).map fun node =>
        { q with
          heap := Function.update heap endofqueuep (some { node with next := some newp })
          qNItems := q.qNItems + 1 }

/-- What `malloc` promises: the node is not one that is in use. -/
def Fresh (newp : Ptr) (q : Queue) : Prop := q.heap newp = none

instance (newp : Ptr) (q : Queue) : Decidable (Fresh newp q) :=
  inferInstanceAs (Decidable (q.heap newp = none))

theorem Fresh.not_mem {newp : Ptr} {q : Queue} (hf : Fresh newp q) {p : Option Ptr}
    {cells : List (Ptr × ℤ)} (hc : Chain q.heap p cells) : newp ∉ cells.map Prod.fst := by
  intro hmem
  obtain ⟨⟨a, x⟩, hcell, rfl⟩ := List.mem_map.1 hmem
  obtain ⟨l₁, l₂, rfl⟩ := List.append_of_mem hcell
  obtain ⟨-, q', hq', -⟩ := hc.suffix
  rw [hf] at hq'
  cases hq'

/-- What adding does to a queue of these cells. -/
structure Adds (newp : Ptr) (data : ℤ) (cells : List (Ptr × ℤ)) (q q' : Queue) : Prop where
  chain : Chain q'.heap q'.dataQueuep (cells ++ [(newp, data)])
  node : q'.heap newp = some ⟨none, data⟩
  last : ∀ init last x, cells = init ++ [(last, x)] → q'.heap last = some ⟨some newp, x⟩
  others : ∀ a, a ≠ newp → (∀ init x, cells ≠ init ++ [(a, x)]) → q'.heap a = q.heap a
  qNItems : q'.qNItems = q.qNItems + 1

variable {newp : Ptr} {data : ℤ} {cells : List (Ptr × ℤ)} {q q' : Queue} {loops : ℕ}

theorem lastNode_concat {heap : Heap Ptr ℤ} {head last : Ptr} {init : List (Ptr × ℤ)} {x : ℤ}
    (hc : Chain heap (some head) (init ++ [(last, x)])) (hloops : init.length + 1 ≤ loops) :
    lastNode heap loops head = some last := by
  obtain ⟨b, hb⟩ := lastNode_exists hc
  obtain ⟨init', x', heq⟩ := lastNode_eq hc hb
  obtain ⟨-, hlast⟩ := List.append_inj' heq rfl
  cases hlast
  apply lastNode_mono hb
  rw [List.length_append, List.length_singleton]
  exact hloops

theorem addElementToQueue_adds (hc : Chain q.heap q.dataQueuep cells) (hf : Fresh newp q)
    (data : ℤ) : ∃ q', (∀ loops, cells.length ≤ loops →
      addElementToQueue newp loops data q = some q') ∧ Adds newp data cells q q' := by
  have hnew := hf.not_mem hc
  have hc' := hc.update hnew (some ⟨none, data⟩)
  rcases List.eq_nil_or_concat cells with rfl | ⟨init, ⟨last, x⟩, rfl⟩
  · have hnull : q.dataQueuep = none := hc
    refine ⟨_, fun loops _ => by rw [addElementToQueue, hnull], ⟨rfl, none, ?_, rfl⟩, ?_, ?_, ?_,
      rfl⟩
    · exact Function.update_self ..
    · exact Function.update_self ..
    · exact fun init last x heq => absurd heq.symm (by simp)
    · exact fun a ha _ => Function.update_of_ne ha ..
  · rw [List.concat_eq_append] at *
    have hne : newp ≠ last := by
      rintro rfl
      exact hnew (by simp)
    have hlast : Function.update q.heap newp (some ⟨none, data⟩) last = some ⟨none, x⟩ := by
      obtain ⟨-, next, hnext, hnil⟩ := hc'.suffix
      rw [hnext, show next = none from hnil]
    refine ⟨{ q with
      heap := Function.update (Function.update q.heap newp (some ⟨none, data⟩)) last
        (some ⟨some newp, x⟩)
      qNItems := q.qNItems + 1 }, ?_, ?_, ?_, ?_, ?_, rfl⟩
    · intro loops hloops
      rw [addElementToQueue]
      cases hp : q.dataQueuep with
      | none => exact absurd (chain_none.1 (hp ▸ hc)) (by simp)
      | some head =>
        have hwalk := lastNode_concat (hp ▸ hc') (by simpa using hloops)
        simp only [hwalk, Option.bind_some, hlast, Option.map_some]
    · rw [List.append_assoc]
      exact hc'.link (Function.update_self ..) hnew
    · exact (Function.update_of_ne hne ..).trans (Function.update_self ..)
    · intro init' last' x' heq
      obtain ⟨-, hcell⟩ := List.append_inj' heq rfl
      cases hcell
      exact Function.update_self ..
    · intro a ha hother
      have hne' : a ≠ last := by
        rintro rfl
        exact hother init x rfl
      exact (Function.update_of_ne hne' ..).trans (Function.update_of_ne ha ..)

/-- Whatever number of looks is enough, it is enough to add the element. -/
theorem adds_of_eq_some (hc : Chain q.heap q.dataQueuep cells) (hf : Fresh newp q)
    (hadd : addElementToQueue newp loops data q = some q') : Adds newp data cells q q' := by
  obtain ⟨q₁, hq₁, hadds⟩ := addElementToQueue_adds hc hf data
  have hmax := hq₁ (max loops cells.length) (Nat.le_max_right _ _)
  have hsame : addElementToQueue newp (max loops cells.length) data q = some q' := by
    unfold addElementToQueue at hadd ⊢
    cases hp : q.dataQueuep with
    | none => simpa only [hp] using hadd
    | some head =>
      simp only [hp, Option.bind_eq_some_iff] at hadd ⊢
      obtain ⟨last, hlast, hnode⟩ := hadd
      exact ⟨last, lastNode_mono hlast (Nat.le_max_left _ _), hnode⟩
  cases hmax.symm.trans hsame
  exact hadds

theorem addElementToQueue_is {l : List ℤ} (hq : q.Is l) (hf : Fresh newp q)
    (hadd : addElementToQueue newp loops data q = some q') :
    q'.Is (l ++ [data]) ∧ q'.qNItems = q.qNItems + 1 := by
  obtain ⟨cells, hc, rfl⟩ := hq
  have hadds := adds_of_eq_some hc hf hadd
  exact ⟨⟨cells ++ [(newp, data)], hadds.chain, by simp⟩, hadds.qNItems⟩

/-! ## `get_data_and_remove_from_queue` -/

/-- The datum of the first node, or `none` for `NULL` when there is none. The C code returns a
pointer to a copy that only the caller sees. -/
def getDataAndRemoveFromQueue (q : Queue) : Option (Option ℤ × Queue) :=
  match q.dataQueuep with
  | none => some (none, q)
  | some curp =>
    (q.heap curp).map fun node =>
      (some node.data,
        { heap := Function.update q.heap curp none
          dataQueuep := node.next
          qNItems := q.qNItems - 1 })

/-- What taking does to a queue whose first node is at `a`. -/
structure Takes (a : Ptr) (cells : List (Ptr × ℤ)) (q q' : Queue) : Prop where
  chain : Chain q'.heap q'.dataQueuep cells
  head : q'.heap a = none
  others : ∀ b, b ≠ a → q'.heap b = q.heap b
  qNItems : q'.qNItems = q.qNItems - 1

theorem getDataAndRemoveFromQueue_takes {a : Ptr} {x : ℤ}
    (hc : Chain q.heap q.dataQueuep ((a, x) :: cells)) :
    ∃ q', getDataAndRemoveFromQueue q = some (some x, q') ∧ Takes a cells q q' := by
  have hcell := hc
  obtain ⟨hp, next, ha, -⟩ := hcell
  rw [hp] at hc
  refine ⟨⟨Function.update q.heap a none, next, q.qNItems - 1⟩, ?_, hc.unlink ha, ?_, ?_, rfl⟩
  · simp only [getDataAndRemoveFromQueue, hp, ha, Option.map_some]
  · exact Function.update_self ..
  · exact fun b hb => Function.update_of_ne hb ..

theorem getDataAndRemoveFromQueue_empty (hc : Chain q.heap q.dataQueuep []) :
    getDataAndRemoveFromQueue q = some (none, q) := by
  have hp : q.dataQueuep = none := hc
  rw [getDataAndRemoveFromQueue, hp]

theorem getDataAndRemoveFromQueue_nil (hq : q.Is []) :
    getDataAndRemoveFromQueue q = some (none, q) :=
  getDataAndRemoveFromQueue_empty (Queue.is_nil_iff.1 hq)

theorem getDataAndRemoveFromQueue_cons {x : ℤ} {l : List ℤ} (hq : q.Is (x :: l)) :
    ∃ q', getDataAndRemoveFromQueue q = some (some x, q') ∧ q'.Is l ∧
      q'.qNItems = q.qNItems - 1 := by
  obtain ⟨cells, hc, hl⟩ := hq
  cases cells with
  | nil => cases hl
  | cons cell cells =>
    simp only [List.map_cons, List.cons.injEq] at hl
    obtain ⟨rfl, rfl⟩ := hl
    obtain ⟨q', hq', htakes⟩ := getDataAndRemoveFromQueue_takes hc
    exact ⟨q', hq', ⟨cells, htakes.chain, rfl⟩, htakes.qNItems⟩

end QnxTutorial.CondvarQueue
