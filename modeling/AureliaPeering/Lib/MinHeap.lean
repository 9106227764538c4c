import Mathlib.Data.List.Sort
import Mathlib.Data.List.TakeWhile
import Mathlib.Data.Prod.Lex

/-!
A minimum-first priority queue, represented by its elements in the order in which they leave it.

`popWhile` is the loop that pops the top as long as it passes a test.
-/

namespace Collections

open List

universe u v

variable {Element : Type u} {Rank : Type v} [LinearOrder Rank]

/-- A priority queue over `rank`, least rank first. -/
structure MinHeap (rank : Element → Rank) where
  elements : List Element
  sorted : elements.Pairwise (fun left right => rank left ≤ rank right)

namespace MinHeap

variable {rank : Element → Rank}

instance : Membership Element (MinHeap rank) where
  mem heap element := element ∈ heap.elements

instance [DecidableEq Element] : DecidableEq (MinHeap rank) := fun left right =>
  decidable_of_iff (left.elements = right.elements) (by cases left; cases right; simp)

def empty : MinHeap rank := ⟨[], List.Pairwise.nil⟩

instance : Std.Total (fun left right : Element => rank left ≤ rank right) :=
  ⟨fun left right => le_total (rank left) (rank right)⟩

instance : IsTrans Element (fun left right : Element => rank left ≤ rank right) :=
  ⟨fun _ _ _ => le_trans⟩

def push (element : Element) (heap : MinHeap rank) : MinHeap rank where
  elements := heap.elements.orderedInsert (fun left right => rank left ≤ rank right) element
  sorted := heap.sorted.orderedInsert element heap.elements

def peek (heap : MinHeap rank) : Option Element := heap.elements.head?

/-- Pop while the top passes `test`: the popped elements in order, and the remaining queue. -/
def popWhile (test : Element → Bool) (heap : MinHeap rank) : List Element × MinHeap rank :=
  (heap.elements.takeWhile test,
    ⟨heap.elements.dropWhile test, heap.sorted.sublist (List.dropWhile_sublist test)⟩)

theorem mem_iff (element : Element) (heap : MinHeap rank) :
    element ∈ heap ↔ element ∈ heap.elements := Iff.rfl

@[simp]
theorem mem_push (element added : Element) (heap : MinHeap rank) :
    element ∈ heap.push added ↔ element = added ∨ element ∈ heap :=
  mem_orderedInsert _

theorem mem_of_mem_popWhile {test : Element → Bool} {heap : MinHeap rank} {element : Element}
    (popped : element ∈ (heap.popWhile test).1) : element ∈ heap ∧ test element = true :=
  ⟨(takeWhile_sublist test).subset popped, mem_takeWhile_imp popped⟩

/-- An element is popped or remains. -/
theorem mem_popWhile_or (test : Element → Bool) (heap : MinHeap rank) (element : Element) :
    element ∈ heap ↔ element ∈ (heap.popWhile test).1 ∨ element ∈ (heap.popWhile test).2 := by
  rw [mem_iff, mem_iff]
  conv_lhs => rw [← takeWhile_append_dropWhile (p := test) (l := heap.elements)]
  exact mem_append

/-- If the test is closed under going down in rank, exactly the failing elements remain. -/
theorem test_of_mem_popWhile_rest {test : Element → Bool} {heap : MinHeap rank}
    (downward : ∀ left right, rank left ≤ rank right → test right = true → test left = true)
    {element : Element} (remains : element ∈ (heap.popWhile test).2) : test element = false := by
  obtain ⟨elements, sorted⟩ := heap
  rw [mem_iff] at remains
  simp only [popWhile] at remains
  induction elements with
  | nil => simp at remains
  | cons head tail ih =>
    rw [pairwise_cons] at sorted
    by_cases passed : test head = true
    · rw [dropWhile_cons_of_pos passed] at remains
      exact ih sorted.2 remains
    · rw [dropWhile_cons_of_neg passed] at remains
      rcases mem_cons.mp remains with same | inTail
      · subst same
        simpa using passed
      · by_contra passes
        exact passed (downward head element (sorted.1 element inTail) (by simpa using passes))

theorem rank_peek_le {heap : MinHeap rank} {top element : Element} (isTop : heap.peek = some top)
    (listed : element ∈ heap) : rank top ≤ rank element := by
  obtain ⟨_, sorted⟩ := heap
  obtain ⟨_, rfl⟩ := head?_eq_some_iff.mp isTop
  rcases mem_cons.mp listed with same | later
  · rw [same]
  · exact (pairwise_cons.mp sorted).1 element later

theorem not_mem_of_peek {heap : MinHeap rank} (noTop : heap.peek = none) (element : Element) :
    ¬ element ∈ heap := by
  rw [mem_iff, head?_eq_none_iff.mp noTop]
  exact not_mem_nil

/-- Popping stops at an element that fails the test. -/
theorem test_of_peek_popWhile {test : Element → Bool} {heap : MinHeap rank} {top : Element}
    (isTop : (heap.popWhile test).2.peek = some top) : test top = false := by
  have failed := head?_dropWhile_not test heap.elements
  rw [show (heap.elements.dropWhile test).head? = some top from isTop] at failed
  exact failed

end MinHeap

end Collections
