import Mathlib.Algebra.BigOperators.Group.List.Basic
import Mathlib.Algebra.GroupWithZero.Nat
import Mathlib.Data.List.Forall2
import Mathlib.Data.List.Perm.Basic

/-!
Fixed rows of slots: scanning one in a circle, and changing it slot by slot.
-/

namespace Slots

open List

universe u

/-- The indices of a row of `size` slots, in a circle from `cursor`. -/
def circle (size cursor : Nat) : List Nat :=
  (List.range size).map fun offset => (cursor + offset) % size

theorem mem_circle {size cursor index : Nat} : index ∈ circle size cursor ↔ index < size := by
  constructor
  · intro listed
    obtain ⟨_, bound, rfl⟩ := mem_map.mp listed
    exact Nat.mod_lt _ (by have := mem_range.mp bound; omega)
  · intro bound
    have positive : 0 < size := by omega
    refine mem_map.mpr ⟨(index + size - cursor % size) % size, ?_, ?_⟩
    · exact mem_range.mpr (Nat.mod_lt _ positive)
    · have small := Nat.mod_lt cursor positive
      have split := Nat.div_add_mod cursor size
      have around : cursor + (index + size - cursor % size) =
          index + size * (cursor / size + 1) := by
        rw [Nat.mul_add]
        omega
      rw [Nat.add_mod_mod, around, Nat.add_mul_mod_self_left, Nat.mod_eq_of_lt bound]

variable {Slot : Type u}

/-- Setting one slot is a change of each slot by a reflexive relation. -/
theorem forall₂_set {Change : Slot → Slot → Prop} (unchanged : ∀ slot, Change slot slot)
    {slots : List Slot} {index : Nat} {old new : Slot} (found : slots[index]? = some old)
    (changed : Change old new) : List.Forall₂ Change slots (slots.set index new) := by
  induction slots generalizing index with
  | nil => simp at found
  | cons slot rest ih =>
    cases index with
    | zero =>
      obtain rfl : slot = old := by simpa using found
      exact .cons changed (forall₂_same.mpr fun other _ => unchanged other)
    | succ index => exact .cons (unchanged slot) (ih (by simpa using found))

theorem exists_of_forall₂ {Change : Slot → Slot → Prop} {before after : List Slot}
    (change : List.Forall₂ Change before after) {index : Nat} {new : Slot}
    (found : after[index]? = some new) : ∃ old, before[index]? = some old ∧ Change old new := by
  induction change generalizing index with
  | nil => simp at found
  | cons changed _ ih =>
    cases index with
    | zero =>
      cases found
      exact ⟨_, rfl, changed⟩
    | succ index => exact ih (by simpa using found)

theorem countP_le_of_forall₂ {Change : Slot → Slot → Prop} {counted : Slot → Bool}
    (reflects : ∀ old new, Change old new → counted new → counted old)
    {before after : List Slot} (change : List.Forall₂ Change before after) :
    after.countP counted ≤ before.countP counted := by
  induction change with
  | nil => exact Nat.le_refl 0
  | @cons old new _ _ changed _ ih =>
    by_cases now : counted new
    · simpa [now, reflects old new changed now] using ih
    · rw [countP_cons_of_neg now, countP_cons]
      exact Nat.le_add_right_of_le ih

/-- A row that is not fully counted has a slot that is not. -/
theorem exists_uncounted {counted : Slot → Bool} {slots : List Slot}
    (room : slots.countP counted < slots.length) :
    ∃ (index : Nat) (slot : Slot), slots[index]? = some slot ∧ counted slot = false := by
  by_contra full
  push Not at full
  have all : ∀ slot ∈ slots, counted slot = true := by
    intro slot listed
    obtain ⟨index, found⟩ := mem_iff_getElem?.mp listed
    simpa using full index slot found
  have := countP_eq_length.mpr all
  omega

/-- A sum over a row, with the amount of one slot apart. -/
theorem sum_map_eraseIdx (amount : Slot → Nat) {slots : List Slot} {index : Nat} {slot : Slot}
    (found : slots[index]? = some slot) :
    (slots.map amount).sum = amount slot + ((slots.eraseIdx index).map amount).sum := by
  obtain ⟨bound, rfl⟩ := List.getElem?_eq_some_iff.mp found
  rw [← ((getElem_cons_eraseIdx_perm bound).map amount).sum_eq, map_cons, sum_cons]

/-- Setting one slot moves a sum over the row by the difference of the two slots. -/
theorem sum_map_set (amount : Slot → Nat) {slots : List Slot} {index : Nat} {old : Slot}
    (found : slots[index]? = some old) (new : Slot) :
    ((slots.set index new).map amount).sum + amount old = (slots.map amount).sum + amount new := by
  have bound := (List.getElem?_eq_some_iff.mp found).1
  rw [((List.set_perm_cons_eraseIdx bound new).map amount).sum_eq, sum_map_eraseIdx amount found,
    List.map_cons, List.sum_cons]
  omega

/-- A slot of a row with one slot set is that one, or was there before. -/
theorem of_getElem?_set {slots : List Slot} {index other : Nat} {new slot : Slot}
    (found : (slots.set index new)[other]? = some slot) :
    index = other ∧ slot = new ∨ index ≠ other ∧ slots[other]? = some slot := by
  by_cases same : index = other
  · rw [same, getElem?_set_self'] at found
    obtain ⟨_, _, isNew⟩ := Option.map_eq_some_iff.mp found
    exact .inl ⟨same, isNew.symm⟩
  · exact .inr ⟨same, (getElem?_set_ne same).symm.trans found⟩

/-- The row after the slot at an index was replaced by what is left of it, or taken out. -/
def replace (slots : List Slot) (index : Nat) : Option Slot → List Slot
  | some new => slots.set index new
  | none => slots.eraseIdx index

theorem mem_of_mem_replace {slots : List Slot} {index : Nat} {left : Option Slot} {slot : Slot}
    (listed : slot ∈ replace slots index left) : slot ∈ slots ∨ left = some slot := by
  cases left with
  | none => exact .inl (mem_of_mem_eraseIdx listed)
  | some new => exact (mem_or_eq_of_mem_set listed).imp_right fun same => by rw [same]

theorem mem_replace_of_ne {slots : List Slot} {index : Nat} {old slot : Slot}
    (found : slots[index]? = some old) (listed : slot ∈ slots) (other : slot ≠ old)
    (left : Option Slot) : slot ∈ replace slots index left := by
  obtain ⟨place, isSlot⟩ := mem_iff_getElem?.mp listed
  have apart : place ≠ index := by
    rintro rfl
    exact other (Option.some.inj (isSlot.symm.trans found))
  cases left with
  | none => exact mem_eraseIdx_iff_getElem?.mpr ⟨place, apart, isSlot⟩
  | some new =>
    refine mem_iff_getElem?.mpr ⟨place, ?_⟩
    rw [replace, getElem?_set_ne apart.symm, isSlot]

theorem mem_replace_self {slots : List Slot} {index : Nat} {old new : Slot}
    (found : slots[index]? = some old) : new ∈ replace slots index (some new) :=
  List.mem_set (List.getElem?_eq_some_iff.mp found).1 new

/-- An entry of an extended list is an old entry or the new one at the old length. -/
theorem getElem?_concat_eq_some {slots : List Slot} {slot found : Slot} {index : Nat} :
    (slots ++ [slot])[index]? = some found ↔
      slots[index]? = some found ∨ index = slots.length ∧ slot = found := by
  rcases Nat.lt_trichotomy index slots.length with before | rfl | after
  · rw [getElem?_append_left before]
    exact ⟨.inl, fun entry => entry.resolve_right fun new => by omega⟩
  · simp
  · rw [getElem?_eq_none (by simp; omega), getElem?_eq_none (Nat.le_of_lt after)]
    simp [Nat.ne_of_gt after]

end Slots
