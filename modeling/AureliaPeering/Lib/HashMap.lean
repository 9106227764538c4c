import Mathlib.Algebra.GroupWithZero.Nat
import Mathlib.Data.List.AList

/-!
Finite maps without an order, over Mathlib's association lists.

A traversal of such a map visits its values in an order the map does not fix.  `ValueOrder`
is the relation between a map and the lists a traversal may produce.
-/

namespace Collections

open List Option

universe u v

/-- A finite map from `Key` to `Value`. -/
abbrev HashMap (Key : Type u) (Value : Type v) : Type (max u v) := AList fun _ : Key => Value

namespace HashMap

variable {Key : Type u} {Value : Type v} [DecidableEq Key]

/-- The stored values, in the representation's own order. -/
def values (map : HashMap Key Value) : List Value := map.entries.map Sigma.snd

/-- The lists in which a traversal may produce the values of `map`. -/
def ValueOrder (map : HashMap Key Value) (order : List Value) : Prop := order.Perm map.values

theorem mem_values_iff (map : HashMap Key Value) (value : Value) :
    value ∈ map.values ↔ ∃ key, map.lookup key = some value := by
  unfold values
  simp only [List.mem_map, Sigma.exists, exists_eq_right]
  exact exists_congr fun key => AList.mem_lookup_iff.symm

theorem ValueOrder.mem_iff {map : HashMap Key Value} {order : List Value}
    (ordered : map.ValueOrder order) (value : Value) :
    value ∈ order ↔ ∃ key, map.lookup key = some value := by
  rw [List.Perm.mem_iff ordered, mem_values_iff]

theorem lookup_insert_eq (map : HashMap Key Value) (key other : Key) (value : Value) :
    (AList.insert key value map).lookup other =
      if other = key then some value else map.lookup other := by
  by_cases same : other = key
  · subst other
    simp
  · simp [same]

theorem lookup_erase_eq (map : HashMap Key Value) (key other : Key) :
    (AList.erase key map).lookup other = if other = key then none else map.lookup other := by
  by_cases same : other = key
  · subst other
    simp
  · simp [same]

def retain (map : HashMap Key Value) (keep : Key → Value → Bool) : HashMap Key Value :=
  ⟨map.entries.filter fun entry => keep entry.1 entry.2,
    map.nodupKeys.sublist List.filter_sublist⟩

theorem lookup_retain (map : HashMap Key Value) (keep : Key → Value → Bool) (key : Key) :
    (map.retain keep).lookup key = (map.lookup key).filter (keep key) := by
  refine ext fun value => ?_
  simp only [filter_eq_some_iff]
  rw [← mem_def, AList.mem_lookup_iff, ← mem_def, AList.mem_lookup_iff]
  exact mem_filter

def mapValues (map : HashMap Key Value) (change : Value → Value) : HashMap Key Value :=
  ⟨map.entries.map fun entry => ⟨entry.1, change entry.2⟩, by
    have keys : (map.entries.map fun entry =>
        (⟨entry.1, change entry.2⟩ : Sigma fun _ => Value)).keys =
        map.entries.keys := by
      simp [List.keys, Function.comp_def]
    rw [List.NodupKeys, keys]
    exact map.nodupKeys⟩

theorem lookup_mapValues (map : HashMap Key Value) (change : Value → Value) (key : Key) :
    (map.mapValues change).lookup key = (map.lookup key).map change := by
  refine ext fun value => ?_
  rw [← mem_def, AList.mem_lookup_iff, map_eq_some_iff]
  constructor
  · intro listed
    obtain ⟨⟨_, old⟩, stored, same⟩ := mem_map.mp listed
    cases same
    exact ⟨old, AList.mem_lookup_iff.mpr stored, rfl⟩
  · rintro ⟨old, stored, rfl⟩
    exact mem_map.mpr ⟨⟨key, old⟩, AList.mem_lookup_iff.mp stored, rfl⟩

def adjust (map : HashMap Key Value) (key : Key) (change : Value → Value) : HashMap Key Value :=
  match map.lookup key with
  | some value => map.insert key (change value)
  | none => map

theorem lookup_adjust (map : HashMap Key Value) (key other : Key) (change : Value → Value) :
    (map.adjust key change).lookup other =
      if other = key then (map.lookup other).map change else map.lookup other := by
  unfold adjust
  by_cases same : other = key
  · subst other
    cases found : map.lookup key with
    | none => simp [found]
    | some value => simp
  · cases found : map.lookup key with
    | none | some value => simp [same]

end HashMap

end Collections
