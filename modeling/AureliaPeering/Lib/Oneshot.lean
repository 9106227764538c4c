import Mathlib.Data.List.Basic

/-!
Tables of one-shot channels as their receivers see them.

A value is sent at most once and received at most once.  A sender that is dropped without having
sent closes the channel, and so does the receipt of the value.  Every channel of a table has the
tag it was opened for.
-/

namespace Oneshot

universe u v

/-- The channel holds nothing yet, its value, nothing for good, or nothing any more. -/
inductive Channel (Value : Type u) where
  | empty
  | sent (value : Value)
  | closed
  | received
deriving DecidableEq, Repr

inductive TryRecv (Value : Type u) where
  | ok (value : Value)
  | empty
  | closed
deriving DecidableEq, Repr

/-- How far a channel has come, whatever its value. -/
inductive Phase where
  | empty
  | decided
  | received
deriving DecidableEq, Repr

namespace Channel

variable {Value : Type u}

def tryRecv : Channel Value → TryRecv Value × Channel Value
  | .empty => (.empty, .empty)
  | .sent value => (.ok value, .received)
  | .closed => (.closed, .closed)
  | .received => (.closed, .received)

def send (channel : Channel Value) (value : Value) : Channel Value :=
  match channel with
  | .empty => .sent value
  | .sent earlier => .sent earlier
  | .closed => .closed
  | .received => .received

def close : Channel Value → Channel Value
  | .empty => .closed
  | .sent value => .sent value
  | .closed => .closed
  | .received => .received

def phase : Channel Value → Phase
  | .empty => .empty
  | .sent _ | .closed => .decided
  | .received => .received

end Channel

variable {Tag : Type u} {Value : Type v}

/-- The phase of a channel of a table, with its tag. -/
def phaseAt (table : List (Tag × Channel Value)) (index : Nat) : Option (Tag × Phase) :=
  (table[index]?).map fun entry => (entry.1, entry.2.phase)

/-- What the sending side can make of a channel: it decides an empty one and no other. -/
def Grows (before after : Option (Tag × Phase)) : Prop :=
  before = none ∨ after = before ∨ ∃ tag, before = some (tag, .empty) ∧ after = some (tag, .decided)

namespace Grows

variable {first second third before after : Option (Tag × Phase)} {tag : Tag}

theorem refl (state : Option (Tag × Phase)) : Grows state state := .inr (.inl rfl)

theorem trans (grows : Grows first second) (growsOn : Grows second third) : Grows first third := by
  rcases grows with absent | rfl | ⟨tag, rfl, rfl⟩
  · exact .inl absent
  · exact growsOn
  · rcases growsOn with absent | same | ⟨_, empty, _⟩
    · cases absent
    · exact .inr (.inr ⟨tag, rfl, same⟩)
    · cases empty

/-- A decided channel stays as it is until it is received from. -/
theorem decided (grows : Grows before after) (isDecided : before = some (tag, .decided)) :
    after = some (tag, .decided) := by
  rcases grows with absent | rfl | ⟨_, empty, _⟩
  · cases absent.symm.trans isDecided
  · exact isDecided
  · cases empty.symm.trans isDecided

/-- The sending side receives nothing. -/
theorem unread (grows : Grows before after) {phase : Phase} (known : before = some (tag, phase))
    (notYet : phase ≠ .received) : ∃ later, after = some (tag, later) ∧ later ≠ .received := by
  rcases grows with absent | rfl | ⟨_, empty, rfl⟩
  · cases absent.symm.trans known
  · exact ⟨phase, known, notYet⟩
  · cases empty.symm.trans known
    exact ⟨.decided, rfl, by decide⟩

theorem send (tag : Tag) (channel : Channel Value) (value : Value) :
    Grows (some (tag, channel.phase)) (some (tag, (channel.send value).phase)) := by
  cases channel with
  | empty => exact .inr (.inr ⟨tag, rfl, rfl⟩)
  | sent | closed | received => exact .refl _

theorem close (tag : Tag) (channel : Channel Value) :
    Grows (some (tag, channel.phase)) (some (tag, channel.close.phase)) := by
  cases channel with
  | empty => exact .inr (.inr ⟨tag, rfl, rfl⟩)
  | sent | closed | received => exact .refl _

theorem mapIdx {change : Nat → Tag × Channel Value → Tag × Channel Value}
    (table : List (Tag × Channel Value))
    (each : ∀ index entry, Grows (some (entry.1, entry.2.phase))
      (some ((change index entry).1, (change index entry).2.phase))) (index : Nat) :
    Grows (phaseAt table index) (phaseAt (table.mapIdx change) index) := by
  rw [phaseAt, phaseAt, List.getElem?_mapIdx]
  cases table[index]? with
  | none => exact .inl rfl
  | some entry => exact each index entry

theorem append (table more : List (Tag × Channel Value)) (index : Nat) :
    Grows (phaseAt table index) (phaseAt (table ++ more) index) := by
  rcases Nat.lt_or_ge index table.length with inside | outside
  · rw [phaseAt, phaseAt, List.getElem?_append_left inside]
    exact .refl _
  · rw [phaseAt, List.getElem?_eq_none outside]
    exact .inl rfl

end Grows

section Receipt

variable {table : List (Tag × Channel Value)} {index : Nat} {tag : Tag} {channel : Channel Value}

theorem phaseAt_eq (found : table[index]? = some (tag, channel)) :
    phaseAt table index = some (tag, channel.phase) := by
  rw [phaseAt, found]
  rfl

theorem exists_of_phaseAt {phase : Phase} (known : phaseAt table index = some (tag, phase)) :
    ∃ channel, table[index]? = some (tag, channel) ∧ channel.phase = phase := by
  obtain ⟨⟨_, channel⟩, found, same⟩ := Option.map_eq_some_iff.mp known
  cases same
  exact ⟨channel, found, rfl⟩

/-- A receipt concerns one channel, -/
theorem phaseAt_receive_of_ne {other : Nat} (entry : Tag × Channel Value) (apart : other ≠ index) :
    phaseAt (table.set index entry) other = phaseAt table other := by
  rw [phaseAt, phaseAt, List.getElem?_set_ne (Ne.symm apart)]

/-- and leaves an empty one as it is. -/
theorem set_receive_of_empty (found : table[index]? = some (tag, channel))
    (empty : channel.phase = .empty) : table.set index (tag, channel.tryRecv.2) = table := by
  obtain ⟨bound, same⟩ := List.getElem?_eq_some_iff.mp found
  cases channel with
  | empty => exact same ▸ List.set_getElem_self bound
  | _ => cases empty

end Receipt

end Oneshot
