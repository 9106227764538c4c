import Mathlib.Data.List.Infix
import Mathlib.Data.List.Flatten

/-!
Byte streams made of records, written one after the other.

A write puts a prefix of its record on the stream.  It is torn if some of the record but not all
of it got through.  A stream whose writes are all sound, except perhaps the last, is a sequence of
records with at most one truncated record at its end.
-/

namespace Framing

open List

universe u

variable {α : Type u}

/-- A record and the number of its symbols that reached the stream. -/
structure Write (α : Type u) where
  record : List α
  count : Nat

namespace Write

def put (write : Write α) : List α := write.record.take write.count

/-- A part of the record reached the stream, but not all of it. -/
def Torn (write : Write α) : Prop := 0 < write.count ∧ write.count < write.record.length

instance (write : Write α) : Decidable write.Torn :=
  inferInstanceAs (Decidable (_ ∧ _))

theorem put_of_not_torn {write : Write α} (sound : ¬ write.Torn) :
    write.put = [] ∨ write.put = write.record := by
  rcases Nat.eq_zero_or_pos write.count with none_put | some_put
  · exact .inl (by rw [put, none_put, take_zero])
  · refine .inr (take_of_length_le ?_)
    exact Nat.le_of_not_lt fun short => sound ⟨some_put, short⟩

end Write

/-- Everything that reached the stream. -/
def stream (writes : List (Write α)) : List α := writes.flatMap Write.put

/-- Records one after the other, and a strict prefix of one more. -/
def Framed (IsRecord : List α → Prop) (symbols : List α) : Prop :=
  ∃ records remainder, symbols = List.flatten records ++ remainder ∧
    (∀ record ∈ records, IsRecord record) ∧
    (remainder = [] ∨ ∃ record, IsRecord record ∧ remainder <+: record ∧ remainder ≠ record)

variable {IsRecord : List α → Prop}

/-- Sound writes leave whole records behind. -/
theorem stream_of_sound {writes : List (Write α)} (valid : ∀ write ∈ writes, IsRecord write.record)
    (sound : ∀ write ∈ writes, ¬ write.Torn) :
    ∃ records, stream writes = flatten records ∧ ∀ record ∈ records, IsRecord record := by
  induction writes with
  | nil => exact ⟨[], rfl, by simp⟩
  | cons first rest ih =>
    obtain ⟨records, same, whole⟩ := ih
      (fun write listed => valid write (mem_cons_of_mem _ listed))
      (fun write listed => sound write (mem_cons_of_mem _ listed))
    rcases Write.put_of_not_torn (sound first mem_cons_self) with none_put | all_put
    · exact ⟨records, by rw [stream, flatMap_cons, none_put, nil_append, ← same, stream],
        whole⟩
    · refine ⟨first.record :: records, ?_, ?_⟩
      · rw [stream, flatMap_cons, all_put, flatten_cons, ← same, stream]
      · intro record listed
        rcases mem_cons.mp listed with rfl | later
        · exact valid first mem_cons_self
        · exact whole record later

/-- Only the last write may be torn. -/
theorem framed_stream {writes : List (Write α)} (valid : ∀ write ∈ writes, IsRecord write.record)
    (sound : ∀ write ∈ writes.dropLast, ¬ write.Torn) : Framed IsRecord (stream writes) := by
  rcases writes.eq_nil_or_concat with rfl | ⟨earlier, last, rfl⟩
  · exact ⟨[], [], rfl, by simp, .inl rfl⟩
  rw [concat_eq_append] at valid sound ⊢
  rw [dropLast_concat] at sound
  obtain ⟨records, same, whole⟩ :=
    stream_of_sound (fun write listed => valid write (mem_append_left _ listed)) sound
  have split : stream (earlier ++ [last]) = flatten records ++ last.put := by
    rw [← same, stream, stream, flatMap_append, flatMap_singleton]
  have last_valid : IsRecord last.record := valid last (by simp)
  by_cases torn : last.Torn
  · refine ⟨records, last.put, split, whole, .inr ⟨last.record, last_valid, ?_, ?_⟩⟩
    · exact take_prefix ..
    · intro all_put
      have lengths := congrArg length all_put
      rw [Write.put, length_take, Nat.min_eq_left torn.2.le] at lengths
      exact absurd torn.2 (Nat.not_lt.mpr lengths.ge)
  · rcases Write.put_of_not_torn torn with none_put | all_put
    · exact ⟨records, [], by rw [split, none_put], whole, .inl rfl⟩
    · refine ⟨records ++ [last.record], [], ?_, ?_, .inl rfl⟩
      · rw [split, all_put, append_nil, flatten_append, flatten_singleton]
      · intro record listed
        rcases mem_append.mp listed with old | here
        · exact whole record old
        · exact mem_singleton.mp here ▸ last_valid

end Framing
