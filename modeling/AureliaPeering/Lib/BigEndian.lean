import Mathlib.Algebra.GroupWithZero.Nat
import Mathlib.Data.List.Basic

/-!
Natural numbers as big-endian byte strings of a fixed width.
-/

namespace BigEndian

/-- The last `width` base-256 digits of a number, the most significant one first. -/
def bytes : Nat → Nat → List UInt8
  | 0, _ => []
  | width + 1, value => UInt8.ofNat (value / 256 ^ width) :: bytes width value

@[simp]
theorem length_bytes (width value : Nat) : (bytes width value).length = width := by
  induction width with
  | zero => rfl
  | succ width ih => simp [bytes, ih]

/-- The number that a byte string stands for. -/
def value (digits : List UInt8) : Nat :=
  digits.foldl (fun total digit => total * 256 + digit.toNat) 0

theorem foldl_bytes (width number total : Nat) :
    (bytes width number).foldl (fun total digit => total * 256 + digit.toNat) total =
      total * 256 ^ width + number % 256 ^ width := by
  induction width generalizing total with
  | zero => simp [bytes, Nat.mod_one]
  | succ width ih =>
    have digit : (UInt8.ofNat (number / 256 ^ width)).toNat = number / 256 ^ width % 256 :=
      UInt8.toNat_ofNat'
    rw [bytes, List.foldl_cons, ih, digit, Nat.add_mul, Nat.pow_succ,
      Nat.mod_mul, Nat.mul_assoc, Nat.mul_comm 256 (256 ^ width), Nat.add_assoc,
      Nat.mul_comm (256 ^ width) (number / 256 ^ width % 256),
      Nat.add_comm (number % 256 ^ width)]

/-- Encoding in a width that is large enough and reading back. -/
theorem value_bytes {width number : Nat} (fits : number < 256 ^ width) :
    value (bytes width number) = number := by
  rw [value, foldl_bytes, Nat.zero_mul, Nat.zero_add, Nat.mod_eq_of_lt fits]

end BigEndian
