import Mathlib.Algebra.Group.Int.Defs
import Mathlib.Algebra.Group.Nat.Defs

/-!
# Fixed-width integers

The value an integer expression gets when it is stored in, or converted to, a C integer type: two's
complement for the signed types, modulo a power of two for the unsigned ones.
-/

namespace CcodeTest.Lib

/-- Stored in an `int` of 32 bits. -/
def int32 (x : Int) : Int := x.bmod 4294967296

/-- Converted to an unsigned type of 64 bits, such as `size_t`. -/
def uint64 (x : Int) : Int := x % 18446744073709551616

variable {x : Int}

/-- A number of 32 bits stays as it is. -/
lemma int32_of_range (h : -2147483648 ≤ x) (h' : x < 2147483648) : int32 x = x := by
  unfold int32
  rw [Int.bmod_def]
  omega

/-- A sum of lengths that fits. -/
lemma int32_add {n m : Nat} (h : n + m < 2147483648) : int32 ((n : Int) + m) = ((n + m : Nat) : Int) := by
  rw [int32_of_range (by omega) (by omega)]
  rfl

/-- What is cut to 32 bits is in range. -/
lemma int32_lt (x : Int) : int32 x < 2147483648 := by
  unfold int32
  rw [Int.bmod_def]
  omega

/-- A length that is stored in an `int` does not grow. -/
lemma int32_le_length {α : Type*} (l : List α) : int32 l.length ≤ l.length := by
  unfold int32
  rw [Int.bmod_def]
  omega

/-- A number of 64 bits stays as it is. -/
lemma uint64_of_range (h : 0 ≤ x) (h' : x < 18446744073709551616) : uint64 x = x :=
  Int.emod_eq_of_lt h h'

end CcodeTest.Lib
