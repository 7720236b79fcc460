import Mathlib.Data.Nat.Bitwise
import Mathlib.Algebra.Group.Nat.Defs

/-!
# Strings of bits

Numbers of a fixed width, one behind the other, are a string of bits with the most significant bit
of each first (`bits`). A string is cut into numbers of another width by `cut`, which drops what is
left at the end. Regrouping goes number by number: a number written at the front is the first one
read (`cut_append`), and what counts for the string is only the number that the whole of a group
stands for (`toBits_add`).
-/

namespace CcodeTest.Lib

variable {w v n m : Nat} {l : List Bool}

/-- The `w` low bits of a number, the most significant one first. -/
def toBits : Nat → Nat → List Bool
  | 0, _ => []
  | w + 1, n => n.testBit w :: toBits w n

/-- The number that bits stand for. -/
def ofBits (l : List Bool) : Nat := l.foldl (fun n b => 2 * n + b.toNat) 0

/-- Numbers of width `w`, one behind the other. -/
def bits (w : Nat) (ns : List Nat) : List Bool := ns.flatMap (toBits w)

/-- The numbers of width `w` that a string consists of. -/
def cut (w : Nat) (l : List Bool) : List Nat :=
  (List.range (l.length / w)).map fun i => ofBits ((l.drop (i * w)).take w)

@[simp] lemma length_toBits (w n : Nat) : (toBits w n).length = w := by
  induction w with
  | zero => rfl
  | succ w ih => rw [toBits, List.length_cons, ih]

lemma length_bits (w : Nat) (ns : List Nat) : (bits w ns).length = w * ns.length := by
  induction ns with
  | nil => rfl
  | cons n ns ih =>
    rw [bits, List.flatMap_cons, List.length_append, length_toBits, List.length_cons]
    rw [bits] at ih
    rw [ih, Nat.mul_succ, Nat.add_comm]

lemma bits_cons (w n : Nat) (ns : List Nat) : bits w (n :: ns) = toBits w n ++ bits w ns :=
  List.flatMap_cons

/-- The bits of a number that is written behind another one. -/
lemma toBits_add (hm : m < 2 ^ v) : toBits (w + v) (n * 2 ^ v + m) = toBits w n ++ toBits v m := by
  have hbit : ∀ i, (n * 2 ^ v + m).testBit i = if i < v then m.testBit i else n.testBit (i - v) := by
    intro i
    rw [Nat.mul_comm, Nat.testBit_two_pow_mul_add n hm]
  induction w with
  | zero =>
    rw [Nat.zero_add]
    -- below `v` the bits are those of the second number
    have hlow : ∀ k ≤ v, toBits k (n * 2 ^ v + m) = toBits k m := by
      intro k
      induction k with
      | zero => exact fun _ => rfl
      | succ k ih =>
        intro hk
        rw [toBits, toBits, ih (by omega), hbit, if_pos (by omega)]
    exact hlow v (Nat.le_refl v)
  | succ w ih =>
    rw [Nat.add_right_comm, toBits, toBits, ih, hbit, if_neg (by omega), Nat.add_sub_cancel]
    rfl

/-- Reading back what was written. -/
lemma ofBits_toBits (h : n < 2 ^ w) : ofBits (toBits w n) = n := by
  induction w generalizing n with
  | zero =>
    rw [Nat.pow_zero] at h
    exact (Nat.lt_one_iff.1 h).symm
  | succ w ih =>
    have hhalf : n / 2 < 2 ^ w := by
      rw [Nat.pow_succ] at h
      omega
    have hlast : toBits 1 (n % 2) = [(n % 2).testBit 0] := rfl
    have hsplit := toBits_add (w := w) (n := n / 2) (show n % 2 < 2 ^ 1 by omega)
    rw [Nat.pow_one, Nat.div_add_mod'] at hsplit
    rw [hsplit, hlast, ofBits, List.foldl_append]
    change 2 * ofBits (toBits w (n / 2)) + _ = n
    rw [ih hhalf]
    rcases Nat.mod_two_eq_zero_or_one n with h2 | h2
    · rw [h2]
      change 2 * (n / 2) + 0 = n
      omega
    · rw [h2]
      change 2 * (n / 2) + 1 = n
      omega

/-- A number at the front is the first one read. -/
lemma cut_append (hw : 0 < w) (h : n < 2 ^ w) : cut w (toBits w n ++ l) = n :: cut w l := by
  have hlen : (toBits w n ++ l).length / w = l.length / w + 1 := by
    rw [List.length_append, length_toBits, Nat.add_comm, Nat.add_div_right _ hw]
  rw [cut, hlen, List.range_succ_eq_map, List.map_cons, List.map_map, cut]
  congr 1
  · rw [Nat.zero_mul, List.drop_zero, List.take_left' (length_toBits w n), ofBits_toBits h]
  · apply List.map_congr_left
    intro i _
    rw [Function.comp_apply, Nat.succ_mul, Nat.add_comm, ← List.drop_drop,
      List.drop_left' (length_toBits w n)]

/-- Less than a number is nothing. -/
lemma cut_of_lt (h : l.length < w) : cut w l = [] := by
  rw [cut, Nat.div_eq_of_lt h]
  rfl

end CcodeTest.Lib
