import Mathlib.Data.List.Basic
import Mathlib.Tactic.TypeStar

/-!
# Blocks of memory

An allocated block is the list of its cells. An access outside the block has no defined outcome,
which is `none`: a read is `b[i]?`, a write is `store b i v`. A function modelled over blocks
returns `some` exactly when all its accesses stay inside.

`overwrite b i s` is the block after the cells from `i` on have been written. What stands before
and behind them is kept.
-/

namespace CcodeTest.Lib

variable {α : Type*} {b b' : List α} {i : Nat} {v : α}

/-- Write a cell of a block. -/
def store (b : List α) (i : Nat) (v : α) : Option (List α) :=
  if i < b.length then some (b.set i v) else none

/-- A store inside the block. -/
lemma store_of_lt (h : i < b.length) : store b i v = some (b.set i v) := if_pos h

/-- A write that is defined changes the one cell. -/
lemma store_eq_some : store b i v = some b' ↔ i < b.length ∧ b' = b.set i v := by
  unfold store
  split
  · rename_i h
    simp only [Option.some.injEq, h, true_and, eq_comm]
  · rename_i h
    simp [h]

/-- A store at a place that is known. -/
lemma store_append (b : List α) (x : α) (b' : List α) (v : α) :
    store (b ++ x :: b') b.length v = some (b ++ v :: b') := by
  rw [store_of_lt (by simp)]
  simp

/-- The block with `s` from cell `i` on. -/
def overwrite (b : List α) (i : Nat) (s : List α) : List α := b.take i ++ s ++ b.drop (i + s.length)

section Overwrite

variable {s : List α} {n : Nat}

/-- Writing inside the block keeps its length. -/
lemma length_overwrite (h : i + s.length ≤ b.length) : (overwrite b i s).length = b.length := by
  rw [overwrite, List.length_append, List.length_append, List.length_take, List.length_drop]
  omega

/-- Writing behind a part that is known. -/
lemma overwrite_append (u v s : List α) :
    overwrite (u ++ v) u.length s = u ++ s ++ v.drop s.length := by
  rw [overwrite, List.take_left, ← List.drop_drop, List.drop_left]

/-- What stands before the place written to is untouched. -/
lemma take_overwrite (hb : i ≤ b.length) (hn : n ≤ i) : (overwrite b i s).take n = b.take n := by
  have hlen : n ≤ (b.take i).length := by
    rw [List.length_take]
    omega
  rw [overwrite, List.append_assoc, List.take_append_of_le_length hlen, List.take_take,
    Nat.min_eq_left hn]

/-- Inside, what is left of `s` is followed by the rest of the block. -/
lemma drop_overwrite (hb : i ≤ b.length) (hn : i ≤ n) (hn' : n ≤ i + s.length) :
    (overwrite b i s).drop n = s.drop (n - i) ++ b.drop (i + s.length) := by
  have hlen : (b.take i).length = i := by
    rw [List.length_take]
    omega
  rw [overwrite, List.append_assoc, List.drop_append, List.drop_of_length_le (by omega), hlen,
    List.nil_append, List.drop_append_of_le_length (by omega)]

/-- So is what stands behind it. -/
lemma drop_overwrite_behind (hb : i ≤ b.length) (hn : i + s.length ≤ n) :
    (overwrite b i s).drop n = b.drop n := by
  have hend := @drop_overwrite _ b i s (i + s.length) hb (Nat.le_add_right ..) (Nat.le_refl _)
  rw [Nat.add_sub_cancel_left, List.drop_length, List.nil_append] at hend
  obtain ⟨k, rfl⟩ := Nat.exists_eq_add_of_le hn
  rw [← List.drop_drop, hend, List.drop_drop]

end Overwrite

end CcodeTest.Lib
