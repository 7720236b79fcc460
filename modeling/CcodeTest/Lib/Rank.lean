import Mathlib.Algebra.Order.BigOperators.Group.Finset
import Mathlib.Data.Fintype.BigOperators

/-!
# Counting over processes

Each process is somewhere, and `r` counts something there: how far it is from its end, or what it
holds. When one process goes on, the sum changes by what changes for this one.
-/

namespace CcodeTest.Lib

variable {ι α : Type*} [Fintype ι] [DecidableEq ι]

/-- The sum of the ranks when one of them changes. -/
lemma sum_update (r : ι → α → Nat) (f : ι → α) (i : ι) (a : α) :
    ∑ j, r j (Function.update f i a j) + r i (f i) = ∑ j, r j (f j) + r i a := by
  have hupdate : (fun j => r j (Function.update f i a j)) =
      Function.update (fun j => r j (f j)) i (r i a) := by
    funext j
    exact Function.apply_update r f i a j
  rw [hupdate, Finset.sum_update_of_mem (Finset.mem_univ i),
    Finset.sum_eq_add_sum_sdiff_singleton_of_mem (Finset.mem_univ i) fun j => r j (f j)]
  omega

omit [DecidableEq ι] in
/-- Every rank is at most the sum. -/
lemma le_sum (r : α → Nat) (f : ι → α) (i : ι) : r (f i) ≤ ∑ j, r (f j) :=
  Finset.single_le_sum (f := fun j => r (f j)) (fun _ _ => Nat.zero_le _) (Finset.mem_univ i)

omit [DecidableEq ι] in
/-- The sum is zero only if every process has nothing to count. -/
lemma exists_of_sum_ne_zero (r : α → Nat) (f : ι → α) (h : ∑ j, r (f j) ≠ 0) : ∃ i, r (f i) ≠ 0 := by
  obtain ⟨i, -, hi⟩ := Finset.exists_ne_zero_of_sum_ne_zero h
  exact ⟨i, hi⟩

end CcodeTest.Lib
