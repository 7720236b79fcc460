import Mathlib.Data.List.ProdSigma
import CcodeTest.Lib.Store
import CcodeTest.Dcs.Types

/-!
# Symmetrisation of the adjacency matrix

`tMatrix2Symmetric` walks over all pairs of a matrix and copies the non-zero one of two different
mirror entries over the other. What it keeps is stated for any list of pairs: the pair of mirror
entries stays non-zero or zero as a whole, and once a pair has been visited its entries agree; equal
entries are left alone. `tMatrix2Symmetric_symmetrises` puts this together for a square.
-/

namespace CcodeTest.Dcs
open CcodeTest.Lib

/-- The body of the loop at one pair; the flag records a change. -/
def symPair (st : (Nat → Nat → Nat) × Bool) (ij : Nat × Nat) : (Nat → Nat → Nat) × Bool :=
  let p := st.1
  if p ij.1 ij.2 ≠ p ij.2 ij.1 then
    if p ij.1 ij.2 > 0 then (setCell p ij.2 ij.1 (p ij.1 ij.2), true)
    else (setCell p ij.1 ij.2 (p ij.2 ij.1), true)
  else st

/-- `tMatrix2Symmetric` on a matrix that is not NULL; the flag is the value returned. -/
def tMatrix2Symmetric (p : Nat → Nat → Nat) (row col : Nat) : (Nat → Nat → Nat) × Bool :=
  ((List.range row).product (List.range col)).foldl symPair (p, false)

section Pair

variable {st : (Nat → Nat → Nat) × Bool} {ij : Nat × Nat} {a b : Nat}

/-- Equal entries leave the state as it is, different ones set the flag. -/
lemma symPair_of_eq (h : st.1 ij.1 ij.2 = st.1 ij.2 ij.1) : symPair st ij = st :=
  if_neg (not_not_intro h)

/-- What a pass can do: nothing at equal entries, and at different ones it copies the first if it is
not zero and the second otherwise. -/
lemma symPair_cases (st : (Nat → Nat → Nat) × Bool) (ij : Nat × Nat) :
    (st.1 ij.1 ij.2 = st.1 ij.2 ij.1 ∧ symPair st ij = st) ∨
    (st.1 ij.1 ij.2 ≠ st.1 ij.2 ij.1 ∧ 0 < st.1 ij.1 ij.2 ∧
      symPair st ij = (setCell st.1 ij.2 ij.1 (st.1 ij.1 ij.2), true)) ∨
    (st.1 ij.1 ij.2 ≠ st.1 ij.2 ij.1 ∧ st.1 ij.1 ij.2 = 0 ∧
      symPair st ij = (setCell st.1 ij.1 ij.2 (st.1 ij.2 ij.1), true)) := by
  by_cases h : st.1 ij.1 ij.2 = st.1 ij.2 ij.1
  · exact .inl ⟨h, symPair_of_eq h⟩
  · right
    rw [symPair, if_pos h]
    rcases Nat.eq_zero_or_pos (st.1 ij.1 ij.2) with hz | hz
    · exact .inr ⟨h, hz, if_neg (Nat.not_lt_of_le (Nat.le_of_eq hz))⟩
    · exact .inl ⟨h, hz, if_pos hz⟩

/-- One pair: the entries of every mirror pair stay non-zero or zero together. -/
lemma symPair_nonzero (st : (Nat → Nat → Nat) × Bool) (ij : Nat × Nat) (a b : Nat) :
    ((symPair st ij).1 a b ≠ 0 ∨ (symPair st ij).1 b a ≠ 0) ↔ (st.1 a b ≠ 0 ∨ st.1 b a ≠ 0) := by
  rcases symPair_cases st ij with ⟨-, h⟩ | ⟨hne, hz, h⟩ | ⟨hne, hz, h⟩
  · rw [h]
  · rw [h]
    simp only [setCell]
    grind
  · rw [h]
    simp only [setCell]
    grind

/-- One pair: equal mirror entries stay equal, and those of the pair become equal. -/
lemma symPair_eq (h : ij = (a, b) ∨ st.1 a b = st.1 b a) :
    (symPair st ij).1 a b = (symPair st ij).1 b a := by
  rcases symPair_cases st ij with ⟨heq, h'⟩ | ⟨hne, -, h'⟩ | ⟨hne, -, h'⟩
  · rw [h']
    rcases h with rfl | h
    · exact heq
    · exact h
  · rw [h']
    simp only [setCell]
    grind
  · rw [h']
    simp only [setCell]
    grind

/-- One pair: equal mirror entries are not touched. -/
lemma symPair_keeps (ij : Nat × Nat) (h : st.1 a b = st.1 b a) :
    (symPair st ij).1 a b = st.1 a b := by
  rcases symPair_cases st ij with ⟨-, h'⟩ | ⟨hne, -, h'⟩ | ⟨hne, -, h'⟩
  · rw [h']
  · rw [h']
    simp only [setCell]
    grind
  · rw [h']
    simp only [setCell]
    grind

lemma symPair_of_ne (h : st.1 ij.1 ij.2 ≠ st.1 ij.2 ij.1) : (symPair st ij).2 = true := by
  rcases symPair_cases st ij with ⟨heq, -⟩ | ⟨-, -, h'⟩ | ⟨-, -, h'⟩
  · exact absurd heq h
  · rw [h']
  · rw [h']

end Pair

lemma foldl_symPair_nonzero (l : List (Nat × Nat)) (st : (Nat → Nat → Nat) × Bool) (a b : Nat) :
    ((l.foldl symPair st).1 a b ≠ 0 ∨ (l.foldl symPair st).1 b a ≠ 0) ↔
      (st.1 a b ≠ 0 ∨ st.1 b a ≠ 0) := by
  induction l generalizing st with
  | nil => rfl
  | cons ij l ih => rw [List.foldl_cons, ih, symPair_nonzero]

lemma foldl_symPair_eq {l : List (Nat × Nat)} {st : (Nat → Nat → Nat) × Bool} {a b : Nat}
    (h : (a, b) ∈ l ∨ st.1 a b = st.1 b a) :
    (l.foldl symPair st).1 a b = (l.foldl symPair st).1 b a := by
  induction l generalizing st with
  | nil =>
    rcases h with h | h
    · cases h
    · exact h
  | cons ij l ih =>
    rw [List.foldl_cons]
    apply ih
    rcases h with h | h
    · rcases List.mem_cons.1 h with h | h
      · exact .inr (symPair_eq (.inl h.symm))
      · exact .inl h
    · exact .inr (symPair_eq (.inr h))

lemma foldl_symPair_keeps (l : List (Nat × Nat)) {st : (Nat → Nat → Nat) × Bool} {a b : Nat}
    (h : st.1 a b = st.1 b a) : (l.foldl symPair st).1 a b = st.1 a b := by
  induction l generalizing st with
  | nil => rfl
  | cons ij l ih => rw [List.foldl_cons, ih (symPair_eq (.inr h)), symPair_keeps ij h]

/-- A list of equal pairs changes nothing. -/
lemma foldl_symPair_of_eq {l : List (Nat × Nat)} {st : (Nat → Nat → Nat) × Bool}
    (h : ∀ ij ∈ l, st.1 ij.1 ij.2 = st.1 ij.2 ij.1) : l.foldl symPair st = st := by
  induction l with
  | nil => rfl
  | cons ij l ih =>
    rw [List.foldl_cons, symPair_of_eq (h ij (List.mem_cons_self ..))]
    exact ih fun kl hkl => h kl (List.mem_cons_of_mem _ hkl)

/-- The flag is set by the first pair of different entries and is not cleared again. -/
lemma foldl_symPair_flag (l : List (Nat × Nat)) (st : (Nat → Nat → Nat) × Bool) :
    (l.foldl symPair st).2 = true ↔ st.2 = true ∨ ∃ ij ∈ l, st.1 ij.1 ij.2 ≠ st.1 ij.2 ij.1 := by
  induction l generalizing st with
  | nil => simp
  | cons ij l ih =>
    rw [List.foldl_cons, ih]
    by_cases h : st.1 ij.1 ij.2 = st.1 ij.2 ij.1
    · rw [symPair_of_eq h]
      simp [h]
    · constructor
      · intro _
        exact .inr ⟨ij, List.mem_cons_self .., h⟩
      · intro _
        exact .inl (symPair_of_ne h)

/-- Inside the square, an entry ends up non-zero exactly when it or its mirror was. -/
lemma tMatrix2Symmetric_nonzero {p : Nat → Nat → Nat} {n a b : Nat} (ha : a < n) (hb : b < n) :
    (tMatrix2Symmetric p n n).1 a b ≠ 0 ↔ (p a b ≠ 0 ∨ p b a ≠ 0) := by
  have hmem : (a, b) ∈ (List.range n).product (List.range n) :=
    List.mem_product.2 ⟨List.mem_range.2 ha, List.mem_range.2 hb⟩
  have hsym := @foldl_symPair_eq _ (p, false) a b (.inl hmem)
  rw [← foldl_symPair_nonzero ((List.range n).product (List.range n)) (p, false) a b, ← hsym,
    or_self]
  rfl

lemma tMatrix2Symmetric_eq {p : Nat → Nat → Nat} {n a b : Nat} (ha : a < n) (hb : b < n) :
    (tMatrix2Symmetric p n n).1 a b = (tMatrix2Symmetric p n n).1 b a :=
  foldl_symPair_eq (.inl (List.mem_product.2 ⟨List.mem_range.2 ha, List.mem_range.2 hb⟩))

/-- The matrix becomes symmetric: an entry is not zero if it or its mirror entry was not, what was
equal to its mirror entry stays, the diagonal included, and the flag tells whether anything was not.
A second call finds nothing to do. -/
theorem tMatrix2Symmetric_symmetrises (p : Nat → Nat → Nat) (n : Nat) :
    (∀ a b, a < n → b < n →
      (tMatrix2Symmetric p n n).1 a b = (tMatrix2Symmetric p n n).1 b a) ∧
    (∀ a, a < n → (tMatrix2Symmetric p n n).1 a a = p a a) ∧
    (∀ a b, a < n → b < n →
      ((tMatrix2Symmetric p n n).1 a b ≠ 0 ↔ (p a b ≠ 0 ∨ p b a ≠ 0))) ∧
    (∀ a b, a < n → b < n → p a b = p b a → (tMatrix2Symmetric p n n).1 a b = p a b) ∧
    ((tMatrix2Symmetric p n n).2 = true ↔ ∃ a b, a < n ∧ b < n ∧ p a b ≠ p b a) ∧
    tMatrix2Symmetric (tMatrix2Symmetric p n n).1 n n = ((tMatrix2Symmetric p n n).1, false) := by
  refine ⟨?_, ?_, ?_, ?_, ?_, ?_⟩
  · intro a b ha hb
    exact tMatrix2Symmetric_eq ha hb
  · intro a _
    exact @foldl_symPair_keeps _ (p, false) a a rfl
  · intro a b ha hb
    exact tMatrix2Symmetric_nonzero ha hb
  · intro a b _ _ h
    exact @foldl_symPair_keeps _ (p, false) a b h
  · rw [tMatrix2Symmetric, foldl_symPair_flag]
    constructor
    · rintro (h | ⟨⟨a, b⟩, hmem, hne⟩)
      · cases h
      · obtain ⟨ha, hb⟩ := List.mem_product.1 hmem
        exact ⟨a, b, List.mem_range.1 ha, List.mem_range.1 hb, hne⟩
    · rintro ⟨a, b, ha, hb, hne⟩
      exact .inr ⟨(a, b), List.mem_product.2 ⟨List.mem_range.2 ha, List.mem_range.2 hb⟩, hne⟩
  · apply foldl_symPair_of_eq
    intro ab hab
    obtain ⟨ha, hb⟩ := List.mem_product.1 hab
    exact tMatrix2Symmetric_eq (List.mem_range.1 ha) (List.mem_range.1 hb)

end CcodeTest.Dcs
