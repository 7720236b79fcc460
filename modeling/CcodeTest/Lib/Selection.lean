import Mathlib.Order.Lattice
import CcodeTest.Lib.Store

/-!
# Selection sort

The selection sort of C programs, in place on an array of records that are compared by a key. Pass
`i` looks for the first smallest key among the cells from `i` on and exchanges that cell with cell
`i`. The sort permutes the cells (`selectSort_perm`) and orders them by key
(`selectSort_sorted`).
-/

namespace CcodeTest.Lib

variable {α κ : Type*} [LinearOrder κ]

/-- The inner loop: the first position with the smallest key among `i` and the positions `js`. -/
def minIndex (key : α → κ) (f : Nat → α) (js : List Nat) (i : Nat) : Nat :=
  js.foldl (fun m j => if key (f j) < key (f m) then j else m) i

/-- One pass of the outer loop. -/
def selectPass (key : α → κ) (cnt : Nat) (f : Nat → α) (i : Nat) : Nat → α :=
  let m := minIndex key f (List.range' (i + 1) (cnt - (i + 1))) i
  if m ≠ i then swapAt f m i else f

/-- The sort of the first `cnt` cells. -/
def selectSort (key : α → κ) (f : Nat → α) (cnt : Nat) : Nat → α :=
  (List.range (cnt - 1)).foldl (selectPass key cnt) f

variable (key : α → κ) (f : Nat → α) {cnt i : Nat}

/-- One more candidate. -/
lemma minIndex_cons (j : Nat) (js : List Nat) (i : Nat) :
    minIndex key f (j :: js) i = minIndex key f js (if key (f j) < key (f i) then j else i) := rfl

/-- The index found is one of the candidates. -/
lemma minIndex_mem (js : List Nat) (i : Nat) : minIndex key f js i ∈ i :: js := by
  induction js generalizing i with
  | nil => exact List.mem_cons_self ..
  | cons j js ih =>
    rw [minIndex_cons]
    rcases List.mem_cons.1 (ih (if key (f j) < key (f i) then j else i)) with h | h
    · rw [h]
      split
      · exact List.mem_cons_of_mem _ (List.mem_cons_self ..)
      · exact List.mem_cons_self ..
    · exact List.mem_cons_of_mem _ (List.mem_cons_of_mem _ h)

/-- No candidate has a smaller key. -/
lemma minIndex_le (js : List Nat) (i : Nat) :
    ∀ k ∈ i :: js, key (f (minIndex key f js i)) ≤ key (f k) := by
  induction js generalizing i with
  | nil =>
    intro k hk
    cases hk with
    | head => exact le_refl _
    | tail _ hk => cases hk
  | cons j js ih =>
    intro k hk
    have hmin := ih (if key (f j) < key (f i) then j else i)
    rw [minIndex_cons]
    rcases lt_or_ge (key (f j)) (key (f i)) with hlt | hge
    · rw [if_pos hlt] at hmin ⊢
      cases hk with
      | head => exact le_trans (hmin j (List.mem_cons_self ..)) (le_of_lt hlt)
      | tail _ hk => exact hmin k hk
    · rw [if_neg (not_lt.2 hge)] at hmin ⊢
      have hi := hmin i (List.mem_cons_self ..)
      cases hk with
      | head => exact hi
      | tail _ hk =>
        cases hk with
        | head => exact le_trans hi hge
        | tail _ hk => exact hmin k (List.mem_cons_of_mem _ hk)

/-- A swap of a place with itself changes nothing. -/
lemma swapAt_self (i : Nat) : swapAt f i i = f := by
  rw [swapAt_eq_comp, Equiv.swap_self]
  rfl

/-- A pass exchanges cell `i` with a smallest one of those from `i` on. -/
lemma selectPass_spec (hi : i < cnt) :
    ∃ m, i ≤ m ∧ m < cnt ∧ (∀ k, i ≤ k → k < cnt → key (f m) ≤ key (f k)) ∧
      selectPass key cnt f i = swapAt f m i := by
  have hmem : ∀ k, k ∈ i :: List.range' (i + 1) (cnt - (i + 1)) ↔ i ≤ k ∧ k < cnt := by
    intro k
    rw [List.mem_cons, List.mem_range'_1]
    omega
  have hm := (hmem _).1 (minIndex_mem key f (List.range' (i + 1) (cnt - (i + 1))) i)
  refine ⟨_, hm.1, hm.2, fun k h0 h1 => minIndex_le key f _ i k ((hmem k).2 ⟨h0, h1⟩), ?_⟩
  rw [selectPass]
  split
  · rfl
  · rename_i heq
    rw [not_not.1 heq, swapAt_self]

/-- The first `i` cells are in their final order. -/
def Selected (cnt i : Nat) (f : Nat → α) : Prop :=
  ∀ a b, a < i → a ≤ b → b < cnt → key (f a) ≤ key (f b)

/-- A pass puts the next smallest element in its place. -/
lemma selected_pass (hi : i < cnt) (h : Selected key cnt i f) :
    Selected key cnt (i + 1) (selectPass key cnt f i) := by
  obtain ⟨m, him, hm, hmin, heq⟩ := selectPass_spec key f hi
  rw [heq, swapAt_eq_comp]
  -- the exchange keeps the two parts of the array
  have hkeep : ∀ k, k < i → Equiv.swap m i k = k := fun k hk =>
    Equiv.swap_apply_of_ne_of_ne (by omega) (by omega)
  have hrest : ∀ k, i ≤ k → k < cnt → i ≤ Equiv.swap m i k ∧ Equiv.swap m i k < cnt := by
    intro k h0 h1
    rw [Equiv.swap_apply_def]
    split
    · exact ⟨Nat.le_refl i, hi⟩
    · split
      · exact ⟨him, hm⟩
      · exact ⟨h0, h1⟩
  intro a b ha hab hb
  simp only [Function.comp_apply]
  rcases Nat.lt_or_ge a i with hai | hai
  · rw [hkeep a hai]
    rcases Nat.lt_or_ge b i with hbi | hbi
    · rw [hkeep b hbi]
      exact h a b hai hab hb
    · obtain ⟨h0, h1⟩ := hrest b hbi hb
      exact h a _ hai (by omega) h1
  · have hai' : a = i := by omega
    subst hai'
    obtain ⟨h0, h1⟩ := hrest b hab hb
    rw [Equiv.swap_apply_right]
    exact hmin _ h0 h1

/-- A pass keeps the elements. -/
lemma selectPass_perm (hi : i < cnt) :
    (slice (selectPass key cnt f i) 0 cnt).Perm (slice f 0 cnt) := by
  obtain ⟨m, -, hm, -, heq⟩ := selectPass_spec key f hi
  rw [heq]
  exact slice_swapAt_perm f ⟨Nat.zero_le m, by omega⟩ ⟨Nat.zero_le i, by omega⟩

/-- The first `n` passes. -/
lemma selectPasses_spec {n : Nat} (hn : n ≤ cnt) :
    Selected key cnt n ((List.range n).foldl (selectPass key cnt) f) ∧
      (slice ((List.range n).foldl (selectPass key cnt) f) 0 cnt).Perm (slice f 0 cnt) := by
  induction n with
  | zero => exact ⟨fun a b ha => absurd ha (Nat.not_lt_zero a), .refl _⟩
  | succ n ih =>
    obtain ⟨hsel, hperm⟩ := ih (by omega)
    rw [List.range_succ, List.foldl_append]
    exact ⟨selected_pass key _ (by omega) hsel, (selectPass_perm key _ (by omega)).trans hperm⟩

/-- So does the sort. -/
lemma selectSort_perm (cnt : Nat) : (slice (selectSort key f cnt) 0 cnt).Perm (slice f 0 cnt) :=
  (selectPasses_spec key f (Nat.sub_le cnt 1)).2

/-- After the sort the keys ascend. -/
lemma selectSort_sorted (cnt : Nat) {a b : Nat} (hab : a ≤ b) (hb : b < cnt) :
    key (selectSort key f cnt a) ≤ key (selectSort key f cnt b) := by
  rcases Nat.lt_or_ge a (cnt - 1) with ha | ha
  · exact (selectPasses_spec key f (Nat.sub_le cnt 1)).1 a b ha hab hb
  · have heq : a = b := by omega
    rw [heq]

/-- No cell of an ordered array is exchanged. -/
lemma minIndex_eq_self {js : List Nat} (h : ∀ j ∈ js, key (f i) ≤ key (f j)) :
    minIndex key f js i = i := by
  induction js with
  | nil => rfl
  | cons j js ih =>
    rw [minIndex_cons, if_neg (not_lt.2 (h j (List.mem_cons_self ..)))]
    exact ih fun k hk => h k (List.mem_cons_of_mem _ hk)

/-- What is sorted already stays as it is. -/
lemma selectSort_of_sorted (h : ∀ a b, a ≤ b → b < cnt → key (f a) ≤ key (f b)) :
    selectSort key f cnt = f := by
  have hpass : ∀ i < cnt, selectPass key cnt f i = f := by
    intro i hi
    have hmin : minIndex key f (List.range' (i + 1) (cnt - (i + 1))) i = i := by
      refine minIndex_eq_self key f fun j hj => ?_
      rw [List.mem_range'_1] at hj
      exact h i j (by omega) (by omega)
    exact if_neg (not_not.2 hmin)
  have hpasses : ∀ n ≤ cnt, (List.range n).foldl (selectPass key cnt) f = f := by
    intro n
    induction n with
    | zero => exact fun _ => rfl
    | succ n ih =>
      intro hn
      rw [List.range_succ, List.foldl_append, ih (by omega)]
      exact hpass n (by omega)
  exact hpasses (cnt - 1) (Nat.sub_le cnt 1)

section Rank

variable {g : Nat → α} {lo n k a b : Nat}

/-- One more element at the end of a slice. -/
lemma slice_succ (lo n : Nat) : slice g lo (n + 1) = slice g lo n ++ [g (lo + n)] := by
  rw [slice, slice, List.range'_1_concat, List.map_append]
  rfl

/-- When the cells that pass a test come first, as many cells pass as there are such positions. -/
lemma lt_countP_slice {P : α → Bool}
    (hdown : ∀ a b, a ≤ b → b < n → P (g (lo + b)) = true → P (g (lo + a)) = true) (hk : k < n) :
    k < (slice g lo n).countP P ↔ P (g (lo + k)) = true := by
  induction n with
  | zero => omega
  | succ n ih =>
    have hdown' : ∀ a b, a ≤ b → b < n → P (g (lo + b)) = true → P (g (lo + a)) = true :=
      fun a b hab hb => hdown a b hab (by omega)
    have hle : (slice g lo n).countP P ≤ n :=
      Nat.le_trans List.countP_le_length (Nat.le_of_eq (length_slice g lo n))
    rw [slice_succ, List.countP_append, List.countP_singleton]
    by_cases hn : P (g (lo + n)) = true
    · have hall : (slice g lo n).countP P = n := by
        rw [List.countP_eq_length.2, length_slice]
        intro y hy
        obtain ⟨j, hj, rfl⟩ := mem_slice.1 hy
        have hpos := hdown (j - lo) n (by omega) (Nat.lt_succ_self n) hn
        rwa [show lo + (j - lo) = j by omega] at hpos
      rw [hall, if_pos hn]
      exact ⟨fun _ => hdown k n (by omega) (Nat.lt_succ_self n) hn, fun _ => hk⟩
    · rw [if_neg hn, Nat.add_zero]
      rcases Nat.lt_succ_iff_lt_or_eq.1 hk with hlt | rfl
      · exact ih hdown' hlt
      · exact ⟨fun h => absurd h (by omega), fun h => absurd h hn⟩

/-- Two places of an ascending order differ exactly when no value takes both: the places it takes
are those behind the smaller values up to the number of values that are at most as large. -/
lemma ascending_lt_iff [DecidableLT κ] [DecidableLE κ] {f g : Nat → κ}
    (hasc : ∀ a b, a ≤ b → b < n → g (lo + a) ≤ g (lo + b))
    (hperm : (slice g lo n).Perm (slice f lo n)) (hab : a ≤ b) (hb : b < n) :
    g (lo + a) < g (lo + b) ↔
      ¬ ∃ x, (slice f lo n).countP (fun y => decide (y < x)) ≤ a ∧
        b < (slice f lo n).countP (fun y => decide (y ≤ x)) := by
  have hlow : ∀ x, (slice f lo n).countP (fun y => decide (y < x)) ≤ a ↔ x ≤ g (lo + a) := by
    intro x
    rw [← hperm.countP_eq, ← Nat.not_lt, lt_countP_slice _ (by omega), decide_eq_true_eq, not_lt]
    intro c d hcd hd h
    simp only [decide_eq_true_eq] at h ⊢
    exact lt_of_le_of_lt (hasc c d hcd hd) h
  have hhigh : ∀ x, b < (slice f lo n).countP (fun y => decide (y ≤ x)) ↔ g (lo + b) ≤ x := by
    intro x
    rw [← hperm.countP_eq, lt_countP_slice _ hb, decide_eq_true_eq]
    intro c d hcd hd h
    simp only [decide_eq_true_eq] at h ⊢
    exact le_trans (hasc c d hcd hd) h
  simp only [hlow, hhigh]
  constructor
  · rintro hlt ⟨x, h1, h2⟩
    exact absurd (le_trans h2 h1) (not_le.2 hlt)
  · intro h
    by_contra hge
    exact h ⟨g (lo + a), le_refl _, not_lt.1 hge⟩

end Rank

end CcodeTest.Lib
