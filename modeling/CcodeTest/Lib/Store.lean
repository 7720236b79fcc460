import Mathlib.Data.List.Nodup
import Mathlib.Data.List.Perm.Basic
import Mathlib.Logic.Equiv.Basic

/-!
# C arrays as total maps

A C array is modelled by the map from its index to its content; how many cells are allocated is
recorded beside it where it matters. This file has what the array loops of a C program need: the
exchange of two cells (`swapAt`), the list of a range of cells (`slice`), and loops that copy the
elements of a list that pass a test into successive cells, upwards from a cell (`fillUp`) or
downwards to the first (`fillDown`).
-/

namespace CcodeTest.Lib

variable {α : Type*}

/-- Exchange the cells `i` and `j`. -/
def swapAt (f : Nat → α) (i j : Nat) : Nat → α :=
  Function.update (Function.update f j (f i)) i (f j)

/-- The `n` cells from `lo` on. -/
def slice (f : Nat → α) (lo n : Nat) : List α :=
  (List.range' lo n).map f

lemma length_slice (f : Nat → α) (lo n : Nat) : (slice f lo n).length = n := by simp [slice]

lemma mem_slice {f : Nat → α} {lo n : Nat} {x : α} :
    x ∈ slice f lo n ↔ ∃ k, (lo ≤ k ∧ k < lo + n) ∧ f k = x := by
  rw [slice, List.mem_map]
  simp only [List.mem_range'_1]

/-- A relation between the cells of a range in order. -/
lemma pairwise_slice {f : Nat → α} {lo n : Nat} {R : α → α → Prop}
    (h : ∀ a b, lo ≤ a → a < b → b < lo + n → R (f a) (f b)) : (slice f lo n).Pairwise R := by
  rw [slice, List.pairwise_map]
  have hlt : (List.range' lo n).Pairwise (· < ·) := List.pairwise_lt_range'
  refine hlt.imp_of_mem ?_
  intro a b ha hb hab
  rw [List.mem_range'_1] at ha hb
  exact h a b ha.1 hab hb.2

lemma rel_of_pairwise_slice {f : Nat → α} {n a b : Nat} {R : α → α → Prop}
    (h : (slice f 0 n).Pairwise R) (hab : a < b) (hb : b < n) : R (f a) (f b) := by
  rw [slice, List.pairwise_map, ← List.range_eq_range', List.pairwise_iff_getElem] at h
  have hrel := h a b (by rw [List.length_range]; omega) (by rw [List.length_range]; omega) hab
  rw [List.getElem_range, List.getElem_range] at hrel
  exact hrel

/-- Exchanging two cells composes the array with a transposition of its indices. -/
lemma swapAt_eq_comp (f : Nat → α) (i j : Nat) : swapAt f i j = f ∘ Equiv.swap i j := by
  funext k
  simp only [swapAt, Function.update_apply, Function.comp_apply, Equiv.swap_apply_def]
  split
  · rfl
  · split <;> rfl

/-- A transposition of two indices of a range permutes the range. -/
lemma map_swap_range_perm {i j lo n : Nat} (hi : lo ≤ i ∧ i < lo + n) (hj : lo ≤ j ∧ j < lo + n) :
    ((List.range' lo n).map (Equiv.swap i j)).Perm (List.range' lo n) := by
  have nd : ((List.range' lo n).map (Equiv.swap i j)).Nodup :=
    (List.nodup_range' (s := lo) (n := n)).map (Equiv.swap i j).injective
  refine (List.perm_ext_iff_of_nodup nd List.nodup_range').2 ?_
  intro k
  simp only [List.mem_map, List.mem_range'_1]
  constructor
  · rintro ⟨a, ha, rfl⟩
    rw [Equiv.swap_apply_def]
    split
    · exact hj
    · split
      · exact hi
      · exact ha
  · intro hk
    refine ⟨Equiv.swap i j k, ?_, Equiv.swap_apply_self i j k⟩
    rw [Equiv.swap_apply_def]
    split
    · exact hj
    · split
      · exact hi
      · exact hk

/-- Exchanging two cells of a range permutes the content of the range. -/
lemma slice_swapAt_perm (f : Nat → α) {i j lo n : Nat} (hi : lo ≤ i ∧ i < lo + n)
    (hj : lo ≤ j ∧ j < lo + n) : (slice (swapAt f i j) lo n).Perm (slice f lo n) := by
  have h := (map_swap_range_perm hi hj).map f
  rw [List.map_map] at h
  rw [swapAt_eq_comp]
  exact h

/-- Store a value in a cell of a matrix. -/
def setCell (m : Nat → Nat → α) (i j : Nat) (v : α) : Nat → Nat → α :=
  fun r c => if r = i ∧ c = j then v else m r c

lemma setCell_self (m : Nat → Nat → α) (i j : Nat) (v : α) : setCell m i j v i j = v :=
  if_pos ⟨rfl, rfl⟩

lemma setCell_of_ne {m : Nat → Nat → α} {i j r c : Nat} {v : α} (h : r = i → c ≠ j) :
    setCell m i j v r c = m r c :=
  if_neg fun e => h e.1 e.2

/-- Copy the elements of a list that pass `p` into the cells `k`, `k + 1`, ... below `num`. -/
def fillUp (p : α → Bool) (num : Nat) : List α → Nat → (Nat → α) → (Nat → α)
  | [], _, op => op
  | c :: cs, k, op =>
    if p c && decide (k < num) then fillUp p num cs (k + 1) (Function.update op k c)
    else fillUp p num cs k op

/-- Copy the elements of a list that pass `p` into the cells `k - 1`, `k - 2`, ..., `0`. -/
def fillDown (p : α → Bool) : List α → Nat → (Nat → α) → (Nat → α)
  | [], _, op => op
  | _ :: _, 0, op => op
  | c :: cs, k + 1, op =>
    if p c then fillDown p cs k (Function.update op k c) else fillDown p cs (k + 1) op

/-- `fillUp` leaves the cells before its first one alone. -/
lemma fillUp_below (p : α → Bool) (num : Nat) (l : List α) {i k : Nat} (op : Nat → α)
    (h : i < k) : fillUp p num l k op i = op i := by
  induction l generalizing k op with
  | nil => rfl
  | cons c cs ih =>
    rw [fillUp]
    split
    · rw [ih _ (Nat.lt_succ_of_lt h), Function.update_of_ne (Nat.ne_of_lt h)]
    · exact ih _ h

/-- `fillUp` puts the elements that pass in order into successive cells. -/
lemma fillUp_get (p : α → Bool) (num : Nat) (l : List α) {i k : Nat} {c : α} (op : Nat → α)
    (hc : (l.filter p)[i]? = some c) (h : k + i < num) : fillUp p num l k op (k + i) = c := by
  induction l generalizing i k op with
  | nil => simp at hc
  | cons d ds ih =>
    rw [fillUp]
    cases hp : p d with
    | false =>
      simp only [List.filter_cons, hp, Bool.false_eq_true, if_false] at hc
      simpa using ih op hc h
    | true =>
      have hk : k < num := by omega
      simp only [List.filter_cons, hp, if_true] at hc
      simp only [hk, decide_true, Bool.and_self, if_true]
      cases i with
      | zero =>
        simp only [List.getElem?_cons_zero, Option.some.injEq] at hc
        change fillUp p num ds (k + 1) _ k = c
        rw [fillUp_below p num ds _ (Nat.lt_add_one k), Function.update_self, hc]
      | succ i =>
        simp only [List.getElem?_cons_succ] at hc
        rw [show k + (i + 1) = k + 1 + i from by omega]
        exact ih _ hc (by omega)

/-- A cell after `fillUp` holds its old content or an element that passes. -/
lemma fillUp_cases (p : α → Bool) (num : Nat) (l : List α) (k : Nat) (op : Nat → α) (i : Nat) :
    fillUp p num l k op i = op i ∨ p (fillUp p num l k op i) = true := by
  induction l generalizing k op with
  | nil => exact .inl rfl
  | cons c cs ih =>
    rw [fillUp]
    split
    · rename_i hp
      rcases ih (k + 1) (Function.update op k c) with h | h
      · by_cases hi : i = k
        · subst hi
          rw [Function.update_self] at h
          right
          rw [h]
          simp only [Bool.and_eq_true] at hp
          exact hp.1
        · rw [Function.update_of_ne hi] at h
          exact .inl h
      · exact .inr h
    · exact ih k op

/-- `fillDown` leaves the cells from its first one on alone. -/
lemma fillDown_above (p : α → Bool) (l : List α) {i k : Nat} (op : Nat → α)
    (h : k ≤ i) : fillDown p l k op i = op i := by
  induction l generalizing k op with
  | nil => cases k <;> rfl
  | cons c cs ih =>
    cases k with
    | zero => rfl
    | succ k =>
      rw [fillDown]
      split
      · rw [ih _ (by omega), Function.update_of_ne (by omega)]
      · exact ih _ h

/-- `fillDown` puts the elements that pass in order into cells of falling index. -/
lemma fillDown_get (p : α → Bool) (l : List α) {i k : Nat} {c : α} (op : Nat → α)
    (hc : (l.filter p)[i]? = some c) (h : i < k) : fillDown p l k op (k - 1 - i) = c := by
  induction l generalizing i k op with
  | nil => simp at hc
  | cons d ds ih =>
    cases k with
    | zero => omega
    | succ k =>
      rw [fillDown]
      cases hp : p d with
      | false =>
        simp only [List.filter_cons, hp, Bool.false_eq_true, if_false] at hc
        simpa using ih op hc h
      | true =>
        simp only [List.filter_cons, hp, if_true] at hc
        simp only [if_true]
        cases i with
        | zero =>
          simp only [List.getElem?_cons_zero, Option.some.injEq] at hc
          rw [Nat.add_sub_cancel, Nat.sub_zero, fillDown_above _ _ _ (Nat.le_refl k),
            Function.update_self, hc]
        | succ i =>
          simp only [List.getElem?_cons_succ] at hc
          rw [show k + 1 - 1 - (i + 1) = k - 1 - i from by omega]
          exact ih _ hc (by omega)

/-- A cell after `fillDown` holds its old content or an element that passes. -/
lemma fillDown_cases (p : α → Bool) (l : List α) (k : Nat) (op : Nat → α) (i : Nat) :
    fillDown p l k op i = op i ∨ p (fillDown p l k op i) = true := by
  induction l generalizing k op with
  | nil => cases k <;> exact .inl rfl
  | cons c cs ih =>
    cases k with
    | zero => exact .inl rfl
    | succ k =>
      rw [fillDown]
      split
      · rename_i hp
        rcases ih k (Function.update op k c) with h | h
        · by_cases hi : i = k
          · subst hi
            rw [Function.update_self] at h
            right
            rw [h]
            exact hp
          · rw [Function.update_of_ne hi] at h
            exact .inl h
        · exact .inr h
      · exact ih (k + 1) op

/-- `fillUp` with as many cells as elements that pass lists these elements. -/
lemma slice_fillUp (p : α → Bool) (num : Nat) {l : List α} (op : Nat → α)
    (h : (l.filter p).length = num) : slice (fillUp p num l 0 op) 0 num = l.filter p := by
  apply List.ext_getElem
  · simp [slice, h]
  · intro i h₁ h₂
    have hg := fillUp_get p num l (k := 0) op (List.getElem?_eq_getElem h₂) (by omega)
    rw [Nat.zero_add] at hg
    simpa [slice] using hg

/-- `fillDown` with as many cells as elements that pass lists these elements in reverse. -/
lemma slice_fillDown (p : α → Bool) (num : Nat) {l : List α} (op : Nat → α)
    (h : (l.filter p).length = num) :
    slice (fillDown p l num op) 0 num = (l.filter p).reverse := by
  apply List.ext_getElem
  · simp [slice, h]
  · intro i h₁ h₂
    rw [List.length_reverse, h] at h₂
    have hi : num - 1 - i < (l.filter p).length := by omega
    have hg := fillDown_get p l (k := num) op (List.getElem?_eq_getElem hi) (by omega)
    rw [show num - 1 - (num - 1 - i) = i from by omega] at hg
    simpa [slice, h] using hg

/-- A property of every cell survives `fillUp` when every element that passes has it. -/
lemma fillUp_forall {p : α → Bool} {P : α → Prop} (hP : ∀ c, p c = true → P c) (num : Nat)
    (l : List α) (k : Nat) {op : Nat → α} {i : Nat} (h : P (op i)) : P (fillUp p num l k op i) := by
  rcases fillUp_cases p num l k op i with e | e
  · rw [e]
    exact h
  · exact hP _ e

/-- A property of every cell survives `fillDown` when every element that passes has it. -/
lemma fillDown_forall {p : α → Bool} {P : α → Prop} (hP : ∀ c, p c = true → P c)
    (l : List α) (k : Nat) {op : Nat → α} {i : Nat} (h : P (op i)) : P (fillDown p l k op i) := by
  rcases fillDown_cases p l k op i with e | e
  · rw [e]
    exact h
  · exact hP _ e

end CcodeTest.Lib
