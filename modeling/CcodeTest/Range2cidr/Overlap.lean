import Mathlib.Data.UInt
import CcodeTest.Range2cidr.SortMerge

/-!
# The overlap tests on all addresses

The helpers of `range_sort_merge` take `int` arguments and get unsigned bounds. The conversion keeps
the order inside each half of the addresses and puts the upper half below the lower one, so that the
last address comes right before the first. `meets_of_sameHalf` and `meets_of_not_sameHalf` say what
the test then amounts to, and `meets_eq_singleUnion_iff` when it is what it should be.

`integer_range_process` has a test of the same name for ranges of 16 bits that looks at the ends of
one range only. `overlap_agree_iff` compares the two.
-/

namespace CcodeTest.Range2cidr
open CcodeTest.Lib

/-- The numbers of the two ranges form one interval. -/
def SingleUnion (r t : Range) : Prop :=
  ∃ lo hi, ∀ x, (r.Has x ∨ t.Has x) ↔ (lo ≤ x ∧ x ≤ hi)

/-- A number lies between the two ranges. -/
def Apart (r t : Range) : Prop := r.end' + 1 < t.start ∨ t.end' + 1 < r.start

/-- One of the ranges starts at the first address and the other one ends at the last. -/
def AtBothEnds (r t : Range) : Prop :=
  (r.start = 0 ∧ t.end' = 4294967295) ∨ (t.start = 0 ∧ r.end' = 4294967295)

/-- Both ranges lie below the middle of the addresses, or both above it. -/
def SameHalf (r t : Range) : Prop :=
  (r.end' < 2147483648 ∧ t.end' < 2147483648) ∨ (2147483648 ≤ r.start ∧ 2147483648 ≤ t.start)

/-- One range starts right behind the other, but not in the middle of the addresses. -/
def TouchAway (r t : Range) : Prop :=
  (t.start = r.end' + 1 ∧ t.start ≠ 2147483648) ∨ (r.start = t.end' + 1 ∧ r.start ≠ 2147483648)

/-- When the helpers answer right: in one half of the addresses, for ranges that touch elsewhere
than in the middle, and otherwise if being at both ends, which are neighbours for them, is as good
as having no number in between. -/
def AnsweredRight (r t : Range) : Prop :=
  SameHalf r t ∨ TouchAway r t ∨ (Apart r t ∧ ¬ AtBothEnds r t) ∨ (¬ Apart r t ∧ AtBothEnds r t)

/-- `is_range_adjacent` with differences that wrap. -/
def isRangeAdjacentWrapped (start1 end1 start2 end2 : Int) : Bool :=
  (decide (start1 > end2) && int32 (start1 - end2) == 1) ||
    (decide (start2 > end1) && int32 (start2 - end1) == 1)

section Converted

variable {n : Nat}

lemma int32_of_lower (h : n < 2147483648) : int32 n = n := int32_of_range (by omega) (by omega)

lemma int32_of_upper (h : 2147483648 ≤ n) (h' : n < 4294967296) :
    int32 n = (n : Int) - 4294967296 := by
  unfold int32
  rw [Int.bmod_def]
  omega

/-- A range lies below the middle of the addresses, across it or above it. -/
lemma Range.converted (r : Range) (hr : r.start ≤ r.end') (h : r.end' < 4294967296) :
    (r.end' < 2147483648 ∧ int32 r.start = r.start ∧ int32 r.end' = r.end') ∨
    (r.start < 2147483648 ∧ 2147483648 ≤ r.end' ∧ int32 r.start = r.start ∧
      int32 r.end' = (r.end' : Int) - 4294967296) ∨
    (2147483648 ≤ r.start ∧ int32 r.start = (r.start : Int) - 4294967296 ∧
      int32 r.end' = (r.end' : Int) - 4294967296) := by
  rcases Nat.lt_or_ge r.end' 2147483648 with hb | hb
  · exact .inl ⟨hb, int32_of_lower (Nat.lt_of_le_of_lt hr hb), int32_of_lower hb⟩
  · rcases Nat.lt_or_ge r.start 2147483648 with ha | ha
    · exact .inr (.inl ⟨ha, hb, int32_of_lower ha, int32_of_upper hb h⟩)
    · exact .inr (.inr ⟨ha, int32_of_upper ha (Nat.lt_of_le_of_lt hr h), int32_of_upper hb h⟩)

/-- Two values of an `int` in order are one apart exactly when their wrapped difference is 1. -/
lemma int32_sub_eq_one {x y : Int} (h : int32 y < int32 x) :
    int32 (int32 x - int32 y) = 1 ↔ int32 x - int32 y = 1 := by
  have hx := int32_lt x
  have hy := int32_lt y
  unfold int32 at *
  simp only [Int.bmod_def] at *
  omega

end Converted

/-- The overflow of the differences does not change what the helper returns. -/
lemma isRangeAdjacentWrapped_eq (s1 e1 s2 e2 : Int) :
    isRangeAdjacentWrapped (int32 s1) (int32 e1) (int32 s2) (int32 e2) =
      isRangeAdjacent (int32 s1) (int32 e1) (int32 s2) (int32 e2) := by
  have key : ∀ x y, (decide (int32 x > int32 y) && int32 (int32 x - int32 y) == 1) =
      (decide (int32 x > int32 y) && int32 x - int32 y == 1) := by
    intro x y
    by_cases h : int32 x > int32 y
    · rw [Bool.eq_iff_iff]
      simp only [h, decide_true, Bool.true_and, beq_iff_eq]
      exact int32_sub_eq_one h
    · simp [h]
  rw [isRangeAdjacentWrapped, isRangeAdjacent, key, key]

/-- The condition as comparisons of the converted bounds. -/
lemma meets_iff_comparisons (r t : Range) :
    meets r t = true ↔
      (int32 t.start ≤ int32 r.end' ∧ int32 r.start ≤ int32 t.end') ∨
      int32 r.start = int32 t.end' + 1 ∨ int32 t.start = int32 r.end' + 1 := by
  simp only [meets, isRangeOverlap, isRangeAdjacent, Bool.or_eq_true, Bool.not_eq_true',
    Bool.or_eq_false_iff, decide_eq_false_iff_not, Bool.and_eq_true, decide_eq_true_eq, beq_iff_eq]
  omega

/-- Two ranges form one interval when no number lies between them. -/
lemma singleUnion_iff {r t : Range} (hr : r.start ≤ r.end') (ht : t.start ≤ t.end') :
    SingleUnion r t ↔ ¬ Apart r t := by
  constructor
  · rintro ⟨lo, hi, h⟩ hapart
    -- the number behind the first range belongs to the interval and to neither range
    have hrs := (h r.start).1 (.inl ⟨Nat.le_refl _, hr⟩)
    have hre := (h r.end').1 (.inl ⟨hr, Nat.le_refl _⟩)
    have hts := (h t.start).1 (.inr ⟨Nat.le_refl _, ht⟩)
    have hte := (h t.end').1 (.inr ⟨ht, Nat.le_refl _⟩)
    rcases hapart with hlt | hlt
    · have hx := (h (r.end' + 1)).2 ⟨by omega, by omega⟩
      simp only [Range.Has] at hx
      omega
    · have hx := (h (t.end' + 1)).2 ⟨by omega, by omega⟩
      simp only [Range.Has] at hx
      omega
  · intro hapart
    refine ⟨min r.start t.start, max r.end' t.end', ?_⟩
    intro x
    simp only [Apart, Range.Has] at *
    omega

section Unsigned

variable {r t : Range}

/-- In one half of the addresses the conversion does not matter. -/
lemma meets_of_sameHalf (hr : r.start ≤ r.end') (ht : t.start ≤ t.end') (hr32 : r.end' < 4294967296)
    (ht32 : t.end' < 4294967296) (h : SameHalf r t) : meets r t = true ↔ ¬ Apart r t := by
  rw [meets_iff_comparisons, Apart]
  rcases h with ⟨hb, hd⟩ | ⟨ha, hc⟩
  · rw [int32_of_lower hb, int32_of_lower hd, int32_of_lower (Nat.lt_of_le_of_lt hr hb),
      int32_of_lower (Nat.lt_of_le_of_lt ht hd)]
    omega
  · rw [int32_of_upper ha (by omega), int32_of_upper hc (by omega),
      int32_of_upper (Nat.le_trans ha hr) hr32, int32_of_upper (Nat.le_trans hc ht) ht32]
    omega

/-- Otherwise the upper half comes before the lower one: no overlap is seen, and two ranges are
adjacent away from the middle or by way of the ends. -/
lemma meets_of_not_sameHalf (hr : r.start ≤ r.end') (ht : t.start ≤ t.end')
    (hr32 : r.end' < 4294967296) (ht32 : t.end' < 4294967296) (h : ¬ SameHalf r t) :
    meets r t = true ↔ TouchAway r t ∨ AtBothEnds r t := by
  rw [meets_iff_comparisons, TouchAway, AtBothEnds]
  rw [SameHalf, not_or] at h
  rcases r.converted hr hr32 with ⟨hb, ea, eb⟩ | ⟨ha, hb, ea, eb⟩ | ⟨ha, ea, eb⟩
  · rw [ea, eb]
    rcases t.converted ht ht32 with ⟨hd, ec, ed⟩ | ⟨hc, hd, ec, ed⟩ | ⟨hc, ec, ed⟩
    · exact absurd ⟨hb, hd⟩ h.1
    · rw [ec, ed]
      omega
    · rw [ec, ed]
      omega
  · rw [ea, eb]
    rcases t.converted ht ht32 with ⟨hd, ec, ed⟩ | ⟨hc, hd, ec, ed⟩ | ⟨hc, ec, ed⟩
    · rw [ec, ed]
      omega
    · rw [ec, ed]
      omega
    · rw [ec, ed]
      omega
  · rw [ea, eb]
    rcases t.converted ht ht32 with ⟨hd, ec, ed⟩ | ⟨hc, hd, ec, ed⟩ | ⟨hc, ec, ed⟩
    · rw [ec, ed]
      omega
    · rw [ec, ed]
      omega
    · exact absurd ⟨ha, hc⟩ h.2

lemma TouchAway.not_apart (hr : r.start ≤ r.end') (ht : t.start ≤ t.end') (h : TouchAway r t) :
    ¬ Apart r t := by
  simp only [TouchAway, Apart] at *
  omega

end Unsigned

/-- For ranges of unsigned numbers of 32 bits the helpers tell whether the union is one interval
exactly when the bounds are as in `AnsweredRight`. -/
theorem meets_eq_singleUnion_iff (r t : Range) (hr : r.start ≤ r.end') (ht : t.start ≤ t.end')
    (hr32 : r.end' < 4294967296) (ht32 : t.end' < 4294967296) :
    (meets r t = true ↔ SingleUnion r t) ↔ AnsweredRight r t := by
  rw [singleUnion_iff hr ht, AnsweredRight]
  by_cases hhalf : SameHalf r t
  · exact iff_of_true (meets_of_sameHalf hr ht hr32 ht32 hhalf) (.inl hhalf)
  · rw [meets_of_not_sameHalf hr ht hr32 ht32 hhalf]
    by_cases htouch : TouchAway r t
    · exact iff_of_true (iff_of_true (.inl htouch) (htouch.not_apart hr ht)) (.inr (.inl htouch))
    · simp only [hhalf, htouch, false_or]
      by_cases hapart : Apart r t
      · simp [hapart]
      · simp [hapart]

/-- Two ranges below the middle. -/
theorem meets_eq_singleUnion_low :
    (meets ⟨10, 20⟩ ⟨21, 30⟩ = true ↔ SingleUnion ⟨10, 20⟩ ⟨21, 30⟩) ∧
      AnsweredRight ⟨10, 20⟩ ⟨21, 30⟩ := by
  have hright : AnsweredRight ⟨10, 20⟩ ⟨21, 30⟩ := .inl (.inl ⟨by decide, by decide⟩)
  exact ⟨(meets_eq_singleUnion_iff ⟨10, 20⟩ ⟨21, 30⟩ (by decide) (by decide) (by decide)
    (by decide)).2 hright, hright⟩

/-- A range across the middle and one inside it are not recognised. -/
theorem meets_across_middle :
    meets ⟨0, 2147483648⟩ ⟨5, 10⟩ = false ∧ SingleUnion ⟨0, 2147483648⟩ ⟨5, 10⟩ := by
  refine ⟨by decide, 0, 2147483648, ?_⟩
  intro x
  simp only [Range.Has]
  omega

/-- `uint16_range_t`. -/
structure Uint16Range where
  (s e : UInt16)
deriving DecidableEq

/-- `is_range_overlap` of `integer_range_process/range.c`. -/
def Uint16Range.isRangeOverlap (r1 r2 : Uint16Range) : Bool :=
  (decide (r1.s ≥ r2.s) && decide (r1.s ≤ r2.e)) || (decide (r1.e ≥ r2.s) && decide (r1.e ≤ r2.e))

/-- The test of `sort_merge.c` on the same bounds, which fit into an `int`. -/
def Uint16Range.sortMergeOverlap (r1 r2 : Uint16Range) : Bool :=
  CcodeTest.Range2cidr.isRangeOverlap r1.s.toNat r1.e.toNat r2.s.toNat r2.e.toNat

/-- The second range lies inside the first one and has neither end in common with it. -/
def Uint16Range.StrictlyAround (r1 r2 : Uint16Range) : Prop := r1.s < r2.s ∧ r2.e < r1.e

namespace Uint16Range

variable {r1 r2 : Uint16Range}

lemma sortMergeOverlap_iff : r1.sortMergeOverlap r2 = true ↔ r2.s ≤ r1.e ∧ r1.s ≤ r2.e := by
  simp only [sortMergeOverlap, CcodeTest.Range2cidr.isRangeOverlap, Bool.not_eq_true',
    Bool.or_eq_false_iff, decide_eq_false_iff_not, UInt16.le_iff_toNat_le]
  omega

lemma sortMergeOverlap_comm (r1 r2 : Uint16Range) :
    r1.sortMergeOverlap r2 = r2.sortMergeOverlap r1 := by
  rw [Bool.eq_iff_iff, sortMergeOverlap_iff, sortMergeOverlap_iff, and_comm]

/-- The end-point test misses the ranges inside the first one. -/
lemma isRangeOverlap_iff (h1 : r1.s ≤ r1.e) :
    r1.isRangeOverlap r2 = true ↔ r1.sortMergeOverlap r2 = true ∧ ¬ r1.StrictlyAround r2 := by
  rw [sortMergeOverlap_iff]
  simp only [isRangeOverlap, StrictlyAround, Bool.or_eq_true, Bool.and_eq_true, decide_eq_true_eq,
    ge_iff_le, UInt16.le_iff_toNat_le, UInt16.lt_iff_toNat_lt] at h1 ⊢
  omega

/-- Ranges inside one another overlap. -/
lemma sortMergeOverlap_of_strictlyAround (h2 : r2.s ≤ r2.e) (h : r1.StrictlyAround r2) :
    r1.sortMergeOverlap r2 = true := by
  rw [sortMergeOverlap_iff]
  simp only [StrictlyAround, UInt16.le_iff_toNat_le, UInt16.lt_iff_toNat_lt] at h h2 ⊢
  omega

end Uint16Range

/-- The two tests give the same answer, whichever range comes first, exactly when neither range lies
strictly inside the other. -/
theorem overlap_agree_iff (r1 r2 : Uint16Range) (h1 : r1.s ≤ r1.e) (h2 : r2.s ≤ r2.e) :
    (r1.isRangeOverlap r2 = r1.sortMergeOverlap r2 ∧
      r1.isRangeOverlap r2 = r2.isRangeOverlap r1 ∧
      r1.sortMergeOverlap r2 = r2.sortMergeOverlap r1) ↔
    (¬ r1.StrictlyAround r2 ∧ ¬ r2.StrictlyAround r1) := by
  have h12 := @Uint16Range.isRangeOverlap_iff _ r2 h1
  have h21 := @Uint16Range.isRangeOverlap_iff _ r1 h2
  rw [r2.sortMergeOverlap_comm] at h21
  constructor
  · rintro ⟨hagree, hsymm, -⟩
    constructor
    · intro ha
      have hov := Uint16Range.sortMergeOverlap_of_strictlyAround h2 ha
      exact (h12.1 (hagree.trans hov)).2 ha
    · intro ha
      have hov := Uint16Range.sortMergeOverlap_of_strictlyAround h1 ha
      rw [r2.sortMergeOverlap_comm] at hov
      exact (h21.1 (hsymm.symm.trans (hagree.trans hov))).2 ha
  · rintro ⟨hn1, hn2⟩
    have e12 : r1.isRangeOverlap r2 = r1.sortMergeOverlap r2 := by
      rw [Bool.eq_iff_iff, h12]
      exact and_iff_left hn1
    have e21 : r2.isRangeOverlap r1 = r1.sortMergeOverlap r2 := by
      rw [Bool.eq_iff_iff, h21]
      exact and_iff_left hn2
    exact ⟨e12, e12.trans e21.symm, r1.sortMergeOverlap_comm r2⟩

/-- Two ranges with one end in common. -/
theorem overlap_agree_shared_end :
    (Uint16Range.mk 3 10).isRangeOverlap ⟨3, 4⟩ = (Uint16Range.mk 3 10).sortMergeOverlap ⟨3, 4⟩ :=
  ((overlap_agree_iff ⟨3, 10⟩ ⟨3, 4⟩ (by decide) (by decide)).2
    ⟨fun h => absurd h.1 (by decide), fun h => absurd h.1 (by decide)⟩).1

/-- A range around another one is not found to overlap it. -/
theorem overlap_around_differs :
    (Uint16Range.mk 0 10).isRangeOverlap ⟨3, 4⟩ = false ∧
      (Uint16Range.mk 0 10).sortMergeOverlap ⟨3, 4⟩ = true ∧
      (Uint16Range.mk 3 4).isRangeOverlap ⟨0, 10⟩ = true := by
  decide

end CcodeTest.Range2cidr
