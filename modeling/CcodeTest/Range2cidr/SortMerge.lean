import Mathlib.Order.Nat
import CcodeTest.Lib.Selection
import CcodeTest.Lib.Word

/-!
# Sorting and merging ranges

`range_sort_merge` sorts an array of ranges by their start and then merges, into a second array that
is copied back, each range with the last one written whenever the two overlap or are adjacent. The
count it returns is that of the entries whose fields are both not zero.

The merge reads the sorted ranges once and compares with the last output only. `Joined` says what it
has by then: outputs that lie at least two apart and cover exactly what was read. Since the inputs
come in the order of their starts, nothing that follows can reach an earlier output. It holds for
ranges that start at 0 too; `Merged` adds that no output does.
-/

namespace CcodeTest.Range2cidr
open CcodeTest.Lib

/-- `range_node_t`, two unsigned numbers of 32 bits. -/
structure Range where
  (start end' : Nat)
deriving DecidableEq

/-- What `memset` leaves. -/
def Range.zero : Range := ⟨0, 0⟩

/-- A number lies in the range. -/
def Range.Has (r : Range) (x : Nat) : Prop := r.start ≤ x ∧ x ≤ r.end'

/-- The ranges the caller may pass. -/
structure Range.Valid (r : Range) : Prop where
  pos : 1 ≤ r.start
  le : r.start ≤ r.end'
  int : r.end' ≤ 2147483647

/-- A range that may start at 0 but is not the empty slot. -/
structure Range.Proper (r : Range) : Prop where
  le : r.start ≤ r.end'
  pos : 1 ≤ r.end'
  int : r.end' ≤ 2147483647

lemma Range.Valid.proper {r : Range} (h : r.Valid) : r.Proper :=
  ⟨h.le, Nat.le_trans h.pos h.le, h.int⟩

/-- `is_range_overlap`. -/
def isRangeOverlap (start1 end1 start2 end2 : Int) : Bool :=
  !(decide (end1 < start2) || decide (start1 > end2))

/-- `is_range_adjacent`. -/
def isRangeAdjacent (start1 end1 start2 end2 : Int) : Bool :=
  (decide (start1 > end2) && start1 - end2 == 1) || (decide (start2 > end1) && start2 - end1 == 1)

/-- The condition of the merge. The arguments are converted to `int`. -/
def meets (r t : Range) : Bool :=
  isRangeOverlap (int32 r.start) (int32 r.end') (int32 t.start) (int32 t.end') ||
    isRangeAdjacent (int32 r.start) (int32 r.end') (int32 t.start) (int32 t.end')

/-- `tmp_range` and the index `j` of its last entry. -/
structure Merge where
  tmpRange : Nat → Range
  j : Nat

/-- One pass of the merge, on `range[i]`. -/
def mergePass (t : Merge) (r : Range) : Merge :=
  if r.start = 0 ∧ r.end' = 0 then t
  else if meets r (t.tmpRange t.j) then
    let last := t.tmpRange t.j
    ⟨Function.update t.tmpRange t.j ⟨min last.start r.start, max last.end' r.end'⟩, t.j⟩
  else ⟨Function.update t.tmpRange (t.j + 1) r, t.j + 1⟩

/-- The merge of the sorted ranges. -/
def mergeRanges (range : Nat → Range) (cnt : Nat) : Merge :=
  (slice range 1 (cnt - 1)).foldl mergePass
    ⟨Function.update (fun _ => Range.zero) 0 (range 0), 0⟩

/-- `range_sort_merge`: the returned number and the array. The flag tells whether `malloc`
succeeds. -/
def rangeSortMerge (malloc : Bool) (range : Nat → Range) (cnt : Nat) : Int × (Nat → Range) :=
  let range := selectSort Range.start range cnt
  if malloc then
    let tmpRange := (mergeRanges range cnt).tmpRange
    let range := fun k => if k < cnt then tmpRange k else range k
    ((List.range cnt).countP fun i => (range i).start ≠ 0 && (range i).end' ≠ 0, range)
  else (-1, range)

/-- What the merge has produced when it has read the ranges `read`. -/
structure Merged (read : List Range) (t : Merge) : Prop where
  valid : ∀ k, k ≤ t.j → (t.tmpRange k).Valid
  rest : ∀ k, t.j < k → t.tmpRange k = Range.zero
  apart : ∀ k, k < t.j → (t.tmpRange k).end' + 2 ≤ (t.tmpRange (k + 1)).start
  union : ∀ x, (∃ k ≤ t.j, (t.tmpRange k).Has x) ↔ ∃ r ∈ read, r.Has x

/-- The same for ranges of which one may start at 0. -/
structure Joined (read : List Range) (t : Merge) : Prop where
  proper : ∀ k, k ≤ t.j → (t.tmpRange k).Proper
  rest : ∀ k, t.j < k → t.tmpRange k = Range.zero
  apart : ∀ k, k < t.j → (t.tmpRange k).end' + 2 ≤ (t.tmpRange (k + 1)).start
  union : ∀ x, (∃ k ≤ t.j, (t.tmpRange k).Has x) ↔ ∃ r ∈ read, r.Has x

section Pass

variable {r s : Range} {t : Merge} {read : List Range}

/-- An output starts with a number of some range that was read. -/
lemma Joined.merged (h : Joined read t) (hread : ∀ r ∈ read, r.Valid) : Merged read t := by
  refine ⟨?_, h.rest, h.apart, h.union⟩
  intro k hk
  obtain ⟨hle, -, hint⟩ := h.proper k hk
  obtain ⟨r, hr, hx⟩ := (h.union (t.tmpRange k).start).1 ⟨k, hk, Nat.le_refl _, hle⟩
  exact ⟨Nat.le_trans (hread r hr).pos hx.1, hle, hint⟩

/-- For ranges in the order of their starts the condition is that no number lies between. -/
lemma meets_iff (hr : r.Proper) (hs : s.Proper) (hle : s.start ≤ r.start) :
    meets r s = true ↔ r.start ≤ s.end' + 1 := by
  obtain ⟨hr0, hr1, hr2⟩ := hr
  obtain ⟨hs0, hs1, hs2⟩ := hs
  have h0 : int32 r.start = r.start := int32_of_range (by omega) (by omega)
  have h1 : int32 r.end' = r.end' := int32_of_range (by omega) (by omega)
  have h2 : int32 s.start = s.start := int32_of_range (by omega) (by omega)
  have h3 : int32 s.end' = s.end' := int32_of_range (by omega) (by omega)
  rw [meets, h0, h1, h2, h3, isRangeOverlap, isRangeAdjacent]
  simp only [Bool.or_eq_true, Bool.and_eq_true, Bool.not_eq_true', Bool.or_eq_false_iff,
    decide_eq_true_eq, decide_eq_false_iff_not, beq_iff_eq]
  omega

/-- Some output up to the last one, when the last one is replaced. -/
lemma exists_le_update {j x : Nat} (f : Nat → Range) (v : Range) :
    (∃ k ≤ j, (Function.update f j v k).Has x) ↔ (∃ k < j, (f k).Has x) ∨ v.Has x := by
  constructor
  · intro hex
    obtain ⟨k, hk, hx⟩ := hex
    rcases Nat.lt_or_eq_of_le hk with hlt | rfl
    · rw [Function.update_of_ne (Nat.ne_of_lt hlt)] at hx
      exact .inl ⟨k, hlt, hx⟩
    · rw [Function.update_self] at hx
      exact .inr hx
  · intro hor
    rcases hor with ⟨k, hk, hx⟩ | hx
    · refine ⟨k, Nat.le_of_lt hk, ?_⟩
      rw [Function.update_of_ne (Nat.ne_of_lt hk)]
      exact hx
    · refine ⟨j, Nat.le_refl j, ?_⟩
      rw [Function.update_self]
      exact hx

/-- Replacing the last output by another one, or putting one behind it, when it keeps the distance
to those before. -/
lemma Joined.put {j : Nat} {v : Range} (h : Joined read t) (hj : j ≤ t.j + 1) (hj' : t.j ≤ j)
    (hv : v.Proper) (hap : ∀ k, k + 1 = j → (t.tmpRange k).end' + 2 ≤ v.start)
    (hunion : ∀ x, (∃ k < j, (t.tmpRange k).Has x) ∨ v.Has x ↔ (∃ q ∈ read, q.Has x) ∨ r.Has x) :
    Joined (read ++ [r]) ⟨Function.update t.tmpRange j v, j⟩ := by
  refine ⟨?_, ?_, ?_, ?_⟩
  · intro k hk
    rcases Nat.lt_or_eq_of_le hk with hlt | rfl
    · simp only [Function.update_of_ne (Nat.ne_of_lt hlt)]
      exact h.proper k (Nat.le_of_lt_succ (Nat.lt_of_lt_of_le hlt hj))
    · simp only [Function.update_self]
      exact hv
  · intro k hk
    simp only [Function.update_of_ne (Nat.ne_of_gt hk)]
    exact h.rest k (Nat.lt_of_le_of_lt hj' hk)
  · intro k hk
    simp only [Function.update_of_ne (Nat.ne_of_lt hk)]
    rcases Nat.lt_or_eq_of_le (Nat.succ_le_of_lt hk) with hlt | heq
    · rw [Function.update_of_ne (Nat.ne_of_lt hlt)]
      exact h.apart k (Nat.lt_of_succ_le (Nat.le_of_lt_succ (Nat.lt_of_lt_of_le hlt hj)))
    · cases heq
      rw [Function.update_self]
      exact hap k rfl
  · intro x
    refine (exists_le_update _ _).trans ((hunion x).trans ?_)
    simp only [List.mem_append, List.mem_singleton, or_and_right, exists_or, exists_eq_left]

/-- One pass: what is read grows by the range, at most one output is added, and the last output
starts by it. -/
lemma Joined.pass (h : Joined read t) (hr : r.Proper) (hle : (t.tmpRange t.j).start ≤ r.start) :
    Joined (read ++ [r]) (mergePass t r) ∧ (mergePass t r).j ≤ t.j + 1 ∧
      ((mergePass t r).tmpRange (mergePass t r).j).start ≤ r.start := by
  have hlast := h.proper t.j (Nat.le_refl _)
  have hpos := hr.pos
  have hcover : ∀ x, (∃ k < t.j, (t.tmpRange k).Has x) ∨ (t.tmpRange t.j).Has x ↔
      ∃ q ∈ read, q.Has x := by
    intro x
    rw [← h.union, ← exists_le_update, Function.update_eq_self]
  rw [mergePass, if_neg (by omega)]
  by_cases hm : meets r (t.tmpRange t.j) = true
  · rw [if_pos hm]
    rw [meets_iff hr hlast hle] at hm
    refine ⟨h.put (Nat.le_succ _) (Nat.le_refl _) ?_ ?_ ?_, Nat.le_succ _, ?_⟩
    · exact ⟨Nat.le_trans (Nat.min_le_left ..) (Nat.le_trans hlast.le (Nat.le_max_left ..)),
        Nat.le_trans hlast.pos (Nat.le_max_left ..), Nat.max_le.2 ⟨hlast.int, hr.int⟩⟩
    · intro k hk
      have hap := h.apart k (by omega)
      rw [hk] at hap
      exact Nat.le_min.2 ⟨hap, Nat.le_trans hap hle⟩
    · -- the two ranges leave no gap, so the wider one is their union
      intro x
      rw [← hcover, or_assoc]
      refine or_congr_right ?_
      have h0 := hlast.le
      have h1 := hr.le
      simp only [Range.Has]
      omega
    · simp only [Function.update_self]
      exact Nat.min_le_right ..
  · rw [if_neg hm]
    rw [meets_iff hr hlast hle] at hm
    refine ⟨h.put (Nat.le_refl _) (Nat.le_succ _) hr ?_ ?_, Nat.le_refl _, ?_⟩
    · intro k hk
      cases hk
      omega
    · intro x
      rw [← h.union]
      simp only [Nat.lt_succ_iff]
    · simp only [Function.update_self, Nat.le_refl]

/-- The whole merge, over ranges in the order of their starts. -/
lemma Joined.run {rs : List Range} (h : Joined read t) (hrs : ∀ r ∈ rs, r.Proper)
    (hsorted : (t.tmpRange t.j :: rs).Pairwise fun r s => r.start ≤ s.start) :
    Joined (read ++ rs) (rs.foldl mergePass t) ∧
      (rs.foldl mergePass t).j ≤ t.j + rs.length := by
  induction rs generalizing read t with
  | nil =>
    rw [List.append_nil]
    exact ⟨h, Nat.le_refl _⟩
  | cons r rs ih =>
    rw [List.pairwise_cons, List.pairwise_cons] at hsorted
    obtain ⟨hfirst, hnext, htail⟩ := hsorted
    obtain ⟨hm, hj, hstart⟩ := h.pass (hrs r (List.mem_cons_self ..))
      (hfirst r (List.mem_cons_self ..))
    have hsorted' : ((mergePass t r).tmpRange (mergePass t r).j :: rs).Pairwise
        fun r s => r.start ≤ s.start :=
      .cons (fun s hs => Nat.le_trans hstart (hnext s hs)) htail
    obtain ⟨hrun, hj'⟩ := ih hm (fun s hs => hrs s (List.mem_cons_of_mem _ hs)) hsorted'
    rw [List.append_assoc, List.singleton_append] at hrun
    refine ⟨hrun, ?_⟩
    rw [List.foldl_cons, List.length_cons]
    omega

end Pass

/-! The whole call. -/

/-- The first `m` of the `cnt` ranges left behind are the canonical form of those passed. -/
structure Canonical (range : Nat → Range) (cnt m : Nat) (left : Nat → Range) : Prop where
  le : m ≤ cnt
  sorted : ∀ a b, a < b → b < m → (left a).start ≤ (left b).start
  apart : ∀ k, k + 1 < m → (left k).end' + 2 ≤ (left (k + 1)).start
  union : ∀ x, (∃ k < m, (left k).Has x) ↔ ∃ k < cnt, (range k).Has x
  rest : ∀ k, m ≤ k → k < cnt → left k = Range.zero

section Call

variable {range : Nat → Range} {cnt m : Nat} {r : Range} {t : Merge} {read : List Range}

lemma exists_mem_slice {x : Nat} :
    (∃ r ∈ slice range 0 cnt, r.Has x) ↔ ∃ k < cnt, (range k).Has x := by
  simp [slice]

/-- Before the loop the first range is read. -/
lemma joined_first (hr : r.Proper) :
    Joined [r] ⟨Function.update (fun _ => Range.zero) 0 r, 0⟩ := by
  refine ⟨?_, ?_, fun k hk => absurd hk (Nat.not_lt_zero k), ?_⟩
  · intro k hk
    cases Nat.le_zero.1 hk
    exact hr
  · intro k hk
    dsimp only at hk ⊢
    rw [Function.update_of_ne (Nat.ne_of_gt hk)]
  · intro x
    refine (exists_le_update _ _).trans ?_
    simp

/-- The merge of a sorted array covers what the array does. -/
lemma mergeRanges_joined {c : Nat} (hproper : ∀ k < c + 1, (range k).Proper)
    (hsorted : ∀ a b, a ≤ b → b < c + 1 → (range a).start ≤ (range b).start) :
    Joined (slice range 0 (c + 1)) (mergeRanges range (c + 1)) ∧
      (mergeRanges range (c + 1)).j < c + 1 := by
  have hfirst := joined_first (hproper 0 (Nat.zero_lt_succ c))
  have hrest : ∀ r ∈ slice range 1 c, r.Proper := by
    intro r hr
    obtain ⟨k, hk, rfl⟩ := mem_slice.1 hr
    exact hproper k (by omega)
  have hpair : (slice range 0 (c + 1)).Pairwise fun r s => r.start ≤ s.start := by
    rw [slice, List.pairwise_map]
    refine List.Pairwise.imp_of_mem ?_ List.pairwise_lt_range'
    intro a b _ hb hab
    rw [List.mem_range'_1] at hb
    exact hsorted a b (Nat.le_of_lt hab) (by omega)
  obtain ⟨hrun, hj⟩ := hfirst.run hrest hpair
  refine ⟨hrun, ?_⟩
  rw [length_slice] at hj
  exact Nat.lt_succ_of_le (Nat.le_trans hj (Nat.le_of_eq (Nat.zero_add c)))

/-- The outputs come in the order of their starts. -/
lemma Joined.sorted (h : Joined read t) {a b : Nat} (hab : a ≤ b) (hb : b ≤ t.j) :
    (t.tmpRange a).start ≤ (t.tmpRange b).start := by
  induction b with
  | zero =>
    cases Nat.le_zero.1 hab
    exact Nat.le_refl _
  | succ b ih =>
    rcases Nat.lt_or_eq_of_le hab with hlt | rfl
    · have hprev := ih (Nat.le_of_lt_succ hlt) (Nat.le_of_succ_le hb)
      have hwidth := (h.proper b (Nat.le_of_succ_le hb)).le
      have hgap := h.apart b hb
      omega
    · exact Nat.le_refl _

lemma countP_range_between {l : Nat} (h : m ≤ cnt) (hl : l ≤ m) :
    (List.range cnt).countP (fun i => decide (l ≤ i ∧ i < m)) = m - l := by
  induction cnt generalizing m with
  | zero =>
    cases Nat.le_zero.1 h
    exact (Nat.zero_sub l).symm
  | succ n ih =>
    rw [List.range_succ, List.countP_append, List.countP_singleton]
    rcases Nat.lt_or_eq_of_le h with hlt | rfl
    · rw [ih (Nat.le_of_lt_succ hlt) hl, if_neg (by simp; omega)]
      rfl
    · have hcongr : (List.range n).countP (fun i => decide (l ≤ i ∧ i < n + 1)) =
          (List.range n).countP (fun i => decide (l ≤ i ∧ i < n)) := by
        refine List.countP_congr fun i hi => ?_
        rw [List.mem_range] at hi
        simp only [decide_eq_true_eq]
        omega
      rw [hcongr]
      rcases Nat.lt_or_eq_of_le hl with hln | rfl
      · rw [ih (Nat.le_refl n) (Nat.le_of_lt_succ hln), if_pos (by simp; omega)]
        omega
      · have hnone : (List.range n).countP (fun i => decide (n + 1 ≤ i ∧ i < n)) = 0 := by
          rw [List.countP_eq_zero]
          intro i _
          simp only [decide_eq_true_eq]
          omega
        rw [hnone, if_neg (by simp), Nat.sub_self]

/-- The fields that are both not zero are those of the outputs, apart from one that starts at 0. -/
lemma Joined.countP_nonzero (h : Joined read t) (hj : t.j < cnt) {f : Nat → Range}
    (hf : ∀ k < cnt, f k = t.tmpRange k) :
    (List.range cnt).countP (fun i => decide ((f i).start ≠ 0) && decide ((f i).end' ≠ 0)) =
      if (t.tmpRange 0).start = 0 then t.j else t.j + 1 := by
  have hrest : ∀ k < cnt, 0 < k → ((f k).start ≠ 0 ∧ (f k).end' ≠ 0 ↔ k ≤ t.j) := by
    intro k hk hpos
    rw [hf k hk]
    rcases Nat.lt_or_ge t.j k with hlt | hle
    · rw [h.rest k hlt]
      constructor
      · intro hne
        exact absurd rfl hne.1
      · intro hle
        omega
    · obtain ⟨i, rfl⟩ := Nat.exists_eq_add_of_lt hpos
      rw [Nat.zero_add] at hle ⊢
      have hgap := h.apart i hle
      have hend := (h.proper (i + 1) hle).pos
      omega
  have hfirst : (f 0).start ≠ 0 ∧ (f 0).end' ≠ 0 ↔ ¬ (t.tmpRange 0).start = 0 := by
    rw [hf 0 (by omega)]
    have hend := (h.proper 0 (Nat.zero_le _)).pos
    omega
  -- the counted indices are those up to the last output, with or without the first
  have hcount : ∀ l : Nat, l ≤ t.j + 1 → (∀ k < cnt, (f k).start ≠ 0 ∧ (f k).end' ≠ 0 ↔
      l ≤ k ∧ k < t.j + 1) → (List.range cnt).countP
        (fun i => decide ((f i).start ≠ 0) && decide ((f i).end' ≠ 0)) = t.j + 1 - l := by
    intro l hl hiff
    refine Eq.trans (List.countP_congr ?_) (countP_range_between hj hl)
    intro k hk
    rw [Bool.and_eq_true, decide_eq_true_eq, decide_eq_true_eq, decide_eq_true_eq]
    exact hiff k (List.mem_range.1 hk)
  split
  · rename_i hzero
    refine hcount 1 (by omega) ?_
    intro k hk
    rcases Nat.eq_zero_or_pos k with rfl | hpos
    · rw [hfirst]
      omega
    · rw [hrest k hk hpos]
      omega
  · rename_i hzero
    refine hcount 0 (Nat.zero_le _) ?_
    intro k hk
    rcases Nat.eq_zero_or_pos k with rfl | hpos
    · rw [hfirst]
      omega
    · rw [hrest k hk hpos]
      omega

/-- What is true of every range stays true of the sorted ones. -/
lemma selectSort_forall {P : Range → Prop} (h : ∀ k < cnt, P (range k)) :
    ∀ k < cnt, P (selectSort Range.start range cnt k) := by
  intro k hk
  have hmem := (selectSort_perm Range.start range cnt).subset (mem_slice.2 ⟨k, by omega, rfl⟩)
  obtain ⟨i, hi, heq⟩ := mem_slice.1 hmem
  rw [← heq]
  exact h i (by omega)

/-- The merge of the sorted array, and what the call leaves of it. -/
lemma mergeRanges_selected {c : Nat} (h : ∀ k < c + 1, (range k).Proper) :
    Joined (slice (selectSort Range.start range (c + 1)) 0 (c + 1))
        (mergeRanges (selectSort Range.start range (c + 1)) (c + 1)) ∧
      (mergeRanges (selectSort Range.start range (c + 1)) (c + 1)).j < c + 1 :=
  mergeRanges_joined (selectSort_forall h)
    fun _ _ hab hb => selectSort_sorted Range.start range (c + 1) hab hb

lemma rangeSortMerge_left {k : Nat} (hk : k < cnt) : (rangeSortMerge true range cnt).2 k =
    (mergeRanges (selectSort Range.start range cnt) cnt).tmpRange k := if_pos hk

/-- What the call leaves of proper ranges: the outputs of the merge, which cover what the ranges do. -/
lemma rangeSortMerge_joined (hcnt : 1 ≤ cnt) (h : ∀ k < cnt, (range k).Proper) :
    ∃ t read, Joined read t ∧ t.j < cnt ∧
      (∀ r ∈ read, ∃ k < cnt, range k = r) ∧
      (∀ k < cnt, (rangeSortMerge true range cnt).2 k = t.tmpRange k) ∧
      (rangeSortMerge true range cnt).1 =
        ((if (t.tmpRange 0).start = 0 then t.j else t.j + 1 : Nat) : Int) ∧
      ∀ x, (∃ k ≤ t.j, (t.tmpRange k).Has x) ↔ ∃ k < cnt, (range k).Has x := by
  obtain ⟨c, rfl⟩ := Nat.exists_eq_add_of_le' hcnt
  have hperm := selectSort_perm Range.start range (c + 1)
  obtain ⟨hm, hj⟩ := mergeRanges_selected h
  have hleft : ∀ k < c + 1, (rangeSortMerge true range (c + 1)).2 k = _ :=
    fun k hk => rangeSortMerge_left hk
  refine ⟨_, _, hm, hj, ?_, hleft, congrArg Nat.cast (hm.countP_nonzero hj hleft), ?_⟩
  · intro r hr
    obtain ⟨k, hk, heq⟩ := mem_slice.1 (hperm.subset hr)
    exact ⟨k, by omega, heq⟩
  · intro x
    refine (hm.union x).trans ?_
    simp only [hperm.mem_iff]
    exact exists_mem_slice

/-- For valid ranges and memory the call returns the number of ranges of the canonical form and
leaves that form in the array. -/
theorem rangeSortMerge_canonical (range : Nat → Range) (cnt : Nat) (hcnt : 1 ≤ cnt)
    (h : ∀ k < cnt, (range k).Valid) :
    ∃ m : Nat, (rangeSortMerge true range cnt).1 = m ∧
      Canonical range cnt m (rangeSortMerge true range cnt).2 := by
  obtain ⟨t, read, hjoin, hj, hread, hleft, hcount, hunion⟩ := rangeSortMerge_joined hcnt
    fun k hk => (h k hk).proper
  have hm : Merged read t := by
    refine hjoin.merged fun r hr => ?_
    obtain ⟨k, hk, rfl⟩ := hread r hr
    exact h k hk
  have hpos := (hm.valid 0 (Nat.zero_le _)).pos
  rw [if_neg (by omega)] at hcount
  refine ⟨t.j + 1, hcount, hj, ?_, ?_, ?_, ?_⟩
  · intro a b hab hb
    rw [hleft a (by omega), hleft b (by omega)]
    exact hjoin.sorted (Nat.le_of_lt hab) (Nat.le_of_lt_succ hb)
  · intro k hk
    rw [hleft k (by omega), hleft (k + 1) (by omega)]
    exact hm.apart k (by omega)
  · intro x
    refine Iff.trans (exists_congr fun k => ?_) (hunion x)
    rw [Nat.lt_succ_iff]
    refine and_congr_right fun hk => ?_
    rw [hleft k (Nat.lt_of_le_of_lt hk hj)]
  · intro k hk hk'
    rw [hleft k hk']
    exact hm.rest k hk

/-- Three ranges of which the last two, in the order passed, are adjacent. -/
theorem rangeSortMerge_canonical_three :
    ∃ m : Nat, (rangeSortMerge true (fun k => [⟨9, 12⟩, ⟨4, 5⟩, ⟨1, 3⟩].getD k Range.zero) 3).1 = m ∧
      Canonical (fun k => [⟨9, 12⟩, ⟨4, 5⟩, ⟨1, 3⟩].getD k Range.zero) 3 m
        (rangeSortMerge true (fun k => [⟨9, 12⟩, ⟨4, 5⟩, ⟨1, 3⟩].getD k Range.zero) 3).2 := by
  refine rangeSortMerge_canonical _ 3 (by decide) ?_
  intro k hk
  match k, hk with
  | 0, _ => exact ⟨by decide, by decide, by decide⟩
  | 1, _ => exact ⟨by decide, by decide, by decide⟩
  | 2, _ => exact ⟨by decide, by decide, by decide⟩

end Call

end CcodeTest.Range2cidr
