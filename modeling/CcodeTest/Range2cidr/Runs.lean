import Mathlib.Data.Set.Card
import CcodeTest.Range2cidr.SortMerge

/-!
# The count of the merged ranges, and merging twice

The count that `range_sort_merge` returns leaves out every entry with a field that is zero, to pass
over the empty slots. It also passes over a merged range that starts at 0, so the count is one short
for these (`rangeSortMerge_runs_iff`).

The empty slots are `{0,0}` and stand behind the merged ranges. A second call sorts them to the
front, and the first one is copied before the test for empty slots is made: it takes the place of the
first range. Only when there is no empty slot does a second call change nothing
(`rangeSortMerge_twice_iff`).
-/

namespace CcodeTest.Range2cidr
open CcodeTest.Lib

/-- The number lies in one of the ranges. -/
def InUnion (range : Nat → Range) (cnt x : Nat) : Prop := ∃ k < cnt, (range k).Has x

/-- How many maximal runs of consecutive numbers the ranges make together; each is counted at its
first number. -/
noncomputable def runCount (range : Nat → Range) (cnt : Nat) : Nat :=
  {x | InUnion range cnt x ∧ ∀ y, y + 1 = x → ¬ InUnion range cnt y}.ncard

section Count

variable {range : Nat → Range} {cnt : Nat} {t : Merge} {read : List Range}

lemma Joined.lt_start (h : Joined read t) {a b : Nat} (hab : a < b) (hb : b ≤ t.j) :
    (t.tmpRange a).end' + 2 ≤ (t.tmpRange b).start := by
  have hgap := h.apart a (by omega)
  have hle := h.sorted (a := a + 1) hab hb
  omega

/-- The runs begin where the outputs do. -/
lemma Joined.first_iff (h : Joined read t)
    (hunion : ∀ x, (∃ k ≤ t.j, (t.tmpRange k).Has x) ↔ InUnion range cnt x) (x : Nat) :
    (InUnion range cnt x ∧ ∀ y, y + 1 = x → ¬ InUnion range cnt y) ↔
      ∃ k ≤ t.j, (t.tmpRange k).start = x := by
  constructor
  · rintro ⟨hx, hbefore⟩
    obtain ⟨k, hk, h0, h1⟩ := (hunion x).2 hx
    refine ⟨k, hk, ?_⟩
    by_contra hne
    refine hbefore (x - 1) (by omega) ((hunion _).1 ⟨k, hk, ?_, ?_⟩)
    · omega
    · omega
  · rintro ⟨k, hk, rfl⟩
    have hle := (h.proper k hk).le
    refine ⟨(hunion _).1 ⟨k, hk, Nat.le_refl _, hle⟩, ?_⟩
    intro y hy hin
    obtain ⟨i, hi, h0, h1⟩ := (hunion y).2 hin
    -- an output that held the number before would be nearer than two
    rcases Nat.lt_trichotomy i k with hlt | rfl | hgt
    · have hgap := h.lt_start hlt hk
      omega
    · omega
    · have hgap := h.lt_start hgt hi
      omega

lemma Joined.runCount_eq (h : Joined read t)
    (hunion : ∀ x, (∃ k ≤ t.j, (t.tmpRange k).Has x) ↔ InUnion range cnt x) :
    runCount range cnt = t.j + 1 := by
  have hset : {x | InUnion range cnt x ∧ ∀ y, y + 1 = x → ¬ InUnion range cnt y} =
      ((Finset.range (t.j + 1)).image fun k => (t.tmpRange k).start : Finset Nat) := by
    ext x
    simp only [Set.mem_ofPred_eq, Finset.coe_image, Set.mem_image, Finset.mem_coe, Finset.mem_range,
      Nat.lt_succ_iff]
    exact h.first_iff hunion x
  have hinj : Set.InjOn (fun k => (t.tmpRange k).start) (Finset.range (t.j + 1)) := by
    intro a ha b hb heq
    have ha' := Finset.mem_range.1 (Finset.mem_coe.1 ha)
    have hb' := Finset.mem_range.1 (Finset.mem_coe.1 hb)
    dsimp only at heq
    rcases Nat.lt_trichotomy a b with hlt | hab | hgt
    · have hgap := h.lt_start hlt (by omega)
      have hle := (h.proper a (by omega)).le
      omega
    · exact hab
    · have hgap := h.lt_start hgt (by omega)
      have hle := (h.proper b (by omega)).le
      omega
  rw [runCount, hset, Set.ncard_coe_finset, Finset.card_image_of_injOn hinj, Finset.card_range]

/-- The first output starts at 0 when some range does. -/
lemma Joined.start_zero_iff (h : Joined read t)
    (hunion : ∀ x, (∃ k ≤ t.j, (t.tmpRange k).Has x) ↔ InUnion range cnt x) :
    (t.tmpRange 0).start = 0 ↔ ∃ k < cnt, (range k).start = 0 := by
  constructor
  · intro hzero
    obtain ⟨k, hk, h0, -⟩ := (hunion 0).1 ⟨0, Nat.zero_le _, Nat.le_of_eq hzero, Nat.zero_le _⟩
    exact ⟨k, hk, Nat.le_zero.1 h0⟩
  · rintro ⟨k, hk, hzero⟩
    obtain ⟨i, hi, h0, -⟩ := (hunion 0).2 ⟨k, hk, Nat.le_of_eq hzero, Nat.zero_le _⟩
    have hle := h.sorted (Nat.zero_le i) hi
    omega

end Count

/-- For every array of ranges that are not the empty slot: the returned number is that of the maximal
runs of consecutive numbers exactly when no range starts at 0. -/
theorem rangeSortMerge_runs_iff (range : Nat → Range) (cnt : Nat) (hcnt : 1 ≤ cnt)
    (h : ∀ k < cnt, (range k).Proper) :
    (rangeSortMerge true range cnt).1 = runCount range cnt ↔ ∀ k < cnt, 1 ≤ (range k).start := by
  obtain ⟨t, read, hjoin, -, -, -, hcount, hunion⟩ := rangeSortMerge_joined hcnt h
  have hzero := hjoin.start_zero_iff hunion
  have hpos : (∀ k < cnt, 1 ≤ (range k).start) ↔ ¬ ∃ k < cnt, (range k).start = 0 := by
    constructor
    · rintro hall ⟨k, hk, hk0⟩
      have := hall k hk
      omega
    · intro hno k hk
      exact Nat.pos_of_ne_zero fun hk0 => hno ⟨k, hk, hk0⟩
  rw [hcount, hjoin.runCount_eq hunion, hpos, ← hzero]
  split
  · rename_i h0
    simp [h0]
  · rename_i h0
    simp [h0]

/-- Two ranges that are adjacent are one run. -/
theorem rangeSortMerge_runs_two :
    (rangeSortMerge true (fun k => [⟨4, 5⟩, ⟨1, 3⟩].getD k Range.zero) 2).1 =
      runCount (fun k => [⟨4, 5⟩, ⟨1, 3⟩].getD k Range.zero) 2 := by
  refine (rangeSortMerge_runs_iff _ 2 (by decide) ?_).2 ?_
  · intro k hk
    match k, hk with
    | 0, _ => exact ⟨by decide, by decide, by decide⟩
    | 1, _ => exact ⟨by decide, by decide, by decide⟩
  · decide

/-- The range from 0 to 5 is one run, and none is counted. -/
theorem rangeSortMerge_zero_lost :
    (rangeSortMerge true (fun _ => ⟨0, 5⟩) 1).1 = 0 ∧ runCount (fun _ => ⟨0, 5⟩) 1 = 1 := by
  refine ⟨by decide, ?_⟩
  have hset : {x | InUnion (fun _ => ⟨0, 5⟩) 1 x ∧ ∀ y, y + 1 = x → ¬ InUnion (fun _ => ⟨0, 5⟩) 1 y} =
      {0} := by
    ext x
    simp only [Set.mem_ofPred_eq, Set.mem_singleton_iff, InUnion, Range.Has]
    constructor
    · rintro ⟨⟨k, hk, -, h5⟩, hbefore⟩
      by_contra hne
      exact hbefore (x - 1) (by omega) ⟨k, hk, Nat.zero_le _, by omega⟩
    · rintro rfl
      exact ⟨⟨0, by decide, by decide, by decide⟩, fun y hy => by omega⟩
  rw [runCount, hset, Set.ncard_singleton]

/-! Merging twice. -/

/-- A second call returns the same number and leaves the array as it is. -/
def Idempotent (range : Nat → Range) (cnt : Nat) : Prop :=
  (rangeSortMerge true (rangeSortMerge true range cnt).2 cnt).1 = (rangeSortMerge true range cnt).1 ∧
    ∀ k < cnt, (rangeSortMerge true (rangeSortMerge true range cnt).2 cnt).2 k =
      (rangeSortMerge true range cnt).2 k

/-- The second range begins at least two behind the end of the first. -/
def Range.Before (r s : Range) : Prop := r.end' + 2 ≤ s.start

/-- Neither overlapping nor adjacent. -/
def Range.Apart (r s : Range) : Prop := r.Before s ∨ s.Before r

section Twice

variable {range g : Nat → Range} {cnt c n : Nat} {r s u : Range} {rs read : List Range} {t : Merge}

lemma Range.Before.trans (h : r.Before s) (hs : s.Proper) (h' : s.Before u) : r.Before u := by
  have hle := hs.le
  unfold Range.Before at h h' ⊢
  omega

lemma mergePass_of_not_meets (hr : r.Proper) (hm : ¬ meets r (t.tmpRange t.j) = true) :
    mergePass t r = ⟨Function.update t.tmpRange (t.j + 1) r, t.j + 1⟩ := by
  have hpos := hr.pos
  rw [mergePass, if_neg (by omega), if_neg hm]

/-- Every pass has written an output of its own only if all ranges lie apart. -/
lemma Joined.before_of_j (h : Joined read t) (hrs : ∀ r ∈ rs, r.Proper)
    (hsorted : (t.tmpRange t.j :: rs).Pairwise fun r s => r.start ≤ s.start)
    (hj : (rs.foldl mergePass t).j = t.j + rs.length) :
    (t.tmpRange t.j :: rs).Pairwise Range.Before := by
  induction rs generalizing read t with
  | nil => exact List.pairwise_singleton ..
  | cons r rs ih =>
    have hr := hrs r (List.mem_cons_self ..)
    have hrs' : ∀ s ∈ rs, s.Proper := fun s hs => hrs s (List.mem_cons_of_mem _ hs)
    rw [List.pairwise_cons, List.pairwise_cons] at hsorted
    obtain ⟨hfirst, hnext, htail⟩ := hsorted
    have hlast := h.proper t.j (Nat.le_refl _)
    have hle := hfirst r (List.mem_cons_self ..)
    obtain ⟨hm, -, hstart⟩ := h.pass hr hle
    have hsorted' : ((mergePass t r).tmpRange (mergePass t r).j :: rs).Pairwise
        fun r s => r.start ≤ s.start :=
      .cons (fun s hs => Nat.le_trans hstart (hnext s hs)) htail
    rw [List.foldl_cons, List.length_cons] at hj
    by_cases hmeets : meets r (t.tmpRange t.j) = true
    · -- this pass writes no output, and the others one each at most
      have hsame : (mergePass t r).j = t.j := by
        have hpos := hr.pos
        rw [mergePass, if_neg (by omega), if_pos hmeets]
      have hbound := (hm.run hrs' hsorted').2
      omega
    · have hnew := mergePass_of_not_meets hr hmeets
      have hcell : (mergePass t r).tmpRange (mergePass t r).j = r := by
        rw [hnew]
        exact Function.update_self ..
      have hj' : (mergePass t r).j = t.j + 1 := by rw [hnew]
      have hrest := ih hm hrs' hsorted' (by omega)
      rw [hcell] at hrest
      have hbefore : (t.tmpRange t.j).Before r := by
        rw [meets_iff hr hlast hle] at hmeets
        unfold Range.Before
        omega
      refine .cons ?_ hrest
      intro s hs
      cases hs with
      | head => exact hbefore
      | tail _ hs => exact hbefore.trans hr ((List.pairwise_cons.1 hrest).1 s hs)

/-- Ranges that lie apart are copied. -/
lemma foldl_mergePass_before (hproper : ∀ k ≤ n, (g k).Proper)
    (hbefore : ∀ k, k < n → (g k).Before (g (k + 1))) :
    (slice g 1 n).foldl mergePass ⟨Function.update (fun _ => Range.zero) 0 (g 0), 0⟩ =
      ⟨fun k => if k ≤ n then g k else Range.zero, n⟩ := by
  induction n with
  | zero =>
    change Merge.mk _ 0 = _
    congr 1
    funext k
    rw [Function.update_apply]
    rcases Nat.eq_zero_or_pos k with rfl | hpos
    · rfl
    · rw [if_neg (by omega), if_neg (by omega)]
  | succ n ih =>
    have hlast := hproper n (Nat.le_succ n)
    have hnew := hproper (n + 1) (Nat.le_refl _)
    have hgap := hbefore n (Nat.lt_succ_self n)
    unfold Range.Before at hgap
    have hle : (g n).start ≤ (g (n + 1)).start := by
      have := hlast.le
      omega
    have hmeets : ¬ meets (g (n + 1)) (g n) = true := by
      rw [meets_iff hnew hlast hle]
      omega
    have hcell : (if n ≤ n then g n else Range.zero) = g n := if_pos (Nat.le_refl n)
    rw [slice_succ, List.foldl_append, ih (fun k hk => hproper k (by omega))
      (fun k hk => hbefore k (by omega)), Nat.add_comm 1 n]
    change mergePass _ (g (n + 1)) = _
    rw [mergePass_of_not_meets hnew (by dsimp only; rw [hcell]; exact hmeets)]
    congr 1
    funext k
    rw [Function.update_apply]
    dsimp only
    rcases Nat.lt_trichotomy k (n + 1) with hlt | rfl | hgt
    · rw [if_neg (by omega), if_pos (by omega), if_pos (by omega)]
    · rw [if_pos rfl, if_pos (Nat.le_refl _)]
    · rw [if_neg (by omega), if_neg (by omega), if_neg (by omega)]

/-- The count at the end of a call, of the array that it leaves. -/
def mergeCnt (range : Nat → Range) (cnt : Nat) : Int :=
  (List.range cnt).countP fun i => (range i).start ≠ 0 && (range i).end' ≠ 0

lemma rangeSortMerge_eq (range : Nat → Range) (cnt : Nat) : rangeSortMerge true range cnt =
    (mergeCnt (rangeSortMerge true range cnt).2 cnt, (rangeSortMerge true range cnt).2) := rfl

/-- A call on ranges that lie apart sorts them and no more. -/
lemma rangeSortMerge_of_before (hg : selectSort Range.start range (c + 1) = g)
    (hproper : ∀ k ≤ c, (g k).Proper) (hbefore : ∀ k, k < c → (g k).Before (g (k + 1))) :
    rangeSortMerge true range (c + 1) = (mergeCnt g (c + 1), g) := by
  have hmerge : (mergeRanges g (c + 1)).tmpRange = fun k => if k ≤ c then g k else Range.zero :=
    congrArg Merge.tmpRange (foldl_mergePass_before hproper hbefore)
  have harray : (rangeSortMerge true range (c + 1)).2 = g := by
    unfold rangeSortMerge
    dsimp only
    rw [if_pos rfl, hg, hmerge]
    funext k
    dsimp only
    by_cases hk : k ≤ c
    · rw [if_pos (Nat.lt_succ_of_le hk), if_pos hk]
    · rw [if_neg (by omega)]
  rw [rangeSortMerge_eq, harray]

/-- In the order of their starts, ranges that lie apart lie one before the other. -/
lemma before_of_apart (hs : s.Proper) (h : r.Apart s) (hle : r.start ≤ s.start) :
    r.Before s := by
  rcases h with h | h
  · exact h
  · have hle' := hs.le
    unfold Range.Before at h
    omega

lemma Range.Apart.symm (h : r.Apart s) : s.Apart r := Or.symm h

lemma idempotent_of_apart (hproper : ∀ k < c + 1, (range k).Proper)
    (hapart : ∀ a b, a < b → b < c + 1 → (range a).Apart (range b)) : Idempotent range (c + 1) := by
  have hproper' := selectSort_forall hproper
  have hsorted := fun a b (hab : a ≤ b) (hb : b < c + 1) =>
    selectSort_sorted Range.start range (c + 1) hab hb
  have hpair : (slice (selectSort Range.start range (c + 1)) 0 (c + 1)).Pairwise Range.Apart :=
    ((selectSort_perm Range.start range (c + 1)).pairwise_iff Range.Apart.symm).2
      (pairwise_slice fun a b _ hab hb => hapart a b hab (by omega))
  have hbefore : ∀ k, k < c → (selectSort Range.start range (c + 1) k).Before
      (selectSort Range.start range (c + 1) (k + 1)) := fun k hk =>
    before_of_apart (hproper' (k + 1) (by omega))
      (rel_of_pairwise_slice hpair (Nat.lt_succ_self k) (by omega))
      (hsorted k (k + 1) (Nat.le_succ k) (by omega))
  have hfirst := rangeSortMerge_of_before rfl (fun k hk => hproper' k (by omega)) hbefore
  have hsecond := rangeSortMerge_of_before
    (selectSort_of_sorted Range.start (selectSort Range.start range (c + 1)) hsorted)
    (fun k hk => hproper' k (by omega)) hbefore
  have hsame : rangeSortMerge true (rangeSortMerge true range (c + 1)).2 (c + 1) =
      rangeSortMerge true range (c + 1) := by
    rw [hfirst]
    exact hsecond
  rw [Idempotent, hsame]
  exact ⟨rfl, fun _ _ => rfl⟩

/-- What starts at 0 in the first place goes on to. -/
lemma mergeRanges_start_zero (hzero : (g 0).start = 0) :
    ((mergeRanges g cnt).tmpRange 0).start = 0 := by
  have hpass : ∀ (t : Merge) (r : Range), (t.tmpRange 0).start = 0 →
      ((mergePass t r).tmpRange 0).start = 0 := by
    intro t r h
    unfold mergePass
    split
    · exact h
    · split
      · dsimp only
        rcases Nat.eq_zero_or_pos t.j with hj | hj
        · rw [hj, Function.update_self]
          exact Nat.le_zero.1 (Nat.le_trans (Nat.min_le_left ..) (Nat.le_of_eq h))
        · rw [Function.update_of_ne (Nat.ne_of_lt hj)]
          exact h
      · dsimp only
        rw [Function.update_of_ne (Nat.ne_of_lt (Nat.succ_pos t.j))]
        exact h
  have hrun : ∀ (rs : List Range) (t : Merge), (t.tmpRange 0).start = 0 →
      ((rs.foldl mergePass t).tmpRange 0).start = 0 := by
    intro rs
    induction rs with
    | nil => exact fun t h => h
    | cons r rs ih => exact fun t h => ih _ (hpass t r h)
  exact hrun _ _ hzero

/-- With an empty slot in the array a call leaves one in the first place. -/
lemma rangeSortMerge_start_zero (hk : n < cnt) (hzero : range n = Range.zero) :
    ((rangeSortMerge true range cnt).2 0).start = 0 := by
  have hmem : Range.zero ∈ slice (selectSort Range.start range cnt) 0 cnt := by
    rw [(selectSort_perm Range.start range cnt).mem_iff]
    exact mem_slice.2 ⟨n, by omega, hzero⟩
  obtain ⟨k, hk', heq⟩ := mem_slice.1 hmem
  have hle := selectSort_sorted Range.start range cnt (Nat.zero_le k) (by omega)
  rw [heq] at hle
  rw [rangeSortMerge_left (Nat.zero_lt_of_lt hk)]
  exact mergeRanges_start_zero (Nat.le_zero.1 hle)

/-- A call that leaves no empty slot has merged nothing. -/
lemma apart_of_full (hproper : ∀ k < c + 1, (range k).Proper)
    (hj : (mergeRanges (selectSort Range.start range (c + 1)) (c + 1)).j = c) {a b : Nat}
    (hab : a < b) (hb : b < c + 1) : (range a).Apart (range b) := by
  have hproper' := selectSort_forall hproper
  have hfirst := joined_first (hproper' 0 (Nat.zero_lt_succ c))
  have hrest : ∀ r ∈ slice (selectSort Range.start range (c + 1)) 1 c, r.Proper := by
    intro r hr
    obtain ⟨k, hk, rfl⟩ := mem_slice.1 hr
    exact hproper' k (by omega)
  have hsorted : (slice (selectSort Range.start range (c + 1)) 0 (c + 1)).Pairwise
      fun r s => r.start ≤ s.start :=
    pairwise_slice fun a b _ hab hb =>
      selectSort_sorted Range.start range (c + 1) (Nat.le_of_lt hab) (by omega)
  have hbefore := hfirst.before_of_j hrest hsorted
    (by rw [length_slice]; exact hj.trans (Nat.zero_add c).symm)
  have hpair : (slice range 0 (c + 1)).Pairwise Range.Apart :=
    ((selectSort_perm Range.start range (c + 1)).pairwise_iff Range.Apart.symm).1
      (hbefore.imp Or.inl)
  exact rel_of_pairwise_slice hpair hab hb

end Twice

/-- For every array of ranges that start at 1 or later: a second call changes neither the array nor
the returned number exactly when no two of the ranges overlap or are adjacent. -/
theorem rangeSortMerge_twice_iff (range : Nat → Range) (cnt : Nat) (hcnt : 1 ≤ cnt)
    (h : ∀ k < cnt, (range k).Valid) :
    Idempotent range cnt ↔ ∀ a b, a < b → b < cnt → (range a).Apart (range b) := by
  obtain ⟨c, rfl⟩ := Nat.exists_eq_add_of_le' hcnt
  have hproper : ∀ k < c + 1, (range k).Proper := fun k hk => (h k hk).proper
  constructor
  · intro hidem a b hab hb
    obtain ⟨hm, hj⟩ := mergeRanges_selected hproper
    refine apart_of_full hproper ?_ hab hb
    by_contra hne
    -- the last place is an empty slot, which the second call brings to the first place
    have hzero : (rangeSortMerge true range (c + 1)).2 c = Range.zero := by
      rw [rangeSortMerge_left (Nat.lt_succ_self c)]
      exact hm.rest c (by omega)
    have hstart := rangeSortMerge_start_zero (Nat.lt_succ_self c) hzero
    have hfirst : 0 < c + 1 := Nat.zero_lt_succ c
    rw [hidem.2 0 hfirst, rangeSortMerge_left hfirst] at hstart
    have hmerged : Merged _ _ := hm.merged fun r hr => by
      obtain ⟨k, hk, rfl⟩ := mem_slice.1 hr
      exact selectSort_forall h k (by omega)
    have hpos := (hmerged.valid 0 (Nat.zero_le _)).pos
    omega
  · exact idempotent_of_apart hproper

/-- Two ranges that lie apart, in the wrong order. -/
theorem rangeSortMerge_twice_two :
    Idempotent (fun k => [⟨7, 9⟩, ⟨1, 3⟩].getD k Range.zero) 2 := by
  refine (rangeSortMerge_twice_iff _ 2 (by decide) ?_).2 ?_
  · intro k hk
    match k, hk with
    | 0, _ => exact ⟨by decide, by decide, by decide⟩
    | 1, _ => exact ⟨by decide, by decide, by decide⟩
  · intro a b hab hb
    have ha : a = 0 := by omega
    have hb : b = 1 := by omega
    subst ha
    subst hb
    exact .inr (by unfold Range.Before; decide)

/-- The ranges from 4 to 5 and from 6 to 8 are merged, and the second call moves the result; from 1
to 3 and from 4 to 5 it is even lost from the count. -/
theorem rangeSortMerge_slot_moves :
    (rangeSortMerge true (fun k => [⟨4, 5⟩, ⟨6, 8⟩].getD k Range.zero) 2).2 0 = ⟨4, 8⟩ ∧
      (rangeSortMerge true
        (rangeSortMerge true (fun k => [⟨4, 5⟩, ⟨6, 8⟩].getD k Range.zero) 2).2 2).2 0 = ⟨0, 0⟩ ∧
      (rangeSortMerge true (fun k => [⟨1, 3⟩, ⟨4, 5⟩].getD k Range.zero) 2).1 = 1 ∧
      (rangeSortMerge true
        (rangeSortMerge true (fun k => [⟨1, 3⟩, ⟨4, 5⟩].getD k Range.zero) 2).2 2).1 = 0 ∧
      ¬ Idempotent (fun k => [⟨4, 5⟩, ⟨6, 8⟩].getD k Range.zero) 2 := by
  refine ⟨by decide, by decide, by decide, by decide, ?_⟩
  intro h
  exact absurd (h.2 0 (by decide)) (by decide)

end CcodeTest.Range2cidr
