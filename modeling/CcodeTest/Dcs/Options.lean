import CcodeTest.Lib.Selection
import CcodeTest.Dcs.Sort

/-!
# The order of the optional channels

The table of an access point is two parallel arrays; read row by row, its sort is the selection sort
of the library, with the score as the key. The channels that are copied out of it are therefore in
the order of their scores (`decideOptionalCh_orders`).
-/

namespace CcodeTest.Dcs
open CcodeTest.Lib

section Sorted

/-- The rows of the table from the first channel on. -/
def AcpRfa.rows (r : AcpRfa) (i : Nat) : Int × Nat := (r.rfScore (i + 1), r.rfaCh (i + 1))

/-- The pairs of score and channel. -/
def AcpRfa.pairs (r : AcpRfa) : List (Int × Nat) := slice r.rows 0 numUsingChannel

/-- The score that the table has for a channel. -/
def AcpRfa.scoreOf (r : AcpRfa) (c : Nat) : Int :=
  ((r.pairs.find? fun x => x.2 == c).map Prod.fst).getD 0

/-- The scores of the pairs. -/
lemma pairs_map_fst (r : AcpRfa) : r.pairs.map Prod.fst = slice r.rfScore 1 11 := rfl

/-- Their channels. -/
lemma pairs_map_snd (r : AcpRfa) : r.pairs.map Prod.snd = slice r.rfaCh 1 11 := rfl

/-- The score of a row. -/
lemma AcpRfa.rows_fst (r : AcpRfa) (i : Nat) : (r.rows i).1 = r.rfScore (i + 1) := rfl

/-- The position of the minimum, among the rows. -/
lemma minPosition_rows (r : AcpRfa) (i : Nat) :
    minPosition r.rfScore (i + 1) =
      minIndex Prod.fst r.rows (List.range' (i + 1) (11 - (i + 1))) i + 1 := by
  have hfold : ∀ (l : List Nat) (k : Nat),
      (l.map (1 + ·)).foldl (fun k j => if r.rfScore k > r.rfScore j then j else k) (k + 1) =
        minIndex Prod.fst r.rows l k + 1 := by
    intro l
    induction l with
    | nil => exact fun _ => rfl
    | cons j js ih =>
      intro k
      rw [List.map_cons, List.foldl_cons, minIndex_cons, ← ih]
      congr 1
      rw [Nat.add_comm 1 j]
      exact (apply_ite (· + 1) (r.rfScore (j + 1) < r.rfScore (k + 1)) j k).symm
  rw [minPosition, show i + 1 + 1 = 1 + (i + 1) by omega, ← List.map_add_range']
  exact hfold _ i

/-- A swap of the table is a swap of the rows. -/
lemma rows_swap (r : AcpRfa) (k i : Nat) :
    (r.swap (k + 1) (i + 1)).rows = swapAt r.rows k i := by
  funext j
  simp only [AcpRfa.rows, AcpRfa.swap, swapAt, Function.update_apply, Nat.add_right_cancel_iff]
  split
  · rfl
  · split <;> rfl

/-- The selection sort of the table is one of its rows. -/
lemma rows_selectionSort (r : AcpRfa) :
    (selectionSort r).rows = (List.range 11).foldl (selectPass Prod.fst 11) r.rows := by
  have hfold : ∀ (l : List Nat) (r : AcpRfa),
      ((l.map (1 + ·)).foldl (fun r i =>
        let k := minPosition r.rfScore i
        if k ≠ i then r.swap k i else r) r).rows = l.foldl (selectPass Prod.fst 11) r.rows := by
    intro l
    induction l with
    | nil => exact fun _ => rfl
    | cons i is ih =>
      intro r
      rw [List.map_cons, List.foldl_cons, List.foldl_cons, ih]
      congr 1
      rw [Nat.add_comm 1 i, minPosition_rows, selectPass]
      dsimp only
      rw [apply_ite AcpRfa.rows, rows_swap]
      simp only [ne_eq, Nat.add_right_cancel_iff]
  rw [selectionSort, numUsingChannel, List.range'_eq_map_range]
  exact hfold (List.range 11) r

/-- After the sort the rows are in their final order. -/
lemma selected_rows (r : AcpRfa) : Selected Prod.fst 11 11 (selectionSort r).rows := by
  rw [rows_selectionSort]
  exact (selectPasses_spec Prod.fst r.rows (Nat.le_refl 11)).1

/-- The scores ascend. -/
lemma selectionSort_ascending (r : AcpRfa) {a b : Nat} (hab : a ≤ b) (hb : b < 11) :
    (selectionSort r).rfScore (1 + a) ≤ (selectionSort r).rfScore (1 + b) := by
  have hle := selected_rows r a b (by omega) hab hb
  rw [AcpRfa.rows_fst, AcpRfa.rows_fst] at hle
  rw [Nat.add_comm 1 a, Nat.add_comm 1 b]
  exact hle

/-- The rows are those from before, in another order. -/
lemma selectionSort_pairs (r : AcpRfa) : (selectionSort r).pairs.Perm r.pairs := by
  unfold AcpRfa.pairs
  rw [rows_selectionSort]
  exact (selectPasses_spec Prod.fst r.rows (Nat.le_refl 11)).2

/-- They are the scores from before. -/
lemma selectionSort_scores (r : AcpRfa) :
    (slice (selectionSort r).rfScore 1 11).Perm (slice r.rfScore 1 11) := by
  rw [← pairs_map_fst, ← pairs_map_fst]
  exact (selectionSort_pairs r).map Prod.fst

end Sorted

section Score

variable {r : AcpRfa}

/-- A table that lists each channel once has one row for it. -/
lemma scoreOf_of_mem (hr : r.Listed) {x : Int × Nat} (hx : x ∈ r.pairs) : r.scoreOf x.2 = x.1 := by
  have hnd : (r.pairs.map Prod.snd).Nodup := by
    rw [pairs_map_snd]
    exact hr.nodup_iff.2 List.nodup_range'
  have hsome : (r.pairs.find? fun y => y.2 == x.2).isSome = true := by
    rw [List.find?_isSome]
    exact ⟨x, hx, beq_self_eq_true x.2⟩
  obtain ⟨y, hy⟩ := Option.isSome_iff_exists.1 hsome
  have htest := List.find?_some hy
  have hch : y.2 = x.2 := beq_iff_eq.1 htest
  have heq : y = x := List.inj_on_of_nodup_map hnd (List.mem_of_find?_eq_some hy) hx hch
  rw [AcpRfa.scoreOf, hy, heq]
  rfl

/-- The score of the channel in a row. -/
lemma scoreOf_row (hr : r.Listed) {i : Nat} (hi : 1 ≤ i ∧ i ≤ 11) :
    r.scoreOf (r.rfaCh i) = r.rfScore i := by
  have hmem : (r.rfScore i, r.rfaCh i) ∈ r.pairs := by
    rw [AcpRfa.pairs, numUsingChannel, mem_slice]
    refine ⟨i - 1, by omega, ?_⟩
    rw [AcpRfa.rows, show i - 1 + 1 = i by omega]
  exact scoreOf_of_mem hr hmem

/-- Every channel has a row. -/
lemma exists_row (hr : r.Listed) {c : Nat} (hc : 1 ≤ c ∧ c ≤ 11) :
    ∃ i, (1 ≤ i ∧ i ≤ 11) ∧ r.rfaCh i = c := by
  have hmem : c ∈ slice r.rfaCh 1 11 := by
    rw [hr.mem_iff, List.mem_range'_1]
    omega
  obtain ⟨i, hi, hci⟩ := mem_slice.1 hmem
  exact ⟨i, by omega, hci⟩

/-- The scores of the channels do not depend on the order of the rows. -/
lemma scoreOf_perm {r' : AcpRfa} (hr : r.Listed) (hp : r'.pairs.Perm r.pairs) (c : Nat) :
    r'.scoreOf c = r.scoreOf c := by
  have hr' : r'.Listed := by
    rw [AcpRfa.Listed, ← pairs_map_snd]
    exact (hp.map Prod.snd).trans hr
  by_cases h : ∃ x ∈ r.pairs, x.2 = c
  · obtain ⟨x, hx, rfl⟩ := h
    rw [scoreOf_of_mem hr hx, scoreOf_of_mem hr' (hp.mem_iff.2 hx)]
  · have hnone : ∀ l : List (Int × Nat), l.Perm r.pairs → l.find? (fun x => x.2 == c) = none := by
      intro l hl
      rw [List.find?_eq_none]
      intro x hx hxc
      exact h ⟨x, hl.mem_iff.1 hx, beq_iff_eq.1 hxc⟩
    rw [AcpRfa.scoreOf, AcpRfa.scoreOf, hnone _ hp, hnone _ (.refl _)]

/-- Sorted by score, the rows ascend by what the table had for their channels. -/
lemma selectionSort_pairwise (hr : r.Listed) :
    ((selectionSort r).pairs.map Prod.snd).Pairwise fun c d => r.scoreOf c ≤ r.scoreOf d := by
  have hmem : ∀ x ∈ (selectionSort r).pairs, r.scoreOf x.2 = x.1 := fun x hx =>
    scoreOf_of_mem hr ((selectionSort_pairs r).mem_iff.1 hx)
  have hasc : (selectionSort r).pairs.Pairwise fun x y => x.1 ≤ y.1 := by
    apply pairwise_slice
    intro a b _ hab hb
    have hb : b < 11 := Nat.lt_of_lt_of_eq hb (Nat.zero_add 11)
    exact selected_rows r a b (Nat.lt_trans hab hb) (Nat.le_of_lt hab) hb
  rw [List.pairwise_map]
  refine hasc.imp_of_mem ?_
  intro x y hx hy hxy
  rw [hmem x hx, hmem y hy]
  exact hxy

end Score

/-- Some score is positive. -/
def AcpRfa.Scored (r : AcpRfa) : Prop := ∃ i, 1 ≤ i ∧ i ≤ numUsingChannel ∧ 0 < r.rfScore i

/-- What a call leaves of the table `r` and the options `op`: the three channels in some order, in
the order of their scores when there is one, and the rows of the table that were there before. Only
without a score and without memory for the cards nothing is done. -/
structure OrdersOptions (r : AcpRfa) (op : Nat → Nat) (e : Env) (r' : AcpRfa) (op' : Nat → Nat) :
    Prop where
  perm : r.Scored ∨ e.malloc 0 = true → (options op').Perm [1, 6, 11]
  kept : ¬ r.Scored → e.malloc 0 = false → op' = op
  sorted : r.Scored → (options op').Pairwise fun c d => r.scoreOf c ≤ r.scoreOf d
  pairs : r'.pairs.Perm r.pairs

section Order

variable {r : AcpRfa} {op : Nat → Nat} {e : Env}

/-- The test at the start of `sort`. -/
lemma scored_iff : ((List.range' 1 numUsingChannel).any fun i => decide (r.rfScore i > 0)) = true ↔
    r.Scored := by
  rw [List.any_eq_true]
  constructor
  · rintro ⟨i, hi, hpos⟩
    rw [List.mem_range'_1] at hi
    exact ⟨i, hi.1, by omega, of_decide_eq_true hpos⟩
  · rintro ⟨i, h1, h11, hpos⟩
    refine ⟨i, ?_, decide_eq_true hpos⟩
    rw [List.mem_range'_1]
    omega

/-- With scores the channels are sorted by them. -/
lemma sort_scored (h : r.Scored) : sort r op optionalChannelNum e =
    (selectionSort r, fillUp isOption optionalChannelNum
      (slice (selectionSort r).rfaCh 1 numUsingChannel) 0 op, e) := by
  rw [sort, if_pos (scored_iff.2 h)]

/-- Without them the options are random. -/
lemma sort_unscored (h : ¬ r.Scored) : (sort r op optionalChannelNum e).2.1 =
    (getRandomWithoutReduplicate 1 11 11 op optionalChannelNum e).2.1 := by
  rw [sort, if_neg fun hany => h (scored_iff.1 hany)]

/-- Whatever it does, `sort` keeps the rows. -/
lemma sort_pairs (r : AcpRfa) (op : Nat → Nat) (e : Env) :
    (sort r op optionalChannelNum e).1.pairs.Perm r.pairs := by
  by_cases h : r.Scored
  · rw [sort_scored h]
    dsimp only
    exact selectionSort_pairs r
  · rw [sort, if_neg fun hany => h (scored_iff.1 hany)]

/-- The usable channels are copied out in the order of the table. -/
lemma options_scored (hr : r.Listed) (h : r.Scored) :
    options (sort r op optionalChannelNum e).2.1 =
      ((selectionSort r).pairs.map Prod.snd).filter isOption := by
  have hf := filter_isOption_perm ((selectionSort_perm r).trans hr)
  rw [sort_scored h, options, pairs_map_snd]
  dsimp only
  rw [numUsingChannel, slice_fillUp isOption optionalChannelNum op hf.length_eq]

/-- `sort` orders the options and keeps the pairs. -/
lemma sort_orders (hr : r.Listed) : OrdersOptions r op e (sort r op optionalChannelNum e).1
    (sort r op optionalChannelNum e).2.1 where
  perm := by
    rintro (h | h)
    · rw [options_scored hr h, pairs_map_snd]
      exact filter_isOption_perm ((selectionSort_perm r).trans hr)
    · exact sort_perm hr (.inl h)
  kept := by
    intro h hm
    rw [sort_unscored h]
    exact getRandomWithoutReduplicate_fail _ _ hm
  sorted := by
    intro h
    rw [options_scored hr h]
    exact (selectionSort_pairwise hr).filter isOption
  pairs := sort_pairs r op e

end Order

/-- For every table that lists each channel once, the node's own or one that is passed, and every
outcome of `rand()`: the options come out as the channels 1, 6 and 11, in the order of the scores if
one of them is positive, and the table keeps its rows; they stay as they were only when no score is
positive and there is no memory for the cards. -/
theorem decideOptionalCh_orders (n : Node) (e : Env) :
    (n.rfa.Listed → OrdersOptions n.rfa n.optionalCh e (decideOptionalCh n e).1.rfa
        (decideOptionalCh n e).1.optionalCh) ∧
      ∀ r : AcpRfa, r.Listed → OrdersOptions r n.optionalCh e (decideOptionalChWith n r e).2.1
        (decideOptionalChWith n r e).1.optionalCh :=
  ⟨fun hr => sort_orders hr, fun _ hr => sort_orders hr⟩

/-- An access point that hears something on channel 1. -/
def Node.heard : Node :=
  { Node.sample 1 with rfa := ⟨Function.update (fun _ => 0) 1 50, fun i => i⟩ }

/-- Channel 1 comes last. -/
theorem decideOptionalCh_orders_heard :
    Node.heard.rfa.Listed ∧ Node.heard.rfa.Scored ∧
      OrdersOptions Node.heard.rfa Node.heard.optionalCh .sample
        (decideOptionalCh Node.heard .sample).1.rfa
        (decideOptionalCh Node.heard .sample).1.optionalCh ∧
      OrdersOptions Node.heard.rfa Node.heard.optionalCh .sample
        (decideOptionalChWith Node.heard Node.heard.rfa .sample).2.1
        (decideOptionalChWith Node.heard Node.heard.rfa .sample).1.optionalCh :=
  ⟨by decide, ⟨1, by decide, by decide, by decide⟩,
    (decideOptionalCh_orders Node.heard .sample).1 (by decide),
    (decideOptionalCh_orders Node.heard .sample).2 Node.heard.rfa (by decide)⟩

/-- A node that has just been created, without a score and without memory for the cards. -/
theorem decideOptionalCh_unallocated :
    (Node.sample 1).rfa.Listed ∧
      options (decideOptionalCh { Node.sample 1 with optionalCh := fun _ => 0 }
        { Env.sample with malloc := fun _ => false }).1.optionalCh = [0, 0, 0] ∧
      ¬ (options (decideOptionalCh { Node.sample 1 with optionalCh := fun _ => 0 }
        { Env.sample with malloc := fun _ => false }).1.optionalCh).Perm [1, 6, 11] := by
  decide

end CcodeTest.Dcs
