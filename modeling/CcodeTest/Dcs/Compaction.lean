import Mathlib.Data.Finset.Card
import CcodeTest.Lib.Slots
import CcodeTest.Dcs.Capacity

/-!
# Moving the matrices to the new list

`moveBackwardMatrix` walks the rows, and in each row the columns, from the high end, and carries the
cell of two surviving access points to their new positions. The position of a survivor is a `slot`;
both loops are specified by what they do to a single cell. In place, a row that is moved is cleared
behind the copy, and the row of a deleted access point is cleared when it is passed, so the content
arrives exactly when no survivor goes to a position that is visited later.
-/

namespace CcodeTest.Dcs
open CcodeTest.Lib

/-- The access point at the old position is still in the list. -/
def kept (deleted : Nat → Bool) (i : Nat) : Prop := deleted i = false

instance (deleted : Nat → Bool) : DecidablePred (kept deleted) :=
  fun i => inferInstanceAs (Decidable (deleted i = false))

section Columns

variable {deleted : Nat → Bool} {old : Option (Nat → Nat → Nat)} {k row rowNew C : Nat}
  {m : Nat → Nat → Nat}

/-- One copy of the inner loop. -/
def carry (old : Option (Nat → Nat → Nat)) (row rowNew col colNew : Nat) (m : Nat → Nat → Nat) :
    Nat → Nat → Nat :=
  match old with
  | none => setCell (setCell m rowNew colNew (m row col)) row col 0
  | some o => setCell m rowNew colNew (o row col)

/-- The inner loop ends when there is no column left to move to. -/
lemma moveCols_stop (h : slot k (kept deleted) C = 0) :
    moveCols deleted old row rowNew C (slot k (kept deleted) C) m = m := by
  rw [h]
  cases C with
  | zero => rfl
  | succ C => rfl

lemma moveCols_skip (hd : ¬ kept deleted C) (hv : 0 < slot k (kept deleted) (C + 1)) :
    moveCols deleted old row rowNew (C + 1) (slot k (kept deleted) (C + 1)) m =
      moveCols deleted old row rowNew C (slot k (kept deleted) C) (setCell m row C 0) := by
  have hdel : deleted C = true := Bool.of_not_eq_false hd
  rw [slot_succ_of_neg hd] at hv ⊢
  obtain ⟨N, hN⟩ := Nat.exists_eq_add_of_lt hv
  rw [show slot k (kept deleted) C = N + 1 by omega]
  simp only [moveCols, hdel, if_true]

lemma moveCols_keep (hk : kept deleted C) :
    moveCols deleted old row rowNew (C + 1) (slot k (kept deleted) (C + 1)) m =
      moveCols deleted old row rowNew C (slot k (kept deleted) C)
        (carry old row rowNew C (slot k (kept deleted) C) m) := by
  have hdel : deleted C = false := hk
  rw [slot_succ_of_pos hk]
  cases old with
  | none => simp only [moveCols, hdel, Bool.false_eq_true, if_false, carry]
  | some o => simp only [moveCols, hdel, Bool.false_eq_true, if_false, carry]

/-- A copy changes only the cell it fills and, in place, the one it reads. -/
lemma carry_of_ne {col colNew r c : Nat} (hsrc : r = row → c = col → old.isSome = true)
    (hdst : r = rowNew → c ≠ colNew) : carry old row rowNew col colNew m r c = m r c := by
  cases old with
  | none =>
    refine (setCell_of_ne ?_).trans (setCell_of_ne hdst)
    intro hr hc
    cases hsrc hr hc
  | some o => exact setCell_of_ne hdst

/-- The cell that was filled, unless source and destination coincide. -/
lemma carry_filled {col colNew : Nat} (hne : rowNew = row → colNew ≠ col) :
    carry old row rowNew col colNew m rowNew colNew = old.getD m row col := by
  cases old with
  | none => exact (setCell_of_ne hne).trans (setCell_self ..)
  | some o => exact setCell_self ..

/-- What is read of a cell that a write has left alone. -/
lemma getD_cell {m' : Nat → Nat → Nat} {r c : Nat} (h : m' r c = m r c) :
    old.getD m' r c = old.getD m r c := by
  cases old with
  | none => exact h
  | some o => rfl

/-- The inner loop changes only cells it passes in its row and the ones it fills. -/
lemma moveCols_frame {r c : Nat}
    (hrow : r = row → c < C → 0 < slot k (kept deleted) (c + 1) →
      kept deleted c ∧ old.isSome = true)
    (hnew : r = rowNew → ∀ j < C, kept deleted j → slot k (kept deleted) j ≠ c) :
    moveCols deleted old row rowNew C (slot k (kept deleted) C) m r c = m r c := by
  induction C generalizing m with
  | zero => rfl
  | succ C ih =>
    have hrow' : r = row → c < C → 0 < slot k (kept deleted) (c + 1) →
        kept deleted c ∧ old.isSome = true := by
      intro hr hc
      exact hrow hr (Nat.lt_succ_of_lt hc)
    have hnew' : r = rowNew → ∀ j < C, kept deleted j → slot k (kept deleted) j ≠ c := by
      intro hr j hj
      exact hnew hr j (Nat.lt_succ_of_lt hj)
    by_cases hk : kept deleted C
    · rw [moveCols_keep hk, ih hrow' hnew']
      apply carry_of_ne
      · rintro hr rfl
        exact (hrow hr (Nat.lt_succ_self c) (by rw [slot_succ_of_pos hk]; omega)).2
      · intro hr hc
        exact hnew hr C (Nat.lt_succ_self C) hk hc.symm
    · rcases Nat.eq_zero_or_pos (slot k (kept deleted) (C + 1)) with hz | hv
      · rw [moveCols_stop hz]
      · rw [moveCols_skip hk hv, ih hrow' hnew']
        apply setCell_of_ne
        rintro hr rfl
        exact hk (hrow hr (Nat.lt_succ_self c) hv).1

/-- A surviving column arrives in its slot, when the row moves to another one. -/
lemma moveCols_filled {j : Nat} (hne : rowNew ≠ row) (hj : j < C) (hkj : kept deleted j) :
    moveCols deleted old row rowNew C (slot k (kept deleted) C) m rowNew
      (slot k (kept deleted) j) = old.getD m row j := by
  induction C generalizing m with
  | zero => omega
  | succ C ih =>
    by_cases hk : kept deleted C
    · rw [moveCols_keep hk]
      rcases Nat.lt_succ_iff_lt_or_eq.1 hj with hlt | rfl
      · rw [ih hlt]
        apply getD_cell
        apply carry_of_ne
        · intro _ hc
          omega
        · intro hr
          exact absurd hr.symm hne
      · rw [moveCols_frame (fun hr => absurd hr hne), carry_filled (fun hr => absurd hr hne)]
        intro _ i hi hki he
        exact absurd (slot_inj hki hk he) (by omega)
    · have hlt : j < C := by
        rcases Nat.lt_succ_iff_lt_or_eq.1 hj with hlt | rfl
        · exact hlt
        · exact absurd hkj hk
      have hv : 0 < slot k (kept deleted) (C + 1) := by
        have := slot_lt (k := k) hkj hj
        omega
      rw [moveCols_skip hk hv, ih hlt]
      apply getD_cell
      apply setCell_of_ne
      intro _ hc
      omega

/-- A column of the row that is passed is cleared, unless it is filled later on. -/
lemma moveCols_cleared {v : Nat} (hz : kept deleted v → old = none) (hv : v < C)
    (hvis : 0 < slot k (kept deleted) (v + 1))
    (hnew : row = rowNew → ∀ j < v, kept deleted j → slot k (kept deleted) j ≠ v) :
    moveCols deleted old row rowNew C (slot k (kept deleted) C) m row v = 0 := by
  induction C generalizing m with
  | zero => omega
  | succ C ih =>
    have hC : 0 < slot k (kept deleted) (C + 1) :=
      Nat.lt_of_lt_of_le hvis (slot_mono (by omega))
    by_cases hk : kept deleted C
    · rw [moveCols_keep hk]
      rcases Nat.lt_succ_iff_lt_or_eq.1 hv with hlt | rfl
      · exact ih hlt
      · rw [moveCols_frame (fun _ hlt => absurd hlt (Nat.lt_irrefl v)) hnew, hz hk]
        exact setCell_self ..
    · rw [moveCols_skip hk hC]
      rcases Nat.lt_succ_iff_lt_or_eq.1 hv with hlt | rfl
      · exact ih hlt
      · rw [moveCols_frame (fun _ hlt => absurd hlt (Nat.lt_irrefl v)) hnew]
        exact setCell_self ..

end Columns

section Rows

variable {clear : Nat → (Nat → Nat → Nat) → (Nat → Nat → Nat)} {deleted : Nat → Bool}
  {old : Option (Nat → Nat → Nat)} {k n N R : Nat} {m : Nat → Nat → Nat}

/-- The outer loop ends when there is no row left to move to. -/
lemma moveRows_stop (h : slot k (kept deleted) R = 0) :
    moveRows clear deleted old n N R (slot k (kept deleted) R) m = m := by
  rw [h]
  cases R with
  | zero => rfl
  | succ R => rfl

lemma moveRows_skip (hd : ¬ kept deleted R) (hv : 0 < slot k (kept deleted) (R + 1)) :
    moveRows clear deleted old n N (R + 1) (slot k (kept deleted) (R + 1)) m =
      moveRows clear deleted old n N R (slot k (kept deleted) R) (clear R m) := by
  have hdel : deleted R = true := Bool.of_not_eq_false hd
  rw [slot_succ_of_neg hd] at hv ⊢
  obtain ⟨M, hM⟩ := Nat.exists_eq_add_of_lt hv
  rw [show slot k (kept deleted) R = M + 1 by omega]
  simp only [moveRows, hdel, if_true]

lemma moveRows_keep (hk : kept deleted R) :
    moveRows clear deleted old n N (R + 1) (slot k (kept deleted) (R + 1)) m =
      moveRows clear deleted old n N R (slot k (kept deleted) R)
        (moveCols deleted old R (slot k (kept deleted) R) n N m) := by
  have hdel : deleted R = false := hk
  rw [slot_succ_of_pos hk]
  simp only [moveRows, hdel, Bool.false_eq_true, if_false]

/-- Rows other than the one that is moved and its slot stay. -/
lemma moveCols_other_row {row rowNew r c : Nat} (hr : r ≠ row) (hr' : r ≠ rowNew) :
    moveCols deleted old row rowNew n (slot k (kept deleted) n) m r c = m r c :=
  moveCols_frame (fun h => absurd h hr) fun h => absurd h hr'

/-- Clearing a row works cell by cell, `g` saying what is left of a cell, and leaves the other rows
alone. -/
structure ClearsRow (clear : Nat → (Nat → Nat → Nat) → (Nat → Nat → Nat))
    (g : Nat → Nat → Nat) : Prop where
  other : ∀ v m r c, r ≠ v → clear v m r c = m r c
  own : ∀ v m c, clear v m v c = g c (m v c)

variable {g : Nat → Nat → Nat} (hclear : ClearsRow clear g)

include hclear

/-- The outer loop changes only rows it passes and rows it fills. -/
lemma moveRows_frame {r c : Nat} (hvis : r < R → slot k (kept deleted) (r + 1) = 0)
    (hslot : ∀ i < R, kept deleted i → slot k (kept deleted) i ≠ r) :
    moveRows clear deleted old n (slot k (kept deleted) n) R (slot k (kept deleted) R) m r c =
      m r c := by
  induction R generalizing m with
  | zero => rfl
  | succ R ih =>
    have hvis' : r < R → slot k (kept deleted) (r + 1) = 0 := by
      intro hr
      exact hvis (Nat.lt_succ_of_lt hr)
    have hslot' : ∀ i < R, kept deleted i → slot k (kept deleted) i ≠ r := by
      intro i hi
      exact hslot i (Nat.lt_succ_of_lt hi)
    by_cases hk : kept deleted R
    · rw [moveRows_keep hk, ih hvis' hslot']
      apply moveCols_other_row
      · rintro rfl
        have := hvis (Nat.lt_succ_self r)
        rw [slot_succ_of_pos hk] at this
        omega
      · intro hr
        exact hslot R (Nat.lt_succ_self R) hk hr.symm
    · rcases Nat.eq_zero_or_pos (slot k (kept deleted) (R + 1)) with hz | hv
      · rw [moveRows_stop hz]
      · rw [moveRows_skip hk hv, ih hvis' hslot']
        apply hclear.other
        rintro rfl
        have := hvis (Nat.lt_succ_self r)
        omega

/-- Two survivors' cell arrives in its slot when no survivor goes to a row that is visited
later. -/
lemma moveRows_filled {i j : Nat} (ha : Apart k n (kept deleted)) (hR : R ≤ n) (hi : i < R)
    (hki : kept deleted i) (hj : j < n) (hkj : kept deleted j) :
    moveRows clear deleted old n (slot k (kept deleted) n) R (slot k (kept deleted) R) m
      (slot k (kept deleted) i) (slot k (kept deleted) j) = old.getD m i j := by
  induction R generalizing m with
  | zero => omega
  | succ R ih =>
    by_cases hk : kept deleted R
    · rw [moveRows_keep hk]
      -- the row of `R` goes neither to itself nor to one that is still to be read
      have hne : ∀ v ≤ R, kept deleted v → slot k (kept deleted) R ≠ v := by
        intro v hv hkv
        refine ha R (by omega) hk v hv ?_
        rw [slot_succ_of_pos hkv]
        exact Nat.succ_pos _
      rcases Nat.lt_succ_iff_lt_or_eq.1 hi with hlt | rfl
      · rw [ih (by omega) hlt]
        apply getD_cell
        apply moveCols_other_row
        · omega
        · exact (hne i (by omega) hki).symm
      · rw [moveRows_frame hclear, moveCols_filled (hne i (Nat.le_refl i) hk) hj hkj]
        · intro hlt
          by_contra hvis
          exact ha i (by omega) hk _ (by omega) (Nat.pos_of_ne_zero hvis) rfl
        · intro x hx hkx he
          exact absurd (slot_inj hkx hk he) (by omega)
    · have hlt : i < R := by
        rcases Nat.lt_succ_iff_lt_or_eq.1 hi with hlt | rfl
        · exact hlt
        · exact absurd hki hk
      have hv : 0 < slot k (kept deleted) (R + 1) := by
        have := slot_lt (k := k) hki hi
        omega
      rw [moveRows_skip hk hv, ih (by omega) hlt]
      apply getD_cell
      exact hclear.other _ _ _ _ (by omega)

/-- In place, the diagonal cell of a row that is visited ends as 0 when only a survivor at or
above it goes there. -/
lemma moveRows_cleared {i v : Nat} (hzero : ∀ x, g v x = 0) (hR : R ≤ n) (hv : v < R)
    (hvis : 0 < slot k (kept deleted) (v + 1)) (hki : kept deleted i) (hvi : v ≤ i)
    (hs : slot k (kept deleted) i = v) :
    moveRows clear deleted none n (slot k (kept deleted) n) R (slot k (kept deleted) R) m v v =
      0 := by
  have hother : ∀ j < v, kept deleted j → slot k (kept deleted) j ≠ v := by
    intro j hj hkj he
    exact absurd (slot_inj hkj hki (he.trans hs.symm)) (by omega)
  induction R generalizing m with
  | zero => omega
  | succ R ih =>
    have hpos : 0 < slot k (kept deleted) (R + 1) :=
      Nat.lt_of_lt_of_le hvis (slot_mono (by omega))
    by_cases hk : kept deleted R
    · rw [moveRows_keep hk]
      rcases Nat.lt_succ_iff_lt_or_eq.1 hv with hlt | rfl
      · exact ih (by omega) hlt
      · rw [moveRows_frame hclear (fun hlt => absurd hlt (Nat.lt_irrefl v)) hother]
        exact moveCols_cleared (fun _ => rfl) (by omega) hvis fun _ => hother
    · rw [moveRows_skip hk hpos]
      rcases Nat.lt_succ_iff_lt_or_eq.1 hv with hlt | rfl
      · exact ih (by omega) hlt
      · rw [moveRows_frame hclear (fun hlt => absurd hlt (Nat.lt_irrefl v)) hother]
        exact (hclear.own v m v).trans (hzero _)

/-- The cells that are not filled, when every survivor goes up: in a survivor's row they are cleared
as far as the copies reach, in the row of a deleted access point as far as the `memset` does. -/
lemma moveRows_left {r c : Nat} (hk0 : 0 < k)
    (hup : ∀ i < R, kept deleted i → i < slot k (kept deleted) i)
    (hcell : ∀ i < R, kept deleted i → slot k (kept deleted) i = r →
      ∀ j < n, kept deleted j → slot k (kept deleted) j ≠ c) :
    moveRows clear deleted old n (slot k (kept deleted) n) R (slot k (kept deleted) R) m r c =
      if r < R then
        if kept deleted r then if c < n ∧ (kept deleted c → old = none) then 0 else m r c
        else g c (m r c)
      else m r c := by
  induction R generalizing m with
  | zero => rfl
  | succ R ih =>
    have hup' : ∀ i < R, kept deleted i → i < slot k (kept deleted) i := by
      intro i hi
      exact hup i (Nat.lt_succ_of_lt hi)
    have hcell' : ∀ i < R, kept deleted i → slot k (kept deleted) i = r →
        ∀ j < n, kept deleted j → slot k (kept deleted) j ≠ c := by
      intro i hi
      exact hcell i (Nat.lt_succ_of_lt hi)
    have hpos : ∀ x, 0 < slot k (kept deleted) x := by
      intro x
      exact Nat.lt_of_lt_of_le hk0 (le_slot x)
    by_cases hk : kept deleted R
    · have hR : R < slot k (kept deleted) R := hup R (Nat.lt_succ_self R) hk
      rw [moveRows_keep hk, ih hup' hcell']
      rcases Nat.lt_trichotomy r R with hlt | rfl | hgt
      · rw [moveCols_other_row (by omega) (by omega), if_pos hlt, if_pos (Nat.lt_succ_of_lt hlt)]
      · rw [if_neg (Nat.lt_irrefl r), if_pos (Nat.lt_succ_self r), if_pos hk]
        split
        · rename_i hc
          exact moveCols_cleared hc.2 hc.1 (hpos _) fun he => absurd he (by omega)
        · rename_i hc
          apply moveCols_frame
          · intro _ hcn _
            rw [Option.isSome_iff_ne_none]
            exact Classical.not_imp.1 fun h => hc ⟨hcn, h⟩
          · intro he
            omega
      · rw [if_neg (by omega), if_neg (by omega)]
        apply moveCols_frame
        · intro he
          omega
        · intro he
          exact hcell R (Nat.lt_succ_self R) hk he.symm
    · rw [moveRows_skip hk (hpos _), ih hup' hcell']
      rcases Nat.lt_trichotomy r R with hlt | rfl | hgt
      · rw [hclear.other _ _ _ _ (by omega), if_pos hlt, if_pos (Nat.lt_succ_of_lt hlt)]
      · rw [if_neg (Nat.lt_irrefl r), if_pos (Nat.lt_succ_self r), if_neg hk]
        exact hclear.own r m c
      · rw [hclear.other _ _ _ _ (by omega), if_neg (by omega), if_neg (by omega)]

end Rows

section Clearing

/-- What `memset( p[row], 0x00, n )` leaves of a byte in column `c`. -/
def leftOfByte (n c x : Nat) : Nat := if c < n then 0 else x

lemma memsetBytes_clearsRow (n : Nat) : ClearsRow (memsetBytes n) (leftOfByte n) where
  other _ _ _ _ hr := if_neg fun h => hr h.1
  own v m c := by simp [memsetBytes, leftOfByte]

/-- What it leaves of an `unsigned long` there. -/
def leftOfULong (p : Platform) (n c x : Nat) : Nat :=
  let k := min p.ulongSize (n - c * p.ulongSize)
  if p.bigEndian then x % 256 ^ (p.ulongSize - k) else x / 256 ^ k * 256 ^ k

lemma memsetULongs_clearsRow (p : Platform) (n : Nat) :
    ClearsRow (memsetULongs p n) (leftOfULong p n) where
  other _ _ _ _ hr := if_neg hr
  own _ _ _ := if_pos rfl

lemma leftOfULong_zero (p : Platform) (n c : Nat) : leftOfULong p n c 0 = 0 := by
  simp [leftOfULong]

/-- A cell that lies within the bytes is cleared. -/
lemma leftOfULong_of_le {p : Platform} {n c x : Nat} (h : (c + 1) * p.ulongSize ≤ n)
    (hx : x < 256 ^ p.ulongSize) : leftOfULong p n c x = 0 := by
  have hk : min p.ulongSize (n - c * p.ulongSize) = p.ulongSize := by
    rw [Nat.add_mul] at h
    omega
  simp only [leftOfULong, hk]
  split
  · rw [Nat.sub_self, Nat.pow_zero, Nat.mod_one]
  · rw [Nat.div_eq_of_lt hx, Nat.zero_mul]

/-- Of a cell that does not, something can be left. -/
lemma leftOfULong_of_lt {p : Platform} {n c : Nat} (h : n < (c + 1) * p.ulongSize) :
    ∃ x < 256 ^ p.ulongSize, leftOfULong p n c x ≠ 0 := by
  have hk : min p.ulongSize (n - c * p.ulongSize) < p.ulongSize := by
    have hpos := p.ulongSize_pos
    rw [Nat.add_mul] at h
    omega
  cases hb : p.bigEndian with
  | true =>
    refine ⟨1, Nat.one_lt_pow p.ulongSize_pos.ne' (by omega), ?_⟩
    have h1 : 1 < 256 ^ (p.ulongSize - min p.ulongSize (n - c * p.ulongSize)) :=
      Nat.one_lt_pow (by omega) (by omega)
    simp only [leftOfULong, hb, if_true]
    rw [Nat.mod_eq_of_lt h1]
    omega
  | false =>
    refine ⟨256 ^ min p.ulongSize (n - c * p.ulongSize), Nat.pow_lt_pow_right (by omega) hk, ?_⟩
    have h0 : 0 < 256 ^ min p.ulongSize (n - c * p.ulongSize) := Nat.pow_pos (by omega)
    simp only [leftOfULong, hb, Bool.false_eq_true, if_false]
    rw [Nat.div_self h0, Nat.one_mul]
    exact h0.ne'

end Clearing

section Moved

/-- `delIndexArray[0..delCount)` holds the positions of `D` and nothing else. -/
def InfoUpdateMatrix.Records (i : InfoUpdateMatrix) (D : Finset Nat) : Prop :=
  ∀ x : Int, (∃ j < i.delCount, i.delIndexArray j = x) ↔ ∃ d ∈ D, (d : Int) = x

/-- Where the survivor of the old position `i` stands after the deletions `D` and `k` insertions at
the head: behind these, at its position among the survivors. -/
def newIndex (D : Finset Nat) (k i : Nat) : Nat := k + Nat.count (· ∉ D) i

/-- The `n × n` block of `old` has moved along: the cell of two survivors is where they are now, and
every other cell of the new list's block is 0. -/
structure Moved (D : Finset Nat) (n k : Nat) (old new : Nat → Nat → Nat) : Prop where
  survivors : ∀ i < n, i ∉ D → ∀ j < n, j ∉ D →
    new (newIndex D k i) (newIndex D k j) = old i j
  others : ∀ r < n - D.card + k, ∀ c < n - D.card + k,
    (∀ i < n, i ∉ D → newIndex D k i = r → ∀ j < n, j ∉ D → newIndex D k j ≠ c) → new r c = 0

variable {h : Head} {D : Finset Nat} {n k : Nat}

lemma kept_iff (hrec : h.infoUpdateMatrix.Records D) {i : Nat} : kept h.deleted i ↔ i ∉ D := by
  have hd : h.deleted i = true ↔ i ∈ D := by
    simp only [Head.deleted, List.any_eq_true, List.mem_range, beq_iff_eq]
    rw [hrec]
    constructor
    · rintro ⟨d, hd, he⟩
      rwa [show i = d by omega]
    · intro hi
      exact ⟨i, hi, rfl⟩
  rw [← hd, kept, Bool.not_eq_true]

lemma slot_kept (hrec : h.infoUpdateMatrix.Records D) (i : Nat) :
    slot k (kept h.deleted) i = newIndex D k i :=
  slot_congr fun _ => kept_iff hrec

/-- The survivors and the insertions make up the new list. -/
lemma newIndex_end (hD : D ⊆ Finset.range n) : newIndex D k n = n - D.card + k := by
  have hf : {x ∈ Finset.range n | x ∉ D} = Finset.range n \ D := by
    ext x
    simp
  rw [newIndex, Nat.count_eq_card_filter_range, hf, Finset.card_sdiff_of_subset hD,
    Finset.card_range, Nat.add_comm]

/-- The outer loop on one matrix moves the content along, when no survivor goes to a row that is
visited later and nothing is left where the new list needs a 0. -/
lemma moveRows_moved {clear : Nat → (Nat → Nat → Nat) → (Nat → Nat → Nat)} {g : Nat → Nat → Nat}
    {old : Option (Nat → Nat → Nat)} {m src : Nat → Nat → Nat} (hsrc : old.getD m = src)
    (hclear : ClearsRow clear g) (hrec : h.infoUpdateMatrix.Records D) (hD : D ⊆ Finset.range n)
    (hcount : h.count = n - D.card + k) (ha : Apart k n (kept h.deleted))
    (hleft : 0 < k → ∀ r < h.count, ∀ c < h.count, (r < k ∨ c < k) →
      (if r < n then
        if r ∉ D then if c < n ∧ (c ∉ D → old = none) then 0 else m r c else g c (m r c)
      else m r c) = 0) :
    Moved D n k src (moveRows clear h.deleted old n h.count n h.count m) := by
  have hend : h.count = slot k (kept h.deleted) n := by
    rw [slot_kept hrec, newIndex_end hD, hcount]
  rw [← hsrc, hend]
  constructor
  · intro i hi hiD j hj hjD
    rw [← slot_kept hrec, ← slot_kept hrec]
    exact moveRows_filled hclear ha (Nat.le_refl n) hi ((kept_iff hrec).2 hiD) hj
      ((kept_iff hrec).2 hjD)
  · intro r hr c hc hcell
    rw [← hcount] at hr hc
    -- the slots from `k` on are all taken
    have hlow : r < k ∨ c < k := by
      by_contra hnot
      obtain ⟨i, hi, hki, rfl⟩ := exists_slot (k := k) (r := r) (by omega) (hend ▸ hr)
      obtain ⟨j, hj, hkj, rfl⟩ := exists_slot (k := k) (r := c) (by omega) (hend ▸ hc)
      exact hcell i hi ((kept_iff hrec).1 hki) (slot_kept hrec i).symm j hj
        ((kept_iff hrec).1 hkj) (slot_kept hrec j).symm
    have hk : 0 < k := by omega
    have hup : ∀ i < n, kept h.deleted i → i < slot k (kept h.deleted) i := by
      rcases apart_iff.1 ha with ⟨_, hbelow⟩ | ⟨h0, _⟩
      · intro i
        exact lt_slot_of_below hbelow
      · omega
    rw [moveRows_left hclear hk hup]
    · simp only [kept_iff hrec]
      exact hleft hk r hr c hc hlow
    · intro i hi hki he j hj hkj
      rw [slot_kept hrec] at he ⊢
      exact hcell i hi ((kept_iff hrec).1 hki) he j hj ((kept_iff hrec).1 hkj)

end Moved

section InPlace

/-- A matrix whose content is the `n × n` block of the old list. -/
structure ValidBlock (n bound : Nat) (m : Nat → Nat → Nat) : Prop where
  bounded : ∀ r c, m r c < bound
  outside : ∀ r c, n ≤ r ∨ n ≤ c → m r c = 0

/-- A block with a single entry. -/
lemma ValidBlock.single {n bound i j x : Nat} (hi : i < n) (hj : j < n) (hx : x < bound) :
    ValidBlock n bound (setCell (fun _ _ => 0) i j x) where
  bounded r c := by
    unfold setCell
    split
    · exact hx
    · exact Nat.lt_of_le_of_lt (Nat.zero_le x) hx
  outside r c hrc := by
    apply setCell_of_ne
    omega

lemma ValidBlock.zero {n bound : Nat} (hb : 0 < bound) : ValidBlock n bound fun _ _ => 0 where
  bounded _ _ := hb
  outside _ _ _ := rfl

/-- Of the cells that no survivor fills, only the ones in the row of a deleted access point can keep
something. -/
lemma ValidBlock.left_zero {n bound r c : Nat} {D : Finset Nat} {m : Nat → Nat → Nat}
    {g : Nat → Nat → Nat} (hv : ValidBlock n bound m)
    (hg : r < n → r ∈ D → c < n → g c (m r c) = 0) (hg' : g c 0 = 0) :
    (if r < n then
      if r ∉ D then if c < n ∧ (c ∉ D → (none : Option (Nat → Nat → Nat)) = none) then 0
        else m r c
      else g c (m r c)
    else m r c) = 0 := by
  by_cases hc : c < n
  · split
    · rename_i hr
      split
      · exact if_pos ⟨hc, fun _ => rfl⟩
      · rename_i hrD
        exact hg hr (not_not.1 hrD) hc
    · exact hv.outside r c (by omega)
  · have h0 : m r c = 0 := hv.outside r c (by omega)
    rw [h0, hg']
    simp

/-- The head with other content in its matrices. -/
def Head.withContent (h : Head) (a r : Nat → Nat → Nat) : Head :=
  { h with
    pAdjacentMatrix := { h.pAdjacentMatrix with cell := a }
    pRSSIMatrix := { h.pRSSIMatrix with cell := r } }

/-- Whatever the matrices hold of the old list, `moveBackwardMatrix` moves it along in place. -/
def MovesInPlace (p : Platform) (h : Head) (D : Finset Nat) (n k : Nat) : Prop :=
  ∀ a r, ValidBlock n 2 a → ValidBlock n (256 ^ p.ulongSize) r →
    Moved D n k a
        (moveBackwardMatrix p n h.count none none (h.withContent a r)).pAdjacentMatrix.cell ∧
      Moved D n k r (moveBackwardMatrix p n h.count none none (h.withContent a r)).rssi

variable {p : Platform} {h : Head} {D : Finset Nat} {n k : Nat}

lemma moveBackwardMatrix_adjacent (hpos : 1 ≤ h.count) (a r : Nat → Nat → Nat) :
    (moveBackwardMatrix p n h.count none none (h.withContent a r)).pAdjacentMatrix.cell =
      moveRows (memsetBytes n) h.deleted none n h.count n h.count a := by
  have hc : ¬ (h.withContent a r).count = 0 := Nat.ne_of_gt hpos
  rw [moveBackwardMatrix, if_neg hc]
  rfl

lemma moveBackwardMatrix_rssi (hpos : 1 ≤ h.count) (a r : Nat → Nat → Nat) :
    (moveBackwardMatrix p n h.count none none (h.withContent a r)).rssi =
      moveRows (memsetULongs p n) h.deleted none n h.count n h.count r := by
  have hc : ¬ (h.withContent a r).count = 0 := Nat.ne_of_gt hpos
  rw [moveBackwardMatrix, if_neg hc]
  rfl

/-- A survivor that goes to a row still to be visited loses its entry. -/
lemma MovesInPlace.apart (hm : MovesInPlace p h D n k) (hpos : 1 ≤ h.count)
    (hrec : h.infoUpdateMatrix.Records D) (hend : h.count = slot k (kept h.deleted) n) :
    Apart k n (kept h.deleted) := by
  intro i hi hki v hv hvis hs
  have hiD : i ∉ D := (kept_iff hrec).1 hki
  have hmoved := (hm _ _ (ValidBlock.single hi hi (Nat.lt_succ_self 1))
    (ValidBlock.zero (Nat.pow_pos (by omega)))).1.survivors i hi hiD i hi hiD
  have hcleared := moveRows_cleared (memsetBytes_clearsRow n) (v := v)
    (m := setCell (fun _ _ => 0) i i 1)
    (fun x => if_pos (show v < n by omega)) (Nat.le_refl n) (by omega) hvis hki hv hs
  rw [moveBackwardMatrix_adjacent hpos, ← slot_kept hrec, hs, hend, hcleared, setCell_self]
    at hmoved
  omega

/-- What the `memset` of a deleted row does not reach stays in the way of the new list. -/
lemma MovesInPlace.reach (hm : MovesInPlace p h D n k) (hpos : 1 ≤ h.count)
    (hrec : h.infoUpdateMatrix.Records D) (hD : D ⊆ Finset.range n)
    (hcount : h.count = n - D.card + k) (hend : h.count = slot k (kept h.deleted) n) (hk : 0 < k)
    (hbelow : ∀ i < n, kept h.deleted i → i + 1 < slot k (kept h.deleted) n) {r : Nat}
    (hr : r ∈ D) (hrc : r < h.count) :
    min n (if r < k then h.count else k) * p.ulongSize ≤ n := by
  by_contra hgt
  have hrn : r < n := Finset.mem_range.1 (hD hr)
  have hkc : k ≤ h.count := hend ▸ le_slot n
  obtain ⟨c, hc⟩ : ∃ c, min n (if r < k then h.count else k) = c + 1 := by
    refine Nat.exists_eq_succ_of_ne_zero ?_
    split <;> omega
  have hlow : c < n ∧ c < h.count ∧ (r < k ∨ c < k) := by
    split at hc <;> omega
  obtain ⟨x, hx, hleft⟩ := leftOfULong_of_lt (p := p) (n := n) (c := c) (by rw [← hc]; omega)
  have hcell : ∀ i < n, kept h.deleted i → slot k (kept h.deleted) i = r →
      ∀ j < n, kept h.deleted j → slot k (kept h.deleted) j ≠ c := by
    intro i _ _ hi j _ _ hj
    have h1 := le_slot (k := k) (p := kept h.deleted) i
    have h2 := le_slot (k := k) (p := kept h.deleted) j
    omega
  have hmoved := (hm _ _ (ValidBlock.zero (Nat.succ_pos 1))
    (ValidBlock.single hrn hlow.1 hx)).2.others r (by omega) c (by omega) ?_
  · rw [moveBackwardMatrix_rssi hpos, hend, moveRows_left (memsetULongs_clearsRow p n) hk
      (fun i hi => lt_slot_of_below hbelow hi) hcell, if_pos hrn,
      if_neg (fun hkr => (kept_iff hrec).1 hkr hr), setCell_self] at hmoved
    exact hleft hmoved
  · intro i hi hiD hs j hj hjD
    rw [← slot_kept hrec] at hs ⊢
    exact hcell i hi ((kept_iff hrec).2 hiD) hs j hj ((kept_iff hrec).2 hjD)

/-- The content of the matrices moves along in place, whatever it is, in two cases only: there are
insertions, every survivor moves up, and the `memset` of the deleted rows, which counts bytes, covers
the columns of the new list that no survivor fills; or there are none, and every survivor stands
behind the whole new list. -/
theorem moveBackwardMatrix_moved_iff (p : Platform) (h : Head) (D : Finset Nat) (n k : Nat)
    (hD : D ⊆ Finset.range n) (hrec : h.infoUpdateMatrix.Records D)
    (hcount : h.count = n - D.card + k) (hpos : 1 ≤ h.count) (_hlen : h.count ≤ h.matrixLen)
    (_hold : n ≤ h.matrixLen) :
    MovesInPlace p h D n k ↔
      (1 ≤ k ∧ (∀ i < n, i ∉ D → i + 1 < h.count) ∧
        ∀ r ∈ D, r < h.count → min n (if r < k then h.count else k) * p.ulongSize ≤ n) ∨
      (k = 0 ∧ ∀ i < n, i ∉ D → h.count ≤ i) := by
  have hend : h.count = slot k (kept h.deleted) n := by
    rw [slot_kept hrec, newIndex_end hD, hcount]
  constructor
  · intro hm
    rcases apart_iff.1 (hm.apart hpos hrec hend) with ⟨hk, hbelow⟩ | ⟨hk, habove⟩
    · refine .inl ⟨hk, ?_, fun r => hm.reach hpos hrec hD hcount hend hk hbelow⟩
      intro i hi hiD
      rw [hend]
      exact hbelow i hi ((kept_iff hrec).2 hiD)
    · refine .inr ⟨hk, ?_⟩
      intro i hi hiD
      rw [hend]
      exact habove i hi ((kept_iff hrec).2 hiD)
  · intro hcond a r hva hvr
    have hapart : Apart k n (kept h.deleted) := by
      apply apart_iff.2
      rcases hcond with ⟨hk, hbelow, _⟩ | ⟨hk, habove⟩
      · refine .inl ⟨hk, ?_⟩
        intro i hi hki
        exact hend ▸ hbelow i hi ((kept_iff hrec).1 hki)
      · refine .inr ⟨hk, ?_⟩
        intro i hi hki
        exact hend ▸ habove i hi ((kept_iff hrec).1 hki)
    rw [moveBackwardMatrix_adjacent hpos, moveBackwardMatrix_rssi hpos]
    constructor
    · refine moveRows_moved rfl (memsetBytes_clearsRow n) hrec hD hcount hapart ?_
      intro _ x _ y _ _
      refine hva.left_zero ?_ (by simp [leftOfByte])
      intro _ _ hy
      exact if_pos hy
    · refine moveRows_moved rfl (memsetULongs_clearsRow p n) hrec hD hcount hapart ?_
      intro hk x hx y hy hlow
      refine hvr.left_zero ?_ (leftOfULong_zero p n y)
      intro _ hxD hyn
      apply leftOfULong_of_le _ (hvr.bounded x y)
      rcases hcond with ⟨_, _, hreach⟩ | ⟨h0, _⟩
      · have hy' : y + 1 ≤ min n (if x < k then h.count else k) := by
          split <;> omega
        exact Nat.le_trans (Nat.mul_le_mul_right _ hy') (hreach x hxD hx)
      · omega

/-- Four access points that hear each other at 50, the first of which has been deleted. -/
def Head.shrunk : Head :=
  { Head.init with
    slList := [Node.sample 2, Node.sample 3, Node.sample 4]
    pAdjacentMatrix := ⟨some ⟨4, 4⟩, fun _ _ => 0⟩
    pRSSIMatrix := ⟨some ⟨4, 4⟩, fun r c => if r < 4 ∧ c < 4 ∧ r ≠ c then 50 else 0⟩
    matrixLen := 4
    oldListCount := 4
    infoUpdateMatrix := ⟨fun _ => 0, 1, 0, 0⟩ }

lemma records_first : Head.shrunk.infoUpdateMatrix.Records {0} := by
  intro x
  simp only [Finset.mem_singleton, exists_eq_left]
  constructor
  · rintro ⟨j, _, rfl⟩
    rfl
  · rintro rfl
    exact ⟨0, Nat.one_pos, rfl⟩

/-- Of two access points the first is deleted: the other one moves into its place. -/
theorem moveBackwardMatrix_moved_iff_pair :
    MovesInPlace .sample { Head.shrunk with slList := [Node.sample 2] } {0} 2 0 :=
  (moveBackwardMatrix_moved_iff .sample { Head.shrunk with slList := [Node.sample 2] } {0} 2 0
    (by decide) records_first rfl (by decide) (by decide) (by decide)).2
    (.inr ⟨rfl, by decide⟩)

/-- Of the three that are left the last no longer hears the one before it: its entry there was
moved to a row that was still to be read. -/
theorem moveBackwardMatrix_loses_survivor :
    Head.shrunk.infoUpdateMatrix.Records {0} ∧ ({0} : Finset Nat) ⊆ Finset.range 4 ∧
      Head.shrunk.count = 4 - ({0} : Finset Nat).card + 0 ∧ 1 ≤ Head.shrunk.count ∧
      Head.shrunk.count ≤ Head.shrunk.matrixLen ∧ 4 ≤ Head.shrunk.matrixLen ∧
      ValidBlock 4 2 Head.shrunk.pAdjacentMatrix.cell ∧
      ValidBlock 4 (256 ^ Platform.sample.ulongSize) Head.shrunk.rssi ∧
      Head.shrunk.rssi 3 2 = 50 ∧
      (moveBackwardMatrix .sample 4 Head.shrunk.count none none Head.shrunk).rssi
        (newIndex {0} 0 3) (newIndex {0} 0 2) = 0 ∧
      ¬ Moved {0} 4 0 Head.shrunk.rssi
        (moveBackwardMatrix .sample 4 Head.shrunk.count none none Head.shrunk).rssi := by
  have hlost : (moveBackwardMatrix .sample 4 Head.shrunk.count none none Head.shrunk).rssi
      (newIndex {0} 0 3) (newIndex {0} 0 2) = 0 := by decide
  refine ⟨records_first, by decide, by decide, by decide, by decide, by decide,
    ValidBlock.zero (by decide), ⟨?_, ?_⟩, by decide, hlost, ?_⟩
  · intro r c
    change (if r < 4 ∧ c < 4 ∧ r ≠ c then 50 else 0) < 256 ^ 4
    split <;> decide
  · intro r c hrc
    exact if_neg (by omega)
  · intro hm
    have h50 := hm.survivors 3 (by decide) (by decide) 2 (by decide) (by decide)
    rw [hlost] at h50
    exact absurd h50 (by decide)

end InPlace

section Realloc

variable {h : Head} {e : Env}

lemma setupMatrix_cell (d : Nat) : (setupMatrix d e).1.cell = fun _ _ => 0 := by
  unfold setupMatrix
  dsimp only
  split
  · rfl
  · rfl

lemma setupIfNull_cell {q : Mat} (d : Nat) (hq : q.cell = fun _ _ => 0) :
    (setupIfNull q d e).1.cell = fun _ _ => 0 := by
  unfold setupIfNull
  split
  · exact setupMatrix_cell d
  · exact hq

/-- The matrices that are set up are all 0. -/
lemma setupMatrices_cell (ha : h.pAdjacentMatrix.cell = fun _ _ => 0)
    (hr : h.pRSSIMatrix.cell = fun _ _ => 0) :
    (setupMatrices h e).1.pAdjacentMatrix.cell = (fun _ _ => 0) ∧
      (setupMatrices h e).1.pRSSIMatrix.cell = fun _ _ => 0 := by
  unfold setupMatrices
  dsimp only
  split
  · exact ⟨setupIfNull_cell _ ha, hr⟩
  · exact ⟨setupIfNull_cell _ ha, setupIfNull_cell _ hr⟩

/-- The head that `updateAdjacentAndRSSIMatrix` hands to the set-up when the list has outgrown the
matrices. -/
def Head.withoutMatrices (h : Head) : Head :=
  { h with
    matrixLen := 0
    pAdjacentMatrix := ⟨none, fun _ _ => 0⟩
    pRSSIMatrix := ⟨none, fun _ _ => 0⟩ }

/-- With memory, the set-up then makes matrices of zeros for the whole list. -/
lemma setup_withoutMatrices (he : e.plenty) (hc : h.count ≠ 0) : ∃ t old e',
    setupAdjacentAndRSSIMatrix h.withoutMatrices e =
      ({ h with
          rssiCurThreshold := t, matrixLen := h.count, oldListCount := old
          pAdjacentMatrix := ⟨some ⟨h.count, h.count⟩, fun _ _ => 0⟩
          pRSSIMatrix := ⟨some ⟨h.count, h.count⟩, fun _ _ => 0⟩ }, true, e') := by
  obtain ⟨hok, hsz, hlen⟩ := setupAdjacentAndRSSIMatrix_sized (h := h.withoutMatrices) he
    ⟨rfl, rfl⟩ hc
  obtain ⟨len, old, a, r, hframe⟩ := setupAdjacentAndRSSIMatrix_frame h.withoutMatrices e
  have hcell : (setupAdjacentAndRSSIMatrix h.withoutMatrices e).1.pAdjacentMatrix.cell =
      (fun _ _ => 0) ∧
      (setupAdjacentAndRSSIMatrix h.withoutMatrices e).1.pRSSIMatrix.cell = fun _ _ => 0 := by
    obtain ⟨len', old', hl⟩ := setMatrixLen_frame h.withoutMatrices.protect.resetThreshold
    rw [setupAdjacentAndRSSIMatrix_nonempty h.withoutMatrices e hc, hl]
    exact setupMatrices_cell rfl rfl
  have ha := hsz.adjacent
  have hr := hsz.rssi
  have hlen' : (setupAdjacentAndRSSIMatrix h.withoutMatrices e).1.matrixLen = h.count := hlen
  rw [hlen', matSize_pos hc] at ha hr
  rw [hframe] at ha hr hlen' hcell
  obtain ⟨aa, ac⟩ := a
  obtain ⟨ra, rc⟩ := r
  dsimp only at ha hr hlen' hcell
  obtain ⟨rfl, rfl⟩ := hcell
  subst ha hr hlen'
  exact ⟨_, _, (setupAdjacentAndRSSIMatrix h.withoutMatrices e).2.2,
    Prod.ext hframe (Prod.ext hok rfl)⟩

/-- A list that has outgrown its matrices moves every survivor up. -/
lemma apart_of_grown {D : Finset Nat} {n k : Nat} (hrec : h.infoUpdateMatrix.Records D)
    (hD : D ⊆ Finset.range n) (hcount : h.count = n - D.card + k) (hgrown : n < h.count) :
    Apart k n (kept h.deleted) := by
  have hend : slot k (kept h.deleted) n = h.count := by
    rw [slot_kept hrec, newIndex_end hD, hcount]
  apply apart_iff.2
  refine .inl ⟨by omega, ?_⟩
  intro i hi _
  omega

/-- When the list has outgrown the matrices, and with memory, the update makes new ones for the
whole list, moves the content of the old ones along and forgets the recorded changes. -/
theorem updateAdjacentAndRSSIMatrix_grows (p : Platform) (h : Head) (e : Env) (D : Finset Nat)
    (n k : Nat) (hold : n = h.oldListCount) (hlen : n ≤ h.matrixLen) (hpos : 0 < h.matrixLen)
    (hD : D ⊆ Finset.range n) (hrec : h.infoUpdateMatrix.Records D)
    (hcount : h.count = n - D.card + k) (hgrown : h.matrixLen < h.count) (hs : MatricesSized h)
    (he : e.plenty) :
    let u := updateAdjacentAndRSSIMatrix p h e
    u.2.1 = true ∧
      u.1.pRSSIMatrix.alloc = some ⟨h.count, h.count⟩ ∧
      Moved D n k h.rssi u.1.rssi ∧
      u.1.pAdjacentMatrix.alloc = some ⟨h.count, h.count⟩ ∧
      Moved D n k h.pAdjacentMatrix.cell u.1.pAdjacentMatrix.cell ∧
      u.1.matrixLen = h.count ∧ u.1.oldListCount = h.count ∧
      u.1.infoUpdateMatrix = .zero := by
  have hc : h.count ≠ 0 := by omega
  obtain ⟨t, old, e', hset⟩ := setup_withoutMatrices (h := h.protect) he hc
  have ha : h.protect.pAdjacentMatrix.content = some h.pAdjacentMatrix.cell := by
    change Option.map _ h.pAdjacentMatrix.alloc = _
    rw [hs.adjacent, matSize_pos hpos.ne']
    rfl
  have hr : h.protect.pRSSIMatrix.content = some h.rssi := by
    change Option.map _ h.pRSSIMatrix.alloc = _
    rw [hs.rssi, matSize_pos hpos.ne']
    rfl
  have hm : ¬ h.protect.matrixLen = 0 := hpos.ne'
  have hgt : ¬ h.protect.count ≤ h.protect.matrixLen := Nat.not_le.2 hgrown
  have hset' : setupAdjacentAndRSSIMatrix
      { h.protect with
        matrixLen := 0
        pAdjacentMatrix := ⟨none, fun _ _ => 0⟩
        pRSSIMatrix := ⟨none, fun _ _ => 0⟩ } e = _ := hset
  rw [updateAdjacentAndRSSIMatrix, if_neg hm, if_neg hgt, hset', ha, hr]
  dsimp only
  rw [if_pos rfl, moveBackwardMatrix]
  -- the list has not changed in between
  rw [if_neg (by exact hc)]
  have hapart := apart_of_grown hrec hD hcount (Nat.lt_of_le_of_lt hlen hgrown)
  subst hold
  refine ⟨rfl, rfl, ?_, rfl, ?_, rfl, rfl, rfl⟩
  · refine moveRows_moved (show (some h.rssi).getD _ = h.rssi from rfl)
      (memsetULongs_clearsRow p _) hrec hD hcount hapart ?_
    intro _ r _ c _ _
    simp only [leftOfULong_zero, ite_self]
  · refine moveRows_moved
      (show (some h.pAdjacentMatrix.cell).getD _ = h.pAdjacentMatrix.cell from rfl)
      (memsetBytes_clearsRow _) hrec hD hcount hapart ?_
    intro _ r _ c _ _
    simp only [leftOfByte, ite_self]

/-- The same four access points, the first deleted and two added. -/
def Head.grown : Head :=
  { Head.shrunk with
    slList := [Node.sample 6, Node.sample 5, Node.sample 2, Node.sample 3, Node.sample 4] }

theorem updateAdjacentAndRSSIMatrix_grows_four :
    Head.grown.matrixLen < Head.grown.count ∧
      Moved {0} 4 2 Head.grown.rssi
        (updateAdjacentAndRSSIMatrix .sample Head.grown .sample).1.rssi :=
  ⟨by decide, (updateAdjacentAndRSSIMatrix_grows .sample Head.grown .sample {0} 4 2 rfl
    (by decide) (by decide) (by decide) records_first rfl (by decide) ⟨rfl, rfl⟩
    (fun _ => rfl)).2.2.1⟩

end Realloc

end CcodeTest.Dcs
