import Mathlib.Data.Nat.Count

/-!
# Slots of the positions that are kept

A table loses some of its positions and gets `k` new ones in front: the positions that are kept
(those with `p`) go, in their order, to the slots `k`, `k + 1` and so on (`slot`). A loop that
carries the content over in place walks positions and slots downwards together and stops when either
runs out. It reads every kept position before that is overwritten, and leaves every filled slot
alone, exactly when no slot lies on a position that is visited later (`Apart`).
-/

namespace CcodeTest.Lib

variable {p : Nat → Prop} [DecidablePred p] {k i j n r : Nat}

/-- Where the kept position `i` goes. -/
def slot (k : Nat) (p : Nat → Prop) [DecidablePred p] (i : Nat) : Nat := k + Nat.count p i

/-- An element that stays takes the next slot. -/
lemma slot_succ_of_pos (h : p i) : slot k p (i + 1) = slot k p i + 1 := by
  simp [slot, Nat.count_succ, h, Nat.add_assoc]

/-- One that goes takes none. -/
lemma slot_succ_of_neg (h : ¬ p i) : slot k p (i + 1) = slot k p i := by
  simp [slot, Nat.count_succ, h]

/-- The slots depend on who stays. -/
lemma slot_congr {q : Nat → Prop} [DecidablePred q] (h : ∀ x, p x ↔ q x) :
    slot k p i = slot k q i := by
  induction i with
  | zero => rfl
  | succ i ih =>
    by_cases hi : p i
    · rw [slot_succ_of_pos hi, slot_succ_of_pos ((h i).1 hi), ih]
    · rw [slot_succ_of_neg hi, slot_succ_of_neg (mt (h i).2 hi), ih]

/-- The slots begin at `k`. -/
lemma le_slot (i : Nat) : k ≤ slot k p i := Nat.le_add_right k _

/-- They are in order. -/
lemma slot_mono (h : i ≤ j) : slot k p i ≤ slot k p j :=
  Nat.add_le_add_left (Nat.count_monotone p h) k

/-- Two elements that stay have different ones. -/
lemma slot_lt (hi : p i) (h : i < j) : slot k p i < slot k p j :=
  Nat.add_lt_add_left (Nat.count_strict_mono hi h) k

/-- No two kept positions go to the same slot. -/
lemma slot_inj (hi : p i) (hj : p j) (h : slot k p i = slot k p j) : i = j :=
  Nat.count_injective hi hj (Nat.add_left_cancel h)

/-- The slots of the kept positions below `n` have no gap. -/
lemma exists_slot (h : k ≤ r) (h' : r < slot k p n) : ∃ i < n, p i ∧ slot k p i = r := by
  induction n with
  | zero =>
    simp only [slot, Nat.count_zero] at h'
    omega
  | succ n ih =>
    by_cases hn : p n
    · rw [slot_succ_of_pos hn] at h'
      rcases Nat.lt_succ_iff_lt_or_eq.1 h' with hlt | heq
      · obtain ⟨i, hi, hp, hs⟩ := ih hlt
        exact ⟨i, by omega, hp, hs⟩
      · exact ⟨n, by omega, hn, heq.symm⟩
    · rw [slot_succ_of_neg hn] at h'
      obtain ⟨i, hi, hp, hs⟩ := ih h'
      exact ⟨i, by omega, hp, hs⟩

/-- Slots grow no faster than positions. -/
lemma slot_le_add (h : i ≤ j) : slot k p j ≤ slot k p i + (j - i) := by
  induction j, h using Nat.le_induction with
  | base => omega
  | succ j hij ih =>
    by_cases hj : p j
    · rw [slot_succ_of_pos hj]
      omega
    · rw [slot_succ_of_neg hj]
      omega

/-- A stretch without kept positions takes no slot. -/
lemma slot_eq_of_none (hij : i ≤ j) (h : ∀ x, i ≤ x → x < j → ¬ p x) :
    slot k p i = slot k p j := by
  induction j, hij using Nat.le_induction with
  | base => rfl
  | succ j hij ih =>
    rw [slot_succ_of_neg (h j hij (Nat.lt_succ_self j))]
    exact ih fun x hx hxj => h x hx (Nat.lt_succ_of_lt hxj)

/-- No kept position below `n` goes to a position that the walk still visits: one at or below it,
reached while a slot is left. -/
def Apart (k n : Nat) (p : Nat → Prop) [DecidablePred p] : Prop :=
  ∀ i < n, p i → ∀ v ≤ i, 0 < slot k p (v + 1) → slot k p i ≠ v

/-- When every kept position stands below the last slot, each goes up. -/
lemma lt_slot_of_below (h : ∀ i < n, p i → i + 1 < slot k p n) (hi : i < n) (hp : p i) :
    i < slot k p i := by
  have hin : i + 1 < slot k p n := h i hi hp
  have hnone : ∀ x, min (slot k p n - 1) n ≤ x → x < n → ¬ p x := by
    intro x hx hxn hpx
    have := h x hxn hpx
    omega
  have heq := slot_eq_of_none (k := k) (Nat.min_le_right (slot k p n - 1) n) hnone
  have hle := slot_le_add (k := k) (p := p) (show i ≤ min (slot k p n - 1) n by omega)
  omega

/-- The walk keeps apart in two cases only: there are new positions and every kept one goes up, or
there are none and every kept position lies behind all slots. -/
lemma apart_iff : Apart k n p ↔
    (0 < k ∧ ∀ i < n, p i → i + 1 < slot k p n) ∨
      (k = 0 ∧ ∀ i < n, p i → slot k p n ≤ i) := by
  constructor
  · intro ha
    rcases Nat.eq_zero_or_pos k with rfl | hk
    · refine .inr ⟨rfl, ?_⟩
      intro i hi hp
      by_contra hlt
      -- the lowest kept position is itself a slot
      have hex : ∃ x, p x := ⟨i, hp⟩
      have hmin : Nat.find hex ≤ i := Nat.find_min' hex hp
      obtain ⟨j, hj, hpj, hs⟩ := exists_slot (Nat.zero_le (Nat.find hex))
        (show Nat.find hex < slot 0 p n by omega)
      refine ha j hj hpj (Nat.find hex) (Nat.find_min' hex hpj) ?_ hs
      rw [slot_succ_of_pos (Nat.find_spec hex)]
      exact Nat.succ_pos _
    · refine .inl ⟨hk, ?_⟩
      intro i hi hp
      by_contra hlt
      -- the last slot lies at or below the highest kept position
      have hki : slot k p i < slot k p n := slot_lt hp hi
      have hk' : k ≤ slot k p i := le_slot i
      obtain ⟨j, hj, hpj, hs⟩ := exists_slot (k := k) (p := p) (n := n)
        (show k ≤ slot k p n - 1 by omega) (by omega)
      have hij : i ≤ j := by
        by_contra hji
        have h1 : slot k p (j + 1) ≤ slot k p i := slot_mono (by omega)
        rw [slot_succ_of_pos hpj] at h1
        omega
      refine ha j hj hpj (slot k p n - 1) (by omega) ?_ hs
      exact Nat.lt_of_lt_of_le hk (le_slot _)
  · rintro (⟨_, h⟩ | ⟨rfl, h⟩) i hi hp v hv hvis
    · have := lt_slot_of_below h hi hp
      omega
    · -- a position that is visited has a kept one at or below it
      obtain ⟨x, hx, hpx, _⟩ := exists_slot (Nat.zero_le _) hvis
      have hxn := h x (by omega) hpx
      have hin : slot 0 p i < slot 0 p n := slot_lt hp hi
      omega

end CcodeTest.Lib
