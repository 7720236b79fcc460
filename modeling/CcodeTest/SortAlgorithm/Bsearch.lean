import CcodeTest.Lib.Word

/-!
# Binary search

The loop of `bsearch_my` over the first `len` elements of an array. `Narrowed` is what it keeps: the
elements before `s` are below the number it looks for and those behind `e` are above it. Every pass
gives up the middle and one side of it, so that there are at most `len` passes.
-/

namespace CcodeTest.SortAlgorithm
open CcodeTest.Lib

/-- `a[m]`. Reading outside of the first `len` elements is none. -/
def element (a : Nat → Int) (len m : Int) : Option Int :=
  if 0 ≤ m ∧ m < len then some (a m.toNat) else none

/-- `while (s <= e)`. The loop leaves at an index or without one; it is none when the fuel does not
suffice or an element outside of the array is read. -/
def bsearchLoop (a : Nat → Int) (len search : Int) : Nat → Int → Int → Option (Option Int)
  | 0, _, _ => none
  | fuel + 1, s, e =>
    if s ≤ e then
      let m := int32 (s + e) >>> (1 : Nat)
      match element a len m with
      | none => none
      | some x =>
        if search < x then bsearchLoop a len search fuel s (m - 1)
        else if search = x then some (some m)
        else if search > x then bsearchLoop a len search fuel (m + 1) e
        else bsearchLoop a len search fuel s e
    else some none

/-- `bsearch_my`. -/
def bsearchMy (a : Nat → Int) (len search : Int) (fuel : Nat) : Option (Option Int) :=
  bsearchLoop a len search fuel 0 (len - 1)

/-- The first `len` elements do not decrease. -/
def SortedUpTo (a : Nat → Int) (len : Int) : Prop := ∀ i j : Nat, i ≤ j → j < len → a i ≤ a j

/-- What the bounds have excluded. -/
structure Narrowed (a : Nat → Int) (len search s e : Int) : Prop where
  low : 0 ≤ s
  high : e < len
  below : ∀ i : Nat, i < s → i < len → a i < search
  above : ∀ i : Nat, e < i → i < len → search < a i

section Pass

variable {a : Nat → Int} {len search s e : Int}

lemma Narrowed.init : Narrowed a len search 0 (len - 1) := by
  refine ⟨Int.le_refl _, by omega, ?_, ?_⟩
  · intro i hi _
    omega
  · intro i hi hlen
    omega

/-- The middle lies between the bounds. -/
lemma middle_bounds (hs : 0 ≤ s) (hle : s ≤ e) (he : e < 1073741824) :
    s ≤ int32 (s + e) >>> (1 : Nat) ∧ int32 (s + e) >>> (1 : Nat) ≤ e := by
  rw [int32_of_range (by omega) (by omega), Int.shiftRight_eq_div_pow]
  omega

/-- The middle is above the number looked for, and so is everything behind it. -/
lemma Narrowed.left {m : Int} (h : Narrowed a len search s e) (hsort : SortedUpTo a len)
    (hm' : m ≤ e) (hlt : search < a m.toNat) : Narrowed a len search s (m - 1) := by
  have hlow := h.low
  have hhigh := h.high
  refine ⟨hlow, by omega, h.below, ?_⟩
  intro i hi hlen
  have hle : a m.toNat ≤ a i := hsort m.toNat i (by omega) hlen
  omega

/-- The middle is below the number looked for, and so is everything before it. -/
lemma Narrowed.right {m : Int} (h : Narrowed a len search s e) (hsort : SortedUpTo a len)
    (hm : s ≤ m) (hm' : m ≤ e) (hlt : a m.toNat < search) : Narrowed a len search (m + 1) e := by
  have hlow := h.low
  have hhigh := h.high
  refine ⟨by omega, hhigh, ?_, h.above⟩
  intro i hi hlen
  have hle : a i ≤ a m.toNat := hsort i m.toNat (by omega) (by omega)
  omega

/-- Bounds that have passed each other leave no element. -/
lemma Narrowed.absent (h : Narrowed a len search s e) (hlt : e < s) (i : Nat) (hi : i < len) :
    a i ≠ search := by
  rcases Int.lt_or_le i s with hs | hs
  · exact Int.ne_of_lt (h.below i hs hi)
  · exact Int.ne_of_gt (h.above i (by omega) hi)

/-- From bounds that have kept the number, the loop ends with enough fuel: at an index where the
number is, or without one when it does not occur. -/
lemma bsearchLoop_spec (hlen : len ≤ 1073741824) (hsort : SortedUpTo a len) (fuel : Nat)
    (h : Narrowed a len search s e) (hfuel : (e - s + 1).toNat < fuel) :
    (∃ m, bsearchLoop a len search fuel s e = some (some m) ∧ 0 ≤ m ∧ m < len ∧
      a m.toNat = search) ∨
    (bsearchLoop a len search fuel s e = some none ∧ ∀ i : Nat, i < len → a i ≠ search) := by
  induction fuel generalizing s e with
  | zero => cases hfuel
  | succ fuel ih =>
    rw [bsearchLoop]
    split
    · rename_i hle
      have hlow := h.low
      have hhigh := h.high
      obtain ⟨hm, hm'⟩ := middle_bounds hlow hle (by omega)
      generalize int32 (s + e) >>> (1 : Nat) = m at hm hm'
      have hread : element a len m = some (a m.toNat) := if_pos ⟨by omega, by omega⟩
      simp only [hread]
      split
      · rename_i hlt
        exact ih (h.left hsort hm' hlt) (by omega)
      · split
        · rename_i heq
          exact .inl ⟨m, rfl, by omega, by omega, heq.symm⟩
        · split
          · rename_i hlt
            exact ih (h.right hsort hm hm' hlt) (by omega)
          · omega
    · exact .inr ⟨rfl, h.absent (by omega)⟩

end Pass

/-- On a sorted array the loop ends, reads inside the array only, and leaves at an index of the number
exactly when there is one. -/
theorem bsearchMy_finds (a : Nat → Int) (len search : Int) (hpos : 1 ≤ len)
    (hlen : len ≤ 1073741824) (hsort : SortedUpTo a len) (fuel : Nat) (hfuel : len < fuel) :
    ∃ r, bsearchMy a len search fuel = some r ∧
      (∀ m, r = some m → 0 ≤ m ∧ m < len ∧ a m.toNat = search) ∧
      (r.isSome = true ↔ ∃ i : Nat, i < len ∧ a i = search) := by
  have hinit : Narrowed a len search 0 (len - 1) := Narrowed.init
  rcases bsearchLoop_spec hlen hsort fuel hinit (by omega) with
    ⟨m, hr, hm, hm', heq⟩ | ⟨hr, habsent⟩
  · refine ⟨some m, hr, ?_, ?_⟩
    · intro m' h
      cases h
      exact ⟨hm, hm', heq⟩
    · exact ⟨fun _ => ⟨m.toNat, by omega, heq⟩, fun _ => rfl⟩
  · refine ⟨none, hr, ?_, ?_⟩
    · intro m' h
      cases h
    · constructor
      · intro h
        cases h
      · rintro ⟨i, hi, heq⟩
        exact absurd heq (habsent i hi)

/-- The first call of `main`. -/
theorem bsearchMy_finds_five :
    ∃ r, bsearchMy (fun i => i + 1) 9 5 10 = some r ∧
      (∀ m, r = some m → 0 ≤ m ∧ m < 9 ∧ (m.toNat : Int) + 1 = 5) ∧
      (r.isSome = true ↔ ∃ i : Nat, (i : Int) < 9 ∧ (i : Int) + 1 = 5) := by
  refine bsearchMy_finds (fun i => i + 1) 9 5 (by decide) (by decide) ?_ 10 (by decide)
  intro i j hij _
  dsimp only
  omega

end CcodeTest.SortAlgorithm
