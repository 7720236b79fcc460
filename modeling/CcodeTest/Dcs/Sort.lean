import CcodeTest.Lib.Store
import CcodeTest.Dcs.Types

/-!
# Ordering the optional channels

`sort` orders the interference table of an access point by a selection sort and copies the three
usable channels out of it in that order; when no score is positive it draws a random order instead
(`getRandomWithoutReduplicate`). Two facts carry everything built on it: whatever it writes is one
of the channels 1, 6 and 11 (`sort_legal`), and from a table that lists each channel once the
option list comes out as a permutation of the three (`sort_perm`).
-/

namespace CcodeTest.Dcs
open CcodeTest.Lib

/-- `1 == c || 6 == c || 11 == c`. -/
def isOption (c : Nat) : Bool := c == 1 || c == 6 || c == 11

/-- The three entries of an option list. -/
def options (op : Nat → Nat) : List Nat := slice op 0 optionalChannelNum

/-- The table lists each channel once. -/
def AcpRfa.Listed (r : AcpRfa) : Prop := (slice r.rfaCh 1 11).Perm (List.range' 1 11)

instance (r : AcpRfa) : Decidable r.Listed := inferInstanceAs (Decidable (List.Perm _ _))

/-- Every entry of the option list is a usable channel. -/
def LegalOptions (op : Nat → Nat) : Prop := ∀ c ∈ options op, isOption c = true

instance (op : Nat → Nat) : Decidable (LegalOptions op) :=
  inferInstanceAs (Decidable (∀ c ∈ options op, isOption c = true))

/-- `getRandomNumber`: a number between the two bounds, after `time(NULL) & 0xfff` draws that are
thrown away. -/
def getRandomNumber (randMin randMax : Int) (e : Env) : Int × Env :=
  let t := e.nextTime
  let r := (t.2.skipRand (t.1 % 4096)).nextRand
  ((r.1 : Int) % ((randMax - randMin).natAbs + 1) + (if randMin < randMax then randMin else randMax),
    r.2)

/-- The loop of `getRandomWithoutReduplicate` that draws the card for position
`arraySize - 1 - i`. -/
def drawCards (arraySize : Nat) : List Nat → (Nat → Int) → Env → (Nat → Int) × Env
  | [], pArray, e => (pArray, e)
  | i :: is, pArray, e =>
    let r := getRandomNumber 0 ((arraySize : Int) - 1 - i) e
    drawCards arraySize is (swapAt pArray r.1.toNat (arraySize - 1 - i)) r.2

/-- The cards in the order they are read back, each stored in an `unsigned char`. -/
def drawnFrom (pArray : Nat → Int) (arraySize numOfGet : Nat) : List Nat :=
  (List.range numOfGet).map fun i => (pArray (arraySize - 1 - i) % 256).toNat

/-- `getRandomWithoutReduplicate`: shuffle the numbers from `min` to `max` and copy the usable
channels among the `numOfGet` drawn ones into the option list, from its end. Without memory the
list stays as it is. -/
def getRandomWithoutReduplicate (min max : Int) (numOfGet : Nat) (pOptionalCh : Nat → Nat)
    (opNum : Nat) (e : Env) : Option Nat × (Nat → Nat) × Env :=
  let arraySize := (max - min + 1).natAbs
  let m := e.nextMalloc
  if m.1 then
    let numOfGet := if numOfGet > arraySize then arraySize else numOfGet
    let cards := drawCards arraySize (List.range numOfGet) (fun i => (i : Int) + min) m.2
    (some numOfGet, fillDown isOption (drawnFrom cards.1 arraySize numOfGet) opNum pOptionalCh,
      cards.2)
  else (none, pOptionalCh, m.2)

/-- The inner loop of the selection sort: the position of the first smallest score from `i` on. -/
def minPosition (rfScore : Nat → Int) (i : Nat) : Nat :=
  (List.range' (i + 1) (numUsingChannel - i)).foldl
    (fun k j => if rfScore k > rfScore j then j else k) i

/-- Exchange two rows of the table. -/
def AcpRfa.swap (r : AcpRfa) (i j : Nat) : AcpRfa :=
  ⟨swapAt r.rfScore i j, swapAt r.rfaCh i j⟩

/-- The selection sort of the table by score. -/
def selectionSort (r : AcpRfa) : AcpRfa :=
  (List.range' 1 numUsingChannel).foldl
    (fun r i =>
      let k := minPosition r.rfScore i
      if k ≠ i then r.swap k i else r) r

/-- `sort`: order the table and list the usable channels by score, or draw them at random when no
score is positive. -/
def sort (r : AcpRfa) (pOpCh : Nat → Nat) (num : Nat) (e : Env) : AcpRfa × (Nat → Nat) × Env :=
  if (List.range' 1 numUsingChannel).any fun i => decide (r.rfScore i > 0) then
    let r := selectionSort r
    (r, fillUp isOption num (slice r.rfaCh 1 numUsingChannel) 0 pOpCh, e)
  else
    let drawn := getRandomWithoutReduplicate 1 11 11 pOpCh num e
    (r, drawn.2.1, drawn.2.2)

/-- `decideOptionalCh` with a table of its own; the node's table is only read. -/
def decideOptionalChWith (n : Node) (r : AcpRfa) (e : Env) : Node × AcpRfa × Env :=
  let sorted := sort r n.optionalCh optionalChannelNum e
  ({ n with optionalCh := sorted.2.1 }, sorted.1, sorted.2.2)

/-- `decideOptionalCh( pACPNode, NULL )`: the node's own table is sorted in place. -/
def decideOptionalCh (n : Node) (e : Env) : Node × Env :=
  let sorted := sort n.rfa n.optionalCh optionalChannelNum e
  ({ n with rfa := sorted.1, optionalCh := sorted.2.1 }, sorted.2.2)

/-- The inner loop finds a position of the range it searches. -/
lemma minPosition_range (f : Nat → Int) {i : Nat} (h : 1 ≤ i) (h' : i ≤ 11) :
    1 ≤ minPosition f i ∧ minPosition f i < 1 + 11 := by
  suffices hs : ∀ (l : List Nat) (k : Nat), (∀ j ∈ l, 1 ≤ j ∧ j < 1 + 11) → 1 ≤ k ∧ k < 1 + 11 →
      1 ≤ l.foldl (fun k j => if f k > f j then j else k) k ∧
        l.foldl (fun k j => if f k > f j then j else k) k < 1 + 11 by
    refine hs _ i ?_ ⟨h, by omega⟩
    intro j hj
    simp only [numUsingChannel, List.mem_range'_1] at hj
    omega
  intro l
  induction l with
  | nil => exact fun k _ hk => hk
  | cons j js ih =>
    intro k hl hk
    rw [List.foldl_cons]
    apply ih
    · exact fun x hx => hl x (List.mem_cons_of_mem _ hx)
    · split
      · exact hl j (List.mem_cons_self ..)
      · exact hk

/-- The selection sort permutes the channels of the table. -/
lemma selectionSort_perm (r : AcpRfa) :
    (slice (selectionSort r).rfaCh 1 11).Perm (slice r.rfaCh 1 11) := by
  suffices hs : ∀ (l : List Nat) (r : AcpRfa), (∀ j ∈ l, 1 ≤ j ∧ j ≤ 11) →
      (slice (l.foldl (fun r i =>
        let k := minPosition r.rfScore i
        if k ≠ i then r.swap k i else r) r).rfaCh 1 11).Perm (slice r.rfaCh 1 11) by
    apply hs
    intro j hj
    simp only [numUsingChannel, List.mem_range'_1] at hj
    omega
  intro l
  induction l with
  | nil => exact fun r _ => .refl _
  | cons i is ih =>
    intro r hl
    have hi := hl i (List.mem_cons_self ..)
    refine (ih _ fun j hj => hl j (List.mem_cons_of_mem _ hj)).trans ?_
    dsimp only
    split
    · exact slice_swapAt_perm _ (minPosition_range _ hi.1 hi.2) ⟨hi.1, by omega⟩
    · exact .refl _

/-- A random number between 0 and `n` is one. -/
lemma getRandomNumber_range (n : Nat) (e : Env) :
    0 ≤ (getRandomNumber 0 n e).1 ∧ (getRandomNumber 0 n e).1 < n + 1 := by
  have h0 : (if (0 : Int) < (n : Int) then (0 : Int) else (n : Int)) = 0 := by
    split <;> omega
  have hn : ((n : Int) - 0).natAbs = n := by omega
  simp only [getRandomNumber, h0, hn, Int.add_zero]
  exact ⟨Int.emod_nonneg _ (by omega), Int.emod_lt_of_pos _ (by omega)⟩

/-- Drawing cards permutes the card box. -/
lemma drawCards_perm (size : Nat) (is : List Nat) (hs : ∀ i ∈ is, i < size) (f : Nat → Int)
    (e : Env) : (slice (drawCards size is f e).1 0 size).Perm (slice f 0 size) := by
  induction is generalizing f e with
  | nil => exact .refl _
  | cons i is ih =>
    have hi := hs i (List.mem_cons_self ..)
    have hr := getRandomNumber_range (size - 1 - i) e
    have hc : ((size : Int) - 1 - i) = ((size - 1 - i : Nat) : Int) := by omega
    simp only [drawCards, hc]
    refine (ih (fun j hj => hs j (List.mem_cons_of_mem _ hj)) _ _).trans ?_
    exact slice_swapAt_perm _ ⟨by omega, by omega⟩ ⟨by omega, by omega⟩

/-- The usable channels of a permutation of the channels are the three, in some order. -/
lemma filter_isOption_perm {l : List Nat} (h : l.Perm (List.range' 1 11)) :
    (l.filter isOption).Perm [1, 6, 11] :=
  (h.filter isOption).trans (.of_eq (by decide))

/-- Reading the whole card box back lists it in reverse. -/
lemma drawnFrom_all (f : Nat → Int) (n : Nat) :
    drawnFrom f n n = ((slice f 0 n).map fun x => (x % 256).toNat).reverse := by
  apply List.ext_getElem
  · simp [drawnFrom, slice]
  · intro i h₁ h₂
    simp [drawnFrom, slice]

/-- The drawn cards are the channels, each once. -/
lemma drawn_perm (e : Env) :
    (drawnFrom (drawCards 11 (List.range 11) (fun i => (i : Int) + 1) e).1 11 11).Perm
      (List.range' 1 11) := by
  have hp := drawCards_perm 11 (List.range 11) (fun i hi => List.mem_range.1 hi)
    (fun i => (i : Int) + 1) e
  rw [drawnFrom_all]
  refine (List.reverse_perm _).trans ((hp.map _).trans (.of_eq ?_))
  decide

/-- With memory, the random order is what `fillDown` copies out of the drawn cards. -/
lemma getRandomWithoutReduplicate_ok (op : Nat → Nat) (num : Nat) {e : Env}
    (h : e.malloc 0 = true) :
    (getRandomWithoutReduplicate 1 11 11 op num e).2.1 =
      fillDown isOption (drawnFrom (drawCards 11 (List.range 11) (fun i => (i : Int) + 1)
        e.nextMalloc.2).1 11 11) num op := by
  simp [getRandomWithoutReduplicate, Env.nextMalloc, h]

/-- Without memory, the options stay as they are. -/
lemma getRandomWithoutReduplicate_fail (op : Nat → Nat) (num : Nat) {e : Env}
    (h : e.malloc 0 = false) : (getRandomWithoutReduplicate 1 11 11 op num e).2.1 = op := by
  simp [getRandomWithoutReduplicate, Env.nextMalloc, h]

/-- The random order is an order of the three channels. -/
lemma getRandomWithoutReduplicate_perm {op : Nat → Nat} {e : Env}
    (hop : e.malloc 0 = true ∨ (options op).Perm [1, 6, 11]) :
    (options (getRandomWithoutReduplicate 1 11 11 op optionalChannelNum e).2.1).Perm
      [1, 6, 11] := by
  cases h : e.malloc 0 with
  | false =>
    rw [getRandomWithoutReduplicate_fail _ _ h]
    exact hop.resolve_left (by rw [h]; nofun)
  | true =>
    have hf := filter_isOption_perm (drawn_perm e.nextMalloc.2)
    rw [getRandomWithoutReduplicate_ok _ _ h, options,
      slice_fillDown isOption optionalChannelNum op hf.length_eq]
    exact (List.reverse_perm _).trans hf

/-- `sort` on a table that lists each channel once leaves the three channels in the options; only
for want of memory does it depend on what was there before. -/
lemma sort_perm {r : AcpRfa} {op : Nat → Nat} {e : Env} (hr : r.Listed)
    (hop : e.malloc 0 = true ∨ (options op).Perm [1, 6, 11]) :
    (options (sort r op optionalChannelNum e).2.1).Perm [1, 6, 11] := by
  unfold sort
  split
  · have hf := filter_isOption_perm ((selectionSort_perm r).trans hr)
    dsimp only
    rw [options, numUsingChannel,
      slice_fillUp isOption optionalChannelNum op hf.length_eq]
    exact hf
  · exact getRandomWithoutReduplicate_perm hop

/-- Sorting uses memory up, and leaves plenty of plenty. -/
lemma sort_plenty {r : AcpRfa} {op : Nat → Nat} {num : Nat} {e : Env} (h : e.plenty) :
    (sort r op num e).2.2.plenty := by
  have hcards : ∀ (is : List Nat) (f : Nat → Int) (e : Env),
      (drawCards 11 is f e).2.malloc = e.malloc := by
    intro is
    induction is with
    | nil => exact fun _ _ => rfl
    | cons i is ih => exact fun _ _ => ih _ _
  unfold sort
  split
  · exact h
  · obtain ⟨hm, hrest⟩ := h.nextMalloc
    unfold getRandomWithoutReduplicate
    dsimp only
    rw [if_pos hm]
    intro i
    exact (congrFun (hcards _ _ _) i).trans (hrest i)

/-- The random order has nothing but usable channels. -/
lemma getRandomWithoutReduplicate_legal {op : Nat → Nat} (num : Nat) (e : Env) {i : Nat}
    (h : isOption (op i) = true) :
    isOption ((getRandomWithoutReduplicate 1 11 11 op num e).2.1 i) = true := by
  cases hm : e.malloc 0 with
  | false =>
    rw [getRandomWithoutReduplicate_fail _ _ hm]
    exact h
  | true =>
    rw [getRandomWithoutReduplicate_ok _ _ hm]
    exact fillDown_forall (P := fun c => isOption c = true) (fun _ h => h) _ _ h

/-- `sort` writes nothing but usable channels. -/
lemma sort_legal (r : AcpRfa) {op : Nat → Nat} (num : Nat) (e : Env) (hop : LegalOptions op) :
    LegalOptions (sort r op num e).2.1 := by
  intro c hc
  simp only [options, slice, List.mem_map] at hc
  obtain ⟨i, hi, rfl⟩ := hc
  have h : isOption (op i) = true := hop _ (List.mem_map_of_mem hi)
  unfold sort
  split
  · dsimp only
    exact fillUp_forall (P := fun c => isOption c = true) (fun _ h => h) _ _ _ h
  · exact getRandomWithoutReduplicate_legal num e h

/-- An order of the three channels is legal. -/
lemma LegalOptions.of_perm {op : Nat → Nat} (h : (options op).Perm [1, 6, 11]) :
    LegalOptions op := by
  intro c hc
  have hm : c ∈ [1, 6, 11] := h.mem_iff.1 hc
  simp only [List.mem_cons, List.not_mem_nil, or_false] at hm
  rcases hm with rfl | rfl | rfl <;> rfl

end CcodeTest.Dcs
