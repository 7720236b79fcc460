import Mathlib.Data.List.GetD
import Mathlib.Data.Set.Card
import CcodeTest.Lib.Standing
import CcodeTest.Bitmap.Map

/-!
# A bitmap is a finite set

`bitAt` reads the bytes of a map as a set of bit numbers. For bit numbers that are not negative the
two conversions of the macros have no effect, a bit number passes the length check exactly when it
is below `capacity`, and the three basic functions are insertion, removal and the membership test;
`bitmap_refines_set` states this after any sequence of them.

The last part is about `bitmap_clr_all`, which wipes the length together with the bits.
-/

namespace CcodeTest.Bitmap
open CcodeTest.Lib

/-- How many bits a map made by `bitmap_new(n)` holds. -/
def capacity (n : Int) : Int := 8 * (n / 8 + 1)

/-- A bit number that is an `int` and not negative. -/
def IsBit (b : Int) : Prop := 0 ≤ b ∧ b < 2147483648

/-- Bit `b` of the bytes. -/
def bitAt (data : List UInt8) (b : Nat) : Bool := (data.getD (b / 8) 0).toBitVec.getLsbD (b % 8)

/-! The macros on bit numbers that are not negative. -/

section Macros

variable {b n : Int}

/-- The byte of a bit, as a number. -/
lemma bitmapByte_eq (h : IsBit b) : bitmapByte b = b / 8 := by
  obtain ⟨h0, h1⟩ := h
  rw [bitmapByte, uint64_of_range h0 (by omega), int32_of_range (by omega) (by omega)]

/-- Its place in the byte. -/
lemma bitmapOffset_eq (h : IsBit b) : bitmapOffset b = b % 8 := by
  obtain ⟨h0, h1⟩ := h
  rw [bitmapOffset, uint64_of_range h0 (by omega), int32_of_range (by omega) (by omega)]

/-- The length that so many bits need. -/
lemma bitnumToLen_eq (h : IsBit b) : bitnumToLen b = b / 8 + 5 := by
  obtain ⟨h0, h1⟩ := h
  rw [bitnumToLen, uint64_of_range h0 (by omega), bitmapHeadLen, uint64_of_range (by omega)
    (by omega), int32_of_range (by omega) (by omega)]
  omega

/-- The length check compares whole bytes. -/
lemma bitnumToLen_gt_iff (hb : IsBit b) : bitnumToLen b > n / 8 + 5 ↔ capacity n ≤ b := by
  rw [bitnumToLen_eq hb, capacity]
  omega

/-- The bits that such a length holds. -/
lemma lenToBitnum_eq (hn : IsBit n) (hc : capacity n < 2147483648) :
    lenToBitnum (n / 8 + 5) = capacity n := by
  obtain ⟨h0, h1⟩ := hn
  unfold capacity at hc ⊢
  rw [lenToBitnum, bitmapHeadLen, uint64_of_range (x := n / 8 + 5) (by omega) (by omega),
    uint64_of_range (x := n / 8 + 5 - 4) (by omega) (by omega),
    uint64_of_range (by omega) (by omega), int32_of_range (by omega) (by omega)]
  omega

end Macros

/-! One byte. -/

section Byte

variable {w : UInt8} {j k : Nat}

/-- A mask has one bit. -/
lemma getLsbD_mask (hj : j < 8) (hk : k < 8) :
    (mask (k : Int)).toBitVec.getLsbD j = decide (j = k) := by
  have hall : ∀ k < 8, ∀ j < 8, (mask ((k : Nat) : Int)).toBitVec.getLsbD j = decide (j = k) := by
    decide +kernel
  exact hall k hk j hj

/-- Or with a mask sets that bit. -/
lemma getLsbD_or_mask (hj : j < 8) (hk : k < 8) :
    (w ||| mask (k : Int)).toBitVec.getLsbD j = (decide (j = k) || w.toBitVec.getLsbD j) := by
  rw [UInt8.toBitVec_or, BitVec.getLsbD_or, getLsbD_mask hj hk, Bool.or_comm]

/-- And with its complement clears it. -/
lemma getLsbD_and_not_mask (hj : j < 8) (hk : k < 8) :
    (w &&& ~~~ mask (k : Int)).toBitVec.getLsbD j = (!decide (j = k) && w.toBitVec.getLsbD j) := by
  rw [UInt8.toBitVec_and, UInt8.toBitVec_not, BitVec.getLsbD_and, BitVec.getLsbD_not,
    getLsbD_mask hj hk, decide_eq_true hj, Bool.true_and, Bool.and_comm]

/-- The test against a mask is the test of its bit. -/
lemma and_mask_ne_zero_iff (hk : k < 8) :
    w &&& mask (k : Int) ≠ 0 ↔ w.toBitVec.getLsbD k = true := by
  constructor
  · intro h
    by_contra hbit
    apply h
    apply UInt8.toBitVec_inj.1
    apply BitVec.eq_of_getLsbD_eq
    intro j hj
    rw [UInt8.toBitVec_and, BitVec.getLsbD_and, getLsbD_mask hj hk]
    by_cases hjk : j = k
    · subst hjk
      simp [hbit]
    · simp [hjk]
  · intro hbit h
    have hand := congrArg (fun x : UInt8 => x.toBitVec.getLsbD k) h
    rw [UInt8.toBitVec_and, BitVec.getLsbD_and, getLsbD_mask hk hk, hbit] at hand
    simp at hand

end Byte

/-! The bytes of a map. -/

section Data

variable {data : List UInt8} {b c : Nat} {v : UInt8}

/-- The bits after one byte is written. -/
lemma bitAt_set (hb : b / 8 < data.length) :
    bitAt (data.set (b / 8) v) c =
      if c / 8 = b / 8 then v.toBitVec.getLsbD (c % 8) else bitAt data c := by
  simp only [bitAt, List.getD_eq_getElem?_getD, List.getElem?_set]
  split
  · rename_i h
    simp [h]
  · rename_i h
    rw [if_neg fun h' => h h'.symm]

/-- In one byte the places tell the bits apart. -/
lemma div_mod_inj (h : c / 8 = b / 8) : c % 8 = b % 8 ↔ c = b := by omega

/-- Setting a bit inserts its number. -/
lemma bitAt_or_mask (hb : b / 8 < data.length) :
    bitAt (data.set (b / 8) (data.getD (b / 8) 0 ||| mask ((b % 8 : Nat) : Int))) c =
      (decide (c = b) || bitAt data c) := by
  rw [bitAt_set hb]
  split
  · rename_i h
    rw [getLsbD_or_mask (Nat.mod_lt _ (by decide)) (Nat.mod_lt _ (by decide)),
      decide_eq_decide.2 (div_mod_inj h), bitAt, h]
  · rename_i h
    have hne : c ≠ b := fun he => h (by rw [he])
    simp [hne]

/-- Clearing a bit removes its number. -/
lemma bitAt_and_not_mask (hb : b / 8 < data.length) :
    bitAt (data.set (b / 8) (data.getD (b / 8) 0 &&& ~~~ mask ((b % 8 : Nat) : Int))) c =
      (!decide (c = b) && bitAt data c) := by
  rw [bitAt_set hb]
  split
  · rename_i h
    rw [getLsbD_and_not_mask (Nat.mod_lt _ (by decide)) (Nat.mod_lt _ (by decide)),
      decide_eq_decide.2 (div_mod_inj h), bitAt, h]
  · rename_i h
    have hne : c ≠ b := fun he => h (by rw [he])
    simp [hne]

end Data

section Bits

variable {map : Map} {b : Nat}

/-- Reading a byte inside the map. -/
lemma byte_eq (hb : IsBit b) (hlt : b / 8 < map.data.length) :
    map.byte (bitmapByte b) = some (map.data.getD (b / 8) 0) := by
  have hbyte : bitmapByte b = ((b / 8 : Nat) : Int) := bitmapByte_eq hb
  rw [hbyte, Map.byte, if_pos (Int.natCast_nonneg _), Int.toNat_natCast,
    List.getD_eq_getElem _ _ hlt, List.getElem?_eq_getElem hlt]

/-- Writing one. -/
lemma setByte_eq {v : UInt8} (hb : IsBit b) (hlt : b / 8 < map.data.length) :
    map.setByte (bitmapByte b) v = some { map with data := map.data.set (b / 8) v } := by
  have hbyte : bitmapByte b = ((b / 8 : Nat) : Int) := bitmapByte_eq hb
  rw [hbyte, Map.setByte, if_pos (Int.natCast_nonneg _), Int.toNat_natCast, store_of_lt hlt]
  rfl

/-- The place of a bit in its byte. -/
lemma offset_eq (hb : IsBit b) : bitmapOffset b = ((b % 8 : Nat) : Int) := bitmapOffset_eq hb

/-- Setting a bit inside the map. -/
lemma bitmapSetBit_eq (hb : IsBit b) (hlt : b / 8 < map.data.length) :
    bitmapSetBit map b = some ⟨map.len, map.data.set (b / 8)
      (map.data.getD (b / 8) 0 ||| mask ((b % 8 : Nat) : Int))⟩ := by
  rw [bitmapSetBit, byte_eq hb hlt, Option.bind_some, setByte_eq hb hlt, offset_eq hb]

/-- Clearing one. -/
lemma bitmapClrBit_eq (hb : IsBit b) (hlt : b / 8 < map.data.length) :
    bitmapClrBit map b = some ⟨map.len, map.data.set (b / 8)
      (map.data.getD (b / 8) 0 &&& ~~~ mask ((b % 8 : Nat) : Int))⟩ := by
  rw [bitmapClrBit, byte_eq hb hlt, Option.bind_some, setByte_eq hb hlt, offset_eq hb]

/-- Testing one. -/
lemma isBitmapBitSet_eq (hb : IsBit b) (hlt : b / 8 < map.data.length) :
    isBitmapBitSet map b = some (if bitAt map.data b then 1 else 0) := by
  rw [isBitmapBitSet, byte_eq hb hlt, Option.map_some, offset_eq hb]
  exact congrArg some (if_congr (and_mask_ne_zero_iff (Nat.mod_lt b (by decide))) rfl rfl)

end Bits

/-! The basic functions on a map that still has its length. -/

/-- A map made by `bitmap_new(n)` whose header has not been touched. -/
structure Sized (n : Int) (map : Map) : Prop where
  len : map.len = n / 8 + 5
  size : (map.data.length : Int) = n / 8 + 1

section Basic

variable {n : Int} {map : Map} {b : Nat}

/-- A bit below the capacity has its byte in the map. -/
lemma Sized.byte_lt (h : Sized n map) (hlt : (b : Int) < capacity n) : b / 8 < map.data.length := by
  have hs := h.size
  unfold capacity at hlt
  omega

/-- `bitmap_set` inserts a bit number below the capacity. -/
lemma bitmapSet_lt (hm : Sized n map) (hb : IsBit b) (hlt : (b : Int) < capacity n) :
    ∃ map', bitmapSet map b = some (0, map') ∧ Sized n map' ∧
      ∀ c, bitAt map'.data c = (decide (c = b) || bitAt map.data c) := by
  have hbyte := hm.byte_lt hlt
  have hlen : ¬ bitnumToLen b > map.len := by
    rw [hm.len, bitnumToLen_gt_iff hb]
    omega
  have hset := congrArg (Option.map fun map => ((0 : Int), map)) (bitmapSetBit_eq hb hbyte)
  refine ⟨_, (if_neg hlen).trans hset, ⟨hm.len, ?_⟩, fun c => bitAt_or_mask hbyte⟩
  rw [List.length_set]
  exact hm.size

/-- `bitmap_clr` removes one. -/
lemma bitmapClr_lt (hm : Sized n map) (hb : IsBit b) (hlt : (b : Int) < capacity n) :
    ∃ map', bitmapClr map b = some (0, map') ∧ Sized n map' ∧
      ∀ c, bitAt map'.data c = (!decide (c = b) && bitAt map.data c) := by
  have hbyte := hm.byte_lt hlt
  have hlen : ¬ bitnumToLen b > map.len := by
    rw [hm.len, bitnumToLen_gt_iff hb]
    omega
  have hset := congrArg (Option.map fun map => ((0 : Int), map)) (bitmapClrBit_eq hb hbyte)
  refine ⟨_, (if_neg hlen).trans hset, ⟨hm.len, ?_⟩, fun c => bitAt_and_not_mask hbyte⟩
  rw [List.length_set]
  exact hm.size

/-- From the capacity on, both refuse. -/
lemma refused_of_le (hm : Sized n map) (hb : IsBit b) (hle : capacity n ≤ b) :
    bitmapSet map b = some (-1, map) ∧ bitmapClr map b = some (-1, map) ∧
      isBitmapSet map b = some 0 := by
  have hlen : bitnumToLen b > map.len := by
    rw [hm.len, bitnumToLen_gt_iff hb]
    exact hle
  exact ⟨if_pos hlen, if_pos hlen, if_pos hlen⟩

/-- `is_bitmap_set` is the membership test. -/
lemma isBitmapSet_lt (hm : Sized n map) (hb : IsBit b) (hlt : (b : Int) < capacity n) :
    isBitmapSet map b = some (if bitAt map.data b then 1 else 0) := by
  have hlen : ¬ bitnumToLen b > map.len := by
    rw [hm.len, bitnumToLen_gt_iff hb]
    omega
  rw [isBitmapSet, if_neg hlen, isBitmapBitSet_eq hb (hm.byte_lt hlt)]

/-- The counting loop counts the bits below its start. -/
lemma countLoop_eq {k : Nat} (hk : k ≤ 2147483648) (hs : k ≤ map.data.length * 8) (cnt : Int) :
    countLoop map k cnt = some (cnt + ((List.range k).countP (bitAt map.data) : Nat)) := by
  induction k generalizing cnt with
  | zero => simp [countLoop]
  | succ k ih =>
    have hbit : IsBit k := ⟨by omega, by omega⟩
    rw [countLoop, isBitmapBitSet_eq hbit (by omega), Option.bind_some, ih (by omega) (by omega),
      List.range_succ, List.countP_append, List.countP_singleton]
    cases bitAt map.data k with
    | false => simp
    | true =>
      simp only [if_true, ne_eq, one_ne_zero, not_false_eq_true]
      congr 1
      omega

end Basic

/-! Sequences of calls. -/

/-- The calls of the three basic functions, with bit numbers that are not negative. -/
def Call.Basic : Call → Prop
  | .set b | .clr b | .isSet b => IsBit b
  | _ => False

/-- The last operation on bit `b` that had an effect on it was a `bitmap_set`. -/
def LastSet (calls : List Call) (b : Int) : Prop :=
  ∃ pre post, calls = pre ++ .set b :: post ∧ .clr b ∉ post

section Run

variable {n : Int} {map map' : Map}

/-- The last call on a bit as a standing order. -/
lemma lastSet_iff {calls : List Call} {b : Int} :
    LastSet calls b ↔ Standing (· = .set b) (· = .clr b) False calls := by
  constructor
  · rintro ⟨pre, post, rfl, hpost⟩
    exact .inl ⟨pre, _, post, rfl, rfl, fun e he hc => hpost (hc ▸ he)⟩
  · rintro (⟨pre, e, post, rfl, rfl, hpost⟩ | ⟨h, -⟩)
    · exact ⟨pre, post, rfl, fun he => hpost _ he rfl⟩
    · cases h

/-- A new map has its length and no bits. -/
lemma bitmapNew_sized (hn : IsBit n) :
    ∃ map, bitmapNew n = some map ∧ Sized n map ∧ ∀ b, bitAt map.data b = false := by
  have hlen := bitnumToLen_eq hn
  obtain ⟨h0, h1⟩ := hn
  have hhead : bitmapHeadLen ≤ n / 8 + 5 := by
    unfold bitmapHeadLen
    omega
  refine ⟨⟨n / 8 + 5, List.replicate (n / 8 + 5 - bitmapHeadLen).toNat 0⟩, ?_, ⟨rfl, ?_⟩, ?_⟩
  · rw [bitmapNew, hlen, if_pos hhead]
  · rw [List.length_replicate]
    unfold bitmapHeadLen
    omega
  · intro b
    have hzero : (List.replicate (n / 8 + 5 - bitmapHeadLen).toNat (0 : UInt8)).getD (b / 8) 0 = 0 := by
      rw [List.getD_eq_getElem?_getD, List.getElem?_replicate]
      split <;> rfl
    rw [bitAt, hzero]
    exact BitVec.getLsbD_zero

/-- What one basic call does to the set. -/
lemma step_basic (hm : Sized n map) {c : Call} (hc : c.Basic) :
    ∃ map', step map c = some map' ∧ Sized n map' ∧
      ∀ b : Nat, (b : Int) < capacity n →
        (bitAt map'.data b = true ↔ c = .set b ∨ bitAt map.data b = true ∧ c ≠ .clr b) := by
  cases c with
  | set x =>
    obtain ⟨x, rfl⟩ := Int.eq_ofNat_of_zero_le hc.1
    rcases lt_or_ge (x : Int) (capacity n) with hlt | hle
    · obtain ⟨map', he, hs, hbits⟩ := bitmapSet_lt hm hc hlt
      refine ⟨map', by simp [step, Call.exec, he], hs, fun b _ => ?_⟩
      rw [hbits]
      simp [@eq_comm _ b x]
    · refine ⟨map, by simp [step, Call.exec, (refused_of_le hm hc hle).1], hm, fun b hb => ?_⟩
      have hne : x ≠ b := by omega
      simp [hne]
  | clr x =>
    obtain ⟨x, rfl⟩ := Int.eq_ofNat_of_zero_le hc.1
    rcases lt_or_ge (x : Int) (capacity n) with hlt | hle
    · obtain ⟨map', he, hs, hbits⟩ := bitmapClr_lt hm hc hlt
      refine ⟨map', by simp [step, Call.exec, he], hs, fun b _ => ?_⟩
      rw [hbits]
      simp [@eq_comm _ b x, and_comm]
    · refine ⟨map, by simp [step, Call.exec, (refused_of_le hm hc hle).2.1], hm, fun b hb => ?_⟩
      have hne : x ≠ b := by omega
      simp [hne]
  | isSet x =>
    obtain ⟨x, rfl⟩ := Int.eq_ofNat_of_zero_le hc.1
    obtain ⟨r, hr⟩ : ∃ r, isBitmapSet map x = some r := by
      rcases lt_or_ge (x : Int) (capacity n) with hlt | hle
      · exact ⟨_, isBitmapSet_lt hm hc hlt⟩
      · exact ⟨_, (refused_of_le hm hc hle).2.2⟩
    exact ⟨map, by simp [step, Call.exec, hr], hm, fun b _ => by simp⟩
  | _ => cases hc

/-- The basic calls all return, and leave the bits that `LastSet` names. -/
lemma run_basic (hn : IsBit n) {calls : List Call} (hc : ∀ c ∈ calls, c.Basic) :
    ∃ map₀ map, bitmapNew n = some map₀ ∧ run step map₀ calls = some map ∧ Sized n map ∧
      ∀ b : Nat, (b : Int) < capacity n → (bitAt map.data b = true ↔ LastSet calls b) := by
  obtain ⟨map₀, hnew, hs₀, hzero⟩ := bitmapNew_sized hn
  have htotal : ∃ map, run step map₀ calls = some map ∧ Sized n map := by
    refine run_total (I := Sized n) hs₀ ?_
    intro c hmem map hm
    obtain ⟨map', he, hs', -⟩ := step_basic hm (hc c hmem)
    exact ⟨map', he, hs'⟩
  obtain ⟨map, hrun, hs⟩ := htotal
  refine ⟨map₀, map, hnew, hrun, hs, fun b hb => ?_⟩
  have hbits : bitAt map.data b = true ↔ Standing (· = .set (b : Int)) (· = .clr (b : Int))
      (bitAt map₀.data b = true) calls := by
    refine standing_run (I := Sized n) (M := fun map => bitAt map.data b = true) hrun hs₀ ?_
    intro c hmem map map' hm he
    obtain ⟨map'', he', hs', hbits⟩ := step_basic hm (hc c hmem)
    rw [he'] at he
    cases he
    exact ⟨hs', hbits b hb⟩
  rw [hbits, lastSet_iff]
  simp [hzero]

/-- The counter counts the bits. -/
lemma getBitmapSetCount_eq (hn : IsBit n) (hm : Sized n map) (hc : capacity n < 2147483648) :
    getBitmapSetCount map =
      some ({b : Nat | (b : Int) < capacity n ∧ bitAt map.data b = true}.ncard : Nat) := by
  have hsize := hm.size
  have hset : {b : Nat | (b : Int) < capacity n ∧ bitAt map.data b = true} =
      ((Finset.range (capacity n).toNat).filter fun b => bitAt map.data b = true : Finset Nat) := by
    ext b
    simp only [Set.mem_ofPred_eq, Finset.coe_filter, Finset.mem_range]
    refine and_congr_left fun _ => ?_
    omega
  have hcard : {b : Nat | (b : Int) < capacity n ∧ bitAt map.data b = true}.ncard =
      (List.range (capacity n).toNat).countP (bitAt map.data) := by
    rw [hset, Set.ncard_coe_finset, List.countP_eq_length_filter, Finset.card_def,
      Finset.filter_val, Finset.range_val, Multiset.range, Multiset.filter_coe, Multiset.coe_card]
    simp only [Bool.decide_eq_true]
  rw [getBitmapSetCount, hm.len, lenToBitnum_eq hn hc, hcard]
  have hnonneg : ¬ capacity n < 0 := by
    unfold capacity
    obtain ⟨h0, -⟩ := hn
    omega
  rw [if_neg hnonneg, countLoop_eq]
  · simp
  · omega
  · unfold capacity
    omega

end Run

/-- For every `n` and every sequence of the three basic calls on `bitmap_new(n)`: `bitmap_set` and
`bitmap_clr` succeed exactly below the capacity and otherwise change nothing, `is_bitmap_set` tells
whether the last of them on a bit was a set, and `get_bitmap_set_count` counts these bits as long as
their number fits an `int`. -/
theorem bitmap_refines_set (n : Int) (hn : IsBit n) (calls : List Call)
    (hc : ∀ c ∈ calls, c.Basic) :
    ∃ map₀ map, bitmapNew n = some map₀ ∧ run step map₀ calls = some map ∧
      (∀ b, IsBit b →
        (∃ map', bitmapSet map b = some (if b < capacity n then 0 else -1, map') ∧
          (capacity n ≤ b → map' = map)) ∧
        (∃ map', bitmapClr map b = some (if b < capacity n then 0 else -1, map') ∧
          (capacity n ≤ b → map' = map)) ∧
        (∃ r, isBitmapSet map b = some r ∧ (r = 0 ∨ r = 1) ∧
          (r = 1 ↔ b < capacity n ∧ LastSet calls b))) ∧
      (capacity n < 2147483648 → getBitmapSetCount map =
        some ({b : Nat | (b : Int) < capacity n ∧ LastSet calls b}.ncard : Nat)) := by
  obtain ⟨map₀, map, hnew, hrun, hs, hbits⟩ := run_basic hn hc
  refine ⟨map₀, map, hnew, hrun, ?_, ?_⟩
  · intro b hb
    obtain ⟨b, rfl⟩ := Int.eq_ofNat_of_zero_le hb.1
    rcases lt_or_ge (b : Int) (capacity n) with hlt | hle
    · obtain ⟨map₁, he₁, -⟩ := bitmapSet_lt hs hb hlt
      obtain ⟨map₂, he₂, -⟩ := bitmapClr_lt hs hb hlt
      rw [if_pos hlt]
      refine ⟨⟨map₁, he₁, by omega⟩, ⟨map₂, he₂, by omega⟩, _, isBitmapSet_lt hs hb hlt, ?_, ?_⟩
      · cases bitAt map.data b <;> simp
      · rw [← hbits b hlt]
        cases bitAt map.data b <;> simp [hlt]
    · obtain ⟨h₁, h₂, h₃⟩ := refused_of_le hs hb hle
      have hnot : ¬ (b : Int) < capacity n := by omega
      rw [if_neg hnot]
      refine ⟨⟨map, h₁, fun _ => rfl⟩, ⟨map, h₂, fun _ => rfl⟩, 0, h₃, .inl rfl, ?_⟩
      simp [hnot]
  · intro hcap
    rw [getBitmapSetCount_eq hn hs hcap]
    congr 4
    ext b
    exact and_congr_right fun hb => hbits b hb

/-- Three calls on a map of 16 bits. -/
theorem bitmap_refines_set_three :
    IsBit 10 ∧ (∀ c ∈ [Call.set 3, .set 15, .clr 3], c.Basic) ∧
      ∃ map₀ map, bitmapNew 10 = some map₀ ∧
        run step map₀ [.set 3, .set 15, .clr 3] = some map ∧
        ∃ r, isBitmapSet map 15 = some r ∧
          (r = 1 ↔ 15 < capacity 10 ∧ LastSet [.set 3, .set 15, .clr 3] 15) := by
  have hn : IsBit 10 := ⟨by decide, by decide⟩
  have hc : ∀ c ∈ [Call.set 3, .set 15, .clr 3], c.Basic := by
    simp [Call.Basic, IsBit]
  obtain ⟨map₀, map, hnew, hrun, hbits, -⟩ := bitmap_refines_set 10 hn _ hc
  obtain ⟨-, -, r, hr, -, hiff⟩ := hbits 15 ⟨by decide, by decide⟩
  exact ⟨hn, hc, map₀, map, hnew, hrun, r, hr, hiff⟩

/-! Clearing everything. -/

/-- `bitmap_clr_all` returns 0 and leaves a map that cannot be told from a new one. -/
def ClearsLikeNew (n : Int) (map : Map) : Prop :=
  ∃ map', bitmapClrAll map = some (0, map') ∧ map'.len = map.len ∧
    (∀ b, IsBit b → isBitmapSet map' b = some 0) ∧ getBitmapSetCount map' = some 0 ∧
    ∀ b, IsBit b → b < capacity n → ∃ map'', bitmapSet map' b = some (0, map'')

/-- What every call keeps: the number of bytes, and the length unless it has been wiped. -/
structure Shaped (n : Int) (map : Map) : Prop where
  size : (map.data.length : Int) = n / 8 + 1
  len : map.len = n / 8 + 5 ∨ map.len = 0

section ClrAll

variable {n : Int} {map map' : Map}

/-- The same length and number of bytes. -/
def SameShape (map map' : Map) : Prop :=
  map'.len = map.len ∧ map'.data.length = map.data.length

/-- Writing a byte keeps the shape. -/
lemma setByte_shape {byte : Int} {v : UInt8} (h : map.setByte byte v = some map') :
    SameShape map map' := by
  unfold Map.setByte at h
  split at h
  · obtain ⟨data, hd, rfl⟩ := Option.map_eq_some_iff.1 h
    obtain ⟨-, rfl⟩ := store_eq_some.1 hd
    exact ⟨rfl, List.length_set⟩
  · cases h

/-- Setting a bit does. -/
lemma bitmapSetBit_shape {b : Int} (h : bitmapSetBit map b = some map') : SameShape map map' := by
  obtain ⟨old, -, h⟩ := Option.bind_eq_some_iff.1 h
  exact setByte_shape h

/-- Clearing one does. -/
lemma bitmapClrBit_shape {b : Int} (h : bitmapClrBit map b = some map') : SameShape map map' := by
  obtain ⟨old, -, h⟩ := Option.bind_eq_some_iff.1 h
  exact setByte_shape h

/-- A loop over a range does, if its body does. -/
lemma rangeLoop_shape {body : Map → Int → Option Map}
    (hbody : ∀ map b map', body map b = some map' → SameShape map map') {k : Nat} {i : Int}
    (h : rangeLoop body k i map = some map') : SameShape map map' := by
  induction k generalizing i map with
  | zero =>
    cases h
    exact ⟨rfl, rfl⟩
  | succ k ih =>
    obtain ⟨map₁, h₁, h⟩ := Option.bind_eq_some_iff.1 h
    obtain ⟨hl, hs⟩ := hbody _ _ _ h₁
    obtain ⟨hl', hs'⟩ := ih h
    exact ⟨hl'.trans hl, hs'.trans hs⟩

/-- In a map with its length or with length 0, `bitmap_clr_all` returns 0 and the length is 0. -/
lemma bitmapClrAll_eq (hn : IsBit n) (hm : Shaped n map) :
    ∃ map', bitmapClrAll map = some (0, map') ∧ map'.len = 0 ∧
      map'.data.length = map.data.length := by
  obtain ⟨hn0, hn1⟩ := hn
  obtain ⟨hsize, hlen⟩ := hm
  have hrange : 0 ≤ map.len ∧ map.len < 4294967296 := by omega
  have hk : map.len.toNat - bitmapHeadLen.toNat ≤ map.data.length := by
    change map.len.toNat - 4 ≤ _
    omega
  have hwipe : map.len / 256 ^ min map.len.toNat 4 * 256 ^ min map.len.toNat 4 = 0 := by
    rcases hlen with hlen | hlen
    · rw [show min map.len.toNat 4 = 4 by omega, show (256 : Int) ^ 4 = 4294967296 from rfl]
      omega
    · simp [hlen]
  have huint : uint64 map.len = map.len := uint64_of_range (by omega) (by omega)
  refine ⟨⟨0, List.replicate (map.len.toNat - bitmapHeadLen.toNat) 0 ++
    map.data.drop (map.len.toNat - bitmapHeadLen.toNat)⟩, ?_, rfl, ?_⟩
  · rw [bitmapClrAll, huint, Map.wipe, hwipe]
    exact congrArg (Option.map fun map => ((0 : Int), map)) (if_pos hk)
  · rw [List.length_append, List.length_replicate, List.length_drop]
    omega

/-- A wiped map refuses every bit. -/
lemma bitmapSet_wiped {b : Int} (h : map.len = 0) (hb : IsBit b) :
    bitmapSet map b = some (-1, map) := by
  refine if_pos ?_
  rw [bitnumToLen_eq hb, h]
  have := hb.1
  omega

/-- A map of the same shape is shaped as well. -/
lemma Shaped.of_same (h : Shaped n map) (hs : SameShape map map') : Shaped n map' :=
  ⟨by rw [hs.2]; exact h.size, by rw [hs.1]; exact h.len⟩

/-- A writer refuses, and changes nothing, or writes within the map. -/
lemma Shaped.of_write (hm : Shaped n map) {p : Prop} [Decidable p] {w : Option Map} {r : Int}
    (hw : ∀ map₁, w = some map₁ → SameShape map map₁)
    (h : (if p then some (-1, map) else w.map fun map => ((0 : Int), map)) = some (r, map')) :
    Shaped n map' := by
  split at h
  · cases h
    exact hm
  · obtain ⟨map₁, h₁, he⟩ := Option.map_eq_some_iff.1 h
    cases he
    exact hm.of_same (hw _ h₁)

/-- A reader changes nothing. -/
lemma Shaped.of_read (hm : Shaped n map) {w : Option Int} {r : Int}
    (h : w.map (fun r => (r, map)) = some (r, map')) : Shaped n map' := by
  obtain ⟨r, -, he⟩ := Option.map_eq_some_iff.1 h
  cases he
  exact hm

/-- Every call keeps the shape. -/
lemma exec_shaped (hn : IsBit n) (hm : Shaped n map) {c : Call} {r : Int}
    (h : c.exec map = some (r, map')) : Shaped n map' := by
  cases c with
  | set b => exact hm.of_write (fun _ => bitmapSetBit_shape) h
  | clr b => exact hm.of_write (fun _ => bitmapClrBit_shape) h
  | isSet b => exact hm.of_read h
  | setRange i j =>
    exact hm.of_write (fun _ => rangeLoop_shape fun _ _ _ => bitmapSetBit_shape) h
  | clrRange i j =>
    exact hm.of_write (fun _ => rangeLoop_shape fun _ _ _ => bitmapClrBit_shape) h
  | isRangeZero i j => exact hm.of_read h
  | setCount => exact hm.of_read h
  | clrAll =>
    obtain ⟨map₁, h₁, hlen, hsize⟩ := bitmapClrAll_eq hn hm
    have he : some (0, map₁) = some (r, map') := h₁.symm.trans h
    cases he
    exact ⟨by rw [hsize]; exact hm.size, .inr hlen⟩

/-- However a map was reached, clearing it wipes its length, and no bit can be set any more. -/
lemma not_clearsLikeNew (hn : IsBit n) (hm : Shaped n map) : ¬ ClearsLikeNew n map := by
  rintro ⟨map', hclr, -, -, -, hset⟩
  obtain ⟨map₁, h₁, hlen, -⟩ := bitmapClrAll_eq hn hm
  rw [h₁] at hclr
  cases hclr
  have hb : IsBit 0 := ⟨Int.le_refl 0, by decide⟩
  have hcap : 0 < capacity n := by
    have := hn.1
    unfold capacity
    omega
  obtain ⟨map₂, h₂⟩ := hset 0 hb hcap
  rw [bitmapSet_wiped hlen hb] at h₂
  cases h₂

/-- A new map has the shape of its size. -/
lemma bitmapNew_shaped (hn : IsBit n) (h : bitmapNew n = some map) : Shaped n map := by
  obtain ⟨map₀, hnew, hs, -⟩ := bitmapNew_sized hn
  rw [hnew] at h
  cases h
  exact ⟨hs.size, .inl hs.len⟩

end ClrAll

/-- No map that calls of any kind reach from `bitmap_new(n)` is like new after `bitmap_clr_all`. -/
theorem bitmapClrAll_never_like_new (n : Int) (hn : IsBit n) (map₀ map : Map)
    (hnew : bitmapNew n = some map₀) (hr : Reach step (fun _ _ => True) map₀ map) :
    ¬ ClearsLikeNew n map := by
  apply not_clearsLikeNew hn
  refine hr.invariant (I := Shaped n) (bitmapNew_shaped hn hnew) ?_
  intro map c map' hm _ hstep
  obtain ⟨⟨r, map₁⟩, he, rfl⟩ := Option.map_eq_some_iff.1 hstep
  exact exec_shaped hn hm he

/-- A map of ten bits after two calls. -/
theorem bitmapClrAll_never_like_new_ten :
    ∃ map₀ map, bitmapNew 10 = some map₀ ∧ run step map₀ [.set 3, .setRange 4 9] = some map ∧
      ¬ ClearsLikeNew 10 map := by
  have hn : IsBit 10 := ⟨by decide, by decide⟩
  refine ⟨⟨6, [0, 0]⟩, ⟨6, [232, 7]⟩, by decide, by decide, ?_⟩
  exact bitmapClrAll_never_like_new 10 hn ⟨6, [0, 0]⟩ _ (by decide)
    (.of_run (show run step ⟨6, [0, 0]⟩ [.set 3, .setRange 4 9] = some ⟨6, [232, 7]⟩ by decide))

/-- A map of 16 bits with bit 3 set: after `bitmap_clr_all` its length is 0, bit 3 is refused, and
counting has no defined outcome. -/
theorem bitmapClrAll_wipes_len :
    (bitmapNew 10).bind (fun map => run step map [.set 3]) = some ⟨6, [8, 0]⟩ ∧
      bitmapClrAll ⟨6, [8, 0]⟩ = some (0, ⟨0, [0, 0]⟩) ∧
      bitmapSet ⟨0, [0, 0]⟩ 3 = some (-1, ⟨0, [0, 0]⟩) ∧ getBitmapSetCount ⟨0, [0, 0]⟩ = none ∧
      ¬ ClearsLikeNew 10 ⟨6, [8, 0]⟩ :=
  ⟨by decide, by decide, by decide, by decide,
    not_clearsLikeNew ⟨by decide, by decide⟩ ⟨by decide, .inl (by decide)⟩⟩

end CcodeTest.Bitmap
