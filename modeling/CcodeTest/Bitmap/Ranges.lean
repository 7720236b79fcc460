import CcodeTest.Bitmap.FiniteSet

/-!
# Bit numbers outside a map, and intervals of bits

The length check of the three basic functions lets every negative bit number through: its byte lies
in front of `data` (`bitmap_inside_iff`).

The functions on intervals increment their counter in the condition of the loop, so their bodies see
the bits from `start_bit + 1` to `end_bit + 1`, and none of them checks the length. `WritesBit` says
what the two writers do to one bit. From it one induction gives what the loop does to the bits of a
map, and another one what the calls for the single bits do; the maps are compared bit by bit.
-/

namespace CcodeTest.Bitmap
open CcodeTest.Lib

/-- A value of an `int`. -/
def IsInt (b : Int) : Prop := -2147483648 ≤ b ∧ b < 2147483648

/-- The bit has a byte in `data`. -/
def Map.Holds (map : Map) (b : Int) : Prop := 0 ≤ b ∧ b < 8 * (map.len - bitmapHeadLen)

/-- The three basic functions access the bytes of the map only, keep its length, and refuse the bit
if the map has no byte for it. -/
structure Inside (map : Map) (b : Int) : Prop where
  set : ∃ r map', bitmapSet map b = some (r, map') ∧ map'.len = map.len ∧ (¬ map.Holds b → r = -1)
  clr : ∃ r map', bitmapClr map b = some (r, map') ∧ map'.len = map.len ∧ (¬ map.Holds b → r = -1)
  isSet : ∃ r, isBitmapSet map b = some r ∧ (¬ map.Holds b → r = 0)

section Negative

variable {n b : Int} {map map₀ : Map}

/-- The conversions only take a negative number to the next smaller byte. -/
lemma bitmapByte_int (h0 : -2147483648 ≤ b) (h1 : b ≤ 2147483648) : bitmapByte b = b / 8 := by
  unfold bitmapByte uint64 int32
  rw [Int.bmod_def]
  omega

lemma bitnumToLen_int (hb : IsInt b) : bitnumToLen b = b / 8 + 5 := by
  obtain ⟨h0, h1⟩ := hb
  unfold bitnumToLen uint64 int32 bitmapHeadLen
  rw [Int.bmod_def]
  omega

/-- There is no byte in front of `data`. -/
lemma byte_neg (hb : IsInt b) (hneg : b < 0) : map.byte (bitmapByte b) = none := by
  obtain ⟨h0, h1⟩ := hb
  rw [bitmapByte_int h0 (Int.le_of_lt h1)]
  exact if_neg (by omega)

/-- The header of a new map, and the bytes behind it. -/
lemma bitmapNew_len (h : bitmapNew n = some map) : map.len = bitnumToLen n ∧
    bitmapHeadLen ≤ map.len ∧ (map.data.length : Int) = map.len - bitmapHeadLen := by
  unfold bitmapNew at h
  dsimp only at h
  split at h
  · rename_i hle
    cases h
    refine ⟨rfl, hle, ?_⟩
    rw [List.length_replicate]
    exact Int.toNat_of_nonneg (Int.sub_nonneg.2 hle)
  · cases h

/-- The same of a map with the shape of a new one. -/
lemma SameShape.len_eq (h : SameShape map₀ map) (hnew : bitmapNew n = some map₀) :
    map.len = bitnumToLen n ∧ bitmapHeadLen ≤ map.len ∧
      (map.data.length : Int) = map.len - bitmapHeadLen := by
  rw [h.1, h.2]
  exact bitmapNew_len hnew

/-- A negative bit number passes the check, and there is no byte for it. -/
lemma not_inside_neg (hlen : bitmapHeadLen ≤ map.len) (hb : IsInt b) (hneg : b < 0) :
    ¬ Inside map b := by
  intro h
  have hpass : ¬ bitnumToLen b > map.len := by
    rw [bitnumToLen_int hb]
    unfold bitmapHeadLen at hlen
    omega
  obtain ⟨r, hr, -⟩ := h.isSet
  rw [isBitmapSet, if_neg hpass, isBitmapBitSet, byte_neg hb hneg] at hr
  cases hr

/-- For the others the check is right. -/
lemma bitnumToLen_gt_iff_not_holds (hb : IsBit b) :
    bitnumToLen b > map.len ↔ ¬ map.Holds b := by
  have h0 := hb.1
  rw [bitnumToLen_eq hb, Map.Holds, bitmapHeadLen]
  omega

lemma inside_of_not_holds (hb : IsBit b) (hout : ¬ map.Holds b) : Inside map b :=
  have hlen := (bitnumToLen_gt_iff_not_holds hb).2 hout
  ⟨⟨-1, map, if_pos hlen, rfl, fun _ => rfl⟩, ⟨-1, map, if_pos hlen, rfl, fun _ => rfl⟩,
    0, if_pos hlen, fun _ => rfl⟩

lemma inside_of_holds {k : Nat} (hsize : (map.data.length : Int) = map.len - bitmapHeadLen)
    (hb : IsBit k) (hin : map.Holds k) : Inside map k := by
  have hlen : ¬ bitnumToLen k > map.len := fun h => (bitnumToLen_gt_iff_not_holds hb).1 h hin
  have hbyte : k / 8 < map.data.length := by
    have hlt := hin.2
    rw [← hsize] at hlt
    omega
  have hset := congrArg (Option.map fun map => ((0 : Int), map)) (bitmapSetBit_eq hb hbyte)
  have hclr := congrArg (Option.map fun map => ((0 : Int), map)) (bitmapClrBit_eq hb hbyte)
  refine ⟨⟨0, _, (if_neg hlen).trans hset, rfl, absurd hin⟩,
    ⟨0, _, (if_neg hlen).trans hclr, rfl, absurd hin⟩,
    ⟨if bitAt map.data k then 1 else 0, ?_, absurd hin⟩⟩
  rw [isBitmapSet, if_neg hlen, isBitmapBitSet_eq hb hbyte]

end Negative

/-- For every map that `bitmap_new` makes, whatever its bits are by now, and every `int`: the three
functions stay inside the map and refuse what it does not hold exactly when the bit number is not
negative. -/
theorem bitmap_inside_iff (n : Int) (map₀ map : Map) (hnew : bitmapNew n = some map₀)
    (hsame : SameShape map₀ map) (b : Int) (hb : IsInt b) : Inside map b ↔ 0 ≤ b := by
  obtain ⟨-, hlen, hsize⟩ := hsame.len_eq hnew
  constructor
  · intro h
    by_contra hneg
    exact not_inside_neg hlen hb (Int.not_le.1 hneg) h
  · intro h0
    have hbit : IsBit b := ⟨h0, hb.2⟩
    obtain ⟨k, rfl⟩ := Int.eq_ofNat_of_zero_le h0
    by_cases hin : map.Holds k
    · exact inside_of_holds hsize hbit hin
    · exact inside_of_not_holds hbit hin

/-- Bit 15 of a map for bit number 10, and bit 16, which the map does not hold. -/
theorem bitmap_inside_sixteen :
    Inside ⟨6, [1, 2]⟩ 15 ∧ Inside ⟨6, [1, 2]⟩ 16 ∧ ¬ Map.Holds ⟨6, [1, 2]⟩ 16 :=
  ⟨(bitmap_inside_iff 10 ⟨6, [0, 0]⟩ ⟨6, [1, 2]⟩ (by decide) ⟨rfl, rfl⟩ 15 ⟨by decide, by decide⟩).2
      (by decide),
    (bitmap_inside_iff 10 ⟨6, [0, 0]⟩ ⟨6, [1, 2]⟩ (by decide) ⟨rfl, rfl⟩ 16 ⟨by decide, by decide⟩).2
      (by decide),
    fun h => absurd h.2 (by decide)⟩

/-- Bit number -1 passes the check, and its byte is the one in front of `data`. -/
theorem bitmap_minus_one :
    bitmapNew 10 = some ⟨6, [0, 0]⟩ ∧ ¬ bitnumToLen (-1) > 6 ∧ bitmapByte (-1) = -1 ∧
      bitmapSet ⟨6, [0, 0]⟩ (-1) = none ∧ bitmapClr ⟨6, [0, 0]⟩ (-1) = none ∧
      isBitmapSet ⟨6, [0, 0]⟩ (-1) = none ∧ ¬ Inside ⟨6, [0, 0]⟩ (-1) := by
  refine ⟨by decide, by decide, by decide, by decide, by decide, by decide, ?_⟩
  intro h
  obtain ⟨r, hr, -⟩ := h.isSet
  cases hr

/-! Writing an interval. -/

/-- The function writes `v` to the bits that the map holds. -/
def WritesBit (n : Int) (v : Bool) (f : Map → Nat → Option Map) : Prop :=
  ∀ (map : Map) (b : Nat), Sized n map → (b : Int) < capacity n →
    ∃ map', f map b = some map' ∧ Sized n map' ∧
      ∀ c, bitAt map'.data c = if c = b then v else bitAt map.data c

/-- It has no outcome for the bits behind them. -/
def Unbounded (n : Int) (f : Map → Nat → Option Map) : Prop :=
  ∀ (map : Map) (b : Nat), Sized n map → b ≤ 2147483648 → capacity n ≤ b → f map b = none

/-- A function on an interval does what the calls for its bits do, and refuses an interval that the
map does not hold. -/
structure Pointwise (n : Int) (map : Map) (endBit : Nat) (calls : List Call)
    (r : Option (Int × Map)) : Prop where
  within : (endBit : Int) < capacity n → ∃ map', run step map calls = some map' ∧ r = some (0, map')
  beyond : capacity n ≤ endBit → r = some (-1, map)

section Writes

variable {n : Int} {map map' : Map} {v : Bool} {f : Map → Nat → Option Map} {s k b : Nat}

lemma SameShape.sized {map₀ : Map} (h : SameShape map₀ map) (hn : IsInt n)
    (hnew : bitmapNew n = some map₀) : Sized n map := by
  obtain ⟨hlen, -, hsize⟩ := h.len_eq hnew
  rw [bitnumToLen_int hn] at hlen
  refine ⟨hlen, ?_⟩
  rw [hsize, hlen, bitmapHeadLen]
  omega

lemma capacity_le (hn : IsInt n) : capacity n ≤ 2147483648 := by
  have h := hn.2
  unfold capacity
  omega

/-- Bits that are written one after the other. -/
lemma WritesBit.run (hf : WritesBit n v f) (hm : Sized n map) (hle : ((s + k : Nat) : Int) ≤ capacity n) :
    ∃ map', run f map (List.range' s k) = some map' ∧ Sized n map' ∧
      ∀ c, bitAt map'.data c = if s ≤ c ∧ c < s + k then v else bitAt map.data c := by
  induction k generalizing map s with
  | zero => exact ⟨map, rfl, hm, fun c => by rw [if_neg (by omega)]⟩
  | succ k ih =>
    obtain ⟨map₁, h₁, hm₁, hbits₁⟩ := hf map s hm (by omega)
    obtain ⟨map₂, h₂, hm₂, hbits₂⟩ := ih hm₁ (s := s + 1) (by omega)
    refine ⟨map₂, ?_, hm₂, ?_⟩
    · rw [List.range'_succ, Lib.run, h₁]
      exact h₂
    · intro c
      rw [hbits₂, hbits₁]
      split_ifs <;> first | rfl | omega

/-- Bits of which one is not held. -/
lemma WritesBit.run_none (hf : WritesBit n v f) (hout' : Unbounded n f) (hm : Sized n map)
    (hlt : capacity n < ((s + k : Nat) : Int)) (hk : 0 < k) (hs : s + k ≤ 2147483649) :
    Lib.run f map (List.range' s k) = none := by
  induction k generalizing map s with
  | zero => exact absurd hk (Nat.lt_irrefl 0)
  | succ k ih =>
    rw [List.range'_succ, Lib.run]
    rcases lt_or_ge (s : Int) (capacity n) with hin | hout
    · obtain ⟨map₁, h₁, hm₁, -⟩ := hf map s hm hin
      rw [h₁, Option.bind_some]
      exact ih hm₁ (by omega) (by omega) (by omega)
    · rw [hout' map s hm (by omega) hout]
      rfl

/-- The loop writes the bits behind its start. -/
lemma rangeLoop_eq_run {body : Map → Int → Option Map} :
    rangeLoop body k s map = Lib.run (fun map (b : Nat) => body map b) map (List.range' (s + 1) k) := by
  induction k generalizing map s with
  | zero => rfl
  | succ k ih =>
    rw [rangeLoop, List.range'_succ, Lib.run]
    refine congrArg _ (funext fun map => ?_)
    exact ih (s := s + 1)

/-- There is no byte behind `data`. -/
lemma byte_of_le (hb : b ≤ 2147483648) (hle : map.data.length ≤ b / 8) :
    map.byte (bitmapByte b) = none := by
  have hbyte : bitmapByte b = ((b / 8 : Nat) : Int) := by
    rw [bitmapByte_int (by omega) (by omega)]
    rfl
  rw [hbyte, Map.byte, if_pos (Int.natCast_nonneg _), Int.toNat_natCast, List.getElem?_eq_none hle]

lemma Sized.le_byte (hm : Sized n map) (hle : capacity n ≤ b) : map.data.length ≤ b / 8 := by
  have hs := hm.size
  unfold capacity at hle
  omega

lemma isBit_of_lt (hn : IsInt n) (hlt : (b : Int) < capacity n) : IsBit b :=
  ⟨Int.natCast_nonneg b, Int.lt_of_lt_of_le hlt (capacity_le hn)⟩

/-- A bit and all others after a byte is written. -/
lemma Sized.put {w : UInt8} (hm : Sized n map) :
    Sized n ⟨map.len, map.data.set (b / 8) w⟩ :=
  ⟨hm.len, by rw [List.length_set]; exact hm.size⟩

lemma decide_or (p : Prop) [Decidable p] (x : Bool) : (decide p || x) = if p then true else x := by
  by_cases hp : p
  · simp [hp]
  · simp [hp]

lemma not_decide_and (p : Prop) [Decidable p] (x : Bool) :
    (!decide p && x) = if p then false else x := by
  by_cases hp : p
  · simp [hp]
  · simp [hp]

lemma writesBit_setBit (hn : IsInt n) :
    WritesBit n true (fun map b => bitmapSetBit map b) := by
  intro map b hm hlt
  have hbyte := hm.byte_lt hlt
  refine ⟨_, bitmapSetBit_eq (isBit_of_lt hn hlt) hbyte, hm.put, ?_⟩
  intro c
  rw [bitAt_or_mask hbyte, decide_or]

lemma writesBit_clrBit (hn : IsInt n) :
    WritesBit n false (fun map b => bitmapClrBit map b) := by
  intro map b hm hlt
  have hbyte := hm.byte_lt hlt
  refine ⟨_, bitmapClrBit_eq (isBit_of_lt hn hlt) hbyte, hm.put, ?_⟩
  intro c
  rw [bitAt_and_not_mask hbyte, not_decide_and]

lemma unbounded_setBit : Unbounded n (fun map b => bitmapSetBit map b) := by
  intro map b hm hb hle
  dsimp only
  rw [bitmapSetBit, byte_of_le hb (hm.le_byte hle)]
  rfl

lemma unbounded_clrBit : Unbounded n (fun map b => bitmapClrBit map b) := by
  intro map b hm hb hle
  dsimp only
  rw [bitmapClrBit, byte_of_le hb (hm.le_byte hle)]
  rfl

/-- Within the map the checked functions write as the others do. -/
lemma writesBit_set (hn : IsInt n) : WritesBit n true (fun map b => step map (.set b)) := by
  intro map b hm hlt
  obtain ⟨map', he, hs, hbits⟩ := bitmapSet_lt hm (isBit_of_lt hn hlt) hlt
  refine ⟨map', congrArg (Option.map Prod.snd) he, hs, ?_⟩
  intro c
  rw [hbits, decide_or]

lemma writesBit_clr (hn : IsInt n) : WritesBit n false (fun map b => step map (.clr b)) := by
  intro map b hm hlt
  obtain ⟨map', he, hs, hbits⟩ := bitmapClr_lt hm (isBit_of_lt hn hlt) hlt
  refine ⟨map', congrArg (Option.map Prod.snd) he, hs, ?_⟩
  intro c
  rw [hbits, not_decide_and]

/-- Maps are told apart by their bits. -/
lemma Sized.eq_of_bits (hm : Sized n map) (hm' : Sized n map')
    (h : ∀ c, bitAt map.data c = bitAt map'.data c) : map = map' := by
  have hlen : map.data.length = map'.data.length := by
    have h0 := hm.size
    have h1 := hm'.size
    omega
  have hdata : map.data = map'.data := by
    apply List.ext_getElem hlen
    intro i hi hi'
    apply UInt8.toBitVec_inj.1
    apply BitVec.eq_of_getLsbD_eq
    intro j hj
    have hbit := h (8 * i + j)
    have hdiv : (8 * i + j) / 8 = i := by omega
    have hmod : (8 * i + j) % 8 = j := by omega
    rw [bitAt, bitAt, hdiv, hmod, List.getD_eq_getElem _ _ hi, List.getD_eq_getElem _ _ hi'] at hbit
    exact hbit
  obtain ⟨len, data⟩ := map
  obtain ⟨len', data'⟩ := map'
  rw [Map.mk.injEq]
  exact ⟨hm.len.trans hm'.len.symm, hdata⟩

/-- Writing the bits from `s + 1` to `e + 1` is writing those from `s` to `e` exactly when the first
and the one behind the last have the value already. -/
lemma runs_agree_iff {g : Map → Nat → Option Map} {e : Nat} (hf : WritesBit n v f)
    (hout : Unbounded n f) (hg : WritesBit n v g) (hm : Sized n map) (hle : s ≤ e)
    (he : e < 2147483648) :
    ((e : Int) < capacity n ∧ ∃ map', Lib.run g map (List.range' s (e + 1 - s)) = some map' ∧
        Lib.run f map (List.range' (s + 1) (e + 1 - s)) = some map') ↔
      ((e + 1 : Nat) : Int) < capacity n ∧ bitAt map.data s = v ∧ bitAt map.data (e + 1) = v := by
  constructor
  · rintro ⟨hlt, map', hrun, hloop⟩
    obtain ⟨map₁, h₁, -, hbits₁⟩ := hg.run hm (s := s) (k := e + 1 - s) (by omega)
    rcases lt_or_ge ((e + 1 : Nat) : Int) (capacity n) with hin | hge
    · obtain ⟨map₂, h₂, -, hbits₂⟩ := hf.run hm (s := s + 1) (k := e + 1 - s) (by omega)
      cases hrun.symm.trans h₁
      cases hloop.symm.trans h₂
      have hfirst := (hbits₁ s).symm.trans (hbits₂ s)
      have hlast := (hbits₁ (e + 1)).symm.trans (hbits₂ (e + 1))
      rw [if_pos (by omega), if_neg (by omega)] at hfirst
      rw [if_neg (by omega), if_pos (by omega)] at hlast
      exact ⟨hin, hfirst.symm, hlast⟩
    · -- the loop goes on to a bit that is not there
      rw [hf.run_none hout hm (by omega) (by omega) (by omega)] at hloop
      cases hloop
  · rintro ⟨hin, hfirst, hlast⟩
    obtain ⟨map₁, h₁, hm₁, hbits₁⟩ := hg.run hm (s := s) (k := e + 1 - s) (by omega)
    obtain ⟨map₂, h₂, hm₂, hbits₂⟩ := hf.run hm (s := s + 1) (k := e + 1 - s) (by omega)
    have heq : map₁ = map₂ := by
      apply hm₁.eq_of_bits hm₂
      intro c
      rw [hbits₁, hbits₂]
      rcases Nat.lt_trichotomy c s with hc | rfl | hc
      · rw [if_neg (by omega), if_neg (by omega)]
      · rw [if_pos (by omega), if_neg (by omega), hfirst]
      · by_cases hce : c = e + 1
        · rw [hce, if_neg (by omega), if_pos (by omega), hlast]
        · refine if_congr ?_ rfl rfl
          omega
    exact ⟨by omega, map₁, h₁, heq ▸ h₂⟩

/-- The functions on intervals, when the interval is not empty. -/
lemma rangeLoop_exec {body : Map → Int → Option Map} {e : Nat} (hle : s ≤ e) :
    (if (s : Int) > e then some (-1, map)
      else (rangeLoop body ((e : Int) + 1 - s).toNat s map).map fun map => ((0 : Int), map)) =
      (Lib.run (fun map (b : Nat) => body map b) map (List.range' (s + 1) (e + 1 - s))).map
        fun map => ((0 : Int), map) := by
  have hk : ((e : Int) + 1 - s).toNat = e + 1 - s := by omega
  rw [if_neg (by omega), hk, rangeLoop_eq_run]

lemma pointwise_iff {body : Map → Int → Option Map} {call : Nat → Call} {e : Nat}
    (hf : WritesBit n v fun map b => body map b) (hout : Unbounded n fun map b => body map b)
    (hg : WritesBit n v fun map b => step map (call b)) (hm : Sized n map) (hle : s ≤ e)
    (he : e < 2147483648) :
    Pointwise n map e ((List.range' s (e + 1 - s)).map call)
        (if (s : Int) > e then some (-1, map)
          else (rangeLoop body ((e : Int) + 1 - s).toNat s map).map fun map => ((0 : Int), map)) ↔
      ((e + 1 : Nat) : Int) < capacity n ∧ bitAt map.data s = v ∧ bitAt map.data (e + 1) = v := by
  rw [← runs_agree_iff hf hout hg hm hle he, rangeLoop_exec hle]
  constructor
  · intro h
    rcases lt_or_ge (e : Int) (capacity n) with hin | hge
    · obtain ⟨map', hrun, hr⟩ := h.within hin
      obtain ⟨map₁, h₁, heq⟩ := Option.map_eq_some_iff.1 hr
      cases heq
      rw [run_map] at hrun
      exact ⟨hin, map', hrun, h₁⟩
    · obtain ⟨map₁, -, heq⟩ := Option.map_eq_some_iff.1 (h.beyond hge)
      cases heq
  · rintro ⟨hin, map', hrun, hloop⟩
    refine ⟨fun _ => ⟨map', ?_, ?_⟩, fun hge => absurd hin (Int.not_lt.2 hge)⟩
    · rw [run_map]
      exact hrun
    · rw [hloop]
      rfl

/-- What the test of a bit returns. -/
lemma isBitmapSet_eq_iff (hn : IsInt n) (hm : Sized n map) (hlt : (b : Int) < capacity n) :
    isBitmapSet map b = some (if v then 1 else 0) ↔ bitAt map.data b = v := by
  rw [isBitmapSet_lt hm (isBit_of_lt hn hlt) hlt]
  cases bitAt map.data b with
  | false => cases v <;> simp
  | true => cases v <;> simp

end Writes

/-- For every map and every interval that is not empty: setting the interval is setting its bits, and
is refused beyond the capacity, exactly when the bit behind the interval is in the map and this bit
and the first bit of the interval are set already. The same for clearing. -/
theorem bitmapRange_pointwise_iff (n : Int) (hn : IsInt n) (map₀ map : Map)
    (hnew : bitmapNew n = some map₀) (hsame : SameShape map₀ map) (s e : Nat) (hle : s ≤ e)
    (he : e < 2147483648) :
    (Pointwise n map e ((List.range' s (e + 1 - s)).map fun b : Nat => .set b) (bitmapSetRange map s e) ↔
        ((e + 1 : Nat) : Int) < capacity n ∧ isBitmapSet map s = some 1 ∧
          isBitmapSet map (e + 1 : Nat) = some 1) ∧
      (Pointwise n map e ((List.range' s (e + 1 - s)).map fun b : Nat => .clr b) (bitmapClrRange map s e) ↔
        ((e + 1 : Nat) : Int) < capacity n ∧ isBitmapSet map s = some 0 ∧
          isBitmapSet map (e + 1 : Nat) = some 0) := by
  have hm := hsame.sized hn hnew
  have hbits : ∀ v : Bool, (((e + 1 : Nat) : Int) < capacity n ∧ bitAt map.data s = v ∧
      bitAt map.data (e + 1) = v) ↔ ((e + 1 : Nat) : Int) < capacity n ∧
        isBitmapSet map s = some (if v then 1 else 0) ∧
        isBitmapSet map (e + 1 : Nat) = some (if v then 1 else 0) := by
    intro v
    refine and_congr_right fun hin => ?_
    rw [isBitmapSet_eq_iff hn hm (by omega), isBitmapSet_eq_iff hn hm hin]
  constructor
  · refine Iff.trans ?_ (hbits true)
    exact pointwise_iff (writesBit_setBit hn) unbounded_setBit (writesBit_set hn) hm hle he
  · refine Iff.trans ?_ (hbits false)
    exact pointwise_iff (writesBit_clrBit hn) unbounded_clrBit (writesBit_clr hn) hm hle he

/-- The bits 3 to 5 of a map in which the bits 3 and 6 are set. -/
theorem bitmapSetRange_pointwise_three :
    Pointwise 10 ⟨6, [72, 0]⟩ 5 [.set 3, .set 4, .set 5] (bitmapSetRange ⟨6, [72, 0]⟩ 3 5) :=
  (bitmapRange_pointwise_iff 10 ⟨by decide, by decide⟩ ⟨6, [0, 0]⟩ ⟨6, [72, 0]⟩ (by decide)
    ⟨rfl, rfl⟩ 3 5 (by decide) (by decide)).1.2 (by decide)

/-- In an empty map the bits 4 to 6 are set instead of the bits 3 to 5. An interval behind the
capacity is not refused, and one that ends with the last bit has no outcome. -/
theorem bitmapSetRange_shifted :
    run step ⟨6, [0, 0]⟩ [.set 3, .set 4, .set 5] = some ⟨6, [56, 0]⟩ ∧
      bitmapSetRange ⟨6, [0, 0]⟩ 3 5 = some (0, ⟨6, [112, 0]⟩) ∧
      bitmapSetRange ⟨6, [0, 0]⟩ 15 15 = none ∧
      ¬ Pointwise 10 ⟨6, [0, 0]⟩ 5 [.set 3, .set 4, .set 5] (bitmapSetRange ⟨6, [0, 0]⟩ 3 5) := by
  refine ⟨by decide, by decide, by decide, ?_⟩
  intro h
  obtain ⟨map', hrun, hr⟩ := h.within (by decide)
  have hrun' : run step ⟨6, [0, 0]⟩ [.set 3, .set 4, .set 5] = some ⟨6, [56, 0]⟩ := by decide
  have hr' : bitmapSetRange ⟨6, [0, 0]⟩ 3 5 = some (0, ⟨6, [112, 0]⟩) := by decide
  cases hrun'.symm.trans hrun
  cases hr'.symm.trans hr

/-! Testing an interval. -/

/-- The loop of `is_bitmap_range_zero`, with the bit numbers it passes to `__is_bitmap_bit_set`. -/
def rangeZeroTrace (map : Map) : Nat → Int → Option (Int × List Int)
  | 0, _ => some (1, [])
  | k + 1, i => (isBitmapBitSet map (i + 1)).bind fun r =>
    if r ≠ 0 then some (0, [i + 1])
    else (rangeZeroTrace map k (i + 1)).map fun t => (t.1, (i + 1) :: t.2)

/-- `is_bitmap_range_zero`, with the bit numbers it reads. -/
def bitmapRangeZeroTrace (map : Map) (startBit endBit : Int) : Option (Int × List Int) :=
  if startBit > endBit then some (0, [])
  else rangeZeroTrace map (endBit + 1 - startBit).toNat startBit

/-- The result is 1 exactly when no bit of the interval is set, and no other bit is read. -/
def TestsRange (map : Map) (startBit endBit : Nat) : Prop :=
  ∃ r reads, isBitmapRangeZero map startBit endBit = some r ∧
    bitmapRangeZeroTrace map startBit endBit = some (r, reads) ∧
    (r = 1 ↔ ∀ b : Nat, startBit ≤ b → b ≤ endBit → isBitmapSet map b = some 0) ∧
    ∀ b ∈ reads, (startBit : Int) ≤ b ∧ b ≤ endBit

section Zero

variable {n : Int} {map : Map} {s k b : Nat}

/-- Keeping a record of the bits does not change the loop. -/
lemma rangeZeroTrace_fst (map : Map) (k : Nat) (i : Int) :
    (rangeZeroTrace map k i).map Prod.fst = rangeZeroLoop map k i := by
  induction k generalizing i with
  | zero => rfl
  | succ k ih =>
    rw [rangeZeroTrace, rangeZeroLoop, Option.map_bind]
    refine congrArg _ (funext fun r => ?_)
    dsimp only [Function.comp_apply]
    split
    · rfl
    · rw [Option.map_map, ← ih]
      rfl

lemma isBitmapRangeZero_eq_trace (map : Map) (i j : Int) :
    isBitmapRangeZero map i j = (bitmapRangeZeroTrace map i j).map Prod.fst := by
  unfold isBitmapRangeZero bitmapRangeZeroTrace
  split
  · rfl
  · exact (rangeZeroTrace_fst ..).symm

/-- The loop ends with the first bit that is set. -/
lemma rangeZeroTrace_of_set (hn : IsInt n) (hm : Sized n map) (hb : (b : Int) < capacity n)
    (hset : bitAt map.data b = true) (hs : s < b) (hk : b ≤ s + k) :
    ∃ reads, rangeZeroTrace map k s = some (0, reads) ∧ ∀ c ∈ reads, (s : Int) < c ∧ c ≤ b := by
  induction k generalizing s with
  | zero => exact absurd hs (Nat.not_lt.2 hk)
  | succ k ih =>
    have hlt : ((s + 1 : Nat) : Int) < capacity n := by omega
    have htest : isBitmapBitSet map ((s : Int) + 1) =
        some (if bitAt map.data (s + 1) then 1 else 0) :=
      isBitmapBitSet_eq (isBit_of_lt hn hlt) (hm.byte_lt hlt)
    rw [rangeZeroTrace, htest, Option.bind_some]
    cases hbit : bitAt map.data (s + 1) with
    | true =>
      refine ⟨[(s : Int) + 1], rfl, ?_⟩
      intro c hc
      rw [List.mem_singleton.1 hc]
      omega
    | false =>
      have hne : s + 1 ≠ b := by
        rintro rfl
        rw [hset] at hbit
        cases hbit
      obtain ⟨reads, htrace, hreads⟩ := ih (s := s + 1) (by omega) (by omega)
      refine ⟨((s : Int) + 1) :: reads, ?_, ?_⟩
      · exact congrArg (Option.map fun t => (t.1, ((s : Int) + 1) :: t.2)) htrace
      · intro c hc
        cases hc with
        | head => omega
        | tail _ hc =>
          have hin := hreads c hc
          omega

/-- Without one it comes to the bit behind the interval. -/
lemma mem_rangeZeroTrace (hn : IsInt n) (hm : Sized n map) (hk : 0 < k)
    (hlt : ((s + k : Nat) : Int) ≤ capacity n)
    (hclear : ∀ b, s < b → b < s + k → bitAt map.data b = false) {r : Int} {reads : List Int}
    (h : rangeZeroTrace map k s = some (r, reads)) : ((s + k : Nat) : Int) ∈ reads := by
  induction k generalizing s r reads with
  | zero => exact absurd hk (Nat.lt_irrefl 0)
  | succ k ih =>
    rw [rangeZeroTrace] at h
    rcases Nat.eq_zero_or_pos k with rfl | hpos
    · obtain ⟨q, -, h⟩ := Option.bind_eq_some_iff.1 h
      split at h
      · cases h
        exact List.mem_singleton.2 rfl
      · cases h
        exact List.mem_singleton.2 rfl
    · have hin : ((s + 1 : Nat) : Int) < capacity n := by omega
      have htest : isBitmapBitSet map ((s : Int) + 1) =
          some (if bitAt map.data (s + 1) then 1 else 0) :=
        isBitmapBitSet_eq (isBit_of_lt hn hin) (hm.byte_lt hin)
      rw [htest, hclear (s + 1) (by omega) (by omega), Option.bind_some] at h
      obtain ⟨⟨q, rest⟩, htrace, heq⟩ := Option.map_eq_some_iff.1 h
      cases heq
      have hmem := ih (s := s + 1) hpos (by omega) (fun b h0 h1 => hclear b (by omega) (by omega))
        htrace
      rw [show s + 1 + k = s + (k + 1) by omega] at hmem
      exact List.mem_cons_of_mem _ hmem

end Zero

/-- For every map and every interval within it that is not empty: the test agrees with the tests of
the single bits and reads no other bit exactly when some bit behind the first one is set. -/
theorem isBitmapRangeZero_tests_iff (n : Int) (hn : IsInt n) (map₀ map : Map)
    (hnew : bitmapNew n = some map₀) (hsame : SameShape map₀ map) (s e : Nat) (hle : s ≤ e)
    (he : (e : Int) < capacity n) :
    TestsRange map s e ↔ ∃ b : Nat, s < b ∧ b ≤ e ∧ isBitmapSet map b = some 1 := by
  have hm := hsame.sized hn hnew
  have htrace : bitmapRangeZeroTrace map s e = rangeZeroTrace map (e + 1 - s) s := by
    have hk : ((e : Int) + 1 - s).toNat = e + 1 - s := by omega
    rw [bitmapRangeZeroTrace, if_neg (by omega), hk]
  constructor
  · rintro ⟨r, reads, -, hreads, -, hin⟩
    by_contra hno
    have hclear : ∀ b, s < b → b < s + (e + 1 - s) → bitAt map.data b = false := by
      intro b h0 h1
      rw [← Bool.not_eq_true, ← isBitmapSet_eq_iff (v := true) hn hm (by omega)]
      exact fun hset => hno ⟨b, h0, by omega, hset⟩
    rw [htrace] at hreads
    have hmem := mem_rangeZeroTrace hn hm (by omega) (by omega) hclear hreads
    have hlast := (hin _ hmem).2
    omega
  · rintro ⟨b, h0, h1, hset⟩
    have hbit := (isBitmapSet_eq_iff (v := true) hn hm (by omega)).1 hset
    obtain ⟨reads, hreads, hin⟩ := rangeZeroTrace_of_set hn hm (by omega) hbit h0
      (k := e + 1 - s) (by omega)
    refine ⟨0, reads, ?_, htrace.trans hreads, ?_, ?_⟩
    · rw [isBitmapRangeZero_eq_trace, htrace, hreads]
      rfl
    · constructor
      · intro h
        exact absurd h (by decide)
      · intro hall
        rw [hall b (by omega) h1] at hset
        cases hset
    · intro c hc
      have hc' := hin c hc
      omega

/-- The bits 3 to 5 of a map in which bit 4 is set. -/
theorem isBitmapRangeZero_tests_four : TestsRange ⟨6, [16, 0]⟩ 3 5 :=
  (isBitmapRangeZero_tests_iff 10 ⟨by decide, by decide⟩ ⟨6, [0, 0]⟩ ⟨6, [16, 0]⟩ (by decide)
    ⟨rfl, rfl⟩ 3 5 (by decide) (by decide)).2 ⟨4, by decide, by decide, by decide⟩

/-- Bit 3 alone is not seen, and bit 6 alone is taken for a bit of the interval from 3 to 5. -/
theorem isBitmapRangeZero_shifted :
    isBitmapSet ⟨6, [8, 0]⟩ 3 = some 1 ∧ isBitmapRangeZero ⟨6, [8, 0]⟩ 3 5 = some 1 ∧
      bitmapRangeZeroTrace ⟨6, [8, 0]⟩ 3 5 = some (1, [4, 5, 6]) ∧
      isBitmapRangeZero ⟨6, [64, 0]⟩ 3 5 = some 0 ∧ ¬ TestsRange ⟨6, [8, 0]⟩ 3 5 := by
  refine ⟨by decide, by decide, by decide, by decide, ?_⟩
  rintro ⟨r, reads, hr, -, hiff, -⟩
  have hr' : isBitmapRangeZero ⟨6, [8, 0]⟩ 3 5 = some 1 := by decide
  cases hr'.symm.trans hr
  exact absurd (hiff.1 rfl 3 (by decide) (by decide)) (by decide)

end CcodeTest.Bitmap
