import CcodeTest.Lib.Block
import CcodeTest.Lib.Transition
import CcodeTest.Lib.Word

/-!
# Bitmaps

The functions of `bitmap.h` and `bitmap_test.c`. A map is the block behind a pointer that is not
null: the header `len` and the bytes of `data`. The macros compute in `size_t`, of 64 bits, and their
results are stored in an `int` of 32, so both conversions are written out. `none` is an access
outside of `data` (or a `memset` past the end of the block), which has no defined outcome; every
function that returns gives its result and the map.
-/

namespace CcodeTest.Bitmap
open CcodeTest.Lib

/-- `bitmap_t`. -/
structure Map where
  len : Int
  data : List UInt8
deriving DecidableEq

/-- `BITMAP_HEAD_LEN`, the size of the header. -/
def bitmapHeadLen : Int := 4

/-- `int byte = BITMAP_BYTE(bitnum)`. -/
def bitmapByte (bitnum : Int) : Int := int32 (uint64 bitnum / 8)

/-- `int offset = BITMAP_OFFSET(bitnum)`. -/
def bitmapOffset (bitnum : Int) : Int := int32 (uint64 bitnum % 8)

/-- `int len = BITNUM_TO_LEN(bitnum)`. -/
def bitnumToLen (bitnum : Int) : Int := int32 (uint64 (bitmapHeadLen + uint64 bitnum / 8 + 1))

/-- `int bitnum = LEN_TO_BITNUM(map_len)`. -/
def lenToBitnum (mapLen : Int) : Int := int32 (uint64 (uint64 (uint64 mapLen - bitmapHeadLen) * 8))

/-- `bitmap_new`, when `malloc` succeeds; a block too small for the header cannot be written. -/
def bitmapNew (bitnum : Int) : Option Map :=
  let len := bitnumToLen bitnum
  if bitmapHeadLen ≤ len then some ⟨len, List.replicate (len - bitmapHeadLen).toNat 0⟩ else none

/-- `map->data[byte]`. -/
def Map.byte (map : Map) (byte : Int) : Option UInt8 :=
  if 0 ≤ byte then map.data[byte.toNat]? else none

/-- `map->data[byte] = v`. -/
def Map.setByte (map : Map) (byte : Int) (v : UInt8) : Option Map :=
  if 0 ≤ byte then (store map.data byte.toNat v).map fun data => { map with data } else none

/-- `1 << offset`, in a byte. -/
def mask (offset : Int) : UInt8 := 1 <<< UInt8.ofNat offset.toNat

/-- `__bitmap_set_bit`. -/
def bitmapSetBit (map : Map) (bitnum : Int) : Option Map :=
  (map.byte (bitmapByte bitnum)).bind fun old =>
    map.setByte (bitmapByte bitnum) (old ||| mask (bitmapOffset bitnum))

/-- `__bitmap_clr_bit`. -/
def bitmapClrBit (map : Map) (bitnum : Int) : Option Map :=
  (map.byte (bitmapByte bitnum)).bind fun old =>
    map.setByte (bitmapByte bitnum) (old &&& ~~~ mask (bitmapOffset bitnum))

/-- `__is_bitmap_bit_set`. -/
def isBitmapBitSet (map : Map) (bit : Int) : Option Int :=
  (map.byte (bitmapByte bit)).map fun old =>
    if old &&& mask (bitmapOffset bit) ≠ 0 then 1 else 0

/-- `bitmap_set`. -/
def bitmapSet (map : Map) (bitnum : Int) : Option (Int × Map) :=
  if bitnumToLen bitnum > map.len then some (-1, map)
  else (bitmapSetBit map bitnum).map fun map => (0, map)

/-- `bitmap_clr`. -/
def bitmapClr (map : Map) (bitnum : Int) : Option (Int × Map) :=
  if bitnumToLen bitnum > map.len then some (-1, map)
  else (bitmapClrBit map bitnum).map fun map => (0, map)

/-- `is_bitmap_set`. -/
def isBitmapSet (map : Map) (bitnum : Int) : Option Int :=
  if bitnumToLen bitnum > map.len then some 0 else isBitmapBitSet map bitnum

/-- `while (i++ <= end_bit)`: the body sees `i` after the increment. The first argument is the
number of passes, `end_bit + 1 - i`. -/
def rangeLoop (body : Map → Int → Option Map) : Nat → Int → Map → Option Map
  | 0, _, map => some map
  | k + 1, i, map => (body map (i + 1)).bind (rangeLoop body k (i + 1))

/-- `bitmap_set_range`. -/
def bitmapSetRange (map : Map) (startBit endBit : Int) : Option (Int × Map) :=
  if startBit > endBit then some (-1, map)
  else (rangeLoop bitmapSetBit (endBit + 1 - startBit).toNat startBit map).map fun map => (0, map)

/-- `bitmap_clr_range`. -/
def bitmapClrRange (map : Map) (startBit endBit : Int) : Option (Int × Map) :=
  if startBit > endBit then some (-1, map)
  else (rangeLoop bitmapClrBit (endBit + 1 - startBit).toNat startBit map).map fun map => (0, map)

/-- The loop of `is_bitmap_range_zero`, with the passes as in `rangeLoop`. -/
def rangeZeroLoop (map : Map) : Nat → Int → Option Int
  | 0, _ => some 1
  | k + 1, i => (isBitmapBitSet map (i + 1)).bind fun r =>
    if r ≠ 0 then some 0 else rangeZeroLoop map k (i + 1)

/-- `is_bitmap_range_zero`. -/
def isBitmapRangeZero (map : Map) (startBit endBit : Int) : Option Int :=
  if startBit > endBit then some 0
  else rangeZeroLoop map (endBit + 1 - startBit).toNat startBit

/-- The loop of `get_bitmap_set_count`, `while (bitnum--)`. -/
def countLoop (map : Map) : Nat → Int → Option Int
  | 0, cnt => some cnt
  | bitnum + 1, cnt => (isBitmapBitSet map bitnum).bind fun r =>
    countLoop map bitnum (if r ≠ 0 then cnt + 1 else cnt)

/-- `get_bitmap_set_count`. A negative `bitnum` never counts down to zero; the first pass already
reads in front of `data`. -/
def getBitmapSetCount (map : Map) : Option Int :=
  let bitnum := lenToBitnum map.len
  if bitnum < 0 then none else countLoop map bitnum.toNat 0

/-- `memset(map, 0x00, len)`: the header, least significant byte first, and then `data`. -/
def Map.wipe (map : Map) (len : Nat) : Option Map :=
  let k := len - bitmapHeadLen.toNat
  if k ≤ map.data.length then
    some ⟨map.len / 256 ^ min len 4 * 256 ^ min len 4, List.replicate k 0 ++ map.data.drop k⟩
  else none

/-- `bitmap_clr_all`. The `int` length is converted to `size_t` for `memset`; storing `map->len` in
the local variable afterwards has no effect. -/
def bitmapClrAll (map : Map) : Option (Int × Map) :=
  (map.wipe (uint64 map.len).toNat).map fun map => (0, map)

/-- A call of one of the functions on a map. -/
inductive Call where
  | set (bitnum : Int)
  | clr (bitnum : Int)
  | isSet (bitnum : Int)
  | setRange (startBit endBit : Int)
  | clrRange (startBit endBit : Int)
  | isRangeZero (startBit endBit : Int)
  | setCount
  | clrAll
deriving DecidableEq

/-- What a call returns, and the map after it. -/
def Call.exec (map : Map) : Call → Option (Int × Map)
  | .set bitnum => bitmapSet map bitnum
  | .clr bitnum => bitmapClr map bitnum
  | .isSet bitnum => (isBitmapSet map bitnum).map fun r => (r, map)
  | .setRange startBit endBit => bitmapSetRange map startBit endBit
  | .clrRange startBit endBit => bitmapClrRange map startBit endBit
  | .isRangeZero startBit endBit => (isBitmapRangeZero map startBit endBit).map fun r => (r, map)
  | .setCount => (getBitmapSetCount map).map fun r => (r, map)
  | .clrAll => bitmapClrAll map

/-- The map after a call. -/
def step (map : Map) (c : Call) : Option Map := (c.exec map).map Prod.snd

end CcodeTest.Bitmap
