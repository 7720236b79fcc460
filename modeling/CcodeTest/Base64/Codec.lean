import Mathlib.Data.Nat.Bitwise
import CcodeTest.Lib.Block

/-!
# Base64 encoding and decoding

The encoder and the decoder of `seuBase64.c`. A `char` is a byte; the `int` expressions over the
tables are natural numbers, cut to a byte where the source stores them in one. A block of memory is
the list of its bytes. The functions return `none` where the C program has no defined behaviour: an
access outside a block or an `int` that overflows. Otherwise they return what the C function
returns, `some none` being the null pointer.

`decodeLoop_spec` says what the decoding loop leaves in memory, for a block of its own and for the
string itself; the round trip here and the comparison of the two modes in `InPlace` both start from
it.
-/

namespace CcodeTest.Base64
open CcodeTest.Lib

/-- `Base64[]`. -/
def base64Table : List UInt8 :=
  "ABCDEFGHIJKLMNOPQRSTUVWXYZabcdefghijklmnopqrstuvwxyz0123456789+/".toList.map Char.toUInt8

/-- `Base64[n]`. -/
def base64 (n : Nat) : UInt8 := base64Table.getD n 0

/-- `Pad64`. -/
def pad64 : UInt8 := 61

/-- `pr2six[]`, with the value 64 for characters outside the alphabet. -/
def pr2sixTable : List Nat :=
  [64,64,64,64,64,64,64,64,64,64,64,64,64,64,64,64,
   64,64,64,64,64,64,64,64,64,64,64,64,64,64,64,64,
   64,64,64,64,64,64,64,64,64,64,64,62,64,64,64,63,
   52,53,54,55,56,57,58,59,60,61,64,64,64,64,64,64,
   64, 0, 1, 2, 3, 4, 5, 6, 7, 8, 9,10,11,12,13,14,
   15,16,17,18,19,20,21,22,23,24,25,64,64,64,64,64,
   64,26,27,28,29,30,31,32,33,34,35,36,37,38,39,40,
   41,42,43,44,45,46,47,48,49,50,51,64,64,64,64,64,
   64,64,64,64,64,64,64,64,64,64,64,64,64,64,64,64,
   64,64,64,64,64,64,64,64,64,64,64,64,64,64,64,64,
   64,64,64,64,64,64,64,64,64,64,64,64,64,64,64,64,
   64,64,64,64,64,64,64,64,64,64,64,64,64,64,64,64,
   64,64,64,64,64,64,64,64,64,64,64,64,64,64,64,64,
   64,64,64,64,64,64,64,64,64,64,64,64,64,64,64,64,
   64,64,64,64,64,64,64,64,64,64,64,64,64,64,64,64,
   64,64,64,64,64,64,64,64,64,64,64,64,64,64,64,64]

/-- `pr2six[c]`. -/
def pr2six (c : UInt8) : Nat := pr2sixTable.getD c.toNat 0

/-- The bound of `int`: a signed expression from here on overflows. -/
def intBound : Nat := 2147483648

/-- What `malloc` returns for a size: a block of that many bytes, whatever they hold, or null. -/
def Malloc := Nat → Option (List UInt8)

/-- An allocator that never fails. -/
def Malloc.Succeeds (malloc : Malloc) : Prop := ∀ n, ∃ b, malloc n = some b ∧ b.length = n

/-- A block that is returned has the size that was asked for. -/
def Malloc.Sized (malloc : Malloc) : Prop := ∀ n b, malloc n = some b → b.length = n

/-- An allocator whose blocks are filled with zero bytes. -/
def Malloc.sample : Malloc := fun n => some (List.replicate n 0)

/-- The sample always finds memory. -/
lemma Malloc.sample_succeeds : Malloc.sample.Succeeds :=
  fun n => ⟨List.replicate n 0, rfl, List.length_replicate⟩

/-- It gives as much as was asked for. -/
lemma Malloc.sample_sized : Malloc.sample.Sized := by
  intro n b hb
  cases hb
  exact List.length_replicate

/-! The encoder. -/

/-- `output[0]` to `output[3]` from `input[0]` to `input[2]`. -/
def output (i0 i1 i2 : UInt8) : Nat × Nat × Nat × Nat :=
  (i0.toNat >>> 2,
   ((i0.toNat &&& 0x03) <<< 4) + (i1.toNat >>> 4),
   ((i1.toNat &&& 0x0f) <<< 2) + (i2.toNat >>> 6),
   i2.toNat &&& 0x3f)

/-- What is left after the groups of three: nothing, or a group that is filled with pads. -/
def encodeTail (targsize : Nat) (src target : List UInt8) : Option (List UInt8) :=
  match src with
  | [] => some target
  | i0 :: src =>
    let o := output i0 (src.getD 0 0) 0
    if target.length + 4 > targsize then none
    else some (target ++ [base64 o.1, base64 o.2.1,
      if src.length = 0 then pad64 else base64 o.2.2.1, pad64])

/-- The loop over groups of three bytes and the padding after it. `target` is what has been
written, `datalength` bytes. -/
def encodeLoop (targsize : Nat) : List UInt8 → List UInt8 → Option (List UInt8)
  | i0 :: i1 :: i2 :: src, target =>
    let o := output i0 i1 i2
    if target.length + 4 > targsize then none
    else encodeLoop targsize src
      (target ++ [base64 o.1, base64 o.2.1, base64 o.2.2.1, base64 o.2.2.2])
  | src, target => encodeTail targsize src target

/-- `b64encode(src, srclength)`, with `src` the `srclength` bytes at the pointer. -/
def b64encode (malloc : Malloc) (src : List UInt8) : Option (Option (List UInt8)) :=
  let targsize := (src.length + 2) / 3 * 4 + 1
  if targsize < intBound then
    match malloc targsize with
    | none => some none
    | some _ =>
      match encodeLoop targsize src [] with
      | none => some none
      | some target => if target.length ≥ targsize then some none else some (some (target ++ [0]))
  else none

/-! The decoder. -/

/-- `*bufCoded == ' ' || *bufCoded == '\t'`. -/
def isBlank (c : UInt8) : Bool := c == 32 || c == 9

/-- A character of the alphabet. -/
def isPr (c : UInt8) : Bool := decide (pr2six c ≤ 63)

/-- `while (pr2six[*(bufIn++)] <= 63);`: how far `bufIn` then is from `bufCoded`. -/
def scanPr : List UInt8 → Option Nat
  | [] => none
  | c :: cs => if isPr c then (scanPr cs).map (· + 1) else some 1

/-- The blocks of a call: the string from `bufCoded` on, and the block for the result, which is
missing when the decoding is in place. -/
structure Bufs where
  coded : List UInt8
  plain : Option (List UInt8)

/-- The block at `bufPlain`. -/
def Bufs.out (b : Bufs) : List UInt8 := b.plain.getD b.coded

/-- `bufPlain[i] = v`. -/
def Bufs.put (b : Bufs) (i : Nat) (v : UInt8) : Option Bufs :=
  match b.plain with
  | none => (store b.coded i v).map fun coded => { b with coded }
  | some plain => (store plain i v).map fun plain => { b with plain := some plain }

/-- The three bytes of a group, from two neighbouring characters each. -/
def byte0 (c d : UInt8) : UInt8 := UInt8.ofNat (pr2six c <<< 2 ||| pr2six d >>> 4)
def byte1 (c d : UInt8) : UInt8 := UInt8.ofNat (pr2six c <<< 4 ||| pr2six d >>> 2)
def byte2 (c d : UInt8) : UInt8 := UInt8.ofNat (pr2six c <<< 6 ||| pr2six d)

/-- One pass of the decoding loop; `bufIn` and `bufOut` are offsets from `bufCoded` and
`bufPlain`. -/
def decodeGroup (bufIn bufOut : Nat) (b : Bufs) : Option Bufs := do
  let b ← b.put bufOut (byte0 (← b.coded[bufIn]?) (← b.coded[bufIn + 1]?))
  let b ← b.put (bufOut + 1) (byte1 (← b.coded[bufIn + 1]?) (← b.coded[bufIn + 2]?))
  b.put (bufOut + 2) (byte2 (← b.coded[bufIn + 2]?) (← b.coded[bufIn + 3]?))

/-- The decoding loop, on `nPrBytes`. What the last pass leaves of it, zero or negative, is
returned with `bufIn` and the blocks. -/
def decodeLoop : Nat → Nat → Nat → Bufs → Option (Int × Nat × Bufs)
  | 0, bufIn, _, b => some (0, bufIn, b)
  | n + 4, bufIn, bufOut, b =>
    (decodeGroup bufIn bufOut b).bind fun b => decodeLoop n (bufIn + 4) (bufOut + 3) b
  | n, bufIn, bufOut, b => (decodeGroup bufIn bufOut b).map fun b => ((n : Int) - 4, bufIn + 4, b)

/-- What a call returns: `*pnOutLen` and the block at the returned pointer. -/
structure Decoded where
  outLen : Nat
  buf : List UInt8
deriving DecidableEq

/-- The part of `b64decode` after the block for the result is chosen. -/
def decodeInto (nPrBytes nBytesDecoded : Nat) (b : Bufs) : Option Decoded := do
  let (rest, bufIn, b) ← decodeLoop nPrBytes 0 0 b
  let outLen ←
    -- `nPrBytes & 03` in two's complement; `bufIn[-2]` is read only after at least one group
    if rest % 4 ≠ 0 then
      if pr2six (← b.coded[bufIn - 2]?) > 63 then some (nBytesDecoded - 2)
      else some (nBytesDecoded - 1)
    else some nBytesDecoded
  let b ← b.put outLen 0
  return ⟨outLen, b.out⟩

/-- `b64decode(bufCoded, &nOutLen, inPlace)`, with `s` the block from `bufCoded` on. -/
def b64decode (malloc : Malloc) (s : List UInt8) (inPlace : Bool) : Option (Option Decoded) :=
  let coded := s.dropWhile isBlank
  (scanPr coded).bind fun scanned =>
    let nPrBytes := scanned - 1
    if nPrBytes + 3 < intBound then
      let nBytesDecoded := (nPrBytes + 3) / 4 * 3
      if inPlace then (decodeInto nPrBytes nBytesDecoded ⟨coded, none⟩).map some
      else
        match malloc (nBytesDecoded + 1) with
        | none => some none
        | some plain => (decodeInto nPrBytes nBytesDecoded ⟨coded, some plain⟩).map some
    else none

/-! What the decoding loop leaves in memory. -/

/-- The decoding of whole groups. -/
def decodeGroups : List UInt8 → List UInt8
  | c0 :: c1 :: c2 :: c3 :: cs => byte0 c0 c1 :: byte1 c1 c2 :: byte2 c2 c3 :: decodeGroups cs
  | _ => []

/-- How many groups `n` characters begin. -/
def groups (n : Nat) : Nat := (n + 3) / 4

/-- The last pass of the loop has one group. -/
lemma groups_last {n : Nat} (h0 : n = 0 → False) (h4 : ∀ m, n = m + 4 → False) : groups n = 1 := by
  have hpos : n ≠ 0 := h0
  have hlt : n < 4 := by
    by_contra hge
    exact h4 (n - 4) (by omega)
  unfold groups
  omega

/-- The groups hold at most three characters more. -/
lemma groups_le (n : Nat) : groups n * 4 ≤ n + 3 := Nat.div_mul_le_self (n + 3) 4

/-- A block of the size that `b64decode` asks for has room for the bytes and the terminator. -/
lemma Malloc.Sized.room {malloc : Malloc} (hm : malloc.Sized) (coded : List UInt8)
    {plain : List UInt8} {n : Nat} (h : malloc (n + 1) = some plain) :
    n < (⟨coded, some plain⟩ : Bufs).out.length := by
  change n < plain.length
  rw [hm _ _ h]
  exact Nat.lt_succ_self n

/-- The blocks with other content at `bufPlain`. -/
def Bufs.withOut (b : Bufs) (o : List UInt8) : Bufs :=
  match b.plain with
  | none => ⟨o, none⟩
  | some _ => ⟨b.coded, some o⟩

/-- A block with a run of cells replaced. -/
def splice (o : List UInt8) (i : Nat) (new : List UInt8) : List UInt8 :=
  o.take i ++ new ++ o.drop (i + new.length)

section Loop

variable {b : Bufs} {o o' : List UInt8} {i n : Nat} {v : UInt8}

@[simp] lemma out_withOut : (b.withOut o).out = o := by
  obtain ⟨c, _ | p⟩ := b <;> rfl

@[simp] lemma withOut_withOut : (b.withOut o).withOut o' = b.withOut o' := by
  obtain ⟨c, _ | p⟩ := b <;> rfl

@[simp] lemma withOut_out : b.withOut b.out = b := by
  obtain ⟨c, _ | p⟩ := b <;> rfl

/-- A byte is written inside the output. -/
lemma put_eq (h : i < b.out.length) : b.put i v = some (b.withOut (b.out.set i v)) := by
  obtain ⟨c, _ | p⟩ := b
  · simp only [Bufs.put, store_of_lt (show i < c.length from h)]
    rfl
  · simp only [Bufs.put, store_of_lt (show i < p.length from h)]
    rfl

/-- A character is read as before when its place in the output is unchanged. -/
lemma coded_withOut (h : o[i]? = b.out[i]?) : (b.withOut o).coded[i]? = b.coded[i]? := by
  obtain ⟨c, _ | p⟩ := b
  · exact h
  · rfl

/-- Writing keeps the length of the code. -/
lemma length_coded_withOut (h : o.length = b.out.length) :
    (b.withOut o).coded.length = b.coded.length := by
  obtain ⟨c, _ | p⟩ := b
  · exact h
  · rfl

/-- A write does not move the end of the string. -/
lemma length_coded_put {b' : Bufs} (h : b.put i v = some b') : b'.coded.length = b.coded.length := by
  obtain ⟨coded, _ | plain⟩ := b
  · obtain ⟨coded', hs, rfl⟩ := Option.map_eq_some_iff.1 h
    obtain ⟨-, rfl⟩ := store_eq_some.1 hs
    exact List.length_set
  · obtain ⟨plain', -, rfl⟩ := Option.map_eq_some_iff.1 h
    rfl

/-- Three bytes a group. -/
lemma length_decodeGroups (o : List UInt8) : (decodeGroups o).length = o.length / 4 * 3 := by
  fun_induction decodeGroups o with
  | case1 c0 c1 c2 c3 cs ih =>
    simp only [List.length_cons, ih]
    omega
  | case2 o h =>
    have hlt : o.length < 4 := by
      rcases o with _ | ⟨c0, _ | ⟨c1, _ | ⟨c2, _ | ⟨c3, cs⟩⟩⟩⟩
      · exact Nat.zero_lt_succ 3
      · exact Nat.lt_of_sub_pos (Nat.zero_lt_succ 2)
      · exact Nat.lt_of_sub_pos (Nat.zero_lt_succ 1)
      · exact Nat.lt_succ_self 3
      · exact absurd rfl (h c0 c1 c2 c3 cs)
    simp only [List.length_nil]
    omega

/-- A splice inside keeps the length. -/
lemma length_splice {new : List UInt8} (h : i + new.length ≤ o.length) :
    (splice o i new).length = o.length := by
  simp only [splice, List.length_append, List.length_take, List.length_drop]
  omega

/-- Two runs side by side. -/
lemma splice_splice {new new' : List UInt8} (h : i + new.length ≤ o.length) :
    splice (splice o i new) (i + new.length) new' = splice o i (new ++ new') := by
  have hlen : (o.take i ++ new).length = i + new.length := by
    simp only [List.length_append, List.length_take]
    omega
  simp only [splice]
  rw [List.take_left' hlen, List.drop_append, List.drop_of_length_le (by omega), hlen,
    List.drop_drop, List.length_append, List.nil_append, ← List.append_assoc]
  congr 2
  omega

/-- Behind the run nothing has changed. -/
lemma getElem?_splice_of_le {new : List UInt8} {j : Nat} (h : i + new.length ≤ o.length)
    (hj : i + new.length ≤ j) : (splice o i new)[j]? = o[j]? := by
  have hlen : (o.take i ++ new).length = i + new.length := by
    simp only [List.length_append, List.length_take]
    omega
  rw [splice, List.getElem?_append_right (by omega), hlen, List.getElem?_drop]
  congr 1
  omega

/-- Three writes side by side. -/
lemma set_set_set {x y z : UInt8} (h : i + 3 ≤ o.length) :
    ((o.set i x).set (i + 1) y).set (i + 2) z = splice o i [x, y, z] := by
  induction i generalizing o with
  | zero =>
    match o, h with
    | _ :: _ :: _ :: l, _ => rfl
  | succ i ih =>
    match o, h with
    | a :: l, h =>
      have hl : i + 3 ≤ l.length := by simpa using h
      have hs : splice (a :: l) (i + 1) [x, y, z] = a :: splice l i [x, y, z] := rfl
      rw [hs, ← ih hl]
      rfl

/-- One pass: the loads come before the stores that could reach their cells, because the output
never runs ahead of the input. -/
lemma decodeGroup_eq {bufIn bufOut : Nat} {c0 c1 c2 c3 : UInt8} {cs : List UInt8}
    (hc : b.coded.drop bufIn = c0 :: c1 :: c2 :: c3 :: cs) (ho : bufOut + 3 ≤ b.out.length)
    (hle : bufOut ≤ bufIn) :
    decodeGroup bufIn bufOut b =
      some (b.withOut (splice b.out bufOut [byte0 c0 c1, byte1 c1 c2, byte2 c2 c3])) := by
  have hget : ∀ k, b.coded[bufIn + k]? = (c0 :: c1 :: c2 :: c3 :: cs)[k]? := by
    intro k
    rw [← hc, List.getElem?_drop]
  have h0 : b.coded[bufIn]? = some c0 := hget 0
  have h1 : b.coded[bufIn + 1]? = some c1 := hget 1
  have h2 : b.coded[bufIn + 2]? = some c2 := hget 2
  have h3 : b.coded[bufIn + 3]? = some c3 := hget 3
  have h1' : (b.withOut (b.out.set bufOut (byte0 c0 c1))).coded[bufIn + 1]? = some c1 := by
    rw [coded_withOut, h1]
    exact List.getElem?_set_ne (by omega)
  have h2' : (b.withOut (b.out.set bufOut (byte0 c0 c1))).coded[bufIn + 2]? = some c2 := by
    rw [coded_withOut, h2]
    exact List.getElem?_set_ne (by omega)
  have h2'' : (b.withOut ((b.out.set bufOut (byte0 c0 c1)).set (bufOut + 1)
      (byte1 c1 c2))).coded[bufIn + 2]? = some c2 := by
    rw [coded_withOut, h2]
    rw [List.getElem?_set_ne (by omega), List.getElem?_set_ne (by omega)]
  have h3'' : (b.withOut ((b.out.set bufOut (byte0 c0 c1)).set (bufOut + 1)
      (byte1 c1 c2))).coded[bufIn + 3]? = some c3 := by
    rw [coded_withOut, h3]
    rw [List.getElem?_set_ne (by omega), List.getElem?_set_ne (by omega)]
  simp only [decodeGroup, h0, h1, Option.bind_eq_bind, Option.bind_some,
    put_eq (show bufOut < b.out.length by omega), h1', h2']
  rw [put_eq (by simp; omega)]
  simp only [out_withOut, withOut_withOut, Option.bind_some, h2'', h3'']
  rw [put_eq (by simp; omega)]
  simp only [out_withOut, withOut_withOut, set_set_set ho]

/-- A list with room for a group. -/
lemma exists_four (h : 4 ≤ o.length) : ∃ c0 c1 c2 c3 cs, o = c0 :: c1 :: c2 :: c3 :: cs := by
  match o, h with
  | c0 :: c1 :: c2 :: c3 :: cs, _ => exact ⟨c0, c1, c2, c3, cs, rfl⟩

/-- What the loop leaves: the decoding of the characters as they were, at the start of the
output. -/
lemma decodeLoop_spec (n bufIn bufOut : Nat) (b : Bufs)
    (hc : bufIn + groups n * 4 ≤ b.coded.length) (ho : bufOut + groups n * 3 ≤ b.out.length)
    (hle : bufOut ≤ bufIn) :
    decodeLoop n bufIn bufOut b = some ((n : Int) - groups n * 4, bufIn + groups n * 4,
      b.withOut (splice b.out bufOut
        (decodeGroups ((b.coded.drop bufIn).take (groups n * 4))))) := by
  fun_induction decodeLoop n bufIn bufOut b with
  | case1 bufIn bufOut b => simp [groups, decodeGroups, splice]
  | case2 n bufIn bufOut b ih =>
    have hg : groups (n + 4) = groups n + 1 := by
      unfold groups
      omega
    rw [hg] at hc ho ⊢
    obtain ⟨c0, c1, c2, c3, cs, hcs⟩ := exists_four (o := b.coded.drop bufIn) (by simp; omega)
    have hdrop : b.coded.drop (bufIn + 4) = cs := by
      rw [← List.drop_drop, hcs]
      rfl
    have hfit : bufOut + [byte0 c0 c1, byte1 c1 c2, byte2 c2 c3].length ≤ b.out.length := by
      simp only [List.length_cons, List.length_nil]
      omega
    have hrest : (b.withOut (splice b.out bufOut [byte0 c0 c1, byte1 c1 c2, byte2 c2 c3])).coded.drop
        (bufIn + 4) = cs := by
      rw [← hdrop]
      apply List.ext_getElem?
      intro j
      rw [List.getElem?_drop, List.getElem?_drop]
      exact coded_withOut (getElem?_splice_of_le hfit (by simp; omega))
    rw [decodeGroup_eq hcs (by omega) hle, Option.bind_some, ih, hrest, hcs, out_withOut,
      withOut_withOut]
    · have hs := @splice_splice _ _ _ (decodeGroups (cs.take (groups n * 4))) hfit
      simp only [List.length_cons, List.length_nil] at hs
      rw [hs, Nat.succ_mul]
      congr 2
      · push_cast
        omega
      · congr 1
        omega
    · rw [length_coded_withOut (length_splice hfit)]
      omega
    · rw [out_withOut, length_splice hfit]
      omega
    · omega
  | case3 n bufIn bufOut b h0 h4 =>
    rw [groups_last h0 h4] at hc ho ⊢
    obtain ⟨c0, c1, c2, c3, cs, hcs⟩ := exists_four (o := b.coded.drop bufIn) (by simp; omega)
    rw [decodeGroup_eq hcs ho hle, hcs]
    rfl

/-- The number of decoded bytes after the correction for the padding; `x` is the character the
correction looks at. -/
def corrected (n : Nat) (x : UInt8) : Nat :=
  if n % 4 = 0 then groups n * 3
  else if pr2six x > 63 then groups n * 3 - 2
  else groups n * 3 - 1

/-- The output block after the loop. -/
def Bufs.decoded (b : Bufs) (n : Nat) : List UInt8 :=
  splice b.out 0 (decodeGroups (b.coded.take (groups n * 4)))

/-- Decoding keeps the length of the output. -/
lemma length_decoded (hc : groups n * 4 ≤ b.coded.length) (ho : groups n * 3 ≤ b.out.length) :
    (b.decoded n).length = b.out.length := by
  apply length_splice
  rw [length_decodeGroups, List.length_take]
  omega

/-- The whole of the decoding once its block is chosen. The correction reads the string as the loop
has left it. -/
lemma decodeInto_eq (hc : groups n * 4 ≤ b.coded.length) (ho : groups n * 3 < b.out.length)
    {x : UInt8} (hx : n % 4 ≠ 0 → (b.withOut (b.decoded n)).coded[groups n * 4 - 2]? = some x) :
    decodeInto n (groups n * 3) b =
      some ⟨corrected n x, (b.decoded n).set (corrected n x) 0⟩ := by
  have hloop : decodeLoop n 0 0 b =
      some ((n : Int) - groups n * 4, groups n * 4, b.withOut (b.decoded n)) := by
    have h := decodeLoop_spec n 0 0 b (by omega) (by omega) (Nat.le_refl 0)
    rw [List.drop_zero, Nat.zero_add] at h
    exact h
  have hput : ∀ m ≤ groups n * 3, (b.withOut (b.decoded n)).put m 0 =
      some (b.withOut ((b.decoded n).set m 0)) := by
    intro m hm
    rw [put_eq, out_withOut, withOut_withOut]
    rw [out_withOut, length_decoded hc (by omega)]
    omega
  simp only [decodeInto, hloop, Option.bind_eq_bind, Option.bind_some]
  by_cases h : n % 4 = 0
  · have hr : ((n : Int) - groups n * 4) % 4 = 0 := by omega
    rw [if_neg (by simpa using hr), corrected, if_pos h, hput _ (Nat.le_refl _), Option.bind_some,
      out_withOut]
    rfl
  · have hr : ((n : Int) - groups n * 4) % 4 ≠ 0 := by omega
    rw [if_pos hr, hx h, Option.bind_some, corrected, if_neg h]
    split
    · rw [hput _ (by omega), Option.bind_some, out_withOut]
      rfl
    · rw [hput _ (by omega), Option.bind_some, out_withOut]
      rfl

/-- The bytes and the terminator that a call leaves at the start of its block. -/
lemma take_decoded (hc : groups n * 4 ≤ b.coded.length) (ho : groups n * 3 < b.out.length)
    (hi : i ≤ groups n * 3) : ((b.decoded n).set i 0).take (i + 1) =
      (decodeGroups (b.coded.take (groups n * 4))).take i ++ [0] := by
  have hlen : i < (b.decoded n).length := by
    rw [length_decoded hc (by omega)]
    omega
  have hnew : i ≤ (decodeGroups (b.coded.take (groups n * 4))).length := by
    rw [length_decodeGroups, List.length_take]
    omega
  rw [List.take_succ_eq_append_getElem (by simpa using hlen), List.take_set_of_le (Nat.le_refl i),
    List.getElem_set_self, Bufs.decoded, splice, List.take_zero, List.nil_append,
    List.take_append_of_le_length hnew]

end Loop

section Call

variable {malloc : Malloc} {s : List UInt8} {n : Nat}

/-- The call into a buffer of its own. -/
lemma b64decode_copy {plain : List UInt8} (hs : scanPr (s.dropWhile isBlank) = some (n + 1))
    (hn : n + 3 < intBound) (hp : malloc (groups n * 3 + 1) = some plain) :
    b64decode malloc s false =
      (decodeInto n (groups n * 3) ⟨s.dropWhile isBlank, some plain⟩).map some := by
  unfold groups at hp ⊢
  simp only [b64decode, hs, Option.bind_some, Nat.add_sub_cancel, if_pos hn, Bool.false_eq_true,
    if_false, hp]

end Call

end CcodeTest.Base64
