import CcodeTest.Lib.Mealy
import CcodeTest.Base64.Conformance

/-!
# The streaming encoder

The encoder of `base64encode.c`. Its state holds what a piece of the data leaves over for the next
one, so that a caller may bring the data in pieces: one call of `base64_encode_update` for each, and
`base64_encode_final` at the end. The labels of the `switch` are the three places in a group of
bytes, and `none` is a store outside the block at `encoded`.

`encoding_update` gives the machine behind the loop. The law of the streams then says that it does
not matter where the data is cut (`encodePieces_eq`), and what is written is the text of RFC 1521,
as `seuBase64.c` writes it.
-/

namespace CcodeTest.Certificate
open CcodeTest.Lib CcodeTest.Base64

/-- `base64_encode_value(value)`. -/
def base64EncodeValue (value : UInt8) : UInt8 :=
  if value > 63 then 61 else base64Table.getD value.toNat 0

/-- `base64_encodestep`. -/
inductive EncodeStep
  | a
  | b
  | c
deriving DecidableEq

/-- `base64_encodestate`. -/
structure EncodeState where
  step : EncodeStep
  result : UInt8
deriving DecidableEq

/-- `base64_encode_init`. -/
def base64EncodeInit : EncodeState := ⟨.a, 0⟩

/-- The loop of `base64_encode_update`, entered at a label. `encoded` is an offset in the block. -/
def encodeUpdateLoop : EncodeStep → UInt8 → List UInt8 → Nat → List UInt8 →
    Option (EncodeState × Nat × List UInt8)
  | step, result, [], encoded, out => some (⟨step, result⟩, encoded, out)
  | .a, _, fragment :: data, encoded, out => do
    let out ← store out encoded (base64EncodeValue ((fragment &&& 0x0fc) >>> 2))
    encodeUpdateLoop .b ((fragment &&& 0x003) <<< 4) data (encoded + 1) out
  | .b, result, fragment :: data, encoded, out => do
    let out ← store out encoded (base64EncodeValue (result ||| ((fragment &&& 0x0f0) >>> 4)))
    encodeUpdateLoop .c ((fragment &&& 0x00f) <<< 2) data (encoded + 1) out
  | .c, result, fragment :: data, encoded, out => do
    let out ← store out encoded (base64EncodeValue (result ||| ((fragment &&& 0x0c0) >>> 6)))
    let out ← store out (encoded + 1) (base64EncodeValue (fragment &&& 0x03f))
    encodeUpdateLoop .a (fragment &&& 0x03f) data (encoded + 2) out

/-- `base64_encode_update(S, data, datalen, encoded)`, with `data` the `datalen` bytes at the
pointer: the state, where the output ends, and the block. -/
def base64EncodeUpdate (S : EncodeState) (data : List UInt8) (encoded : Nat) (out : List UInt8) :
    Option (EncodeState × Nat × List UInt8) :=
  encodeUpdateLoop S.step S.result data encoded out

/-- `base64_encode_final(S, encoded)`. -/
def base64EncodeFinal (S : EncodeState) (encoded : Nat) (out : List UInt8) :
    Option (Nat × List UInt8) :=
  match S.step with
  | .b => do
    let out ← store out encoded (base64EncodeValue S.result)
    let out ← store out (encoded + 1) 61
    let out ← store out (encoded + 2) 61
    return (encoded + 3, out)
  | .c => do
    let out ← store out encoded (base64EncodeValue S.result)
    let out ← store out (encoded + 1) 61
    return (encoded + 2, out)
  | .a => some (encoded, out)

/-- `base64_encode(data, datalen, encoded)`. -/
def base64Encode (data out : List UInt8) : Option (Nat × List UInt8) := do
  let (S, c, out) ← base64EncodeUpdate base64EncodeInit data 0 out
  base64EncodeFinal S c out

/-- The calls for data that comes in pieces. -/
def encodePieces (pieces : List (List UInt8)) (out : List UInt8) : Option (Nat × List UInt8) := do
  let (S, c, out) ← pieces.foldlM (fun r data => base64EncodeUpdate r.1 data r.2.1 r.2.2)
    (base64EncodeInit, 0, out)
  base64EncodeFinal S c out

/-! The machine behind the loop. -/

/-- One byte: the state after it and the characters it completes. -/
def encodeByte (S : EncodeState) (fragment : UInt8) : EncodeState × List UInt8 :=
  match S.step with
  | .a => (⟨.b, (fragment &&& 0x003) <<< 4⟩, [base64EncodeValue ((fragment &&& 0x0fc) >>> 2)])
  | .b => (⟨.c, (fragment &&& 0x00f) <<< 2⟩,
      [base64EncodeValue (S.result ||| ((fragment &&& 0x0f0) >>> 4))])
  | .c => (⟨.a, fragment &&& 0x03f⟩,
      [base64EncodeValue (S.result ||| ((fragment &&& 0x0c0) >>> 6)),
        base64EncodeValue (fragment &&& 0x03f)])

/-- The characters that `base64_encode_final` adds. -/
def finalChars (S : EncodeState) : List UInt8 :=
  match S.step with
  | .a => []
  | .b => [base64EncodeValue S.result, 61, 61]
  | .c => [base64EncodeValue S.result, 61]

section Machine

variable {encoded : Nat} {out : List UInt8}

/-- The loop writes what the machine puts out. -/
lemma base64EncodeUpdate_eq (S : EncodeState) (data : List UInt8) (h : encoded ≤ out.length) :
    base64EncodeUpdate S data encoded out = feedInto encodeByte S data encoded out := by
  obtain ⟨step, result⟩ := S
  unfold base64EncodeUpdate
  induction data generalizing step result encoded out with
  | nil =>
    rw [feedInto_nil _ _ h]
    cases step <;> rfl
  | cons fragment data ih =>
    rw [feedInto_cons]
    cases step with
    | a =>
      simp only [encodeUpdateLoop, store_eq_writeRun, Option.bind_eq_bind]
      exact writeRun_bind_congr fun out' hle => ih hle _ _
    | b =>
      simp only [encodeUpdateLoop, store_eq_writeRun, Option.bind_eq_bind]
      exact writeRun_bind_congr fun out' hle => ih hle _ _
    | c =>
      simp only [encodeUpdateLoop, store_eq_writeRun, Option.bind_eq_bind]
      rw [writeRun_bind_writeRun]
      · exact writeRun_bind_congr fun out' hle => ih hle _ _
      · rfl

/-- The end of the text, for every state of the encoder. -/
lemma base64EncodeFinal_eq (S : EncodeState) (h : encoded ≤ out.length) :
    base64EncodeFinal S encoded out = (writeRun out encoded (finalChars S)).map fun out =>
      (encoded + (finalChars S).length, out) := by
  obtain ⟨step, result⟩ := S
  cases step with
  | a =>
    simp only [base64EncodeFinal, finalChars, writeRun_nil h, Option.map_some]
    rfl
  | b =>
    simp only [base64EncodeFinal, store_eq_writeRun, Option.bind_eq_bind]
    rw [writeRun_bind_writeRun, writeRun_bind_writeRun, Option.map_eq_bind]
    all_goals rfl
  | c =>
    simp only [base64EncodeFinal, store_eq_writeRun, Option.bind_eq_bind]
    rw [writeRun_bind_writeRun, Option.map_eq_bind]
    all_goals rfl

end Machine

/-! The characters are those of the other encoder. -/

section Characters

variable (x y : UInt8)

/-- The character of a value below 64. -/
lemma base64EncodeValue_eq {x : UInt8} {n : Nat} (h : x.toNat = n) (hn : n < 64) :
    base64EncodeValue x = base64 n := by
  have hle : ¬ x > 63 := by
    rw [gt_iff_lt, UInt8.lt_iff_toNat_lt, h]
    exact Nat.not_lt.2 (Nat.le_of_lt_succ hn)
  rw [base64EncodeValue, if_neg hle, h]
  rfl

/-- The high bits of a byte, moved down by `s`. -/
lemma and_shiftRight {m s w : Nat} (hm : m >>> s = 2 ^ w - 1) (h : y.toNat / 2 ^ s < 2 ^ w) :
    (y.toNat &&& m) >>> s = y.toNat / 2 ^ s := by
  rw [Nat.shiftRight_and_distrib, Nat.shiftRight_eq_div_pow, hm, Nat.and_two_pow_sub_one_eq_mod,
    Nat.mod_eq_of_lt h]

/-- The two bits carried over from the first byte. -/
lemma toNat_carry_b : ((x &&& 0x003) <<< 4).toNat = x.toNat % 4 * 16 := by
  rw [UInt8.toNat_shiftLeft, UInt8.toNat_and]
  change (x.toNat &&& 3) <<< 4 % 256 = _
  rw [Nat.shiftLeft_eq, Nat.and_two_pow_sub_one_eq_mod x.toNat 2]
  omega

/-- The four bits carried over from the second byte. -/
lemma toNat_carry_c : ((x &&& 0x00f) <<< 2).toNat = x.toNat % 16 * 4 := by
  rw [UInt8.toNat_shiftLeft, UInt8.toNat_and]
  change (x.toNat &&& 15) <<< 2 % 256 = _
  rw [Nat.shiftLeft_eq, Nat.and_two_pow_sub_one_eq_mod x.toNat 4]
  omega

/-- The first character of a group. -/
lemma value_a : base64EncodeValue ((x &&& 0x0fc) >>> 2) = base64 (x.toNat / 4) := by
  have hx := x.toNat_lt
  refine base64EncodeValue_eq ?_ (by omega)
  rw [UInt8.toNat_shiftRight, UInt8.toNat_and]
  exact @and_shiftRight x 252 2 6 rfl (by omega)

/-- The second, from two bytes. -/
lemma value_b : base64EncodeValue (((x &&& 0x003) <<< 4) ||| ((y &&& 0x0f0) >>> 4)) =
    base64 (x.toNat % 4 * 16 + y.toNat / 16) := by
  have hy := y.toNat_lt
  have hhigh : (y.toNat &&& 240) >>> 4 = y.toNat / 16 := @and_shiftRight y 240 4 4 rfl (by omega)
  refine base64EncodeValue_eq ?_ (by omega)
  rw [UInt8.toNat_or, toNat_carry_b, UInt8.toNat_shiftRight, UInt8.toNat_and]
  change x.toNat % 4 * 2 ^ 4 ||| (y.toNat &&& 240) >>> 4 = _
  rw [hhigh, ← Nat.shiftLeft_eq, ← Nat.shiftLeft_add_eq_or_of_lt (by omega), Nat.shiftLeft_eq]

/-- The third, from two bytes. -/
lemma value_c : base64EncodeValue (((x &&& 0x00f) <<< 2) ||| ((y &&& 0x0c0) >>> 6)) =
    base64 (x.toNat % 16 * 4 + y.toNat / 64) := by
  have hy := y.toNat_lt
  have hhigh : (y.toNat &&& 192) >>> 6 = y.toNat / 64 := @and_shiftRight y 192 6 2 rfl (by omega)
  refine base64EncodeValue_eq ?_ (by omega)
  rw [UInt8.toNat_or, toNat_carry_c, UInt8.toNat_shiftRight, UInt8.toNat_and]
  change x.toNat % 16 * 2 ^ 2 ||| (y.toNat &&& 192) >>> 6 = _
  rw [hhigh, ← Nat.shiftLeft_eq, ← Nat.shiftLeft_add_eq_or_of_lt (by omega), Nat.shiftLeft_eq]

/-- The last one. -/
lemma value_d : base64EncodeValue (x &&& 0x03f) = base64 (x.toNat % 64) := by
  refine base64EncodeValue_eq ?_ (by omega)
  rw [UInt8.toNat_and]
  exact Nat.and_two_pow_sub_one_eq_mod x.toNat 6

end Characters

/-- From the beginning of a group on, the machine puts out the encoding, but for the characters that
only the end of the data decides. -/
lemma feed_encodeByte (r : UInt8) (d : List UInt8) :
    (feed encodeByte ⟨.a, r⟩ d).2 ++ finalChars (feed encodeByte ⟨.a, r⟩ d).1 = encoded d := by
  fun_induction encoded d generalizing r with
  | case1 i0 i1 i2 src o ih =>
    simp only [feed, encodeByte, List.cons_append, List.nil_append, value_a, value_b, value_c,
      value_d, ih, o, output_eq]
  | case2 i0 i1 o =>
    have hcarry : base64EncodeValue ((i1 &&& 0x00f) <<< 2) = base64 (i1.toNat % 16 * 4) :=
      base64EncodeValue_eq (toNat_carry_c i1) (by omega)
    simp only [feed, encodeByte, finalChars, List.cons_append, List.nil_append, value_a, value_b,
      hcarry, o, output_eq]
    rfl
  | case3 i0 o =>
    have hcarry : base64EncodeValue ((i0 &&& 0x003) <<< 4) = base64 (i0.toNat % 4 * 16) :=
      base64EncodeValue_eq (toNat_carry_b i0) (by omega)
    simp only [feed, encodeByte, finalChars, List.cons_append, List.nil_append, value_a, hcarry, o,
      output_eq]
    rfl
  | case4 => rfl

/-- The pieces, and what the end of the data adds. -/
lemma encodePieces_eq (pieces : List (List UInt8)) (out : List UInt8) :
    encodePieces pieces out = (writeRun out 0 (encoded pieces.flatten)).map fun out =>
      ((encoded pieces.flatten).length, out) := by
  have hstream := feedInto_flatten encodeByte
    (fun S data _ _ h => base64EncodeUpdate_eq S data h) base64EncodeInit pieces
    (Nat.zero_le out.length)
  have hchars : (feed encodeByte base64EncodeInit pieces.flatten).2 ++
      finalChars (feed encodeByte base64EncodeInit pieces.flatten).1 = encoded pieces.flatten :=
    feed_encodeByte 0 pieces.flatten
  unfold encodePieces
  rw [hstream, ← hchars, ← writeRun_append, feedInto, Option.bind_eq_bind, Option.bind_map,
    Option.map_bind]
  apply writeRun_bind_congr
  intro out' hle
  dsimp only [Function.comp_apply]
  rw [base64EncodeFinal_eq _ hle, List.length_append, Nat.zero_add]

/-- `base64Encode` gives the encoder all of its data at once. -/
lemma base64Encode_eq_encodePieces (data out : List UInt8) :
    base64Encode data out = encodePieces [data] out := by
  simp only [base64Encode, encodePieces, List.foldlM_cons, List.foldlM_nil, Option.bind_eq_bind,
    Option.bind_assoc]
  rfl

/-- However the data is cut into pieces, the calls write the text of RFC 1521 for the whole of it at
the beginning of the block and nothing behind it, and report its length; they do so exactly if the
block has room for the text. One call with all the data is a special case. -/
theorem encodePieces_rfc1521 (pieces : List (List UInt8)) (out : List UInt8) :
    let n := 4 * ((pieces.flatten.length + 2) / 3)
    (rfc1521 pieces.flatten).length = n ∧
      encodePieces pieces out =
        (if n ≤ out.length then some (n, rfc1521 pieces.flatten ++ out.drop n) else none) ∧
      base64Encode pieces.flatten out = encodePieces pieces out := by
  have hlen : (encoded pieces.flatten).length = 4 * ((pieces.flatten.length + 2) / 3) := by
    rw [length_encoded, Nat.mul_comm]
  dsimp only
  refine ⟨?_, ?_, ?_⟩
  · rw [← encoded_eq_rfc1521, hlen]
  · rw [encodePieces_eq, ← encoded_eq_rfc1521]
    by_cases h : 4 * ((pieces.flatten.length + 2) / 3) ≤ out.length
    · rw [if_pos h, writeRun_of_le (by rw [Nat.zero_add, hlen]; exact h), overwrite, Nat.zero_add,
        hlen]
      rfl
    · rw [if_neg h, writeRun_of_lt (by rw [Nat.zero_add, hlen]; exact Nat.not_le.1 h)]
      rfl
  · rw [base64Encode_eq_encodePieces, encodePieces_eq, encodePieces_eq, List.flatten_singleton]

end CcodeTest.Certificate
