import CcodeTest.Base64.Codec
import CcodeTest.Lib.Word

/-!
# The streaming decoder

The decoder of `base64decode.c` and the way `load_ccert` calls it. It takes one character at a time:
the four steps of a group are the labels of its `switch`, and the byte under construction stays in
the output at `plainchar`. `Bufs` is as in `Base64.Codec`, so decoding in place and into a buffer of
its own are two cases of one definition, and `none` is an access outside a block.

`decodeLoop_spec` says for both what the loop leaves. Two things keep `base64decode` from it. It
passes the pointer `length` where the length belongs, and before the first character is read the
byte under construction, zero, is stored over it. `base64decode_agrees_iff` says when the result is
right all the same.
-/

namespace CcodeTest.Certificate
open CcodeTest.Lib CcodeTest.Base64

/-- `decoding[]`. -/
def decoding : List Int :=
  [62, -1, -1, -1, 63, 52, 53, 54, 55, 56, 57, 58, 59, 60, 61, -1, -1, -1, -2, -1, -1, -1,
   0, 1, 2, 3, 4, 5, 6, 7, 8, 9, 10, 11, 12, 13, 14, 15, 16, 17, 18, 19, 20, 21, 22, 23, 24, 25,
   -1, -1, -1, -1, -1, -1,
   26, 27, 28, 29, 30, 31, 32, 33, 34, 35, 36, 37, 38, 39, 40, 41, 42, 43, 44, 45, 46, 47, 48, 49,
   50, 51]

/-- `base64_decode_value(value_in)`; `value_in -= 43` wraps around in a `char`. -/
def base64DecodeValue (valueIn : Int8) : Int :=
  let valueIn := valueIn - 43
  if valueIn < 0 ∨ valueIn ≥ 80 then -1 else decoding.getD valueIn.toInt.toNat 0

/-- `base64_decodestep`. -/
inductive DecodeStep
  | a
  | b
  | c
  | d
deriving DecidableEq

/-- `base64_decodestate`. -/
structure DecodeState where
  step : DecodeStep
  plainchar : UInt8
deriving DecidableEq

/-- `base64_init_decodestate`. -/
def base64InitDecodestate : DecodeState := ⟨.a, 0⟩

/-- The statements after the inner loop of each step, with a `fragment` that is not negative. -/
def decodeFragment : DecodeStep → Nat → Nat → Bufs → Option (DecodeStep × Nat × Bufs)
  | .a, fragment, plainchar, b => do
    let b ← b.put plainchar (UInt8.ofNat ((fragment &&& 0x03f) <<< 2))
    return (.b, plainchar, b)
  | .b, fragment, plainchar, b => do
    let b ← b.put plainchar ((← b.out[plainchar]?) ||| UInt8.ofNat ((fragment &&& 0x030) >>> 4))
    let b ← b.put (plainchar + 1) (UInt8.ofNat ((fragment &&& 0x00f) <<< 4))
    return (.c, plainchar + 1, b)
  | .c, fragment, plainchar, b => do
    let b ← b.put plainchar ((← b.out[plainchar]?) ||| UInt8.ofNat ((fragment &&& 0x03c) >>> 2))
    let b ← b.put (plainchar + 1) (UInt8.ofNat ((fragment &&& 0x003) <<< 6))
    return (.d, plainchar + 1, b)
  | .d, fragment, plainchar, b => do
    let b ← b.put plainchar ((← b.out[plainchar]?) ||| UInt8.ofNat (fragment &&& 0x03f))
    return (.a, plainchar + 1, b)

/-- The loop, on the number of characters left; `codechar` and `plainchar` are offsets from
`code_in` and `plaintext_out`. A character without a value leaves the step as it is. -/
def decodeLoop : Nat → DecodeStep → Nat → Nat → Bufs → Option (Nat × DecodeState × Bufs)
  | 0, step, _, plainchar, b => do
    return (plainchar, ⟨step, ← b.out[plainchar]?⟩, b)
  | left + 1, step, codechar, plainchar, b => do
    let fragment := base64DecodeValue (← b.coded[codechar]?).toInt8
    if fragment < 0 then decodeLoop left step (codechar + 1) plainchar b
    else
      let (step, plainchar, b) ← decodeFragment step fragment.toNat plainchar b
      decodeLoop left step (codechar + 1) plainchar b

/-- `base64_decode_block(code_in, length_in, plaintext_out, state_in)`. With a negative length
`codechar` starts behind the end it is compared with and runs out of the block. -/
def base64DecodeBlock (b : Bufs) (lengthIn : Int) (stateIn : DecodeState) :
    Option (Nat × DecodeState × Bufs) := do
  let b ← b.put 0 stateIn.plainchar
  if lengthIn < 0 then none else decodeLoop lengthIn.toNat stateIn.step 0 0 b

/-- An `int *`: where it points, and the `int` that is there. -/
structure IntPtr where
  addr : Nat
  val : Int

/-- `base64decode(code_in, length, place_in)`: `*length` and the block at `code_in` afterwards. The
length that is passed on is the pointer, converted to an `int`. -/
def base64decode (codeIn : List UInt8) (length : IntPtr) (placeIn : Bool) :
    Option (Int × List UInt8) :=
  if placeIn then do
    let (n, _, b) ← base64DecodeBlock ⟨codeIn, none⟩ (int32 length.addr) base64InitDecodestate
    return (n, b.out)
  else some (length.val, codeIn)

/-- The values of the characters that have one. -/
def sextets (cs : List UInt8) : List Nat :=
  cs.filterMap fun c =>
    if base64DecodeValue c.toInt8 < 0 then none else some (base64DecodeValue c.toInt8).toNat

/-- The bytes that are completed from a step on, `cell` being the byte under construction. -/
def emitted : DecodeStep → UInt8 → List Nat → List UInt8
  | _, _, [] => []
  | .a, _, v :: vs => emitted .b (UInt8.ofNat ((v &&& 0x03f) <<< 2)) vs
  | .b, cell, v :: vs =>
    (cell ||| UInt8.ofNat ((v &&& 0x030) >>> 4)) :: emitted .c (UInt8.ofNat ((v &&& 0x00f) <<< 4)) vs
  | .c, cell, v :: vs =>
    (cell ||| UInt8.ofNat ((v &&& 0x03c) >>> 2)) :: emitted .d (UInt8.ofNat ((v &&& 0x003) <<< 6)) vs
  | .d, cell, v :: vs => (cell ||| UInt8.ofNat (v &&& 0x03f)) :: emitted .a 0 vs

/-- Two runs of six-bit values agree in all the bits that make up whole bytes: in every group of
four, and of a last group that is cut off, in the values before the cut and the high bits of the
last one. -/
def SameWhole : List Nat → List Nat → Prop
  | v0 :: v1 :: v2 :: v3 :: vs, w0 :: w1 :: w2 :: w3 :: ws =>
    v0 = w0 ∧ v1 = w1 ∧ v2 = w2 ∧ v3 = w3 ∧ SameWhole vs ws
  | [v0, v1, v2], [w0, w1, w2] => v0 = w0 ∧ v1 = w1 ∧ v2 / 4 = w2 / 4
  | [v0, v1], [w0, w1] => v0 = w0 ∧ v1 / 16 = w1 / 16
  | vs, ws => vs.length ≤ 1 ∧ ws.length ≤ 1

/-- 1 if a byte is under construction. -/
def DecodeStep.begun : DecodeStep → Nat
  | .a => 0
  | _ => 1

/-- There is room for the rest of a run. In place the output stays behind the input; a buffer of its
own has a cell for every character that is left. -/
structure Fits (b : Bufs) (step : DecodeStep) (i k p : Nat) : Prop where
  coded : i + k ≤ b.coded.length
  out : p < b.out.length
  behind : b.plain = none → p + step.begun ≤ i
  room : b.plain ≠ none → p + k < b.out.length

section Loop

variable {b : Bufs} {step step' : DecodeStep} {i k p p' : Nat} {o : List UInt8}

/-- Writing does not change whether the buffers are one. -/
lemma plain_withOut : (b.withOut o).plain = none ↔ b.plain = none := by
  obtain ⟨c, _ | q⟩ := b
  · exact Iff.rfl
  · simp only [Bufs.withOut, reduceCtorEq]

/-- In place what is read is what is written. -/
lemma coded_of_inPlace (h : b.plain = none) : b.coded = b.out := by
  obtain ⟨c, _ | q⟩ := b
  · rfl
  · cases h

/-- A character is read and nothing written. -/
lemma Fits.skip (h : Fits b step i (k + 1) p) : Fits b step (i + 1) k p := by
  obtain ⟨hc, ho, hb, hr⟩ := h
  refine ⟨by omega, ho, ?_, ?_⟩
  · intro hp
    exact Nat.le_succ_of_le (hb hp)
  · intro hp
    have := hr hp
    omega

/-- At most one cell has been begun. -/
lemma DecodeStep.begun_le (step : DecodeStep) : step.begun ≤ 1 := by
  cases step with
  | a => exact Nat.zero_le 1
  | b | c | d => exact Nat.le_refl 1

/-- A step has room for the byte under construction and for the next one. -/
lemma Fits.lt_out (h : Fits b step i (k + 1) p) (hp : p' ≤ p + step.begun) : p' < b.out.length := by
  have hbegun := step.begun_le
  by_cases hpl : b.plain = none
  · have hb := h.behind hpl
    have hc := h.coded
    rw [coded_of_inPlace hpl] at hc
    omega
  · have hr := h.room hpl
    omega

/-- A step writes at most one cell ahead, and only over what has been read. -/
lemma Fits.next (h : Fits b step i (k + 1) p) (ho : o.length = b.out.length)
    (hp : p' ≤ p + step.begun) (hp' : p' + step'.begun ≤ p + step.begun + 1) :
    Fits (b.withOut o) step' (i + 1) k p' := by
  have hcoded : i + 1 + k ≤ (b.withOut o).coded.length := by
    rw [length_coded_withOut ho]
    have := h.coded
    omega
  have hbegun := step.begun_le
  refine ⟨hcoded, ?_, ?_, ?_⟩
  · rw [out_withOut, ho]
    exact h.lt_out hp
  · intro hpl
    have hb := h.behind (plain_withOut.1 hpl)
    omega
  · intro hpl
    have hr := h.room fun he => hpl (plain_withOut.2 he)
    rw [out_withOut, ho]
    omega

/-- What is still to be read is as before. -/
lemma Fits.drop_coded (h : Fits b step i (k + 1) p)
    (hsame : ∀ j, p + step.begun < j → o[j]? = b.out[j]?) :
    (b.withOut o).coded.drop (i + 1) = b.coded.drop (i + 1) := by
  by_cases hpl : b.plain = none
  · have hb := h.behind hpl
    apply List.ext_getElem?
    intro j
    rw [List.getElem?_drop, List.getElem?_drop]
    exact coded_withOut (hsame _ (by omega))
  · obtain ⟨c, _ | q⟩ := b
    · exact absurd rfl hpl
    · rfl

end Loop

/-- What the statements of a step do with a value: `now` is the byte they complete, if any. -/
structure Advances (b : Bufs) (step : DecodeStep) (cell : UInt8) (v p : Nat) (step' : DecodeStep)
    (o now : List UInt8) : Prop where
  eq : decodeFragment step v p b = some (step', p + now.length, b.withOut o)
  length : o.length = b.out.length
  same : ∀ j, p + step.begun < j → o[j]? = b.out[j]?
  le : now.length ≤ step.begun
  begun : now.length + step'.begun ≤ step.begun + 1
  take : o.take (p + now.length) = b.out.take p ++ now
  emitted : ∃ cell', o[p + now.length]? = some cell' ∧
    ∀ vs, emitted step cell (v :: vs) = now ++ emitted step' cell' vs

/-- Outside a group the cell at `plainchar` does not matter. -/
lemma emitted_a (x y : UInt8) (vs : List Nat) : emitted .a x vs = emitted .a y vs := by
  cases vs with
  | nil => rfl
  | cons v vs => rfl

section Step

variable {b : Bufs} {cell : UInt8} {v p : Nat}

/-- The first character of a group begins a byte. -/
lemma advances_a (h : p < b.out.length) :
    Advances b .a cell v p .b (b.out.set p (UInt8.ofNat ((v &&& 0x03f) <<< 2))) [] where
  eq := by
    simp only [decodeFragment, put_eq h, Option.bind_eq_bind, Option.bind_some]
    rfl
  length := List.length_set
  same := by
    intro j hj
    exact List.getElem?_set_ne (Nat.ne_of_lt hj)
  le := Nat.le_refl 0
  begun := Nat.le_refl 1
  take := by
    rw [List.append_nil]
    exact List.take_set_of_le (Nat.le_refl p)
  emitted := ⟨_, List.getElem?_set_self h, fun vs => rfl⟩

/-- The two steps in the middle of a group complete a byte and begin the next one. -/
lemma advances_middle {step step' : DecodeStep} {x y : UInt8} (h : p + 1 < b.out.length)
    (heq : decodeFragment step v p b = (b.put p x).bind fun b => (b.put (p + 1) y).bind
      fun b => some (step', p + 1, b))
    (hstep : step.begun = 1) (hstep' : step'.begun = 1)
    (hemit : ∀ vs, emitted step cell (v :: vs) = x :: emitted step' y vs) :
    Advances b step cell v p step' ((b.out.set p x).set (p + 1) y) [x] where
  eq := by
    rw [heq, put_eq (Nat.lt_of_succ_lt h), Option.bind_some, put_eq (by simpa using h), out_withOut,
      withOut_withOut]
    rfl
  length := by rw [List.length_set, List.length_set]
  same := by
    intro j hj
    rw [List.getElem?_set_ne (by omega), List.getElem?_set_ne (by omega)]
  le := by rw [hstep]; rfl
  begun := by rw [hstep, hstep']; rfl
  take := by
    rw [List.length_singleton, List.take_set_of_le (Nat.le_refl _),
      List.take_succ_eq_append_getElem (by simpa using Nat.lt_of_succ_lt h), List.getElem_set_self,
      List.take_set_of_le (Nat.le_refl p)]
  emitted := ⟨y, List.getElem?_set_self (by simpa using h), hemit⟩

/-- The last one completes a byte and begins none. -/
lemma advances_d (h : p + 1 < b.out.length) (hcell : b.out[p]? = some cell) :
    Advances b .d cell v p .a (b.out.set p (cell ||| UInt8.ofNat (v &&& 0x03f)))
      [cell ||| UInt8.ofNat (v &&& 0x03f)] where
  eq := by
    simp only [decodeFragment, hcell, put_eq (Nat.lt_of_succ_lt h), Option.bind_eq_bind,
      Option.bind_some]
    rfl
  length := List.length_set
  same := by
    intro j hj
    exact List.getElem?_set_ne (Nat.ne_of_lt (Nat.lt_of_le_of_lt (Nat.le_add_right p 1) hj))
  le := Nat.le_refl 1
  begun := Nat.le_succ 1
  take := by
    rw [List.length_singleton, List.take_succ_eq_append_getElem (by
      simpa using Nat.lt_of_succ_lt h), List.getElem_set_self, List.take_set_of_le (Nat.le_refl p)]
  emitted := by
    refine ⟨b.out[p + 1], ?_, ?_⟩
    · rw [List.length_singleton, List.getElem?_set_ne (Nat.ne_of_lt (Nat.lt_succ_self p))]
      exact List.getElem?_eq_getElem h
    · intro vs
      rw [emitted_a b.out[p + 1] 0]
      rfl

/-- Every step, in a run that fits. -/
lemma Fits.advances {step : DecodeStep} {i k : Nat} (h : Fits b step i (k + 1) p)
    (hcell : b.out[p]? = some cell) (v : Nat) :
    ∃ step' o now, Advances b step cell v p step' o now := by
  have hnext : step.begun = 1 → p + 1 < b.out.length :=
    fun hs => h.lt_out (Nat.add_le_add_left (Nat.le_of_eq hs.symm) p)
  cases step with
  | a => exact ⟨_, _, _, advances_a h.out⟩
  | b =>
    refine ⟨_, _, _, advances_middle (hnext rfl) ?_ rfl rfl fun vs => rfl⟩
    simp only [decodeFragment, hcell, Option.bind_eq_bind, Option.bind_some]
    rfl
  | c =>
    refine ⟨_, _, _, advances_middle (hnext rfl) ?_ rfl rfl fun vs => rfl⟩
    simp only [decodeFragment, hcell, Option.bind_eq_bind, Option.bind_some]
    rfl
  | d => exact ⟨_, _, _, advances_d (hnext rfl) hcell⟩

end Step

section Run

variable {b : Bufs} {step : DecodeStep} {i k p : Nat} {cell c : UInt8}

/-- The values of one more character. -/
lemma sextets_cons (c : UInt8) (cs : List UInt8) : sextets (c :: cs) =
    if base64DecodeValue c.toInt8 < 0 then sextets cs
    else (base64DecodeValue c.toInt8).toNat :: sextets cs := by
  unfold sextets
  rw [List.filterMap_cons]
  split_ifs <;> rfl

/-- What the loop leaves: from `p` on, the bytes that the characters left to read complete, as they
were when the loop began. -/
lemma decodeLoop_spec (h : Fits b step i k p) (hcell : b.out[p]? = some cell) :
    ∃ e state b', e = emitted step cell (sextets ((b.coded.drop i).take k)) ∧
      decodeLoop k step i p b = some (p + e.length, state, b') ∧
      b'.out.take (p + e.length) = b.out.take p ++ e := by
  induction k generalizing b step i p cell with
  | zero =>
    refine ⟨[], ⟨step, cell⟩, b, ?_, ?_, ?_⟩
    · rw [List.take_zero]
      cases step <;> rfl
    · simp only [decodeLoop, hcell, Option.bind_eq_bind, Option.bind_some]
      rfl
    · rw [List.append_nil]
      rfl
  | succ k ih =>
    have hi : i < b.coded.length := by
      have := h.coded
      omega
    have hread : (b.coded.drop i).take (k + 1) =
        b.coded[i] :: (b.coded.drop (i + 1)).take k := by
      rw [List.drop_eq_getElem_cons hi, List.take_succ_cons]
    rw [hread, sextets_cons]
    simp only [decodeLoop, List.getElem?_eq_getElem hi, Option.bind_eq_bind, Option.bind_some]
    split
    · exact ih h.skip hcell
    · obtain ⟨step', o, now, adv⟩ := h.advances hcell (base64DecodeValue b.coded[i].toInt8).toNat
      obtain ⟨cell', hcell', hemit⟩ := adv.emitted
      have hbegun : p + now.length + step'.begun ≤ p + step.begun + 1 := by
        have := adv.begun
        omega
      have hfit := h.next adv.length (Nat.add_le_add_left adv.le p) hbegun
      obtain ⟨e, state, b', he, hrun, htake⟩ := ih hfit (by rwa [out_withOut])
      rw [h.drop_coded adv.same] at he
      refine ⟨now ++ e, state, b', ?_, ?_, ?_⟩
      · rw [hemit, he]
      · rw [adv.eq, Option.bind_some, hrun, List.length_append, Nat.add_assoc]
      · rw [List.length_append, ← Nat.add_assoc, htake, out_withOut, adv.take, List.append_assoc]

/-- A step keeps the length of the code. -/
lemma length_coded_decodeFragment {v : Nat} {r : DecodeStep × Nat × Bufs}
    (h : decodeFragment step v p b = some r) : r.2.2.coded.length = b.coded.length := by
  cases step with
  | a =>
    obtain ⟨b₁, h₁, hr⟩ := Option.bind_eq_some_iff.1 h
    cases hr
    exact length_coded_put h₁
  | b | c =>
    obtain ⟨x, -, h⟩ := Option.bind_eq_some_iff.1 h
    obtain ⟨b₁, h₁, h⟩ := Option.bind_eq_some_iff.1 h
    obtain ⟨b₂, h₂, hr⟩ := Option.bind_eq_some_iff.1 h
    cases hr
    exact (length_coded_put h₂).trans (length_coded_put h₁)
  | d =>
    obtain ⟨x, -, h⟩ := Option.bind_eq_some_iff.1 h
    obtain ⟨b₁, h₁, hr⟩ := Option.bind_eq_some_iff.1 h
    cases hr
    exact length_coded_put h₁

/-- A run that stays inside the block reads as many characters as it was told to. -/
lemma length_of_decodeLoop {r : Nat × DecodeState × Bufs} (h : decodeLoop k step i p b = some r)
    (hi : i ≤ b.coded.length) : i + k ≤ b.coded.length := by
  induction k generalizing b step i p with
  | zero => exact hi
  | succ k ih =>
    obtain ⟨c, hc, h⟩ := Option.bind_eq_some_iff.1 h
    obtain ⟨hlt, -⟩ := List.getElem?_eq_some_iff.1 hc
    dsimp only at h
    split at h
    · have := ih h hlt
      omega
    · obtain ⟨⟨step', p', b'⟩, hf, h⟩ := Option.bind_eq_some_iff.1 h
      have hlen := length_coded_decodeFragment hf
      have := ih h (by rw [hlen]; exact hlt)
      rw [hlen] at this
      omega

end Run

section Whole

variable {v w v' w' : Nat} {vs ws : List Nat}

/-- A value has six bits. -/
lemma base64DecodeValue_lt (c : Int8) : base64DecodeValue c < 64 := by
  have hall : ∀ x ∈ decoding, x < 64 := by decide
  unfold base64DecodeValue
  dsimp only
  split
  · decide
  · rw [List.getD_eq_getElem?_getD]
    cases hx : decoding[(c - 43).toInt.toNat]? with
    | none => decide
    | some x => exact hall x (List.mem_of_getElem? hx)

/-- So have all of them. -/
lemma sextets_lt {cs : List UInt8} (h : v ∈ sextets cs) : v < 64 := by
  obtain ⟨c, -, hv⟩ := List.mem_filterMap.1 h
  have hlt := base64DecodeValue_lt c.toInt8
  split at hv
  · cases hv
  · cases hv
    omega

/-- Two runs of bits side by side in a byte. -/
lemma toNat_or_ofNat {x y s : Nat} (hx : x * 2 ^ s + y < 256) (hy : y < 2 ^ s) :
    (UInt8.ofNat (x <<< s) ||| UInt8.ofNat y).toNat = x * 2 ^ s + y := by
  rw [UInt8.toNat_or, UInt8.toNat_ofNat', UInt8.toNat_ofNat', Nat.mod_eq_of_lt, Nat.mod_eq_of_lt,
    ← Nat.shiftLeft_add_eq_or_of_lt hy, Nat.shiftLeft_eq]
  · omega
  · rw [Nat.shiftLeft_eq]
    omega

/-! The three bytes of a group, as numbers. -/

/-- The byte of the first two values, as a number. -/
lemma toNat_byte_b (hv : v < 64) (hw : w < 64) :
    (UInt8.ofNat ((v &&& 0x03f) <<< 2) ||| UInt8.ofNat ((w &&& 0x030) >>> 4)).toNat =
      v * 4 + w / 16 := by
  have h1 : v &&& 0x03f = v := by
    rw [Nat.and_two_pow_sub_one_eq_mod v 6, Nat.mod_eq_of_lt hv]
  have h2 : (w &&& 0x030) >>> 4 = w / 16 := by
    rw [Nat.shiftRight_and_distrib, Nat.shiftRight_eq_div_pow]
    exact (Nat.and_two_pow_sub_one_eq_mod (w / 16) 2).trans (Nat.mod_eq_of_lt (by omega))
  rw [h1, h2]
  exact toNat_or_ofNat (by omega) (by omega)

/-- The byte of the second and the third. -/
lemma toNat_byte_c (hw : w < 64) :
    (UInt8.ofNat ((v &&& 0x00f) <<< 4) ||| UInt8.ofNat ((w &&& 0x03c) >>> 2)).toNat =
      v % 16 * 16 + w / 4 := by
  have h1 : v &&& 0x00f = v % 16 := Nat.and_two_pow_sub_one_eq_mod v 4
  have h2 : (w &&& 0x03c) >>> 2 = w / 4 := by
    rw [Nat.shiftRight_and_distrib, Nat.shiftRight_eq_div_pow]
    exact (Nat.and_two_pow_sub_one_eq_mod (w / 4) 4).trans (Nat.mod_eq_of_lt (by omega))
  rw [h1, h2]
  exact toNat_or_ofNat (by omega) (by omega)

/-- The byte of the third and the fourth. -/
lemma toNat_byte_d (hw : w < 64) :
    (UInt8.ofNat ((v &&& 0x003) <<< 6) ||| UInt8.ofNat (w &&& 0x03f)).toNat = v % 4 * 64 + w := by
  have h1 : v &&& 0x003 = v % 4 := Nat.and_two_pow_sub_one_eq_mod v 2
  have h2 : w &&& 0x03f = w := by
    rw [Nat.and_two_pow_sub_one_eq_mod w 6, Nat.mod_eq_of_lt hw]
  rw [h1, h2]
  exact toNat_or_ofNat (by omega) (by omega)

/-- The condition on the values, for the bytes they make. -/
lemma emitted_eq_iff (hv : ∀ v ∈ vs, v < 64) (hw : ∀ w ∈ ws, w < 64) (x y : UInt8) :
    emitted .a x vs = emitted .a y ws ↔ SameWhole vs ws := by
  fun_induction SameWhole vs ws generalizing x y with
  | case1 v0 v1 v2 v3 vs w0 w1 w2 w3 ws ih =>
    simp only [List.forall_mem_cons] at hv hw
    obtain ⟨h0, h1, h2, h3, hvs⟩ := hv
    obtain ⟨g0, g1, g2, g3, hws⟩ := hw
    simp only [emitted, List.cons.injEq, ← UInt8.toNat_inj, toNat_byte_b h0 h1, toNat_byte_b g0 g1,
      toNat_byte_c h2, toNat_byte_c g2, toNat_byte_d h3, toNat_byte_d g3, ih hvs hws]
    constructor
    · rintro ⟨e0, e1, e2, e⟩
      exact ⟨by omega, by omega, by omega, by omega, e⟩
    · rintro ⟨rfl, rfl, rfl, rfl, e⟩
      exact ⟨rfl, rfl, rfl, e⟩
  | case2 v0 v1 v2 w0 w1 w2 =>
    simp only [List.forall_mem_cons] at hv hw
    obtain ⟨h0, h1, h2, -⟩ := hv
    obtain ⟨g0, g1, g2, -⟩ := hw
    simp only [emitted, List.cons.injEq, ← UInt8.toNat_inj, toNat_byte_b h0 h1, toNat_byte_b g0 g1,
      toNat_byte_c h2, toNat_byte_c g2, and_true]
    omega
  | case3 v0 v1 w0 w1 =>
    simp only [List.forall_mem_cons] at hv hw
    obtain ⟨h0, h1, -⟩ := hv
    obtain ⟨g0, g1, -⟩ := hw
    simp only [emitted, List.cons.injEq, ← UInt8.toNat_inj, toNat_byte_b h0 h1, toNat_byte_b g0 g1,
      and_true]
    omega
  | case4 vs ws h4 h3 h2 =>
    -- the two runs do not complete the same number of bytes, or complete none
    rcases vs with _ | ⟨v0, _ | ⟨v1, _ | ⟨v2, _ | ⟨v3, vs⟩⟩⟩⟩
      <;> rcases ws with _ | ⟨w0, _ | ⟨w1, _ | ⟨w2, _ | ⟨w3, ws⟩⟩⟩⟩
    all_goals first
      | exact (h4 _ _ _ _ _ _ _ _ _ _ rfl rfl).elim
      | exact (h3 _ _ _ _ _ _ rfl rfl).elim
      | exact (h2 _ _ _ _ rfl rfl).elim
      | simp [emitted]

end Whole

/-- In place, and with the length at `addr`, the call reports and leaves what `base64_decode_block`
makes of the same characters in any buffer of its own that is larger than the text. -/
def DecodesLikeCopy (text rest : List UInt8) (addr : Nat) : Prop :=
  ∃ len code, base64decode (text ++ 0 :: rest) ⟨addr, text.length⟩ true = some (len, code) ∧
    ∀ plain : List UInt8, text.length < plain.length →
      ∃ n state b, base64DecodeBlock ⟨text ++ 0 :: rest, some plain⟩ text.length
        base64InitDecodestate = some (n, state, b) ∧ len = n ∧ code.take n = b.out.take n

section Call

variable {b : Bufs} {code : List UInt8} {k addr : Nat}

/-- A call that fits decodes the characters as they are after the first store. -/
lemma base64DecodeBlock_eq (hk : k ≤ b.coded.length) (ho : 0 < b.out.length)
    (hroom : b.plain ≠ none → k < b.out.length) :
    ∃ e state b', e = emitted .a 0 (sextets ((b.withOut (b.out.set 0 0)).coded.take k)) ∧
      base64DecodeBlock b k base64InitDecodestate = some (e.length, state, b') ∧
      b'.out.take e.length = e := by
  have hfit : Fits (b.withOut (b.out.set 0 0)) .a 0 k 0 := by
    refine ⟨?_, ?_, fun _ => Nat.le_refl 0, ?_⟩
    · rw [length_coded_withOut List.length_set, Nat.zero_add]
      exact hk
    · rwa [out_withOut, List.length_set]
    · intro hpl
      rw [out_withOut, List.length_set, Nat.zero_add]
      exact hroom fun he => hpl (plain_withOut.2 he)
  have hcell : (b.withOut (b.out.set 0 0)).out[0]? = some 0 := by
    rw [out_withOut]
    exact List.getElem?_set_self ho
  obtain ⟨e, state, b', he, hrun, htake⟩ := decodeLoop_spec hfit hcell
  rw [List.drop_zero] at he
  rw [Nat.zero_add] at hrun htake
  refine ⟨e, state, b', he, ?_, htake⟩
  have hneg : ¬ (k : Int) < 0 := Int.not_lt.2 (Int.natCast_nonneg k)
  simp only [base64DecodeBlock, base64InitDecodestate, put_eq ho, Option.bind_eq_bind,
    Option.bind_some, if_neg hneg]
  exact hrun

/-- The zero that is stored first has no value: in place, the first character is lost. -/
lemma sextets_set_zero (code : List UInt8) (k : Nat) :
    sextets ((code.set 0 0).take k) = sextets (code.take k).tail := by
  cases code with
  | nil => simp
  | cons c cs =>
    cases k with
    | zero => rfl
    | succ k => rfl

/-- The whole text at once, into another buffer. -/
lemma decode_copy (text rest : List UInt8) {plain : List UInt8} (h : text.length < plain.length) :
    ∃ state b, base64DecodeBlock ⟨text ++ 0 :: rest, some plain⟩ text.length
        base64InitDecodestate = some ((emitted .a 0 (sextets text)).length, state, b) ∧
      b.out.take (emitted .a 0 (sextets text)).length = emitted .a 0 (sextets text) := by
  have hlen : text.length ≤ (text ++ 0 :: rest).length := by
    rw [List.length_append]
    exact Nat.le_add_right _ _
  obtain ⟨e, state, b, he, hrun, htake⟩ := base64DecodeBlock_eq (b := ⟨text ++ 0 :: rest, some plain⟩)
    hlen (Nat.zero_lt_of_lt h) (fun _ => h)
  have htext : e = emitted .a 0 (sextets text) := by
    rw [he]
    exact congrArg (fun l => emitted .a 0 (sextets l)) (List.take_left' rfl)
  subst htext
  exact ⟨state, b, hrun, htake⟩

/-- The call in place, from the character the address counts off. -/
lemma decode_inPlace (hcode : 0 < code.length) (h0 : 0 ≤ int32 addr)
    (h1 : int32 addr ≤ code.length) (v : Int) :
    ∃ e code', e = emitted .a 0 (sextets (code.take (int32 addr).toNat).tail) ∧
      base64decode code ⟨addr, v⟩ true = some ((e.length : Int), code') ∧
      code'.take e.length = e := by
  obtain ⟨k, hk⟩ := Int.eq_ofNat_of_zero_le h0
  rw [hk] at h1 ⊢
  obtain ⟨e, state, b, he, hrun, htake⟩ := base64DecodeBlock_eq (b := ⟨code, none⟩)
    (Int.ofNat_le.1 h1) hcode (fun h => absurd rfl h)
  refine ⟨e, b.out, ?_, ?_, htake⟩
  · rw [he, Int.toNat_natCast, ← sextets_set_zero]
    rfl
  · simp only [base64decode, hk, hrun, if_true, Option.bind_eq_bind, Option.bind_some]
    rfl

/-- A length that is negative or beyond the block leads out of it. -/
lemma inside_of_base64decode {v : Int} {r : Int × List UInt8}
    (h : base64decode code ⟨addr, v⟩ true = some r) :
    0 ≤ int32 addr ∧ int32 addr ≤ code.length := by
  obtain ⟨r', hr', -⟩ := Option.bind_eq_some_iff.1 h
  obtain ⟨b, hb, hloop⟩ := Option.bind_eq_some_iff.1 hr'
  split at hloop
  · cases hloop
  · rename_i hneg
    have hlen := length_of_decodeLoop hloop (Nat.zero_le _)
    rw [length_coded_put hb] at hlen
    refine ⟨Int.not_lt.1 hneg, ?_⟩
    have : (int32 addr).toNat ≤ code.length := by simpa using hlen
    omega

/-- In place the call gives the right result exactly if the pointer, taken as a length, stays inside
the block, and the characters it then reads without the first one have the values of the text. -/
theorem base64decode_agrees_iff (text rest : List UInt8) (addr : Nat) :
    DecodesLikeCopy text rest addr ↔
      0 ≤ int32 addr ∧ int32 addr ≤ (text ++ 0 :: rest).length ∧
        SameWhole (sextets text)
          (sextets ((text ++ 0 :: rest).take (int32 addr).toNat).tail) := by
  have hpos : 0 < (text ++ 0 :: rest).length :=
    List.length_pos_of_mem (List.mem_append_right text List.mem_cons_self)
  have hsame : ∀ cs : List UInt8, SameWhole (sextets text) (sextets cs) ↔
      emitted .a 0 (sextets text) = emitted .a 0 (sextets cs) :=
    fun cs => (emitted_eq_iff (fun _ => sextets_lt) (fun _ => sextets_lt) 0 0).symm
  rw [hsame]
  constructor
  · rintro ⟨len, code, hcall, hcopy⟩
    obtain ⟨h0, h1⟩ := inside_of_base64decode hcall
    obtain ⟨e, code', he, hcall', htake⟩ := decode_inPlace hpos h0 h1 text.length
    rw [hcall] at hcall'
    cases hcall'
    have hroom : text.length < (List.replicate (text.length + 1) (0 : UInt8)).length := by
      rw [List.length_replicate]
      exact Nat.lt_succ_self _
    obtain ⟨state, b, hrun, hout⟩ := decode_copy text rest hroom
    obtain ⟨n, state', b', hrun', hn, hbytes⟩ := hcopy _ hroom
    rw [hrun] at hrun'
    cases hrun'
    refine ⟨h0, h1, ?_⟩
    rw [← he, ← hout, ← hbytes, ← Int.ofNat_inj.1 hn, htake]
  · rintro ⟨h0, h1, heq⟩
    obtain ⟨e, code, he, hcall, htake⟩ := decode_inPlace hpos h0 h1 text.length
    refine ⟨e.length, code, hcall, ?_⟩
    intro plain hplain
    obtain ⟨state, b, hrun, hout⟩ := decode_copy text rest hplain
    rw [heq, ← he] at hrun hout
    refine ⟨e.length, state, b, hrun, rfl, ?_⟩
    rw [htake, hout]

/-- `QUJD`, with `len` on the stack: the pointer is a negative length. -/
theorem base64decode_stack_length : ¬ DecodesLikeCopy [81, 85, 74, 68] [] 0x7fffffffe0dc := by
  rintro ⟨len, code, hcall, -⟩
  exact absurd (inside_of_base64decode hcall).1 (by decide)

/-- With the length that was meant the first character is still lost: `UJD` is decoded. -/
example : base64decode [81, 85, 74, 68, 0] ⟨4, 4⟩ true = some (2, [80, 144, 192, 68, 0]) := by
  decide

end Call

end CcodeTest.Certificate
