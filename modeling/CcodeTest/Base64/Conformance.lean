import CcodeTest.Lib.BitString
import CcodeTest.Base64.RoundTrip
import CcodeTest.Base64.InPlace

/-!
# Base64 as a regrouping of bits

The description at the head of `seuBase64.c`, from RFC 1521, is about one string of bits: eight from
every byte, six to every character. `rfc1521` states it, and `b64encode_conforms` is that the encoder
produces it. The decoder is measured by the same string, read the other way, on any text that is long
enough behind its run of characters of the alphabet (`b64decode_text_iff`).
-/

namespace CcodeTest.Base64
open CcodeTest.Lib

/-! The encoder. -/

/-- Table 1: the Base64 alphabet. -/
def alphabet (n : Nat) : UInt8 :=
  UInt8.ofNat (if n < 26 then 65 + n
    else if n < 52 then 97 + (n - 26)
    else if n < 62 then 48 + (n - 52)
    else if n = 62 then 43
    else 47)

/-- The encoding that the header describes: the bits of the bytes, filled up with zero bits to groups
of six, each group the index of a character, and `=` up to a multiple of four characters. -/
def rfc1521 (d : List UInt8) : List UInt8 :=
  let string := bits 8 (d.map UInt8.toNat)
  let digits := cut 6 (string ++ List.replicate ((6 - string.length % 6) % 6) false)
  digits.map alphabet ++ List.replicate ((4 - digits.length % 4) % 4) pad64

lemma base64_eq_alphabet {n : Nat} (h : n < 64) : base64 n = alphabet n := by
  have hall : base64Table = (List.range 64).map alphabet := by
    rw [base64Table_eq]
    decide +kernel
  rw [base64, hall, List.getD_eq_getElem?_getD, List.getElem?_map, List.getElem?_range h]
  rfl

section Group

/-- Three bytes are as many bits as four characters. -/
lemma bits_output (i0 i1 i2 : UInt8) (l : List Bool) :
    toBits 8 i0.toNat ++ (toBits 8 i1.toNat ++ (toBits 8 i2.toNat ++ l)) =
      let o := output i0 i1 i2
      toBits 6 o.1 ++ (toBits 6 o.2.1 ++ (toBits 6 o.2.2.1 ++ (toBits 6 o.2.2.2 ++ l))) := by
  have h0 := i0.toNat_lt
  have h1 := i1.toNat_lt
  have h2 := i2.toNat_lt
  simp only [output_eq, ← List.append_assoc]
  congr 1
  rw [← toBits_add h1, ← toBits_add h2, ← toBits_add (by omega), ← toBits_add (by omega),
    ← toBits_add (by omega)]
  congr 1
  omega

/-- Two bytes and two zero bits are three characters. -/
lemma bits_output_two (i0 i1 : UInt8) :
    toBits 8 i0.toNat ++ (toBits 8 i1.toNat ++ List.replicate 2 false) =
      let o := output i0 i1 0
      toBits 6 o.1 ++ (toBits 6 o.2.1 ++ (toBits 6 o.2.2.1 ++ [])) := by
  have h0 := i0.toNat_lt
  have h1 := i1.toNat_lt
  have hz : UInt8.toNat 0 = 0 := rfl
  rw [show List.replicate 2 false = toBits 2 0 from rfl]
  simp only [output_eq, hz, ← List.append_assoc, List.append_nil]
  rw [← toBits_add h1, ← toBits_add (by omega), ← toBits_add (by omega), ← toBits_add (by omega)]
  congr 1
  omega

/-- One byte and four zero bits are two. -/
lemma bits_output_one (i0 : UInt8) :
    toBits 8 i0.toNat ++ List.replicate 4 false =
      let o := output i0 0 0
      toBits 6 o.1 ++ (toBits 6 o.2.1 ++ []) := by
  have h0 := i0.toNat_lt
  have hz : UInt8.toNat 0 = 0 := rfl
  rw [show List.replicate 4 false = toBits 4 0 from rfl]
  simp only [output_eq, hz, List.append_nil]
  rw [← toBits_add (by omega), ← toBits_add (by omega)]
  congr 1
  omega

end Group

/-- A full group is four characters of the encoding. -/
lemma rfc1521_cons (i0 i1 i2 : UInt8) (d : List UInt8) :
    rfc1521 (i0 :: i1 :: i2 :: d) =
      let o := output i0 i1 i2
      alphabet o.1 :: alphabet o.2.1 :: alphabet o.2.2.1 :: alphabet o.2.2.2 :: rfc1521 d := by
  obtain ⟨h0, h1, h2, h3, -⟩ := group_roundTrip i0 i1 i2
  have hlen : (bits 8 ((i0 :: i1 :: i2 :: d).map UInt8.toNat)).length % 6 =
      (bits 8 (d.map UInt8.toNat)).length % 6 := by
    simp only [length_bits, List.length_map, List.length_cons]
    omega
  simp only [rfc1521, hlen]
  simp only [List.map_cons, bits_cons, List.append_assoc]
  rw [bits_output]
  dsimp only
  rw [cut_append (by decide) h0, cut_append (by decide) h1, cut_append (by decide) h2,
    cut_append (by decide) h3]
  simp only [List.map_cons, List.length_cons, List.cons_append, Nat.add_assoc, Nat.reduceAdd,
    Nat.add_mod_right]

/-- What the encoder writes is the encoding of the header. -/
lemma encoded_eq_rfc1521 (d : List UInt8) : encoded d = rfc1521 d := by
  fun_induction encoded d with
  | case1 i0 i1 i2 src o ih =>
    obtain ⟨h0, h1, h2, h3, -⟩ := group_roundTrip i0 i1 i2
    rw [rfc1521_cons, base64_eq_alphabet h0, base64_eq_alphabet h1, base64_eq_alphabet h2,
      base64_eq_alphabet h3, ih]
  | case2 i0 i1 o =>
    obtain ⟨h0, h1, h2, -⟩ := group_roundTrip i0 i1 0
    have hdigits : cut 6 (bits 8 ([i0, i1].map UInt8.toNat) ++ List.replicate 2 false) =
        [o.1, o.2.1, o.2.2.1] := by
      rw [List.map_cons, List.map_cons, bits_cons, bits_cons, List.append_assoc, List.append_assoc]
      change cut 6 (toBits 8 i0.toNat ++ (toBits 8 i1.toNat ++ List.replicate 2 false)) = _
      rw [bits_output_two, cut_append (by decide) h0, cut_append (by decide) h1,
        cut_append (by decide) h2]
      rfl
    have hlen : (bits 8 ([i0, i1].map UInt8.toNat)).length = 16 := length_bits ..
    rw [rfc1521, hlen, hdigits, base64_eq_alphabet h0, base64_eq_alphabet h1, base64_eq_alphabet h2]
    rfl
  | case3 i0 o =>
    obtain ⟨h0, h1, -⟩ := group_roundTrip i0 0 0
    have hdigits : cut 6 (bits 8 ([i0].map UInt8.toNat) ++ List.replicate 4 false) =
        [o.1, o.2.1] := by
      rw [List.map_cons, bits_cons, List.append_assoc]
      change cut 6 (toBits 8 i0.toNat ++ List.replicate 4 false) = _
      rw [bits_output_one, cut_append (by decide) h0, cut_append (by decide) h1]
      rfl
    have hlen : (bits 8 ([i0].map UInt8.toNat)).length = 8 := length_bits ..
    rw [rfc1521, hlen, hdigits, base64_eq_alphabet h0, base64_eq_alphabet h1]
    rfl
  | case4 => rfl

/-- The characters of the encoding are not zero, so the terminator is the first zero byte. -/
lemma zero_not_mem_encoded (d : List UInt8) : 0 ∉ encoded d := by
  have hne : ∀ n < 64, base64 n ≠ 0 := by
    intro n hn h0
    have hpr := isPr_base64 hn
    rw [h0] at hpr
    exact absurd hpr (by decide)
  have hpad : (0 : UInt8) ≠ pad64 := by decide
  fun_induction encoded d with
  | case1 i0 i1 i2 src o ih =>
    obtain ⟨h0, h1, h2, h3, -⟩ := group_roundTrip i0 i1 i2
    simp only [List.mem_cons, not_or]
    exact ⟨(hne _ h0).symm, (hne _ h1).symm, (hne _ h2).symm, (hne _ h3).symm, ih⟩
  | case2 i0 i1 o =>
    obtain ⟨h0, h1, h2, -⟩ := group_roundTrip i0 i1 0
    simp only [List.mem_cons, not_or]
    exact ⟨(hne _ h0).symm, (hne _ h1).symm, (hne _ h2).symm, hpad, List.not_mem_nil⟩
  | case3 i0 o =>
    obtain ⟨h0, h1, -⟩ := group_roundTrip i0 0 0
    simp only [List.mem_cons, not_or]
    exact ⟨(hne _ h0).symm, (hne _ h1).symm, hpad, hpad, List.not_mem_nil⟩
  | case4 => exact List.not_mem_nil

/-- For every sequence of at most 1610612733 bytes the encoder takes none of its error returns: it
returns a string of four characters for every three bytes or part of them, and the string is the
encoding that the header describes. -/
theorem b64encode_conforms (malloc : Malloc) (hm : malloc.Succeeds) (d : List UInt8)
    (hd : d.length ≤ 1610612733) :
    ∃ text, b64encode malloc d = some (some (text ++ [0])) ∧ 0 ∉ text ∧
      text.length = 4 * ((d.length + 2) / 3) ∧ text = rfc1521 d := by
  refine ⟨encoded d, b64encode_eq hm hd, zero_not_mem_encoded d, ?_, encoded_eq_rfc1521 d⟩
  rw [length_encoded, Nat.mul_comm]

/-- `"Ma"` is encoded as `"TWE="`. -/
theorem b64encode_conforms_two : [77, 97].length ≤ 1610612733 ∧
    ∃ text, b64encode Malloc.sample [77, 97] = some (some (text ++ [0])) ∧ 0 ∉ text ∧
      text.length = 4 ∧ text = rfc1521 [77, 97] :=
  ⟨by decide, b64encode_conforms Malloc.sample Malloc.sample_succeeds [77, 97] (by decide)⟩

/-! The decoder. -/

section Regroup

variable {a b c d : Nat}

/-- Four characters are as many bits as three bytes. -/
lemma bits_bytes (hb : b < 64) (hc : c < 64) (hd : d < 64) (l : List Bool) :
    toBits 6 a ++ (toBits 6 b ++ (toBits 6 c ++ (toBits 6 d ++ l))) =
      toBits 8 (a * 4 + b / 16) ++ (toBits 8 (b % 16 * 16 + c / 4) ++
        (toBits 8 (c % 4 * 64 + d) ++ l)) := by
  simp only [← List.append_assoc]
  congr 1
  rw [← toBits_add hb, ← toBits_add hc, ← toBits_add hd, ← toBits_add (by omega),
    ← toBits_add (by omega)]
  congr 1
  omega

/-- Three characters hold two bytes, and two bits more. -/
lemma bits_bytes_three (hb : b < 64) (hc : c < 64) :
    toBits 6 a ++ (toBits 6 b ++ toBits 6 c) =
      toBits 8 (a * 4 + b / 16) ++ (toBits 8 (b % 16 * 16 + c / 4) ++ toBits 2 (c % 4)) := by
  simp only [← List.append_assoc]
  rw [← toBits_add hb, ← toBits_add hc, ← toBits_add (by omega), ← toBits_add (by omega)]
  congr 1
  omega

/-- Two hold one byte, and four bits more. -/
lemma bits_bytes_two (hb : b < 64) :
    toBits 6 a ++ toBits 6 b = toBits 8 (a * 4 + b / 16) ++ toBits 4 (b % 16) := by
  rw [← toBits_add hb, ← toBits_add (by omega)]
  congr 1
  omega

end Regroup

/-- The bytes in the bits of the characters, as many as are complete. -/
def sextetBytes (run : List UInt8) : List UInt8 :=
  (cut 8 (bits 6 (run.map pr2six))).map UInt8.ofNat

section Run

variable {c0 c1 c2 c3 : UInt8}

/-- What a byte has above its eight bits is lost when it is stored. -/
lemma ofNat_sextets (b c : Nat) : UInt8.ofNat (b % 16 * 16 + c) = UInt8.ofNat (b * 16 + c) ∧
    UInt8.ofNat (b % 4 * 64 + c) = UInt8.ofNat (b * 64 + c) := by
  constructor
  · apply ofNat_eq_of_mod
    rw [UInt8.toNat_ofNat']
    omega
  · apply ofNat_eq_of_mod
    rw [UInt8.toNat_ofNat']
    omega

lemma sextetBytes_cons (h0 : pr2six c0 < 64) (h1 : pr2six c1 < 64) (h2 : pr2six c2 < 64)
    (h3 : pr2six c3 < 64) (cs : List UInt8) :
    sextetBytes (c0 :: c1 :: c2 :: c3 :: cs) =
      byte0 c0 c1 :: byte1 c1 c2 :: byte2 c2 c3 :: sextetBytes cs := by
  simp only [sextetBytes, List.map_cons, bits_cons]
  rw [bits_bytes h1 h2 h3, cut_append (by decide) (by omega), cut_append (by decide) (by omega),
    cut_append (by decide) (by omega), byte0_eq h1, byte1_eq h2, byte2_eq h3,
    ← (ofNat_sextets (pr2six c1) _).1, ← (ofNat_sextets (pr2six c2) _).2]
  rfl

lemma sextetBytes_three (h0 : pr2six c0 < 64) (h1 : pr2six c1 < 64) (h2 : pr2six c2 < 64) :
    sextetBytes [c0, c1, c2] = [byte0 c0 c1, byte1 c1 c2] := by
  have hbits : bits 6 ([c0, c1, c2].map pr2six) =
      toBits 6 (pr2six c0) ++ (toBits 6 (pr2six c1) ++ toBits 6 (pr2six c2)) := by
    simp [bits]
  rw [sextetBytes, hbits, bits_bytes_three h1 h2, cut_append (by decide) (by omega),
    cut_append (by decide) (by omega), cut_of_lt (by simp), byte0_eq h1, byte1_eq h2,
    ← (ofNat_sextets (pr2six c1) _).1]
  rfl

lemma sextetBytes_two (h0 : pr2six c0 < 64) (h1 : pr2six c1 < 64) :
    sextetBytes [c0, c1] = [byte0 c0 c1] := by
  have hbits : bits 6 ([c0, c1].map pr2six) = toBits 6 (pr2six c0) ++ toBits 6 (pr2six c1) := by
    simp [bits]
  rw [sextetBytes, hbits, bits_bytes_two h1, cut_append (by decide) (by omega),
    cut_of_lt (by simp), byte0_eq h1]
  rfl

lemma pr2six_lt {c : UInt8} (h : isPr c = true) : pr2six c < 64 :=
  Nat.lt_succ_of_le (of_decide_eq_true h)

/-- The decoding of whole groups begins with the complete bytes of the run, whatever stands behind
it. -/
lemma decodeGroups_run (run rest : List UInt8) (hpr : ∀ c ∈ run, isPr c = true)
    (hlen : groups run.length * 4 ≤ (run ++ rest).length) :
    (decodeGroups ((run ++ rest).take (groups run.length * 4))).take (3 * run.length / 4) =
      sextetBytes run := by
  fun_induction decodeGroups run with
  | case1 c0 c1 c2 c3 cs ih =>
    have hg : groups (cs.length + 1 + 1 + 1 + 1) * 4 = groups cs.length * 4 + 4 := by
      unfold groups
      omega
    have ht : 3 * (cs.length + 1 + 1 + 1 + 1) / 4 = 3 * cs.length / 4 + 3 := by omega
    simp only [List.forall_mem_cons] at hpr
    obtain ⟨h0, h1, h2, h3, hcs⟩ := hpr
    simp only [List.length_cons, List.cons_append, hg] at hlen
    simp only [List.length_cons, List.cons_append, hg, ht, List.take_succ_cons, decodeGroups]
    rw [sextetBytes_cons (pr2six_lt h0) (pr2six_lt h1) (pr2six_lt h2) (pr2six_lt h3),
      ih hcs (by omega)]
  | case2 run h =>
    -- fewer than four characters: the rest of the group comes from behind the run
    rcases run with _ | ⟨c0, _ | ⟨c1, _ | ⟨c2, _ | ⟨c3, cs⟩⟩⟩⟩
    · rfl
    · rw [sextetBytes, cut_of_lt (by simp [bits])]
      simp
    · simp only [List.forall_mem_cons] at hpr
      obtain ⟨h0, h1, -⟩ := hpr
      rcases rest with _ | ⟨x, _ | ⟨y, rest⟩⟩
      · simp [groups] at hlen
      · simp [groups] at hlen
      · rw [sextetBytes_two (pr2six_lt h0) (pr2six_lt h1)]
        simp [groups, decodeGroups]
    · simp only [List.forall_mem_cons] at hpr
      obtain ⟨h0, h1, h2, -⟩ := hpr
      rcases rest with _ | ⟨x, rest⟩
      · simp [groups] at hlen
      · rw [sextetBytes_three (pr2six_lt h0) (pr2six_lt h1) (pr2six_lt h2)]
        simp [groups, decodeGroups]
    · exact absurd rfl (h c0 c1 c2 c3 cs)

end Run

section Text

variable {malloc : Malloc} {text rest cs : List UInt8} {n : Nat}

/-- The character behind the run is not of the alphabet. -/
lemma not_isPr_behind {c : UInt8} (hc : cs[(cs.takeWhile isPr).length]? = some c) :
    isPr c = false := by
  induction cs with
  | nil => cases hc
  | cons x cs ih =>
    cases hx : isPr x with
    | true =>
      rw [List.takeWhile_cons_of_pos hx, List.length_cons, List.getElem?_cons_succ] at hc
      exact ih hc
    | false =>
      rw [List.takeWhile_cons_of_neg (by simp [hx])] at hc
      cases hc
      exact hx

/-- The correction gives the number of complete bytes unless one character is left over. -/
lemma corrected_run {x : UInt8} (hx : n % 4 ≠ 0 → (isPr x = true ↔ n % 4 = 3) ∨ n % 4 = 1) :
    corrected n x = 3 * n / 4 ↔ n % 4 ≠ 1 := by
  unfold corrected groups
  by_cases h0 : n % 4 = 0
  · rw [if_pos h0]
    omega
  · rw [if_neg h0]
    rcases hx h0 with hiff | h1
    · by_cases hp : pr2six x > 63
      · have hno : ¬ isPr x = true := fun h => by
          have := pr2six_lt h
          omega
        rw [if_pos hp]
        have h3 : n % 4 ≠ 3 := fun h => hno (hiff.2 h)
        omega
      · have hyes : isPr x = true := decide_eq_true (Nat.not_lt.1 hp)
        rw [if_neg hp]
        have h3 := hiff.1 hyes
        omega
    · split
      · omega
      · omega

/-- The character the correction looks at: behind a run of two it is the first that is not of the
alphabet, behind one of three the last of the run. -/
lemma exists_corrected (hlen : (cs.takeWhile isPr).length + 3 ≤ cs.length) :
    ∃ x, ((cs.takeWhile isPr).length % 4 ≠ 0 →
        cs[groups (cs.takeWhile isPr).length * 4 - 2]? = some x) ∧
      ((cs.takeWhile isPr).length % 4 ≠ 0 →
        (isPr x = true ↔ (cs.takeWhile isPr).length % 4 = 3) ∨
          (cs.takeWhile isPr).length % 4 = 1) := by
  by_cases h0 : (cs.takeWhile isPr).length % 4 = 0
  · exact ⟨0, absurd h0, absurd h0⟩
  · have hlt : groups (cs.takeWhile isPr).length * 4 - 2 < cs.length := by
      unfold groups
      omega
    refine ⟨cs[groups (cs.takeWhile isPr).length * 4 - 2],
      fun _ => List.getElem?_eq_getElem hlt, fun _ => ?_⟩
    have hget := List.getElem?_eq_getElem hlt
    generalize cs[groups (cs.takeWhile isPr).length * 4 - 2] = x at hget
    have hcases : (cs.takeWhile isPr).length % 4 = 1 ∨ (cs.takeWhile isPr).length % 4 = 2 ∨
        (cs.takeWhile isPr).length % 4 = 3 := by omega
    rcases hcases with h1 | h2 | h3
    · exact .inr h1
    · have hi : groups (cs.takeWhile isPr).length * 4 - 2 = (cs.takeWhile isPr).length := by
        unfold groups
        omega
      rw [hi] at hget
      rw [not_isPr_behind hget, h2]
      exact .inl (by decide)
    · have hi : groups (cs.takeWhile isPr).length * 4 - 2 < (cs.takeWhile isPr).length := by
        unfold groups
        omega
      rw [isPr_of_lt hi hget, h3]
      exact .inl (by decide)

/-- A call returns the complete bytes of the run and a terminator, and their number. -/
def DecodesRun (malloc : Malloc) (s run : List UInt8) : Prop :=
  ∃ r, b64decode malloc s false = some (some r) ∧ r.outLen = 3 * run.length / 4 ∧
    r.buf.take (r.outLen + 1) = sextetBytes run ++ [0]

/-- The block begins with the complete bytes of the run. -/
lemma take_decoded_prRun {plain : List UInt8}
    (hlen : (prRun text).length + 3 ≤ (text.dropWhile isBlank).length)
    (hc : groups (prRun text).length * 4 ≤ (text.dropWhile isBlank ++ 0 :: rest).length)
    (ho : groups (prRun text).length * 3 <
      (⟨text.dropWhile isBlank ++ 0 :: rest, some plain⟩ : Bufs).out.length) :
    (((⟨text.dropWhile isBlank ++ 0 :: rest, some plain⟩ : Bufs).decoded
      (prRun text).length).set (3 * (prRun text).length / 4) 0).take
        (3 * (prRun text).length / 4 + 1) = sextetBytes (prRun text) ++ [0] := by
  have hcut : text.dropWhile isBlank =
      prRun text ++ (text.dropWhile isBlank).dropWhile isPr :=
    List.takeWhile_append_dropWhile.symm
  have hall : ∀ c ∈ prRun text, isPr c = true := fun c hc => List.mem_takeWhile_imp hc
  have hroom := groups_le (prRun text).length
  have hbytes : 3 * (prRun text).length / 4 ≤ groups (prRun text).length * 3 := by
    unfold groups
    omega
  rw [take_decoded hc ho hbytes]
  congr 1
  dsimp only
  rw [List.take_append_of_le_length (by omega)]
  nth_rewrite 1 [hcut]
  exact decodeGroups_run _ _ hall (by rw [← hcut]; omega)

/-- What a call returns when it gets its block and the lengths fit an `int`. -/
lemma decodesRun_iff_mod (hm : malloc.Sized) {plain : List UInt8}
    (hlen : (prRun text).length + 3 ≤ (text.dropWhile isBlank).length)
    (hfit : (prRun text).length + 3 < intBound)
    (hplain : malloc (groups (prRun text).length * 3 + 1) = some plain) :
    DecodesRun malloc (text ++ 0 :: rest) (prRun text) ↔ (prRun text).length % 4 ≠ 1 := by
  have hrun : prRun text = (text.dropWhile isBlank).takeWhile isPr := rfl
  obtain ⟨x, hx, hpr⟩ := exists_corrected hlen
  rw [← hrun] at hx hpr
  have hscan := scanPr_text text rest
  have hroom := groups_le (prRun text).length
  have hc : groups (prRun text).length * 4 ≤ (text.dropWhile isBlank ++ 0 :: rest).length := by
    rw [List.length_append]
    omega
  have ho := hm.room (text.dropWhile isBlank ++ 0 :: rest) hplain
  have hx' : (prRun text).length % 4 ≠ 0 →
      (text.dropWhile isBlank ++ 0 :: rest)[groups (prRun text).length * 4 - 2]? = some x := by
    intro h0
    rw [List.getElem?_append_left (by omega)]
    exact hx h0
  have hdec : b64decode malloc (text ++ 0 :: rest) false =
      some (some ⟨corrected (prRun text).length x,
        ((⟨text.dropWhile isBlank ++ 0 :: rest, some plain⟩ : Bufs).decoded
          (prRun text).length).set (corrected (prRun text).length x) 0⟩) := by
    rw [b64decode_copy hscan hfit hplain, dropWhile_text, decodeInto_eq hc ho hx']
    rfl
  rw [← corrected_run hpr]
  constructor
  · rintro ⟨r, hr, hout, -⟩
    rw [hdec] at hr
    cases hr
    exact hout
  · intro hcor
    rw [hcor] at hdec
    exact ⟨_, hdec, rfl, take_decoded_prRun hlen hc ho⟩

/-- Without room for the lengths in an `int`, or without a block, there is no result. -/
lemma not_decodesRun {s : List UInt8} (hscan : scanPr (s.dropWhile isBlank) = some (n + 1))
    (h : ¬ (n + 3 < intBound ∧ (malloc ((n + 3) / 4 * 3 + 1)).isSome = true)) (run : List UInt8) :
    ¬ DecodesRun malloc s run := by
  rintro ⟨r, hr, -⟩
  simp only [b64decode, hscan, Option.bind_some, Nat.add_sub_cancel, Bool.false_eq_true,
    if_false] at hr
  split at hr
  · rename_i hfit
    cases hplain : malloc ((n + 3) / 4 * 3 + 1) with
    | none =>
      rw [hplain] at hr
      cases hr
    | some plain => exact h ⟨hfit, by rw [hplain]; rfl⟩
  · cases hr

/-- A text with at least three characters between its run and its terminator decodes to the complete
bytes of the run exactly when the run does not leave a single character over (and its length fits the
`int` arithmetic, and there is memory). -/
theorem b64decode_text_iff (malloc : Malloc) (hm : malloc.Sized) (text rest : List UInt8)
    (hlen : (prRun text).length + 3 ≤ (text.dropWhile isBlank).length) :
    DecodesRun malloc (text ++ 0 :: rest) (prRun text) ↔
      (prRun text).length % 4 ≠ 1 ∧ (prRun text).length + 3 < intBound ∧
        (malloc (((prRun text).length + 3) / 4 * 3 + 1)).isSome = true := by
  by_cases h : (prRun text).length + 3 < intBound ∧
      (malloc (((prRun text).length + 3) / 4 * 3 + 1)).isSome = true
  · obtain ⟨plain, hplain⟩ := Option.isSome_iff_exists.1 h.2
    rw [decodesRun_iff_mod hm hlen h.1 hplain]
    exact (and_iff_left h).symm
  · constructor
    · intro hdec
      exact absurd hdec (not_decodesRun (scanPr_text text rest) h _)
    · rintro ⟨-, hfit⟩
      exact absurd hfit h

/-- `"QUI=!!"` decodes to `"AB"`: the run `"QUI"` is followed by three characters. -/
theorem b64decode_text_iff_three :
    DecodesRun Malloc.sample ([81, 85, 73, 61, 33, 33] ++ 0 :: []) [81, 85, 73] ∧
      3 * [81, 85, 73].length / 4 = 2 :=
  ⟨(b64decode_text_iff Malloc.sample Malloc.sample_sized [81, 85, 73, 61, 33, 33] []
    (by decide)).2 (by decide), by decide⟩

/-- `"A===="`: the run holds no complete byte, and one is reported. -/
theorem b64decode_single :
    prRun [65, 61, 61, 61, 61] = [65] ∧
      (∃ r, b64decode Malloc.sample ([65, 61, 61, 61, 61] ++ 0 :: []) false = some (some r) ∧
        r.outLen = 1) ∧
      3 * [65].length / 4 = 0 ∧
      ¬ DecodesRun Malloc.sample ([65, 61, 61, 61, 61] ++ 0 :: []) [65] := by
  refine ⟨by decide, ⟨_, rfl, by decide⟩, by decide, ?_⟩
  rintro ⟨r, hr, hout, -⟩
  cases hr
  exact absurd hout (by decide)

end Text

end CcodeTest.Base64
