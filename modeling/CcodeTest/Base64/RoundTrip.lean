import CcodeTest.Base64.Codec

/-!
# Decoding what was encoded

The encoder and the decoder share no code: one shifts and masks three bytes into four table indices
and pads, the other looks four characters up in a table of its own, rounds the length up and takes
the padding off again by looking at one character of the last group. `encoded` is the text the
encoder produces; the facts the decoder depends on are proved about it by induction over its groups,
and `b64decode_b64encode` puts them together.
-/

namespace CcodeTest.Base64

/-- The characters of the encoding, without the terminator. -/
def encoded : List UInt8 → List UInt8
  | i0 :: i1 :: i2 :: src =>
    let o := output i0 i1 i2
    base64 o.1 :: base64 o.2.1 :: base64 o.2.2.1 :: base64 o.2.2.2 :: encoded src
  | [i0, i1] =>
    let o := output i0 i1 0
    [base64 o.1, base64 o.2.1, base64 o.2.2.1, pad64]
  | [i0] =>
    let o := output i0 0 0
    [base64 o.1, base64 o.2.1, pad64, pad64]
  | [] => []

/-- How many of them are of the alphabet. -/
def prCount (n : Nat) : Nat := n / 3 * 4 + if n % 3 = 0 then 0 else n % 3 + 1

/-- Four characters for three bytes, the last group filled up. -/
lemma length_encoded (src : List UInt8) : (encoded src).length = (src.length + 2) / 3 * 4 := by
  fun_induction encoded src with
  | case1 i0 i1 i2 src o ih =>
    simp only [List.length_cons, ih]
    omega
  | case2 => simp
  | case3 => simp
  | case4 => simp

/-- The encoder's size checks all pass, and it writes the encoding. -/
lemma encodeLoop_eq {targsize : Nat} (src target : List UInt8)
    (h : target.length + (src.length + 2) / 3 * 4 ≤ targsize) :
    encodeLoop targsize src target = some (target ++ encoded src) := by
  fun_induction encodeLoop targsize src target with
  | case1 i0 i1 i2 src target hlt =>
    simp only [List.length_cons] at h
    omega
  | case2 i0 i1 i2 src target o hle ih =>
    rw [ih]
    · simp [encoded, o]
    · simp only [List.length_append, List.length_cons, List.length_nil] at h ⊢
      omega
  | case3 src target hne =>
    rcases src with _ | ⟨i0, _ | ⟨i1, _ | ⟨i2, src⟩⟩⟩
    · simp [encodeTail, encoded]
    · have hle : ¬ target.length + 4 > targsize := by
        simp only [List.length_cons, List.length_nil] at h
        omega
      simp [encodeTail, encoded, hle]
    · have hle : ¬ target.length + 4 > targsize := by
        simp only [List.length_cons, List.length_nil] at h
        omega
      simp [encodeTail, encoded, hle]
    · exact absurd rfl (hne i0 i1 i2 src)

/-! The two tables are inverse to each other, and so are the shifts. -/

/-- The table, character by character: in this form it can be evaluated. -/
lemma base64Table_eq : base64Table = List.map Char.toUInt8 [
    'A', 'B', 'C', 'D', 'E', 'F', 'G', 'H', 'I', 'J', 'K', 'L', 'M', 'N', 'O', 'P',
    'Q', 'R', 'S', 'T', 'U', 'V', 'W', 'X', 'Y', 'Z', 'a', 'b', 'c', 'd', 'e', 'f',
    'g', 'h', 'i', 'j', 'k', 'l', 'm', 'n', 'o', 'p', 'q', 'r', 's', 't', 'u', 'v',
    'w', 'x', 'y', 'z', '0', '1', '2', '3', '4', '5', '6', '7', '8', '9', '+', '/'] :=
  congrArg (List.map Char.toUInt8) String.toList_ofList

/-- The table has an entry for every value of six bits. -/
lemma length_base64Table : base64Table.length = 64 := by
  rw [base64Table_eq]
  decide

/-- `pr2six` undoes the table. -/
lemma pr2six_base64 {n : Nat} (h : n < 64) : pr2six (base64 n) = n := by
  have hall : base64Table.map pr2six = List.range 64 := by
    rw [base64Table_eq]
    decide +kernel
  have hget : (base64Table.map pr2six)[n]? = some n := by rw [hall, List.getElem?_range h]
  rw [← length_base64Table] at h
  rw [List.getElem?_map, List.getElem?_eq_getElem h] at hget
  rw [base64, List.getD_eq_getElem _ _ h]
  exact Option.some.inj hget

/-- The pad is no value. -/
lemma pr2six_pad64 : pr2six pad64 = 64 := by decide

/-- The characters of the table are printing characters. -/
lemma isPr_base64 {n : Nat} (h : n < 64) : isPr (base64 n) = true := by
  simp only [isPr, pr2six_base64 h, decide_eq_true_eq]
  omega

/-- The four values of a group, as numbers. -/
lemma output_eq (i0 i1 i2 : UInt8) :
    output i0 i1 i2 = (i0.toNat / 4, i0.toNat % 4 * 16 + i1.toNat / 16,
      i1.toNat % 16 * 4 + i2.toNat / 64, i2.toNat % 64) := by
  have h3 : ∀ x : Nat, x &&& 3 = x % 4 := fun x => Nat.and_two_pow_sub_one_eq_mod x 2
  have h15 : ∀ x : Nat, x &&& 15 = x % 16 := fun x => Nat.and_two_pow_sub_one_eq_mod x 4
  have h63 : ∀ x : Nat, x &&& 63 = x % 64 := fun x => Nat.and_two_pow_sub_one_eq_mod x 6
  simp only [output, h3, h15, h63, Nat.shiftLeft_eq, Nat.shiftRight_eq_div_pow]

section Bytes

variable {a b : Nat} {c d : UInt8}

/-! The bytes of two characters of which the second is of the alphabet: the shifts do not overlap. -/

/-- The first byte of a group, as a number. -/
lemma byte0_eq (hd : pr2six d < 64) : byte0 c d = UInt8.ofNat (pr2six c * 4 + pr2six d / 16) := by
  have hlt : pr2six d >>> 4 < 2 ^ 2 := by
    rw [Nat.shiftRight_eq_div_pow]
    omega
  rw [byte0, ← Nat.shiftLeft_add_eq_or_of_lt hlt, Nat.shiftLeft_eq, Nat.shiftRight_eq_div_pow]

/-- The second. -/
lemma byte1_eq (hd : pr2six d < 64) : byte1 c d = UInt8.ofNat (pr2six c * 16 + pr2six d / 4) := by
  have hlt : pr2six d >>> 2 < 2 ^ 4 := by
    rw [Nat.shiftRight_eq_div_pow]
    omega
  rw [byte1, ← Nat.shiftLeft_add_eq_or_of_lt hlt, Nat.shiftLeft_eq, Nat.shiftRight_eq_div_pow]

/-- The third. -/
lemma byte2_eq (hd : pr2six d < 64) : byte2 c d = UInt8.ofNat (pr2six c * 64 + pr2six d) := by
  have hlt : pr2six d < 2 ^ 6 := hd
  rw [byte2, ← Nat.shiftLeft_add_eq_or_of_lt hlt, Nat.shiftLeft_eq]

/-- The first byte from two characters of the table. -/
lemma byte0_base64 (ha : a < 64) (hb : b < 64) :
    byte0 (base64 a) (base64 b) = UInt8.ofNat (a * 4 + b / 16) := by
  rw [byte0_eq (by rwa [pr2six_base64 hb]), pr2six_base64 ha, pr2six_base64 hb]

/-- The second. -/
lemma byte1_base64 (ha : a < 64) (hb : b < 64) :
    byte1 (base64 a) (base64 b) = UInt8.ofNat (a * 16 + b / 4) := by
  rw [byte1_eq (by rwa [pr2six_base64 hb]), pr2six_base64 ha, pr2six_base64 hb]

/-- The third. -/
lemma byte2_base64 (ha : a < 64) (hb : b < 64) :
    byte2 (base64 a) (base64 b) = UInt8.ofNat (a * 64 + b) := by
  rw [byte2_eq (by rwa [pr2six_base64 hb]), pr2six_base64 ha, pr2six_base64 hb]

/-- A byte is determined by its value modulo 256. -/
lemma ofNat_eq_of_mod {n : Nat} {i : UInt8} (h : n % 256 = i.toNat) : UInt8.ofNat n = i := by
  rw [← UInt8.toNat_inj, UInt8.toNat_ofNat']
  exact h

end Bytes

/-- Three bytes come back from their four characters. -/
lemma group_roundTrip (i0 i1 i2 : UInt8) :
    let o := output i0 i1 i2
    o.1 < 64 ∧ o.2.1 < 64 ∧ o.2.2.1 < 64 ∧ o.2.2.2 < 64 ∧
      byte0 (base64 o.1) (base64 o.2.1) = i0 ∧ byte1 (base64 o.2.1) (base64 o.2.2.1) = i1 ∧
      byte2 (base64 o.2.2.1) (base64 o.2.2.2) = i2 := by
  have h0 := i0.toNat_lt
  have h1 := i1.toNat_lt
  have h2 := i2.toNat_lt
  simp only [output_eq]
  have ha : i0.toNat / 4 < 64 := by omega
  have hb : i0.toNat % 4 * 16 + i1.toNat / 16 < 64 := by omega
  have hc : i1.toNat % 16 * 4 + i2.toNat / 64 < 64 := by omega
  have hd : i2.toNat % 64 < 64 := by omega
  refine ⟨ha, hb, hc, hd, ?_, ?_, ?_⟩
  · rw [byte0_base64 ha hb]
    exact ofNat_eq_of_mod (by omega)
  · rw [byte1_base64 hb hc]
    exact ofNat_eq_of_mod (by omega)
  · rw [byte2_base64 hc hd]
    exact ofNat_eq_of_mod (by omega)

/-- The decoding of the encoding begins with what was encoded. -/
lemma decodeGroups_encoded (src : List UInt8) :
    (decodeGroups (encoded src)).take src.length = src := by
  fun_induction encoded src with
  | case1 i0 i1 i2 src o ih =>
    obtain ⟨-, -, -, -, e0, e1, e2⟩ := group_roundTrip i0 i1 i2
    simp only [decodeGroups, o, e0, e1, e2, List.length_cons, List.take_succ_cons, ih]
  | case2 i0 i1 o =>
    obtain ⟨-, -, -, -, e0, e1, -⟩ := group_roundTrip i0 i1 0
    simp [decodeGroups, o, e0, e1]
  | case3 i0 o =>
    obtain ⟨-, -, -, -, e0, -, -⟩ := group_roundTrip i0 0 0
    simp [decodeGroups, o, e0]
  | case4 => rfl

/-- One more printing character. -/
lemma scanPr_cons {c : UInt8} (h : isPr c = true) (cs : List UInt8) :
    scanPr (c :: cs) = (scanPr cs).map (· + 1) := by
  rw [scanPr, if_pos h]

/-- The decoder counts the characters before the padding. -/
lemma scanPr_encoded (src : List UInt8) :
    scanPr (encoded src ++ [0]) = some (prCount src.length + 1) := by
  have hpad : isPr pad64 = false := by decide
  fun_induction encoded src with
  | case1 i0 i1 i2 src o ih =>
    obtain ⟨h0, h1, h2, h3, -⟩ := group_roundTrip i0 i1 i2
    have hn : prCount (src.length + 3) = prCount src.length + 4 := by
      unfold prCount
      rw [Nat.add_mod_right, Nat.add_div_right _ (by decide)]
      omega
    simp only [List.cons_append, o, scanPr_cons (isPr_base64 h0), scanPr_cons (isPr_base64 h1),
      scanPr_cons (isPr_base64 h2), scanPr_cons (isPr_base64 h3), ih, Option.map_some,
      List.length_cons, hn]
  | case2 i0 i1 o =>
    obtain ⟨h0, h1, h2, -⟩ := group_roundTrip i0 i1 0
    simp [o, scanPr, isPr_base64 h0, isPr_base64 h1, isPr_base64 h2, hpad, prCount]
  | case3 i0 o =>
    obtain ⟨h0, h1, -⟩ := group_roundTrip i0 0 0
    simp [o, scanPr, isPr_base64 h0, isPr_base64 h1, hpad, prCount]
  | case4 => decide

/-- The third character of a last group that is not full tells how many bytes it holds. -/
lemma lastGroup_encoded (src : List UInt8) (h : src.length % 3 ≠ 0) :
    ∃ x, (encoded src)[(src.length + 2) / 3 * 4 - 2]? = some x ∧
      (pr2six x > 63 ↔ src.length % 3 = 1) := by
  fun_induction encoded src with
  | case1 i0 i1 i2 src o ih =>
    simp only [List.length_cons] at h ⊢
    obtain ⟨x, hx, hiff⟩ := ih (by omega)
    refine ⟨x, ?_, by omega⟩
    have hi : (src.length + 1 + 1 + 1 + 2) / 3 * 4 - 2 = (src.length + 2) / 3 * 4 - 2 + 4 := by
      omega
    rw [hi]
    exact hx
  | case2 i0 i1 o =>
    obtain ⟨-, -, h2, -⟩ := group_roundTrip i0 i1 0
    refine ⟨base64 o.2.2.1, by simp, ?_⟩
    rw [pr2six_base64 h2]
    simp only [List.length_cons, List.length_nil]
    omega
  | case3 i0 o => exact ⟨pad64, by simp, by simp [pr2six_pad64]⟩
  | case4 => simp at h

/-- The blanks are not in the alphabet. -/
lemma isBlank_base64 {n : Nat} (h : n < 64) : isBlank (base64 n) = false := by
  have hpr := pr2six_base64 h
  rw [isBlank, Bool.or_eq_false_iff, beq_eq_false_iff_ne, beq_eq_false_iff_ne]
  constructor
  · intro hc
    have h32 : pr2six 32 = 64 := by decide
    rw [hc, h32] at hpr
    omega
  · intro hc
    have h9 : pr2six 9 = 64 := by decide
    rw [hc, h9] at hpr
    omega

/-- The text begins with no blank. -/
lemma dropWhile_encoded (src : List UInt8) :
    (encoded src ++ [0]).dropWhile isBlank = encoded src ++ [0] := by
  fun_cases encoded src with
  | case1 i0 i1 i2 src o =>
    exact List.dropWhile_cons_of_neg (by simp [o, isBlank_base64 (group_roundTrip i0 i1 i2).1])
  | case2 i0 i1 o =>
    exact List.dropWhile_cons_of_neg (by simp [o, isBlank_base64 (group_roundTrip i0 i1 0).1])
  | case3 i0 o =>
    exact List.dropWhile_cons_of_neg (by simp [o, isBlank_base64 (group_roundTrip i0 0 0).1])
  | case4 => rfl

/-- The decoder counts as many groups as the encoder wrote. -/
lemma groups_prCount (n : Nat) : groups (prCount n) = (n + 2) / 3 := by
  unfold groups prCount
  split <;> omega

/-- The correction for the padding gives the length back. -/
lemma corrected_prCount {n : Nat} {x : UInt8} (hx : n % 3 ≠ 0 → (pr2six x > 63 ↔ n % 3 = 1)) :
    corrected (prCount n) x = n := by
  have hmod : prCount n % 4 = if n % 3 = 0 then 0 else n % 3 + 1 := by
    unfold prCount
    split <;> omega
  rw [corrected, groups_prCount, hmod]
  by_cases h : n % 3 = 0
  · simp only [h, if_true]
    omega
  · rw [if_neg (by simp [h])]
    split
    · rename_i hp
      have := (hx h).1 hp
      omega
    · rename_i hp
      have : n % 3 ≠ 1 := fun h1 => hp ((hx h).2 h1)
      omega

/-- As long as its size fits an `int`, the encoder returns the encoding and a terminator. -/
lemma b64encode_eq {malloc : Malloc} (hm : malloc.Succeeds) {d : List UInt8}
    (hd : d.length ≤ 1610612733) : b64encode malloc d = some (some (encoded d ++ [0])) := by
  obtain ⟨target, htarget, -⟩ := hm ((d.length + 2) / 3 * 4 + 1)
  have hfit : (d.length + 2) / 3 * 4 + 1 < intBound := by
    unfold intBound
    omega
  have hloop : encodeLoop ((d.length + 2) / 3 * 4 + 1) d [] = some (encoded d) := by
    rw [encodeLoop_eq d []]
    · rfl
    · simp
  have hlt : ¬ (encoded d).length ≥ (d.length + 2) / 3 * 4 + 1 := by
    rw [length_encoded]
    omega
  simp only [b64encode, if_pos hfit, htarget, hloop, if_neg hlt]

/-- The correction looks at the third character of the last group. -/
lemma exists_lastChar (d : List UInt8) : ∃ x : UInt8,
    (prCount d.length % 4 ≠ 0 →
        (encoded d ++ [0])[groups (prCount d.length) * 4 - 2]? = some x) ∧
      corrected (prCount d.length) x = d.length := by
  by_cases h : d.length % 3 = 0
  · refine ⟨0, ?_, corrected_prCount fun hne => absurd h hne⟩
    intro hne
    simp only [prCount, h, if_true] at hne
    omega
  · obtain ⟨x, hx, hiff⟩ := lastGroup_encoded d h
    refine ⟨x, fun _ => ?_, corrected_prCount fun _ => hiff⟩
    rw [groups_prCount, List.getElem?_append_left, hx]
    rw [length_encoded]
    omega

/-- For every sequence of at most 1610612733 bytes, the longest whose encoding has a size that fits
an `int`: the encoder returns a text, and decoding it into a block of its own returns the bytes and
a terminator, and their number. -/
theorem b64decode_b64encode (malloc : Malloc) (hm : malloc.Succeeds) (d : List UInt8)
    (hd : d.length ≤ 1610612733) :
    ∃ text r, b64encode malloc d = some (some text) ∧
      b64decode malloc text false = some (some r) ∧ r.outLen = d.length ∧
      r.buf.take (d.length + 1) = d ++ [0] := by
  have hgroups := groups_prCount d.length
  have hlen := length_encoded d
  have hscan : scanPr ((encoded d ++ [0]).dropWhile isBlank) = some (prCount d.length + 1) := by
    rw [dropWhile_encoded]
    exact scanPr_encoded d
  have hfit : prCount d.length + 3 < intBound := by
    unfold prCount intBound
    split <;> omega
  obtain ⟨plain, hplain, hsize⟩ := hm (groups (prCount d.length) * 3 + 1)
  obtain ⟨x, hx, hcorr⟩ := exists_lastChar d
  have hc : groups (prCount d.length) * 4 ≤ (encoded d ++ [0]).length := by
    simp only [List.length_append, hlen, hgroups]
    omega
  have ho : groups (prCount d.length) * 3 <
      (⟨encoded d ++ [0], some plain⟩ : Bufs).out.length := by
    change _ < plain.length
    omega
  have hdec : b64decode malloc (encoded d ++ [0]) false =
      some (some ⟨d.length, ((⟨encoded d ++ [0], some plain⟩ : Bufs).decoded
        (prCount d.length)).set d.length 0⟩) := by
    rw [b64decode_copy hscan hfit hplain, dropWhile_encoded, decodeInto_eq hc ho hx, hcorr]
    rfl
  refine ⟨_, _, b64encode_eq hm hd, hdec, rfl, ?_⟩
  rw [take_decoded hc ho (by omega)]
  dsimp only
  rw [hgroups, List.take_left' hlen, decodeGroups_encoded]

/-- Two bytes, with a pad. -/
theorem b64decode_b64encode_two : [77, 97].length ≤ 1610612733 ∧
    ∃ text r, b64encode Malloc.sample [77, 97] = some (some text) ∧
      b64decode Malloc.sample text false = some (some r) ∧ r.outLen = 2 ∧
      r.buf.take 3 = [77, 97, 0] :=
  ⟨by decide, b64decode_b64encode Malloc.sample Malloc.sample_succeeds [77, 97] (by decide)⟩

end CcodeTest.Base64
