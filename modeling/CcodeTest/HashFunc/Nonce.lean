import CcodeTest.Lib.CString
import CcodeTest.Lib.Hex
import CcodeTest.Lib.Word

/-!
# The text of a nonce

`get_nonce_test` prints the 32 bytes of a nonce one after the other, each with a space behind it that
the next one overwrites, and reads them back one after the other, each as an `int` whose three high
bytes the next ones overwrite. `Printed` and `Restored` say what the two loops have by a pass.
-/

namespace CcodeTest.HashFunc
open CcodeTest.Lib

/-- `sizeof(nonce)`. -/
def nonceSize : Nat := 65

/-- `sizeof(nonce_str)`. -/
def nonceStrSize : Nat := 128

/-- The bytes of an `unsigned int` on a little-endian machine. -/
def intBytes (v : Nat) : List UInt8 :=
  [UInt8.ofNat v, UInt8.ofNat (v / 256), UInt8.ofNat (v / 65536), UInt8.ofNat (v / 16777216)]

/-- Store an `unsigned int` at cell `i`. -/
def storeInt (b : List UInt8) (i v : Nat) : Option (List UInt8) :=
  if i + 4 ≤ b.length then some (overwrite b i (intBytes v)) else none

/-- The loop that prints, with `n` passes to go. -/
def formatLoop (nonce : List UInt8) : Nat → Nat → Nat → List UInt8 → Option (List UInt8)
  | 0, _, _, nonceStr => some nonceStr
  | n + 1, i, len, nonceStr =>
    nonce[i]?.bind fun byte =>
      (snprintf nonceStr len (uint64 ((nonceSize : Int) - len)).toNat (hexPair byte ++ [32])).bind
        (formatLoop nonce n (i + 1) (len + 2))

/-- `sscanf(nonce_str + len, "%02x", &nonce[i])`. -/
def readByte (nonceStr : List UInt8) (i len : Nat) (nonce : List UInt8) : Option (List UInt8) :=
  (cText (nonceStr.drop len)).bind fun text =>
    match scanHex 2 text with
    | none => some nonce
    | some v => storeInt nonce i v

/-- The loop that reads back, with `n` passes to go. -/
def restoreLoop (nonceStr : List UInt8) : Nat → Nat → Nat → List UInt8 → Option (List UInt8)
  | 0, _, _, nonce => some nonce
  | n + 1, i, len, nonce =>
    (readByte nonceStr i len nonce).bind (restoreLoop nonceStr n (i + 1) (len + 2))

/-- What `get_nonce_test` does with the array `nonce` whose first 32 bytes `gen_sha256_nonce` has
filled: the text, and the array that is restored from it. -/
def getNonceTest (nonce : List UInt8) : Option (List UInt8 × List UInt8) :=
  (formatLoop nonce 32 0 0 (List.replicate nonceStrSize 0)).bind fun nonceStr =>
    (restoreLoop nonceStr 32 0 0 (List.replicate nonceSize 0)).map fun nonce => (nonceStr, nonce)

/-- The text when the bytes `done` have been printed: a separator may follow that fits before
cell 64. -/
structure Printed (done nonceStr : List UInt8) : Prop where
  length : nonceStr.length = nonceStrSize
  text : ∃ sep, cText nonceStr = some (hexText done ++ sep) ∧ 2 * done.length + sep.length ≤ 64

/-- The array when the bytes `done` have been read: zeros follow. -/
def Restored (done nonce : List UInt8) : Prop :=
  nonce = done ++ List.replicate (nonceSize - done.length) 0

section Print

variable {done rest nonceStr : List UInt8}

lemma Printed.init : Printed [] (List.replicate nonceStrSize 0) :=
  ⟨List.length_replicate, [], rfl, by decide⟩

/-- One pass overwrites the separator. -/
lemma Printed.pass (h : Printed done nonceStr) (hlt : done.length < 32) (byte : UInt8) :
    ∃ nonceStr', snprintf nonceStr (2 * done.length)
        (uint64 ((nonceSize : Int) - (2 * done.length : Nat))).toNat (hexPair byte ++ [32]) =
          some nonceStr' ∧ Printed (done ++ [byte]) nonceStr' := by
  obtain ⟨hlen, sep, htext, hsep⟩ := h
  have hbound : (uint64 ((nonceSize : Int) - (2 * done.length : Nat))).toNat =
      65 - 2 * done.length := by
    rw [uint64_of_range (by unfold nonceSize; omega) (by unfold nonceSize; omega)]
    unfold nonceSize
    omega
  have hzero : (0 : UInt8) ∉ hexPair byte ++ [32] := by
    rw [List.mem_append, not_or]
    exact ⟨zero_not_mem_hexPair byte, by decide⟩
  obtain ⟨nonceStr', hprint, htext', hlen'⟩ := snprintf_over htext hzero
    (show 0 < 65 - 2 * done.length by omega) (by rw [length_hexText, hlen, nonceStrSize]; omega)
  rw [length_hexText] at hprint
  refine ⟨nonceStr', by rw [hbound, hprint], hlen'.trans hlen,
    ([32] : List UInt8).take (62 - 2 * done.length), ?_, ?_⟩
  · rw [htext', List.take_append, List.take_of_length_le (by rw [length_hexPair]; omega),
      length_hexPair, hexText_append, List.append_assoc]
    rw [show 65 - 2 * done.length - 1 - 2 = 62 - 2 * done.length by omega]
    simp only [hexText, List.flatMap_cons, List.flatMap_nil, List.append_nil]
  · rw [List.length_append, List.length_take]
    simp only [List.length_cons, List.length_nil]
    omega

/-- The loop prints what is left. -/
lemma formatLoop_printed {junk : List UInt8} (h : Printed done nonceStr)
    (hlen : done.length + rest.length ≤ 32) :
    ∃ nonceStr', formatLoop (done ++ rest ++ junk) rest.length done.length (2 * done.length) nonceStr
        = some nonceStr' ∧ Printed (done ++ rest) nonceStr' := by
  induction rest generalizing done nonceStr with
  | nil => exact ⟨nonceStr, rfl, by rwa [List.append_nil]⟩
  | cons byte rest ih =>
    rw [List.length_cons] at hlen
    obtain ⟨nonceStr₁, hprint, h₁⟩ := h.pass (by omega) byte
    have hbyte : (done ++ byte :: rest ++ junk)[done.length]? = some byte := by simp
    obtain ⟨nonceStr', hloop, h'⟩ := ih h₁ (by
      rw [List.length_append, List.length_singleton]
      omega)
    rw [List.append_assoc done [byte] rest] at hloop h'
    refine ⟨nonceStr', ?_, h'⟩
    rw [List.length_cons, formatLoop, hbyte, Option.bind_some, hprint, Option.bind_some]
    rw [List.length_append, List.length_singleton] at hloop
    exact hloop

/-- When all bytes are printed no separator is left. -/
lemma Printed.cText (h : Printed done nonceStr) (hlen : done.length = 32) :
    cText nonceStr = some (hexText done) := by
  obtain ⟨sep, htext, hsep⟩ := h.text
  have hnil : sep = [] := List.length_eq_zero_iff.1 (by omega)
  rw [htext, hnil, List.append_nil]

end Print

section Restore

variable {done rest nonceStr nonce : List UInt8}

lemma intBytes_toNat (byte : UInt8) : intBytes byte.toNat = [byte, 0, 0, 0] := by
  have hlt := byte.toNat_lt
  rw [intBytes, UInt8.ofNat_toNat, Nat.div_eq_of_lt (by omega), Nat.div_eq_of_lt (by omega),
    Nat.div_eq_of_lt (by omega)]
  rfl

/-- Four bytes are stored, three of them over zeros. -/
lemma Restored.store (h : Restored done nonce) (hlt : done.length + 4 ≤ nonceSize) (byte : UInt8) :
    ∃ nonce', storeInt nonce done.length byte.toNat = some nonce' ∧
      Restored (done ++ [byte]) nonce' := by
  rw [Restored] at h
  obtain ⟨k, hk⟩ := Nat.exists_eq_add_of_le hlt
  have hzeros : nonceSize - done.length = 4 + k := by omega
  rw [hzeros] at h
  subst h
  refine ⟨done ++ byte :: List.replicate (3 + k) 0, ?_, ?_⟩
  · rw [storeInt, if_pos (by rw [List.length_append, List.length_replicate]; omega), intBytes_toNat,
      overwrite_append, List.drop_replicate]
    simp only [List.length_cons, List.length_nil, Nat.zero_add, Nat.add_sub_cancel_left,
      Nat.reduceAdd, List.append_assoc, List.cons_append, List.nil_append, List.replicate_add]
    rfl
  · rw [Restored, List.length_append, List.length_singleton,
      show nonceSize - (done.length + 1) = 3 + k by omega, List.append_assoc]
    rfl

/-- One pass reads the byte at its place. -/
lemma Restored.pass {byte : UInt8} (h : Restored done nonce) (hlt : done.length < 32)
    (htext : cText nonceStr = some (hexText (done ++ byte :: rest))) :
    ∃ nonce', readByte nonceStr done.length (2 * done.length) nonce = some nonce' ∧
      Restored (done ++ [byte]) nonce' := by
  obtain ⟨nonce', hstore, h'⟩ := h.store (by unfold nonceSize; omega) byte
  refine ⟨nonce', ?_, h'⟩
  rw [hexText_append] at htext
  have hdrop := cText_drop htext
  rw [length_hexText] at hdrop
  rw [readByte, hdrop, Option.bind_some, hexText, List.flatMap_cons, scanHex_hexPair]
  exact hstore

/-- The loop reads what is left. -/
lemma restoreLoop_restored (h : Restored done nonce) (hlen : done.length + rest.length ≤ 32)
    (htext : cText nonceStr = some (hexText (done ++ rest))) :
    ∃ nonce', restoreLoop nonceStr rest.length done.length (2 * done.length) nonce = some nonce' ∧
      Restored (done ++ rest) nonce' := by
  induction rest generalizing done nonce with
  | nil => exact ⟨nonce, rfl, by rwa [List.append_nil]⟩
  | cons byte rest ih =>
    rw [List.length_cons] at hlen
    obtain ⟨nonce₁, hread, h₁⟩ := h.pass (by omega) htext
    obtain ⟨nonce', hloop, h'⟩ := ih h₁ (by
      rw [List.length_append, List.length_singleton]
      omega) (by rwa [List.append_assoc done [byte] rest])
    rw [List.append_assoc done [byte] rest] at h'
    refine ⟨nonce', ?_, h'⟩
    rw [List.length_cons, restoreLoop, hread, Option.bind_some]
    rw [List.length_append, List.length_singleton] at hloop
    exact hloop

end Restore

/-- Every nonce of 32 bytes is restored from its text, and both loops write inside their arrays. The
text ends behind the last byte. Nothing depends on what stands behind the nonce in its array. -/
theorem getNonceTest_restores (digest junk : List UInt8) (hdigest : digest.length = 32) :
    ∃ nonceStr nonce, getNonceTest (digest ++ junk) = some (nonceStr, nonce) ∧
      nonceStr.length = nonceStrSize ∧ cText nonceStr = some (hexText digest) ∧
      nonce.length = nonceSize ∧ nonce.take 32 = digest := by
  obtain ⟨nonceStr, hformat, hprinted⟩ :=
    @formatLoop_printed [] digest _ junk Printed.init (Nat.le_of_eq (by rw [hdigest]; rfl))
  rw [List.nil_append] at hformat hprinted
  have htext := hprinted.cText hdigest
  obtain ⟨nonce, hrestore, hrestored⟩ :=
    @restoreLoop_restored [] digest nonceStr _ rfl (Nat.le_of_eq (by rw [hdigest]; rfl)) htext
  rw [List.nil_append] at hrestored
  rw [hdigest] at hformat hrestore
  refine ⟨nonceStr, nonce, ?_, hprinted.length, htext, ?_, ?_⟩
  · rw [getNonceTest]
    refine (congrArg (Option.bind · _) hformat).trans ?_
    exact congrArg (Option.map _) hrestore
  · rw [hrestored, List.length_append, List.length_replicate, hdigest]
    rfl
  · rw [hrestored, List.take_left' hdigest]

/-- A digest of 32 different bytes, zero among them. -/
def differentBytes : List UInt8 := (List.range 32).map fun i => UInt8.ofNat (37 * i)

theorem getNonceTest_restores_different_bytes :
    ∃ nonceStr nonce,
      getNonceTest (differentBytes ++ List.replicate 33 0) = some (nonceStr, nonce) ∧
      nonceStr.length = nonceStrSize ∧ cText nonceStr = some (hexText differentBytes) ∧
      nonce.length = nonceSize ∧ nonce.take 32 = differentBytes :=
  getNonceTest_restores differentBytes (List.replicate 33 0) (by simp [differentBytes])

end CcodeTest.HashFunc
