import Mathlib.Algebra.Group.Nat.Defs
import Mathlib.Data.List.TakeWhile
import Mathlib.Data.UInt

/-!
# Hexadecimal text

What `%02x` prints, and what `strtoull` with base 16 and a `%x` of `sscanf` with a width read. Both
readers pass over white space and take a sign and a mark `0x`; on the text of some bytes there is
neither, and they return the number that the bytes form.
-/

namespace CcodeTest.Lib

/-- A digit, in lower case. -/
def hexDigit (n : Nat) : UInt8 := if n < 10 then UInt8.ofNat (48 + n) else UInt8.ofNat (87 + n)

/-- `%02x` of a byte. -/
def hexPair (b : UInt8) : List UInt8 := [hexDigit (b.toNat / 16), hexDigit (b.toNat % 16)]

/-- The digits of some bytes. -/
def hexText (bs : List UInt8) : List UInt8 := bs.flatMap hexPair

/-- Bytes as a number, the first one being the highest. -/
def bytesNumber (bs : List UInt8) : Nat := bs.foldl (fun n b => 256 * n + b.toNat) 0

/-- `isspace`. -/
def isWhite (c : UInt8) : Bool := c == 32 || (9 ≤ c && c ≤ 13)

/-- The value of a digit, in lower or upper case. -/
def digitValue (c : UInt8) : Option Nat :=
  if 48 ≤ c ∧ c ≤ 57 then some (c.toNat - 48)
  else if 97 ≤ c ∧ c ≤ 102 then some (c.toNat - 87)
  else if 65 ≤ c ∧ c ≤ 70 then some (c.toNat - 55)
  else none

/-- `isxdigit`. -/
def isHexDigit (c : UInt8) : Bool := (digitValue c).isSome

/-- The number some digits form. -/
def hexNumber (s : List UInt8) : Nat := s.foldl (fun n c => 16 * n + (digitValue c).getD 0) 0

/-- A sign, `true` for minus, and what follows it. -/
def splitSign : List UInt8 → Bool × List UInt8
  | [] => (false, [])
  | c :: s => if c = 43 then (false, s) else if c = 45 then (true, s) else (false, c :: s)

/-- Behind `0x`, if a digit follows it. -/
def dropMark : List UInt8 → List UInt8
  | 48 :: x :: d :: s =>
    if (x = 120 ∨ x = 88) ∧ isHexDigit d = true then d :: s else 48 :: x :: d :: s
  | s => s

/-- A number of 64 bits, negated modulo 2 to the 64 behind a minus. -/
def unsigned64 (neg : Bool) (n : Nat) : Nat :=
  if 18446744073709551616 ≤ n then 18446744073709551615
  else if neg then (18446744073709551616 - n) % 18446744073709551616
  else n

/-- `strtoull(s, NULL, 16)`. -/
def strtoull (s : List UInt8) : Nat :=
  let (neg, t) := splitSign (s.dropWhile isWhite)
  unsigned64 neg (hexNumber ((dropMark t).takeWhile isHexDigit))

/-- The digits of a `%x` item. Behind `0x` there must be some. -/
def itemDigits : List UInt8 → List UInt8
  | 48 :: x :: s =>
    if x = 120 ∨ x = 88 then s.takeWhile isHexDigit else (48 :: x :: s).takeWhile isHexDigit
  | s => s.takeWhile isHexDigit

/-- `sscanf(s, "%<w>x", …)`: the value that is stored in an `unsigned int`, if there is one. -/
def scanHex (w : Nat) (s : List UInt8) : Option Nat :=
  let (neg, t) := splitSign ((s.dropWhile isWhite).take w)
  let digits := itemDigits t
  if digits = [] then none else some (unsigned64 neg (hexNumber digits) % 4294967296)

/-- The digits that are written are read as what they stand for. -/
lemma hexDigit_spec : ∀ n < 16, digitValue (hexDigit n) = some n ∧ hexDigit n ≠ 0 := by decide

/-- Digits stand behind all of the white space. -/
lemma toNat_of_isHexDigit {c : UInt8} (h : isHexDigit c = true) : 48 ≤ c.toNat := by
  unfold isHexDigit digitValue at h
  simp only [UInt8.le_iff_toNat_le] at h
  split at h
  · rename_i hc
    exact hc.1
  · split at h
    · rename_i hc
      exact Nat.le_trans (by decide) hc.1
    · split at h
      · rename_i hc
        exact Nat.le_trans (by decide) hc.1
      · cases h

/-- A digit is no white space. -/
lemma isWhite_of_isHexDigit {c : UInt8} (h : isHexDigit c = true) : isWhite c = false := by
  have hc := toNat_of_isHexDigit h
  simp only [isWhite, Bool.or_eq_false_iff, Bool.and_eq_false_iff, beq_eq_false_iff_ne, ne_eq,
    decide_eq_false_iff_not, UInt8.le_iff_toNat_le]
  refine ⟨?_, .inr ?_⟩
  · rintro rfl
    exact absurd hc (by decide)
  · exact Nat.not_le_of_lt (Nat.lt_of_lt_of_le (by decide) hc)

/-- White space is passed over up to the first digit. -/
lemma dropWhile_isWhite_cons {c : UInt8} (h : isHexDigit c = true) (s : List UInt8) :
    (c :: s).dropWhile isWhite = c :: s := by
  apply List.dropWhile_cons_of_neg
  rw [isWhite_of_isHexDigit h]
  exact Bool.false_ne_true

/-- A digit is no sign. -/
lemma splitSign_of_isHexDigit {c : UInt8} (h : isHexDigit c = true) (s : List UInt8) :
    splitSign (c :: s) = (false, c :: s) := by
  rw [splitSign, if_neg, if_neg]
  · rintro rfl
    exact absurd h (by decide)
  · rintro rfl
    exact absurd h (by decide)

/-- A digit is no mark. -/
lemma not_mark_of_isHexDigit {c : UInt8} (h : isHexDigit c = true) : ¬ (c = 120 ∨ c = 88) := by
  rintro (rfl | rfl)
  · exact absurd h (by decide)
  · exact absurd h (by decide)

section Digits

variable {s : List UInt8}

/-- No white space is skipped before digits. -/
lemma dropWhile_isWhite_of_digits (h : ∀ c ∈ s, isHexDigit c = true) :
    s.dropWhile isWhite = s := by
  cases s with
  | nil => rfl
  | cons c s => exact dropWhile_isWhite_cons (h c (List.mem_cons_self ..)) s

/-- Digits have no sign. -/
lemma splitSign_of_digits (h : ∀ c ∈ s, isHexDigit c = true) : splitSign s = (false, s) := by
  cases s with
  | nil => rfl
  | cons c s => exact splitSign_of_isHexDigit (h c (List.mem_cons_self ..)) s

/-- And no `0x`. -/
lemma dropMark_of_digits (h : ∀ c ∈ s, isHexDigit c = true) : dropMark s = s := by
  unfold dropMark
  split
  · rename_i x d s
    refine if_neg fun hmark => ?_
    exact not_mark_of_isHexDigit (h x (by simp)) hmark.1
  · rfl

/-- All the digits belong to the item. -/
lemma itemDigits_of_digits (h : ∀ c ∈ s, isHexDigit c = true) : itemDigits s = s := by
  unfold itemDigits
  split
  · rename_i x s
    rw [if_neg (not_mark_of_isHexDigit (h x (by simp)))]
    exact List.takeWhile_eq_self_iff.2 h
  · exact List.takeWhile_eq_self_iff.2 h

/-- `strtoull` on digits only. -/
lemma strtoull_of_digits (h : ∀ c ∈ s, isHexDigit c = true) :
    strtoull s = unsigned64 false (hexNumber s) := by
  rw [strtoull, dropWhile_isWhite_of_digits h, splitSign_of_digits h]
  simp only
  rw [dropMark_of_digits h, List.takeWhile_eq_self_iff.2 h]

/-- A `%x` of width `w` on at least that many digits takes the first of them. -/
lemma scanHex_of_digits {w : Nat} (h : ∀ c ∈ s, isHexDigit c = true) (hw : 0 < w)
    (hlen : s.length = w) (rest : List UInt8) :
    scanHex w (s ++ rest) = some (unsigned64 false (hexNumber s) % 4294967296) := by
  have hne : s ≠ [] := by
    rintro rfl
    exact absurd hlen (Nat.ne_of_lt hw)
  have hwhite : (s ++ rest).dropWhile isWhite = s ++ rest := by
    obtain ⟨c, t, rfl⟩ := List.exists_cons_of_ne_nil hne
    exact dropWhile_isWhite_cons (h c (List.mem_cons_self ..)) (t ++ rest)
  rw [scanHex, hwhite, List.take_left' hlen, splitSign_of_digits h]
  simp only
  rw [itemDigits_of_digits h, if_neg hne]

end Digits

section Bytes

variable (b : UInt8) (bs : List UInt8)

/-- The upper four bits, written and read. -/
lemma digitValue_high : digitValue (hexDigit (b.toNat / 16)) = some (b.toNat / 16) :=
  (hexDigit_spec _ (by have := b.toNat_lt; omega)).1

/-- The lower four bits. -/
lemma digitValue_low : digitValue (hexDigit (b.toNat % 16)) = some (b.toNat % 16) :=
  (hexDigit_spec _ (by omega)).1

@[simp] lemma length_hexPair : (hexPair b).length = 2 := rfl

/-- A byte is written with digits. -/
lemma isHexDigit_hexPair : ∀ c ∈ hexPair b, isHexDigit c = true := by
  intro c hc
  rcases List.mem_pair.1 hc with rfl | rfl
  · rw [isHexDigit, digitValue_high]
    rfl
  · rw [isHexDigit, digitValue_low]
    rfl

/-- Its text holds no NUL. -/
lemma zero_not_mem_hexPair : 0 ∉ hexPair b := by
  intro h
  exact absurd (isHexDigit_hexPair b 0 h) (by decide)

/-- So are bytes. -/
lemma isHexDigit_hexText : ∀ c ∈ hexText bs, isHexDigit c = true := by
  intro c hc
  obtain ⟨b, -, hb⟩ := List.mem_flatMap.1 hc
  exact isHexDigit_hexPair b c hb

/-- Their text holds no NUL. -/
lemma zero_not_mem_hexText : 0 ∉ hexText bs := by
  intro h
  exact absurd (isHexDigit_hexText bs 0 h) (by decide)

/-- Two digits a byte. -/
lemma length_hexText : (hexText bs).length = 2 * bs.length := by
  induction bs with
  | nil => rfl
  | cons b bs ih =>
    rw [hexText, List.flatMap_cons, List.length_append, length_hexPair, List.length_cons]
    rw [hexText] at ih
    omega

/-- The text of more bytes goes behind. -/
lemma hexText_append (bs' : List UInt8) : hexText (bs ++ bs') = hexText bs ++ hexText bs' :=
  List.flatMap_append

/-- Two digits are read as the byte. -/
lemma hexNumber_hexPair : hexNumber (hexPair b) = b.toNat := by
  simp only [hexNumber, hexPair, List.foldl_cons, List.foldl_nil, digitValue_high, digitValue_low,
    Option.getD_some]
  omega

/-- The digits of the bytes form the number of the bytes. -/
lemma hexNumber_hexText : hexNumber (hexText bs) = bytesNumber bs := by
  have key : ∀ n, (hexText bs).foldl (fun n c => 16 * n + (digitValue c).getD 0) n =
      bs.foldl (fun n b => 256 * n + b.toNat) n := by
    induction bs with
    | nil => exact fun n => rfl
    | cons b bs ih =>
      intro n
      have hb : 16 * (16 * n + b.toNat / 16) + b.toNat % 16 = 256 * n + b.toNat := by omega
      rw [hexText, List.flatMap_cons, List.foldl_append, List.foldl_cons, ← hb]
      simp only [hexPair, List.foldl_cons, List.foldl_nil, digitValue_high, digitValue_low,
        Option.getD_some]
      exact ih _
  exact key 0

/-- The number that bytes stand for is bounded by how many they are. -/
lemma bytesNumber_lt : bytesNumber bs < 256 ^ bs.length := by
  have key : ∀ n, bs.foldl (fun n b => 256 * n + b.toNat) n < 256 ^ bs.length * (n + 1) := by
    induction bs with
    | nil =>
      intro n
      simp
    | cons b bs ih =>
      intro n
      have hb := b.toNat_lt
      calc (b :: bs).foldl (fun n b => 256 * n + b.toNat) n
          < 256 ^ bs.length * (256 * n + b.toNat + 1) := ih _
        _ ≤ 256 ^ bs.length * (256 * (n + 1)) := Nat.mul_le_mul_left _ (by omega)
        _ = 256 ^ (b :: bs).length * (n + 1) := by
          rw [List.length_cons, Nat.pow_succ, Nat.mul_assoc]
  have hzero := key 0
  rwa [Nat.zero_add, Nat.mul_one] at hzero

/-- Up to eight bytes are read back as the number they form. -/
lemma strtoull_hexText (h : bs.length ≤ 8) : strtoull (hexText bs) = bytesNumber bs := by
  have hlt : bytesNumber bs < 18446744073709551616 :=
    Nat.lt_of_lt_of_le (bytesNumber_lt bs) (Nat.pow_le_pow_right (by decide) h)
  rw [strtoull_of_digits (isHexDigit_hexText bs), hexNumber_hexText, unsigned64,
    if_neg (Nat.not_le_of_lt hlt)]
  rfl

/-- A byte is read back by `%02x`. -/
lemma scanHex_hexPair (rest : List UInt8) : scanHex 2 (hexPair b ++ rest) = some b.toNat := by
  have hb := b.toNat_lt
  rw [scanHex_of_digits (isHexDigit_hexPair b) (by decide) (length_hexPair b), hexNumber_hexPair,
    unsigned64, if_neg (by omega), if_neg Bool.false_ne_true, Nat.mod_eq_of_lt (by omega)]

end Bytes

end CcodeTest.Lib
