import CcodeTest.Lib.CString
import CcodeTest.Lib.Transition
import CcodeTest.Lib.Word

/-!
# Collecting the errors of a schema validation

The validator reports each error through the callback `schemaError`, which escapes the message for a
JSON string (`stringEscape`) and appends it to the caller's buffer. Three blocks are involved: the
message is formatted into 100 bytes, escaped into 200, and printed behind what the buffer holds, of
which the last byte is never used. An access outside a block is `none`.

`stringEscape_eq` says what the escaping computes when it fits, which it does for every message of
98 characters, and `schemaError_appends` what one callback does to the buffer. Over any sequence of
callbacks the buffer then holds the beginning of everything reported
(`schemaErrors_text`).
-/

namespace CcodeTest.Schema
open CcodeTest.Lib

/-- `struct RSValidateMsg`; the pointer is NULL or points to a block. -/
structure RSValidateMsg where
  msg : Option (List UInt8)
  len : Int

/-- `MAX_ONE_MSG_SIZE`. -/
def maxOneMsgSize : Nat := 100

/-- `'"'`. -/
def quote : UInt8 := 34

/-- `'\\'`. -/
def backslash : UInt8 := 92

/-- `' '`. -/
def space : UInt8 := 32

/-- The test that follows a character which is not before a quotation mark. No character is equal to
all of these, so the second part is always true. -/
def escapesNext (c1 c2 : UInt8) : Bool :=
  c1 == backslash &&
    (c2 != 110 || c2 != 116 || c2 != 98 || c2 != 114 || c2 != 102 || c2 != backslash || c2 != 39 ||
      c2 != quote || c2 != 97)

/-- The loop of `stringEscape`, with `c1` the character before the rest of the string and `c2` the
first of the rest. It returns `c1`, `c2`, `j` and the block `escape` as they are behind it. -/
def escapeLoop (size : Nat) :
    UInt8 → List UInt8 → Nat → List UInt8 → Option (UInt8 × UInt8 × Nat × List UInt8)
  | _, [], _, _ => none
  | c1, c2 :: rest, j, escape =>
    if c2 ≠ 0 ∧ j < size - 1 then
      (store escape j c1).bind fun escape =>
        if c2 = quote ∧ c1 ≠ backslash then
          (store escape (j + 1) backslash).bind fun escape => escapeLoop size c2 rest (j + 2) escape
        else if escapesNext c1 c2 then
          (store escape (j + 1) backslash).bind fun escape => escapeLoop size c2 rest (j + 2) escape
        else escapeLoop size c2 rest (j + 1) escape
    else some (c1, c2, j, escape)

/-- What follows the loop: the last character. -/
def escapeEnd (size : Nat) (p : UInt8 × UInt8 × Nat × List UInt8) : Option (List UInt8) :=
  if p.1 ≠ 0 ∧ p.2.1 = 0 ∧ p.2.2.1 < size - 1 then store p.2.2.2 p.2.2.1 p.1 else some p.2.2.2

/-- `memset(escape, 0, size)`. -/
def clear (escape : List UInt8) (size : Nat) : Option (List UInt8) :=
  if size ≤ escape.length then some (List.replicate size 0 ++ escape.drop size) else none

/-- `stringEscape`, the returned flag and the block `escape`. -/
def stringEscape (string escape : List UInt8) (size : Nat) : Option (Bool × List UInt8) :=
  string.head?.bind fun c1 =>
    if c1 = 0 then some (false, escape)
    else
      (clear escape size).bind fun escape =>
        (if c1 = quote then (store escape 0 backslash).map fun escape => (1, escape)
          else some (0, escape)).bind fun start =>
            ((escapeLoop size c1 string.tail start.1 start.2).bind (escapeEnd size)).map
              fun escape => (true, escape)

/-- `schemaError`, with the message as the format and its arguments give it. -/
def schemaError (m : RSValidateMsg) (message : List UInt8) : Option RSValidateMsg :=
  match m.msg with
  | none => some m
  | some errmsg =>
    let size := m.len - 1
    (strlen errmsg).bind fun length =>
      if (length : Int) ≥ uint64 size then some m
      else
        (snprintf (List.replicate maxOneMsgSize 0) 0 maxOneMsgSize message).bind fun tmpStr =>
          (strlen tmpStr).bind fun i =>
            (store tmpStr i space).bind fun tmpStr =>
              (stringEscape tmpStr (List.replicate (maxOneMsgSize * 2) 0) (maxOneMsgSize * 2)).bind
                fun r =>
                  if r.1 then
                    (cText r.2).bind fun escape =>
                      (snprintf errmsg length (uint64 (size - length)).toNat escape).map
                        fun errmsg => { m with msg := some errmsg }
                  else some m

/-- `jsonCfgSchemaValidateWithDefaultOnErr`, the message buffer only: it is emptied and passed to the
validator, which makes the callbacks. -/
def jsonCfgSchemaValidateWithDefaultOnErr (errmsg : Option (List UInt8)) (msglen : Int)
    (messages : List (List UInt8)) : Option RSValidateMsg :=
  match errmsg with
  | none => run schemaError ⟨none, msglen⟩ messages
  | some errmsg =>
    if msglen > 0 then
      (store errmsg 0 0).bind fun errmsg => run schemaError ⟨some errmsg, msglen⟩ messages
    else run schemaError ⟨some errmsg, msglen⟩ messages

/-! The escaping. -/

/-- The escaped form of `c1` and the characters that follow it. -/
def escapeFrom : UInt8 → List UInt8 → List UInt8
  | c1, [] => [c1]
  | c1, c2 :: cs =>
    if c2 = quote ∨ c1 = backslash then c1 :: backslash :: escapeFrom c2 cs
    else c1 :: escapeFrom c2 cs

/-- The escaped form of a string. -/
def escapeText : List UInt8 → List UInt8
  | [] => []
  | c :: cs => if c = quote then backslash :: escapeFrom c cs else escapeFrom c cs

section Escape

variable {c1 c2 : UInt8} {cs rest done : List UInt8} {size k : Nat}

/-- Only a backslash escapes what follows it. -/
lemma escapesNext_iff : escapesNext c1 c2 = true ↔ c1 = backslash := by
  have hany : (c2 != 110 || c2 != 116) = true := by
    by_cases h : c2 = 110
    · subst h
      decide
    · simp [h]
  simp [escapesNext, hany]

/-- Each character takes at most two. -/
lemma length_escapeFrom_le (c1 : UInt8) (cs : List UInt8) :
    (escapeFrom c1 cs).length ≤ 2 * cs.length + 1 := by
  induction cs generalizing c1 with
  | nil => simp [escapeFrom]
  | cons c2 cs ih =>
    have h := ih c2
    rw [escapeFrom]
    split <;> simp only [List.length_cons] <;> omega

/-- Something is always written. -/
lemma length_escapeFrom_pos (c1 : UInt8) (cs : List UInt8) : 0 < (escapeFrom c1 cs).length := by
  cases cs with
  | nil => simp [escapeFrom]
  | cons c2 cs =>
    rw [escapeFrom]
    split <;> simp

/-- No NUL is written. -/
lemma zero_not_mem_escapeFrom (h1 : c1 ≠ 0) (hcs : 0 ∉ cs) : 0 ∉ escapeFrom c1 cs := by
  induction cs generalizing c1 with
  | nil => simpa [escapeFrom] using h1.symm
  | cons c2 cs ih =>
    rw [List.mem_cons, not_or] at hcs
    have hrest := ih (Ne.symm hcs.1) hcs.2
    rw [escapeFrom]
    split
    · simp [h1.symm, hrest, backslash]
    · simp [h1.symm, hrest]

/-- A pass of the loop: the two tests come to one. -/
lemma escapeLoop_pass {j : Nat} {escape : List UInt8} (h2 : c2 ≠ 0) (hj : j < size - 1) :
    escapeLoop size c1 (c2 :: rest) j escape =
      (store escape j c1).bind fun escape =>
        if c2 = quote ∨ c1 = backslash then
          (store escape (j + 1) backslash).bind fun escape => escapeLoop size c2 rest (j + 2) escape
        else escapeLoop size c2 rest (j + 1) escape := by
  rw [escapeLoop, if_pos ⟨h2, hj⟩]
  refine Option.bind_congr fun escape _ => ?_
  simp only [escapesNext_iff]
  by_cases hq : c2 = quote
  · by_cases hb : c1 = backslash <;> simp [hq, hb]
  · simp [hq]

/-- The next place of a buffer that was cleared. -/
lemma store_zero (done : List UInt8) (k : Nat) (v : UInt8) :
    store (done ++ List.replicate (k + 1) 0) done.length v =
      some ((done ++ [v]) ++ List.replicate k 0) := by
  rw [List.replicate_succ, store_append]
  simp

/-- The loop and the last character write the escaped form behind what is there. -/
lemma escapeLoop_eq (h1 : c1 ≠ 0) (hcs : 0 ∉ cs)
    (hfit : done.length + (escapeFrom c1 cs).length < size) (hk : done.length + k = size) :
    (escapeLoop size c1 (cs ++ 0 :: rest) done.length (done ++ List.replicate k 0)).bind
        (escapeEnd size) =
      some (done ++ escapeFrom c1 cs ++ List.replicate (k - (escapeFrom c1 cs).length) 0) := by
  induction cs generalizing c1 done k with
  | nil =>
    rw [escapeFrom, List.length_singleton] at hfit ⊢
    obtain ⟨k, rfl⟩ := Nat.exists_eq_add_of_le' (show 1 ≤ k by omega)
    have hend : c1 ≠ 0 ∧ (0 : UInt8) = 0 ∧ done.length < size - 1 := ⟨h1, rfl, by omega⟩
    rw [List.nil_append, escapeLoop, if_neg (fun h => h.1 rfl), Option.bind_some, escapeEnd,
      if_pos hend]
    exact store_zero done k c1
  | cons c2 cs ih =>
    rw [List.mem_cons, not_or] at hcs
    have hpos := length_escapeFrom_pos c2 cs
    -- the guard of the loop leaves room for two bytes, whichever branch is taken
    have htwo : done.length + 2 < size := by
      rw [escapeFrom] at hfit
      split at hfit <;> simp only [List.length_cons] at hfit <;> omega
    obtain ⟨k, rfl⟩ := Nat.exists_eq_add_of_le' (show 1 ≤ k by omega)
    rw [List.cons_append, escapeLoop_pass (Ne.symm hcs.1) (by omega), store_zero, Option.bind_some]
    rw [escapeFrom] at hfit ⊢
    split at hfit
    · rename_i hesc
      simp only [List.length_cons] at hfit
      obtain ⟨k, rfl⟩ := Nat.exists_eq_add_of_le' (show 1 ≤ k by omega)
      have hlen : (done ++ [c1]).length = done.length + 1 := List.length_append
      have hlen' : (done ++ [c1] ++ [backslash]).length = done.length + 2 := by simp
      have hnext := @ih c2 (done ++ [c1] ++ [backslash]) k (Ne.symm hcs.1) hcs.2 (by omega)
        (by omega)
      rw [hlen'] at hnext
      rw [if_pos hesc, if_pos hesc, ← hlen, store_zero, Option.bind_some, hnext]
      simp
    · rename_i hesc
      simp only [List.length_cons] at hfit
      have hlen : (done ++ [c1]).length = done.length + 1 := List.length_append
      have hnext := @ih c2 (done ++ [c1]) k (Ne.symm hcs.1) hcs.2 (by omega) (by omega)
      rw [hlen] at hnext
      rw [if_neg hesc, if_neg hesc, hnext]
      simp

variable {s escape : List UInt8}

/-- The escaped text is at most twice as long. -/
lemma length_escapeText_le (s : List UInt8) : (escapeText s).length ≤ 2 * s.length := by
  cases s with
  | nil => simp [escapeText]
  | cons c cs =>
    have h := length_escapeFrom_le c cs
    rw [escapeText]
    split <;> simp only [List.length_cons] <;> omega

/-- It holds no NUL. -/
lemma zero_not_mem_escapeText (h : 0 ∉ s) : 0 ∉ escapeText s := by
  cases s with
  | nil => exact List.not_mem_nil
  | cons c cs =>
    rw [List.mem_cons, not_or] at h
    have hrest := zero_not_mem_escapeFrom (Ne.symm h.1) h.2
    rw [escapeText]
    split
    · rw [List.mem_cons, not_or]
      exact ⟨by decide, hrest⟩
    · exact hrest

/-- `memset` on the whole buffer. -/
lemma clear_eq (hlen : escape.length = size) : clear escape size = some (List.replicate size 0) := by
  rw [clear, if_pos (Nat.le_of_eq hlen.symm), List.drop_of_length_le (Nat.le_of_eq hlen),
    List.append_nil]

/-- From the first character on: a quotation mark has its backslash written before the loop. -/
lemma stringEscape_quote {string : List UInt8} (hlen : escape.length = k + 1) :
    stringEscape (quote :: string) escape (k + 1) =
      ((escapeLoop (k + 1) quote string 1 ([backslash] ++ List.replicate k 0)).bind
        (escapeEnd (k + 1))).map fun escape => (true, escape) := by
  have hfirst : store (List.replicate (k + 1) (0 : UInt8)) 0 backslash =
      some ([backslash] ++ List.replicate k 0) := store_zero [] k backslash
  rw [stringEscape, List.head?_cons, Option.bind_some, if_neg (by decide), clear_eq hlen,
    Option.bind_some, List.tail_cons, if_pos rfl, hfirst, Option.map_some, Option.bind_some]

/-- A text that does not begin with a quote is escaped from its start. -/
lemma stringEscape_other {c : UInt8} {string : List UInt8} (h0 : c ≠ 0) (hq : c ≠ quote)
    (hlen : escape.length = size) :
    stringEscape (c :: string) escape size =
      ((escapeLoop size c string 0 (List.replicate size 0)).bind (escapeEnd size)).map
        fun escape => (true, escape) := by
  rw [stringEscape, List.head?_cons, Option.bind_some, if_neg h0, clear_eq hlen, Option.bind_some,
    List.tail_cons, if_neg hq, Option.bind_some]

/-- When the block has room the escaped form is written to it whole, with zeros behind. -/
lemma stringEscape_eq (hs : s ≠ []) (h0 : 0 ∉ s) (hfit : (escapeText s).length < size)
    (hlen : escape.length = size) :
    stringEscape (s ++ 0 :: rest) escape size =
      some (true, escapeText s ++ List.replicate (size - (escapeText s).length) 0) := by
  cases s with
  | nil => exact absurd rfl hs
  | cons c cs =>
    rw [List.mem_cons, not_or] at h0
    rw [escapeText] at hfit ⊢
    split at hfit
    · rename_i hq
      subst hq
      rw [List.length_cons] at hfit
      obtain ⟨size, rfl⟩ := Nat.exists_eq_add_of_le' (show 1 ≤ size by omega)
      have hloop := @escapeLoop_eq quote cs rest [backslash] (size + 1) size (Ne.symm h0.1) h0.2
        (by simp only [List.length_singleton]; omega) (Nat.add_comm 1 size)
      rw [List.length_singleton] at hloop
      rw [List.cons_append, stringEscape_quote hlen, hloop, if_pos rfl]
      simp
    · rename_i hq
      have hloop := @escapeLoop_eq c cs rest [] size size (Ne.symm h0.1) h0.2
        (by simpa using hfit) (Nat.zero_add size)
      rw [List.length_nil, List.nil_append, List.nil_append] at hloop
      rw [List.cons_append, stringEscape_other (Ne.symm h0.1) hq hlen, hloop, if_neg hq]
      rfl

end Escape

/-- The string that `stringEscape` leaves for a string, in a block as `schemaError` passes it. -/
def escapedText (s : List UInt8) : Option (List UInt8) :=
  (stringEscape (s ++ [0]) (List.replicate (maxOneMsgSize * 2) 0) (maxOneMsgSize * 2)).bind
    fun r => if r.1 then cText r.2 else none

/-! The callbacks. -/

section Callbacks

variable {b m rest t : List UInt8} {msglen : Nat}

/-- The string that `schemaError` formats and passes on: the message, cut to the block, with a space
in the place of its terminator. -/
def tmpStr (message : List UInt8) : Option (List UInt8) :=
  (snprintf (List.replicate maxOneMsgSize 0) 0 maxOneMsgSize message).bind fun tmpStr =>
    (strlen tmpStr).bind fun i => store tmpStr i space

/-- A string in a block of the size of `tmpStr` fits. -/
lemma length_escapeText_lt (ht : t.length ≤ 99) :
    (escapeText t).length < maxOneMsgSize * 2 := by
  have h := length_escapeText_le t
  change _ < 200
  omega

/-- The message with its blank holds no NUL. -/
lemma zero_not_mem_message (h0 : 0 ∉ m) : 0 ∉ m ++ [space] := by
  rw [List.mem_append, not_or]
  exact ⟨h0, by decide⟩

/-- The escaped block of a string, and the string in it. -/
lemma stringEscape_fits (ht : t ≠ []) (h0 : 0 ∉ t) (hlen : t.length ≤ 99) (rest : List UInt8) :
    ∃ r, stringEscape (t ++ 0 :: rest) (List.replicate (maxOneMsgSize * 2) 0)
        (maxOneMsgSize * 2) = some (true, r) ∧ cText r = some (escapeText t) := by
  have hfit := length_escapeText_lt hlen
  refine ⟨_, stringEscape_eq ht h0 hfit List.length_replicate, ?_⟩
  obtain ⟨k, hk⟩ := Nat.exists_eq_add_of_lt hfit
  rw [hk, Nat.add_assoc, Nat.add_sub_cancel_left, List.replicate_succ]
  exact cText_append (zero_not_mem_escapeText h0) _

/-- It fits into `tmp_str`. -/
lemma length_message_le (hm : m.length ≤ 98) : (m ++ [space]).length ≤ 99 := by
  rw [List.length_append]
  exact Nat.succ_le_succ hm

/-- Its escaped text fits into the other buffer. -/
lemma escapedText_message (h0 : 0 ∉ m) (hm : m.length ≤ 98) :
    escapedText (m ++ [space]) = some (escapeText (m ++ [space])) := by
  obtain ⟨r, hr, ht⟩ := stringEscape_fits (by simp) (zero_not_mem_message h0)
    (length_message_le hm) []
  rw [escapedText, hr, Option.bind_some, if_pos rfl, ht]

/-- The formatted message, in a block of zeros. -/
lemma snprintf_tmpStr (hm : m.length ≤ 98) :
    snprintf (List.replicate maxOneMsgSize 0) 0 maxOneMsgSize m =
      some (m ++ 0 :: 0 :: List.replicate (98 - m.length) 0) := by
  have htake : m.take (maxOneMsgSize - 1) = m := List.take_of_length_le (Nat.le_succ_of_le hm)
  have hlt : 0 + m.length < (List.replicate maxOneMsgSize (0 : UInt8)).length := by
    rw [List.length_replicate, maxOneMsgSize]
    omega
  have hrest : maxOneMsgSize - (0 + m.length + 1) = (98 - m.length) + 1 := by
    rw [maxOneMsgSize]
    omega
  rw [snprintf, if_neg (by decide), htake, putText, if_pos hlt, List.take_zero, List.nil_append,
    List.drop_replicate, hrest, List.replicate_succ]

/-- What `snprintf` leaves in `tmp_str`. -/
lemma tmpStr_eq (h0 : 0 ∉ m) (hm : m.length ≤ 98) :
    tmpStr m = some (m ++ [space] ++ 0 :: List.replicate (98 - m.length) 0) := by
  have hmsg : strlen (m ++ 0 :: 0 :: List.replicate (98 - m.length) 0) = some m.length := by
    rw [strlen, cText_append h0, Option.map_some]
  rw [tmpStr, snprintf_tmpStr hm, Option.bind_some, hmsg, Option.bind_some, store_append,
    List.append_assoc, List.singleton_append]

/-- One callback appends the escaped string of `tmpStr` as far as it fits. -/
lemma schemaError_of_tmpStr {block u : List UInt8} (hmin : 2 ≤ msglen) (hint : msglen ≤ 2147483647)
    (hb : cText b = some t) (ht : t.length ≤ msglen - 2) (hbuf : msglen ≤ b.length)
    (htmp : tmpStr m = some block) (hu : cText block = some u) (hne : u ≠ [])
    (hlen : u.length ≤ 99) :
    ∃ b', schemaError ⟨some b, msglen⟩ m = some ⟨some b', msglen⟩ ∧
      cText b' = some (t ++ (escapeText u).take (msglen - 2 - t.length)) ∧
      b'.length = b.length := by
  have hstrlen : strlen b = some t.length := by rw [strlen, hb, Option.map_some]
  have hsize : uint64 ((msglen : Int) - 1) = (msglen : Int) - 1 :=
    uint64_of_range (by omega) (by omega)
  have hroom : (uint64 ((msglen : Int) - 1 - t.length)).toNat = msglen - 1 - t.length := by
    rw [uint64_of_range (by omega) (by omega)]
    omega
  obtain ⟨h0, rest, rfl⟩ := cText_eq_some.1 hu
  obtain ⟨r, hr, htext⟩ := stringEscape_fits hne h0 hlen rest
  obtain ⟨b', hprint, hb', hlen'⟩ := snprintf_append hb (zero_not_mem_escapeText h0)
    (show 0 < msglen - 1 - t.length by omega) (by omega)
  refine ⟨b', ?_, ?_, hlen'⟩
  · simp only [schemaError]
    -- the string never reaches the last byte but one, so the callback does not return early
    rw [hstrlen, Option.bind_some, hsize, if_neg (by omega)]
    simp only [tmpStr] at htmp
    simp only [← Option.bind_assoc]
    rw [Option.bind_assoc, htmp, Option.bind_some, hr, Option.bind_some, if_pos rfl, htext,
      Option.bind_some, hroom, hprint, Option.map_some]
  · rw [hb', show msglen - 1 - t.length - 1 = msglen - 2 - t.length by omega]

/-- One callback appends the escaped message as far as it fits. -/
lemma schemaError_appends (hmin : 2 ≤ msglen) (hint : msglen ≤ 2147483647)
    (hb : cText b = some t) (ht : t.length ≤ msglen - 2) (hbuf : msglen ≤ b.length)
    (h0 : 0 ∉ m) (hm : m.length ≤ 98) :
    ∃ b', schemaError ⟨some b, msglen⟩ m = some ⟨some b', msglen⟩ ∧
      cText b' = some (t ++ (escapeText (m ++ [space])).take (msglen - 2 - t.length)) ∧
      b'.length = b.length :=
  schemaError_of_tmpStr hmin hint hb ht hbuf (tmpStr_eq h0 hm)
    (cText_append (zero_not_mem_message h0) _) (by simp) (length_message_le hm)

/-- The buffer holds, terminated within `msglen`, what fits of the concatenation `reported` of the
reports. -/
def Holds (msglen : Nat) (reported : List UInt8) (v : RSValidateMsg) : Prop :=
  v.len = msglen ∧ ∃ b, v.msg = some b ∧ msglen ≤ b.length ∧
    cText (b.take msglen) = some (reported.take (msglen - 2))

variable {reported : List UInt8} {v : RSValidateMsg} {messages : List (List UInt8)}

/-- One callback adds its text, as far as there is room. -/
lemma Holds.step (hmin : 2 ≤ msglen) (hint : msglen ≤ 2147483647) (h : Holds msglen reported v)
    (h0 : 0 ∉ m) (hm : m.length ≤ 98) :
    ∃ v', schemaError v m = some v' ∧
      Holds msglen (reported ++ escapeText (m ++ [space])) v' := by
  obtain ⟨msg, len⟩ := v
  obtain ⟨hlen, b, hmsg, hbuf, ht⟩ := h
  cases hlen
  cases hmsg
  have hb : cText b = some (reported.take (msglen - 2)) := by
    obtain ⟨hz, rest, hrest⟩ := cText_eq_some.1 ht
    rw [← List.take_append_drop msglen b, hrest, List.append_assoc]
    exact cText_append hz _
  have hle : (reported.take (msglen - 2)).length ≤ msglen - 2 := List.length_take_le ..
  obtain ⟨b', hrun, hb', hlen'⟩ := schemaError_appends hmin hint hb hle hbuf h0 hm
  refine ⟨_, hrun, rfl, b', rfl, ?_, ?_⟩
  · rw [hlen']
    exact hbuf
  · -- what is left after a cut is the cut of the whole
    have hcut : reported.take (msglen - 2) ++
        (escapeText (m ++ [space])).take (msglen - 2 - (reported.take (msglen - 2)).length) =
          (reported ++ escapeText (m ++ [space])).take (msglen - 2) := by
      rw [List.take_append, List.length_take]
      congr 2
      omega
    rw [hcut] at hb'
    refine cText_take hb' (Nat.lt_of_le_of_lt (List.length_take_le ..) ?_)
    omega

/-- So do all of them. -/
lemma Holds.run (hmin : 2 ≤ msglen) (hint : msglen ≤ 2147483647) (h : Holds msglen reported v)
    (hms : ∀ m ∈ messages, 0 ∉ m ∧ m.length ≤ 98) :
    ∃ v', Lib.run schemaError v messages = some v' ∧
      Holds msglen (reported ++ (messages.map fun m => escapeText (m ++ [space])).flatten) v' := by
  induction messages generalizing reported v with
  | nil =>
    rw [List.map_nil, List.flatten_nil, List.append_nil]
    exact ⟨v, rfl, h⟩
  | cons m ms ih =>
    obtain ⟨h0, hm⟩ := hms m (List.mem_cons_self ..)
    obtain ⟨u, hu, hstep⟩ := h.step hmin hint h0 hm
    obtain ⟨v', hv', hrest⟩ := ih hstep fun m hm => hms m (List.mem_cons_of_mem _ hm)
    rw [List.append_assoc] at hrest
    refine ⟨v', ?_, hrest⟩
    rw [Lib.run, hu]
    exact hv'

/-- An empty buffer holds nothing. -/
lemma holds_empty (hmin : 2 ≤ msglen) (hbuf : msglen ≤ b.length) (hb : b[0]? = some 0) :
    Holds msglen [] ⟨some b, msglen⟩ := by
  refine ⟨rfl, b, rfl, hbuf, ?_⟩
  rw [List.take_nil]
  cases b with
  | nil => cases hb
  | cons c cs =>
    cases hb
    obtain ⟨k, rfl⟩ := Nat.exists_eq_add_of_le' hmin
    rfl

/-- The texts of all messages. -/
lemma mapM_escapedText (hms : ∀ m ∈ messages, 0 ∉ m ∧ m.length ≤ 98) :
    messages.mapM (fun m => escapedText (m ++ [space])) =
      some (messages.map fun m => escapeText (m ++ [space])) := by
  induction messages with
  | nil => rfl
  | cons m ms ih =>
    obtain ⟨h0, hm⟩ := hms m (List.mem_cons_self ..)
    rw [List.mapM_cons, escapedText_message h0 hm, ih fun m hm => hms m (List.mem_cons_of_mem _ hm)]
    rfl

/-- After any callbacks the buffer holds the beginning of the escaped messages. -/
theorem schemaErrors_text (msglen : Nat) (hmin : 2 ≤ msglen) (hint : msglen ≤ 2147483647)
    (errmsg : List UInt8) (hbuf : msglen ≤ errmsg.length) (hempty : errmsg[0]? = some 0)
    (messages : List (List UInt8)) (hms : ∀ m ∈ messages, 0 ∉ m ∧ m.length ≤ 98) :
    ∃ v texts, Lib.run schemaError ⟨some errmsg, msglen⟩ messages = some v ∧
      messages.mapM (fun m => escapedText (m ++ [space])) = some texts ∧
      Holds msglen texts.flatten v := by
  obtain ⟨v, hrun, hv⟩ := (holds_empty hmin hbuf hempty).run hmin hint hms
  exact ⟨v, _, hrun, mapM_escapedText hms, hv⟩

/-- Two messages, of which the first has a quotation mark, in a buffer for five characters. -/
theorem schemaErrors_text_two :
    ∃ v texts, Lib.run schemaError ⟨some (List.replicate 7 0), (7 : Nat)⟩ [[quote, 97], [98]] =
        some v ∧
      [[quote, 97], [98]].mapM (fun m => escapedText (m ++ [space])) = some texts ∧
      Holds 7 texts.flatten v :=
  schemaErrors_text 7 (by decide) (by decide) (List.replicate 7 0) (by decide) (by decide)
    [[quote, 97], [98]] (by decide)

/-- A validation leaves the beginning of its errors in the buffer, whatever was in it. -/
theorem jsonCfgSchemaValidate_holds (hmin : 2 ≤ msglen) (hint : msglen ≤ 2147483647)
    (hbuf : msglen ≤ b.length) (hms : ∀ m ∈ messages, 0 ∉ m ∧ m.length ≤ 98) :
    ∃ v, jsonCfgSchemaValidateWithDefaultOnErr (some b) msglen messages = some v ∧
      Holds msglen (messages.map fun m => escapeText (m ++ [space])).flatten v := by
  have hpos : 0 < b.length := by omega
  have hempty : Holds msglen [] ⟨some (b.set 0 0), msglen⟩ := by
    refine holds_empty hmin ?_ (List.getElem?_set_self hpos)
    rw [List.length_set]
    exact hbuf
  obtain ⟨v, hrun, hv⟩ := hempty.run hmin hint hms
  refine ⟨v, ?_, hv⟩
  rw [jsonCfgSchemaValidateWithDefaultOnErr, if_pos (by omega), store_of_lt hpos, Option.bind_some]
  exact hrun

end Callbacks

end CcodeTest.Schema
