import CcodeTest.Schema.ErrorText

/-!
# What the escaping is worth

The escaped text is meant for the inside of a JSON string. `stringEscape` doubles every backslash
but the last character, and puts one before a quotation mark unless a backslash stands there in the
text: it takes such a mark for escaped already and still doubles the backslash. `SafeBody` is what
the text would have to be, and `stringEscape_safe_iff` says for which strings it is.

The bound of the loop is checked once for two bytes. The second one can be the last of the buffer
(`stringEscape_terminated_iff`); no byte behind it is ever written. The string that `schemaError`
passes on loses its terminator when the message fills `tmpStr` (`schemaError_terminated_iff`).
-/

namespace CcodeTest.Schema
open CcodeTest.Lib

/-! The inside of a JSON string. -/

/-- How many backslashes a text ends in. -/
def backslashesAtEnd (t : List UInt8) : Nat := (t.reverse.takeWhile (· == backslash)).length

/-- Take the escaping of backslashes and quotation marks back. -/
def unescape : List UInt8 → List UInt8
  | [] => []
  | [c] => [c]
  | c :: d :: cs =>
    if c = backslash ∧ (d = backslash ∨ d = quote) then d :: unescape cs
    else c :: unescape (d :: cs)

/-- Between quotation marks the text stands for `s`: none of its own marks ends it, nor does it take
away the one behind it. -/
structure SafeBody (t s : List UInt8) : Prop where
  quotes : ∀ u v, t = u ++ quote :: v → backslashesAtEnd u % 2 = 1
  ending : backslashesAtEnd t % 2 = 0
  value : unescape t = s

/-- The first two parts, read from the left; `odd` tells whether an odd number of backslashes stands
before. -/
def Closed : Bool → List UInt8 → Prop
  | odd, [] => odd = false
  | odd, c :: cs =>
    if c = quote then odd = true ∧ Closed false cs
    else if c = backslash then Closed (!odd) cs
    else Closed false cs

section Safe

variable {c : UInt8} {cs s t : List UInt8}

@[simp] lemma backslash_ne_quote : backslash ≠ quote := by decide

@[simp] lemma quote_ne_backslash : quote ≠ backslash := by decide

/-- The backslashes at the end of a longer text. -/
lemma backslashesAtEnd_append (u : List UInt8) (c : UInt8) :
    backslashesAtEnd (u ++ [c]) = if c = backslash then backslashesAtEnd u + 1 else 0 := by
  unfold backslashesAtEnd
  rw [List.reverse_append, List.reverse_singleton, List.singleton_append, List.takeWhile_cons]
  by_cases hc : c = backslash
  · simp [hc]
  · simp [hc]

/-- The quotes of a text with one more character. -/
lemma forall_quote_cons (p : List UInt8 → Prop) :
    (∀ v w, c :: cs = v ++ quote :: w → p v) ↔
      (c = quote → p []) ∧ ∀ v w, cs = v ++ quote :: w → p (c :: v) := by
  constructor
  · intro h
    refine ⟨?_, ?_⟩
    · intro hc
      exact h [] cs (by rw [hc]; rfl)
    · intro v w hv
      exact h (c :: v) w (by rw [hv]; rfl)
  · intro h v w hv
    cases v with
    | nil =>
      rw [List.nil_append, List.cons.injEq] at hv
      exact h.1 hv.1
    | cons d v =>
      rw [List.cons_append, List.cons.injEq] at hv
      obtain ⟨rfl, hv⟩ := hv
      exact h.2 v w hv

/-- Both readings of the first two parts. -/
lemma closed_iff (u t : List UInt8) : Closed (backslashesAtEnd u % 2 == 1) t ↔
    (∀ v w, t = v ++ quote :: w → backslashesAtEnd (u ++ v) % 2 = 1) ∧
      backslashesAtEnd (u ++ t) % 2 = 0 := by
  induction t generalizing u with
  | nil =>
    rw [Closed, List.append_nil, beq_eq_false_iff_ne]
    constructor
    · intro h
      refine ⟨?_, by omega⟩
      intro v w hv
      cases v <;> cases hv
    · rintro ⟨-, h⟩
      omega
  | cons c cs ih =>
    have hnext := ih (u ++ [c])
    rw [backslashesAtEnd_append] at hnext
    simp only [List.append_assoc, List.singleton_append] at hnext
    rw [Closed, forall_quote_cons, List.append_nil]
    by_cases hq : c = quote
    · rw [if_neg (by rw [hq]; decide)] at hnext
      rw [if_pos hq, and_assoc, ← hnext]
      simp [hq]
    · rw [if_neg hq]
      simp only [hq, false_implies, true_and]
      rw [← hnext]
      by_cases hb : c = backslash
      · rw [if_pos hb, if_pos hb]
        have hodd : (!backslashesAtEnd u % 2 == 1) = ((backslashesAtEnd u + 1) % 2 == 1) := by
          rw [Bool.eq_iff_iff]
          simp
          omega
        rw [hodd]
      · rw [if_neg hb, if_neg hb]
        rfl

/-- A safe body in terms of quotes and of what it stands for. -/
lemma safeBody_iff : SafeBody t s ↔ Closed false t ∧ unescape t = s := by
  have h := closed_iff [] t
  constructor
  · intro hs
    exact ⟨h.2 ⟨hs.quotes, hs.ending⟩, hs.value⟩
  · intro hs
    obtain ⟨hq, he⟩ := h.1 hs.1
    exact ⟨hq, he, hs.2⟩

/-- The characters written for one that does not stand at the end. -/
def escapeChar (c : UInt8) : List UInt8 :=
  if c = quote ∨ c = backslash then [backslash, c] else [c]

/-- An escaped character leaves no quote open. -/
lemma closed_escapeChar : Closed false (escapeChar c ++ t) ↔ Closed false t := by
  by_cases hq : c = quote
  · subst hq
    simp [escapeChar, Closed]
  · by_cases hb : c = backslash
    · subst hb
      simp [escapeChar, Closed]
    · simp [escapeChar, Closed, hq, hb]

/-- A character that is not a backslash stands for itself. -/
lemma unescape_cons (hc : c ≠ backslash) : unescape (c :: t) = c :: unescape t := by
  cases t with
  | nil => rfl
  | cons d t => rw [unescape, if_neg fun h => hc h.1]

/-- An escaped character is read as it was. -/
lemma unescape_escapeChar : unescape (escapeChar c ++ t) = c :: unescape t := by
  unfold escapeChar
  split
  · rename_i hc
    exact if_pos ⟨rfl, hc.symm⟩
  · rename_i hc
    exact unescape_cons fun h => hc (Or.inr h)

/-- The first character is written as it is. -/
lemma escapeFrom_head (c : UInt8) (cs : List UInt8) : ∃ t, escapeFrom c cs = c :: t := by
  cases cs with
  | nil => exact ⟨[], rfl⟩
  | cons d cs =>
    rw [escapeFrom]
    split
    · exact ⟨_, rfl⟩
    · exact ⟨_, rfl⟩

/-- A character before the last is escaped by itself, unless it is a backslash before a mark. -/
lemma escapeText_cons {d : UInt8} (h : ¬ (c = backslash ∧ d = quote)) :
    escapeText (c :: d :: cs) = escapeChar c ++ escapeText (d :: cs) := by
  rw [escapeText, escapeText, escapeFrom, escapeChar]
  by_cases hq : c = quote
  · subst hq
    by_cases hd : d = quote <;> simp [hd]
  · by_cases hb : c = backslash
    · have hd : d ≠ quote := fun hd => h ⟨hb, hd⟩
      simp [hb, hd]
    · by_cases hd : d = quote <;> simp [hq, hb, hd]

/-- Before a mark a backslash is doubled and the mark is not escaped. -/
lemma escapeText_backslash_quote (cs : List UInt8) :
    ∃ t, escapeText (backslash :: quote :: cs) = backslash :: backslash :: quote :: t := by
  obtain ⟨t, ht⟩ := escapeFrom_head quote cs
  refine ⟨t, ?_⟩
  rw [escapeText, if_neg (by decide), escapeFrom, if_pos (Or.inl rfl), ht]

/-- One more character, which is not a backslash before a quote. -/
lemma escapable_cons {d : UInt8} (h : ¬ (c = backslash ∧ d = quote)) :
    (¬ [backslash, quote] <:+: c :: d :: cs ∧ (c :: d :: cs).getLast? ≠ some backslash) ↔
      ¬ [backslash, quote] <:+: d :: cs ∧ (d :: cs).getLast? ≠ some backslash := by
  have hpre : ¬ [backslash, quote] <+: c :: d :: cs := by
    intro hp
    rw [List.cons_prefix_cons, List.cons_prefix_cons] at hp
    exact h ⟨hp.1.symm, hp.2.1.symm⟩
  rw [List.infix_cons_iff, List.getLast?_cons_cons]
  simp only [hpre, false_or]

/-- When the escaped text leaves no quote open. -/
lemma closed_escapeText (c : UInt8) (cs : List UInt8) : Closed false (escapeText (c :: cs)) ↔
    ¬ [backslash, quote] <:+: c :: cs ∧ (c :: cs).getLast? ≠ some backslash := by
  induction cs generalizing c with
  | nil =>
    have hinf : ¬ [backslash, quote] <:+: [c] := fun h => absurd h.length_le (by simp)
    simp only [hinf, not_false_iff, true_and, List.getLast?_singleton, ne_eq, Option.some.injEq]
    by_cases hq : c = quote
    · subst hq
      simp [escapeText, escapeFrom, Closed]
    · by_cases hb : c = backslash <;> simp [escapeText, escapeFrom, Closed, hq, hb]
  | cons d cs ih =>
    by_cases h : c = backslash ∧ d = quote
    · obtain ⟨rfl, rfl⟩ := h
      obtain ⟨t, ht⟩ := escapeText_backslash_quote cs
      have hinf : [backslash, quote] <:+: backslash :: quote :: cs := ⟨[], cs, rfl⟩
      rw [ht]
      simp [Closed, hinf]
    · rw [escapeText_cons h, closed_escapeChar, ih, escapable_cons h]

/-- When it is read as the text. -/
lemma unescape_escapeText (h : ¬ [backslash, quote] <:+: c :: cs) :
    unescape (escapeText (c :: cs)) = c :: cs := by
  induction cs generalizing c with
  | nil =>
    by_cases hq : c = quote
    · subst hq
      decide
    · simp [escapeText, escapeFrom, unescape, hq]
  | cons d cs ih =>
    have hcd : ¬ (c = backslash ∧ d = quote) := by
      rintro ⟨rfl, rfl⟩
      exact h ⟨[], cs, rfl⟩
    have htail : ¬ [backslash, quote] <:+: d :: cs := fun hi =>
      h (hi.trans (List.suffix_cons ..).isInfix)
    rw [escapeText_cons hcd, unescape_escapeChar, ih htail]

/-- When it is safe. -/
lemma safeBody_escapeText (hs : s ≠ []) : SafeBody (escapeText s) s ↔
    ¬ [backslash, quote] <:+: s ∧ s.getLast? ≠ some backslash := by
  rw [safeBody_iff]
  cases s with
  | nil => exact absurd rfl hs
  | cons c cs =>
    rw [closed_escapeText]
    constructor
    · intro h
      exact h.1
    · intro h
      exact ⟨h, unescape_escapeText h.1⟩

/-- The escaped text is the inside of a JSON string for `s` unless a backslash of `s` stands before
a quotation mark or at the end. -/
theorem stringEscape_safe_iff (s rest escape : List UInt8) (size : Nat) (hs : s ≠ []) (h0 : 0 ∉ s)
    (hsize : 2 * s.length < size) (hlen : escape.length = size) :
    (∃ r t, stringEscape (s ++ 0 :: rest) escape size = some (true, r) ∧ cText r = some t ∧
      SafeBody t s) ↔ ¬ [backslash, quote] <:+: s ∧ s.getLast? ≠ some backslash := by
  have hfit : (escapeText s).length < size := Nat.lt_of_le_of_lt (length_escapeText_le s) hsize
  have hrun : stringEscape (s ++ 0 :: rest) escape size = _ := stringEscape_eq hs h0 hfit hlen
  obtain ⟨k, hk⟩ := Nat.exists_eq_add_of_lt hfit
  have htext : cText (escapeText s ++ List.replicate (size - (escapeText s).length) 0) =
      some (escapeText s) := by
    rw [hk, Nat.add_assoc, Nat.add_sub_cancel_left, List.replicate_succ]
    exact cText_append (zero_not_mem_escapeText h0) _
  rw [← safeBody_escapeText hs]
  constructor
  · rintro ⟨r, t, hr, ht, hsafe⟩
    rw [hrun, Option.some.injEq, Prod.mk.injEq] at hr
    rw [← hr.2, htext, Option.some.injEq] at ht
    rw [ht]
    exact hsafe
  · intro hsafe
    exact ⟨_, _, hrun, htext, hsafe⟩

/-- A mark and a backslash that is before neither. -/
theorem stringEscape_safe_three :
    ∃ r t, stringEscape ([backslash, 97, quote] ++ 0 :: []) (List.replicate 7 1) 7 =
      some (true, r) ∧ cText r = some t ∧ SafeBody t [backslash, 97, quote] :=
  (stringEscape_safe_iff [backslash, 97, quote] [] (List.replicate 7 1) 7 (by decide) (by decide)
    (by decide) (by decide)).2 (by decide)

/-- A backslash before a mark: two backslashes come out, and the mark behind them ends the string. -/
theorem stringEscape_unsafe :
    [backslash, quote] ≠ [] ∧ 0 ∉ [backslash, quote] ∧ 2 * [backslash, quote].length < 5 ∧
      ¬ ∃ r t, stringEscape ([backslash, quote] ++ 0 :: []) (List.replicate 5 0) 5 =
        some (true, r) ∧ cText r = some t ∧ SafeBody t [backslash, quote] := by
  refine ⟨by decide, by decide, by decide, ?_⟩
  rintro ⟨r, t, hr, ht, hsafe⟩
  have hrun : stringEscape ([backslash, quote] ++ 0 :: []) (List.replicate 5 0) 5 =
      some (true, [backslash, backslash, quote, 0, 0]) := by decide
  rw [hrun] at hr
  cases hr
  cases ht
  exact absurd (hsafe.quotes [backslash, backslash] [] rfl) (by decide)

end Safe

/-! The end of the buffer. -/

/-- The indices at which backslashes are inserted before characters of the rest of a string, where
`c1` is the character before it and `j` the index that comes next. -/
def insertedAt : Nat → UInt8 → List UInt8 → List Nat
  | _, _, [] => []
  | j, c1, c2 :: cs =>
    if c2 = quote ∨ c1 = backslash then j :: insertedAt (j + 2) c2 cs
    else insertedAt (j + 1) c2 cs

section Terminated

variable {c1 : UInt8} {cs done rest : List UInt8} {size j k : Nat}

/-- A backslash goes in at `j` or behind it. -/
lemma le_of_mem_insertedAt {i : Nat} (h : i ∈ insertedAt j c1 cs) : j ≤ i := by
  induction cs generalizing c1 j with
  | nil => cases h
  | cons c2 cs ih =>
    rw [insertedAt] at h
    split at h
    · rcases List.mem_cons.1 h with rfl | h
      · exact Nat.le_refl i
      · have := ih h
        omega
    · have := ih h
      omega

/-- The loop and the last character leave a text without zeros in the buffer, with zeros behind it
unless one of the insertions was at the last index. -/
lemma escapeLoop_zeros (h1 : c1 ≠ 0) (hcs : 0 ∉ cs) (hdone : 0 ∉ done)
    (hk : done.length + k = size) (hsize : 1 ≤ size) :
    ∃ w n, (escapeLoop size c1 (cs ++ 0 :: rest) done.length (done ++ List.replicate k 0)).bind
        (escapeEnd size) = some (w ++ List.replicate n 0) ∧ 0 ∉ w ∧ w.length + n = size ∧
      (n = 0 ↔ k = 0 ∨ size - 1 ∈ insertedAt (done.length + 1) c1 cs) := by
  induction cs generalizing c1 done k with
  | nil =>
    rw [List.nil_append, escapeLoop, if_neg (fun h => h.1 rfl), Option.bind_some, escapeEnd]
    split
    · rename_i hend
      have hlt : done.length < size - 1 := hend.2.2
      obtain ⟨k, rfl⟩ := Nat.exists_eq_add_of_le' (show 2 ≤ k by omega)
      refine ⟨done ++ [c1], k + 1, store_zero done (k + 1) c1, ?_, ?_, ?_⟩
      · simp [hdone, h1.symm]
      · rw [List.length_append, List.length_singleton]
        omega
      · simp [insertedAt]
    · exact ⟨done, k, rfl, hdone, hk, by simp [insertedAt]⟩
  | cons c2 cs ih =>
    rw [List.mem_cons, not_or] at hcs
    by_cases hj : done.length < size - 1
    · obtain ⟨k, rfl⟩ := Nat.exists_eq_add_of_le' (show 2 ≤ k by omega)
      rw [List.cons_append, escapeLoop_pass (Ne.symm hcs.1) hj, store_zero, Option.bind_some,
        insertedAt]
      have hlen : (done ++ [c1]).length = done.length + 1 := List.length_append
      split
      · -- the index of the inserted backslash is the last one if `k` is zero
        have hlen' : (done ++ [c1] ++ [backslash]).length = done.length + 2 := by simp
        obtain ⟨w, n, hrun, hw, hn, hiff⟩ := @ih c2 (done ++ [c1] ++ [backslash]) k
          (Ne.symm hcs.1) hcs.2 (by simp [hdone, h1.symm, backslash]) (by omega)
        rw [hlen'] at hrun hiff
        refine ⟨w, n, ?_, hw, hn, ?_⟩
        · rw [← hlen, store_zero, Option.bind_some]
          exact hrun
        · rw [hiff, List.mem_cons]
          have hlast : size - 1 = done.length + 1 ↔ k = 0 := by omega
          rw [hlast]
          simp
      · obtain ⟨w, n, hrun, hw, hn, hiff⟩ := @ih c2 (done ++ [c1]) (k + 1)
          (Ne.symm hcs.1) hcs.2 (by simp [hdone, h1.symm]) (by omega)
        rw [hlen] at hrun hiff
        refine ⟨w, n, hrun, hw, hn, ?_⟩
        rw [hiff]
        simp
    · -- the loop is over, and later insertions would be behind the buffer
      have hnone : size - 1 ∉ insertedAt (done.length + 1) c1 (c2 :: cs) := by
        intro h
        have := le_of_mem_insertedAt h
        omega
      refine ⟨done, k, ?_, hdone, hk, by simp [hnone]⟩
      rw [List.cons_append, escapeLoop, if_neg fun h => hj h.2, Option.bind_some, escapeEnd,
        if_neg fun h => hj h.2.2]

/-- The same of the whole function. -/
lemma stringEscape_zeros {s escape : List UInt8} (rest : List UInt8) (hs : s ≠ []) (h0 : 0 ∉ s)
    (hsize : 1 ≤ size) (hlen : escape.length = size) :
    ∃ w n, stringEscape (s ++ 0 :: rest) escape size = some (true, w ++ List.replicate n 0) ∧
      0 ∉ w ∧ w.length + n = size ∧ (n = 0 ↔ size - 1 ∈ insertedAt 0 0 s) := by
  cases s with
  | nil => exact absurd rfl hs
  | cons c cs =>
    rw [List.mem_cons, not_or] at h0
    rw [insertedAt]
    by_cases hq : c = quote
    · subst hq
      obtain ⟨size, rfl⟩ := Nat.exists_eq_add_of_le' hsize
      obtain ⟨w, n, hloop, hw, hn, hiff⟩ := @escapeLoop_zeros quote cs [backslash] rest (size + 1)
        size (Ne.symm h0.1) h0.2 (by decide) (Nat.add_comm 1 size) hsize
      rw [List.length_singleton] at hloop hiff
      refine ⟨w, n, ?_, hw, hn, ?_⟩
      · rw [List.cons_append, stringEscape_quote hlen, hloop]
        rfl
      · rw [hiff, if_pos (Or.inl rfl), List.mem_cons]
        rfl
    · obtain ⟨w, n, hloop, hw, hn, hiff⟩ := @escapeLoop_zeros c cs [] rest size
        size (Ne.symm h0.1) h0.2 (by decide) (Nat.zero_add size) hsize
      rw [List.length_nil, List.nil_append] at hloop
      have hz : ¬ (c = quote ∨ (0 : UInt8) = backslash) := fun h => h.elim hq (by decide)
      refine ⟨w, n, ?_, hw, hn, ?_⟩
      · rw [List.cons_append, stringEscape_other (Ne.symm h0.1) hq hlen, hloop]
        rfl
      · rw [hiff, if_neg hz]
        simp [Nat.ne_of_gt hsize]

/-- No write is outside the buffer, and it holds a terminated string unless a backslash is inserted
at its last index. -/
theorem stringEscape_terminated_iff (s rest escape : List UInt8) (size : Nat) (hs : s ≠ [])
    (h0 : 0 ∉ s) (hsize : 1 ≤ size) (hlen : escape.length = size) :
    (∃ r, stringEscape (s ++ 0 :: rest) escape size = some (true, r) ∧ r.length = size ∧ 0 ∈ r) ↔
      size - 1 ∉ insertedAt 0 0 s := by
  obtain ⟨w, n, hrun, hw, hn, hiff⟩ := stringEscape_zeros rest hs h0 hsize hlen
  rw [hrun, ← hiff]
  constructor
  · rintro ⟨r, hr, -, hz⟩ hn0
    cases hr
    simp [hn0, hw] at hz
  · intro hn0
    refine ⟨_, rfl, ?_, ?_⟩
    · rw [List.length_append, List.length_replicate, hn]
    · simp [hn0]

/-- A text that is cut before its second mark. -/
theorem stringEscape_terminated_four :
    ∃ r, stringEscape ([97, quote, 98, quote] ++ 0 :: []) (List.replicate 4 1) 4 = some (true, r) ∧
      r.length = 4 ∧ 0 ∈ r :=
  (stringEscape_terminated_iff [97, quote, 98, quote] [] (List.replicate 4 1) 4 (by decide)
    (by decide) (by decide) (by decide)).2 (by decide)

/-- A mark as the second character and room for two bytes: the backslash is the second byte. -/
theorem stringEscape_unterminated :
    [97, quote] ≠ [] ∧ 0 ∉ [97, quote] ∧
      ¬ ∃ r, stringEscape ([97, quote] ++ 0 :: []) (List.replicate 2 0) 2 = some (true, r) ∧
        r.length = 2 ∧ 0 ∈ r := by
  refine ⟨by decide, by decide, ?_⟩
  rintro ⟨r, hr, -, hz⟩
  have hrun : stringEscape ([97, quote] ++ 0 :: []) (List.replicate 2 0) 2 =
      some (true, [97, backslash]) := by decide
  rw [hrun] at hr
  cases hr
  exact absurd hz (by decide)

end Terminated

/-! The string of a long message. -/

section Message

variable {m : List UInt8}

/-- The first zero of the block is overwritten. Another one is there if the message does not fill the
block, or has one of its own. -/
lemma tmpStr_zero (m : List UInt8) :
    ∃ block, tmpStr m = some block ∧ block.length = maxOneMsgSize ∧ block.head? ≠ some 0 ∧
      (0 ∈ block ↔ m.length ≤ 98 ∨ 0 ∈ m.take 99) := by
  have hlen : (m.take 99).length = min 99 m.length := List.length_take
  have hlt : 0 + (m.take 99).length < (List.replicate maxOneMsgSize (0 : UInt8)).length := by
    rw [List.length_replicate, hlen]
    change _ < 100
    omega
  have hprint : snprintf (List.replicate maxOneMsgSize 0) 0 maxOneMsgSize m =
      some (m.take 99 ++ 0 :: List.replicate (99 - (m.take 99).length) 0) := by
    rw [snprintf, if_neg (by decide), show maxOneMsgSize - 1 = 99 from rfl, putText, if_pos hlt,
      List.take_zero, List.nil_append, List.drop_replicate]
    congr 4
    change 100 - _ = _
    omega
  obtain ⟨u, w, hq, hu⟩ := List.eq_append_cons_of_mem
    (show (0 : UInt8) ∈ m.take 99 ++ 0 :: List.replicate (99 - (m.take 99).length) 0 by simp)
  have hall : (u ++ 0 :: w).length = maxOneMsgSize := by
    rw [← hq, List.length_append, List.length_cons, List.length_replicate]
    change _ = 100
    omega
  have hstr : tmpStr m = some (u ++ space :: w) := by
    rw [tmpStr, hprint, Option.bind_some, hq, strlen, cText_append hu, Option.map_some,
      Option.bind_some, store_append]
  -- both sides count the zeros of the printed block
  have hcount : (m.take 99).count 0 + (99 - (m.take 99).length) = w.count 0 := by
    have h := congrArg (List.count 0) hq
    rw [List.count_append, List.count_append, List.count_cons_self, List.count_cons_self,
      List.count_replicate_self, List.count_eq_zero.2 hu] at h
    omega
  refine ⟨_, hstr, ?_, ?_, ?_⟩
  · rw [← hall, List.length_append, List.length_append, List.length_cons, List.length_cons]
  · cases u with
    | nil => simp [space]
    | cons c u =>
      rw [List.cons_append, List.head?_cons, ne_eq, Option.some.injEq]
      exact fun hc => hu (by rw [hc]; exact List.mem_cons_self ..)
  · have hw : 0 ∈ u ++ space :: w ↔ 0 ∈ w := by
      simp [hu, space]
    rw [hw, ← List.count_pos_iff, ← hcount, ← List.count_pos_iff]
    omega

/-- The string that goes to `stringEscape` is terminated, and the callback returns, if the message
is shorter than 99 characters or has a zero among its first 99. -/
theorem schemaError_terminated_iff (msglen : Nat) (hmin : 2 ≤ msglen) (hint : msglen ≤ 2147483647)
    (b t : List UInt8) (hb : cText b = some t) (ht : t.length ≤ msglen - 2)
    (hbuf : msglen ≤ b.length) (message : List UInt8) :
    (∃ block v, tmpStr message = some block ∧ 0 ∈ block ∧
      schemaError ⟨some b, msglen⟩ message = some v) ↔
        message.length ≤ 98 ∨ 0 ∈ message.take 99 := by
  obtain ⟨block, htmp, hlen, hhead, hzero⟩ := tmpStr_zero message
  rw [← hzero]
  constructor
  · rintro ⟨block', v, htmp', h0, -⟩
    rw [htmp] at htmp'
    cases htmp'
    exact h0
  · intro h0
    obtain ⟨u, rest, hu, hmem⟩ := List.eq_append_cons_of_mem h0
    have htext : cText block = some u := by
      rw [hu]
      exact cText_append hmem rest
    have hne : u ≠ [] := fun h => hhead (cText_eq_nil.1 (by rw [htext, h]))
    have hu99 : u.length < maxOneMsgSize := by
      rw [← hlen]
      exact length_of_cText htext
    obtain ⟨b', hrun, -⟩ := schemaError_of_tmpStr hmin hint hb ht hbuf htmp htext hne
      (Nat.le_of_lt_succ hu99)
    exact ⟨block, _, htmp, h0, hrun⟩

/-- A message of one character, for an empty buffer of three bytes. -/
theorem schemaError_terminated_one :
    ∃ block v, tmpStr [97] = some block ∧ 0 ∈ block ∧
      schemaError ⟨some [0, 0, 0], (3 : Nat)⟩ [97] = some v :=
  (schemaError_terminated_iff 3 (by decide) (by decide) [0, 0, 0] [] rfl (by decide) (by decide)
    [97]).2 (by decide)

/-- A message of 99 characters: its string has no terminator and `stringEscape` reads on behind the
block. -/
theorem schemaError_unterminated :
    (∃ block, tmpStr (List.replicate 99 97) = some block ∧ 0 ∉ block) ∧
      schemaError ⟨some [0, 0, 0], (3 : Nat)⟩ (List.replicate 99 97) = none := by
  refine ⟨⟨List.replicate 99 97 ++ [space], ?_, by decide⟩, ?_⟩
  · decide +kernel
  · decide +kernel

end Message

end CcodeTest.Schema
