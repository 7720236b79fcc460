import CcodeTest.Lib.Block

/-!
# Strings in memory

A C string is the content of a block up to its first zero byte; a block without one holds no string
and a function that reads it as one leaves the block. `snprintf b i n s` prints the characters `s`
from cell `i` on, cut to `n - 1` of them, and terminates them. `snprintf_append` is what programs
use it for: to append to the string a block holds, as `strcat` does without a bound.
-/

namespace CcodeTest.Lib

variable {b s t : List UInt8} {c : UInt8} {n : Nat}

/-- The string a block holds. -/
def cText : List UInt8 → Option (List UInt8)
  | [] => none
  | c :: cs => if c = 0 then some [] else (cText cs).map (c :: ·)

/-- `strlen`. -/
def strlen (b : List UInt8) : Option Nat := (cText b).map List.length

/-- Write characters and a terminator from cell `i` on. -/
def putText (b : List UInt8) (i : Nat) (s : List UInt8) : Option (List UInt8) :=
  if i + s.length < b.length then some (b.take i ++ s ++ 0 :: b.drop (i + s.length + 1)) else none

/-- `snprintf(b + i, n, "%s", s)`. -/
def snprintf (b : List UInt8) (i n : Nat) (s : List UInt8) : Option (List UInt8) :=
  if n = 0 then some b else putText b i (s.take (n - 1))

/-- `strcat(b, s)`. -/
def strcat (b s : List UInt8) : Option (List UInt8) := (cText b).bind fun t => putText b t.length s

/-- `strstr(s, m)` finds the string. -/
def strstr : List UInt8 → List UInt8 → Bool
  | [], m => m.isPrefixOf []
  | c :: cs, m => m.isPrefixOf (c :: cs) || strstr cs m

/-- `strchr(s, c)`: what stands from the first `c` on. -/
def strchr : List UInt8 → UInt8 → Option (List UInt8)
  | [], _ => none
  | x :: xs, c => if x = c then some (x :: xs) else strchr xs c

/-- `strchr` splits a string at the first occurrence. -/
lemma strchr_append {u : List UInt8} (h : c ∉ u) (v : List UInt8) :
    strchr (u ++ c :: v) c = some (c :: v) := by
  induction u with
  | nil => exact if_pos rfl
  | cons x u ih =>
    rw [List.mem_cons, not_or] at h
    rw [List.cons_append, strchr, if_neg (Ne.symm h.1), ih h.2]

/-- `strchr` finds nothing when there is nothing to be found. -/
lemma strchr_eq_none : strchr s c = none ↔ c ∉ s := by
  constructor
  · intro h hmem
    obtain ⟨u, v, rfl, hu⟩ := List.eq_append_cons_of_mem hmem
    rw [strchr_append hu] at h
    cases h
  · intro h
    induction s with
    | nil => rfl
    | cons x xs ih =>
      rw [List.mem_cons, not_or] at h
      rw [strchr, if_neg (Ne.symm h.1), ih h.2]

/-- The characters before the first `c`, and the rest, of two strings of which the first has none. -/
lemma takeWhile_ne_append {u : List UInt8} (h : c ∉ u) (v : List UInt8) :
    (u ++ v).takeWhile (· != c) = u ++ v.takeWhile (· != c) := by
  apply List.takeWhile_append_of_pos
  intro x hx
  rw [bne_iff_ne]
  rintro rfl
  exact h hx

/-- The search goes past a part without the character. -/
lemma dropWhile_ne_append {u : List UInt8} (h : c ∉ u) (v : List UInt8) :
    (u ++ v).dropWhile (· != c) = v.dropWhile (· != c) := by
  apply List.dropWhile_append_of_pos
  intro x hx
  rw [bne_iff_ne]
  rintro rfl
  exact h hx

/-- What stands before the character does not hold it. -/
lemma not_mem_takeWhile_ne (s : List UInt8) (c : UInt8) : c ∉ s.takeWhile (· != c) := by
  intro h
  have hc := List.all_eq_true.1 List.all_takeWhile c h
  simp at hc

/-- A text is no shorter than what is found in it. -/
lemma length_le_of_strstr (h : strstr s t = true) : t.length ≤ s.length := by
  induction s with
  | nil => exact (List.isPrefixOf_iff_prefix.1 h).length_le
  | cons c cs ih =>
    rcases Bool.or_eq_true_iff.1 h with h | h
    · exact (List.isPrefixOf_iff_prefix.1 h).length_le
    · exact Nat.le_succ_of_le (ih h)

/-- A string is what stands before the first zero. -/
lemma cText_append (h : 0 ∉ t) (rest : List UInt8) : cText (t ++ 0 :: rest) = some t := by
  induction t with
  | nil => rfl
  | cons c t ih =>
    rw [List.mem_cons, not_or] at h
    rw [List.cons_append, cText, if_neg (Ne.symm h.1), ih h.2]
    rfl

/-- A C string is what stands before the first NUL. -/
lemma cText_eq_some : cText b = some t ↔ 0 ∉ t ∧ ∃ rest, b = t ++ 0 :: rest := by
  constructor
  · intro h
    induction b generalizing t with
    | nil => cases h
    | cons c cs ih =>
      rw [cText] at h
      split at h
      · rename_i hc
        cases h
        exact ⟨List.not_mem_nil, cs, by rw [hc]; rfl⟩
      · rename_i hc
        obtain ⟨u, hu, rfl⟩ := Option.map_eq_some_iff.1 h
        obtain ⟨hmem, rest, rfl⟩ := ih hu
        refine ⟨?_, rest, rfl⟩
        rw [List.mem_cons, not_or]
        exact ⟨Ne.symm hc, hmem⟩
  · intro h
    obtain ⟨hmem, rest, rfl⟩ := h
    exact cText_append hmem rest

/-- It is empty when the NUL comes first. -/
lemma cText_eq_nil : cText b = some [] ↔ b.head? = some 0 := by
  cases b with
  | nil => simp only [cText, List.head?_nil, reduceCtorEq]
  | cons c cs =>
    rw [cText, List.head?_cons, Option.some.injEq]
    split
    · rename_i hc
      simp only [hc]
    · rename_i hc
      simp [hc]

/-- It is shorter than its block. -/
lemma length_of_cText (h : cText b = some t) : t.length < b.length := by
  obtain ⟨-, rest, rfl⟩ := cText_eq_some.1 h
  rw [List.length_append, List.length_cons]
  omega

/-- A text that was written had room with its NUL. -/
lemma length_putText {b' : List UInt8} {i : Nat} (h : putText b i s = some b') :
    i + s.length < b.length ∧ b'.length = b.length := by
  unfold putText at h
  split at h
  · rename_i hlt
    cases h
    refine ⟨hlt, ?_⟩
    simp only [List.length_append, List.length_take, List.length_cons, List.length_drop]
    omega
  · cases h

/-- Writing a text is writing it with its NUL. -/
lemma putText_eq_some {b' : List UInt8} {i : Nat} :
    putText b i s = some b' ↔ i + s.length < b.length ∧ b' = overwrite b i (s ++ [0]) := by
  have heq : b.take i ++ s ++ 0 :: b.drop (i + s.length + 1) = overwrite b i (s ++ [0]) := by
    simp [overwrite, Nat.add_assoc]
  rw [putText, heq]
  split
  · rename_i h
    simp only [Option.some.injEq, h, true_and, eq_comm]
  · rename_i h
    simp [h]

/-- It needs one byte more than its length. -/
lemma isSome_putText {i : Nat} : (putText b i s).isSome = true ↔ i + s.length < b.length := by
  unfold putText
  split
  · rename_i h
    simp [h]
  · rename_i h
    simp [h]

/-- Characters written at the start of a block are the string it then holds. -/
lemma putText_zero (hs : 0 ∉ s) (hfit : s.length < b.length) :
    ∃ b', putText b 0 s = some b' ∧ cText b' = some s ∧ b'.length = b.length := by
  refine ⟨s ++ 0 :: b.drop (s.length + 1), ?_, cText_append hs _, ?_⟩
  · rw [putText, Nat.zero_add, if_pos hfit]
    rfl
  · rw [List.length_append, List.length_cons, List.length_drop]
    omega

/-- Characters written into a string replace its end. -/
lemma putText_over {u v : List UInt8} (h : cText b = some (u ++ v)) (hs : 0 ∉ s)
    (hfit : u.length + s.length < b.length) :
    ∃ b', putText b u.length s = some b' ∧ cText b' = some (u ++ s) := by
  obtain ⟨hmem, rest, rfl⟩ := cText_eq_some.1 h
  rw [List.mem_append, not_or] at hmem
  refine ⟨u ++ s ++ 0 :: (u ++ v ++ 0 :: rest).drop (u.length + s.length + 1), ?_,
    cText_append ?_ _⟩
  · rw [putText, if_pos hfit, List.append_assoc u v, List.take_left]
  · rw [List.mem_append, not_or]
    exact ⟨hmem.1, hs⟩

/-- Characters written behind a string make a longer one. -/
lemma putText_append (h : cText b = some t) (hs : 0 ∉ s) (hfit : t.length + s.length < b.length) :
    ∃ b', putText b t.length s = some b' ∧ cText b' = some (t ++ s) := by
  rw [← List.append_nil t] at h
  exact putText_over h hs hfit

/-- A string that ends before cell `n` is the one of the first `n` cells. -/
lemma cText_take (h : cText b = some t) (hn : t.length < n) : cText (b.take n) = some t := by
  obtain ⟨hmem, rest, rfl⟩ := cText_eq_some.1 h
  obtain ⟨k, rfl⟩ := Nat.exists_eq_add_of_lt hn
  rw [List.take_append, List.take_of_length_le (by omega),
    show t.length + k + 1 - t.length = k + 1 by omega, List.take_succ_cons]
  exact cText_append hmem _

/-- The string from a later cell on. -/
lemma cText_drop {u v : List UInt8} (h : cText b = some (u ++ v)) :
    cText (b.drop u.length) = some v := by
  obtain ⟨hmem, rest, rfl⟩ := cText_eq_some.1 h
  rw [List.mem_append, not_or] at hmem
  rw [List.append_assoc, List.drop_left]
  exact cText_append hmem.2 _

/-- Printing into the string of a block replaces its end. -/
lemma snprintf_over {u v : List UInt8} (h : cText b = some (u ++ v)) (hs : 0 ∉ s) (hn : 0 < n)
    (hfit : u.length + n ≤ b.length) :
    ∃ b', snprintf b u.length n s = some b' ∧ cText b' = some (u ++ s.take (n - 1)) ∧
      b'.length = b.length := by
  have hlen : (s.take (n - 1)).length ≤ n - 1 := List.length_take_le ..
  have hzero : 0 ∉ s.take (n - 1) := fun hz => hs (List.mem_of_mem_take hz)
  obtain ⟨b', hput, htext⟩ := putText_over h hzero (by omega)
  refine ⟨b', ?_, htext, (length_putText hput).2⟩
  rw [snprintf, if_neg (Nat.ne_of_gt hn), hput]

/-- Printing behind the string of a block appends to it. -/
lemma snprintf_append (h : cText b = some t) (hs : 0 ∉ s) (hn : 0 < n)
    (hfit : t.length + n ≤ b.length) :
    ∃ b', snprintf b t.length n s = some b' ∧ cText b' = some (t ++ s.take (n - 1)) ∧
      b'.length = b.length := by
  rw [← List.append_nil t] at h
  exact snprintf_over h hs hn hfit

/-- `strcat` appends if the block has room behind its string. -/
lemma strcat_append (h : cText b = some t) (hs : 0 ∉ s) (hfit : t.length + s.length < b.length) :
    ∃ b', strcat b s = some b' ∧ cText b' = some (t ++ s) ∧ b'.length = b.length := by
  obtain ⟨b', hput, htext⟩ := putText_append h hs hfit
  refine ⟨b', ?_, htext, (length_putText hput).2⟩
  rw [strcat, h, Option.bind_some, hput]

/-- `strcat` joins the two texts. -/
lemma strcat_eq_some {b' : List UInt8} (h : strcat b s = some b') (hs : 0 ∉ s) :
    ∃ t, cText b = some t ∧ cText b' = some (t ++ s) ∧ b'.length = b.length := by
  obtain ⟨t, ht, hput⟩ := Option.bind_eq_some_iff.1 h
  obtain ⟨b'', hput', htext, hlen⟩ := strcat_append ht hs (length_putText hput).1
  rw [h] at hput'
  cases hput'
  exact ⟨t, ht, htext, hlen⟩

end CcodeTest.Lib
