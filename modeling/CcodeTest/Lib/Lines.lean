import Mathlib.Data.List.Basic
import Mathlib.Tactic.TypeStar

/-!
# Lines and pieces of lines

A stream is read symbol by symbol and cut where a test says so; the test sees what has been read
since the last cut. Lines are cut behind every separator. A reader with room for `n` symbols cuts
besides wherever a line gets longer than that. Nothing is lost by cutting, and the two cuts are the
same if every line fits.
-/

namespace CcodeTest.Lib

section Segments

variable {α : Type*} {ends : List α → α → Bool}

/-- The segments of a stream, with what has been read of the first one. -/
def segments (ends : List α → α → Bool) (current : List α) : List α → List (List α)
  | [] => if current.isEmpty then [] else [current]
  | c :: cs =>
    if ends current c then (current ++ [c]) :: segments ends [] cs
    else segments ends (current ++ [c]) cs

/-- The element at hand ends a segment. -/
lemma segments_of_ends {current : List α} {c : α} (h : ends current c = true) (cs : List α) :
    segments ends current (c :: cs) = (current ++ [c]) :: segments ends [] cs := if_pos h

/-- It belongs to the segment at hand. -/
lemma segments_of_not {current : List α} {c : α} (h : ends current c = false) (cs : List α) :
    segments ends current (c :: cs) = segments ends (current ++ [c]) cs := by
  rw [segments, h, if_neg Bool.false_ne_true]

/-- The last segment needs no end. -/
lemma segments_end {current : List α} {c : α} : segments ends (current ++ [c]) [] = [current ++ [c]] :=
  if_neg (by simp)

@[simp] lemma flatten_segments (current s : List α) :
    (segments ends current s).flatten = current ++ s := by
  induction s generalizing current with
  | nil =>
    cases current with
    | nil => rfl
    | cons c current => rfl
  | cons c cs ih =>
    cases hend : ends current c with
    | true =>
      rw [segments_of_ends hend, List.flatten_cons, ih, List.nil_append, List.append_assoc,
        List.singleton_append]
    | false => rw [segments_of_not hend, ih, List.append_assoc, List.singleton_append]

/-- What is not in the text is in no segment. -/
lemma not_mem_segments {s p : List α} {c : α} (h : c ∉ s) (hp : p ∈ segments ends [] s) :
    c ∉ p := by
  have hflat : (segments ends [] s).flatten = s := flatten_segments [] s
  intro hmem
  apply h
  rw [← hflat]
  exact List.mem_flatten_of_mem hp hmem

/-- The segment that is being read goes on with the next symbol. -/
lemma exists_segment (current : List α) (c : α) (cs : List α) :
    ∃ l ∈ segments ends current (c :: cs), current ++ [c] <+: l := by
  induction cs generalizing current c with
  | nil =>
    refine ⟨current ++ [c], ?_, List.prefix_refl _⟩
    cases hend : ends current c with
    | true =>
      rw [segments_of_ends hend]
      exact List.mem_cons_self
    | false =>
      rw [segments_of_not hend, segments_end]
      exact List.mem_cons_self
  | cons d ds ih =>
    cases hend : ends current c with
    | true =>
      rw [segments_of_ends hend]
      exact ⟨current ++ [c], List.mem_cons_self, List.prefix_refl _⟩
    | false =>
      rw [segments_of_not hend]
      obtain ⟨l, hl, hpre⟩ := ih (current ++ [c]) d
      exact ⟨l, hl, (List.prefix_append ..).trans hpre⟩

end Segments

section Lines

variable {α : Type*} [DecidableEq α] {nl : α} {n : Nat}

/-- Behind a separator. -/
def atSeparator (nl : α) (_ : List α) (c : α) : Bool := decide (c = nl)

/-- Behind a separator, or with `n` symbols read. -/
def atRoom (nl : α) (n : Nat) (current : List α) (c : α) : Bool :=
  decide (c = nl ∨ n ≤ current.length + 1)

/-- The lines of a stream, each with its separator; the last one may have none. -/
def lines (nl : α) : List α → List (List α) := segments (atSeparator nl) []

/-- What a reader gets that takes at most `n` symbols of a line at a time. -/
def pieces (nl : α) (n : Nat) : List α → List (List α) := segments (atRoom nl n) []

/-- A reader with room for every line gets the lines, from any point of a line on. -/
lemma segments_eq_of_room {current s : List α}
    (h : ∀ l ∈ segments (atSeparator nl) current s, l.length ≤ n) :
    segments (atRoom nl n) current s = segments (atSeparator nl) current s := by
  induction s generalizing current with
  | nil => rfl
  | cons c cs ih =>
    by_cases hc : c = nl
    · have hsep : atSeparator nl current c = true := decide_eq_true hc
      have hroom : atRoom nl n current c = true := decide_eq_true (Or.inl hc)
      rw [segments_of_ends hsep] at h ⊢
      rw [segments_of_ends hroom, ih fun l hl => h l (List.mem_cons_of_mem _ hl)]
    · have hsep : atSeparator nl current c = false := decide_eq_false hc
      rw [segments_of_not hsep] at h ⊢
      by_cases hn : n ≤ current.length + 1
      · -- the reader has no more room, so the stream ends here
        have hroom : atRoom nl n current c = true := decide_eq_true (Or.inr hn)
        rw [segments_of_ends hroom]
        cases cs with
        | nil => rw [segments_end, segments, List.isEmpty_nil, if_pos rfl]
        | cons d ds =>
          obtain ⟨l, hl, hpre⟩ := exists_segment (current ++ [c]) d ds
          have hlen := hpre.length_le
          rw [List.length_append, List.length_append] at hlen
          exact absurd (h l hl) (Nat.not_le.2 (Nat.lt_of_le_of_lt hn hlen))
      · have hroom : atRoom nl n current c = false := decide_eq_false (not_or.2 ⟨hc, hn⟩)
        rw [segments_of_not hroom, ih h]

/-- With room for every line the pieces are the lines. -/
lemma pieces_eq_lines {s : List α} (h : ∀ l ∈ lines nl s, l.length ≤ n) :
    pieces nl n s = lines nl s := segments_eq_of_room h

/-- The lines together are the text. -/
lemma flatten_lines (s : List α) : (lines nl s).flatten = s := flatten_segments [] s

end Lines

end CcodeTest.Lib
