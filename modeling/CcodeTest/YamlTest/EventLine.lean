import CcodeTest.Lib.CString
import Mathlib.Data.List.TakeWhile

/-!
# Lines that describe events

`run-emitter.c` reads events from a text with one event a line, such as `=VAL &a <t> :text`: the
kind of the event, an anchor, a tag, and a value with a sign for its style and with escapes. Each
part has a function that looks for it on its own: `get_anchor` takes what follows the first `&` of
the whole line, `get_tag` what is between the first `<` and the first `>`, and `get_value` what
follows the first space with the sign of a style. They copy to arrays of 256 and 1024 bytes. As the
file stands `main` returns before it comes to the loop that calls them. Whether an event is made and
emitted is for `libyaml` to say (`Libyaml`).

`readEvent_eventLine` says which events come back from the line that describes them, and
`readEvents_iff` the same of a whole text.
-/

namespace CcodeTest.YamlTest
open CcodeTest.Lib

inductive Style
  | plain
  | singleQuoted
  | doubleQuoted
  | literal
  | folded
deriving DecidableEq

/-- What the functions that make an event are called with. -/
inductive Event
  | streamStart
  | streamEnd
  | documentStart (implicit : Bool)
  | documentEnd (implicit : Bool)
  | mappingStart (anchor tag : Option (List UInt8))
  | mappingEnd
  | sequenceStart (anchor tag : Option (List UInt8))
  | sequenceEnd
  | scalar (anchor tag : Option (List UInt8)) (value : List UInt8) (implicit : Bool) (style : Style)
  | aliasEvent (anchor : Option (List UInt8))
deriving DecidableEq

/-- The arrays of `main`. -/
structure Buffers where
  anchor : List UInt8
  tag : List UInt8
  value : List UInt8
  anchor_length : anchor.length = 256
  tag_length : tag.length = 256
  value_length : value.length = 1024

/-- Characters and a terminator are copied to the beginning of an array: the string in it. -/
def copied (buf s : List UInt8) : Option (List UInt8) := (putText buf 0 s).bind cText

/-- `get_anchor`. -/
def getAnchor (sigil : UInt8) (line anchor : List UInt8) : Option (Option (List UInt8)) :=
  match strchr line sigil with
  | none => some none
  | some start => (copied anchor (start.tail.takeWhile (· != 32))).map some

/-- `get_tag`. The number of characters to copy is `end - start - 1`, which is far too large as a
`size_t` if the `>` comes first. -/
def getTag (line tag : List UInt8) : Option (Option (List UInt8)) :=
  match strchr line 60, strchr line 62 with
  | some start, some stop =>
    if start.length < stop.length then none
    else (copied tag (start.tail.take (start.length - stop.length - 1))).map some
  | _, _ => some none

/-- The sign of a style: a colon, one of the quotation marks, a bar or an angle bracket. -/
def styleOf (c : UInt8) : Option Style :=
  if c = 58 then some .plain
  else if c = 39 then some .singleQuoted
  else if c = 34 then some .doubleQuoted
  else if c = 124 then some .literal
  else if c = 62 then some .folded
  else none

/-- The first loop of `get_value`: the style, and what follows its sign. -/
def findValue : List UInt8 → Option (Style × List UInt8)
  | [] => none
  | c :: cs =>
    match if c = 32 then cs.head?.bind styleOf else none with
    | some style => some (style, cs.tail)
    | none => findValue cs

/-- What follows a backslash. -/
def unescapeChar (c : UInt8) : Option UInt8 :=
  if c = 92 then some 92
  else if c = 48 then some 0
  else if c = 98 then some 8
  else if c = 110 then some 10
  else if c = 114 then some 13
  else if c = 116 then some 9
  else none

/-- The second loop of `get_value`. It aborts at any other character behind a backslash. -/
def unescape : List UInt8 → Option (List UInt8)
  | [] => some []
  | [c] => if c = 92 then none else some [c]
  | c :: d :: cs =>
    if c = 92 then (unescapeChar d).bind fun v => (unescape cs).map (v :: ·)
    else (unescape (d :: cs)).map (c :: ·)

/-- `get_value`. -/
def getValue (line value : List UInt8) : Option (Style × List UInt8) :=
  (findValue (line.drop 4)).bind fun r =>
    (unescape r.2).bind fun v => (copied value v).map fun v => (r.1, v)

/-- The event that a turn of the loop makes of a line; none where it ends before that, or leaves an
array. -/
def readEvent (b : Buffers) (line : List UInt8) : Option Event :=
  -- `+STR` and `-STR`
  if [43, 83, 84, 82].isPrefixOf line then some .streamStart
  else if [45, 83, 84, 82].isPrefixOf line then some .streamEnd
  -- `+DOC` and `-DOC`, not implicit with `---` or `...`
  else if [43, 68, 79, 67].isPrefixOf line then
    some (.documentStart !([43, 68, 79, 67, 32, 45, 45, 45].isPrefixOf line))
  else if [45, 68, 79, 67].isPrefixOf line then
    some (.documentEnd !([45, 68, 79, 67, 32, 46, 46, 46].isPrefixOf line))
  -- `+MAP` and `-MAP`
  else if [43, 77, 65, 80].isPrefixOf line then
    (getAnchor 38 line b.anchor).bind fun anchor =>
      (getTag line b.tag).map fun tag => .mappingStart anchor tag
  else if [45, 77, 65, 80].isPrefixOf line then some .mappingEnd
  -- `+SEQ` and `-SEQ`
  else if [43, 83, 69, 81].isPrefixOf line then
    (getAnchor 38 line b.anchor).bind fun anchor =>
      (getTag line b.tag).map fun tag => .sequenceStart anchor tag
  else if [45, 83, 69, 81].isPrefixOf line then some .sequenceEnd
  -- `=VAL` and `=ALI`
  else if [61, 86, 65, 76].isPrefixOf line then
    (getValue line b.value).bind fun value =>
      (getAnchor 38 line b.anchor).bind fun anchor =>
        (getTag line b.tag).map fun tag => .scalar anchor tag value.2 tag.isNone value.1
  else if [61, 65, 76, 73].isPrefixOf line then (getAnchor 42 line b.anchor).map .aliasEvent
  else none

/-- `get_line`: the line and the rest of the text, nothing at its end. It aborts when the newline is
not among the 1022 characters that `fgets` reads. -/
def getLine (input : List UInt8) : Option (Option (List UInt8 × List UInt8)) :=
  if input = [] then some none
  else
    let line := (input.take 1022).takeWhile (· != 0)
    if 10 ∈ line then
      some (some (line.takeWhile (· != 10), (input.dropWhile (· != 10)).tail))
    else none

/-- `libyaml`, in some state of its own: whether it makes an event (`yaml_scalar_event_initialize`
and its likes), and what `yaml_emitter_emit` leads to if it does not fail. -/
structure Libyaml (σ : Type*) where
  eventInitialize : σ → Event → Bool
  emitterEmit : σ → Event → Option σ

/-- The end of a turn: `goto event_error`, `goto emitter_error`, or on to the next line. -/
def Libyaml.accept {σ : Type*} (lib : Libyaml σ) (s : σ) (e : Event) : Option σ :=
  if lib.eventInitialize s e then lib.emitterEmit s e else none

/-- `while (get_line(input, line))`, for at most so many turns: the events that are emitted, if the
loop comes to the end of the text. -/
def readEvents {σ : Type*} (lib : Libyaml σ) (b : Buffers) :
    Nat → σ → List UInt8 → Option (List Event)
  | 0, _, _ => none
  | n + 1, s, input =>
    (getLine input).bind fun r =>
      match r with
      | none => some []
      | some (line, rest) =>
        (readEvent b line).bind fun e =>
          (lib.accept s e).bind fun s => (readEvents lib b n s rest).map (e :: ·)

/-! The lines. -/

def anchorPart (sigil : UInt8) : Option (List UInt8) → List UInt8
  | none => []
  | some anchor => 32 :: sigil :: anchor

def tagPart : Option (List UInt8) → List UInt8
  | none => []
  | some tag => 32 :: 60 :: (tag ++ [62])

def Style.sign : Style → UInt8
  | .plain => 58
  | .singleQuoted => 39
  | .doubleQuoted => 34
  | .literal => 124
  | .folded => 62

def escape (c : UInt8) : List UInt8 :=
  if c = 92 then [92, 92]
  else if c = 0 then [92, 48]
  else if c = 8 then [92, 98]
  else if c = 10 then [92, 110]
  else if c = 13 then [92, 114]
  else if c = 9 then [92, 116]
  else [c]

/-- The line for an event. -/
def eventLine : Event → List UInt8
  | .streamStart => [43, 83, 84, 82]
  | .streamEnd => [45, 83, 84, 82]
  | .documentStart implicit => [43, 68, 79, 67] ++ if implicit then [] else [32, 45, 45, 45]
  | .documentEnd implicit => [45, 68, 79, 67] ++ if implicit then [] else [32, 46, 46, 46]
  | .mappingStart anchor tag => [43, 77, 65, 80] ++ (anchorPart 38 anchor ++ tagPart tag)
  | .mappingEnd => [45, 77, 65, 80]
  | .sequenceStart anchor tag => [43, 83, 69, 81] ++ (anchorPart 38 anchor ++ tagPart tag)
  | .sequenceEnd => [45, 83, 69, 81]
  | .scalar anchor tag value _ style =>
    [61, 86, 65, 76] ++
      (anchorPart 38 anchor ++ (tagPart tag ++ 32 :: style.sign :: value.flatMap escape))
  | .aliasEvent anchor => [61, 65, 76, 73] ++ anchorPart 42 anchor

/-- A name: no space, newline, angle bracket or terminator. -/
def Plain (name : List UInt8) : Prop := ∀ c ∈ name, c ∉ [0, 10, 32, 60, 62]

section Parts

variable {buf anchor tag pre rest s v : List UInt8} {name : Option (List UInt8)} {sigil c : UInt8}

/-- A text ends at its first NUL. -/
lemma cText_append_zero (s rest : List UInt8) :
    cText (s ++ 0 :: rest) = some (s.takeWhile (· != 0)) := by
  induction s with
  | nil => rfl
  | cons c s ih =>
    rw [List.cons_append, cText]
    by_cases hc : c = 0
    · simp [hc]
    · simp [hc, ih]

/-- The buffers hold a text that is shorter than they are, up to its first NUL. -/
lemma copied_eq (buf s : List UInt8) :
    copied buf s = if s.length < buf.length then some (s.takeWhile (· != 0)) else none := by
  rw [copied, putText, Nat.zero_add]
  split
  · rw [Option.bind_some, List.take_zero, List.nil_append, cText_append_zero]
  · rfl

/-- A text comes through exactly if there is room for it and it is a string. -/
lemma copied_self : copied buf s = some s ↔ s.length < buf.length ∧ 0 ∉ s := by
  have hall : s.takeWhile (· != 0) = s ↔ 0 ∉ s := by
    rw [List.takeWhile_eq_self_iff]
    simp only [bne_iff_ne]
    exact ⟨fun h hz => h 0 hz rfl, fun h x hx hz => h (hz ▸ hx)⟩
  rw [copied_eq]
  split
  · rename_i hlt
    simp [hlt, hall]
  · rename_i hge
    simp [hge]

/-- A part of a line fits its array. -/
def Fits (name : Option (List UInt8)) : Prop := ∀ x ∈ name, x.length < 256

/-- `get_anchor` finds the name that the line was made with, if it fits and no other sigil stands in
for one. -/
lemma getAnchor_eq (sigil : UInt8) (pre : List UInt8) (hbuf : buf.length = 256)
    (hpre : sigil ∉ pre) (hsigil : sigil ≠ 32) (hrest : rest = [] ∨ ∃ r, rest = 32 :: r)
    (hname : ∀ x ∈ name, Plain x) :
    getAnchor sigil (pre ++ (anchorPart sigil name ++ rest)) buf = some name ↔
      Fits name ∧ (name = none → sigil ∉ rest) := by
  cases name with
  | none =>
    rw [anchorPart, List.nil_append, getAnchor]
    cases hc : strchr (pre ++ rest) sigil with
    | none =>
      rw [strchr_eq_none, List.mem_append, not_or] at hc
      simp [Fits, hc.2]
    | some start =>
      have hmem : sigil ∈ pre ++ rest := by
        by_contra hmem
        rw [strchr_eq_none.2 hmem] at hc
        cases hc
      have hrest : sigil ∈ rest := (List.mem_append.1 hmem).resolve_left hpre
      simp [hrest]
  | some x =>
    have hx := hname x rfl
    have hspace : 32 ∉ x := fun hmem => hx 32 hmem (by simp)
    have hzero : 0 ∉ x := fun hmem => hx 0 hmem (by simp)
    have hline : pre ++ (anchorPart sigil (some x) ++ rest) =
        (pre ++ [32]) ++ sigil :: (x ++ rest) := by simp [anchorPart]
    have hbefore : sigil ∉ pre ++ [32] := by simp [hpre, hsigil]
    have htext : (x ++ rest).takeWhile (· != 32) = x := by
      rw [takeWhile_ne_append hspace]
      rcases hrest with rfl | ⟨r, rfl⟩ <;> simp
    rw [getAnchor, hline, strchr_append hbefore]
    simp only [List.tail_cons, htext, Option.map_eq_some_iff, Option.some.injEq, exists_eq_right]
    rw [copied_self, hbuf]
    simp [Fits, hzero]

/-- `get_tag` finds the tag, if it fits and nothing else looks like one. -/
lemma getTag_eq (rest : List UInt8) (hbuf : buf.length = 256) (hpre : 60 ∉ pre ∧ 62 ∉ pre)
    (hname : ∀ x ∈ name, Plain x) :
    getTag (pre ++ (tagPart name ++ rest)) buf = some name ↔
      Fits name ∧ (name = none → 60 ∉ rest ∨ 62 ∉ rest) := by
  cases name with
  | none =>
    rw [tagPart, List.nil_append, getTag]
    cases hopen : strchr (pre ++ rest) 60 with
    | none =>
      rw [strchr_eq_none, List.mem_append, not_or] at hopen
      simp [Fits, hopen.2]
    | some start =>
      have hmem : 60 ∈ rest := by
        by_contra hmem
        rw [strchr_eq_none.2 (by simp [hpre.1, hmem])] at hopen
        cases hopen
      cases hclose : strchr (pre ++ rest) 62 with
      | none =>
        rw [strchr_eq_none, List.mem_append, not_or] at hclose
        simp [Fits, hclose.2]
      | some stop =>
        have hmem' : 62 ∈ rest := by
          by_contra hmem'
          rw [strchr_eq_none.2 (by simp [hpre.2, hmem'])] at hclose
          cases hclose
        -- a tag that is not there, or a copy that leaves the array
        simp only [hmem, hmem', not_true_eq_false, or_self, imp_false, and_false, iff_false]
        split <;> simp
  | some x =>
    have hx := hname x rfl
    have hopen : 60 ∉ pre ++ [32] := by simp [hpre.1]
    have hclose : 62 ∉ pre ++ 32 :: 60 :: x := by
      have hmem : 62 ∉ x := fun hmem => hx 62 hmem (by simp)
      simp [hpre.2, hmem]
    have hzero : 0 ∉ x := fun hmem => hx 0 hmem (by simp)
    have hline : pre ++ (tagPart (some x) ++ rest) =
        (pre ++ [32]) ++ 60 :: (x ++ 62 :: rest) := by simp [tagPart]
    have hline' : pre ++ (tagPart (some x) ++ rest) =
        (pre ++ 32 :: 60 :: x) ++ 62 :: rest := by simp [tagPart]
    have hstart := strchr_append hopen (x ++ 62 :: rest)
    have hstop := strchr_append hclose rest
    rw [← hline] at hstart
    rw [← hline'] at hstop
    have hcount : (60 :: (x ++ 62 :: rest)).length - (62 :: rest).length - 1 = x.length := by
      simp only [List.length_cons, List.length_append]
      omega
    have hlt : ¬ (60 :: (x ++ 62 :: rest)).length < (62 :: rest).length := by
      simp only [List.length_cons, List.length_append]
      omega
    rw [getTag, hstart, hstop]
    simp only [hlt, if_false, hcount, List.tail_cons, List.take_left', Option.map_eq_some_iff,
      Option.some.injEq, exists_eq_right]
    rw [copied_self, hbuf]
    simp [Fits, hzero]

/-- A character that is not a backslash stands for itself. -/
lemma unescape_cons (hc : c ≠ 92) (cs : List UInt8) :
    unescape (c :: cs) = (unescape cs).map (c :: ·) := by
  cases cs with
  | nil => simp [unescape, hc]
  | cons d cs => rw [unescape, if_neg hc]

/-- A character stands for itself, or behind a backslash for another one. -/
lemma escape_cases (c : UInt8) :
    (escape c = [c] ∧ c ∉ [92, 0, 8, 10, 13, 9]) ∨
      (c ∈ [92, 0, 8, 10, 13, 9] ∧
        ∃ d ∈ [92, 48, 98, 110, 114, 116], escape c = [92, d] ∧ unescapeChar d = some c) := by
  by_cases hc : c = 92 ∨ c = 0 ∨ c = 8 ∨ c = 10 ∨ c = 13 ∨ c = 9
  · rcases hc with rfl | rfl | rfl | rfl | rfl | rfl <;> exact .inr (by decide)
  · simp only [not_or] at hc
    exact .inl (by simp [escape, hc])

/-- What is escaped comes back. -/
lemma unescape_flatMap_escape (v : List UInt8) : unescape (v.flatMap escape) = some v := by
  induction v with
  | nil => rfl
  | cons c v ih =>
    rw [List.flatMap_cons]
    rcases escape_cases c with ⟨hself, hc⟩ | ⟨-, d, -, hback, hchar⟩
    · have hne : c ≠ 92 := fun heq => hc (heq ▸ List.mem_cons_self)
      rw [hself, List.singleton_append, unescape_cons hne, ih]
      rfl
    · rw [hback]
      simp [unescape, hchar, ih]

/-- The characters that a text is searched for are not made or hidden by escaping. -/
lemma mem_flatMap_escape (hc : c ∈ [38, 60, 62]) : c ∈ v.flatMap escape ↔ c ∈ v := by
  have hapart : ∀ d ∈ [92, 0, 8, 10, 13, 9] ++ [92, 48, 98, 110, 114, 116], c ≠ d := by
    simp only [List.mem_cons, List.not_mem_nil, or_false] at hc
    rcases hc with rfl | rfl | rfl <;> simp
  have hchar : ∀ d, c ∈ escape d ↔ c = d := by
    intro d
    rcases escape_cases d with ⟨hself, -⟩ | ⟨hd, d', hd', hback, -⟩
    · rw [hself, List.mem_singleton]
    · have hne := hapart d (List.mem_append_left _ hd)
      have hne' := hapart d' (List.mem_append_right _ hd')
      have hslash := hapart 92 List.mem_cons_self
      simp [hback, hne, hne', hslash]
  simp [List.mem_flatMap, hchar]

/-- The value begins behind the first blank. -/
lemma findValue_append {u : List UInt8} (hu : 32 ∉ u) (w : List UInt8) :
    findValue (u ++ w) = findValue w := by
  induction u with
  | nil => rfl
  | cons c u ih =>
    rw [List.mem_cons, not_or] at hu
    rw [List.cons_append, findValue, if_neg (Ne.symm hu.1)]
    exact ih hu.2

/-- A part that does not begin with the sign of a style is passed over. -/
lemma findValue_part {u : List UInt8} (hu : 32 ∉ u) (hc : c ≠ 32 ∧ styleOf c = none)
    (w : List UInt8) : findValue (32 :: c :: (u ++ w)) = findValue w := by
  have hskip : findValue (32 :: c :: (u ++ w)) = findValue ((c :: u) ++ w) := by
    rw [findValue]
    simp [hc.2]
  rw [hskip]
  refine findValue_append ?_ w
  simp [hu, Ne.symm hc.1]

/-- There its style stands. -/
lemma findValue_sign (style : Style) (w : List UInt8) :
    findValue (32 :: style.sign :: w) = some (style, w) := by
  cases style <;> rfl

/-- `get_value` finds the style and the value, if the value fits and holds no NUL. -/
lemma getValue_eq {anchor tag : Option (List UInt8)} (kind v : List UInt8) (style : Style)
    (hbuf : buf.length = 1024) (hkind : kind.length = 4) (hanchor : ∀ x ∈ anchor, Plain x)
    (htag : ∀ x ∈ tag, Plain x) :
    getValue (kind ++
      (anchorPart 38 anchor ++ (tagPart tag ++ 32 :: style.sign :: v.flatMap escape))) buf =
        some (style, v) ↔ v.length < 1024 ∧ 0 ∉ v := by
  have hspace : ∀ x, Plain x → 32 ∉ x := fun x hx hmem => hx 32 hmem (by simp)
  have hfind : findValue (anchorPart 38 anchor ++
      (tagPart tag ++ 32 :: style.sign :: v.flatMap escape)) = some (style, v.flatMap escape) := by
    have hrest : findValue (tagPart tag ++ 32 :: style.sign :: v.flatMap escape) =
        some (style, v.flatMap escape) := by
      cases tag with
      | none => exact findValue_sign style _
      | some x =>
        have hx : 32 ∉ x ++ [62] := by simp [hspace x (htag x rfl)]
        exact (findValue_part hx (by decide) _).trans (findValue_sign style _)
    cases anchor with
    | none => exact hrest
    | some x => exact (findValue_part (hspace x (hanchor x rfl)) (by decide) _).trans hrest
  rw [getValue, List.drop_left' hkind, hfind, Option.bind_some, unescape_flatMap_escape,
    Option.bind_some]
  simp only [Option.map_eq_some_iff, Prod.mk.injEq, true_and, exists_eq_right]
  rw [copied_self, hbuf]

end Parts

/-- The names in an event are plain, and a value without a tag is the one whose tag is implicit. -/
def Event.WellFormed : Event → Prop
  | .mappingStart anchor tag | .sequenceStart anchor tag =>
    (∀ x ∈ anchor, Plain x) ∧ ∀ x ∈ tag, Plain x
  | .scalar anchor tag _ implicit _ =>
    (∀ x ∈ anchor, Plain x) ∧ (∀ x ∈ tag, Plain x) ∧ tag.isNone = implicit
  | .aliasEvent anchor => ∀ x ∈ anchor, Plain x
  | _ => True

/-- The events that come back. Without an anchor there is no `&` in the tag or the value; without a
tag there are not both an `<` and an `>` in the value, of which the style may have the latter. A
value has no terminator in it, and everything fits the arrays. -/
def Event.Readable : Event → Prop
  | .mappingStart anchor tag | .sequenceStart anchor tag =>
    Fits anchor ∧ Fits tag ∧ (anchor = none → ∀ x ∈ tag, 38 ∉ x)
  | .scalar anchor tag value _ style =>
    (value.length < 1024 ∧ 0 ∉ value) ∧
      (Fits anchor ∧ (anchor = none → (∀ x ∈ tag, 38 ∉ x) ∧ 38 ∉ value)) ∧
      Fits tag ∧ (tag = none → 60 ∉ value ∨ style ≠ .folded ∧ 62 ∉ value)
  | .aliasEvent anchor => Fits anchor
  | _ => True

section Lines

variable {anchor tag : Option (List UInt8)} {kind value rest : List UInt8} {c : UInt8}

/-- A tag holds no sigil of an anchor. -/
lemma not_mem_tagPart : 38 ∉ tagPart tag ↔ ∀ x ∈ tag, 38 ∉ x := by
  cases tag <;> simp [tagPart]

/-- The tag is missing, or a blank stands before it. -/
lemma tagPart_cases (tag : Option (List UInt8)) :
    tagPart tag = [] ∨ ∃ r, tagPart tag = 32 :: r := by
  cases tag with
  | none => exact .inl rfl
  | some x => exact .inr ⟨_, rfl⟩

/-- Brackets are in the tag alone. -/
lemma not_mem_anchorPart (kind : List UInt8) (hkind : 60 ∉ kind ∧ 62 ∉ kind)
    (hanchor : ∀ x ∈ anchor, Plain x) :
    60 ∉ kind ++ anchorPart 38 anchor ∧ 62 ∉ kind ++ anchorPart 38 anchor := by
  cases anchor with
  | none => simpa [anchorPart] using hkind
  | some x =>
    have hx := hanchor x rfl
    have hopen : 60 ∉ x := fun hmem => hx 60 hmem (by simp)
    have hclose : 62 ∉ x := fun hmem => hx 62 hmem (by simp)
    simp [anchorPart, hkind, hopen, hclose]

/-- The anchor and the tag of a collection. -/
lemma collection_eq (b : Buffers) (kind : List UInt8) (hkind : 38 ∉ kind ∧ 60 ∉ kind ∧ 62 ∉ kind)
    (hanchor : ∀ x ∈ anchor, Plain x) (htag : ∀ x ∈ tag, Plain x) :
    (getAnchor 38 (kind ++ (anchorPart 38 anchor ++ tagPart tag)) b.anchor = some anchor ∧
      getTag (kind ++ (anchorPart 38 anchor ++ tagPart tag)) b.tag = some tag) ↔
        Fits anchor ∧ Fits tag ∧ (anchor = none → ∀ x ∈ tag, 38 ∉ x) := by
  have hline : kind ++ (anchorPart 38 anchor ++ tagPart tag) =
      (kind ++ anchorPart 38 anchor) ++ (tagPart tag ++ []) := by simp
  rw [getAnchor_eq 38 kind b.anchor_length hkind.1 (by decide) (tagPart_cases tag) hanchor, hline,
    getTag_eq [] b.tag_length (not_mem_anchorPart kind hkind.2 hanchor) htag, not_mem_tagPart]
  simp only [List.not_mem_nil, not_false_eq_true, true_or, implies_true, and_true]
  tauto

/-- The three parts of a scalar are found exactly when the scalar is readable. -/
lemma scalar_eq (b : Buffers) (style : Style) (hanchor : ∀ x ∈ anchor, Plain x)
    (htag : ∀ x ∈ tag, Plain x) {line : List UInt8}
    (hline : line = [61, 86, 65, 76] ++
      (anchorPart 38 anchor ++ (tagPart tag ++ 32 :: style.sign :: value.flatMap escape))) :
    (getValue line b.value = some (style, value) ∧ getAnchor 38 line b.anchor = some anchor ∧
      getTag line b.tag = some tag) ↔
        (Event.scalar anchor tag value tag.isNone style).Readable := by
  have hrest : ∃ r, tagPart tag ++ 32 :: style.sign :: value.flatMap escape = 32 :: r := by
    cases tag with
    | none => exact ⟨_, rfl⟩
    | some x => exact ⟨_, rfl⟩
  have hamp : 38 ∉ tagPart tag ++ 32 :: style.sign :: value.flatMap escape ↔
      (∀ x ∈ tag, 38 ∉ x) ∧ 38 ∉ value := by
    rw [List.mem_append, not_or, not_mem_tagPart, List.mem_cons, List.mem_cons,
      mem_flatMap_escape (by decide)]
    cases style <;> simp [Style.sign]
  have hopen : 60 ∉ 32 :: style.sign :: value.flatMap escape ↔ 60 ∉ value := by
    rw [List.mem_cons, List.mem_cons, mem_flatMap_escape (by decide)]
    cases style <;> simp [Style.sign]
  have hclose : 62 ∉ 32 :: style.sign :: value.flatMap escape ↔ style ≠ .folded ∧ 62 ∉ value := by
    rw [List.mem_cons, List.mem_cons, mem_flatMap_escape (by decide)]
    cases style <;> simp [Style.sign]
  have hvalue := getValue_eq [61, 86, 65, 76] value style b.value_length rfl hanchor htag
  have hname := getAnchor_eq 38 [61, 86, 65, 76] b.anchor_length (by decide) (by decide)
    (.inr hrest) hanchor
  have htagged := getTag_eq (32 :: style.sign :: value.flatMap escape) b.tag_length
    (not_mem_anchorPart [61, 86, 65, 76] (by decide) hanchor) htag
  rw [List.append_assoc] at htagged
  rw [hline, hvalue, hname, htagged, hamp, hopen, hclose]
  rfl

/-- The line for an event is read as this event exactly if it is one of the readable ones. -/
lemma readEvent_eventLine (b : Buffers) {e : Event} (he : e.WellFormed) :
    readEvent b (eventLine e) = some e ↔ e.Readable := by
  cases e with
  | streamStart => exact iff_of_true rfl trivial
  | streamEnd => exact iff_of_true rfl trivial
  | documentStart implicit => cases implicit <;> exact iff_of_true rfl trivial
  | documentEnd implicit => cases implicit <;> exact iff_of_true rfl trivial
  | mappingEnd => exact iff_of_true rfl trivial
  | sequenceEnd => exact iff_of_true rfl trivial
  | mappingStart anchor tag =>
    rw [Event.Readable, ← collection_eq b [43, 77, 65, 80] (by decide) he.1 he.2]
    simp [readEvent, eventLine, List.isPrefixOf, Option.bind_eq_some_iff]
  | sequenceStart anchor tag =>
    rw [Event.Readable, ← collection_eq b [43, 83, 69, 81] (by decide) he.1 he.2]
    simp [readEvent, eventLine, List.isPrefixOf, Option.bind_eq_some_iff]
  | scalar anchor tag value implicit style =>
    obtain ⟨hanchor, htag, rfl⟩ := he
    rw [← scalar_eq b style hanchor htag rfl]
    simp [readEvent, eventLine, List.isPrefixOf, Option.bind_eq_some_iff]
  | aliasEvent anchor =>
    have hname := getAnchor_eq 42 [61, 65, 76, 73] b.anchor_length (by decide) (by decide)
      (.inl rfl) he
    rw [List.append_nil] at hname
    simp only [List.not_mem_nil, not_false_eq_true, implies_true, and_true] at hname
    rw [Event.Readable, ← hname]
    simp [readEvent, eventLine, List.isPrefixOf]

/-! The text. -/

/-- One line of a text that is a string. -/
def OneLine (s : List UInt8) : Prop := ∀ c ∈ s, c ≠ 0 ∧ c ≠ 10

/-- Two texts are one line when each is. -/
lemma oneLine_append {s s' : List UInt8} : OneLine (s ++ s') ↔ OneLine s ∧ OneLine s' :=
  List.forall_mem_append

/-- The same for one more character. -/
lemma oneLine_cons {s : List UInt8} : OneLine (c :: s) ↔ (c ≠ 0 ∧ c ≠ 10) ∧ OneLine s :=
  List.forall_mem_cons

/-- The empty text is one line. -/
lemma oneLine_nil : OneLine [] := nofun

/-- So is a name. -/
lemma Plain.oneLine {s : List UInt8} (hs : Plain s) : OneLine s := by
  intro c hc
  have hout := hs c hc
  simp only [List.mem_cons, not_or] at hout
  exact ⟨hout.1, hout.2.1⟩

/-- And an anchor. -/
lemma oneLine_anchorPart {sigil : UInt8} (hsigil : sigil ≠ 0 ∧ sigil ≠ 10)
    (hanchor : ∀ x ∈ anchor, Plain x) : OneLine (anchorPart sigil anchor) := by
  cases anchor with
  | none => exact oneLine_nil
  | some x =>
    rw [anchorPart, oneLine_cons, oneLine_cons]
    exact ⟨by decide, hsigil, (hanchor x rfl).oneLine⟩

/-- And a tag. -/
lemma oneLine_tagPart (htag : ∀ x ∈ tag, Plain x) : OneLine (tagPart tag) := by
  cases tag with
  | none => exact oneLine_nil
  | some x =>
    rw [tagPart, oneLine_cons, oneLine_cons, oneLine_append, oneLine_cons]
    exact ⟨by decide, by decide, (htag x rfl).oneLine, by decide, oneLine_nil⟩

/-- And every value that is escaped. -/
lemma oneLine_flatMap_escape (v : List UInt8) : OneLine (v.flatMap escape) := by
  have hnames : ∀ d ∈ ([92, 48, 98, 110, 114, 116] : List UInt8), d ≠ 0 ∧ d ≠ 10 := by simp
  have hescape : ∀ d, OneLine (escape d) := by
    intro d
    rcases escape_cases d with ⟨hself, hd⟩ | ⟨-, d', hd', hback, -⟩
    · rw [hself, oneLine_cons]
      simp only [List.mem_cons, not_or] at hd
      exact ⟨⟨hd.2.1, hd.2.2.2.1⟩, oneLine_nil⟩
    · rw [hback, oneLine_cons, oneLine_cons]
      exact ⟨by decide, hnames d' hd', oneLine_nil⟩
  intro c hc
  obtain ⟨d, -, hd⟩ := List.mem_flatMap.1 hc
  exact hescape d c hd

/-- Every event is printed on one line. -/
lemma oneLine_eventLine {e : Event} (he : e.WellFormed) : OneLine (eventLine e) := by
  cases e with
  | streamStart => simp [OneLine, eventLine]
  | streamEnd => simp [OneLine, eventLine]
  | documentStart implicit => cases implicit <;> simp [OneLine, eventLine]
  | documentEnd implicit => cases implicit <;> simp [OneLine, eventLine]
  | mappingEnd => simp [OneLine, eventLine]
  | sequenceEnd => simp [OneLine, eventLine]
  | mappingStart anchor tag =>
    refine oneLine_append.2 ⟨by simp [OneLine], oneLine_append.2 ⟨?_, ?_⟩⟩
    · exact oneLine_anchorPart (by decide) he.1
    · exact oneLine_tagPart he.2
  | sequenceStart anchor tag =>
    refine oneLine_append.2 ⟨by simp [OneLine], oneLine_append.2 ⟨?_, ?_⟩⟩
    · exact oneLine_anchorPart (by decide) he.1
    · exact oneLine_tagPart he.2
  | scalar anchor tag value implicit style =>
    refine oneLine_append.2 ⟨by simp [OneLine], oneLine_append.2 ⟨?_, ?_⟩⟩
    · exact oneLine_anchorPart (by decide) he.1
    · refine oneLine_append.2 ⟨oneLine_tagPart he.2.1, oneLine_cons.2 ⟨by decide, ?_⟩⟩
      refine oneLine_cons.2 ⟨?_, oneLine_flatMap_escape value⟩
      cases style <;> decide
  | aliasEvent anchor =>
    refine oneLine_append.2 ⟨by simp [OneLine], ?_⟩
    exact oneLine_anchorPart (by decide) he

/-- A line that is short enough is taken off the text, and a longer one ends the program. -/
lemma getLine_eq {line : List UInt8} (hline : OneLine line) (rest : List UInt8) :
    getLine (line ++ 10 :: rest) =
      if line.length < 1022 then some (some (line, rest)) else none := by
  have hzero : 0 ∉ line := fun hmem => (hline 0 hmem).1 rfl
  have hnewline : 10 ∉ line := fun hmem => (hline 10 hmem).2 rfl
  have hne : line ++ 10 :: rest ≠ [] := by simp
  rw [getLine, if_neg hne]
  by_cases hfit : line.length < 1022
  · have htake : (line ++ 10 :: rest).take 1022 = line ++ 10 :: rest.take (1021 - line.length) := by
      have hcount : 1022 - line.length = (1021 - line.length) + 1 := by omega
      rw [List.take_append, List.take_of_length_le (Nat.le_of_lt hfit), hcount, List.take_succ_cons]
    have htext : ((line ++ 10 :: rest).take 1022).takeWhile (· != 0) =
        line ++ 10 :: (rest.take (1021 - line.length)).takeWhile (· != 0) := by
      rw [htake, takeWhile_ne_append hzero]
      rfl
    have hcut : (line ++ 10 :: (rest.take (1021 - line.length)).takeWhile (· != 0)).takeWhile
        (· != 10) = line := by
      rw [takeWhile_ne_append hnewline]
      simp
    have hdrop : (line ++ 10 :: rest).dropWhile (· != 10) = 10 :: rest := by
      rw [dropWhile_ne_append hnewline]
      simp
    simp only [htext, hcut, hdrop, List.tail_cons, if_pos hfit]
    rw [if_pos (by simp)]
  · have htake : (line ++ 10 :: rest).take 1022 = line.take 1022 :=
      List.take_append_of_le_length (Nat.le_of_not_lt hfit)
    have hout : 10 ∉ ((line ++ 10 :: rest).take 1022).takeWhile (· != 0) := by
      intro hmem
      have hmem := (List.takeWhile_sublist _).mem hmem
      rw [htake] at hmem
      exact hnewline (List.mem_of_mem_take hmem)
    simp only [hout, if_false, if_neg hfit]

end Lines

/-- The text for a list of events is read as these events exactly if each of them is readable and
its line has less than 1022 characters, and `libyaml` accepts them in this order. -/
theorem readEvents_iff {σ : Type*} (lib : Libyaml σ) (b : Buffers) (s : σ) {events : List Event}
    (hwf : ∀ e ∈ events, e.WellFormed) {n : Nat} (hn : events.length < n) :
    readEvents lib b n s (events.flatMap fun e => eventLine e ++ [10]) = some events ↔
      (∀ e ∈ events, e.Readable ∧ (eventLine e).length < 1022) ∧
        (events.foldlM lib.accept s).isSome = true := by
  induction events generalizing n s with
  | nil =>
    cases n with
    | zero => cases hn
    | succ n => simp [readEvents, getLine]
  | cons e events ih =>
    cases n with
    | zero => cases hn
    | succ n =>
      have he := hwf e List.mem_cons_self
      have hrest := fun s => ih s (fun e he => hwf e (List.mem_cons_of_mem _ he))
        (Nat.lt_of_succ_lt_succ hn)
      have htext : ((e :: events).flatMap fun e => eventLine e ++ [10]) =
          eventLine e ++ 10 :: events.flatMap fun e => eventLine e ++ [10] := by simp
      rw [htext, readEvents, getLine_eq (oneLine_eventLine he), List.forall_mem_cons,
        ← readEvent_eventLine b he, List.foldlM_cons]
      by_cases hfit : (eventLine e).length < 1022
      · rw [if_pos hfit, Option.bind_some]
        dsimp only
        constructor
        · intro h
          -- the first event that comes back is the one the line is for
          obtain ⟨e', hread, h⟩ := Option.bind_eq_some_iff.1 h
          obtain ⟨s', haccept, h⟩ := Option.bind_eq_some_iff.1 h
          obtain ⟨events', hevents, hcons⟩ := Option.map_eq_some_iff.1 h
          cases hcons
          obtain ⟨hreadable, hlib⟩ := (hrest s').1 hevents
          exact ⟨⟨⟨hread, hfit⟩, hreadable⟩, by rw [haccept]; exact hlib⟩
        · rintro ⟨⟨⟨hread, -⟩, hreadable⟩, hlib⟩
          rw [hread, Option.bind_some]
          cases haccept : lib.accept s e with
          | none =>
            rw [haccept] at hlib
            cases hlib
          | some s' =>
            rw [haccept] at hlib
            rw [Option.bind_some, (hrest s').2 ⟨hreadable, hlib⟩]
            rfl
      · simp [hfit]

def sampleBuffers : Buffers where
  anchor := List.replicate 256 0
  tag := List.replicate 256 0
  value := List.replicate 1024 0
  anchor_length := List.length_replicate
  tag_length := List.length_replicate
  value_length := List.length_replicate

/-- Where the emitter is in a stream of documents that are one scalar each. -/
inductive EmitterState
  | streamStart
  | documentStart
  | documentContent
  | documentEnd
  | ended

/-- `libyaml` on such streams. -/
def scalarEmitter : Libyaml EmitterState where
  eventInitialize _ _ := true
  emitterEmit
    | .streamStart, .streamStart => some .documentStart
    | .documentStart, .documentStart _ => some .documentContent
    | .documentStart, .streamEnd => some .ended
    | .documentContent, .scalar .. => some .documentEnd
    | .documentEnd, .documentEnd _ => some .documentStart
    | _, _ => none

/-- A document with the value `a<b`. -/
def sampleEvents (style : Style) : List Event :=
  [.streamStart, .documentStart true, .scalar none none [97, 60, 98] true style, .documentEnd true,
    .streamEnd]

/-- The text for some events. -/
def sampleText (events : List Event) : List UInt8 := events.flatMap fun e => eventLine e ++ [10]

/-- With the sign of a folded value there is an `>` before the `<`; and a stream does not begin with
its end. -/
theorem readEvents_iff_sample :
    readEvents scalarEmitter sampleBuffers 6 .streamStart (sampleText (sampleEvents .literal)) =
      some (sampleEvents .literal) ∧
    readEvents scalarEmitter sampleBuffers 6 .streamStart (sampleText (sampleEvents .folded)) ≠
      some (sampleEvents .folded) ∧
    readEvents scalarEmitter sampleBuffers 3 .streamStart (sampleText [.streamEnd, .streamStart]) ≠
      some [.streamEnd, .streamStart] := by
  refine ⟨(readEvents_iff scalarEmitter sampleBuffers .streamStart ?_ (by decide)).2 ⟨?_, ?_⟩,
    mt (readEvents_iff scalarEmitter sampleBuffers .streamStart ?_ (by decide)).1 ?_,
    mt (readEvents_iff scalarEmitter sampleBuffers .streamStart ?_ (by decide)).1 ?_⟩
  · simp [sampleEvents, Event.WellFormed]
  · simp [sampleEvents, Event.Readable, Fits, eventLine, escape, anchorPart, tagPart]
  · rfl
  · simp [sampleEvents, Event.WellFormed]
  · simp [sampleEvents, Event.Readable, Fits]
  · simp [Event.WellFormed]
  · exact fun h => Bool.false_ne_true h.2

end CcodeTest.YamlTest
