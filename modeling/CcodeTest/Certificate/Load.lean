import CcodeTest.Base64.Codec
import CcodeTest.Lib.CString
import CcodeTest.Lib.Lines
import CcodeTest.Lib.Word

/-!
# Reading the body of a certificate

The part of `load_ccert` in `read_cert.c` before the decoding: the lines between the two marks are
appended to `cert` one after the other. Three sizes are involved, the one of the file, of the line
buffer and of the block. `fgets` is told the size of the file instead of the one of the buffer, so a
long line runs out of it, and nothing terminates the block before the first `strcat`.
`readLoop_some` and `readLoop_eq` say what the loop does with the pieces it reads; from them
`loadCcert_body_iff` says when the block holds the body in the end.
-/

namespace CcodeTest.Certificate
open CcodeTest.Lib CcodeTest.Base64

/-- `CERT_BEGIN_MARK`. -/
def certBeginMark : List UInt8 :=
  ['-', '-', '-', '-', '-', 'B', 'E', 'G', 'I', 'N', ' ', 'C', 'E', 'R', 'T', 'I', 'F', 'I', 'C',
   'A', 'T', 'E', '-', '-', '-', '-', '-'].map Char.toUInt8

/-- `CERT_END_MARK`. -/
def certEndMark : List UInt8 :=
  ['-', '-', '-', '-', '-', 'E', 'N', 'D', ' ', 'C', 'E', 'R', 'T', 'I', 'F', 'I', 'C',
   'A', 'T', 'E', '-', '-', '-', '-', '-'].map Char.toUInt8

/-- `'\n'`. -/
def newline : UInt8 := 10

/-- What the calls `fgets(buf, size, fp)` read one after the other until one returns null. Without
room for a character they read nothing and never get to the end of the file. -/
def fgetsAll (size : Int) (file : List UInt8) : Option (List (List UInt8)) :=
  if size ≤ 0 then some []
  else if size = 1 then none
  else some (pieces newline (size.toNat - 1) file)

/-- The `while` loop, on what is still to be read: the block `cert` and `len` in the end. -/
def readLoop : List (List UInt8) → Bool → List UInt8 → List UInt8 → Int →
    Option (List UInt8 × Int)
  | [], _, _, cert, len => some (cert, len)
  | line :: fp, begin, buf, cert, len => do
    let buf ← putText buf 0 line
    let s ← cText buf
    if !begin then readLoop fp (strstr s certBeginMark) buf cert len
    else if !begin && strstr s certBeginMark then readLoop fp begin buf cert len
    else if strstr s certEndMark then return (cert, len)
    else readLoop fp begin buf (← strcat cert s) (int32 (len + s.length))

/-- `load_ccert` up to the decoding, for a file that can be opened, with `buf` the array as the call
finds it: `cert` and `len`, or `some none` when it gives up. -/
def loadCcert (malloc : Malloc) (file buf : List UInt8) : Option (Option (List UInt8 × Int)) :=
  let size := int32 file.length
  if size < 0 then some none
  else
    match malloc size.toNat with
    | none => some none
    | some cert => (fgetsAll size file).bind fun fp => (readLoop fp false buf cert 0).map some

/-! What the loop reads and keeps. -/

/-- The pieces that are read, up to the end mark behind a begin mark. -/
def readPieces : Bool → List (List UInt8) → List (List UInt8)
  | _, [] => []
  | false, p :: ps => p :: readPieces (strstr p certBeginMark) ps
  | true, p :: ps => p :: if strstr p certEndMark then [] else readPieces true ps

/-- The pieces that are appended, between the two marks. -/
def keptPieces : Bool → List (List UInt8) → List (List UInt8)
  | _, [] => []
  | false, p :: ps => keptPieces (strstr p certBeginMark) ps
  | true, p :: ps => if strstr p certEndMark then [] else p :: keptPieces true ps

section Loop

variable {p t buf buf' cert : List UInt8} {ps : List (List UInt8)} {begin : Bool} {len : Int}

/-- The end mark ends what is kept. -/
lemma keptPieces_of_end (h : strstr p certEndMark = true) : keptPieces true (p :: ps) = [] :=
  if_pos h

/-- A piece before it is kept. -/
lemma keptPieces_of_not (h : strstr p certEndMark = false) :
    keptPieces true (p :: ps) = p :: keptPieces true ps := by
  rw [keptPieces, h, if_neg Bool.false_ne_true]

/-- The end mark is the last piece read. -/
lemma readPieces_of_end (h : strstr p certEndMark = true) : readPieces true (p :: ps) = [p] := by
  rw [readPieces, h, if_pos rfl]

/-- The piece before it is not. -/
lemma readPieces_of_not (h : strstr p certEndMark = false) :
    readPieces true (p :: ps) = p :: readPieces true ps := by
  rw [readPieces, h, if_neg Bool.false_ne_true]

/-- A piece before the begin mark. -/
lemma readLoop_before (hput : putText buf 0 p = some buf') (hp : cText buf' = some p) :
    readLoop (p :: ps) false buf cert len =
      readLoop ps (strstr p certBeginMark) buf' cert len := by
  simp only [readLoop, hput, hp, Option.bind_eq_bind, Option.bind_some, Bool.not_false, if_true]

/-- A piece behind it. -/
lemma readLoop_after (hput : putText buf 0 p = some buf') (hp : cText buf' = some p) :
    readLoop (p :: ps) true buf cert len =
      if strstr p certEndMark then some (cert, len)
      else (strcat cert p).bind fun cert =>
        readLoop ps true buf' cert (int32 (len + p.length)) := by
  simp only [readLoop, hput, hp, Option.bind_eq_bind, Option.bind_some, Bool.not_true,
    Bool.false_and, Bool.false_eq_true, if_false]
  rfl

/-- With room in both blocks, what is kept comes behind the string the block held. -/
lemma readLoop_eq (hz : ∀ p ∈ ps, 0 ∉ p) (hbuf : ∀ p ∈ readPieces begin ps, p.length < buf.length)
    (ht : cText cert = some t) (hcert : t.length + (keptPieces begin ps).flatten.length < cert.length)
    (hsize : cert.length < 2147483648) :
    ∃ cert', readLoop ps begin buf cert t.length =
        some (cert', ((t ++ (keptPieces begin ps).flatten).length : Int)) ∧
      cText cert' = some (t ++ (keptPieces begin ps).flatten) := by
  induction ps generalizing begin buf cert t with
  | nil =>
    refine ⟨cert, ?_, ?_⟩
    · simp only [readLoop, keptPieces, List.flatten_nil, List.append_nil]
    · simp only [keptPieces, List.flatten_nil, List.append_nil, ht]
  | cons p ps ih =>
    have hz' : ∀ q ∈ ps, 0 ∉ q := fun q hq => hz q (List.mem_cons_of_mem _ hq)
    have hfit : p.length < buf.length := by
      apply hbuf
      cases begin with
      | false => exact List.mem_cons_self
      | true => exact List.mem_cons_self
    obtain ⟨buf', hput, hp, hlen⟩ := putText_zero (hz p List.mem_cons_self) hfit
    cases begin with
    | false =>
      rw [readLoop_before hput hp]
      apply ih hz' ?_ ht hcert hsize
      intro q hq
      rw [hlen]
      exact hbuf q (List.mem_cons_of_mem _ hq)
    | true =>
      rw [readLoop_after hput hp]
      cases hend : strstr p certEndMark with
      | true =>
        rw [if_pos rfl, keptPieces_of_end hend, List.flatten_nil, List.append_nil]
        exact ⟨cert, rfl, ht⟩
      | false =>
        rw [readPieces_of_not hend] at hbuf
        rw [keptPieces_of_not hend, List.flatten_cons, List.length_append] at hcert
        rw [if_neg Bool.false_ne_true, keptPieces_of_not hend, List.flatten_cons,
          ← List.append_assoc]
        obtain ⟨cert', hcat, ht', hclen⟩ :=
          strcat_append ht (hz p List.mem_cons_self) (by omega)
        rw [hcat, Option.bind_some, int32_add (by omega), ← List.length_append]
        apply ih hz' ?_ ht' ?_ ?_
        · intro q hq
          rw [hlen]
          exact hbuf q (List.mem_cons_of_mem _ hq)
        · rw [List.length_append, hclen]
          omega
        · rwa [hclen]

/-- A run of the loop stays inside the buffer, and inside the block it only appends. -/
lemma readLoop_some {r : List UInt8 × Int} {t' : List UInt8} {n : Nat} (hz : ∀ p ∈ ps, 0 ∉ p)
    (h : readLoop ps begin buf cert n = some r) (ht' : cText r.1 = some t')
    (hn : ∀ t, cText cert = some t → n ≤ t.length) (hsize : cert.length < 2147483648) :
    (∀ p ∈ readPieces begin ps, p.length < buf.length) ∧ r.1.length = cert.length ∧
      r.2 = n + (keptPieces begin ps).flatten.length ∧
      ∃ t, cText cert = some t ∧ t' = t ++ (keptPieces begin ps).flatten := by
  induction ps generalizing begin buf cert n with
  | nil =>
    cases h
    refine ⟨?_, rfl, ?_, t', ht', ?_⟩
    · intro p hp
      cases begin <;> cases hp
    · simp only [keptPieces, List.flatten_nil, List.length_nil, Int.ofNat_zero, Int.add_zero]
    · simp only [keptPieces, List.flatten_nil, List.append_nil]
  | cons p ps ih =>
    have hz' : ∀ q ∈ ps, 0 ∉ q := fun q hq => hz q (List.mem_cons_of_mem _ hq)
    obtain ⟨buf', hput, -⟩ := Option.bind_eq_some_iff.1 h
    have hfit : p.length < buf.length := by simpa using (length_putText hput).1
    obtain ⟨buf', hput, hp, hlen⟩ := putText_zero (hz p List.mem_cons_self) hfit
    cases begin with
    | false =>
      rw [readLoop_before hput hp] at h
      obtain ⟨hbuf, hr, hkept⟩ := ih hz' h hn hsize
      rw [hlen] at hbuf
      exact ⟨List.forall_mem_cons.2 ⟨hfit, hbuf⟩, hr, hkept⟩
    | true =>
      rw [readLoop_after hput hp] at h
      cases hend : strstr p certEndMark with
      | true =>
        rw [if_pos hend] at h
        cases h
        rw [readPieces_of_end hend, keptPieces_of_end hend, List.flatten_nil]
        exact ⟨List.forall_mem_singleton.2 hfit, rfl, (Int.add_zero _).symm, t', ht',
          (List.append_nil t').symm⟩
      | false =>
        rw [if_neg (by simp [hend])] at h
        obtain ⟨cert', hcat, h⟩ := Option.bind_eq_some_iff.1 h
        obtain ⟨t, ht, htp, hclen⟩ := strcat_eq_some hcat (hz p List.mem_cons_self)
        have hroom := length_of_cText htp
        have hle := hn t ht
        rw [List.length_append] at hroom
        rw [int32_add (by omega)] at h
        have hn' : ∀ t₁, cText cert' = some t₁ → n + p.length ≤ t₁.length := by
          intro t₁ ht₁
          rw [htp] at ht₁
          cases ht₁
          rw [List.length_append]
          exact Nat.add_le_add_right hle _
        obtain ⟨hbuf, hr, hr2, t₁, ht₁, he⟩ := ih hz' h hn' (by rwa [hclen])
        rw [htp] at ht₁
        cases ht₁
        rw [hlen] at hbuf
        rw [readPieces_of_not hend, keptPieces_of_not hend, List.flatten_cons]
        refine ⟨List.forall_mem_cons.2 ⟨hfit, hbuf⟩, hr.trans hclen, ?_, t, ht, ?_⟩
        · rw [hr2, List.length_append]
          omega
        · rw [he, List.append_assoc]

end Loop

/-- The lines of a file with a certificate: `begin` is the first with the begin mark and `last` the
next one with the end mark. -/
structure Framed (file : List UInt8) (pre : List (List UInt8)) (begin : List UInt8)
    (body : List (List UInt8)) (last : List UInt8) (post : List (List UInt8)) : Prop where
  lines_eq : lines newline file = pre ++ begin :: (body ++ last :: post)
  pre : ∀ l ∈ pre, strstr l certBeginMark = false
  begin : strstr begin certBeginMark = true
  body : ∀ l ∈ body, strstr l certEndMark = false
  last : strstr last certEndMark = true

/-- The block holds the lines of the body as a string and `len` is its length. -/
def LoadsBody (malloc : Malloc) (file buf : List UInt8) (body : List (List UInt8)) : Prop :=
  ∃ cert len, loadCcert malloc file buf = some (some (cert, len)) ∧
    cText cert = some body.flatten ∧ len = body.flatten.length

/-- When that is the case. If the size of the file is an `int`, `fgets` reads whole lines: they have
to fit the buffer, and the block must happen to begin with a zero. Otherwise the size is cut to an
`int`, and so are the lines and the block. -/
def BodyFits (block file : List UInt8) (pre : List (List UInt8)) (begin : List UInt8)
    (body : List (List UInt8)) (last : List UInt8) : Prop :=
  if file.length < 2147483648 then
    block.head? = some 0 ∧ ∀ l ∈ pre ++ begin :: (body ++ [last]), l.length ≤ 1023
  else
    let size := int32 file.length
    let fp := pieces newline (size.toNat - 1) file
    2 ≤ size ∧ block.head? = some 0 ∧ (∀ p ∈ readPieces false fp, p.length ≤ 1023) ∧
      (keptPieces false fp).flatten = body.flatten ∧ body.flatten.length < size

section Call

variable {malloc : Malloc} {file buf block begin last : List UInt8}
  {pre body post : List (List UInt8)}

/-- `fgets` cuts the file into pieces with room for the NUL. -/
lemma fgetsAll_eq {size : Int} (h : 2 ≤ size) (file : List UInt8) :
    fgetsAll size file = some (pieces newline (size.toNat - 1) file) := by
  unfold fgetsAll
  rw [if_neg (by omega), if_neg (by omega)]

/-- A block that begins with a zero, with room for what the call reads and keeps. -/
lemma loadsBody_of_fits (hbuf : buf.length = 1024) (htext : 0 ∉ file)
    (hblock : malloc (int32 file.length).toNat = some block)
    (hlen : block.length = (int32 file.length).toNat) {fp : List (List UInt8)}
    (hfp : pieces newline ((int32 file.length).toNat - 1) file = fp) (hsize : 2 ≤ int32 file.length)
    (hhead : block.head? = some 0) (hread : ∀ p ∈ readPieces false fp, p.length ≤ 1023)
    (hkept : (keptPieces false fp).flatten = body.flatten)
    (hroom : body.flatten.length < int32 file.length) : LoadsBody malloc file buf body := by
  have hz : ∀ p ∈ fp, 0 ∉ p := by
    rw [← hfp]
    exact fun p hp => not_mem_segments htext hp
  have hfit : ∀ p ∈ readPieces false fp, p.length < buf.length := by
    intro p hp
    rw [hbuf]
    exact Nat.lt_succ_of_le (hread p hp)
  have hint := int32_lt file.length
  have hin : ([] : List UInt8).length + (keptPieces false fp).flatten.length < block.length := by
    rw [hkept, List.length_nil]
    omega
  obtain ⟨cert, hloop, hcert⟩ := readLoop_eq hz hfit (cText_eq_nil.2 hhead) hin (by omega)
  rw [hkept, List.nil_append] at hloop hcert
  refine ⟨cert, body.flatten.length, ?_, hcert, rfl⟩
  simp only [loadCcert, hblock, fgetsAll_eq hsize, hfp, Option.bind_some]
  rw [if_neg (by omega)]
  exact congrArg (Option.map some) hloop

/-- A call that ends with a string in its block has run the loop over the pieces. -/
lemma exists_readLoop {cert t : List UInt8} {len : Int}
    (hblock : malloc (int32 file.length).toNat = some block)
    (hlen : block.length = (int32 file.length).toNat)
    (hcall : loadCcert malloc file buf = some (some (cert, len))) (hcert : cText cert = some t) :
    2 ≤ int32 file.length ∧ readLoop (pieces newline ((int32 file.length).toNat - 1) file) false buf
      block 0 = some (cert, len) := by
  simp only [loadCcert, hblock] at hcall
  split at hcall
  · cases hcall
  obtain ⟨fp, hfgets, hloop⟩ := Option.bind_eq_some_iff.1 hcall
  obtain ⟨r, hloop, hr⟩ := Option.map_eq_some_iff.1 hloop
  cases hr
  unfold fgetsAll at hfgets
  split at hfgets
  · -- nothing is read, and an empty block holds no string
    cases hfgets
    cases hloop
    have := length_of_cText hcert
    omega
  split at hfgets
  · cases hfgets
  · cases hfgets
    exact ⟨by omega, hloop⟩

/-- The call in terms of the pieces it reads. -/
lemma loadsBody_iff (hsized : malloc.Sized) (hbuf : buf.length = 1024) (htext : 0 ∉ file)
    (hblock : malloc (int32 file.length).toNat = some block) {fp : List (List UInt8)}
    (hfp : pieces newline ((int32 file.length).toNat - 1) file = fp) :
    LoadsBody malloc file buf body ↔ 2 ≤ int32 file.length ∧ block.head? = some 0 ∧
      (∀ p ∈ readPieces false fp, p.length ≤ 1023) ∧
      (keptPieces false fp).flatten = body.flatten ∧ body.flatten.length < int32 file.length := by
  have hlen := hsized _ _ hblock
  have hint := int32_lt file.length
  constructor
  · rintro ⟨cert, len, hcall, hcert, hbody⟩
    obtain ⟨hsize, hloop⟩ := exists_readLoop hblock hlen hcall hcert
    rw [hfp] at hloop
    have hz : ∀ p ∈ fp, 0 ∉ p := by
      rw [← hfp]
      exact fun p hp => not_mem_segments htext hp
    obtain ⟨hread, hcertlen, hkeptlen, t, ht, heq⟩ := readLoop_some (n := 0) hz hloop hcert
      (fun _ _ => Nat.zero_le _) (by omega)
    -- `len` counts what is kept only, so the block held the empty string
    have htlen : t.length = 0 := by
      have := congrArg List.length heq
      rw [List.length_append] at this
      dsimp only at hkeptlen
      omega
    cases List.length_eq_zero_iff.1 htlen
    have hin := length_of_cText hcert
    dsimp only at hcertlen hin
    refine ⟨hsize, cText_eq_nil.1 ht, ?_, heq.symm, by omega⟩
    intro p hp
    rw [hbuf] at hread
    exact Nat.le_of_lt_succ (hread p hp)
  · rintro ⟨hsize, hhead, hread, hkept, hroom⟩
    exact loadsBody_of_fits hbuf htext hblock hlen hfp hsize hhead hread hkept hroom

section Framed

/-- Before the begin mark nothing is kept. -/
lemma keptPieces_append {xs ys : List (List UInt8)}
    (h : ∀ l ∈ xs, strstr l certBeginMark = false) :
    keptPieces false (xs ++ ys) = keptPieces false ys := by
  induction xs with
  | nil => rfl
  | cons x xs ih =>
    obtain ⟨hx, hxs⟩ := List.forall_mem_cons.1 h
    rw [List.cons_append, keptPieces, hx, ih hxs]

/-- Pieces without the begin mark are read and not kept. -/
lemma readPieces_append {xs ys : List (List UInt8)}
    (h : ∀ l ∈ xs, strstr l certBeginMark = false) :
    readPieces false (xs ++ ys) = xs ++ readPieces false ys := by
  induction xs with
  | nil => rfl
  | cons x xs ih =>
    obtain ⟨hx, hxs⟩ := List.forall_mem_cons.1 h
    rw [List.cons_append, readPieces, hx, ih hxs, List.cons_append]

/-- Behind it everything is, up to the end mark. -/
lemma keptPieces_body (hbody : ∀ l ∈ body, strstr l certEndMark = false)
    (hlast : strstr last certEndMark = true) :
    keptPieces true (body ++ last :: post) = body := by
  induction body with
  | nil => exact keptPieces_of_end hlast
  | cons l body ih =>
    obtain ⟨hl, hbody⟩ := List.forall_mem_cons.1 hbody
    rw [List.cons_append, keptPieces_of_not hl, ih hbody]

/-- The pieces behind the begin mark are read up to the end mark. -/
lemma readPieces_body (hbody : ∀ l ∈ body, strstr l certEndMark = false)
    (hlast : strstr last certEndMark = true) :
    readPieces true (body ++ last :: post) = body ++ [last] := by
  induction body with
  | nil => exact readPieces_of_end hlast
  | cons l body ih =>
    obtain ⟨hl, hbody⟩ := List.forall_mem_cons.1 hbody
    rw [List.cons_append, readPieces_of_not hl, ih hbody, List.cons_append]

/-- Of the lines the loop keeps the body and reads the others up to the end mark. -/
lemma Framed.kept (h : Framed file pre begin body last post) :
    keptPieces false (lines newline file) = body := by
  rw [h.lines_eq, keptPieces_append h.pre, keptPieces, h.begin, keptPieces_body h.body h.last]

/-- What is read of a file with one certificate. -/
lemma Framed.read (h : Framed file pre begin body last post) :
    readPieces false (lines newline file) = pre ++ begin :: (body ++ [last]) := by
  rw [h.lines_eq, readPieces_append h.pre, readPieces, h.begin, readPieces_body h.body h.last]

/-- Its length, part by part. -/
lemma Framed.length_eq (h : Framed file pre begin body last post) :
    file.length = pre.flatten.length + begin.length + body.flatten.length + last.length +
      post.flatten.length := by
  have hflat := congrArg (fun ls => ls.flatten.length) h.lines_eq
  simp only [flatten_lines, List.flatten_append, List.flatten_cons, List.length_append] at hflat
  omega

/-- The lines with the marks are two, so every line is shorter than the file. -/
lemma Framed.length_line (h : Framed file pre begin body last post) {l : List UInt8}
    (hl : l ∈ lines newline file) : l.length ≤ file.length - 1 := by
  have hlen := h.length_eq
  have hbegin : 27 ≤ begin.length := length_le_of_strstr h.begin
  have hlast : 25 ≤ last.length := length_le_of_strstr h.last
  have hle : ∀ {ls : List (List UInt8)}, l ∈ ls → l.length ≤ ls.flatten.length :=
    fun hmem => (List.sublist_flatten_of_mem hmem).length_le
  rw [h.lines_eq] at hl
  rcases List.mem_append.1 hl with hl | hl
  · have := hle hl
    omega
  rcases List.mem_cons.1 hl with rfl | hl
  · omega
  rcases List.mem_append.1 hl with hl | hl
  · have := hle hl
    omega
  rcases List.mem_cons.1 hl with rfl | hl
  · omega
  · have := hle hl
    omega

end Framed

/-- For every size, the call in terms of the file and of what the block held. -/
theorem loadCcert_body_iff (hsized : malloc.Sized) (hbuf : buf.length = 1024) (htext : 0 ∉ file)
    (hframed : Framed file pre begin body last post)
    (hblock : malloc (int32 file.length).toNat = some block) :
    LoadsBody malloc file buf body ↔ BodyFits block file pre begin body last := by
  unfold BodyFits
  split
  · rename_i hsmall
    have hint : int32 file.length = file.length := int32_of_range (by omega) (by omega)
    have hlen := hframed.length_eq
    have hbegin : 27 ≤ begin.length := length_le_of_strstr hframed.begin
    have hfp : pieces newline ((int32 file.length).toNat - 1) file = lines newline file := by
      rw [hint, Int.toNat_natCast]
      exact pieces_eq_lines fun l hl => hframed.length_line hl
    rw [loadsBody_iff hsized hbuf htext hblock hfp, hframed.kept, hframed.read, hint]
    constructor
    · rintro ⟨-, hhead, hread, -, -⟩
      exact ⟨hhead, hread⟩
    · rintro ⟨hhead, hread⟩
      exact ⟨by omega, hhead, hread, rfl, by omega⟩
  · exact loadsBody_iff hsized hbuf htext hblock rfl

/-- A file with one line `QUJD` between the marks. -/
def sampleFile : List UInt8 :=
  certBeginMark ++ [newline] ++ [81, 85, 74, 68, newline] ++ certEndMark ++ [newline]

/-- A small certificate is framed. -/
lemma sampleFile_framed : Framed sampleFile [] (certBeginMark ++ [newline])
    [[81, 85, 74, 68, newline]] (certEndMark ++ [newline]) [] where
  lines_eq := by decide
  pre := by decide
  begin := by decide
  body := by decide
  last := by decide

/-- In a block of zeros the loop collects the line. -/
theorem loadCcert_body_sample : LoadsBody Malloc.sample sampleFile (List.replicate 1024 0)
    [[81, 85, 74, 68, newline]] := by
  apply (loadCcert_body_iff Malloc.sample_sized List.length_replicate (by decide) sampleFile_framed
    rfl).2
  unfold BodyFits
  rw [if_pos (by decide)]
  decide

/-- A block that is filled with something else has no end for `strcat` to find. -/
theorem loadCcert_block_unterminated : ¬ LoadsBody (fun n => some (List.replicate n 65)) sampleFile
    (List.replicate 1024 0) [[81, 85, 74, 68, newline]] := by
  have hsized : Malloc.Sized fun n => some (List.replicate n 65) := by
    intro n b hb
    cases hb
    exact List.length_replicate
  intro h
  obtain ⟨-, hhead, -⟩ := (loadsBody_iff hsized List.length_replicate (by decide) rfl rfl).1 h
  exact absurd hhead (by decide)

end Call

end CcodeTest.Certificate
