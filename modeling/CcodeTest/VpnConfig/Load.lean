import CcodeTest.Lib.CString
import CcodeTest.Lib.Lines
import Mathlib.Data.List.Induction
import Mathlib.Data.Nat.Basic

/-!
# Reading the configuration of a VPN

`get_config_from_file` reads `vpn_cfg.txt` line by line for the values of `user`, `passwd` and
`domain`, and stops when it has counted three. What it returns depends on neither: the test at its
end compares the pointer `cfg` with three, where the counter was meant, and any block that `malloc`
returns is above that.

The file is the list of its bytes. `fgets` cuts lines at 511 bytes, and what it reads is a string up
to the first zero. The three strings of `sp_vpn_cfg_t` lie in one block: `user`, `passwd` right behind
it, a pointer and a length, and `domain` at the end. `sscanf` is given no width, so a value of 128
characters or more runs out of its field into what stands behind it, and out of the block if it is
long enough. Only an access outside the block or the line is `none`: that write, and the byte before
an empty line.
-/

namespace CcodeTest.VpnConfig
open CcodeTest.Lib

/-- `'\n'`. -/
def newline : UInt8 := 10

/-- The values that are looked for. -/
inductive Key where
  | user
  | passwd
  | domain
deriving DecidableEq

/-- What stands before `%s` in the format: `user=`, `passwd=` and `domain=`. -/
def Key.format : Key → List UInt8
  | .user => [117, 115, 101, 114, 61]
  | .passwd => [112, 97, 115, 115, 119, 100, 61]
  | .domain => [100, 111, 109, 97, 105, 110, 61]

/-- Where the field starts in `sp_vpn_cfg_t`. -/
def Key.offset : Key → Nat
  | .user => 0
  | .passwd => 128
  | .domain => 272

/-- `sizeof(sp_vpn_cfg_t)`. -/
def cfgSize : Nat := 400

/-- The bytes of each of the fields. -/
def fieldSize : Nat := 128

/-- `isspace`. -/
def isSpace (c : UInt8) : Bool := c == 32 || (9 ≤ c && c ≤ 13)

/-- `sscanf(line, "user=%s", …)` and its likes: the value, if the result is 1. White space before the
value is passed over, and ends it. -/
def scanValue (key : Key) (line : List UInt8) : Option (List UInt8) :=
  if key.format.isPrefixOf line then
    let value := ((line.drop key.format.length).dropWhile isSpace).takeWhile fun c => !isSpace c
    if value = [] then none else some value
  else none

/-- The string in `line` after `fgets` has read some bytes. -/
def lineText (bytes : List UInt8) : List UInt8 := bytes.takeWhile (· != 0)

/-- `STRIP_END_CHAR`. It reads the byte before an empty string. -/
def stripEndChar (str : List UInt8) (c : UInt8) : Option (List UInt8) :=
  str.getLast?.map fun last => if last = c then str.dropLast else str

/-- The three alternatives of the loop. -/
def lineValue (line : List UInt8) : Option (Key × List UInt8) :=
  match scanValue .user line with
  | some value => some (.user, value)
  | none =>
    match scanValue .passwd line with
    | some value => some (.passwd, value)
    | none => (scanValue .domain line).map fun value => (.domain, value)

/-- `cfg->enc_passwd = NULL`. -/
def clearEncPasswd (cfg : List UInt8) : List UInt8 := overwrite cfg 256 (List.replicate 8 0)

/-- What a line with a value does to the block. -/
def storeValue (cfg : List UInt8) (kv : Key × List UInt8) : Option (List UInt8) :=
  (putText cfg kv.1.offset kv.2).map fun cfg =>
    if kv.1 = .passwd then clearEncPasswd cfg else cfg

/-- A pass of the loop. -/
def readLineBytes (bytes : List UInt8) (cnt : Nat) (cfg : List UInt8) :
    Option (Nat × List UInt8) :=
  (stripEndChar (lineText bytes) newline).bind fun line =>
    match lineValue line with
    | none => some (cnt, cfg)
    | some kv => (storeValue cfg kv).map fun cfg => (cnt + 1, cfg)

/-- The loop over what `fgets` reads. -/
def readLoopBytes : List (List UInt8) → Nat → List UInt8 → Option (Nat × List UInt8)
  | [], cnt, cfg => some (cnt, cfg)
  | bytes :: rest, cnt, cfg =>
    (readLineBytes bytes cnt cfg).bind fun r =>
      if r.1 ≥ 3 then some r else readLoopBytes rest r.1 r.2

/-- `get_config_from_file` on a file that can be opened, with the address that `malloc` returns: 0 if
there is no memory. -/
def getConfigBytes (file : List UInt8) (malloc : Nat) : Option (Option (List UInt8)) :=
  if malloc = 0 then some none
  else
    (readLoopBytes (pieces newline 511 file) 0 (List.replicate cfgSize 0)).map fun r =>
      if malloc < 3 then none else some r.2

/-- `get_config_from_file`; there may be no file. -/
def getConfigFromFile (file : Option (List UInt8)) (malloc : Nat) : Option (Option (List UInt8)) :=
  match file with
  | none => some none
  | some file => getConfigBytes file malloc

/-- Some line of the file gives the key a value. -/
def given (file : List UInt8) (key : Key) : Bool :=
  (lines newline file).any fun line => (scanValue key (lineText line)).isSome

/-- The key and value of the bytes read at once. -/
def bytesValue (bytes : List UInt8) : Option (Key × List UInt8) :=
  (stripEndChar (lineText bytes) newline).bind lineValue

/-- What is read until `n` values have been found. -/
def untilValues : Nat → List (List UInt8) → List (List UInt8)
  | 0, _ => []
  | _ + 1, [] => []
  | n + 1, bytes :: rest =>
    bytes :: untilValues (if (bytesValue bytes).isSome then n else n + 1) rest

/-- The bytes do not begin with a zero, and a value in them ends inside the block. -/
def Inside (bytes : List UInt8) : Prop :=
  lineText bytes ≠ [] ∧ ∀ kv ∈ bytesValue bytes, kv.1.offset + kv.2.length < cfgSize

/-- The values stored one after the other. -/
def storeValues (cfg : List UInt8) (values : List (Key × List UInt8)) : Option (List UInt8) :=
  values.foldlM storeValue cfg

section Store

variable {cfg cfg' : List UInt8} {kv : Key × List UInt8} {values : List (Key × List UInt8)}

/-- A value is stored exactly if it ends inside the block. -/
lemma storeValue_eq_some :
    storeValue cfg kv = some cfg' ↔ kv.1.offset + kv.2.length < cfg.length ∧
      cfg' = if kv.1 = .passwd then clearEncPasswd (overwrite cfg kv.1.offset (kv.2 ++ [0]))
        else overwrite cfg kv.1.offset (kv.2 ++ [0]) := by
  rw [storeValue, Option.map_eq_some_iff]
  constructor
  · rintro ⟨c, hput, rfl⟩
    obtain ⟨hlt, rfl⟩ := putText_eq_some.1 hput
    exact ⟨hlt, rfl⟩
  · rintro ⟨hlt, rfl⟩
    exact ⟨_, putText_eq_some.2 ⟨hlt, rfl⟩, rfl⟩

/-- The block keeps its size. -/
lemma length_storeValue (h : storeValue cfg kv = some cfg') (hlen : cfg.length = cfgSize) :
    cfg'.length = cfgSize := by
  obtain ⟨hlt, rfl⟩ := storeValue_eq_some.1 h
  have hput : (overwrite cfg kv.1.offset (kv.2 ++ [0])).length = cfgSize := by
    rw [length_overwrite (by rw [List.length_append, List.length_singleton]; omega), hlen]
  split
  · rw [clearEncPasswd, length_overwrite (by rw [hput]; decide), hput]
  · exact hput

/-- Whether there is room depends on the size of the block alone. -/
lemma storeValue_isSome (hlen : cfg.length = cfgSize) :
    (storeValue cfg kv).isSome = true ↔ kv.1.offset + kv.2.length < cfgSize := by
  rw [storeValue, Option.isSome_map, isSome_putText, hlen]

/-- The first value is stored before the others. -/
lemma storeValues_cons (cfg : List UInt8) (kv : Key × List UInt8)
    (values : List (Key × List UInt8)) :
    storeValues cfg (kv :: values) = (storeValue cfg kv).bind fun c => storeValues c values := rfl

/-- The last value is stored behind the others. -/
lemma storeValues_concat (cfg : List UInt8) (values : List (Key × List UInt8))
    (kv : Key × List UInt8) :
    storeValues cfg (values ++ [kv]) = (storeValues cfg values).bind fun c => storeValue c kv := by
  rw [storeValues, List.foldlM_append]
  refine congrArg _ (funext fun c => ?_)
  rw [List.foldlM_cons]
  cases storeValue c kv with
  | none => rfl
  | some c' => rfl

/-- The values are stored if none of them runs out of the block. -/
lemma storeValues_isSome (hlen : cfg.length = cfgSize) :
    (storeValues cfg values).isSome = true ↔
      ∀ kv ∈ values, kv.1.offset + kv.2.length < cfgSize := by
  induction values generalizing cfg with
  | nil => simp [storeValues]
  | cons kv values ih =>
    rw [storeValues_cons, List.forall_mem_cons, ← storeValue_isSome hlen]
    cases hkv : storeValue cfg kv with
    | none => simp
    | some c => simpa using ih (length_storeValue hkv hlen)

end Store

section Loop

variable {bytes cfg : List UInt8} {rest : List (List UInt8)} {cnt n : Nat} {kv : Key × List UInt8}

/-- Nothing is read for no values. -/
lemma untilValues_zero (rest : List (List UInt8)) : untilValues 0 rest = [] := by
  cases rest with
  | nil => rfl
  | cons bytes rest => rfl

/-- A line without a value does not count. -/
lemma untilValues_of_none (h : bytesValue bytes = none) :
    untilValues (n + 1) (bytes :: rest) = bytes :: untilValues (n + 1) rest := by
  rw [untilValues, h]
  rfl

/-- One with a value does. -/
lemma untilValues_of_value (h : bytesValue bytes = some kv) :
    untilValues (n + 1) (bytes :: rest) = bytes :: untilValues n rest := by
  rw [untilValues, h]
  rfl

/-- A pass over a line that does not begin with a zero stores its value, if it gives one. -/
lemma readLineBytes_of_text (h : lineText bytes ≠ []) : readLineBytes bytes cnt cfg =
    match bytesValue bytes with
    | none => some (cnt, cfg)
    | some kv => (storeValue cfg kv).map fun c => (cnt + 1, c) := by
  obtain ⟨line, hline⟩ : ∃ line, stripEndChar (lineText bytes) newline = some line :=
    ⟨_, by rw [stripEndChar, List.getLast?_eq_some_getLast h, Option.map_some]⟩
  rw [readLineBytes, bytesValue, hline]
  rfl

/-- There is no byte before an empty line. -/
lemma readLineBytes_of_empty (h : lineText bytes = []) : readLineBytes bytes cnt cfg = none := by
  rw [readLineBytes, h]
  rfl

/-- A line without a value is passed over. -/
lemma readLoopBytes_of_none (htext : lineText bytes ≠ []) (hvalue : bytesValue bytes = none)
    (hcnt : cnt < 3) : readLoopBytes (bytes :: rest) cnt cfg = readLoopBytes rest cnt cfg := by
  rw [readLoopBytes, readLineBytes_of_text htext, hvalue]
  exact if_neg (Nat.not_le_of_lt hcnt)

/-- A line with a value is counted, and the third one ends the loop. -/
lemma readLoopBytes_of_value (htext : lineText bytes ≠ []) (hvalue : bytesValue bytes = some kv) :
    readLoopBytes (bytes :: rest) cnt cfg = (storeValue cfg kv).bind fun c =>
      if cnt + 1 ≥ 3 then some (cnt + 1, c) else readLoopBytes rest (cnt + 1) c := by
  rw [readLoopBytes, readLineBytes_of_text htext, hvalue]
  dsimp only
  cases storeValue cfg kv with
  | none => rfl
  | some c => rfl

/-- The loop stores the values of the lines it reads to find the missing ones. -/
lemma readLoopBytes_of_text (hn : cnt + (n + 1) = 3)
    (h : ∀ bytes ∈ untilValues (n + 1) rest, lineText bytes ≠ []) :
    (readLoopBytes rest cnt cfg).map Prod.snd =
      storeValues cfg ((untilValues (n + 1) rest).filterMap bytesValue) := by
  induction rest generalizing cnt n cfg with
  | nil => rfl
  | cons bytes rest ih =>
    cases hvalue : bytesValue bytes with
    | none =>
      rw [untilValues_of_none hvalue] at h ⊢
      rw [List.forall_mem_cons] at h
      rw [readLoopBytes_of_none h.1 hvalue (by omega), List.filterMap_cons, hvalue]
      exact ih hn h.2
    | some kv =>
      rw [untilValues_of_value hvalue] at h ⊢
      rw [List.forall_mem_cons] at h
      rw [readLoopBytes_of_value h.1 hvalue, List.filterMap_cons, hvalue]
      simp only [storeValues_cons]
      cases storeValue cfg kv with
      | none => rfl
      | some c =>
        rw [Option.bind_some, Option.bind_some]
        cases n with
        | zero =>
          rw [if_pos (by omega), untilValues_zero]
          rfl
        | succ n =>
          rw [if_neg (by omega)]
          exact ih (by omega) h.2

/-- A line that begins with a zero has no defined outcome. -/
lemma readLoopBytes_of_empty (hn : cnt + (n + 1) = 3)
    (h : ¬ ∀ bytes ∈ untilValues (n + 1) rest, lineText bytes ≠ []) :
    readLoopBytes rest cnt cfg = none := by
  induction rest generalizing cnt n cfg with
  | nil =>
    refine absurd ?_ h
    intro bytes hmem
    cases hmem
  | cons bytes rest ih =>
    by_cases hempty : lineText bytes = []
    · rw [readLoopBytes, readLineBytes_of_empty hempty]
      rfl
    · cases hvalue : bytesValue bytes with
      | none =>
        rw [untilValues_of_none hvalue, List.forall_mem_cons] at h
        rw [readLoopBytes_of_none hempty hvalue (by omega)]
        exact ih hn fun hrest => h ⟨hempty, hrest⟩
      | some kv =>
        rw [untilValues_of_value hvalue, List.forall_mem_cons] at h
        rw [readLoopBytes_of_value hempty hvalue]
        cases storeValue cfg kv with
        | none => rfl
        | some c =>
          rw [Option.bind_some]
          cases n with
          | zero =>
            rw [untilValues_zero] at h
            exact absurd ⟨hempty, fun x hx => absurd hx List.not_mem_nil⟩ h
          | succ n =>
            rw [if_neg (by omega)]
            exact ih (by omega) fun hrest => h ⟨hempty, hrest⟩

/-- The loop comes to its end exactly if everything that it reads stays inside. -/
lemma readLoopBytes_isSome (hn : cnt + (n + 1) = 3) (hlen : cfg.length = cfgSize) :
    (readLoopBytes rest cnt cfg).isSome = true ↔ ∀ bytes ∈ untilValues (n + 1) rest, Inside bytes := by
  by_cases htext : ∀ bytes ∈ untilValues (n + 1) rest, lineText bytes ≠ []
  · have hrun := @readLoopBytes_of_text cfg rest cnt n hn htext
    rw [← Option.isSome_map (f := Prod.snd), hrun, storeValues_isSome hlen]
    constructor
    · intro h bytes hbytes
      refine ⟨htext bytes hbytes, ?_⟩
      intro kv hkv
      exact h kv (List.mem_filterMap.2 ⟨bytes, hbytes, hkv⟩)
    · intro h kv hkv
      obtain ⟨bytes, hbytes, hvalue⟩ := List.mem_filterMap.1 hkv
      exact (h bytes hbytes).2 kv hvalue
  · rw [readLoopBytes_of_empty hn htext]
    refine iff_of_false Bool.false_ne_true ?_
    intro h
    exact htext fun bytes hbytes => (h bytes hbytes).1

end Loop

section Load

variable {file : List UInt8} {malloc : Nat}

/-- What is returned, if there is memory: some configuration, whatever has been read. -/
lemma getConfigBytes_eq (h : 3 ≤ malloc) : getConfigBytes file malloc =
    (readLoopBytes (pieces newline 511 file) 0 (List.replicate cfgSize 0)).map fun r => some r.2 := by
  rw [getConfigBytes, if_neg (by omega)]
  simp only [if_neg (Nat.not_lt.2 h)]

/-- An address of a block is above the number it is compared with. -/
lemma three_le_malloc (halign : 16 ∣ malloc) (hnull : malloc ≠ 0) : 3 ≤ malloc := by
  obtain ⟨c, rfl⟩ := halign
  omega

/-- The result as it should be: a configuration exactly when every key is given a value. -/
def ReturnsIfGiven (file : List UInt8) (result : Option (Option (List UInt8))) : Prop :=
  ((∀ key, given file key = true) → ∃ cfg, result = some (some cfg)) ∧
    ((¬ ∀ key, given file key = true) → result = some none)

/-- No configuration is right if some key is not given a value. -/
lemma returnsIfGiven_null :
    ReturnsIfGiven file (some none) ↔ ¬ ∀ key, given file key = true := by
  constructor
  · intro h hgiven
    obtain ⟨cfg, hcfg⟩ := h.1 hgiven
    cases hcfg
  · intro h
    exact ⟨fun hgiven => absurd hgiven h, fun _ => rfl⟩

/-- A configuration is right if all of them are. -/
lemma returnsIfGiven_cfg {cfg : List UInt8} :
    ReturnsIfGiven file (some (some cfg)) ↔ ∀ key, given file key = true := by
  constructor
  · intro h
    apply Classical.byContradiction
    intro hnot
    cases h.2 hnot
  · intro h
    exact ⟨fun _ => ⟨cfg, rfl⟩, fun hnot => absurd h hnot⟩

/-- No outcome is right without a result. -/
lemma not_returnsIfGiven_none : ¬ ReturnsIfGiven file none := by
  intro h
  by_cases hgiven : ∀ key, given file key = true
  · obtain ⟨cfg, hcfg⟩ := h.1 hgiven
    cases hcfg
  · cases h.2 hgiven

/-- A configuration is returned exactly when the file gives every key a value, in two cases: there is
memory, the file does so, and all that is read stays inside the line and the block; or there is no
memory and it does not. -/
theorem getConfigFromFile_iff (file : List UInt8) (malloc : Nat) (halign : 16 ∣ malloc) :
    ReturnsIfGiven file (getConfigFromFile (some file) malloc) ↔
      (malloc = 0 ∧ ¬ ∀ key, given file key = true) ∨
        (malloc ≠ 0 ∧ (∀ key, given file key = true) ∧
          ∀ bytes ∈ untilValues 3 (pieces newline 511 file), Inside bytes) := by
  by_cases hnull : malloc = 0
  · have hrun : getConfigFromFile (some file) malloc = some none := if_pos hnull
    rw [hrun, returnsIfGiven_null]
    simp [hnull]
  · have hinside := @readLoopBytes_isSome (List.replicate cfgSize 0) (pieces newline 511 file) 0 2 rfl
      List.length_replicate
    rw [getConfigFromFile, getConfigBytes_eq (three_le_malloc halign hnull), ← hinside]
    cases readLoopBytes (pieces newline 511 file) 0 (List.replicate cfgSize 0) with
    | none =>
      rw [Option.map_none]
      simp [not_returnsIfGiven_none, hnull]
    | some r =>
      rw [Option.map_some, returnsIfGiven_cfg]
      simp [hnull]

/-- The lines `domain=c`, `user=` with 130 characters and `passwd=b`. -/
def longUser : List UInt8 :=
  [100, 111, 109, 97, 105, 110, 61, 99, 10, 117, 115, 101, 114, 61] ++ List.replicate 130 97 ++
    [10, 112, 97, 115, 115, 119, 100, 61, 98]

/-- A user that runs into the password is no obstacle. -/
theorem getConfigFromFile_long_user :
    ReturnsIfGiven longUser (getConfigFromFile (some longUser) 16) := by
  refine (getConfigFromFile_iff longUser 16 (by decide)).2 (Or.inr ⟨by decide, ?_, ?_⟩)
  · intro key
    cases key <;> decide +kernel
  · exact (@readLoopBytes_isSome (List.replicate cfgSize 0) _ 0 2 rfl List.length_replicate).1
      (by decide +kernel)

/-- `user=a` alone: the configuration is returned without the other two. -/
theorem getConfigFromFile_incomplete :
    ¬ ReturnsIfGiven [117, 115, 101, 114, 61, 97]
      (getConfigFromFile (some [117, 115, 101, 114, 61, 97]) 16) := by
  have hrun : (getConfigFromFile (some [117, 115, 101, 114, 61, 97]) 16).map Option.isSome =
      some true := by decide +kernel
  obtain ⟨r, hr, hsome⟩ := Option.map_eq_some_iff.1 hrun
  obtain ⟨cfg, rfl⟩ := Option.isSome_iff_exists.1 hsome
  rw [hr, returnsIfGiven_cfg]
  intro h
  exact absurd (h .passwd) (by decide)

end Load

end CcodeTest.VpnConfig
