import CcodeTest.Lib.CString
import CcodeTest.Lib.Tokens

/-!
# Splitting a command line

`parseCmd` takes the path off a command by splitting the whole line at slashes and keeping the last
part, and then splits that part at spaces. Each word is copied into a slot of its own without regard
to its length, and a line of slashes only leaves no part: the second tokenisation then starts from a
pointer that was never set. Both have no defined outcome here. `parseCmd_eq` is what the two loops
compute, `parseCmd_isSome_iff` and `parseCmd_splits_iff` are what follows for the lines.
-/

namespace CcodeTest.StringTest
open CcodeTest.Lib

/-- `CMD_MAX_ARG_NUM`. -/
def cmdMaxArgNum : Nat := 10

/-- `CMD_MAX_ARG_LEN`. -/
def cmdMaxArgLen : Nat := 64

/-- `'/'`. -/
def slash : UInt8 := 47

/-- `' '`. -/
def space : UInt8 := 32

/-- `strtok_r(str, delim, &save_ptr)`: the token and the new `save_ptr`. Without a string it continues
behind the last token, which is none for a pointer that was never set. -/
def strtokR (str : Option (List UInt8)) (delim : UInt8) (savePtr : Option (List UInt8)) :
    Option (Option (List UInt8) × Option (List UInt8)) :=
  (str <|> savePtr).map fun t => ((nextToken delim t).1, some (nextToken delim t).2)

/-- `while (token)`. The loop is none when the fuel does not suffice. -/
def partLoop : Nat → Option (List UInt8) → Option (List UInt8) → Option (List UInt8) →
    Option (Option (List UInt8))
  | 0, _, _, _ => none
  | _ + 1, arg, none, _ => some arg
  | fuel + 1, _, some token, savePtr =>
    (strtokR none slash savePtr).bind fun r => partLoop fuel (some token) r.1 r.2

/-- `memcpy(argv[argc], arg, strlen(arg) + 1)`. -/
def copyArg (argv : List (List UInt8)) (argc : Nat) (arg : List UInt8) :
    Option (List (List UInt8)) :=
  argv[argc]?.bind fun slot => (putText slot 0 arg).map fun slot => argv.set argc slot

/-- `while (arg && argc < CMD_MAX_ARG_NUM)`, with `n` words to go until there are that many. -/
def wordLoop : Nat → Nat → Option (List UInt8) → Option (List UInt8) → List (List UInt8) →
    Option (Int × List (List UInt8))
  | 0, argc, _, _, argv => some (argc, argv)
  | _ + 1, argc, none, _, argv => some (argc, argv)
  | n + 1, argc, some arg, savePtr, argv =>
    (copyArg argv argc arg).bind fun argv =>
      (strtokR none space savePtr).bind fun r => wordLoop n (argc + 1) r.1 r.2 argv

/-- `parseCmd`: the value returned and `argv`. -/
def parseCmd (cmd : List UInt8) (argv : List (List UInt8)) : Option (Int × List (List UInt8)) :=
  (cText cmd).bind fun text =>
    if text.length ≤ 0 then some (-1, argv)
    else
      (strtokR (some text) slash none).bind fun r =>
        (if r.1.isSome then partLoop (text.length + 1) r.1 r.1 r.2 else some r.1).bind fun arg =>
          (strtokR arg space none).bind fun r => wordLoop cmdMaxArgNum 0 r.1 r.2 argv

/-- The slots the caller provides. -/
structure Slots (argv : List (List UInt8)) : Prop where
  num : argv.length = cmdMaxArgNum
  len : ∀ slot ∈ argv, slot.length = cmdMaxArgLen

/-- The part of a word after its last slash. -/
def baseName (w : List UInt8) : List UInt8 := w.rtakeWhile (· != slash)

section Loops

lemma strtokR_some (t : List UInt8) (delim : UInt8) (savePtr : Option (List UInt8)) :
    strtokR (some t) delim savePtr = some ((nextToken delim t).1, some (nextToken delim t).2) := rfl

lemma strtokR_save (t : List UInt8) (delim : UInt8) :
    strtokR none delim (some t) = some ((nextToken delim t).1, some (nextToken delim t).2) := rfl

/-- The loop ends with the last part, or with what it had if there is none. -/
lemma partLoop_eq (fuel : Nat) (arg : Option (List UInt8)) (t : List UInt8) (h : t.length < fuel) :
    partLoop fuel arg (nextToken slash t).1 (some (nextToken slash t).2) =
      some ((tokens slash t).getLast? <|> arg) := by
  induction fuel generalizing arg t with
  | zero => cases h
  | succ fuel ih =>
    rcases nextToken_spec slash t with ⟨hnext, htokens⟩ | ⟨w, rest, hnext, htokens, hlen⟩
    · rw [hnext, htokens]
      rfl
    · rw [hnext, htokens, partLoop, strtokR_save, Option.bind_some, ih (some w) rest (by omega)]
      cases tokens slash rest with
      | nil => rfl
      | cons v vs =>
        rw [List.getLast?_cons_cons, List.getLast?_eq_some_getLast (List.cons_ne_nil v vs)]
        rfl

lemma copyArg_append (done todo : List (List UInt8)) (slot arg : List UInt8) :
    copyArg (done ++ slot :: todo) done.length arg =
      (putText slot 0 arg).map fun slot => done ++ slot :: todo := by
  rw [copyArg, List.getElem?_append_right (Nat.le_refl _), Nat.sub_self]
  simp

/-- One pass with a slot left: the word is copied into it and the loop goes on behind the slot. -/
lemma wordLoop_succ {n : Nat} {t w rest slot : List UInt8} {done todo : List (List UInt8)}
    (hnext : nextToken space t = (some w, rest)) :
    wordLoop (n + 1) done.length (nextToken space t).1 (some (nextToken space t).2)
        (done ++ slot :: todo) =
      (putText slot 0 w).bind fun slot' =>
        wordLoop n (done ++ [slot']).length (nextToken space rest).1 (some (nextToken space rest).2)
          ((done ++ [slot']) ++ todo) := by
  rw [hnext, wordLoop, copyArg_append]
  cases putText slot 0 w with
  | none => rfl
  | some slot' =>
    rw [Option.map_some, Option.bind_some, strtokR_save, Option.bind_some, Option.bind_some,
      List.length_append, List.append_assoc]
    rfl

/-- Words that fit are copied one after the other. -/
lemma wordLoop_of_fits {n : Nat} {t : List UInt8} {done todo : List (List UInt8)}
    (hslots : ∀ slot ∈ todo, slot.length = cmdMaxArgLen) (hn : todo.length = n)
    (hzero : ∀ w ∈ tokens space t, 0 ∉ w)
    (hfit : ∀ w ∈ (tokens space t).take n, w.length < cmdMaxArgLen) :
    ∃ written, wordLoop n done.length (nextToken space t).1 (some (nextToken space t).2)
        (done ++ todo) = some (((done.length + written.length : Nat) : Int),
          done ++ written ++ todo.drop written.length) ∧
      written.map cText = ((tokens space t).take n).map some := by
  induction n generalizing t done todo with
  | zero =>
    rw [List.length_eq_zero_iff.1 hn]
    exact ⟨[], by simp [wordLoop], rfl⟩
  | succ n ih =>
    cases todo with
    | nil => cases hn
    | cons slot todo =>
      rw [List.forall_mem_cons] at hslots
      rcases nextToken_spec space t with ⟨hnext, htokens⟩ | ⟨w, rest, hnext, htokens, -⟩
      · rw [hnext, htokens]
        exact ⟨[], by simp [wordLoop], rfl⟩
      · rw [htokens, List.forall_mem_cons] at hzero
        rw [htokens, List.take_succ_cons, List.forall_mem_cons] at hfit
        obtain ⟨slot', hput, htext, -⟩ :=
          putText_zero hzero.1 (Nat.lt_of_lt_of_eq hfit.1 hslots.1.symm)
        obtain ⟨written, hloop, hwritten⟩ :=
          @ih rest (done ++ [slot']) todo hslots.2 (Nat.succ.inj hn) hzero.2 hfit.2
        refine ⟨slot' :: written, ?_, ?_⟩
        · rw [wordLoop_succ hnext, hput, Option.bind_some, hloop, List.length_append]
          simp [Nat.add_comm, Nat.add_left_comm]
        · rw [htokens, List.take_succ_cons, List.map_cons, List.map_cons, htext, hwritten]

/-- Every word that is copied fits. -/
lemma fits_of_wordLoop {n : Nat} {t : List UInt8} {done todo : List (List UInt8)}
    (hslots : ∀ slot ∈ todo, slot.length = cmdMaxArgLen) (hn : todo.length = n)
    (h : (wordLoop n done.length (nextToken space t).1 (some (nextToken space t).2)
      (done ++ todo)).isSome = true) :
    ∀ w ∈ (tokens space t).take n, w.length < cmdMaxArgLen := by
  induction n generalizing t done todo with
  | zero =>
    intro w hw
    rw [List.take_zero] at hw
    cases hw
  | succ n ih =>
    cases todo with
    | nil => cases hn
    | cons slot todo =>
      rw [List.forall_mem_cons] at hslots
      rcases nextToken_spec space t with ⟨-, htokens⟩ | ⟨w, rest, hnext, htokens, -⟩
      · rw [htokens]
        intro w hw
        cases hw
      · rw [wordLoop_succ hnext] at h
        rw [htokens, List.take_succ_cons, List.forall_mem_cons]
        cases hput : putText slot 0 w with
        | none =>
          rw [hput] at h
          cases h
        | some slot' =>
          rw [hput, Option.bind_some] at h
          have hlt := (length_putText hput).1
          rw [Nat.zero_add, hslots.1] at hlt
          exact ⟨hlt, ih hslots.2 (Nat.succ.inj hn) h⟩

end Loops

section Line

variable {cmd text : List UInt8} {argv : List (List UInt8)}

/-- The words of the last part are copied; without a part there is nothing to continue. -/
lemma parseCmd_eq (htext : cText cmd = some text) (hne : text ≠ []) :
    parseCmd cmd argv = (tokens slash text).getLast?.bind fun last =>
      wordLoop cmdMaxArgNum 0 (nextToken space last).1 (some (nextToken space last).2) argv := by
  have hpos : ¬ text.length ≤ 0 := Nat.not_le_of_lt (List.length_pos_of_ne_nil hne)
  have hloop := partLoop_eq (text.length + 1) (nextToken slash text).1 text (Nat.lt_succ_self _)
  rw [parseCmd, htext, Option.bind_some, if_neg hpos, strtokR_some, Option.bind_some]
  rcases nextToken_spec slash text with ⟨hnext, htokens⟩ | ⟨w, rest, hnext, htokens, -⟩
  · rw [hnext, htokens]
    rfl
  · rw [hnext] at hloop ⊢
    rw [htokens, List.getLast?_eq_some_getLast (List.cons_ne_nil _ _)] at hloop ⊢
    rw [Option.isSome_some, if_pos rfl, hloop]
    rfl

/-- The words of a part of the line hold no terminator. -/
lemma zero_not_mem_word (htext : cText cmd = some text) {last w : List UInt8}
    (hlast : (tokens slash text).getLast? = some last) (hw : w ∈ tokens space last) : 0 ∉ w := by
  intro hzero
  have hmem := (mem_tokens hw).2.2 0 hzero
  have hmem' := (mem_tokens (List.mem_of_getLast? hlast)).2.2 0 hmem
  exact (cText_eq_some.1 htext).1 hmem'

/-- If the words of the last part fit, they are the contents of the first slots. -/
lemma parseCmd_of_fits (htext : cText cmd = some text) (hargv : Slots argv) {last : List UInt8}
    (hlast : (tokens slash text).getLast? = some last)
    (hfit : ∀ w ∈ (tokens space last).take cmdMaxArgNum, w.length < cmdMaxArgLen) :
    ∃ argv', parseCmd cmd argv =
        some ((((tokens space last).take cmdMaxArgNum).length : Int), argv') ∧
      (argv'.take ((tokens space last).take cmdMaxArgNum).length).map cText =
        ((tokens space last).take cmdMaxArgNum).map some := by
  have hne : text ≠ [] := by
    rintro rfl
    cases hlast
  obtain ⟨written, hloop, hwritten⟩ := @wordLoop_of_fits cmdMaxArgNum last [] argv hargv.len hargv.num
    (fun w hw => zero_not_mem_word htext hlast hw) hfit
  have hlen : written.length = ((tokens space last).take cmdMaxArgNum).length := by
    rw [← List.length_map (f := cText), hwritten, List.length_map]
  refine ⟨written ++ argv.drop written.length, ?_, ?_⟩
  · rw [parseCmd_eq htext hne, hlast, Option.bind_some]
    rw [← hlen]
    rw [List.length_nil, Nat.zero_add] at hloop
    exact hloop
  · rw [← hlen, List.take_left, hwritten]

/-- A defined outcome has a last part whose words fit. -/
lemma exists_part_of_isSome (htext : cText cmd = some text) (hne : text ≠ []) (hargv : Slots argv)
    (h : (parseCmd cmd argv).isSome = true) :
    ∃ last, (tokens slash text).getLast? = some last ∧
      ∀ w ∈ (tokens space last).take cmdMaxArgNum, w.length < cmdMaxArgLen := by
  rw [parseCmd_eq htext hne] at h
  cases hlast : (tokens slash text).getLast? with
  | none =>
    rw [hlast] at h
    cases h
  | some last =>
    rw [hlast, Option.bind_some] at h
    exact ⟨last, rfl, @fits_of_wordLoop cmdMaxArgNum last [] argv hargv.len hargv.num h⟩

lemma slash_not_mem_baseName (w : List UInt8) : slash ∉ baseName w := by
  intro h
  have himp := List.mem_rtakeWhile_imp h
  simp at himp

/-- A word has no slash or a last one. -/
lemma baseName_cases (w : List UInt8) :
    (slash ∉ w ∧ baseName w = w) ∨ ∃ path, w = path ++ slash :: baseName w := by
  have hsplit : w.rdropWhile (· != slash) ++ baseName w = w := List.rdropWhile_append_rtakeWhile
  by_cases hpath : w.rdropWhile (· != slash) = []
  · left
    rw [hpath, List.nil_append] at hsplit
    exact ⟨hsplit ▸ slash_not_mem_baseName w, hsplit⟩
  · right
    have hlast := List.rdropWhile_last_not (p := (· != slash)) w hpath
    rw [bne_iff_ne, not_not] at hlast
    refine ⟨(w.rdropWhile (· != slash)).dropLast, ?_⟩
    conv_lhs => rw [← hsplit, ← List.dropLast_append_getLast hpath, hlast]
    rw [List.append_assoc, List.singleton_append]

/-- The last part of a line without a slash behind its first word has the words of the line, the
first one without its path. -/
lemma exists_last_part {w : List UInt8} {ws : List (List UInt8)}
    (hwords : tokens space text = w :: ws) (hbase : baseName w ≠ []) (hslash : ∀ v ∈ ws, slash ∉ v) :
    ∃ last, (tokens slash text).getLast? = some last ∧ tokens space last = baseName w :: ws := by
  obtain ⟨hwne, hspace, -⟩ := mem_tokens (hwords ▸ List.mem_cons_self ..)
  obtain ⟨sp, rest, rfl, hsp, hrest, htokens⟩ := exists_first_token hwords
  have hrestslash : slash ∉ rest := by
    intro h
    obtain ⟨v, hv, hmem⟩ := exists_token h (show slash ≠ space by decide)
    exact hslash v (htokens ▸ hv) hmem
  rcases baseName_cases w with ⟨hwslash, heq⟩ | ⟨path, hpath⟩
  · -- the line has no slash at all
    have hnot : slash ∉ sp ++ (w ++ rest) := by
      intro h
      rcases List.mem_append.1 h with h | h
      · exact absurd (hsp slash h) (by decide)
      · exact (List.mem_append.1 h).elim hwslash hrestslash
    have hne : sp ++ (w ++ rest) ≠ [] :=
      List.append_ne_nil_of_right_ne_nil _ (List.append_ne_nil_of_left_ne_nil hwne _)
    refine ⟨sp ++ (w ++ rest), ?_, by rw [heq, hwords]⟩
    rw [tokens_of_not_mem hnot hne]
    rfl
  · -- the path ends with the last slash of the line
    have hline : sp ++ (w ++ rest) = (sp ++ path) ++ slash :: (baseName w ++ rest) := by
      conv_lhs => rw [hpath]
      simp only [List.append_assoc, List.cons_append]
    have hnot : slash ∉ baseName w ++ rest := by
      intro h
      exact (List.mem_append.1 h).elim (slash_not_mem_baseName w) hrestslash
    have hspace' : space ∉ baseName w := by
      intro h
      rw [hpath] at hspace
      exact hspace (List.mem_append_right _ (List.mem_cons_of_mem _ h))
    refine ⟨baseName w ++ rest, ?_, ?_⟩
    · rw [hline, tokens_append, tokens_of_not_mem hnot (List.append_ne_nil_of_left_ne_nil hbase _),
        List.getLast?_concat]
    · rw [tokens_token_append hspace' hbase hrest, htokens]

end Line

/-- On a line that is not empty nothing is continued from an unset pointer and nothing is written
beyond a slot exactly when the line has another character than the slash and the words that are
copied, the first ten of the last part, are shorter than a slot. -/
theorem parseCmd_isSome_iff (cmd text : List UInt8) (argv : List (List UInt8))
    (htext : cText cmd = some text) (hne : text ≠ []) (hargv : Slots argv) :
    (parseCmd cmd argv).isSome = true ↔
      (∃ c ∈ text, c ≠ slash) ∧
      ∀ last, (tokens slash text).getLast? = some last →
        ∀ w ∈ (tokens space last).take cmdMaxArgNum, w.length < cmdMaxArgLen := by
  constructor
  · intro h
    obtain ⟨last, hlast, hfit⟩ := exists_part_of_isSome htext hne hargv h
    refine ⟨?_, ?_⟩
    · obtain ⟨hlastne, hslash, hmem⟩ := mem_tokens (List.mem_of_getLast? hlast)
      obtain ⟨c, hc⟩ := List.exists_mem_of_ne_nil last hlastne
      exact ⟨c, hmem c hc, fun heq => hslash (heq ▸ hc)⟩
    · intro last' hlast'
      rw [hlast] at hlast'
      cases hlast'
      exact hfit
  · rintro ⟨⟨c, hc, hne⟩, hfit⟩
    obtain ⟨w, hw, -⟩ := exists_token hc hne
    obtain ⟨last, hlast⟩ : ∃ last, (tokens slash text).getLast? = some last :=
      ⟨_, List.getLast?_eq_some_getLast (List.ne_nil_of_mem hw)⟩
    obtain ⟨argv', hparse, -⟩ := parseCmd_of_fits htext hargv hlast (hfit last hlast)
    rw [hparse]
    rfl

/-- The argument vector of `main`, with all bytes zero. -/
def zeroArgv : List (List UInt8) := List.replicate cmdMaxArgNum (List.replicate cmdMaxArgLen 0)

lemma slots_zeroArgv : Slots zeroArgv := by
  refine ⟨List.length_replicate, ?_⟩
  intro slot hslot
  rw [List.eq_of_mem_replicate hslot, List.length_replicate]

/-- The line `/ls`. -/
theorem parseCmd_isSome_ls :
    (parseCmd [47, 108, 115, 0] zeroArgv).isSome = true := by
  refine (parseCmd_isSome_iff [47, 108, 115, 0] [47, 108, 115] zeroArgv rfl (List.cons_ne_nil _ _)
    slots_zeroArgv).2 ⟨⟨108, by decide, by decide⟩, ?_⟩
  intro last hlast
  have htokens : (tokens slash [47, 108, 115]).getLast? = some [108, 115] := by decide
  rw [htokens] at hlast
  cases hlast
  decide

/-- The line `/` leaves nothing to continue from, and a word of 64 characters does not fit. -/
theorem parseCmd_undefined :
    parseCmd [47, 0] zeroArgv = none ∧
      parseCmd (List.replicate 64 97 ++ [0]) zeroArgv = none := by
  decide +kernel

/-- The words of a line that fit are stored, the first one without its path, exactly when no later
word has a slash. -/
theorem parseCmd_splits_iff (cmd text w : List UInt8) (ws argv : List (List UInt8))
    (htext : cText cmd = some text) (hwords : tokens space text = w :: ws)
    (hnum : (w :: ws).length ≤ cmdMaxArgNum) (hlen : ∀ v ∈ w :: ws, v.length < cmdMaxArgLen)
    (hbase : baseName w ≠ []) (hargv : Slots argv) :
    (∃ argv', parseCmd cmd argv = some (((w :: ws).length : Int), argv') ∧
      (argv'.take (w :: ws).length).map cText = (baseName w :: ws).map some) ↔
    ∀ v ∈ ws, slash ∉ v := by
  constructor
  · rintro ⟨argv', hparse, htexts⟩ v hv
    have hne : text ≠ [] := by
      rintro rfl
      cases hwords
    obtain ⟨last, hlast, hfit⟩ := exists_part_of_isSome htext hne hargv (by rw [hparse]; rfl)
    obtain ⟨argv'', hparse', htexts'⟩ := parseCmd_of_fits htext hargv hlast hfit
    rw [hparse] at hparse'
    obtain ⟨hcount, rfl⟩ := Prod.mk.inj (Option.some.inj hparse')
    rw [← Int.ofNat.inj hcount, htexts] at htexts'
    have hsame := List.map_injective_iff.2 (fun _ _ => Option.some.inj) htexts'
    have hmem : v ∈ tokens space last := by
      apply List.mem_of_mem_take (i := cmdMaxArgNum)
      rw [← hsame]
      exact List.mem_cons_of_mem _ hv
    -- a word of the last part has no slash
    intro hv'
    have hslash := (mem_tokens (List.mem_of_getLast? hlast)).2.1
    exact hslash ((mem_tokens hmem).2.2 slash hv')
  · intro hslash
    obtain ⟨last, hlast, hlastwords⟩ := exists_last_part hwords hbase hslash
    have htake : (tokens space last).take cmdMaxArgNum = baseName w :: ws := by
      rw [hlastwords]
      exact List.take_of_length_le hnum
    obtain ⟨argv', hparse, htexts⟩ := parseCmd_of_fits htext hargv hlast (by
      rw [htake]
      intro v hv
      rcases List.mem_cons.1 hv with rfl | hv
      · have hle := List.IsSuffix.length_le (List.rtakeWhile_suffix (· != slash) w)
        exact Nat.lt_of_le_of_lt hle (hlen w (List.mem_cons_self ..))
      · exact hlen v (List.mem_cons_of_mem _ hv))
    rw [htake] at hparse htexts
    exact ⟨argv', hparse, htexts⟩

/-- The line `/bin/ls -l`. -/
theorem parseCmd_splits_ls :
    ∃ argv', parseCmd [47, 98, 105, 110, 47, 108, 115, 32, 45, 108, 0] zeroArgv = some (2, argv') ∧
      (argv'.take 2).map cText = [some [108, 115], some [45, 108]] :=
  (parseCmd_splits_iff [47, 98, 105, 110, 47, 108, 115, 32, 45, 108, 0]
    [47, 98, 105, 110, 47, 108, 115, 32, 45, 108] [47, 98, 105, 110, 47, 108, 115] [[45, 108]]
    zeroArgv rfl (by decide) (by decide) (by decide) (by decide) slots_zeroArgv).2 (by decide)

/-- Of the line `ls /tmp` only `tmp` is left. -/
theorem parseCmd_slash_in_argument :
    tokens space [108, 115, 32, 47, 116, 109, 112] = [[108, 115], [47, 116, 109, 112]] ∧
      baseName [108, 115] = [108, 115] ∧
      (parseCmd [108, 115, 32, 47, 116, 109, 112, 0] zeroArgv).map
        (fun r => (r.1, (r.2.take 1).map cText)) = some (1, [some [116, 109, 112]]) := by
  decide +kernel

end CcodeTest.StringTest
