import Mathlib.Data.List.TakeDrop
import CcodeTest.VpnConfig.Load

/-!
# The fields of the configuration

What is read back from the three strings of `sp_vpn_cfg_t` behind `get_config_from_file`, when a value
may have run out of its field into the next one.

Only the first 128 bytes from the start of a field decide what is read back from it, unless it is too
long anyway. `Holds` says which text they begin with: that of the last value that reaches the start
of the field. `getConfigBytes_iff` compares it with the value the field was given last.
-/

namespace CcodeTest.VpnConfig
open CcodeTest.Lib

/-- The string in a field. -/
def field (cfg : List UInt8) (key : Key) : Option (List UInt8) := cText (cfg.drop key.offset)

/-- The lines that are processed. -/
def processed (file : List UInt8) : List (List UInt8) := untilValues 3 (lines newline file)

/-- The values of the lines that are processed. -/
def valuesRead (file : List UInt8) : List (Key × List UInt8) :=
  (processed file).filterMap bytesValue

/-- The last of some values of a key, cut to 127 characters, or nothing. -/
def lastValue (values : List (Key × List UInt8)) (key : Key) : List UInt8 :=
  ((values.filter fun kv => kv.1 = key).getLast?.map fun kv => kv.2.take (fieldSize - 1)).getD []

/-- What a value leaves from the start of a field on, if it reaches it. -/
def reach (key : Key) (kv : Key × List UInt8) : Option (List UInt8) :=
  if kv.1.offset ≤ key.offset ∧ key.offset ≤ kv.1.offset + kv.2.length then
    some (kv.2.drop (key.offset - kv.1.offset))
  else none

/-- What the last value that reaches a field leaves in it, or nothing. -/
def lastReaching (values : List (Key × List UInt8)) (key : Key) : List UInt8 :=
  (values.filterMap (reach key)).getLast?.getD []

/-- The field keeps its own: the last value that reaches it is a value of its own that fits, or else
the rest of a longer one that is the same by chance. -/
def Undisturbed (values : List (Key × List UInt8)) (key : Key) : Prop :=
  ∀ kv ∈ (values.filter fun kv => (reach key kv).isSome).getLast?,
    (kv.1 = key ∧ kv.2.length < fieldSize) ∨
      (kv.1 ≠ key ∧ reach key kv = some (lastValue values key))

/-- The first bytes of a field. -/
def window (cfg : List UInt8) (key : Key) : List UInt8 := (cfg.drop key.offset).take fieldSize

/-- They begin with a text and its terminator, as far as these fit. -/
def Holds (cfg : List UInt8) (key : Key) (text : List UInt8) : Prop :=
  (text ++ [0]).take fieldSize <+: window cfg key

section Store

variable {cfg cfg' text : List UInt8} {key k : Key} {kv : Key × List UInt8}

/-- A field that starts later starts behind the other one. -/
lemma offset_gap (h : k.offset < key.offset) : k.offset + fieldSize ≤ key.offset := by
  cases k <;> cases key <;> simp_all [Key.offset, fieldSize]

/-- No two fields start at the same byte. -/
lemma offset_injective (h : k.offset = key.offset) : k = key := by
  cases k <;> cases key <;> simp_all [Key.offset]

/-- The pointer lies between the fields. -/
lemma window_clearEncPasswd (h : cfg.length = cfgSize) (k : Key) :
    window (clearEncPasswd cfg) k = window cfg k := by
  have hle : 256 ≤ cfg.length := by
    rw [h]
    decide
  have hbefore : ∀ o, o + fieldSize ≤ 256 →
      ((clearEncPasswd cfg).drop o).take fieldSize = (cfg.drop o).take fieldSize := by
    intro o ho
    rw [List.take_drop, List.take_drop, clearEncPasswd, take_overwrite hle (by omega)]
  cases k with
  | user => exact hbefore 0 (by decide)
  | passwd => exact hbefore 128 (by decide)
  | domain =>
    rw [window, window, clearEncPasswd, drop_overwrite_behind hle (by decide)]

/-- The windows behind a store are those behind the text that is written. -/
lemma window_storeValue (h : storeValue cfg kv = some cfg') (hlen : cfg.length = cfgSize) (k : Key) :
    window cfg' k = window (overwrite cfg kv.1.offset (kv.2 ++ [0])) k := by
  obtain ⟨hlt, rfl⟩ := storeValue_eq_some.1 h
  split
  · apply window_clearEncPasswd
    rw [length_overwrite (by rw [List.length_append, List.length_singleton]; omega), hlen]
  · rfl

/-- A value that reaches a field is what the field then holds. -/
lemma Holds.of_reach (h : storeValue cfg kv = some cfg') (hlen : cfg.length = cfgSize)
    (hreach : reach k kv = some text) : Holds cfg' k text := by
  have hlt := (storeValue_eq_some.1 h).1
  rw [Holds, window_storeValue h hlen, window]
  unfold reach at hreach
  split at hreach
  · rename_i hbetween
    cases hreach
    rw [drop_overwrite (by omega) hbetween.1
        (by rw [List.length_append, List.length_singleton]; omega),
      List.drop_append_of_le_length (by omega)]
    rw [List.prefix_take_iff]
    exact ⟨(List.take_prefix _ _).trans (List.prefix_append _ _), List.length_take_le ..⟩
  · cases hreach

/-- A value that does not reach a field leaves its first bytes as they are. -/
lemma window_of_not_reach (h : storeValue cfg kv = some cfg') (hlen : cfg.length = cfgSize)
    (hreach : reach k kv = none) : window cfg' k = window cfg k := by
  have hlt := (storeValue_eq_some.1 h).1
  rw [window_storeValue h hlen]
  unfold reach at hreach
  split at hreach
  · cases hreach
  · rename_i hnot
    rcases Nat.lt_or_ge k.offset kv.1.offset with hk | hk
    · have hgap := offset_gap hk
      rw [window, window, List.take_drop, List.take_drop, take_overwrite (by omega) hgap]
    · rw [window, window, drop_overwrite_behind (by omega)
        (by rw [List.length_append, List.length_singleton]; omega)]

/-- What is read back from a field that holds a text. -/
lemma Holds.field_iff {value : List UInt8} (h : Holds cfg key text) (htext : 0 ∉ text)
    (hvalue : 0 ∉ value) (hlen : value.length < fieldSize) :
    field cfg key = some value ↔ text = value := by
  have hpre : (text ++ [0]).take fieldSize <+: cfg.drop key.offset :=
    h.trans (List.take_prefix _ _)
  rcases Nat.lt_or_ge text.length fieldSize with hshort | hlong
  · rw [List.take_of_length_le (by rw [List.length_append, List.length_singleton]; omega)] at hpre
    obtain ⟨rest, hrest⟩ := hpre
    rw [field, ← hrest, List.append_assoc, List.singleton_append, cText_append htext,
      Option.some.injEq]
  · -- a longer text leaves no terminator in the first bytes
    refine iff_of_false ?_ ?_
    · intro hfield
      obtain ⟨-, rest, hrest⟩ := cText_eq_some.1 hfield
      rw [List.take_append_of_le_length hlong, hrest] at hpre
      have hfull : value ++ [0] <+: value ++ 0 :: rest := ⟨rest, by simp⟩
      have hzero : value ++ [0] <+: text.take fieldSize := by
        apply List.prefix_of_prefix_length_le hfull hpre
        rw [List.length_append, List.length_singleton, List.length_take]
        omega
      have hmem : (0 : UInt8) ∈ text.take fieldSize := hzero.subset (by simp)
      exact htext (List.mem_of_mem_take hmem)
    · rintro rfl
      omega

end Store

section Values

variable {cfg : List UInt8} {values : List (Key × List UInt8)} {key : Key} {kv : Key × List UInt8}

/-- A value that reaches the field replaces what was left there. -/
lemma lastReaching_concat (values : List (Key × List UInt8)) (kv : Key × List UInt8) (key : Key) :
    lastReaching (values ++ [kv]) key = (reach key kv).getD (lastReaching values key) := by
  rw [lastReaching, List.filterMap_append, List.filterMap_cons, List.filterMap_nil]
  cases reach key kv with
  | none => rw [List.append_nil]; rfl
  | some text => rw [List.getLast?_concat]; rfl

/-- What the values leave in the block. -/
lemma storeValues_holds (h : storeValues (List.replicate cfgSize 0) values = some cfg) :
    cfg.length = cfgSize ∧ ∀ key, Holds cfg key (lastReaching values key) := by
  induction values using List.reverseRecOn generalizing cfg with
  | nil =>
    cases h
    refine ⟨List.length_replicate, ?_⟩
    intro key
    refine ⟨List.replicate (fieldSize - 1) 0, ?_⟩
    cases key with
    | user => rfl
    | passwd => rfl
    | domain => rfl
  | append_singleton values kv ih =>
    rw [storeValues_concat] at h
    obtain ⟨c, hvalues, hkv⟩ := Option.bind_eq_some_iff.1 h
    obtain ⟨hlen, hholds⟩ := ih hvalues
    refine ⟨length_storeValue hkv hlen, ?_⟩
    intro key
    rw [lastReaching_concat]
    cases hreach : reach key kv with
    | none =>
      rw [Option.getD_none, Holds, window_of_not_reach hkv hlen hreach]
      exact hholds key
    | some text =>
      rw [Option.getD_some]
      exact Holds.of_reach hkv hlen hreach

/-- A value of the key replaces the one before. -/
lemma lastValue_concat (values : List (Key × List UInt8)) (kv : Key × List UInt8) (key : Key) :
    lastValue (values ++ [kv]) key =
      if kv.1 = key then kv.2.take (fieldSize - 1) else lastValue values key := by
  rw [lastValue, List.filter_append]
  by_cases hkey : kv.1 = key
  · rw [List.filter_cons_of_pos (by simpa using hkey), if_pos hkey, List.filter_nil,
      List.getLast?_concat]
    rfl
  · rw [List.filter_cons_of_neg (by simpa using hkey), if_neg hkey, List.filter_nil,
      List.append_nil]
    rfl

/-- A value reaches its own field. -/
lemma reach_self (kv : Key × List UInt8) : reach kv.1 kv = some kv.2 := by
  rw [reach, if_pos ⟨Nat.le_refl _, Nat.le_add_right ..⟩, Nat.sub_self, List.drop_zero]

/-- What is left in a field is its own last value exactly when it is undisturbed. -/
lemma lastReaching_eq_iff (values : List (Key × List UInt8)) (key : Key) :
    lastReaching values key = lastValue values key ↔ Undisturbed values key := by
  induction values using List.reverseRecOn with
  | nil =>
    refine iff_of_true rfl ?_
    intro kv hkv
    cases hkv
  | append_singleton values kv ih =>
    rw [lastReaching_concat, Undisturbed, lastValue_concat, List.filter_append]
    cases hreach : reach key kv with
    | none =>
      have hkey : kv.1 ≠ key := by
        rintro rfl
        rw [reach_self] at hreach
        cases hreach
      rw [List.filter_cons_of_neg (by simp [hreach]), List.filter_nil, List.append_nil,
        if_neg hkey, Option.getD_none]
      exact ih
    | some text =>
      rw [List.filter_cons_of_pos (by simp [hreach]), List.filter_nil, List.getLast?_concat,
        Option.getD_some]
      simp only [Option.mem_def, Option.some.injEq, forall_eq', hreach]
      by_cases hkey : kv.1 = key
      · subst hkey
        rw [reach_self] at hreach
        cases hreach
        simp only [if_true, true_and, ne_eq, not_true_eq_false, false_and, or_false]
        rw [eq_comm, List.take_eq_self_iff]
        exact Nat.le_sub_one_iff_lt (by decide)
      · simp only [hkey, if_false, false_and, ne_eq, not_false_eq_true, true_and, false_or]

/-- A value that fits reaches its own field only. -/
lemma reach_of_short (h : kv.2.length < fieldSize) :
    reach key kv = if kv.1 = key then some kv.2 else none := by
  split
  · rename_i hkey
    rw [← hkey, reach_self]
  · rename_i hkey
    rw [reach, if_neg]
    rintro ⟨hle, hreach⟩
    rcases Nat.lt_or_ge kv.1.offset key.offset with hlt | hge
    · have hgap := offset_gap hlt
      omega
    · exact hkey (offset_injective (Nat.le_antisymm hle hge))

/-- If all values fit, every field is undisturbed. -/
lemma undisturbed_of_short (h : ∀ kv ∈ values, kv.2.length < fieldSize) (key : Key) :
    Undisturbed values key := by
  intro kv hkv
  obtain ⟨hmem, hreach⟩ := List.mem_filter.1 (List.mem_of_getLast? hkv)
  have hlen := h kv hmem
  left
  refine ⟨?_, hlen⟩
  by_contra hkey
  rw [reach_of_short hlen, if_neg hkey] at hreach
  cases hreach

end Values

section Text

variable {bytes line value : List UInt8} {key : Key} {kv : Key × List UInt8}
  {values : List (Key × List UInt8)}

/-- A value is not empty. -/
lemma scanValue_ne_nil (h : scanValue key line = some value) : value ≠ [] := by
  unfold scanValue at h
  split at h
  · simp only at h
    split at h
    · cases h
    · rename_i hne
      cases h
      exact hne
  · cases h

/-- So it is for the value of any key. -/
lemma lineValue_ne_nil (h : lineValue line = some kv) : kv.2 ≠ [] := by
  unfold lineValue at h
  split at h
  · rename_i value hscan
    cases h
    exact scanValue_ne_nil hscan
  · split at h
    · rename_i value hscan
      cases h
      exact scanValue_ne_nil hscan
    · obtain ⟨value, hscan, rfl⟩ := Option.map_eq_some_iff.1 h
      exact scanValue_ne_nil hscan

/-- And for what is read at once. -/
lemma bytesValue_ne_nil (h : bytesValue bytes = some kv) : kv.2 ≠ [] := by
  obtain ⟨line, -, hvalue⟩ := Option.bind_eq_some_iff.1 h
  exact lineValue_ne_nil hvalue

/-- A value is made of characters of its line. -/
lemma mem_of_scanValue (h : scanValue key line = some value) : ∀ c ∈ value, c ∈ line := by
  unfold scanValue at h
  split at h
  · simp only at h
    split at h
    · cases h
    · cases h
      intro c hc
      have hdrop := (List.takeWhile_sublist _).subset hc
      exact List.mem_of_mem_drop ((List.dropWhile_sublist _).subset hdrop)
  · cases h

/-- So it is for the value of any key. -/
lemma mem_of_lineValue (h : lineValue line = some kv) : ∀ c ∈ kv.2, c ∈ line := by
  unfold lineValue at h
  split at h
  · rename_i value hscan
    cases h
    exact mem_of_scanValue hscan
  · split at h
    · rename_i value hscan
      cases h
      exact mem_of_scanValue hscan
    · obtain ⟨value, hscan, rfl⟩ := Option.map_eq_some_iff.1 h
      exact mem_of_scanValue hscan

/-- A value holds no zero, since the string it is read from does not. -/
lemma zero_not_mem_bytesValue (h : bytesValue bytes = some kv) : 0 ∉ kv.2 := by
  obtain ⟨line, hline, hvalue⟩ := Option.bind_eq_some_iff.1 h
  obtain ⟨last, -, rfl⟩ := Option.map_eq_some_iff.1 hline
  intro hzero
  have hmem := mem_of_lineValue hvalue 0 hzero
  apply not_mem_takeWhile_ne bytes 0
  split at hmem
  · exact (List.dropLast_sublist _).subset hmem
  · exact hmem

/-- What is left in a field is nothing, or a part of a value. -/
lemma lastReaching_cases (values : List (Key × List UInt8)) (key : Key) :
    lastReaching values key = [] ∨ ∃ kv ∈ values, reach key kv = some (lastReaching values key) := by
  rw [lastReaching]
  cases hlast : (values.filterMap (reach key)).getLast? with
  | none => exact .inl rfl
  | some text => exact .inr (List.mem_filterMap.1 (List.mem_of_getLast? hlast))

/-- The last value of a key is nothing, or the beginning of a value. -/
lemma lastValue_cases (values : List (Key × List UInt8)) (key : Key) :
    lastValue values key = [] ∨
      ∃ kv ∈ values, lastValue values key = kv.2.take (fieldSize - 1) := by
  rw [lastValue]
  cases hlast : (values.filter fun kv => kv.1 = key).getLast? with
  | none => exact .inl rfl
  | some kv => exact .inr ⟨kv, (List.mem_filter.1 (List.mem_of_getLast? hlast)).1, rfl⟩

/-- What is left of a value holds no zero. -/
lemma zero_not_mem_reach {text : List UInt8} (h : 0 ∉ kv.2) (hreach : reach key kv = some text) :
    0 ∉ text := by
  unfold reach at hreach
  split at hreach
  · cases hreach
    exact fun hzero => h (List.mem_of_mem_drop hzero)
  · cases hreach

/-- Nor does what all the values leave. -/
lemma zero_not_mem_lastReaching (h : ∀ kv ∈ values, 0 ∉ kv.2) : 0 ∉ lastReaching values key := by
  rcases lastReaching_cases values key with hnil | ⟨kv, hkv, hreach⟩
  · rw [hnil]
    exact List.not_mem_nil
  · exact zero_not_mem_reach (h kv hkv) hreach

/-- Nor does the last value. -/
lemma zero_not_mem_lastValue (h : ∀ kv ∈ values, 0 ∉ kv.2) : 0 ∉ lastValue values key := by
  rcases lastValue_cases values key with hnil | ⟨kv, hkv, heq⟩
  · rw [hnil]
    exact List.not_mem_nil
  · rw [heq]
    exact fun hzero => h kv hkv (List.mem_of_mem_take hzero)

/-- It fits the field. -/
lemma length_lastValue (values : List (Key × List UInt8)) (key : Key) :
    (lastValue values key).length < fieldSize := by
  rcases lastValue_cases values key with hnil | ⟨kv, -, heq⟩
  · rw [hnil]
    exact Nat.zero_lt_succ _
  · rw [heq]
    exact Nat.lt_of_le_of_lt (List.length_take_le ..) (by decide)

/-- When all values fit, something is left in a field exactly if there is a value for it. -/
lemma lastReaching_eq_nil_iff (hfit : ∀ kv ∈ values, kv.2.length < fieldSize)
    (hne : ∀ kv ∈ values, kv.2 ≠ []) : lastReaching values key = [] ↔ key ∉ values.map Prod.fst := by
  induction values using List.reverseRecOn with
  | nil => simp [lastReaching]
  | append_singleton values kv ih =>
    rw [List.forall_mem_append, List.forall_mem_singleton] at hfit hne
    rw [lastReaching_concat, reach_of_short hfit.2, List.map_append, List.mem_append]
    by_cases hkey : kv.1 = key
    · rw [if_pos hkey, Option.getD_some]
      simp [hkey, hne.2]
    · rw [if_neg hkey, Option.getD_none, ih hfit.1 hne.1]
      simp [Ne.symm hkey]

end Text

/-- The fields as they should be: of each key the last value that was processed, cut to 127
characters, or nothing. -/
def FieldsAsGiven (file : List UInt8) (result : Option (Option (List UInt8))) : Prop :=
  ∃ r, result = some r ∧
    ∀ cfg, r = some cfg → ∀ key, field cfg key = some (lastValue (valuesRead file) key)

/-- The values are stored in a block in which every field is undisturbed. -/
lemma storeValues_fieldsAsGiven {file : List UInt8} :
    FieldsAsGiven file ((storeValues (List.replicate cfgSize 0) (valuesRead file)).map some) ↔
      (∀ kv ∈ valuesRead file, kv.1.offset + kv.2.length < cfgSize) ∧
        ∀ key, Undisturbed (valuesRead file) key := by
  have hzero : ∀ kv ∈ valuesRead file, 0 ∉ kv.2 := by
    intro kv hkv
    obtain ⟨bytes, -, hvalue⟩ := List.mem_filterMap.1 hkv
    exact zero_not_mem_bytesValue hvalue
  rw [← @storeValues_isSome (List.replicate cfgSize 0) _ List.length_replicate]
  cases hstore : storeValues (List.replicate cfgSize 0) (valuesRead file) with
  | none =>
    refine iff_of_false ?_ (fun h => Bool.false_ne_true h.1)
    rintro ⟨r, hr, -⟩
    cases hr
  | some cfg =>
    have hholds := (storeValues_holds hstore).2
    have hfield : ∀ key, field cfg key = some (lastValue (valuesRead file) key) ↔
        Undisturbed (valuesRead file) key := by
      intro key
      rw [← lastReaching_eq_iff]
      exact (hholds key).field_iff (zero_not_mem_lastReaching hzero) (zero_not_mem_lastValue hzero)
        (length_lastValue _ _)
    simp only [← hfield, Option.map_some, Option.isSome_some, true_and]
    constructor
    · rintro ⟨r, hr, h⟩
      cases hr
      exact h cfg rfl
    · intro h
      refine ⟨some cfg, rfl, ?_⟩
      intro cfg' hcfg
      cases hcfg
      exact h

/-- For a file of lines that `fgets` reads at once, the fields are as given exactly when there is no
memory, or no line that is processed begins with a zero, no value runs out of the block and every
field is undisturbed. -/
theorem getConfigBytes_iff (file : List UInt8) (malloc : Nat) (halign : 16 ∣ malloc)
    (hlines : ∀ l ∈ lines newline file, l.length ≤ 511) :
    FieldsAsGiven file (getConfigBytes file malloc) ↔
      malloc = 0 ∨
        ((∀ bytes ∈ processed file, lineText bytes ≠ []) ∧
          (∀ kv ∈ valuesRead file, kv.1.offset + kv.2.length < cfgSize) ∧
          ∀ key, Undisturbed (valuesRead file) key) := by
  by_cases hnull : malloc = 0
  · refine iff_of_true ⟨none, if_pos hnull, ?_⟩ (.inl hnull)
    intro cfg hcfg
    cases hcfg
  · have hlarge : ¬ malloc < 3 := by
      obtain ⟨c, rfl⟩ := halign
      omega
    have hrun : getConfigBytes file malloc =
        ((readLoopBytes (lines newline file) 0 (List.replicate cfgSize 0)).map Prod.snd).map some := by
      rw [getConfigBytes, if_neg hnull, pieces_eq_lines hlines, Option.map_map]
      simp only [if_neg hlarge]
      rfl
    rw [hrun]
    simp only [hnull, false_or]
    by_cases htext : ∀ bytes ∈ processed file, lineText bytes ≠ []
    · rw [readLoopBytes_of_text (n := 2) rfl htext]
      exact storeValues_fieldsAsGiven.trans ⟨fun h => ⟨htext, h⟩, fun h => h.2⟩
    · rw [readLoopBytes_of_empty (n := 2) rfl htext]
      refine iff_of_false ?_ (fun h => htext h.1)
      rintro ⟨r, hr, -⟩
      cases hr

/-- The lines `passwd=b`, `user=x`, `user=` with 127 characters, and `domain=c`, which is not read. -/
def repeatedUser : List UInt8 :=
  [112, 97, 115, 115, 119, 100, 61, 98, 10, 117, 115, 101, 114, 61, 120, 10, 117, 115, 101, 114, 61] ++
    List.replicate 127 97 ++ [10, 100, 111, 109, 97, 105, 110, 61, 99]

/-- The second user takes the place of the first one. -/
theorem getConfigBytes_repeated_user :
    FieldsAsGiven repeatedUser (getConfigBytes repeatedUser 16) :=
  (getConfigBytes_iff repeatedUser 16 (by decide) (by decide +kernel)).2
    (.inr ⟨by decide +kernel, by decide +kernel, undisturbed_of_short (by decide +kernel)⟩)

/-- A user of 130 characters: the last two are read back as the password. -/
theorem getConfigBytes_long_user :
    ¬ FieldsAsGiven ([117, 115, 101, 114, 61] ++ List.replicate 130 97)
      (getConfigBytes ([117, 115, 101, 114, 61] ++ List.replicate 130 97) 16) := by
  have hfield : (getConfigBytes ([117, 115, 101, 114, 61] ++ List.replicate 130 97) 16).map
      (Option.map fun cfg => field cfg .passwd) = some (some (some [97, 97])) := by decide +kernel
  have hvalue : lastValue (valuesRead ([117, 115, 101, 114, 61] ++ List.replicate 130 97)) .passwd =
      [] := by decide +kernel
  rintro ⟨r, hr, h⟩
  rw [hr, Option.map_some, Option.some.injEq] at hfield
  obtain ⟨cfg, hcfg, hpasswd⟩ := Option.map_eq_some_iff.1 hfield
  rw [h cfg hcfg .passwd, hvalue] at hpasswd
  cases hpasswd

/-- What is returned is complete exactly if every key is among those of the first three values that are
read, provided that these fit their fields: the counter does not tell a repeated key from another. -/
theorem getConfigBytes_complete_iff {file cfg : List UInt8} {malloc : Nat} (halign : 16 ∣ malloc)
    (hrun : getConfigBytes file malloc = some (some cfg))
    (hfit : ∀ kv ∈ (untilValues 3 (pieces newline 511 file)).filterMap bytesValue,
      kv.2.length < fieldSize) :
    (∀ key, field cfg key ≠ some []) ↔
      ∀ key, key ∈ ((untilValues 3 (pieces newline 511 file)).filterMap bytesValue).map Prod.fst := by
  have hnull : malloc ≠ 0 := by
    rintro rfl
    cases hrun
  rw [getConfigBytes_eq (three_le_malloc halign hnull), Option.map_eq_some_iff] at hrun
  obtain ⟨r, hread, heq⟩ := hrun
  cases heq
  have htext : ∀ bytes ∈ untilValues 3 (pieces newline 511 file), lineText bytes ≠ [] := by
    by_contra h
    rw [readLoopBytes_of_empty (n := 2) rfl h] at hread
    cases hread
  have hstore := @readLoopBytes_of_text (List.replicate cfgSize 0) _ 0 2 rfl htext
  rw [hread, Option.map_some] at hstore
  have hholds := (storeValues_holds hstore.symm).2
  have hzero : ∀ kv ∈ (untilValues 3 (pieces newline 511 file)).filterMap bytesValue, 0 ∉ kv.2 := by
    intro kv hkv
    obtain ⟨bytes, -, hvalue⟩ := List.mem_filterMap.1 hkv
    exact zero_not_mem_bytesValue hvalue
  have hne : ∀ kv ∈ (untilValues 3 (pieces newline 511 file)).filterMap bytesValue, kv.2 ≠ [] := by
    intro kv hkv
    obtain ⟨bytes, -, hvalue⟩ := List.mem_filterMap.1 hkv
    exact bytesValue_ne_nil hvalue
  refine forall_congr' fun key => ?_
  rw [ne_eq, (hholds key).field_iff (zero_not_mem_lastReaching hzero) List.not_mem_nil (by decide),
    lastReaching_eq_nil_iff hfit hne, not_not]

end CcodeTest.VpnConfig
