import CcodeTest.Lib.CString
import CcodeTest.Lib.Transition
import CcodeTest.Lib.Word

/-!
# Looking up a parameter

A parameter list such as `US;test=1;product=570w` consists of entries introduced by `;`, and
`ath10k_parse_param_list` copies the value of a key to the caller's buffer. A string is the list of
its characters, without the terminator; the buffer is a block, and an access outside it is `none`.

The loop goes from `;` to `;` and looks for the next `=` from there, which may be in a later entry.
The distance to it is stored in an `int` before it is compared with the length of the key. So the
values that are copied are those of `cutValues`, which for lists of ordinary size are the values
that the key has (`ath10kParseParamList_of_short`). Each is copied over the ones before it: `put` is
what one copy leaves in the buffer.
-/

namespace CcodeTest.ParamList
open CcodeTest.Lib

/-- `param_sep`. -/
def paramSep : UInt8 := 59

/-- `kv_sep`. -/
def kvSep : UInt8 := 61

/-- The loop that copies a value, and the terminator behind it. The pointer `dst` is always
`value_buf + k_len`. -/
def copyValue (bufLen : Int) : List UInt8 → Nat → List UInt8 → Option (List UInt8)
  | [], kLen, valueBuf => store valueBuf kLen 0
  | c :: cs, kLen, valueBuf =>
    if c = paramSep then store valueBuf kLen 0
    else if (kLen : Int) + 1 ≥ bufLen - 1 then
      if bufLen - 1 < 0 then none else store valueBuf (bufLen - 1).toNat 0
    else (store valueBuf kLen c).bind (copyValue bufLen cs (kLen + 1))

/-- The test for the key: the distance from behind the `;` to the `=`, as an `int`, is compared with
the length, and then as many characters. -/
def keyMatches (key list sepKv : List UInt8) : Bool :=
  uint64 (int32 ((list.length : Int) - sepKv.length)) == (key.length : Int) &&
    list.take key.length == key

/-- The loop over the list, a character at a time up to the next `;`. -/
def parseLoop (key : List UInt8) (bufLen : Int) : List UInt8 → List UInt8 → Option (List UInt8)
  | [], valueBuf => some valueBuf
  | c :: list, valueBuf =>
    if c = paramSep then
      match strchr list kvSep with
      | none => some valueBuf
      | some sepKv =>
        (if keyMatches key list sepKv then copyValue bufLen sepKv.tail 0 valueBuf
          else some valueBuf).bind (parseLoop key bufLen list)
    else parseLoop key bufLen list valueBuf

/-- `ath10k_parse_param_list`, the returned value and the buffer. `ret` is never assigned again. -/
def ath10kParseParamList (paramList key valueBuf : Option (List UInt8)) (bufLen : Int) :
    Option (Int × Option (List UInt8)) :=
  match paramList, key, valueBuf with
  | some list, some key, some buf =>
    if bufLen = 0 then some (-1, some buf)
    else (parseLoop key bufLen list buf).map fun buf => (-1, some buf)
  | _, _, _ => some (-1, valueBuf)

/-! The entries of a list. -/

/-- The entries introduced by `;`, each up to the next `;` or the end. -/
def entries : List UInt8 → List (List UInt8)
  | [] => []
  | c :: list =>
    if c = paramSep then list.takeWhile (· != paramSep) :: entries list else entries list

/-- What stands before and behind the first `=` of an entry. -/
def keyValue (entry : List UInt8) : Option (List UInt8 × List UInt8) :=
  if kvSep ∈ entry then
    some (entry.takeWhile (· != kvSep), (entry.dropWhile (· != kvSep)).tail)
  else none

/-- The keys and values of a list. -/
def pairs (list : List UInt8) : List (List UInt8 × List UInt8) := (entries list).filterMap keyValue

/-- The values that a key has. -/
def values (list key : List UInt8) : List (List UInt8) :=
  ((pairs list).filter fun p => p.1 == key).map Prod.snd

/-- The values behind every `;` at which the test for the key succeeds. -/
def cutValues (key : List UInt8) : List UInt8 → List (List UInt8)
  | [] => []
  | c :: list =>
    if c = paramSep then
      match strchr list kvSep with
      | none => []
      | some sepKv =>
        if keyMatches key list sepKv then
          sepKv.tail.takeWhile (· != paramSep) :: cutValues key list
        else cutValues key list
    else cutValues key list

section Entries

variable {key list u v w : List UInt8} {p : List UInt8 × List UInt8}

/-- The pair behind a separator comes first. -/
lemma pairs_sep (list : List UInt8) : pairs (paramSep :: list) =
    (keyValue (list.takeWhile (· != paramSep))).toList ++ pairs list := by
  rw [pairs, entries, if_pos rfl, List.filterMap_cons]
  cases keyValue (list.takeWhile (· != paramSep)) with
  | none => rfl
  | some p => rfl

/-- A pair of the rest is a pair of the whole list. -/
lemma mem_pairs_append (u : List UInt8) (h : p ∈ pairs list) : p ∈ pairs (u ++ list) := by
  induction u with
  | nil => exact h
  | cons c u ih =>
    by_cases hc : c = paramSep
    · rw [hc, List.cons_append, pairs_sep]
      exact List.mem_append_right _ ih
    · rw [List.cons_append, pairs, entries, if_neg hc]
      exact ih

/-- Without any `=` there is no pair. -/
lemma pairs_eq_nil (h : kvSep ∉ list) : pairs list = [] := by
  induction list with
  | nil => rfl
  | cons c list ih =>
    rw [List.mem_cons, not_or] at h
    by_cases hc : c = paramSep
    · have hentry : kvSep ∉ list.takeWhile (· != paramSep) := fun he =>
        h.2 ((List.takeWhile_sublist _).mem he)
      rw [hc, pairs_sep, keyValue, if_neg hentry, ih h.2]
      rfl
    · rw [pairs, entries, if_neg hc]
      exact ih h.2

/-- Without a separator there is no entry. -/
lemma entries_eq_nil (h : paramSep ∉ list) : entries list = [] := by
  induction list with
  | nil => rfl
  | cons c list ih =>
    rw [List.mem_cons, not_or] at h
    rw [entries, if_neg (Ne.symm h.1), ih h.2]

/-- Nor a value. -/
lemma cutValues_eq_nil (h : paramSep ∉ list) : cutValues key list = [] := by
  induction list with
  | nil => rfl
  | cons c list ih =>
    rw [List.mem_cons, not_or] at h
    rw [cutValues, if_neg (Ne.symm h.1), ih h.2]

/-- An entry with its `=` before the next `;`. -/
lemma pairs_of_not_mem (hkv : kvSep ∉ u) (hsep : paramSep ∉ u) :
    pairs (paramSep :: (u ++ kvSep :: v)) =
      (u, v.takeWhile (· != paramSep)) :: pairs (u ++ kvSep :: v) := by
  have hentry : (u ++ kvSep :: v).takeWhile (· != paramSep) =
      u ++ kvSep :: v.takeWhile (· != paramSep) := by
    rw [takeWhile_ne_append hsep, List.takeWhile_cons_of_pos (by decide)]
  rw [pairs_sep, hentry, keyValue, if_pos (by simp), takeWhile_ne_append hkv,
    dropWhile_ne_append hkv, List.takeWhile_cons_of_neg (by simp),
    List.dropWhile_cons_of_neg (by simp), List.append_nil]
  rfl

/-- An entry whose next `=` is in a later one. -/
lemma pairs_of_mem (hkv : kvSep ∉ u) (hsep : paramSep ∈ u) :
    pairs (paramSep :: (u ++ kvSep :: v)) = pairs (u ++ kvSep :: v) := by
  obtain ⟨a, b, rfl, ha⟩ := List.eq_append_cons_of_mem hsep
  have hnone : kvSep ∉ a := fun h => hkv (List.mem_append_left _ h)
  rw [pairs_sep, List.append_assoc, takeWhile_ne_append ha, List.cons_append,
    List.takeWhile_cons_of_neg (by simp), List.append_nil, keyValue, if_neg hnone]
  rfl

/-- The text behind the next `=` is the value of some entry. -/
lemma exists_mem_pairs (hkv : kvSep ∉ u) :
    ∃ k, (k, v.takeWhile (· != paramSep)) ∈ pairs (paramSep :: (u ++ kvSep :: v)) := by
  by_cases hsep : paramSep ∈ u
  · -- the entry is the one of the last `;` before the `=`
    obtain ⟨b, a, hab, hb⟩ := List.eq_append_cons_of_mem (List.mem_reverse.2 hsep)
    have hu : u = a.reverse ++ paramSep :: b.reverse := by
      rw [← List.reverse_reverse u, hab]
      simp
    have hkvb : kvSep ∉ b.reverse := by
      rw [hu] at hkv
      simp only [List.mem_append, List.mem_cons, not_or] at hkv
      exact hkv.2.2
    refine ⟨b.reverse, ?_⟩
    rw [hu, List.append_assoc, List.cons_append, ← List.cons_append]
    apply mem_pairs_append
    rw [pairs_of_not_mem hkvb (by simpa using hb)]
    exact List.mem_cons_self ..
  · refine ⟨u, ?_⟩
    rw [pairs_of_not_mem hkv hsep]
    exact List.mem_cons_self ..

/-- The three ways in which the list of the values found goes on. -/
lemma cutValues_sep (hkv : kvSep ∉ u) : cutValues key (paramSep :: (u ++ kvSep :: v)) =
    if keyMatches key (u ++ kvSep :: v) (kvSep :: v) then
      v.takeWhile (· != paramSep) :: cutValues key (u ++ kvSep :: v)
    else cutValues key (u ++ kvSep :: v) := by
  rw [cutValues, if_pos rfl, strchr_append hkv]
  rfl

/-- Without a sign between key and value there is no value either. -/
lemma cutValues_none (hkv : kvSep ∉ list) : cutValues key (paramSep :: list) = [] := by
  rw [cutValues, if_pos rfl, strchr_eq_none.2 hkv]

/-- A value that is found is the value of some entry. -/
lemma mem_pairs_of_mem_cutValues (h : w ∈ cutValues key list) : ∃ k, (k, w) ∈ pairs list := by
  induction list with
  | nil => cases h
  | cons c list ih =>
    have hlater : w ∈ cutValues key list → ∃ k, (k, w) ∈ pairs (c :: list) := by
      intro h
      obtain ⟨k, hk⟩ := ih h
      exact ⟨k, mem_pairs_append [c] hk⟩
    by_cases hc : c = paramSep
    · subst hc
      by_cases hkv : kvSep ∈ list
      · obtain ⟨u, v, rfl, hu⟩ := List.eq_append_cons_of_mem hkv
        rw [cutValues_sep hu] at h
        split at h
        · rcases List.mem_cons.1 h with rfl | h
          · exact exists_mem_pairs hu
          · exact hlater h
        · exact hlater h
      · rw [cutValues_none hkv] at h
        cases h
    · rw [cutValues, if_neg hc] at h
      exact hlater h

/-- A distance that fits an `int`: the test compares the text up to the `=` with the key. -/
lemma keyMatches_iff (hu : u.length < 2147483648) :
    keyMatches key (u ++ kvSep :: v) (kvSep :: v) = true ↔ u = key := by
  have hdist : ((u ++ kvSep :: v).length : Int) - (kvSep :: v).length = u.length := by
    rw [List.length_append]
    omega
  rw [keyMatches, hdist, int32_of_range (by omega) (by omega), uint64_of_range (by omega) (by omega),
    Bool.and_eq_true, beq_iff_eq, beq_iff_eq]
  constructor
  · rintro ⟨hlen, htake⟩
    rw [← htake, ← Int.ofNat.inj hlen, List.take_left]
  · rintro rfl
    exact ⟨rfl, List.take_left⟩

/-- In a list that an `int` can measure the values found are the ones the key has. -/
lemma cutValues_eq_values (hkey : paramSep ∉ key) (hlist : list.length < 2147483648) :
    cutValues key list = values list key := by
  induction list with
  | nil => rfl
  | cons c list ih =>
    have ih := ih (Nat.lt_of_succ_lt hlist)
    by_cases hc : c = paramSep
    · subst hc
      by_cases hkv : kvSep ∈ list
      · obtain ⟨u, v, rfl, hu⟩ := List.eq_append_cons_of_mem hkv
        have hlen : u.length < 2147483648 := by
          rw [List.length_cons, List.length_append] at hlist
          omega
        rw [cutValues_sep hu, ih, values, values]
        simp only [keyMatches_iff hlen]
        by_cases hsep : paramSep ∈ u
        · have hk : u ≠ key := by
            rintro rfl
            exact hkey hsep
          rw [pairs_of_mem hu hsep, if_neg hk]
        · rw [pairs_of_not_mem hu hsep, List.filter_cons]
          by_cases hk : u = key
          · simp [hk]
          · simp [hk]
      · rw [cutValues_none hkv, values, pairs_eq_nil]
        · rfl
        · rw [List.mem_cons, not_or]
          exact ⟨by decide, hkv⟩
    · rw [cutValues, if_neg hc, ih, values, values, pairs, pairs, entries, if_neg hc]

end Entries

/-! The buffer. -/

/-- What a copy of `w` leaves in a buffer that held `old`, where `n` is `buf_len - 1`: all of `w`, or
its first `n - 1` characters, with the terminator at `n` and the cell between as it was. -/
def put (n : Nat) (old w : List UInt8) : List UInt8 :=
  (w.take (n - 1) ++ old.drop (w.take (n - 1)).length).set (min w.length n) 0

section Copy

variable {key list old v w done : List UInt8} {ws : List (List UInt8)} {n : Nat}

/-- An empty value. -/
lemma put_nil (n : Nat) (old : List UInt8) : put n old [] = old.set 0 0 := by simp [put]

/-- Room for the NUL only. -/
lemma put_one (old : List UInt8) (c : UInt8) (w : List UInt8) :
    put 1 old (c :: w) = old.set 1 0 := by
  simp [put]

/-- One more character and room for it. -/
lemma put_cons (n : Nat) (x : UInt8) (old : List UInt8) (c : UInt8) (w : List UInt8) :
    put (n + 2) (x :: old) (c :: w) = c :: put (n + 1) old w := by
  have hmin : min (w.length + 1) (n + 2) = min w.length (n + 1) + 1 := by omega
  simp [put, hmin]

/-- The buffer keeps its length. -/
lemma length_put (h : n ≤ old.length) : (put n old w).length = old.length := by
  simp only [put, List.length_set, List.length_append, List.length_take, List.length_drop]
  omega

/-- The NUL behind what is written. -/
lemma store_put_nil (hold : 0 < old.length) :
    store (done ++ old) done.length 0 = some (done ++ put n old []) := by
  rw [put_nil, store_of_lt (by rw [List.length_append]; omega),
    List.set_append_right _ _ (Nat.le_refl _), Nat.sub_self]

/-- The copying loop, behind what has been copied. -/
lemma copyValue_append (hn : 1 ≤ n) (hold : n < old.length) :
    copyValue ((done.length + n : Nat) + 1) v done.length (done ++ old) =
      some (done ++ put n old (v.takeWhile (· != paramSep))) := by
  induction v generalizing done old n with
  | nil => exact store_put_nil (by omega)
  | cons c v ih =>
    by_cases hc : c = paramSep
    · rw [copyValue, if_pos hc, List.takeWhile_cons_of_neg (by simp [hc]),
        store_put_nil (by omega)]
    · rw [copyValue, if_neg hc, List.takeWhile_cons_of_pos (by simp [hc])]
      obtain ⟨n, rfl⟩ := Nat.exists_eq_add_of_le' hn
      cases n with
      | zero =>
        rw [if_pos (by omega), if_neg (by omega), put_one,
          show (((done.length + (0 + 1) : Nat) : Int) + 1 - 1).toNat = done.length + 1 by omega,
          store_of_lt (by rw [List.length_append]; omega),
          List.set_append_right _ _ (Nat.le_add_right _ _), Nat.add_sub_cancel_left]
      | succ n =>
        cases old with
        | nil => cases hold
        | cons x old =>
          have hnext := @ih old (done ++ [c]) (n + 1) (by omega) (Nat.lt_of_succ_lt_succ hold)
          have hlen : (done ++ [c]).length + (n + 1) = done.length + (n + 1 + 1) := by
            rw [List.length_append, List.length_singleton]
            omega
          rw [hlen, List.length_append, List.append_assoc, List.append_assoc] at hnext
          rw [if_neg (by omega), store_append, Option.bind_some, put_cons]
          exact hnext

/-- The copying loop writes as much of the value as there is room for. -/
lemma copyValue_eq (hn : 1 ≤ n) (hold : n < old.length) :
    copyValue ((n : Int) + 1) v 0 old = some (put n old (v.takeWhile (· != paramSep))) := by
  have h := @copyValue_append old v [] n hn hold
  rw [List.length_nil, Nat.zero_add] at h
  exact h

/-- The loop copies the values found, one over the other. -/
lemma parseLoop_eq (hn : 1 ≤ n) (hold : n < old.length) :
    parseLoop key ((n : Int) + 1) list old = some ((cutValues key list).foldl (put n) old) := by
  induction list generalizing old with
  | nil => rfl
  | cons c list ih =>
    rw [parseLoop, cutValues]
    by_cases hc : c = paramSep
    · rw [if_pos hc, if_pos hc]
      cases hkv : strchr list kvSep with
      | none => rfl
      | some sepKv =>
        by_cases hk : keyMatches key list sepKv = true
        · simp only [hk, if_true]
          rw [copyValue_eq hn hold, Option.bind_some, List.foldl_cons, ih]
          rw [length_put (Nat.le_of_lt hold)]
          exact hold
        · simp only [hk, Bool.false_eq_true, if_false]
          exact ih hold
    · rw [if_neg hc, if_neg hc]
      exact ih hold

/-- If nothing is found nothing is copied, whatever the length of the buffer. -/
lemma parseLoop_of_nil {bufLen : Int} (h : cutValues key list = []) :
    parseLoop key bufLen list old = some old := by
  induction list with
  | nil => rfl
  | cons c list ih =>
    rw [parseLoop]
    rw [cutValues] at h
    by_cases hc : c = paramSep
    · rw [if_pos hc] at h ⊢
      cases hkv : strchr list kvSep with
      | none => rfl
      | some sepKv =>
        rw [hkv] at h
        by_cases hk : keyMatches key list sepKv = true
        · simp [hk] at h
        · simp only [hk, Bool.false_eq_true, if_false] at h ⊢
          exact ih h
    · rw [if_neg hc] at h ⊢
      exact ih h

/-- A value with room for it and one more character is copied with its terminator. -/
lemma put_short (hw : w.length < n) (hold : n < old.length) : w ++ [0] <+: put n old w := by
  refine ⟨old.drop (w.length + 1), ?_⟩
  have hcons : old.drop w.length = old[w.length] :: old.drop (w.length + 1) :=
    List.drop_eq_getElem_cons (by omega)
  rw [put, List.take_of_length_le (by omega), Nat.min_eq_left (by omega),
    List.set_append_right _ _ (Nat.le_refl _), Nat.sub_self, hcons, List.set_cons_zero,
    List.append_assoc, List.singleton_append]

/-- Of a longer value one character less than fits is copied, and the cell after it is left. -/
lemma put_long (hn : 1 ≤ n) (hw : n ≤ w.length) (hold : n < old.length) :
    ∃ x rest, old[n - 1]? = some x ∧ put n old w = w.take (n - 1) ++ x :: 0 :: rest := by
  have htake : (w.take (n - 1)).length = n - 1 := by
    rw [List.length_take]
    omega
  have hcons : old.drop (n - 1) = old[n - 1] :: old[n - 1 + 1] :: old.drop (n - 1 + 2) := by
    rw [List.drop_eq_getElem_cons (by omega), List.drop_eq_getElem_cons (by omega)]
  refine ⟨old[n - 1], old.drop (n - 1 + 2), List.getElem?_eq_getElem (by omega), ?_⟩
  rw [put, htake, Nat.min_eq_right hw, List.set_append_right _ _ (by omega), htake, hcons,
    show n - (n - 1) = 1 by omega]
  rfl

/-- The cell before the last is only ever cleared, by a value that ends there. -/
lemma put_cell (hn : 1 ≤ n) (hold : n < old.length) :
    (put n old w)[n - 1]? = if w.length = n - 1 then some 0 else old[n - 1]? := by
  rcases Nat.lt_or_ge w.length n with hw | hw
  · rw [put, List.take_of_length_le (by omega), Nat.min_eq_left (by omega)]
    split
    · rename_i h
      rw [← h]
      apply List.getElem?_set_self
      simp
      omega
    · rename_i h
      rw [List.getElem?_set_ne h, List.getElem?_append_right (by omega), List.getElem?_drop]
      congr 1
      omega
  · obtain ⟨x, rest, hx, hput⟩ := put_long hn hw hold
    have htake : (w.take (n - 1)).length = n - 1 := by
      rw [List.length_take]
      omega
    rw [if_neg (by omega), hput, hx, List.getElem?_append_right (by omega), htake, Nat.sub_self]
    rfl

/-- The buffer keeps its length over all values. -/
lemma length_foldl_put (hold : n ≤ old.length) :
    (ws.foldl (put n) old).length = old.length := by
  induction ws generalizing old with
  | nil => rfl
  | cons w ws ih =>
    have hput := length_put (w := w) hold
    rw [List.foldl_cons, ih (by rw [hput]; exact hold), hput]

/-- The last cell holds a NUL only when a value has that length. -/
lemma foldl_put_cell (ws : List (List UInt8)) (hn : 1 ≤ n) (hold : n < old.length) :
    ((ws.foldl (put n) old)[n - 1]? = some 0 ∧ ∃ w ∈ ws, w.length = n - 1) ∨
      (ws.foldl (put n) old)[n - 1]? = old[n - 1]? ∧ ∀ w ∈ ws, w.length ≠ n - 1 := by
  induction ws generalizing old with
  | nil => exact Or.inr ⟨rfl, fun w hw => absurd hw List.not_mem_nil⟩
  | cons w ws ih =>
    have hput : n < (put n old w).length := by
      rw [length_put (Nat.le_of_lt hold)]
      exact hold
    rw [List.foldl_cons]
    rcases ih hput with ⟨hcell, w', hw', hlen⟩ | ⟨hcell, hall⟩
    · exact Or.inl ⟨hcell, w', List.mem_cons_of_mem _ hw', hlen⟩
    · rw [put_cell hn hold] at hcell
      split at hcell
      · rename_i hw
        exact Or.inl ⟨hcell, w, List.mem_cons_self .., hw⟩
      · rename_i hw
        refine Or.inr ⟨hcell, ?_⟩
        intro w' hw'
        rcases List.mem_cons.1 hw' with rfl | hw'
        · exact hw
        · exact hall w' hw'

end Copy

/-! The lookup. -/

/-- The buffer holds the value, terminated; without a value it is unchanged. -/
def Shows (value : Option (List UInt8)) (old new : List UInt8) : Prop :=
  match value with
  | none => new = old
  | some v => v ++ [0] <+: new

section Lookup

variable {key list buf new a b v w : List UInt8} {ws : List (List UInt8)} {bufLen : Nat}

/-- What a call leaves in the buffer. -/
lemma ath10kParseParamList_eq (hfound : cutValues key list ≠ [] → 2 ≤ bufLen)
    (hbuf : bufLen ≤ buf.length) :
    ath10kParseParamList (some list) (some key) (some buf) bufLen =
      some (-1, some ((cutValues key list).foldl (put (bufLen - 1)) buf)) := by
  rw [ath10kParseParamList]
  by_cases hnil : cutValues key list = []
  · simp [hnil, parseLoop_of_nil hnil]
  · have htwo := hfound hnil
    have hloop := @parseLoop_eq key list buf (bufLen - 1) (by omega) (by omega)
    rw [show ((bufLen - 1 : Nat) : Int) + 1 = bufLen by omega] at hloop
    rw [if_neg (by omega), hloop, Option.map_some]

/-- A buffer holds one C string at its start. -/
lemma prefix_zero_inj (ha : 0 ∉ a) (hb : 0 ∉ b) (h : a ++ [0] <+: new) (h' : b ++ [0] <+: new) :
    a = b := by
  obtain ⟨u, rfl⟩ := h
  obtain ⟨v, hv⟩ := h'
  rw [List.append_assoc, List.append_assoc] at hv
  have htext := cText_append ha u
  rw [← List.singleton_append, ← hv] at htext
  exact (Option.some.inj ((cText_append hb v).symm.trans htext)).symm

/-- The entries hold what the list holds. -/
lemma mem_of_mem_entries {e : List UInt8} {x : UInt8} (he : e ∈ entries list) (hx : x ∈ e) :
    x ∈ list := by
  induction list with
  | nil => cases he
  | cons c list ih =>
    rw [entries] at he
    split at he
    · rcases List.mem_cons.1 he with rfl | he
      · exact List.mem_cons_of_mem _ ((List.takeWhile_sublist _).mem hx)
      · exact List.mem_cons_of_mem _ (ih he)
    · exact List.mem_cons_of_mem _ (ih he)

/-- The values hold no NUL. -/
lemma zero_not_mem_of_mem_pairs {p : List UInt8 × List UInt8} (h0 : 0 ∉ list)
    (hp : p ∈ pairs list) : 0 ∉ p.2 := by
  obtain ⟨e, he, hkv⟩ := List.mem_filterMap.1 hp
  rw [keyValue] at hkv
  split at hkv
  · cases hkv
    intro hx
    exact h0 (mem_of_mem_entries he
      ((List.dropWhile_sublist _).mem ((List.tail_sublist _).mem hx)))
  · cases hkv

/-- Nor do the values as they are cut. -/
lemma zero_not_mem_of_mem_cutValues (h0 : 0 ∉ list) (hw : w ∈ cutValues key list) : 0 ∉ w := by
  obtain ⟨k, hk⟩ := mem_pairs_of_mem_cutValues hw
  exact zero_not_mem_of_mem_pairs h0 hk

/-- A value of the key is a pair. -/
lemma mem_pairs_of_mem_values (hv : v ∈ values list key) : (key, v) ∈ pairs list := by
  obtain ⟨p, hp, rfl⟩ := List.mem_map.1 hv
  obtain ⟨hp, hk⟩ := List.mem_filter.1 hp
  rw [beq_iff_eq] at hk
  rw [← hk]
  exact hp

/-- The buffer after a call holds the last value found, if there is room for each. -/
lemma foldl_put_last (hn : 2 ≤ bufLen) (hroom : ∀ w ∈ ws, w.length + 2 ≤ bufLen)
    (hbuf : bufLen ≤ buf.length) : Shows ws.getLast? buf (ws.foldl (put (bufLen - 1)) buf) := by
  rcases List.eq_nil_or_concat' ws with rfl | ⟨ws, w, rfl⟩
  · rfl
  · rw [List.getLast?_concat, List.foldl_append]
    have hw := hroom w (by simp)
    have hlen := @length_foldl_put buf ws (bufLen - 1) (by omega)
    exact put_short (by omega) (by omega)

/-- A text of other bytes holds no NUL. -/
lemma zero_not_mem_replicate (k : Nat) : (0 : UInt8) ∉ List.replicate k 1 := by
  intro h
  exact absurd (List.eq_of_mem_replicate h) (by decide)

/-- A buffer without a zero tells what it shows afterwards. -/
lemma Shows.unique {o o' : Option (List UInt8)} (ho : ∀ w, o = some w → 0 ∉ w)
    (ho' : ∀ v, o' = some v → 0 ∉ v) (hbuf : 0 ∉ buf) (h : Shows o buf new)
    (h' : Shows o' buf new) : o = o' := by
  have hzero : ∀ v : List UInt8, ¬ v ++ [0] <+: buf := fun v hv => hbuf (hv.mem (by simp))
  cases o with
  | none =>
    cases o' with
    | none => rfl
    | some v =>
      simp only [Shows] at h h'
      rw [h] at h'
      exact absurd h' (hzero v)
  | some w =>
    cases o' with
    | none =>
      simp only [Shows] at h h'
      rw [h'] at h
      exact absurd h (hzero w)
    | some v => rw [prefix_zero_inj (ho w rfl) (ho' v rfl) h h']

/-- After a call the buffer holds the last value found. -/
lemma ath10kParseParamList_shows (hroom : ∀ p ∈ pairs list, p.2.length + 2 ≤ bufLen)
    (hbuf : bufLen ≤ buf.length) :
    ∃ new, ath10kParseParamList (some list) (some key) (some buf) bufLen = some (-1, some new) ∧
      Shows (cutValues key list).getLast? buf new := by
  have hcut : ∀ w ∈ cutValues key list, w.length + 2 ≤ bufLen := by
    intro w hw
    obtain ⟨k, hk⟩ := mem_pairs_of_mem_cutValues hw
    exact hroom _ hk
  have htwo : cutValues key list ≠ [] → 2 ≤ bufLen := by
    intro hne
    obtain ⟨w, hw⟩ := List.exists_mem_of_ne_nil _ hne
    have := hcut w hw
    omega
  refine ⟨_, ath10kParseParamList_eq htwo hbuf, ?_⟩
  by_cases hnil : cutValues key list = []
  · rw [hnil]
    rfl
  · exact foldl_put_last (htwo hnil) hcut hbuf

/-- The buffer holds the last value of the key if it is the last value found. The two differ only in
lists of more than 2147483647 characters. -/
theorem ath10kParseParamList_last_iff (list key : List UInt8) (bufLen : Nat) (h0 : 0 ∉ list)
    (hroom : ∀ p ∈ pairs list, p.2.length + 2 ≤ bufLen) :
    (∀ buf : List UInt8, bufLen ≤ buf.length →
      ∃ ret new, ath10kParseParamList (some list) (some key) (some buf) bufLen =
          some (ret, some new) ∧ Shows (values list key).getLast? buf new) ↔
        (cutValues key list).getLast? = (values list key).getLast? := by
  constructor
  · intro h
    have hbuf : bufLen ≤ (List.replicate bufLen (1 : UInt8)).length := by simp
    obtain ⟨ret, new, hrun, hv⟩ := h _ hbuf
    obtain ⟨new', hrun', hw⟩ := @ath10kParseParamList_shows key list _ bufLen hroom hbuf
    rw [hrun'] at hrun
    cases hrun
    refine Shows.unique ?_ ?_ ?_ hw hv
    · intro w hw
      exact zero_not_mem_of_mem_cutValues h0 (List.mem_of_getLast? hw)
    · intro v hv
      exact zero_not_mem_of_mem_pairs h0 (mem_pairs_of_mem_values (List.mem_of_getLast? hv))
    · exact zero_not_mem_replicate bufLen
  · intro h buf hbuf
    obtain ⟨new, hrun, hw⟩ := @ath10kParseParamList_shows key list buf bufLen hroom hbuf
    rw [h] at hw
    exact ⟨-1, new, hrun, hw⟩

/-- The lookup in a list that an `int` can measure. -/
theorem ath10kParseParamList_of_short (hkey : paramSep ∉ key) (hlist : list.length < 2147483648)
    (hroom : ∀ p ∈ pairs list, p.2.length + 2 ≤ bufLen) (hbuf : bufLen ≤ buf.length) :
    ∃ new, ath10kParseParamList (some list) (some key) (some buf) bufLen = some (-1, some new) ∧
      Shows (values list key).getLast? buf new := by
  rw [← cutValues_eq_values hkey hlist]
  exact ath10kParseParamList_shows hroom hbuf

/-- A key between two others. -/
theorem ath10kParseParamList_last_three :
    ∃ ret new, ath10kParseParamList
        (some [59, 97, 61, 49, 59, 107, 61, 50, 51, 59, 107, 107, 61, 52]) (some [107])
          (some [1, 1, 1, 1]) (4 : Nat) = some (ret, some new) ∧
      Shows (values [59, 97, 61, 49, 59, 107, 61, 50, 51, 59, 107, 107, 61, 52] [107]).getLast?
        [1, 1, 1, 1] new :=
  (ath10kParseParamList_last_iff [59, 97, 61, 49, 59, 107, 61, 50, 51, 59, 107, 107, 61, 52] [107]
    4 (by decide) (by decide)).2 (by decide) [1, 1, 1, 1] (by decide)

/-- A key `k` and an entry whose key is `k` and `N` more characters: the test takes it for `k` if the
distance of its `=` wraps around to one. -/
lemma values_of_wrapped (N : Nat) (hpos : 0 < N) (hN : int32 ((N : Int) + 1) = 1) :
    values (paramSep :: (107 :: List.replicate N 120 ++ kvSep :: [118])) [107] = [] ∧
      pairs (paramSep :: (107 :: List.replicate N 120 ++ kvSep :: [118])) =
        [(107 :: List.replicate N 120, [118])] ∧
      cutValues [107] (paramSep :: (107 :: List.replicate N 120 ++ kvSep :: [118])) = [[118]] := by
  have hkv : kvSep ∉ (107 : UInt8) :: List.replicate N 120 := by simp [kvSep]
  have hsep : paramSep ∉ (107 : UInt8) :: List.replicate N 120 := by simp [paramSep]
  have hall : paramSep ∉ (107 : UInt8) :: List.replicate N 120 ++ kvSep :: [118] := by
    rw [List.mem_append, not_or]
    exact ⟨hsep, by decide⟩
  have hpairs : pairs (paramSep :: (107 :: List.replicate N 120 ++ kvSep :: [118])) =
      [(107 :: List.replicate N 120, [118])] := by
    rw [pairs_of_not_mem hkv hsep, pairs, entries_eq_nil hall]
    rfl
  have hmatch : keyMatches [107] (107 :: List.replicate N 120 ++ kvSep :: [118])
      (kvSep :: [118]) = true := by
    have hdist : ((107 :: List.replicate N 120 ++ kvSep :: [118]).length : Int) -
        (kvSep :: [118]).length = N + 1 := by
      simp only [List.length_append, List.length_cons, List.length_replicate, List.length_nil]
      omega
    rw [keyMatches, hdist, hN]
    simp [uint64]
  refine ⟨?_, hpairs, ?_⟩
  · rw [values, hpairs]
    simp [Nat.ne_of_gt hpos]
  · rw [cutValues_sep hkv, if_pos hmatch, cutValues_eq_nil hall]
    rfl

/-- The list with such an entry, whose value is `v`. -/
lemma ath10kParseParamList_of_wrapped (N : Nat) (hpos : 0 < N) (hN : int32 ((N : Int) + 1) = 1) :
    (∀ p ∈ pairs (paramSep :: (107 :: List.replicate N 120 ++ kvSep :: [118])),
      p.2.length + 2 ≤ 3) ∧
      ¬ ∃ ret new, ath10kParseParamList
          (some (paramSep :: (107 :: List.replicate N 120 ++ kvSep :: [118])))
          (some [107]) (some [1, 1, 1]) (3 : Nat) = some (ret, some new) ∧
        Shows (values (paramSep :: (107 :: List.replicate N 120 ++ kvSep :: [118]))
          [107]).getLast? [1, 1, 1] new := by
  obtain ⟨hvalues, hpairs, hcut⟩ := values_of_wrapped N hpos hN
  rw [hvalues, hpairs]
  refine ⟨by simp, ?_⟩
  rintro ⟨ret, new, hrun, hshows⟩
  rw [ath10kParseParamList_eq (fun _ => by decide) (by decide), hcut] at hrun
  cases hrun
  simp [Shows, put] at hshows

/-- A distance of 4294967297 is stored as 1: the value of an entry with another key is found. -/
theorem ath10kParseParamList_other_key :
    (∀ p ∈ pairs (paramSep :: (107 :: List.replicate 4294967296 120 ++ kvSep :: [118])),
      p.2.length + 2 ≤ 3) ∧
      ¬ ∃ ret new, ath10kParseParamList
          (some (paramSep :: (107 :: List.replicate 4294967296 120 ++ kvSep :: [118])))
          (some [107]) (some [1, 1, 1]) (3 : Nat) = some (ret, some new) ∧
        Shows (values (paramSep :: (107 :: List.replicate 4294967296 120 ++ kvSep :: [118]))
          [107]).getLast? [1, 1, 1] new :=
  ath10kParseParamList_of_wrapped 4294967296 (by decide) (by decide)

end Lookup

end CcodeTest.ParamList
