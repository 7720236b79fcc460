import CcodeTest.ParamList.Lookup

/-!
# Values that do not fit, and the result

The copying loop counts a character before it copies it, and leaves when the count reaches
`buf_len - 1`: the cell before the terminator is then not written. So a value arrives as a prefix
only if it is two characters shorter than the buffer (`ath10kParseParamList_prefix_iff`). The result
is -1 in every case, also when a value has been copied (`ath10kParseParamList_result_iff`).
-/

namespace CcodeTest.ParamList
open CcodeTest.Lib

section Truncation

variable {key list old buf v w : List UInt8} {ws : List (List UInt8)} {n bufLen : Nat}

/-- A value that is copied whole is the prefix only if it is the value looked for. -/
lemma prefix_put_short (hv : 0 ∉ v) (hw : 0 ∉ w) (hlen : w.length < n) (hold : n < old.length) :
    v.take n ++ [0] <+: put n old w ↔ w = v := by
  have hput := put_short hlen hold
  constructor
  · intro h
    have heq := prefix_zero_inj (fun hz => hv (List.mem_of_mem_take hz)) hw h hput
    have hcut : (v.take n).length < n := by rw [heq]; exact hlen
    rw [List.length_take] at hcut
    rw [← heq, List.take_of_length_le (by omega)]
  · rintro rfl
    rw [List.take_of_length_le (Nat.le_of_lt hlen)]
    exact hput

lemma length_take_pred (hlen : n ≤ w.length) : (w.take (n - 1)).length = n - 1 := by
  rw [List.length_take]
  omega

/-- Of one that is cut, a shorter value is a prefix only by what the buffer held before: the cell
that is left has to be the terminator. -/
lemma prefix_put_long (hn : 1 ≤ n) (hw : 0 ∉ w) (hlen : n ≤ w.length) (hold : n < old.length)
    (hshort : v.length < n) :
    v ++ [0] <+: put n old w ↔ v.length + 1 = n ∧ v <+: w ∧ old[n - 1]? = some 0 := by
  obtain ⟨x, rest, hx, hput⟩ := put_long hn hlen hold
  have htake := length_take_pred hlen
  rw [hput, hx, Option.some.injEq]
  constructor
  · intro h
    rw [List.prefix_iff_eq_take, List.length_append, List.length_singleton] at h
    rcases Nat.lt_or_ge v.length (n - 1) with hlt | hge
    · -- the terminator would be a character of `w`
      rw [List.take_append_of_le_length (by omega)] at h
      have hmem : 0 ∈ (w.take (n - 1)).take (v.length + 1) := by
        rw [← h]
        simp
      exact absurd (List.mem_of_mem_take (List.mem_of_mem_take hmem)) hw
    · have heq : v.length + 1 = (w.take (n - 1)).length + 1 := by omega
      rw [heq, List.take_length_add_append, List.take_succ_cons, List.take_zero] at h
      obtain ⟨hv, hzero⟩ := List.append_inj' h rfl
      refine ⟨by omega, ?_, (List.cons.inj hzero).1.symm⟩
      rw [hv]
      exact List.take_prefix ..
  · rintro ⟨hv, hpre, rfl⟩
    rw [List.prefix_iff_eq_take, show v.length = n - 1 by omega] at hpre
    refine ⟨0 :: rest, ?_⟩
    rw [← hpre, List.append_assoc]
    rfl

/-- A value that is cut itself does not have the terminator in that cell. -/
lemma not_prefix_put_long (hn : 1 ≤ n) (hv : 0 ∉ v) (hlen : n ≤ w.length) (hold : n < old.length)
    (hlong : n ≤ v.length) (hcell : old[n - 1]? = some 0) : ¬ v.take n ++ [0] <+: put n old w := by
  intro h
  obtain ⟨x, rest, hx, hput⟩ := put_long hn hlen hold
  rw [hcell] at hx
  cases hx
  have hpre : v.take n <+: w.take (n - 1) ++ 0 :: 0 :: rest := by
    rw [← hput]
    exact (List.prefix_append ..).trans h
  rw [List.prefix_iff_eq_take, List.length_take, Nat.min_eq_left hlong] at hpre
  have hmem : 0 ∈ (w.take (n - 1) ++ 0 :: 0 :: rest).take n := by
    rw [List.take_append, length_take_pred hlen, show n - (n - 1) = 1 by omega]
    simp
  rw [← hpre] at hmem
  exact hv (List.mem_of_mem_take hmem)

/-- The last of the values is copied whole. -/
lemma foldl_put_short (hv : 0 ∉ v) (hw : 0 ∉ w) (hlen : w.length < n) :
    (∀ buf : List UInt8, n < buf.length → v.take n ++ [0] <+: (ws ++ [w]).foldl (put n) buf) ↔
      w = v := by
  have hput : ∀ buf : List UInt8, n < buf.length →
      (v.take n ++ [0] <+: (ws ++ [w]).foldl (put n) buf ↔ w = v) := by
    intro buf hbuf
    rw [List.foldl_append]
    refine prefix_put_short hv hw hlen ?_
    rw [length_foldl_put (Nat.le_of_lt hbuf)]
    exact hbuf
  constructor
  · intro h
    have hbuf : n < (List.replicate (n + 1) (1 : UInt8)).length := by simp
    exact (hput _ hbuf).1 (h _ hbuf)
  · intro h buf hbuf
    exact (hput buf hbuf).2 h

/-- The last of the values is cut. -/
lemma foldl_put_long (hn : 1 ≤ n) (hv : 0 ∉ v) (hw : 0 ∉ w) (hlen : n ≤ w.length) :
    (∀ buf : List UInt8, n < buf.length → v.take n ++ [0] <+: (ws ++ [w]).foldl (put n) buf) ↔
      v.length + 1 = n ∧ v <+: w ∧ ∃ w' ∈ ws, w'.length = v.length := by
  have hlast : ∀ buf : List UInt8, n < buf.length → n < (ws.foldl (put n) buf).length := by
    intro buf hbuf
    rw [length_foldl_put (Nat.le_of_lt hbuf)]
    exact hbuf
  simp only [List.foldl_append, List.foldl_cons, List.foldl_nil]
  constructor
  · intro h
    rcases Nat.lt_or_ge v.length n with hshort | hlong
    · -- a buffer without zeros: an earlier value has put one into the cell
      have hbuf : n < (List.replicate (n + 1) (1 : UInt8)).length := by simp
      have hpre := h _ hbuf
      rw [List.take_of_length_le (Nat.le_of_lt hshort),
        prefix_put_long hn hw hlen (hlast _ hbuf) hshort] at hpre
      obtain ⟨hone, hbegin, hcell⟩ := hpre
      refine ⟨hone, hbegin, ?_⟩
      rcases foldl_put_cell ws hn hbuf with ⟨-, w', hw', hlen'⟩ | ⟨heq, -⟩
      · exact ⟨w', hw', by omega⟩
      · rw [heq] at hcell
        exact absurd (List.mem_of_getElem? hcell) (zero_not_mem_replicate _)
    · -- a buffer of zeros: the cell holds one in any case
      have hbuf : n < (List.replicate (n + 1) (0 : UInt8)).length := by simp
      have hcell : (ws.foldl (put n) (List.replicate (n + 1) 0))[n - 1]? = some 0 := by
        rcases foldl_put_cell ws hn hbuf with ⟨hcell, -⟩ | ⟨heq, -⟩
        · exact hcell
        · rw [heq, List.getElem?_replicate, if_pos (by omega)]
      exact absurd (h _ hbuf) (not_prefix_put_long hn hv hlen (hlast _ hbuf) hlong hcell)
  · rintro ⟨hone, hbegin, w', hw', hlen'⟩ buf hbuf
    rw [List.take_of_length_le (by omega),
      prefix_put_long hn hw hlen (hlast buf hbuf) (by omega)]
    refine ⟨hone, hbegin, ?_⟩
    rcases foldl_put_cell ws hn hbuf with ⟨hcell, -⟩ | ⟨-, hall⟩
    · exact hcell
    · exact absurd (show w'.length = n - 1 by omega) (hall w' hw')

/-- A value that the key has once arrives as a prefix if it is two characters shorter than the buffer
and is the last value found. (If a longer value is found after it, and begins with it, then the
terminator of an earlier one may be left in place.) -/
theorem ath10kParseParamList_prefix_iff (list key v : List UInt8) (bufLen : Nat) (h0 : 0 ∉ list)
    (hone : values list key = [v]) (htwo : 2 ≤ bufLen) :
    (∀ buf : List UInt8, bufLen ≤ buf.length →
      ∃ ret new, ath10kParseParamList (some list) (some key) (some buf) bufLen =
          some (ret, some new) ∧ v.take (bufLen - 1) ++ [0] <+: new) ↔
        v.length + 2 ≤ bufLen ∧ ∃ w, (cutValues key list).getLast? = some w ∧
          (w = v ∨ v.length + 2 = bufLen ∧ v <+: w ∧
            ∃ w' ∈ (cutValues key list).dropLast, w'.length = v.length) := by
  have hv0 : 0 ∉ v := zero_not_mem_of_mem_pairs h0
    (mem_pairs_of_mem_values (by rw [hone]; exact List.mem_singleton_self v))
  obtain ⟨n, rfl⟩ := Nat.exists_eq_add_of_le' (Nat.le_of_succ_le htwo)
  have hrun : (∀ buf : List UInt8, n + 1 ≤ buf.length →
      ∃ ret new, ath10kParseParamList (some list) (some key) (some buf) (n + 1 : Nat) =
        some (ret, some new) ∧ v.take n ++ [0] <+: new) ↔
      ∀ buf : List UInt8, n < buf.length →
        v.take n ++ [0] <+: (cutValues key list).foldl (put n) buf := by
    refine forall_congr' fun buf => forall_congr' fun hbuf => ?_
    rw [ath10kParseParamList_eq (fun _ => htwo) hbuf]
    simp
  rw [Nat.add_sub_cancel, hrun]
  rcases List.eq_nil_or_concat' (cutValues key list) with hnil | ⟨ws, w, hws⟩
  · -- nothing is found, and the buffer need not have a terminator
    rw [hnil]
    constructor
    · intro h
      have hpre := h (List.replicate (n + 1) 1) (by simp)
      exact absurd (hpre.mem (by simp)) (zero_not_mem_replicate (n + 1))
    · rintro ⟨-, w, hw, -⟩
      cases hw
  · have hw0 : 0 ∉ w := zero_not_mem_of_mem_cutValues h0 (by rw [hws]; simp)
    rw [hws, List.getLast?_concat, List.dropLast_concat]
    simp only [Option.some.injEq, exists_eq_left']
    rcases Nat.lt_or_ge w.length n with hshort | hlong
    · rw [foldl_put_short hv0 hw0 hshort]
      constructor
      · rintro rfl
        exact ⟨by omega, Or.inl rfl⟩
      · rintro ⟨-, rfl | ⟨hlen, hbegin, -⟩⟩
        · rfl
        · exact (hbegin.eq_of_length_le (by omega)).symm
    · rw [foldl_put_long (by omega) hv0 hw0 hlong]
      constructor
      · rintro ⟨hlen, hrest⟩
        exact ⟨by omega, Or.inr ⟨by omega, hrest⟩⟩
      · rintro ⟨hlen, rfl | ⟨hlen', hrest⟩⟩
        · omega
        · exact ⟨by omega, hrest⟩

/-- A value of one character in a buffer for three. -/
theorem ath10kParseParamList_prefix_one :
    ∃ ret new, ath10kParseParamList (some [59, 107, 61, 118]) (some [107]) (some [1, 1, 1])
        (3 : Nat) = some (ret, some new) ∧ [118].take (3 - 1) ++ [0] <+: new :=
  (ath10kParseParamList_prefix_iff [59, 107, 61, 118] [107] [118] 3 (by decide) (by decide)
    (by decide)).2 ⟨by decide, [118], by decide, Or.inl rfl⟩ [1, 1, 1] (by decide)

/-- The same value in a buffer for two: its character is not copied. -/
theorem ath10kParseParamList_gap :
    values [59, 107, 61, 118] [107] = [[118]] ∧
      ¬ ∃ ret new, ath10kParseParamList (some [59, 107, 61, 118]) (some [107]) (some [1, 1])
          (2 : Nat) = some (ret, some new) ∧ [118].take (2 - 1) ++ [0] <+: new := by
  refine ⟨by decide, ?_⟩
  rintro ⟨ret, new, hrun, hpre⟩
  have heq : ath10kParseParamList (some [59, 107, 61, 118]) (some [107]) (some [1, 1]) (2 : Nat) =
      some (-1, some [1, 0]) := by decide
  rw [heq] at hrun
  cases hrun
  exact absurd hpre (by decide)

/-! The result. -/

lemma zero_mem_put (hold : n < old.length) : 0 ∈ put n old w := by
  rw [put]
  apply List.mem_set
  simp only [List.length_append, List.length_take, List.length_drop]
  omega

/-- The result tells the outcome only of a lookup that finds nothing. -/
theorem ath10kParseParamList_result_iff (list key : List UInt8) (bufLen : Nat)
    (htwo : 2 ≤ bufLen) :
    (∀ buf : List UInt8, bufLen ≤ buf.length →
      ∃ ret new, ath10kParseParamList (some list) (some key) (some buf) bufLen =
          some (ret, some new) ∧ (0 ≤ ret ↔ values list key ≠ []) ∧ (ret = -1 → new = buf)) ↔
        values list key = [] ∧ cutValues key list = [] := by
  constructor
  · intro h
    obtain ⟨ret, new, hrun, hret, hnew⟩ := h (List.replicate bufLen 1) (by simp)
    rw [ath10kParseParamList_eq (fun _ => htwo) (by simp)] at hrun
    cases hrun
    refine ⟨?_, ?_⟩
    · apply Classical.byContradiction
      intro hne
      exact absurd (hret.2 hne) (by decide)
    · rcases List.eq_nil_or_concat' (cutValues key list) with hnil | ⟨ws, w, hws⟩
      · exact hnil
      · -- the terminator of the last value is not in the buffer that was passed
        have hlen := @length_foldl_put (List.replicate bufLen 1) ws (bufLen - 1) (by simp)
        rw [List.length_replicate] at hlen
        have hmem : 0 ∈ (cutValues key list).foldl (put (bufLen - 1)) (List.replicate bufLen 1) := by
          rw [hws, List.foldl_append]
          exact zero_mem_put (by omega)
        rw [hnew rfl] at hmem
        exact absurd hmem (zero_not_mem_replicate bufLen)
  · rintro ⟨hvalues, hcut⟩ buf hbuf
    refine ⟨_, _, ath10kParseParamList_eq (fun _ => htwo) hbuf, ?_, ?_⟩
    · rw [hvalues]
      decide
    · intro _
      rw [hcut]
      rfl

/-- A list without the key. -/
theorem ath10kParseParamList_result_absent :
    ∃ ret new, ath10kParseParamList (some [59, 107, 61, 118]) (some [97]) (some [1, 1, 1])
          (3 : Nat) = some (ret, some new) ∧ (0 ≤ ret ↔ values [59, 107, 61, 118] [97] ≠ []) ∧
        (ret = -1 → new = [1, 1, 1]) :=
  (ath10kParseParamList_result_iff [59, 107, 61, 118] [97] 3 (by decide)).2 (by decide) [1, 1, 1]
    (by decide)

/-- A list with the key: the value is copied and the result is -1. -/
theorem ath10kParseParamList_result_found :
    ¬ ∃ ret new, ath10kParseParamList (some [59, 107, 61, 118]) (some [107]) (some [1, 1, 1])
          (3 : Nat) = some (ret, some new) ∧ (0 ≤ ret ↔ values [59, 107, 61, 118] [107] ≠ []) ∧
        (ret = -1 → new = [1, 1, 1]) := by
  rintro ⟨ret, new, hrun, -, hnew⟩
  have heq : ath10kParseParamList (some [59, 107, 61, 118]) (some [107]) (some [1, 1, 1])
      (3 : Nat) = some (-1, some [118, 0, 1]) := by decide
  rw [heq] at hrun
  cases hrun
  exact absurd (hnew rfl) (by decide)

end Truncation

end CcodeTest.ParamList
