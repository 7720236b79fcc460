import CcodeTest.Lib.CString
import CcodeTest.Lib.Word

/-!
# Parsing a query

`get_query_value` walks over a query such as `a=1&&b=2` and prints the keys. Each pass scans a pair
at the cursor with `sscanf`, which has no field width, into two buffers of 64 bytes; then the cursor
goes over one `&`, or over the pair and the byte behind it. The query is the memory from its start
on: where the cursor has left it, or a token does not fit its buffer, the outcome is `none`.

The pair at the cursor is `key=value` with everything up to the first `=` as the key, a number of
`&` at its front included. `queryRun_taken`, `queryRun_stop` and `scanPair_pair` say what the loop
does with it.
-/

namespace CcodeTest.Query
open CcodeTest.Lib

/-- `'&'`. -/
def amp : UInt8 := 38

/-- `'='`. -/
def equals : UInt8 := 61

/-- The bytes of `buf[0]` and of `buf[1]`. -/
def bufSize : Nat := 64

/-- `sscanf(p, "%[^=]=%[^&]", buf[0], buf[1])`: the result and the tokens that were stored. A token
needs a byte for its terminator. -/
def scanPair (p : List UInt8) : Option (Int × List UInt8 × List UInt8) :=
  (cText p).bind fun t =>
    let key := t.takeWhile (· != equals)
    if key = [] then some (if t = [] then -1 else 0, [], [])
    else if bufSize ≤ key.length then none
    else
      match t.dropWhile (· != equals) with
      | [] => some (1, key, [])
      | _ :: rest =>
        let value := rest.takeWhile (· != amp)
        if value = [] then some (1, key, [])
        else if bufSize ≤ value.length then none
        else some (2, key, value)

/-- The loop of `get_query_value`; it returns the keys that are printed. `left_len` falls in every
pass and is positive at its start, so that it bounds the passes. -/
def queryLoop : Nat → List UInt8 → Int → Option (List (List UInt8))
  | fuel, p, leftLen =>
    (scanPair p).bind fun first =>
      if first.1 = 2 ∧ leftLen ≥ 3 then
        match fuel with
        | 0 => none
        | fuel + 1 =>
          if p.head? = some amp then queryLoop fuel (p.drop 1) (leftLen - 1)
          else
            (scanPair p).bind fun second =>
              if second.1 = 2 then
                let len := second.2.1.length + second.2.2.length + 2
                (queryLoop fuel (p.drop len) (leftLen - len)).map (second.2.1 :: ·)
              else queryLoop fuel (p.drop 1) (leftLen - 1)
      else some []

/-- `get_query_value`, the keys it prints. -/
def getQueryValue (query : Option (List UInt8)) : Option (List (List UInt8)) :=
  match query with
  | none => some []
  | some query =>
    (strlen query).bind fun n => queryLoop (int32 n).toNat query (int32 n)

/-- The loop with the passes it can make. -/
def queryRun (p : List UInt8) (leftLen : Int) : Option (List (List UInt8)) :=
  queryLoop leftLen.toNat p leftLen

section Passes

variable {p : List UInt8} {leftLen : Int}

/-- Any two numbers of passes that are at least `left_len` give the same. -/
lemma queryLoop_congr {n m : Nat} (hn : leftLen.toNat ≤ n) (hm : leftLen.toNat ≤ m) :
    queryLoop n p leftLen = queryLoop m p leftLen := by
  induction n generalizing m p leftLen with
  | zero =>
    rw [queryLoop.eq_def 0, queryLoop.eq_def m]
    apply Option.bind_congr
    intro r _
    rw [if_neg (by omega), if_neg (by omega)]
  | succ n ih =>
    rw [queryLoop.eq_def (n + 1), queryLoop.eq_def m]
    apply Option.bind_congr
    intro r _
    by_cases h : r.1 = 2 ∧ leftLen ≥ 3
    · rw [if_pos h, if_pos h]
      cases m with
      | zero => omega
      | succ m =>
        have hnext : ∀ p' k, 1 ≤ k → queryLoop n p' (leftLen - (k : Nat)) =
            queryLoop m p' (leftLen - (k : Nat)) := by
          intro p' k hk
          exact ih (by omega) (by omega)
        simp only
        split
        · exact hnext _ 1 (Nat.le_refl 1)
        · apply Option.bind_congr
          intro r' _
          split
          · rw [hnext _ _ (by omega)]
          · exact hnext _ 1 (Nat.le_refl 1)
    · rw [if_neg h, if_neg h]

/-- A pass of the loop. The second scan gives what the first one gave. -/
lemma queryRun_eq (p : List UInt8) (leftLen : Int) : queryRun p leftLen =
    (scanPair p).bind fun r =>
      if r.1 = 2 ∧ leftLen ≥ 3 then
        if p.head? = some amp then queryRun (p.drop 1) (leftLen - 1)
        else
          (queryRun (p.drop (r.2.1.length + r.2.2.length + 2))
            (leftLen - (r.2.1.length + r.2.2.length + 2 : Nat))).map (r.2.1 :: ·)
      else some [] := by
  rw [queryRun, queryLoop.eq_def]
  apply Option.bind_congr
  intro r hr
  by_cases h : r.1 = 2 ∧ leftLen ≥ 3
  · rw [if_pos h, if_pos h]
    obtain ⟨n, hn⟩ : ∃ n, leftLen.toNat = n + 1 := ⟨leftLen.toNat - 1, by omega⟩
    have hnext : ∀ p' k, 1 ≤ k → queryLoop n p' (leftLen - (k : Nat)) =
        queryRun p' (leftLen - (k : Nat)) := by
      intro p' k hk
      exact queryLoop_congr (by omega) (Nat.le_refl _)
    rw [hn]
    simp only
    split
    · exact hnext _ 1 (Nat.le_refl 1)
    · rw [hr, Option.bind_some, if_pos h.1, hnext _ _ (by omega)]
  · rw [if_neg h, if_neg h]

/-- Where no pair is scanned the loop ends. -/
lemma queryRun_of_scan {r : Int × List UInt8 × List UInt8} (h : scanPair p = some r)
    (hr : ¬ (r.1 = 2 ∧ leftLen ≥ 3)) : queryRun p leftLen = some [] := by
  rw [queryRun_eq, h, Option.bind_some, if_neg hr]

/-- The run ends outside when `sscanf` does. -/
lemma queryRun_of_none (h : scanPair p = none) : queryRun p leftLen = none := by
  rw [queryRun_eq, h, Option.bind_none]

end Passes

/-! The pair at the cursor. -/

/-- The two tokens fit their buffers. The value is not scanned without a key. -/
def Fits (key value : List UInt8) : Prop :=
  key.length < bufSize ∧ (key ≠ [] → value.length < bufSize)

section Pair

variable {key value rest after : List UInt8} {leftLen : Int}

/-- What `sscanf` does with a pair. -/
lemma scanPair_pair (hkey : equals ∉ key) (hvalue : amp ∉ value)
    (hrest : ∀ c ∈ rest.head?, c = amp) (h0 : 0 ∉ key ++ equals :: (value ++ rest)) :
    scanPair (key ++ equals :: (value ++ rest) ++ 0 :: after) =
      if key = [] then some (0, [], [])
      else if bufSize ≤ key.length then none
      else if value = [] then some (1, key, [])
      else if bufSize ≤ value.length then none
      else some (2, key, value) := by
  have htoken : (key ++ equals :: (value ++ rest)).takeWhile (· != equals) = key := by
    rw [takeWhile_ne_append hkey, List.takeWhile_cons_of_neg (by simp), List.append_nil]
  have hdrop : (key ++ equals :: (value ++ rest)).dropWhile (· != equals) =
      equals :: (value ++ rest) := by
    rw [dropWhile_ne_append hkey, List.dropWhile_cons_of_neg (by simp)]
  have hvalue' : (value ++ rest).takeWhile (· != amp) = value := by
    rw [takeWhile_ne_append hvalue]
    cases rest with
    | nil => rw [List.takeWhile_nil, List.append_nil]
    | cons c rest =>
      rw [hrest c rfl, List.takeWhile_cons_of_neg (by simp), List.append_nil]
  rw [scanPair, cText_append h0, Option.bind_some]
  simp only [htoken, hdrop, hvalue']
  simp

variable (hkey : equals ∉ key) (hvalue : amp ∉ value) (hrest : ∀ c ∈ rest.head?, c = amp)
  (h0 : 0 ∉ key ++ equals :: (value ++ rest))

include hkey hvalue hrest h0

/-- A pair that fits is read as it is. -/
lemma scanPair_fits (hfits : Fits key value) (hk : key ≠ []) (hv : value ≠ [])
    (after : List UInt8) :
    scanPair (key ++ equals :: (value ++ rest) ++ 0 :: after) = some (2, key, value) := by
  rw [scanPair_pair hkey hvalue hrest h0, if_neg hk, if_neg (Nat.not_le.2 hfits.1), if_neg hv,
    if_neg (Nat.not_le.2 (hfits.2 hk))]

/-- A key or a value that is missing stops the conversion. -/
lemma scanPair_short (hfits : Fits key value) (hkv : ¬ (key ≠ [] ∧ value ≠ []))
    (after : List UInt8) :
    ∃ r, scanPair (key ++ equals :: (value ++ rest) ++ 0 :: after) = some r ∧ r.1 ≠ 2 := by
  rw [scanPair_pair hkey hvalue hrest h0]
  by_cases hk : key = []
  · rw [if_pos hk]
    exact ⟨_, rfl, by decide⟩
  · have hv : value = [] := Classical.byContradiction fun hv => hkv ⟨hk, hv⟩
    rw [if_neg hk, if_neg (Nat.not_le.2 hfits.1), if_pos hv]
    exact ⟨_, rfl, by simp⟩

/-- A pair that does not fit is written outside its buffer. -/
lemma scanPair_unfit (hfits : ¬ Fits key value) (after : List UInt8) :
    scanPair (key ++ equals :: (value ++ rest) ++ 0 :: after) = none := by
  rw [scanPair_pair hkey hvalue hrest h0]
  by_cases hlen : bufSize ≤ key.length
  · have hk : key ≠ [] := by
      rintro rfl
      exact absurd hlen (by decide)
    rw [if_neg hk, if_pos hlen]
  · have hlong : key ≠ [] ∧ bufSize ≤ value.length := by
      refine Classical.byContradiction fun h => hfits ⟨Nat.not_le.1 hlen, ?_⟩
      intro hk
      exact Nat.not_le.1 fun hv => h ⟨hk, hv⟩
    have hv : value ≠ [] := by
      rintro rfl
      exact absurd hlong.2 (by decide)
    rw [if_neg hlong.1, if_neg hlen, if_neg hv, if_pos hlong.2]

/-- The cursor moves over an `&` before the key. -/
lemma queryRun_amp (hfits : Fits (amp :: key) value) (hv : value ≠ []) (hleft : 3 ≤ leftLen) :
    queryRun (amp :: key ++ equals :: (value ++ rest) ++ 0 :: after) leftLen =
      queryRun (key ++ equals :: (value ++ rest) ++ 0 :: after) (leftLen - 1) := by
  have hkey' : equals ∉ amp :: key := by
    rw [List.mem_cons, not_or]
    exact ⟨by decide, hkey⟩
  have h0' : 0 ∉ amp :: key ++ equals :: (value ++ rest) := by
    rw [List.cons_append, List.mem_cons, not_or]
    exact ⟨by decide, h0⟩
  have hfirst : (amp :: key ++ equals :: (value ++ rest) ++ 0 :: after).head? = some amp := rfl
  rw [queryRun_eq, scanPair_fits hkey' hvalue hrest h0' hfits (by simp) hv, Option.bind_some,
    if_pos ⟨rfl, hleft⟩, if_pos hfirst]
  rfl

end Pair

section Amps

variable {key value rest : List UInt8} {a : Nat} {leftLen : Int}

/-- The separators hold nothing else. -/
lemma not_mem_amps {c : UInt8} (hc : c ≠ amp) (h : c ∉ key) : c ∉ List.replicate a amp ++ key := by
  rw [List.mem_append, not_or]
  exact ⟨fun hmem => hc (List.eq_of_mem_replicate hmem), h⟩

/-- They add no NUL. -/
lemma zero_not_mem_amps (a : Nat) (h0 : 0 ∉ key ++ equals :: (value ++ rest)) :
    0 ∉ List.replicate a amp ++ key ++ equals :: (value ++ rest) := by
  rw [List.append_assoc]
  exact not_mem_amps (by decide) h0

/-- A shorter key fits too. -/
lemma fits_tail {c : UInt8} (h : Fits (c :: key) value) : Fits key value := by
  refine ⟨Nat.lt_of_succ_lt h.1, ?_⟩
  intro _
  exact h.2 (by simp)

variable (hkey : equals ∉ key) (hvalue : amp ∉ value) (hrest : ∀ c ∈ rest.head?, c = amp)
  (h0 : 0 ∉ key ++ equals :: (value ++ rest))
  (hfits : Fits (List.replicate a amp ++ key) value)

include hkey hvalue hrest h0 hfits

/-- The loop takes the `&` before a key one by one, and then the pair with the byte behind it. -/
lemma queryRun_taken (hhead : key.head? ≠ some amp) (hk : key ≠ []) (hv : value ≠ [])
    (hleft : (a : Int) + 3 ≤ leftLen) (after : List UInt8) :
    queryRun (List.replicate a amp ++ key ++ equals :: (value ++ rest) ++ 0 :: after) leftLen =
      (queryRun ((rest ++ 0 :: after).drop 1)
        (leftLen - (a + key.length + value.length + 2 : Nat))).map (key :: ·) := by
  induction a generalizing leftLen with
  | zero =>
    have hfirst : (key ++ equals :: (value ++ rest) ++ 0 :: after).head? ≠ some amp := by
      rw [List.append_assoc, List.head?_append_of_ne_nil _ hk]
      exact hhead
    have hdrop : (key ++ equals :: (value ++ rest) ++ 0 :: after).drop
        (key.length + value.length + 2) = (rest ++ 0 :: after).drop 1 := by
      have happ : key ++ equals :: (value ++ rest) ++ 0 :: after =
          (key ++ equals :: value) ++ (rest ++ 0 :: after) := by simp
      have hlen : key.length + value.length + 2 = (key ++ equals :: value).length + 1 := by
        rw [List.length_append, List.length_cons]
        omega
      rw [happ, hlen, List.drop_length_add_append]
    rw [List.replicate_zero, List.nil_append] at hfits ⊢
    rw [queryRun_eq, scanPair_fits hkey hvalue hrest h0 hfits hk hv, Option.bind_some,
      if_pos ⟨rfl, by omega⟩, if_neg hfirst, hdrop, Nat.zero_add]
  | succ a ih =>
    rw [List.replicate_succ, List.cons_append] at hfits ⊢
    rw [queryRun_amp (not_mem_amps (by decide) hkey) hvalue hrest (zero_not_mem_amps a h0) hfits hv
      (by omega), ih (fits_tail hfits) (by omega)]
    congr 2
    omega

/-- Without a key behind the `&`, or without a value, it ends; also when `left_len` runs out. -/
lemma queryRun_stop (hstop : ¬ (key ≠ [] ∧ value ≠ [] ∧ (a : Int) + 3 ≤ leftLen))
    (after : List UInt8) :
    queryRun (List.replicate a amp ++ key ++ equals :: (value ++ rest) ++ 0 :: after) leftLen =
      some [] := by
  induction a generalizing leftLen with
  | zero =>
    rw [List.replicate_zero, List.nil_append] at hfits ⊢
    by_cases hkv : key ≠ [] ∧ value ≠ []
    · have hscan := scanPair_fits hkey hvalue hrest h0 hfits hkv.1 hkv.2 after
      refine queryRun_of_scan hscan fun h => hstop ⟨hkv.1, hkv.2, ?_⟩
      have := h.2
      omega
    · obtain ⟨r, hscan, hr⟩ := scanPair_short hkey hvalue hrest h0 hfits hkv after
      exact queryRun_of_scan hscan fun h => hr h.1
  | succ a ih =>
    have hkey' : equals ∉ List.replicate (a + 1) amp ++ key := not_mem_amps (by decide) hkey
    have h0' := zero_not_mem_amps (a + 1) h0
    by_cases hv : value = []
    · obtain ⟨r, hscan, hr⟩ := scanPair_short hkey' hvalue hrest h0' hfits (fun h => h.2 hv) after
      exact queryRun_of_scan hscan fun h => hr h.1
    · by_cases hleft : 3 ≤ leftLen
      · rw [List.replicate_succ, List.cons_append] at hfits ⊢
        rw [queryRun_amp (not_mem_amps (by decide) hkey) hvalue hrest (zero_not_mem_amps a h0) hfits
          hv hleft]
        apply ih (fits_tail hfits)
        rintro ⟨hk, -, hlen⟩
        exact hstop ⟨hk, hv, by omega⟩
      · have hscan := scanPair_fits hkey' hvalue hrest h0' hfits (by simp) hv after
        exact queryRun_of_scan hscan fun h => hleft h.2

end Amps

section Text

variable {t after : List UInt8}

/-- A text without `=` ends the loop, if it fits the buffer of the key. -/
lemma queryRun_text (ht : equals ∉ t) (h0 : 0 ∉ t) (after : List UInt8) (leftLen : Int) :
    queryRun (t ++ 0 :: after) leftLen = if bufSize ≤ t.length then none else some [] := by
  have hkey : t.takeWhile (· != equals) = t := by
    have h := takeWhile_ne_append ht []
    rwa [List.append_nil, List.takeWhile_nil, List.append_nil] at h
  have hdrop : t.dropWhile (· != equals) = [] := by
    have h := dropWhile_ne_append ht []
    rwa [List.append_nil, List.dropWhile_nil] at h
  have hscan : scanPair (t ++ 0 :: after) =
      if t = [] then some (-1, [], [])
      else if bufSize ≤ t.length then none
      else some (1, t, []) := by
    rw [scanPair, cText_append h0, Option.bind_some]
    simp only [hkey, hdrop]
    by_cases hnil : t = []
    · simp [hnil]
    · simp [hnil]
  by_cases hnil : t = []
  · rw [if_pos hnil] at hscan
    rw [queryRun_of_scan hscan (by simp), hnil]
    rfl
  · rw [if_neg hnil] at hscan
    by_cases hlen : bufSize ≤ t.length
    · rw [if_pos hlen] at hscan ⊢
      exact queryRun_of_none hscan
    · rw [if_neg hlen] at hscan ⊢
      exact queryRun_of_scan hscan (by simp)

/-- Outside the memory nothing can be scanned. -/
lemma queryRun_nil (leftLen : Int) : queryRun [] leftLen = none := queryRun_of_none rfl

/-- The call is the run over the text with its length. -/
lemma getQueryValue_eq (h0 : 0 ∉ t) :
    getQueryValue (some (t ++ 0 :: after)) = queryRun (t ++ 0 :: after) (int32 t.length) := by
  have hlen : strlen (t ++ 0 :: after) = some t.length := by
    rw [strlen, cText_append h0, Option.map_some]
  rw [getQueryValue, hlen, Option.bind_some, queryRun]

end Text

end CcodeTest.Query
