import CcodeTest.Query.Loop

/-!
# The keys of a query

A query made of pairs with `&` between them, before the first and after the last. The loop stays in
step with the pairs, whatever the number of separators, as long as `left_len` holds the length of the
query. After the last pair it scans once more: what is left of the separators, or the bytes behind
the terminator. The keys are printed unless that scan overflows a buffer, or the length does not fit
`left_len` (`getQueryValue_keys_iff`).
-/

namespace CcodeTest.Query
open CcodeTest.Lib

/-- A pair of a query, with the number of `&` before it. -/
structure QueryPair where
  amps : Nat
  key : List UInt8
  value : List UInt8
  key_ne : key ≠ []
  equals_not_mem : equals ∉ key
  amp_not_mem : amp ∉ key
  value_ne : value ≠ []
  amp_not_mem_value : amp ∉ value
  zero_not_mem : 0 ∉ key ++ value
  key_fits : amps + key.length < bufSize
  value_fits : value.length < bufSize

/-- The text of a pair. -/
def QueryPair.text (p : QueryPair) : List UInt8 :=
  List.replicate p.amps amp ++ p.key ++ equals :: p.value

/-- The text of a query with `trailing` many `&` at the end. -/
def queryText (ps : List QueryPair) (trailing : Nat) : List UInt8 :=
  (ps.map QueryPair.text).flatten ++ List.replicate trailing amp

/-- The number of characters before the last key. -/
def beforeLastKey : List QueryPair → Nat
  | [] => 0
  | [p] => p.amps
  | p :: q :: ps => p.text.length + beforeLastKey (q :: ps)

/-- The scan after the last pair is inside the memory and the buffers. -/
def LastScan : List QueryPair → Nat → List UInt8 → Prop
  | [], trailing, _ => trailing < bufSize
  | _ :: _, 0, after => (scanPair after).isSome = true
  | _ :: _, trailing + 1, _ => trailing < bufSize

section Keys

variable {p q : QueryPair} {ps : List QueryPair} {trailing : Nat} {after : List UInt8}
  {leftLen : Int}

/-- The pair without one of the `&`. -/
def QueryPair.pred (p : QueryPair) : QueryPair :=
  { p with
    amps := p.amps - 1
    key_fits := Nat.lt_of_le_of_lt (Nat.add_le_add_right (Nat.sub_le ..) _) p.key_fits }

/-- One separator less before a pair. -/
lemma QueryPair.text_pred (h : 1 ≤ p.amps) : p.text = amp :: p.pred.text := by
  have hamps : List.replicate p.amps amp = amp :: List.replicate (p.amps - 1) amp := by
    rw [← List.replicate_succ, Nat.sub_add_cancel h]
  rw [text, hamps]
  rfl

/-- How long a pair is. -/
lemma QueryPair.length_text (p : QueryPair) :
    p.text.length = p.amps + p.key.length + p.value.length + 1 := by
  rw [text, List.length_append, List.length_append, List.length_replicate, List.length_cons]
  omega

/-- `sscanf` takes a pair in one piece. -/
lemma QueryPair.fits (p : QueryPair) : Fits (List.replicate p.amps amp ++ p.key) p.value := by
  refine ⟨?_, fun _ => p.value_fits⟩
  rw [List.length_append, List.length_replicate]
  exact p.key_fits

/-- A key does not begin with a separator. -/
lemma QueryPair.head?_key (p : QueryPair) : p.key.head? ≠ some amp := fun h =>
  p.amp_not_mem (List.mem_of_head? h)

/-- A pair holds no NUL. -/
lemma QueryPair.zero_not_mem_text (p : QueryPair) : 0 ∉ p.text := by
  have h := p.zero_not_mem
  rw [List.mem_append, not_or] at h
  rw [text, List.append_assoc]
  apply not_mem_amps (by decide)
  rw [List.mem_append, List.mem_cons, not_or, not_or]
  exact ⟨h.1, by decide, h.2⟩

/-- Nor does the whole text. -/
lemma zero_not_mem_queryText (ps : List QueryPair) (trailing : Nat) :
    0 ∉ queryText ps trailing := by
  rw [queryText, List.mem_append, not_or]
  constructor
  · intro h
    obtain ⟨t, ht, hmem⟩ := List.mem_flatten.1 h
    obtain ⟨p, -, rfl⟩ := List.mem_map.1 ht
    exact p.zero_not_mem_text hmem
  · intro h
    exact absurd (List.eq_of_mem_replicate h) (by decide)

/-- The text of one more pair. -/
lemma queryText_cons (p : QueryPair) (ps : List QueryPair) (trailing : Nat) :
    queryText (p :: ps) trailing =
      List.replicate p.amps amp ++ p.key ++ equals :: (p.value ++ queryText ps trailing) := by
  simp [queryText, QueryPair.text]

/-- Its length. -/
lemma length_queryText_cons (p : QueryPair) (ps : List QueryPair) (trailing : Nat) :
    (queryText (p :: ps) trailing).length = p.text.length + (queryText ps trailing).length := by
  rw [queryText_cons, p.length_text, List.length_append, List.length_append, List.length_replicate,
    List.length_cons, List.length_append]
  omega

/-- The text with one separator less in front. -/
lemma queryText_pred (h : 1 ≤ q.amps) :
    queryText (q :: ps) trailing = amp :: queryText (q.pred :: ps) trailing := by
  rw [queryText, List.map_cons, List.flatten_cons, QueryPair.text_pred h]
  rfl

/-- The place of the last key then moves by one. -/
lemma beforeLastKey_pred (h : 1 ≤ q.amps) :
    beforeLastKey (q :: ps) = beforeLastKey (q.pred :: ps) + 1 := by
  cases ps with
  | nil => exact (Nat.sub_add_cancel h).symm
  | cons p ps =>
    rw [beforeLastKey, beforeLastKey, QueryPair.text_pred h, List.length_cons]
    omega

/-- The query behind a pair is empty or begins with `&`. -/
lemma head?_queryText (hsep : ∀ p ∈ ps, 1 ≤ p.amps) :
    ∀ c ∈ (queryText ps trailing).head?, c = amp := by
  intro c hc
  cases ps with
  | nil =>
    rw [queryText, List.map_nil, List.flatten_nil, List.nil_append] at hc
    exact List.eq_of_mem_replicate (List.mem_of_head? hc)
  | cons p ps =>
    obtain ⟨n, hn⟩ := Nat.exists_eq_add_of_le' (hsep p (List.mem_cons_self ..))
    rw [queryText_cons, hn, List.replicate_succ] at hc
    exact (Option.some.inj hc).symm

/-- What follows the separators holds no NUL. -/
lemma zero_not_mem_pair (p : QueryPair) (ps : List QueryPair) (trailing : Nat) :
    0 ∉ p.key ++ equals :: (p.value ++ queryText ps trailing) := by
  have h := zero_not_mem_queryText (p :: ps) trailing
  rw [queryText_cons, List.append_assoc, List.mem_append, not_or] at h
  exact h.2

/-- The loop at a pair of the query. -/
lemma queryRun_pair (hsep : ∀ q ∈ ps, 1 ≤ q.amps) (hleft : (p.amps : Int) + 3 ≤ leftLen) :
    queryRun (queryText (p :: ps) trailing ++ 0 :: after) leftLen =
      (queryRun ((queryText ps trailing ++ 0 :: after).drop 1)
        (leftLen - (p.text.length + 1 : Nat))).map (p.key :: ·) := by
  rw [queryText_cons, queryRun_taken p.equals_not_mem p.amp_not_mem_value (head?_queryText hsep)
    (zero_not_mem_pair p ps trailing) p.fits p.head?_key p.key_ne p.value_ne hleft, p.length_text]

/-- The loop stops before a pair when too little is left. -/
lemma queryRun_pair_stop (hsep : ∀ q ∈ ps, 1 ≤ q.amps) (hleft : ¬ (p.amps : Int) + 3 ≤ leftLen) :
    queryRun (queryText (p :: ps) trailing ++ 0 :: after) leftLen = some [] := by
  rw [queryText_cons, queryRun_stop p.equals_not_mem p.amp_not_mem_value (head?_queryText hsep)
    (zero_not_mem_pair p ps trailing) p.fits fun h => hleft h.2.2]

/-- Only separators. -/
lemma queryRun_amps (trailing : Nat) (after : List UInt8) (leftLen : Int) :
    queryRun (List.replicate trailing amp ++ 0 :: after) leftLen = some [] ↔ trailing < bufSize := by
  have hne : ∀ c : UInt8, c ≠ amp → c ∉ List.replicate trailing amp := fun c hc h =>
    hc (List.eq_of_mem_replicate h)
  rw [queryRun_text (hne equals (by decide)) (hne 0 (by decide)), List.length_replicate]
  split
  · simp only [reduceCtorEq, false_iff]
    omega
  · simp only [true_iff]
    omega

/-- With less than three left the loop is over after its scan. -/
lemma queryRun_low {m : List UInt8} (h : leftLen < 3) :
    queryRun m leftLen = some [] ↔ (scanPair m).isSome = true := by
  rw [queryRun_eq]
  cases scanPair m with
  | none => simp
  | some r =>
    rw [Option.bind_some, if_neg fun hr => absurd hr.2 (by omega)]
    simp

/-- The first key is the one read first. -/
lemma map_cons_eq_some {k : List UInt8} {ks : List (List UInt8)}
    {o : Option (List (List UInt8))} :
    o.map (k :: ·) = some (k :: ks) ↔ o = some ks := by
  cases o with
  | none => simp
  | some l => simp

/-- The loop from a pair on. -/
lemma queryRun_keys (hsep : ∀ q ∈ ps, 1 ≤ q.amps)
    (hleft : leftLen ≤ (queryText (p :: ps) trailing).length) :
    queryRun (queryText (p :: ps) trailing ++ 0 :: after) leftLen =
        some ((p :: ps).map QueryPair.key) ↔
      (beforeLastKey (p :: ps) : Int) + 3 ≤ leftLen ∧ LastScan (p :: ps) trailing after := by
  induction ps generalizing p leftLen with
  | nil =>
    rw [length_queryText_cons] at hleft
    by_cases htaken : (p.amps : Int) + 3 ≤ leftLen
    · rw [queryRun_pair hsep htaken, List.map_cons, map_cons_eq_some, beforeLastKey]
      simp only [htaken, true_and]
      cases trailing with
      | zero => exact queryRun_low (by simp [queryText] at hleft; omega)
      | succ n => exact queryRun_amps n after _
    · rw [queryRun_pair_stop hsep htaken, beforeLastKey]
      simp [htaken]
  | cons q ps ih =>
    rw [length_queryText_cons] at hleft
    have hq := hsep q (List.mem_cons_self ..)
    have hps : ∀ p ∈ ps, 1 ≤ p.amps := fun p hp => hsep p (List.mem_cons_of_mem _ hp)
    have hbefore : beforeLastKey (p :: q :: ps) =
        p.text.length + (beforeLastKey (q.pred :: ps) + 1) := by
      rw [beforeLastKey, beforeLastKey_pred hq]
    have hlen := p.length_text
    by_cases htaken : (p.amps : Int) + 3 ≤ leftLen
    · rw [queryText_pred hq, List.length_cons] at hleft
      have hnext := @ih q.pred (leftLen - (p.text.length + 1 : Nat)) hps (by omega)
      rw [queryRun_pair hsep htaken, List.map_cons, map_cons_eq_some, queryText_pred hq,
        List.cons_append, List.drop_succ_cons, List.drop_zero, hbefore]
      refine hnext.trans (and_congr ?_ ?_)
      · omega
      · cases trailing with
        | zero => exact Iff.rfl
        | succ n => exact Iff.rfl
    · rw [queryRun_pair_stop hsep htaken, hbefore]
      constructor
      · intro h
        cases h
      · rintro ⟨h, -⟩
        omega

/-- The keys are printed in order if `left_len` is still at least three at the last one, and the scan
after the last pair stays inside its memory. -/
theorem getQueryValue_keys_iff (ps : List QueryPair) (trailing : Nat) (after : List UInt8)
    (hsep : ∀ p ∈ ps.tail, 1 ≤ p.amps) :
    getQueryValue (some (queryText ps trailing ++ 0 :: after)) = some (ps.map QueryPair.key) ↔
      (ps = [] ∨ (beforeLastKey ps : Int) + 3 ≤ int32 (queryText ps trailing).length) ∧
        LastScan ps trailing after := by
  rw [getQueryValue_eq (zero_not_mem_queryText ps trailing)]
  cases ps with
  | nil =>
    have h := queryRun_amps trailing after (int32 (queryText [] trailing).length)
    simp only [true_or, true_and]
    exact h
  | cons p ps =>
    rw [List.tail_cons] at hsep
    rw [queryRun_keys hsep (int32_le_length _)]
    simp only [List.cons_ne_nil, false_or]

/-- Behind the place of the last key there are three characters or more. -/
lemma beforeLastKey_add_le (p : QueryPair) (ps : List QueryPair) (trailing : Nat) :
    beforeLastKey (p :: ps) + 3 ≤ (queryText (p :: ps) trailing).length := by
  induction ps generalizing p with
  | nil =>
    have hkey := List.length_pos_of_ne_nil p.key_ne
    have hvalue := List.length_pos_of_ne_nil p.value_ne
    rw [length_queryText_cons, p.length_text, beforeLastKey]
    omega
  | cons q ps ih =>
    have hrest := ih q
    rw [length_queryText_cons, beforeLastKey]
    omega

/-- A query that an `int` can measure: its keys are printed if the last scan stays inside. -/
theorem getQueryValue_of_short (hsep : ∀ p ∈ ps.tail, 1 ≤ p.amps)
    (hshort : (queryText ps trailing).length < 2147483648) (hlast : LastScan ps trailing after) :
    getQueryValue (some (queryText ps trailing ++ 0 :: after)) = some (ps.map QueryPair.key) := by
  rw [getQueryValue_eq (zero_not_mem_queryText ps trailing),
    int32_of_range (by omega) (by omega)]
  cases ps with
  | nil => exact (queryRun_amps trailing after _).2 hlast
  | cons p ps =>
    have hle := beforeLastKey_add_le p ps trailing
    rw [List.tail_cons] at hsep
    exact (queryRun_keys hsep (Int.le_refl _)).2 ⟨by omega, hlast⟩

/-- The pairs of the query `a=b=&&a=cd&e=f`. -/
def threePairs : List QueryPair :=
  [⟨0, [97], [98, 61], by decide, by decide, by decide, by decide, by decide, by decide, by decide,
    by decide⟩,
  ⟨2, [97], [99, 100], by decide, by decide, by decide, by decide, by decide, by decide, by decide,
    by decide⟩,
  ⟨1, [101], [102], by decide, by decide, by decide, by decide, by decide, by decide, by decide,
    by decide⟩]

/-- They stand in front of a separator, with nothing after the terminator. -/
theorem getQueryValue_keys_three :
    getQueryValue (some (queryText threePairs 1 ++ 0 :: [])) = some [[97], [97], [101]] :=
  (getQueryValue_keys_iff threePairs 1 [] (by decide)).2
    ⟨Or.inr (by decide), show 0 < bufSize by decide⟩

/-- A pair and 200 separators behind it: 199 of them are scanned into the buffer of the key. -/
theorem getQueryValue_keys_trailing :
    getQueryValue (some (queryText [⟨0, [97], [98], by decide, by decide, by decide, by decide,
      by decide, by decide, by decide, by decide⟩] 200 ++ 0 :: [])) ≠ some [[97]] := by
  decide +kernel

end Keys

end CcodeTest.Query
