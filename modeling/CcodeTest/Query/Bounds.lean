import CcodeTest.Query.Loop

/-!
# The queries that are parsed inside the buffers

The loop moves behind each pair over a separator that may not be there: after a pair at the end of
the query the next scan starts behind the terminator. So `get_query_value` stays inside the query and
its two buffers only where something ends it before such a pair, and every token up to there fits.
`Inside` describes these queries, and `getQueryValue_inside_iff` says that they are all.
-/

namespace CcodeTest.Query
open CcodeTest.Lib

/-- The pair at the cursor is taken: both parts are there and `left_len` is at least three behind the
`&` that stand before the key. -/
def Taken (leftLen : Int) (key value : List UInt8) : Prop :=
  key.dropWhile (· == amp) ≠ [] ∧ value ≠ [] ∧
    ((key.takeWhile (· == amp)).length : Int) + 3 ≤ leftLen

/-- From the cursor on, with `left_len` left, every scan is inside the query and the buffers. -/
inductive Inside : Int → List UInt8 → Prop where
  /-- There is no further `=`. -/
  | text {leftLen : Int} {t : List UInt8} (ht : equals ∉ t) (hlen : t.length < bufSize) :
      Inside leftLen t
  /-- The next pair is not taken. -/
  | stop {leftLen : Int} {key value rest : List UInt8} (hkey : equals ∉ key) (hvalue : amp ∉ value)
      (hrest : ∀ c ∈ rest.head?, c = amp) (hfits : Fits key value)
      (hstop : ¬ Taken leftLen key value) : Inside leftLen (key ++ equals :: (value ++ rest))
  /-- The next pair is taken, and a separator stands behind it. -/
  | next {leftLen : Int} {key value rest : List UInt8} (hkey : equals ∉ key) (hvalue : amp ∉ value)
      (hfits : Fits key value) (htaken : Taken leftLen key value)
      (hnext : Inside (leftLen - (key.length + value.length + 2 : Nat)) rest) :
      Inside leftLen (key ++ equals :: (value ++ amp :: rest))

section Bounds

variable {key value rest t : List UInt8} {leftLen : Int}

/-- A key is a number of `&` and the rest. -/
lemma amps_append (key : List UInt8) :
    List.replicate (key.takeWhile (· == amp)).length amp ++ key.dropWhile (· == amp) = key := by
  have hall : key.takeWhile (· == amp) =
      List.replicate (key.takeWhile (· == amp)).length amp := by
    rw [List.eq_replicate_iff]
    refine ⟨rfl, ?_⟩
    intro c hc
    exact beq_iff_eq.1 (List.all_eq_true.1 List.all_takeWhile c hc)
  rw [← hall, List.takeWhile_append_dropWhile]

/-- What the key does not hold is not behind its separators either. -/
lemma not_mem_dropWhile {c : UInt8} (h : c ∉ key) : c ∉ key.dropWhile (· == amp) := fun hc =>
  h ((List.dropWhile_sublist _).mem hc)

/-- No NUL comes in when separators are skipped. -/
lemma zero_not_mem_dropWhile (h0 : 0 ∉ key ++ equals :: (value ++ rest)) :
    0 ∉ key.dropWhile (· == amp) ++ equals :: (value ++ rest) := by
  rw [List.mem_append, not_or] at h0 ⊢
  exact ⟨not_mem_dropWhile h0.1, h0.2⟩

/-- Behind the separators something else stands. -/
lemma head?_dropWhile_ne (key : List UInt8) : (key.dropWhile (· == amp)).head? ≠ some amp := by
  intro h
  have := List.head?_dropWhile_not (· == amp) key
  rw [h] at this
  simp at this

/-- What the loop does with a pair that fits, in terms of the whole key. -/
lemma queryRun_of_taken (hkey : equals ∉ key) (hvalue : amp ∉ value)
    (hrest : ∀ c ∈ rest.head?, c = amp) (h0 : 0 ∉ key ++ equals :: (value ++ rest))
    (hfits : Fits key value) (htaken : Taken leftLen key value) (after : List UInt8) :
    queryRun (key ++ equals :: (value ++ rest) ++ 0 :: after) leftLen =
      (queryRun ((rest ++ 0 :: after).drop 1)
        (leftLen - (key.length + value.length + 2 : Nat))).map
          (key.dropWhile (· == amp) :: ·) := by
  obtain ⟨hk, hv, hleft⟩ := htaken
  have hamps := amps_append key
  have hlen := congrArg List.length hamps
  rw [List.length_append, List.length_replicate] at hlen
  rw [← hamps] at hfits
  have h := queryRun_taken (not_mem_dropWhile hkey) hvalue hrest
    (zero_not_mem_dropWhile h0) hfits (head?_dropWhile_ne key) hk hv hleft after
  rw [hamps, hlen] at h
  exact h

/-- A pair that is not taken ends the run. -/
lemma queryRun_of_not_taken (hkey : equals ∉ key) (hvalue : amp ∉ value)
    (hrest : ∀ c ∈ rest.head?, c = amp) (h0 : 0 ∉ key ++ equals :: (value ++ rest))
    (hfits : Fits key value) (hstop : ¬ Taken leftLen key value) (after : List UInt8) :
    queryRun (key ++ equals :: (value ++ rest) ++ 0 :: after) leftLen = some [] := by
  have hamps := amps_append key
  rw [← hamps] at hfits
  have h := queryRun_stop (not_mem_dropWhile hkey) hvalue hrest
    (zero_not_mem_dropWhile h0) hfits hstop after
  rw [hamps] at h
  exact h

/-- Every text has an `=` with a value up to an `&` or the end behind it, or has none. -/
lemma exists_pair (h : equals ∈ t) : ∃ key value rest, t = key ++ equals :: (value ++ rest) ∧
    equals ∉ key ∧ amp ∉ value ∧ ∀ c ∈ rest.head?, c = amp := by
  obtain ⟨key, r, rfl, hkey⟩ := List.eq_append_cons_of_mem h
  refine ⟨key, r.takeWhile (· != amp), r.dropWhile (· != amp), ?_, hkey,
    not_mem_takeWhile_ne r amp, ?_⟩
  · rw [List.takeWhile_append_dropWhile]
  · intro c hc
    have := List.head?_dropWhile_not (· != amp) r
    rw [hc] at this
    simpa using this

/-- A run that ends was inside all the time. -/
lemma inside_of_isSome (h0 : 0 ∉ t) (h : (queryRun (t ++ [0]) leftLen).isSome = true) :
    Inside leftLen t := by
  induction hn : t.length using Nat.strongRecOn generalizing t leftLen with
  | ind n ih =>
    by_cases heq : equals ∈ t
    · obtain ⟨key, value, rest, rfl, hkey, hvalue, hrest⟩ := exists_pair heq
      by_cases hfits : Fits key value
      · by_cases htaken : Taken leftLen key value
        · rw [queryRun_of_taken hkey hvalue hrest h0 hfits htaken] at h
          cases rest with
          | nil =>
            -- the cursor is behind the terminator
            rw [List.nil_append, List.drop_succ_cons, List.drop_zero, queryRun_nil] at h
            cases h
          | cons c rest =>
            have hc := hrest c rfl
            subst hc
            rw [List.cons_append, List.drop_succ_cons, List.drop_zero, Option.isSome_map] at h
            have hlt : rest.length < n := by
              rw [← hn, List.length_append, List.length_cons, List.length_append, List.length_cons]
              omega
            refine .next hkey hvalue hfits htaken (ih rest.length hlt ?_ h rfl)
            intro hmem
            exact h0 (by simp [hmem])
        · exact .stop hkey hvalue hrest hfits htaken
      · rw [queryRun_of_none (scanPair_unfit hkey hvalue hrest h0 hfits [])] at h
        cases h
    · rw [queryRun_text heq h0] at h
      split at h
      · cases h
      · rename_i hlen
        exact .text heq (Nat.not_le.1 hlen)

/-- A text that stays inside gives a run that ends. -/
lemma Inside.isSome (h : Inside leftLen t) (h0 : 0 ∉ t) :
    (queryRun (t ++ [0]) leftLen).isSome = true := by
  induction h with
  | text ht hlen =>
    rw [queryRun_text ht h0, if_neg (Nat.not_le.2 hlen)]
    rfl
  | stop hkey hvalue hrest hfits hstop =>
    rw [queryRun_of_not_taken hkey hvalue hrest h0 hfits hstop]
    rfl
  | @next leftLen key value rest hkey hvalue hfits htaken hnext ih =>
    have hrest : ∀ c ∈ (amp :: rest).head?, c = amp := by
      intro c hc
      exact (Option.some.inj hc).symm
    rw [queryRun_of_taken hkey hvalue hrest h0 hfits htaken, Option.isSome_map]
    exact ih fun hmem => h0 (by simp [hmem])

/-- Every access is inside the query and the buffers exactly for these queries. -/
theorem getQueryValue_inside_iff (query : List UInt8) (h0 : 0 ∉ query) :
    (getQueryValue (some (query ++ [0]))).isSome = true ↔ Inside (int32 query.length) query := by
  rw [getQueryValue_eq h0]
  constructor
  · intro h
    exact inside_of_isSome h0 h
  · intro h
    exact h.isSome h0

/-- A pair with a separator behind it. -/
theorem getQueryValue_inside_pair :
    (getQueryValue (some ([97, equals, 98, amp] ++ [0]))).isSome = true :=
  (getQueryValue_inside_iff [97, equals, 98, amp] (by decide)).2
    (@Inside.next _ [97] [98] [] (by decide) (by decide) ⟨by decide, fun _ => by decide⟩
      ⟨by decide, by decide, by decide⟩ (.text (by decide) (by decide)))

/-- A pair at the end of the query: the last scan starts behind the terminator. -/
theorem getQueryValue_outside : getQueryValue (some ([97, equals, 98] ++ [0])) = none := by
  decide

end Bounds

end CcodeTest.Query
