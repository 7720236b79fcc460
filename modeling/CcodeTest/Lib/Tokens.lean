import Mathlib.Data.List.DropRight

/-!
# Tokens

The tokens of a text are its non-empty parts between separators. `nextToken` takes them off one after
the other, as `strtok_r` does: it passes over separators, returns what stands before the next one and
continues behind that. Facts about all parts of a text are proved by `split_induction`.
-/

namespace CcodeTest.Lib

variable {α : Type*} [DecidableEq α] {d c : α} {s t u w : List α}

/-- The tokens between the separators `d`. -/
def tokens (d : α) (t : List α) : List (List α) := (t.splitOn d).filter fun w => !w.isEmpty

/-- The first token, if there is one, and the text behind it. -/
def nextToken (d : α) (t : List α) : Option (List α) × List α :=
  let u := t.dropWhile (· == d)
  if u = [] then (none, []) else (some (u.takeWhile (· != d)), (u.dropWhile (· != d)).drop 1)

/-- A text has no separator or starts with a part in front of one. -/
lemma split_induction {P : List α → Prop} (last : ∀ w, d ∉ w → P w)
    (sep : ∀ w t, d ∉ w → P t → P (w ++ d :: t)) (t : List α) : P t := by
  induction hn : t.length using Nat.strongRecOn generalizing t with
  | ind n ih =>
    by_cases h : d ∈ t
    · obtain ⟨w, u, rfl, hw⟩ := List.eq_append_cons_of_mem h
      rw [List.length_append, List.length_cons] at hn
      exact sep w u hw (ih u.length (by omega) u rfl)
    · exact last t h

@[simp] lemma tokens_nil : tokens d [] = [] := rfl

lemma tokens_append (t u : List α) : tokens d (t ++ d :: u) = tokens d t ++ tokens d u := by
  rw [tokens, List.splitOn_append_cons_self, List.filter_append]
  rfl

lemma tokens_cons_self (t : List α) : tokens d (d :: t) = tokens d t := tokens_append [] t

/-- A part without separators is one token. -/
lemma tokens_of_not_mem (h : d ∉ w) (hne : w ≠ []) : tokens d w = [w] := by
  rw [tokens, List.splitOn_eq_singleton h]
  exact List.filter_cons_of_pos (by simpa using hne)

/-- Separators in front do not matter. -/
lemma tokens_seps_append (h : ∀ c ∈ s, c = d) (t : List α) : tokens d (s ++ t) = tokens d t := by
  induction s with
  | nil => rfl
  | cons c s ih =>
    rw [h c (List.mem_cons_self ..), List.cons_append, tokens_cons_self]
    exact ih fun x hx => h x (List.mem_cons_of_mem _ hx)

lemma mem_tokens_of_not_mem (hu : d ∉ u) : w ∈ tokens d u ↔ w = u ∧ u ≠ [] := by
  cases u with
  | nil => simp
  | cons c u =>
    rw [tokens_of_not_mem hu (List.cons_ne_nil _ _), List.mem_singleton]
    exact (and_iff_left (List.cons_ne_nil _ _)).symm

/-- Tokens are not empty, hold no separator and consist of characters of the text. -/
lemma mem_tokens (h : w ∈ tokens d t) : w ≠ [] ∧ d ∉ w ∧ ∀ c ∈ w, c ∈ t := by
  induction t using split_induction (d := d) with
  | last u hu =>
    obtain ⟨rfl, hne⟩ := (mem_tokens_of_not_mem hu).1 h
    exact ⟨hne, hu, fun c hc => hc⟩
  | sep u t hu ih =>
    rw [tokens_append, List.mem_append] at h
    rcases h with h | h
    · obtain ⟨rfl, hne⟩ := (mem_tokens_of_not_mem hu).1 h
      exact ⟨hne, hu, fun c hc => List.mem_append_left _ hc⟩
    · obtain ⟨hne, hw, hmem⟩ := ih h
      exact ⟨hne, hw, fun c hc => List.mem_append_right _ (List.mem_cons_of_mem _ (hmem c hc))⟩

/-- Every other character than the separator stands in a token. -/
lemma exists_token (h : c ∈ t) (hc : c ≠ d) : ∃ w ∈ tokens d t, c ∈ w := by
  induction t using split_induction (d := d) with
  | last u hu => exact ⟨u, (mem_tokens_of_not_mem hu).2 ⟨rfl, List.ne_nil_of_mem h⟩, h⟩
  | sep u t hu ih =>
    rw [tokens_append]
    rcases List.mem_append.1 h with h | h
    · refine ⟨u, List.mem_append_left _ ?_, h⟩
      exact (mem_tokens_of_not_mem hu).2 ⟨rfl, List.ne_nil_of_mem h⟩
    · obtain ⟨w, hw, hcw⟩ := ih ((List.mem_cons.1 h).resolve_left hc)
      exact ⟨w, List.mem_append_right _ hw, hcw⟩

lemma tokens_eq_nil : tokens d t = [] ↔ ∀ c ∈ t, c = d := by
  constructor
  · intro h c hc
    by_contra hne
    obtain ⟨w, hw, -⟩ := exists_token hc hne
    rw [h] at hw
    cases hw
  · intro h
    rw [List.eq_nil_iff_forall_not_mem]
    intro w hw
    obtain ⟨hne, hd, hmem⟩ := mem_tokens hw
    obtain ⟨c, hc⟩ := List.exists_mem_of_ne_nil w hne
    exact hd (h c (hmem c hc) ▸ hc)

/-- A token in front of a separator or at the end. -/
lemma tokens_token_append (h : d ∉ w) (hne : w ≠ []) (hu : u = [] ∨ ∃ r, u = d :: r) :
    tokens d (w ++ u) = w :: tokens d u := by
  rcases hu with rfl | ⟨r, rfl⟩
  · rw [List.append_nil, tokens_of_not_mem h hne, tokens_nil]
  · rw [tokens_append, tokens_of_not_mem h hne, tokens_cons_self]
    rfl

/-- A text consists of separators only, or of a token with separators in front of it and something
behind it that starts with one. -/
lemma nextToken_cases (d : α) (t : List α) :
    (nextToken d t = (none, []) ∧ ∀ c ∈ t, c = d) ∨
    ∃ sp w rest, t = sp ++ (w ++ rest) ∧ (∀ c ∈ sp, c = d) ∧ d ∉ w ∧ w ≠ [] ∧
      (rest = [] ∨ ∃ r, rest = d :: r) ∧ nextToken d t = (some w, rest.drop 1) := by
  have hseps : ∀ c ∈ t.takeWhile (· == d), c = d := by
    intro c hc
    have hall := List.all_eq_true.1 (List.all_takeWhile (p := (· == d)) (l := t)) c hc
    simpa using hall
  have hsplit := List.takeWhile_append_dropWhile (p := (· == d)) (l := t)
  have hhead := List.head?_dropWhile_not (· == d) t
  cases hu : t.dropWhile (· == d) with
  | nil =>
    left
    refine ⟨by rw [nextToken, hu]; rfl, ?_⟩
    rw [hu, List.append_nil] at hsplit
    rw [hsplit] at hseps
    exact hseps
  | cons c v =>
    right
    rw [hu] at hsplit hhead
    have hc : c ≠ d := by simpa using hhead
    refine ⟨t.takeWhile (· == d), (c :: v).takeWhile (· != d), (c :: v).dropWhile (· != d), ?_, hseps,
      ?_, ?_, ?_, ?_⟩
    · rw [List.takeWhile_append_dropWhile, hsplit]
    · intro hd
      have hall := List.all_eq_true.1 (List.all_takeWhile (p := (· != d)) (l := c :: v)) d hd
      simp at hall
    · rw [List.takeWhile_cons_of_pos (by simpa using hc)]
      exact List.cons_ne_nil _ _
    · have hhead' := List.head?_dropWhile_not (· != d) (c :: v)
      cases hr : (c :: v).dropWhile (· != d) with
      | nil => exact .inl rfl
      | cons x r =>
        rw [hr] at hhead'
        exact .inr ⟨r, by simpa using hhead'⟩
    · rw [nextToken, hu]
      exact if_neg (List.cons_ne_nil _ _)

/-- The first token is returned; the others are those of the rest. -/
lemma nextToken_spec (d : α) (t : List α) :
    (nextToken d t = (none, []) ∧ tokens d t = []) ∨
    ∃ w rest, nextToken d t = (some w, rest) ∧ tokens d t = w :: tokens d rest ∧
      rest.length < t.length := by
  rcases nextToken_cases d t with ⟨h, hall⟩ | ⟨sp, w, rest, ht, hsp, hd, hne, hrest, hnext⟩
  · exact .inl ⟨h, tokens_eq_nil.2 hall⟩
  · right
    refine ⟨w, rest.drop 1, hnext, ?_, ?_⟩
    · rw [ht, tokens_seps_append hsp, tokens_token_append hd hne hrest]
      rcases hrest with rfl | ⟨r, rfl⟩
      · rfl
      · rw [tokens_cons_self]
        rfl
    · have hw := List.length_pos_of_ne_nil hne
      rw [ht, List.length_drop, List.length_append, List.length_append]
      omega

/-- A text with a first token. -/
lemma exists_first_token {ws : List (List α)} (h : tokens d t = w :: ws) :
    ∃ sp rest, t = sp ++ (w ++ rest) ∧ (∀ c ∈ sp, c = d) ∧ (rest = [] ∨ ∃ r, rest = d :: r) ∧
      tokens d rest = ws := by
  rcases nextToken_cases d t with ⟨-, hall⟩ | ⟨sp, w', rest, ht, hsp, hd, hne, hrest, -⟩
  · rw [tokens_eq_nil.2 hall] at h
    cases h
  · have htokens := tokens_token_append hd hne hrest
    rw [ht, tokens_seps_append hsp, htokens] at h
    cases h
    exact ⟨sp, rest, ht, hsp, hrest, rfl⟩

end CcodeTest.Lib
