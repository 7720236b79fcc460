import Mathlib.Data.List.Nodup
import Mathlib.Logic.Function.Basic
import Mathlib.Tactic.TypeStar

/-!
# Rings

Cells that are linked in both directions and lead back to the one they begin with. `edges a l b` are
the links on the way from `a` through `l` to `b`; in a ring every link is there in both directions
(`LinkedRing`). A cell is put between two neighbours or taken out from between them
(`LinkedRing.insert`, `LinkedRing.remove`), a ring without its first cell is appended to another one
(`LinkedRing.concat`), and whoever follows the links comes by all cells and back
(`LinkedRing.follow`).
-/

namespace CcodeTest.Lib

variable {α : Type*} {next next' prev prev' : α → α} {a b s t x : α} {l l₁ l₂ : List α}

/-- The links on the way from `a` through `l` to `b`. -/
def edges (a : α) : List α → α → List (α × α)
  | [], b => [(a, b)]
  | x :: l, b => (a, x) :: edges x l b

/-- The last cell of the way, before `b`. -/
def lastFrom (a : α) : List α → α
  | [] => a
  | x :: l => lastFrom x l

/-- The first cell of the way, behind `a`. -/
def firstTo : List α → α → α
  | [], b => b
  | x :: _, _ => x

lemma lastFrom_append_singleton (a x : α) (l : List α) : lastFrom a (l ++ [x]) = x := by
  induction l generalizing a with
  | nil => rfl
  | cons y l ih => exact ih y

lemma edges_append_cons (a b x : α) (l₁ l₂ : List α) :
    edges a (l₁ ++ x :: l₂) b = edges a l₁ x ++ edges x l₂ b := by
  induction l₁ generalizing a with
  | nil => rfl
  | cons y l₁ ih => exact congrArg ((a, y) :: ·) (ih y)

lemma map_fst_edges (a b : α) (l : List α) : (edges a l b).map Prod.fst = a :: l := by
  induction l generalizing a with
  | nil => rfl
  | cons x l ih => exact congrArg (a :: ·) (ih x)

lemma map_snd_edges (a b : α) (l : List α) : (edges a l b).map Prod.snd = l ++ [b] := by
  induction l generalizing a with
  | nil => rfl
  | cons x l ih => exact congrArg (x :: ·) (ih x)

/-- The way back. -/
lemma edges_reverse (a b : α) (l : List α) :
    edges b l.reverse a = ((edges a l b).map Prod.swap).reverse := by
  induction l generalizing a with
  | nil => rfl
  | cons x l ih =>
    rw [List.reverse_cons, edges_append_cons, ih x]
    exact (List.reverse_cons ..).symm

/-- The link between two parts of a way, and the two that take its place when something is put
there. -/
lemma edges_cut (a b : α) (l₁ l₂ : List α) : ∃ pre post,
    edges a (l₁ ++ l₂) b = pre ++ (lastFrom a l₁, firstTo l₂ b) :: post ∧
      ∀ x, edges a (l₁ ++ x :: l₂) b =
        pre ++ (lastFrom a l₁, x) :: (x, firstTo l₂ b) :: post := by
  induction l₁ generalizing a with
  | nil =>
    cases l₂ with
    | nil => exact ⟨[], [], rfl, fun _ => rfl⟩
    | cons y l₂ => exact ⟨[], edges y l₂ b, rfl, fun _ => rfl⟩
  | cons y l₁ ih =>
    obtain ⟨pre, post, hcut, hput⟩ := ih y
    refine ⟨(a, y) :: pre, post, congrArg ((a, y) :: ·) hcut, ?_⟩
    intro x
    exact congrArg ((a, y) :: ·) (hput x)

/-- The last link of a way. -/
lemma edges_last (a : α) (l : List α) :
    ∃ pre, ∀ b, edges a l b = pre ++ [(lastFrom a l, b)] := by
  induction l generalizing a with
  | nil => exact ⟨[], fun _ => rfl⟩
  | cons y l ih =>
    obtain ⟨pre, hpre⟩ := ih y
    exact ⟨(a, y) :: pre, fun b => congrArg ((a, y) :: ·) (hpre b)⟩

/-- The cells of a ring are different, and each link is there in both directions. -/
structure LinkedRing (next prev : α → α) (a : α) (l : List α) : Prop where
  nodup : (a :: l).Nodup
  link : ∀ p ∈ edges a l a, next p.1 = p.2 ∧ prev p.2 = p.1

lemma mem_of_mem_edges {p : α × α} (hp : p ∈ edges a l a) : p.1 ∈ a :: l ∧ p.2 ∈ a :: l := by
  have hfst : p.1 ∈ (edges a l a).map Prod.fst := List.mem_map_of_mem hp
  have hsnd : p.2 ∈ (edges a l a).map Prod.snd := List.mem_map_of_mem hp
  rw [map_fst_edges] at hfst
  rw [map_snd_edges] at hsnd
  exact ⟨hfst, by simpa [or_comm] using hsnd⟩

/-- Only the cells of the ring matter. -/
lemma LinkedRing.congr (h : LinkedRing next prev a l)
    (hsame : ∀ y ∈ a :: l, next' y = next y ∧ prev' y = prev y) : LinkedRing next' prev' a l := by
  refine ⟨h.nodup, ?_⟩
  intro p hp
  obtain ⟨hfst, hsnd⟩ := mem_of_mem_edges hp
  rw [(hsame _ hfst).1, (hsame _ hsnd).2]
  exact h.link p hp

/-- A ring from the other side. -/
lemma LinkedRing.reverse (h : LinkedRing next prev a l) : LinkedRing prev next a l.reverse := by
  refine ⟨?_, ?_⟩
  · have hnd := h.nodup
    rw [List.nodup_cons] at hnd ⊢
    exact ⟨fun ha => hnd.1 (List.mem_reverse.1 ha), List.nodup_reverse.2 hnd.2⟩
  · intro p hp
    rw [edges_reverse, List.mem_reverse] at hp
    obtain ⟨r, hr, rfl⟩ := List.mem_map.1 hp
    exact (h.link r hr).symm

/-- Other links of a ring begin and end elsewhere. -/
lemma edges_other {pre post : List (α × α)} {p : α × α} (hnd : (a :: l).Nodup)
    (hcut : edges a l a = pre ++ (s, t) :: post) (hp : p ∈ pre ++ post) : p.1 ≠ s ∧ p.2 ≠ t := by
  have hperm : (edges a l a).Perm ((s, t) :: (pre ++ post)) := by
    rw [hcut]
    exact List.perm_middle
  have hfst : (s :: (pre ++ post).map Prod.fst).Nodup := by
    refine (hperm.map Prod.fst).nodup_iff.1 ?_
    rw [map_fst_edges]
    exact hnd
  have hsnd : (t :: (pre ++ post).map Prod.snd).Nodup := by
    refine (hperm.map Prod.snd).nodup_iff.1 ?_
    rw [map_snd_edges]
    exact (List.perm_append_singleton a l).nodup_iff.2 hnd
  exact ⟨ne_of_mem_of_not_mem (List.mem_map_of_mem hp) (List.nodup_cons.1 hfst).1,
    ne_of_mem_of_not_mem (List.mem_map_of_mem hp) (List.nodup_cons.1 hsnd).1⟩

/-- Neighbours at a place of the ring. -/
lemma LinkedRing.at_cut (h : LinkedRing next prev a (l₁ ++ l₂)) :
    next (lastFrom a l₁) = firstTo l₂ a ∧ prev (firstTo l₂ a) = lastFrom a l₁ := by
  obtain ⟨pre, post, hcut, -⟩ := edges_cut a a l₁ l₂
  exact h.link (lastFrom a l₁, firstTo l₂ a) (by simp [hcut])

/-- The last cell leads back to the first one. -/
lemma LinkedRing.at_end (h : LinkedRing next prev a l) :
    next (lastFrom a l) = a ∧ prev a = lastFrom a l := by
  have hring : LinkedRing next prev a (l ++ []) := by rwa [List.append_nil]
  exact hring.at_cut

/-- There and back. -/
lemma LinkedRing.prev_next (h : LinkedRing next prev a l) (hs : s ∈ a :: l) :
    next s ∈ a :: l ∧ prev (next s) = s := by
  rw [← map_fst_edges a a l] at hs
  obtain ⟨p, hp, rfl⟩ := List.mem_map.1 hs
  rw [(h.link p hp).1, (h.link p hp).2]
  exact ⟨(mem_of_mem_edges hp).2, rfl⟩

lemma LinkedRing.next_prev (h : LinkedRing next prev a l) (hs : s ∈ a :: l) :
    prev s ∈ a :: l ∧ next (prev s) = s := by
  have hback := h.reverse.prev_next (by simpa using hs)
  simpa using hback

/-- A ring of one cell is seen from either side. -/
lemma LinkedRing.prev_eq_self (h : LinkedRing next prev a l) : prev a = a ↔ next a = a := by
  have hnext := (h.prev_next List.mem_cons_self).2
  have hprev := (h.next_prev List.mem_cons_self).2
  refine ⟨?_, ?_⟩
  · intro heq
    rwa [heq] at hprev
  · intro heq
    rwa [heq] at hnext

/-- The neighbours of a cell. -/
lemma LinkedRing.at_cell (h : LinkedRing next prev a (l₁ ++ x :: l₂)) :
    prev x = lastFrom a l₁ ∧ next x = firstTo l₂ a := by
  obtain ⟨pre, post, -, hput⟩ := edges_cut a a l₁ l₂
  have hbefore := h.link (lastFrom a l₁, x) (by simp [hput])
  have hbehind := h.link (x, firstTo l₂ a) (by simp [hput])
  exact ⟨hbefore.2, hbehind.1⟩

/-- The neighbours at a place are cells of the ring. -/
lemma mem_of_cut (a : α) (l₁ l₂ : List α) :
    lastFrom a l₁ ∈ a :: (l₁ ++ l₂) ∧ firstTo l₂ a ∈ a :: (l₁ ++ l₂) := by
  obtain ⟨pre, post, hcut, -⟩ := edges_cut a a l₁ l₂
  have hmem : (lastFrom a l₁, firstTo l₂ a) ∈ edges a (l₁ ++ l₂) a := by simp [hcut]
  exact mem_of_mem_edges hmem

lemma perm_put (a x : α) (l₁ l₂ : List α) :
    (a :: (l₁ ++ x :: l₂)).Perm (x :: a :: (l₁ ++ l₂)) :=
  (List.perm_middle.cons a).trans (List.Perm.swap x a _)

/-- A cell does not lead to itself. -/
lemma LinkedRing.next_ne (h : LinkedRing next prev a (l₁ ++ x :: l₂)) : next x ≠ x := by
  have hx := (List.nodup_cons.1 ((perm_put a x l₁ l₂).nodup_iff.1 h.nodup)).1
  rw [h.at_cell.2]
  exact ne_of_mem_of_not_mem (mem_of_cut a l₁ l₂).2 hx

section Update

variable [DecidableEq α]

/-- A new cell between two neighbours. -/
lemma LinkedRing.insert (h : LinkedRing next prev a (l₁ ++ l₂)) (hx : x ∉ a :: (l₁ ++ l₂))
    (hs : s = lastFrom a l₁) (ht : t = firstTo l₂ a) :
    LinkedRing (Function.update (Function.update next x t) s x)
      (Function.update (Function.update prev t x) x s) a (l₁ ++ x :: l₂) := by
  subst hs ht
  obtain ⟨pre, post, hcut, hput⟩ := edges_cut a a l₁ l₂
  obtain ⟨hsmem, htmem⟩ := mem_of_cut a l₁ l₂
  have hsx : lastFrom a l₁ ≠ x := ne_of_mem_of_not_mem hsmem hx
  have htx : firstTo l₂ a ≠ x := ne_of_mem_of_not_mem htmem hx
  refine ⟨?_, ?_⟩
  · rw [(perm_put a x l₁ l₂).nodup_iff]
    exact List.nodup_cons.2 ⟨hx, h.nodup⟩
  · have hkept : ∀ p ∈ pre ++ post,
        Function.update (Function.update next x (firstTo l₂ a)) (lastFrom a l₁) x p.1 = p.2 ∧
          Function.update (Function.update prev (firstTo l₂ a) x) x (lastFrom a l₁) p.2 = p.1 := by
      intro p hp
      have hmem : p ∈ edges a (l₁ ++ l₂) a := by
        rw [hcut]
        rcases List.mem_append.1 hp with hp | hp <;> simp [hp]
      obtain ⟨hs, ht⟩ := edges_other h.nodup hcut hp
      obtain ⟨hfst, hsnd⟩ := mem_of_mem_edges hmem
      rw [Function.update_of_ne hs, Function.update_of_ne (ne_of_mem_of_not_mem hfst hx),
        Function.update_of_ne (ne_of_mem_of_not_mem hsnd hx), Function.update_of_ne ht]
      exact h.link p hmem
    intro p hp
    rw [hput, List.mem_append, List.mem_cons, List.mem_cons] at hp
    rcases hp with hp | rfl | rfl | hp
    · exact hkept p (List.mem_append_left _ hp)
    · exact ⟨Function.update_self .., Function.update_self ..⟩
    · simp [hsx.symm, htx]
    · exact hkept p (List.mem_append_right _ hp)

/-- A cell is taken out from between its neighbours. -/
lemma LinkedRing.remove (h : LinkedRing next prev a (l₁ ++ x :: l₂)) :
    LinkedRing (Function.update next (prev x) (next x)) (Function.update prev (next x) (prev x)) a
      (l₁ ++ l₂) := by
  obtain ⟨hprev, hnext⟩ := h.at_cell
  obtain ⟨pre, post, hcut, hput⟩ := edges_cut a a l₁ l₂
  have hnd : (a :: (l₁ ++ l₂)).Nodup := by
    refine h.nodup.sublist (List.Sublist.cons_cons a ?_)
    exact List.Sublist.append_left (List.sublist_cons_self x l₂) l₁
  rw [hprev, hnext]
  refine ⟨hnd, ?_⟩
  have hkept : ∀ p ∈ pre ++ post,
      Function.update next (lastFrom a l₁) (firstTo l₂ a) p.1 = p.2 ∧
        Function.update prev (firstTo l₂ a) (lastFrom a l₁) p.2 = p.1 := by
    intro p hp
    have hmem : p ∈ edges a (l₁ ++ x :: l₂) a := by
      rw [hput]
      rcases List.mem_append.1 hp with hp | hp <;> simp [hp]
    obtain ⟨hs, ht⟩ := edges_other hnd hcut hp
    rw [Function.update_of_ne hs, Function.update_of_ne ht]
    exact h.link p hmem
  intro p hp
  rw [hcut, List.mem_append, List.mem_cons] at hp
  rcases hp with hp | rfl | hp
  · exact hkept p (List.mem_append_left _ hp)
  · exact ⟨Function.update_self .., Function.update_self ..⟩
  · exact hkept p (List.mem_append_right _ hp)

end Update

/-- The cells of a second ring, without the one it begins with, behind those of the first one. -/
lemma LinkedRing.concat {next₁ next₂ : α → α} (h₁ : LinkedRing next₁ prev a l₁)
    (h₂ : LinkedRing next₂ prev b (x :: l₂)) (hdisj : ∀ y ∈ a :: l₁, y ∉ x :: l₂)
    (hs : next' (lastFrom a l₁) = x ∧ prev' x = lastFrom a l₁)
    (ht : next' (lastFrom x l₂) = a ∧ prev' a = lastFrom x l₂)
    (hsame₁ : ∀ y ∈ a :: l₁,
      (y ≠ lastFrom a l₁ → next' y = next₁ y) ∧ (y ≠ a → prev' y = prev y))
    (hsame₂ : ∀ y ∈ x :: l₂,
      (y ≠ lastFrom x l₂ → next' y = next₂ y) ∧ (y ≠ x → prev' y = prev y)) :
    LinkedRing next' prev' a (l₁ ++ x :: l₂) := by
  obtain ⟨pre₁, hpre₁⟩ := edges_last a l₁
  obtain ⟨pre₂, hpre₂⟩ := edges_last x l₂
  have hkept₁ : ∀ p ∈ pre₁, next' p.1 = p.2 ∧ prev' p.2 = p.1 := by
    intro p hp
    have hmem : p ∈ edges a l₁ a := by
      rw [hpre₁]
      exact List.mem_append_left _ hp
    obtain ⟨hfst, hsnd⟩ := edges_other h₁.nodup (hpre₁ a) (List.mem_append_left _ hp)
    rw [(hsame₁ _ (mem_of_mem_edges hmem).1).1 hfst, (hsame₁ _ (mem_of_mem_edges hmem).2).2 hsnd]
    exact h₁.link p hmem
  have hkept₂ : ∀ p ∈ pre₂, next' p.1 = p.2 ∧ prev' p.2 = p.1 := by
    intro p hp
    have hlast : edges b (x :: l₂) b = ((b, x) :: pre₂) ++ [(lastFrom x l₂, b)] :=
      congrArg ((b, x) :: ·) (hpre₂ b)
    have hfirst : edges b (x :: l₂) b = [] ++ (b, x) :: (pre₂ ++ [(lastFrom x l₂, b)]) :=
      congrArg ((b, x) :: ·) (hpre₂ b)
    have hmem : p ∈ edges b (x :: l₂) b := by
      rw [hlast]
      exact List.mem_append_left _ (List.mem_cons_of_mem _ hp)
    -- it is neither the first link of the second ring nor the last one
    obtain ⟨hfst, hsnd⟩ := edges_other h₂.nodup hlast
      (List.mem_append_left _ (List.mem_cons_of_mem _ hp))
    obtain ⟨hfst', hsnd'⟩ := edges_other h₂.nodup hfirst
      (List.mem_append_right [] (List.mem_append_left [(lastFrom x l₂, b)] hp))
    have hfstmem := (List.mem_cons.1 (mem_of_mem_edges hmem).1).resolve_left hfst'
    have hsndmem := (List.mem_cons.1 (mem_of_mem_edges hmem).2).resolve_left hsnd
    rw [(hsame₂ _ hfstmem).1 hfst, (hsame₂ _ hsndmem).2 hsnd']
    exact h₂.link p hmem
  refine ⟨?_, ?_⟩
  · refine List.nodup_append.2 ⟨h₁.nodup, (List.nodup_cons.1 h₂.nodup).2, ?_⟩
    rintro y hy z hz rfl
    exact hdisj y hy hz
  · intro p hp
    rw [edges_append_cons, hpre₁, hpre₂] at hp
    simp only [List.mem_append, List.mem_singleton] at hp
    rcases hp with (hp | rfl) | (hp | rfl)
    · exact hkept₁ p hp
    · exact hs
    · exact hkept₂ p hp
    · exact ht

/-- Follow the links from a cell on until `a` comes, at most so many. -/
def follow [DecidableEq α] (next : α → α) (a : α) : Nat → α → Option (List α)
  | 0, _ => none
  | n + 1, y => if next y = a then some [] else (follow next a n (next y)).map (next y :: ·)

lemma follow_edges [DecidableEq α] {n : Nat} (hlink : ∀ p ∈ edges b l a, next p.1 = p.2)
    (ha : a ∉ l) (hn : l.length < n) : follow next a n b = some l := by
  induction l generalizing b n with
  | nil =>
    cases n with
    | zero => cases hn
    | succ n =>
      have hnext : next b = a := hlink (b, a) List.mem_cons_self
      rw [follow, if_pos hnext]
  | cons x l ih =>
    cases n with
    | zero => cases hn
    | succ n =>
      have hnext : next b = x := hlink (b, x) List.mem_cons_self
      have hxa : x ≠ a := fun hxa => ha (hxa ▸ List.mem_cons_self)
      have hrest := ih (fun p hp => hlink p (List.mem_cons_of_mem _ hp))
        (fun hmem => ha (List.mem_cons_of_mem x hmem)) (Nat.lt_of_succ_lt_succ hn)
      rw [follow, hnext, if_neg hxa, hrest]
      rfl

/-- Around the ring. -/
lemma LinkedRing.follow [DecidableEq α] {n : Nat} (h : LinkedRing next prev a l)
    (hn : l.length < n) :
    follow next a n a = some l :=
  follow_edges (fun p hp => (h.link p hp).1) (List.nodup_cons.1 h.nodup).1 hn

end CcodeTest.Lib
