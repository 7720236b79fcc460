import Mathlib.Data.List.Induction

/-!
# Requests that are served in batches

A server is asked by requests and works in batches: a batch that begins takes over everything that
was requested before, and ends well or is broken off. `Served` says of a history that a batch began
in it and ended well; a `Ledger` is what has to be remembered of a history to know which requests
are still open. `served_or_unserved` connects the two.
-/

namespace CcodeTest.Lib

variable {ρ : Type*}

/-- An entry of the history. -/
inductive Note (ρ : Type*) where
  | request (r : ρ)
  | began (k : Nat)
  | ended (k : Nat) (ok : Bool)

/-- The requests that no batch has taken over, those of the current batch, and its number. -/
structure Ledger (ρ : Type*) where
  waiting : List ρ
  serving : List ρ
  cur : Nat

/-- Enter one note. The requests of a batch that is broken off wait again. -/
def Ledger.note (l : Ledger ρ) : Note ρ → Ledger ρ
  | .request r => { l with waiting := l.waiting ++ [r] }
  | .began k => ⟨[], l.serving ++ l.waiting, k⟩
  | .ended k ok =>
    if k = l.cur then
      if ok then { l with serving := [] } else ⟨l.serving ++ l.waiting, [], l.cur⟩
    else l

/-- The ledger of a history. -/
def Ledger.ofNotes (h : List (Note ρ)) : Ledger ρ := h.foldl Ledger.note ⟨[], [], 0⟩

/-- What has not been served. -/
def Ledger.unserved (l : Ledger ρ) : List ρ := l.waiting ++ l.serving

/-- A batch begins in the history and ends well. -/
def Served (h : List (Note ρ)) : Prop :=
  ∃ a k b, h = a ++ .began k :: b ∧ Note.ended k true ∈ b

/-- The ledger of a longer history. -/
@[simp]
lemma Ledger.ofNotes_append (h h' : List (Note ρ)) :
    Ledger.ofNotes (h ++ h') = h'.foldl Ledger.note (Ledger.ofNotes h) :=
  List.foldl_append

/-- An end does not change which batch is the current one. -/
lemma Ledger.note_cur_ended (l : Ledger ρ) (k : Nat) (ok : Bool) :
    (l.note (.ended k ok)).cur = l.cur := by
  unfold Ledger.note
  dsimp only
  split
  · split <;> rfl
  · rfl

/-- An end opens no request. -/
lemma Ledger.mem_unserved_ended {l : Ledger ρ} {k : Nat} {ok : Bool} {r : ρ}
    (h : r ∈ (l.note (.ended k ok)).unserved) : r ∈ l.unserved := by
  unfold Ledger.note Ledger.unserved at *
  dsimp only at h
  split at h
  · split at h
    · exact List.mem_append_left _ (by simpa using h)
    · simpa [or_comm] using h
  · exact h

/-- A batch that ends well leaves what came in after its beginning. -/
lemma Ledger.unserved_ended (l : Ledger ρ) : (l.note (.ended l.cur true)).unserved = l.waiting := by
  simp [Ledger.note, Ledger.unserved]

/-- What was served stays served. -/
lemma Served.append {h : List (Note ρ)} (s : Served h) (n : Note ρ) : Served (h ++ [n]) := by
  obtain ⟨a, k, b, rfl, hb⟩ := s
  exact ⟨a, k, b ++ [n], by simp, List.mem_append_left _ hb⟩

/-- A waiting request is served in the further history, or waits, or is in the current batch, which
began in it. -/
lemma served_or_waiting {l : Ledger ρ} {r : ρ} (hr : r ∈ l.waiting) (h : List (Note ρ)) :
    let l' := h.foldl Ledger.note l
    Served h ∨ r ∈ l'.waiting ∨ r ∈ l'.serving ∧ ∃ a b, h = a ++ .began l'.cur :: b := by
  induction h using List.reverseRecOn with
  | nil => exact .inr (.inl hr)
  | append_singleton h n ih =>
    simp only [List.foldl_append, List.foldl_cons, List.foldl_nil] at ih ⊢
    generalize h.foldl Ledger.note l = l' at ih ⊢
    rcases ih with ih | ih | ⟨hs, a, b, rfl⟩
    · exact .inl (ih.append n)
    · cases n with
      | request q => exact .inr (.inl (List.mem_append_left _ ih))
      | began k => exact .inr (.inr ⟨List.mem_append_right _ ih, h, [], rfl⟩)
      | ended k ok =>
        refine .inr (.inl ?_)
        unfold Ledger.note
        dsimp only
        split
        · split
          · exact ih
          · exact List.mem_append_right _ ih
        · exact ih
    · cases n with
      | request q => exact .inr (.inr ⟨hs, a, b ++ [.request q], by simp [Ledger.note]⟩)
      | began k =>
        exact .inr (.inr ⟨List.mem_append_left _ hs, a ++ .began l'.cur :: b, [], rfl⟩)
      | ended k ok =>
        -- the end of the current batch decides
        by_cases hk : k = l'.cur
        · subst hk
          cases ok with
          | true => exact .inl ⟨a, l'.cur, b ++ [.ended l'.cur true], by simp, by simp⟩
          | false =>
            refine .inr (.inl ?_)
            simp only [Ledger.note, if_true, Bool.false_eq_true, if_false]
            exact List.mem_append_left _ hs
        · refine .inr (.inr ?_)
          simp only [Ledger.note, if_neg hk]
          exact ⟨hs, a, b ++ [.ended k ok], by simp⟩

/-- A request of the history is served after it, or is still open. -/
lemma served_or_unserved (a b : List (Note ρ)) (r : ρ) :
    Served b ∨ r ∈ (Ledger.ofNotes (a ++ .request r :: b)).unserved := by
  rw [Ledger.ofNotes_append, List.foldl_cons]
  have hr : r ∈ ((Ledger.ofNotes a).note (.request r)).waiting :=
    List.mem_append_right _ (List.mem_singleton_self r)
  rcases served_or_waiting hr b with h | h | ⟨h, -⟩
  · exact .inl h
  · exact .inr (List.mem_append_left _ h)
  · exact .inr (List.mem_append_right _ h)

end CcodeTest.Lib
