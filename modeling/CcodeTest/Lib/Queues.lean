import CcodeTest.Lib.Ring
import CcodeTest.Lib.Transition
import Mathlib.Tactic.Tauto

/-!
# Queues

Elements in queues that have names, each in one queue at most and once there. This is what linked
structures are for, whatever their links are: an element that is in no queue is put at either end or
beside an element, an element is taken out wherever it is, and the elements of one queue are
appended to another one.

In memory the queues are rings that begin with a head (`LinkedRings`), and these operations put a
cell between two neighbours or take one out.
-/

namespace CcodeTest.Lib

variable {η ε : Type*}

/-- What is done with the queues. -/
inductive QueueOp (η ε : Type*)
  | init (h : η)
  | insertHead (h : η) (e : ε)
  | insertTail (h : η) (e : ε)
  | insertAfter (h : η) (x e : ε)
  | insertBefore (h : η) (x e : ε)
  | remove (h : η) (e : ε)
  | concat (h₁ h₂ : η)
deriving DecidableEq

variable [DecidableEq η]

/-- What it makes of them. -/
inductive QueueStep : (η → List ε) → QueueOp η ε → (η → List ε) → Prop
  | init (q : η → List ε) (h : η) : QueueStep q (.init h) (Function.update q h [])
  | insertHead {q : η → List ε} {e : ε} (h : η) :
      (∀ h, e ∉ q h) → QueueStep q (.insertHead h e) (Function.update q h (e :: q h))
  | insertTail {q : η → List ε} {e : ε} (h : η) :
      (∀ h, e ∉ q h) → QueueStep q (.insertTail h e) (Function.update q h (q h ++ [e]))
  | insertAfter {q : η → List ε} {h : η} {x e : ε} {l₁ l₂ : List ε} :
      q h = l₁ ++ x :: l₂ → (∀ h, e ∉ q h) →
      QueueStep q (.insertAfter h x e) (Function.update q h (l₁ ++ x :: e :: l₂))
  | insertBefore {q : η → List ε} {h : η} {x e : ε} {l₁ l₂ : List ε} :
      q h = l₁ ++ x :: l₂ → (∀ h, e ∉ q h) →
      QueueStep q (.insertBefore h x e) (Function.update q h (l₁ ++ e :: x :: l₂))
  | remove {q : η → List ε} {h : η} {e : ε} {l₁ l₂ : List ε} :
      q h = l₁ ++ e :: l₂ → QueueStep q (.remove h e) (Function.update q h (l₁ ++ l₂))
  | concat (q : η → List ε) {h₁ h₂ : η} :
      h₁ ≠ h₂ → QueueStep q (.concat h₁ h₂)
        (Function.update (Function.update q h₁ (q h₁ ++ q h₂)) h₂ [])

/-- The runs of such operations on queues that are empty at first. -/
abbrev QueueRun (ops : List (QueueOp η ε)) (q : η → List ε) : Prop :=
  Trace QueueStep (fun _ => []) ops q

/-- A cell of the rings: the head of a queue, or an element. -/
inductive Slot (η ε : Type*)
  | head (h : η)
  | elm (e : ε)
deriving DecidableEq

/-- The cells of a queue behind its head. -/
def cells (l : List ε) : List (Slot η ε) := l.map .elm

/-- Every queue is a ring, and no two of them have an element in common. What a link means may
depend on the queue it is in. -/
structure LinkedRings (next : η → Slot η ε → Slot η ε) (prev : Slot η ε → Slot η ε)
    (q : η → List ε) : Prop where
  ring : ∀ h, LinkedRing (next h) prev (.head h) (cells (q h))
  disjoint : ∀ h h', h ≠ h' → ∀ e ∈ q h, e ∉ q h'

section LinkedRings

variable {next next' : η → Slot η ε → Slot η ε} {prev prev' : Slot η ε → Slot η ε}
  {q : η → List ε} {h : η} {e x : ε} {s : Slot η ε} {l l₁ l₂ : List ε}

omit [DecidableEq η] in
@[simp] lemma cells_nil : (cells [] : List (Slot η ε)) = [] := rfl

omit [DecidableEq η] in
@[simp] lemma cells_append : (cells (l₁ ++ l₂) : List (Slot η ε)) = cells l₁ ++ cells l₂ :=
  List.map_append

omit [DecidableEq η] in
@[simp] lemma cells_cons : (cells (e :: l) : List (Slot η ε)) = .elm e :: cells l := rfl

omit [DecidableEq η] in
@[simp] lemma elm_mem_cells : (.elm e : Slot η ε) ∈ cells l ↔ e ∈ l := by
  simp [cells]

omit [DecidableEq η] in
@[simp] lemma head_not_mem_cells : (.head h : Slot η ε) ∉ cells l := by
  simp [cells]

omit [DecidableEq η] in
/-- The cells of a queue read backwards. -/
lemma cells_reverse : (cells l : List (Slot η ε)).reverse = cells l.reverse :=
  List.map_reverse.symm

omit [DecidableEq η] in
/-- The cells tell the elements. -/
lemma cells_injective : Function.Injective (cells : List ε → List (Slot η ε)) :=
  List.map_injective_iff.2 fun _ _ heq => Slot.elm.inj heq

/-- One queue has changed, and only its cells have been written. -/
lemma LinkedRings.set (hr : LinkedRings next prev q)
    (hring : LinkedRing (next' h) prev' (.head h) (cells l))
    (hnew : ∀ h', h' ≠ h → ∀ e ∈ l, e ∉ q h')
    (hsame : ∀ s, s ∉ .head h :: cells (q h ++ l) →
      (∀ h', next' h' s = next h' s) ∧ prev' s = prev s) :
    LinkedRings next' prev' (Function.update q h l) := by
  refine ⟨?_, ?_⟩
  · intro h'
    by_cases hh : h' = h
    · subst hh
      rw [Function.update_self]
      exact hring
    · rw [Function.update_of_ne hh]
      refine (hr.ring h').congr ?_
      intro s hs
      have hout : s ∉ .head h :: cells (q h ++ l) := by
        cases s with
        | head h'' => simp_all
        | elm e =>
          have he : e ∈ q h' := by simpa using hs
          have hl : e ∉ l := fun hmem => hnew h' hh e hmem he
          simp [hr.disjoint h' h hh e he, hl]
      exact ⟨(hsame s hout).1 h', (hsame s hout).2⟩
  · intro h₁ h₂ hne e he
    by_cases hh₁ : h₁ = h
    · subst hh₁
      rw [Function.update_self] at he
      rw [Function.update_of_ne hne.symm]
      exact hnew h₂ hne.symm e he
    · rw [Function.update_of_ne hh₁] at he
      by_cases hh₂ : h₂ = h
      · subst hh₂
        rw [Function.update_self]
        exact fun hmem => hnew h₁ hh₁ e hmem he
      · rw [Function.update_of_ne hh₂]
        exact hr.disjoint h₁ h₂ hne e he

omit [DecidableEq η] in
/-- At first every head is linked with itself. -/
lemma LinkedRings.empty (hinit : ∀ h, next h (.head h) = .head h ∧ prev (.head h) = .head h) :
    LinkedRings next prev fun _ => [] := by
  refine ⟨?_, ?_⟩
  · intro h
    refine ⟨List.nodup_singleton _, ?_⟩
    intro p hp
    cases List.mem_singleton.1 hp
    exact hinit h
  · intro h h' _ e he
    cases he

/-- The head of an empty queue is linked with itself. -/
lemma LinkedRings.init (hr : LinkedRings next prev q)
    (hhead : next' h (.head h) = .head h ∧ prev' (.head h) = .head h)
    (hsame : ∀ s, s ≠ .head h → (∀ h', next' h' s = next h' s) ∧ prev' s = prev s) :
    LinkedRings next' prev' (Function.update q h []) := by
  refine hr.set ⟨List.nodup_singleton _, ?_⟩ ?_ ?_
  · intro p hp
    cases List.mem_singleton.1 hp
    exact hhead
  · intro h' _ e he
    cases he
  · intro s hs
    exact hsame s fun heq => hs (heq ▸ List.mem_cons_self)

variable [DecidableEq ε]

/-- An element has been linked between the cell `s` and the one behind it. -/
structure LinkedAt (next : η → Slot η ε → Slot η ε) (prev : Slot η ε → Slot η ε) (h : η)
    (s : Slot η ε) (e : ε) (next' : η → Slot η ε → Slot η ε) (prev' : Slot η ε → Slot η ε) :
    Prop where
  next_eq : ∀ h', next' h' =
    Function.update (Function.update (next h') (.elm e) (next h' s)) s (.elm e)
  prev_eq : prev' = Function.update (Function.update prev (next h s) (.elm e)) (.elm e) s

/-- The place of a new element is between two parts of the queue. -/
lemma LinkedRings.insert (hr : LinkedRings next prev q)
    (hlink : LinkedAt next prev h s e next' prev') (hnew : ∀ h, e ∉ q h) (hq : q h = l₁ ++ l₂)
    (hs : s = lastFrom (.head h) (cells l₁)) :
    LinkedRings next' prev' (Function.update q h (l₁ ++ e :: l₂)) := by
  obtain ⟨hnext, hprev⟩ := hlink
  have hring := hr.ring h
  rw [hq, cells_append] at hring
  have hbehind : next h s = firstTo (cells l₂) (.head h) := by
    rw [hs]
    exact hring.at_cut.1
  have hfresh : (.elm e : Slot η ε) ∉ .head h :: (cells l₁ ++ cells l₂) := by
    have he := hnew h
    rw [hq] at he
    simpa using he
  obtain ⟨hsmem, htmem⟩ := mem_of_cut (.head h : Slot η ε) (cells l₁) (cells l₂)
  rw [← hs] at hsmem
  rw [← hbehind] at htmem
  refine hr.set ?_ ?_ ?_
  · rw [hnext, hprev, cells_append, cells_cons]
    exact hring.insert hfresh hs hbehind
  · intro h' hh e' he'
    rw [List.mem_append, List.mem_cons, or_left_comm, ← List.mem_append] at he'
    rcases he' with rfl | he'
    · exact hnew h'
    · rw [← hq] at he'
      exact hr.disjoint h h' hh.symm e' he'
  · intro t ht
    have hcells : ∀ u ∈ (.elm e :: .head h :: (cells l₁ ++ cells l₂) : List (Slot η ε)), t ≠ u := by
      intro u hu htu
      subst htu
      simp only [cells_append, cells_cons, List.mem_cons, List.mem_append] at hu ht
      tauto
    have hte := hcells _ List.mem_cons_self
    have hts := hcells s (List.mem_cons_of_mem _ hsmem)
    have htn := hcells _ (List.mem_cons_of_mem _ htmem)
    refine ⟨?_, ?_⟩
    · intro h'
      rw [hnext, Function.update_of_ne hts, Function.update_of_ne hte]
    · rw [hprev, Function.update_of_ne hte, Function.update_of_ne htn]

/-- Linked in behind the head, an element is the first one. -/
lemma LinkedRings.insertHead (hr : LinkedRings next prev q)
    (hlink : LinkedAt next prev h (.head h) e next' prev') (hnew : ∀ h, e ∉ q h) :
    LinkedRings next' prev' (Function.update q h (e :: q h)) :=
  hr.insert hlink hnew (List.nil_append _).symm rfl

/-- Linked in behind the last cell, it is the last one. -/
lemma LinkedRings.insertTail (hr : LinkedRings next prev q)
    (hlink : LinkedAt next prev h (prev (.head h)) e next' prev') (hnew : ∀ h, e ∉ q h) :
    LinkedRings next' prev' (Function.update q h (q h ++ [e])) :=
  hr.insert hlink hnew (List.append_nil _).symm (hr.ring h).at_end.2

/-- Linked in behind an element, it follows it. -/
lemma LinkedRings.insertAfter (hr : LinkedRings next prev q)
    (hlink : LinkedAt next prev h (.elm x) e next' prev') (hnew : ∀ h, e ∉ q h)
    (hq : q h = l₁ ++ x :: l₂) :
    LinkedRings next' prev' (Function.update q h (l₁ ++ x :: e :: l₂)) := by
  have hcut : q h = (l₁ ++ [x]) ++ l₂ := by
    rw [hq, List.append_assoc, List.singleton_append]
  have hx : .elm x = lastFrom (.head h : Slot η ε) (cells (l₁ ++ [x])) := by
    rw [cells_append, cells_cons, cells_nil, lastFrom_append_singleton]
  have hput := hr.insert hlink hnew hcut hx
  rwa [List.append_assoc, List.singleton_append] at hput

omit [DecidableEq η] [DecidableEq ε] in
/-- A new element is another one. -/
lemma ne_of_new (hnew : ∀ h, e ∉ q h) (hq : q h = l₁ ++ x :: l₂) : x ≠ e := by
  rintro rfl
  exact hnew h (hq ▸ List.mem_append_right l₁ List.mem_cons_self)

omit [DecidableEq η] [DecidableEq ε] in
/-- The ring at an element. -/
lemma LinkedRings.at_elm (hr : LinkedRings next prev q) (hq : q h = l₁ ++ x :: l₂) :
    LinkedRing (next h) prev (.head h) (cells l₁ ++ .elm x :: cells l₂) := by
  have hring := hr.ring h
  rwa [hq, cells_append, cells_cons] at hring

/-- Linked in behind the cell before an element, it comes before it. -/
lemma LinkedRings.insertBefore (hr : LinkedRings next prev q)
    (hlink : LinkedAt next prev h (prev (.elm x)) e next' prev') (hnew : ∀ h, e ∉ q h)
    (hq : q h = l₁ ++ x :: l₂) :
    LinkedRings next' prev' (Function.update q h (l₁ ++ e :: x :: l₂)) :=
  hr.insert hlink hnew hq (hr.at_elm hq).at_cell.1

/-- An element is taken out. -/
lemma LinkedRings.remove (hr : LinkedRings next prev q) (hq : q h = l₁ ++ e :: l₂)
    (hnext : ∀ h', next' h' = Function.update (next h') (prev (.elm e)) (next h' (.elm e)))
    (hprev : prev' = Function.update prev (next h (.elm e)) (prev (.elm e))) :
    LinkedRings next' prev' (Function.update q h (l₁ ++ l₂)) := by
  have hring := hr.at_elm hq
  obtain ⟨hbefore, hbehind⟩ := hring.at_cell
  obtain ⟨hsmem, htmem⟩ := mem_of_cut (.head h : Slot η ε) (cells l₁) (cells l₂)
  rw [← hbefore] at hsmem
  rw [← hbehind] at htmem
  refine hr.set ?_ ?_ ?_
  · rw [hnext, hprev, cells_append]
    exact hring.remove
  · intro h' hh e' he'
    refine hr.disjoint h h' hh.symm e' ?_
    rw [hq]
    simp only [List.mem_append, List.mem_cons] at he' ⊢
    tauto
  · intro t ht
    have hcells : ∀ u ∈ (.head h :: (cells l₁ ++ cells l₂) : List (Slot η ε)), t ≠ u := by
      intro u hu htu
      subst htu
      simp only [cells_append, List.mem_cons, List.mem_append] at hu ht
      tauto
    refine ⟨?_, ?_⟩
    · intro h'
      rw [hnext, Function.update_of_ne (hcells _ hsmem)]
    · rw [hprev, Function.update_of_ne (hcells _ htmem)]

end LinkedRings

end CcodeTest.Lib
