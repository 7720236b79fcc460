import Mathlib.Data.List.Basic
import Mathlib.Data.List.Nodup
import Mathlib.Logic.Function.Basic
import Mathlib.Tactic.TypeStar

/-!
# Linked cells

A heap of cells, each with a content and the address of another cell; zero is the null pointer, and
what is not allocated has no cell. `Chain h p l` says that following the links from `p` leads through
the cells of `l` to the null pointer. There is at most one such list (`Chain.unique`), so a chain does
not come back to a cell it has passed (`Chain.nodup`), and what happens to other cells does not
matter to it (`Chain.frame`).
-/

namespace CcodeTest.Lib

variable {α : Type*} {h h' : Nat → Option (α × Nat)} {p q a : Nat} {x : α} {l l' : List (Nat × α)}

/-- The cells from `p` on, with their addresses. -/
inductive Chain (h : Nat → Option (α × Nat)) : Nat → List (Nat × α) → Prop
  | nil : Chain h 0 []
  | cons {p q : Nat} {x : α} {l : List (Nat × α)} :
      p ≠ 0 → h p = some (x, q) → Chain h q l → Chain h p ((p, x) :: l)

/-- The addresses of a chain. -/
def addrs (l : List (Nat × α)) : List Nat := l.map Prod.fst

@[simp] lemma addrs_cons : addrs ((a, x) :: l) = a :: addrs l := rfl

@[simp] lemma addrs_append : addrs (l ++ l') = addrs l ++ addrs l' := List.map_append

lemma Chain.unique (hl : Chain h p l) (hl' : Chain h p l') : l = l' := by
  induction hl generalizing l' with
  | nil =>
    cases hl' with
    | nil => rfl
    | cons hne => exact absurd rfl hne
  | cons hne hp _ ih =>
    cases hl' with
    | nil => exact absurd rfl hne
    | cons _ hp' hl' =>
      cases hp.symm.trans hp'
      rw [ih hl']

lemma Chain.eq_nil (hl : Chain h 0 l) : l = [] := hl.unique .nil

/-- The first cell. -/
lemma Chain.cases_ne (hl : Chain h p l) (hp : p ≠ 0) :
    ∃ x q l', l = (p, x) :: l' ∧ h p = some (x, q) ∧ Chain h q l' := by
  cases hl with
  | nil => exact absurd rfl hp
  | cons _ hcell hrest => exact ⟨_, _, _, rfl, hcell, hrest⟩

/-- From every cell of a chain on there is a chain, the rest of it. -/
lemma Chain.suffix (hl : Chain h p l) (ha : a ∈ addrs l) :
    ∃ pre l', l = pre ++ l' ∧ Chain h a l' := by
  induction hl with
  | nil => cases ha
  | @cons p q x l hne hp hrest ih =>
    rcases List.mem_cons.1 ha with rfl | ha
    · exact ⟨[], _, rfl, .cons hne hp hrest⟩
    · obtain ⟨pre, l', rfl, hl'⟩ := ih ha
      exact ⟨(p, x) :: pre, l', rfl, hl'⟩

/-- A chain does not come back. -/
lemma Chain.nodup (hl : Chain h p l) : (addrs l).Nodup := by
  induction hl with
  | nil => exact List.nodup_nil
  | @cons p q x l hne hp hrest ih =>
    refine List.nodup_cons.2 ⟨?_, ih⟩
    intro hmem
    obtain ⟨pre, l', rfl, hl'⟩ := hrest.suffix hmem
    -- the rest would be as long as the whole
    have hlen := congrArg List.length (hl'.unique (.cons hne hp hrest))
    simp only [List.length_cons, List.length_append] at hlen
    omega

/-- Only the cells of the chain matter. -/
lemma Chain.frame (hl : Chain h p l) (hsame : ∀ b ∈ addrs l, h' b = h b) : Chain h' p l := by
  induction hl with
  | nil => exact .nil
  | @cons p q x l hne hp hrest ih =>
    refine .cons hne ?_ (ih fun b hb => hsame b (List.mem_cons_of_mem _ hb))
    rw [hsame p (List.mem_cons_self ..), hp]

/-- A cell outside the chain is written or freed. -/
lemma Chain.update (hl : Chain h p l) (ha : a ∉ addrs l) (c : Option (α × Nat)) :
    Chain (Function.update h a c) p l :=
  hl.frame fun _ hb => Function.update_of_ne (ne_of_mem_of_not_mem hb ha) _ _

end CcodeTest.Lib
