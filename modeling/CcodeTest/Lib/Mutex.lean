import Mathlib.Logic.Function.Basic
import Mathlib.Tactic.TypeStar

/-!
# A mutex and the threads inside

`inside k` says that thread `k` stands in a section that the mutex guards, `owner` who has the mutex.
The two belong together: one thread is inside at a time, and it is the owner.
-/

namespace CcodeTest.Lib

variable {κ : Type*} {inside inside' : κ → Bool} {owner : Option κ} {j k : κ}

/-- Whoever is inside has the mutex, and the other way round. -/
def Guarded (inside : κ → Bool) (owner : Option κ) : Prop := ∀ k, inside k = true ↔ owner = some k

lemma Guarded.eq_some (h : Guarded inside owner) (hk : inside k = true) : owner = some k := (h k).1 hk

/-- The others are outside. -/
lemma Guarded.outside (h : Guarded inside owner) (hk : inside k = true) (hj : j ≠ k) :
    inside j = false := by
  rw [Bool.eq_false_iff]
  intro hin
  have heq := (h.eq_some hk).symm.trans (h.eq_some hin)
  exact hj (Option.some.inj heq).symm

lemma Guarded.of_none (h : Guarded inside none) (k : κ) : inside k = false := by
  rw [Bool.eq_false_iff]
  intro hin
  cases h.eq_some hin

variable [DecidableEq κ] {b : Bool}

/-- A thread goes on inside, or outside. -/
lemma Guarded.stay (h : Guarded inside owner) (hin : inside' = Function.update inside k b)
    (hb : b = inside k) : Guarded inside' owner := by
  rw [hin, hb, Function.update_eq_self]
  exact h

/-- It takes the mutex. -/
lemma Guarded.lock (h : Guarded inside owner) (ho : owner = none)
    (hin : inside' = Function.update inside k true) : Guarded inside' (some k) := by
  subst ho
  rw [hin]
  refine (Function.forall_update_iff inside fun j b => b = true ↔ some k = some j).2 ⟨by simp, ?_⟩
  intro j hj
  simp [h.of_none j, Ne.symm hj]

/-- It gives the mutex back. -/
lemma Guarded.unlock (h : Guarded inside owner) (hk : inside k = true)
    (hin : inside' = Function.update inside k false) : Guarded inside' none := by
  rw [hin]
  refine (Function.forall_update_iff inside fun j b => b = true ↔ none = some j).2 ⟨by simp, ?_⟩
  intro j hj
  simp [h.outside hk hj]

end CcodeTest.Lib
