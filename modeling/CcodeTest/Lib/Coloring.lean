import Mathlib.Logic.Function.Basic
import Mathlib.Tactic.TypeStar

/-!
# Partial colourings

Vertices are the numbers below `n`. `act` marks the vertices that take part, `adj v u` says that
`v` and the earlier vertex `u` are in conflict, and `allowed v c` that `v` may take the colour `c`.
`Proper k f` says that `f` is a solution on the first `k` vertices, and `Extendable n k f` that its
values on the first `k` vertices can be completed to a solution on all `n`. The two step lemmas are
what a backtracking search does at one vertex: a vertex that takes part tries its colours, a vertex
that does not is passed over.
-/

namespace CcodeTest.Lib

variable {C : Type*} {act : Nat → Prop} {adj adj' : Nat → Nat → Prop} {allowed : Nat → C → Prop}

/-- `f` colours the first `k` vertices: allowed colours, and different ones across each edge. -/
def Proper (act : Nat → Prop) (adj : Nat → Nat → Prop) (allowed : Nat → C → Prop) (k : Nat)
    (f : Nat → C) : Prop :=
  (∀ v < k, act v → allowed v (f v)) ∧
    ∀ v < k, ∀ u < v, act u → act v → adj v u → f u ≠ f v

/-- The first `k` values of `f` can be completed to a solution on `n` vertices. -/
def Extendable (act : Nat → Prop) (adj : Nat → Nat → Prop) (allowed : Nat → C → Prop) (n k : Nat)
    (f : Nat → C) : Prop :=
  ∃ g, Proper act adj allowed n g ∧ ∀ i < k, act i → g i = f i

/-- With nothing fixed yet, extendable is solvable. -/
lemma extendable_zero {n : Nat} {f : Nat → C} :
    Extendable act adj allowed n 0 f ↔ ∃ g, Proper act adj allowed n g := by
  constructor
  · rintro ⟨g, hg, _⟩
    exact ⟨g, hg⟩
  · rintro ⟨g, hg⟩
    exact ⟨g, hg, fun i hi => absurd hi (Nat.not_lt_zero i)⟩

/-- A solution only depends on the vertices that take part. -/
lemma Proper.congr {k : Nat} {f g : Nat → C} (hf : Proper act adj allowed k f)
    (e : ∀ i < k, act i → f i = g i) : Proper act adj allowed k g := by
  refine ⟨?_, ?_⟩
  · intro v hv ha
    rw [← e v hv ha]
    exact hf.1 v hv ha
  · intro v hv u hu hau hav hadj
    rw [← e v hv hav, ← e u (Nat.lt_trans hu hv) hau]
    exact hf.2 v hv u hu hau hav hadj

/-- What can be extended only depends on the vertices fixed so far. -/
lemma Extendable.congr {n k : Nat} {f g : Nat → C} (hf : Extendable act adj allowed n k f)
    (e : ∀ i < k, f i = g i) : Extendable act adj allowed n k g := by
  obtain ⟨h, hp, hh⟩ := hf
  refine ⟨h, hp, ?_⟩
  intro i hi ha
  rw [← e i hi]
  exact hh i hi ha

/-- A solution on all vertices is extendable from any of its prefixes. -/
lemma Proper.extendable {n : Nat} {f : Nat → C} (k : Nat) (hf : Proper act adj allowed n f) :
    Extendable act adj allowed n k f :=
  ⟨f, hf, fun _ _ _ => rfl⟩

/-- With everything fixed, extendable is solved. -/
lemma Extendable.proper {n : Nat} {f : Nat → C} (h : Extendable act adj allowed n n f) :
    Proper act adj allowed n f := by
  obtain ⟨g, hg, e⟩ := h
  exact hg.congr e

/-- A vertex that takes part is extended by one of its colours that no earlier neighbour has. -/
lemma extendable_active {n k : Nat} {f : Nat → C} (hk : k < n) (ha : act k) :
    Extendable act adj allowed n k f ↔
      ∃ c, allowed k c ∧ (∀ u < k, act u → adj k u → f u ≠ c) ∧
        Extendable act adj allowed n (k + 1) (Function.update f k c) := by
  constructor
  · rintro ⟨g, hg, e⟩
    refine ⟨g k, hg.1 k hk ha, ?_, g, hg, ?_⟩
    · intro u hu hau hadj
      rw [← e u hu hau]
      exact hg.2 k hk u hu hau ha hadj
    · intro i hi hai
      by_cases hik : i = k
      · subst hik
        rw [Function.update_self]
      · rw [Function.update_of_ne hik]
        exact e i (by omega) hai
  · rintro ⟨c, _, _, g, hg, e⟩
    refine ⟨g, hg, ?_⟩
    intro i hi hai
    rw [e i (by omega) hai, Function.update_of_ne (by omega)]

/-- A vertex that does not take part may hold any colour. -/
lemma extendable_inactive {n k : Nat} {f : Nat → C} (c : C) (ha : ¬ act k) :
    Extendable act adj allowed n k f ↔
      Extendable act adj allowed n (k + 1) (Function.update f k c) := by
  constructor
  · rintro ⟨g, hg, e⟩
    refine ⟨g, hg, ?_⟩
    intro i hi hai
    have hik : i ≠ k := fun h => ha (h ▸ hai)
    rw [Function.update_of_ne hik]
    exact e i (by omega) hai
  · rintro ⟨g, hg, e⟩
    refine ⟨g, hg, ?_⟩
    intro i hi hai
    rw [e i (by omega) hai, Function.update_of_ne (by omega)]

/-- One more vertex: a colour it may take, or anything for a vertex that does not take part. -/
lemma Proper.extend {k : Nat} {f : Nat → C} {c : C} (hf : Proper act adj allowed k f)
    (hc : act k → allowed k c ∧ ∀ u < k, act u → adj k u → f u ≠ c) :
    Proper act adj allowed (k + 1) (Function.update f k c) := by
  refine ⟨?_, ?_⟩
  · intro v hv ha
    by_cases e : v = k
    · subst e
      rw [Function.update_self]
      exact (hc ha).1
    · rw [Function.update_of_ne e]
      exact hf.1 v (by omega) ha
  · intro v hv u hu hau hav hadj
    have hne : u ≠ k := by omega
    by_cases e : v = k
    · subst e
      rw [Function.update_self, Function.update_of_ne hne]
      exact (hc hav).2 u hu hau hadj
    · rw [Function.update_of_ne e, Function.update_of_ne hne]
      exact hf.2 v (by omega) u hu hau hav hadj

/-- Taking edges away keeps a solution. -/
lemma Proper.mono {k : Nat} {f : Nat → C} (hf : Proper act adj allowed k f)
    (h : ∀ v < k, ∀ u < v, adj' v u → adj v u) : Proper act adj' allowed k f :=
  ⟨hf.1, fun v hv u hu hau hav hadj => hf.2 v hv u hu hau hav (h v hv u hu hadj)⟩

end CcodeTest.Lib
