import CcodeTest.Lib.Transition

/-!
# What stands after a run

Events put an item in and take it out again. `Standing` says, of a list of events, that the item
was put in, or was there from the start, and has not been taken out since. A system whose every
step follows that rule follows it over whole runs (`standing_run`).
-/

namespace CcodeTest.Lib

variable {σ ε : Type*} {step : σ → ε → Option σ} {ins outs : ε → Prop} {init : Prop} {e : ε}
  {es : List ε}

/-- Put in by one of the events, or there from the start, and not taken out afterwards. -/
def Standing (ins outs : ε → Prop) (init : Prop) (es : List ε) : Prop :=
  (∃ pre e post, es = pre ++ e :: post ∧ ins e ∧ ∀ e' ∈ post, ¬ outs e') ∨
    init ∧ ∀ e ∈ es, ¬ outs e

lemma standing_nil : Standing ins outs init [] ↔ init := by
  constructor
  · rintro (⟨pre, e, post, he, -⟩ | ⟨h, -⟩)
    · simp at he
    · exact h
  · intro h
    exact .inr ⟨h, by simp⟩

/-- The first event decides what the others start from. -/
lemma standing_cons :
    Standing ins outs init (e :: es) ↔ Standing ins outs (ins e ∨ init ∧ ¬ outs e) es := by
  constructor
  · rintro (⟨pre, e', post, he, hin, hout⟩ | ⟨h, hout⟩)
    · cases pre with
      | nil =>
        cases he
        exact .inr ⟨.inl hin, hout⟩
      | cons p pre =>
        cases he
        exact .inl ⟨pre, e', post, rfl, hin, hout⟩
    · have h' := List.forall_mem_cons.1 hout
      exact .inr ⟨.inr ⟨h, h'.1⟩, h'.2⟩
  · rintro (⟨pre, e', post, rfl, hin, hout⟩ | ⟨hin | ⟨h, he⟩, hout⟩)
    · exact .inl ⟨e :: pre, e', post, rfl, hin, hout⟩
    · exact .inl ⟨[], e, es, rfl, hin, hout⟩
    · exact .inr ⟨h, List.forall_mem_cons.2 ⟨he, hout⟩⟩

/-- The same by position. -/
lemma standing_iff_getElem? : Standing ins outs init es ↔
    (∃ (i : Nat) (e : ε), es[i]? = some e ∧ ins e ∧
        ∀ (j : Nat) (e' : ε), i < j → es[j]? = some e' → ¬ outs e') ∨
      init ∧ ∀ e ∈ es, ¬ outs e := by
  refine or_congr ?_ Iff.rfl
  constructor
  · rintro ⟨pre, e, post, rfl, hin, hout⟩
    refine ⟨pre.length, e, by simp, hin, ?_⟩
    intro j e' hj he'
    obtain ⟨d, rfl⟩ := Nat.exists_eq_add_of_lt hj
    rw [List.getElem?_append_right (by omega)] at he'
    refine hout e' (List.mem_of_getElem? (i := d) ?_)
    rwa [show pre.length + d + 1 - pre.length = d + 1 by omega, List.getElem?_cons_succ] at he'
  · rintro ⟨i, e, he, hin, hout⟩
    obtain ⟨hi, rfl⟩ := List.getElem?_eq_some_iff.1 he
    refine ⟨es.take i, es[i], es.drop (i + 1), ?_, hin, ?_⟩
    · rw [List.getElem_cons_drop, List.take_append_drop]
    · intro e' he'
      obtain ⟨k, hk⟩ := List.getElem?_of_mem he'
      rw [List.getElem?_drop] at hk
      exact hout (i + 1 + k) e' (by omega) hk

/-- What every step does to the membership of an item, a run does to it. -/
lemma standing_run {I M : σ → Prop} {s t : σ} (h : run step s es = some t) (hI : I s)
    (hstep : ∀ e ∈ es, ∀ s t, I s → step s e = some t →
      I t ∧ (M t ↔ ins e ∨ M s ∧ ¬ outs e)) :
    M t ↔ Standing ins outs (M s) es := by
  induction es generalizing s with
  | nil =>
    cases h
    exact standing_nil.symm
  | cons e es ih =>
    rw [run, Option.bind_eq_some_iff] at h
    obtain ⟨u, hu, h⟩ := h
    obtain ⟨hIu, hmem⟩ := hstep e (List.mem_cons_self ..) s u hI hu
    rw [standing_cons, ih h hIu fun e he => hstep e (List.mem_cons_of_mem _ he), propext hmem]

end CcodeTest.Lib
