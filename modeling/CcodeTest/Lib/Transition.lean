import Mathlib.Data.Option.Basic
import Mathlib.Tactic.TypeStar

/-!
# Event-driven transition systems

A system is a partial step function `step : σ → ε → Option σ`: an event names one choice of the
scheduler or of the surroundings, and a disabled event has no successor. `Reach step P s t` says
that `t` is reached from `s` by steps each of which is taken in a state that meets `P` with its
event; `run` executes a list of events. `Reach.invariant` is the induction rule every safety
result of the development goes through.
-/

namespace CcodeTest.Lib

variable {σ ε : Type*} {step : σ → ε → Option σ} {P Q : σ → ε → Prop} {s t u : σ}

/-- Execute a list of events; the run stops when an event is disabled. -/
def run (step : σ → ε → Option σ) : σ → List ε → Option σ
  | s, [] => some s
  | s, e :: es => (step s e).bind fun s' => run step s' es

/-- Reachability by steps that all meet the condition `P`. -/
inductive Reach (step : σ → ε → Option σ) (P : σ → ε → Prop) (s : σ) : σ → Prop where
  | refl : Reach step P s s
  | tail {t u : σ} (e : ε) : Reach step P s t → P t e → step t e = some u → Reach step P s u

/-- A property that every step meeting the condition preserves holds in every state reached. -/
lemma Reach.invariant {I : σ → Prop} (r : Reach step P s t) (init : I s)
    (pres : ∀ t e u, I t → P t e → step t e = some u → I u) : I t := by
  induction r with
  | refl => exact init
  | tail e _ hp hs ih => exact pres _ e _ ih hp hs

/-- Reachability composes. -/
lemma Reach.trans (r : Reach step P s t) (r' : Reach step P t u) : Reach step P s u := by
  induction r' with
  | refl => exact r
  | tail e _ hp hs ih => exact .tail e ih hp hs

/-- A weaker condition reaches at least as much. -/
lemma Reach.mono (r : Reach step P s t) (h : ∀ s e, P s e → Q s e) : Reach step Q s t := by
  induction r with
  | refl => exact .refl
  | tail e _ hp hs ih => exact .tail e ih (h _ _ hp) hs

/-- What a list of events executes to is reachable without conditions. -/
lemma Reach.of_run {es : List ε} (h : run step s es = some t) :
    Reach step (fun _ _ => True) s t := by
  induction es generalizing s with
  | nil =>
    cases h
    exact .refl
  | cons e es ih =>
    rw [run, Option.bind_eq_some_iff] at h
    obtain ⟨s', hs, h⟩ := h
    exact Reach.trans (.tail e .refl trivial hs) (ih h)

/-- So it is with a condition on the events alone. -/
lemma Reach.of_run_forall {Q : ε → Prop} {es : List ε} (h : run step s es = some t)
    (hQ : ∀ e ∈ es, Q e) : Reach step (fun _ e => Q e) s t := by
  induction es generalizing s with
  | nil =>
    cases h
    exact .refl
  | cons e es ih =>
    rw [run, Option.bind_eq_some_iff] at h
    obtain ⟨s', hs, h⟩ := h
    have hfirst : Reach step (fun _ e => Q e) s s' := .tail e .refl (hQ e (List.mem_cons_self ..)) hs
    exact hfirst.trans (ih h fun e he => hQ e (List.mem_cons_of_mem _ he))

/-- A state that is wanted is in reach if, as long as it is not there, a step comes nearer to it. -/
lemma Reach.exists_of_measure {I goal : σ → Prop} (μ : σ → Nat) (hI : I s)
    (hstep : ∀ s, I s → ¬ goal s → ∃ e t, P s e ∧ step s e = some t ∧ I t ∧ μ t < μ s) :
    ∃ t, Reach step P s t ∧ goal t := by
  induction hμ : μ s using Nat.strongRecOn generalizing s with
  | _ m ih =>
    by_cases hgoal : goal s
    · exact ⟨s, .refl, hgoal⟩
    · obtain ⟨e, t, hP, hst, hIt, hlt⟩ := hstep s hI hgoal
      obtain ⟨u, htu, hu⟩ := ih (μ t) (hμ ▸ hlt) hIt rfl
      exact ⟨u, Reach.trans (.tail e .refl hP hst) htu, hu⟩

/-- A system whose steps are all enabled folds its step function over the events. -/
lemma run_total_function (f : σ → ε → σ) (s : σ) (es : List ε) :
    run (fun s e => some (f s e)) s es = some (es.foldl f s) := by
  induction es generalizing s with
  | nil => rfl
  | cons e es ih => exact ih (f s e)

/-- Events that are named by something else. -/
lemma run_map {δ : Type*} (f : δ → ε) (s : σ) (ds : List δ) :
    run step s (ds.map f) = run (fun s d => step s (f d)) s ds := by
  induction ds generalizing s with
  | nil => rfl
  | cons d ds ih =>
    rw [List.map_cons, run, run]
    simp only [ih]

/-- A run goes through when every event is enabled in the states that an invariant admits. -/
lemma run_total {I : σ → Prop} {es : List ε} (hI : I s)
    (hstep : ∀ e ∈ es, ∀ s, I s → ∃ t, step s e = some t ∧ I t) :
    ∃ t, run step s es = some t ∧ I t := by
  induction es generalizing s with
  | nil => exact ⟨s, rfl, hI⟩
  | cons e es ih =>
    obtain ⟨u, hu, hIu⟩ := hstep e (List.mem_cons_self ..) s hI
    obtain ⟨t, ht, hIt⟩ := ih hIu fun e he => hstep e (List.mem_cons_of_mem _ he)
    refine ⟨t, ?_, hIt⟩
    rw [run, hu]
    exact ht

/-- What a list of events can lead to in a system that is given by a relation. -/
inductive Trace {τ : Type*} (rel : τ → ε → τ → Prop) : τ → List ε → τ → Prop where
  | nil (q : τ) : Trace rel q [] q
  | cons {q q' q'' : τ} {e : ε} {es : List ε} :
      rel q e q' → Trace rel q' es q'' → Trace rel q (e :: es) q''

/-- When every step of a relation has its counterpart in a system, so has every run. The system may
need a bound for its loops: then there is one that is enough for all steps. -/
lemma Trace.simulates {τ : Type*} {rel : τ → ε → τ → Prop} {R : σ → τ → Prop} {q q' : τ}
    {es : List ε} {step : Nat → σ → ε → Option σ}
    (hstep : ∀ e ∈ es, ∀ s q q', R s q → rel q e q' →
      ∃ N s', (∀ n, N ≤ n → step n s e = some s') ∧ R s' q')
    (ht : Trace rel q es q') (hR : R s q) :
    ∃ N s', (∀ n, N ≤ n → run (step n) s es = some s') ∧ R s' q' := by
  induction ht generalizing s with
  | nil q => exact ⟨0, s, fun _ _ => rfl, hR⟩
  | cons hrel _ ih =>
    obtain ⟨N, s', hs', hR'⟩ := hstep _ (List.mem_cons_self ..) s _ _ hR hrel
    obtain ⟨N', t, ht, hRt⟩ := ih (fun e he => hstep e (List.mem_cons_of_mem _ he)) hR'
    refine ⟨max N N', t, ?_, hRt⟩
    intro n hn
    rw [run, hs' n (Nat.le_trans (Nat.le_max_left N N') hn)]
    exact ht n (Nat.le_trans (Nat.le_max_right N N') hn)

/-- Execute a list of events, as long as each meets a condition that can be tested. -/
def runIf (step : σ → ε → Option σ) (ok : σ → ε → Bool) : σ → List ε → Option σ
  | s, [] => some s
  | s, e :: es => if ok s e then (step s e).bind fun s' => runIf step ok s' es else none

/-- What a tested run executes to is reachable under every condition that the test implies for the
events of the run. -/
lemma Reach.of_runIf {ok : σ → ε → Bool} {es : List ε} (h : runIf step ok s es = some t)
    (hP : ∀ s, ∀ e ∈ es, ok s e = true → P s e) : Reach step P s t := by
  induction es generalizing s with
  | nil =>
    cases h
    exact .refl
  | cons e es ih =>
    rw [runIf] at h
    split at h
    · rename_i hok
      rw [Option.bind_eq_some_iff] at h
      obtain ⟨s', hs, h⟩ := h
      have hfirst : Reach step P s s' := .tail e .refl (hP s e (List.mem_cons_self ..) hok) hs
      exact hfirst.trans (ih h fun s e he => hP s e (List.mem_cons_of_mem _ he))
    · cases h

end CcodeTest.Lib
