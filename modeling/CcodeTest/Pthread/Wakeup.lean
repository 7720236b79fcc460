import CcodeTest.Lib.Rank
import CcodeTest.Pthread.CondWait

/-!
# Signals and the end of the program

A signal goes to nobody if nobody waits, and a thread that is woken may find that another one has
taken the node. Neither does harm, since a thread looks at the list before it waits and keeps the
mutex until it does. So the program never comes to a point from which it cannot go on to its end
(`wakeup_not_lost`): every step of the thread inside, or of `main`, lowers a measure.
-/

namespace CcodeTest.Pthread
open CcodeTest.Lib

variable {n : Nat}

/-- How far `main` is from its end. -/
def MainPc.rank (count : Nat) : MainPc → Nat
  | .ready i => 4 * (count - i) + 2
  | .locked i => 4 * (count - i) + 1
  | .pushed i => 4 * (count - i)
  | .signalled i => 4 * (count - i) - 1
  | .joining => 1
  | .finished => 0

/-- How far a thread is from its end, apart from nodes that it finds. -/
def ThreadPc.rank : ThreadPc → Nat
  | .start | .woken | .taken _ => 4
  | .testing => 3
  | .waiting => 2
  | .cleaning => 1
  | .done => 0

def State.measure (count : Nat) (s : State n) : Nat :=
  3 * s.main.rank count + 2 * s.head.length + ∑ i, (s.thread i).rank

section Progress

variable {count : Nat} {s t : State n} {i : Fin n}

/-- A thread goes on. -/
lemma measure_move {pc : ThreadPc} (hthread : t.thread = Function.update s.thread i pc)
    (hmain : t.main = s.main)
    (hlt : 2 * t.head.length + pc.rank < 2 * s.head.length + (s.thread i).rank) :
    t.measure count < s.measure count := by
  have hsum := sum_update (fun _ => ThreadPc.rank) s.thread i pc
  unfold State.measure
  rw [hthread, hmain]
  omega

/-- `main` goes on. -/
lemma measure_main (hthread : t.thread = s.thread) (hhead : t.head.length ≤ s.head.length + 1)
    (hlt : t.main.rank count < s.main.rank count) : t.measure count < s.measure count := by
  unfold State.measure
  rw [hthread]
  omega

/-- The thread inside comes nearer to its end. -/
lemma nearer_thread (hin : (s.thread i).inside = true) :
    ∃ t, threadStep s i = some t ∧ t.measure count < s.measure count := by
  cases hi : s.thread i with
  | testing =>
    cases hhead : s.head with
    | nil =>
      have hstep : threadStep s i = some { s.move i .waiting with mtx := none } := by
        simp only [threadStep, hi, hhead]
      refine ⟨_, hstep, measure_move (i := i) rfl rfl ?_⟩
      simp [State.move, hi, ThreadPc.rank]
    | cons m head =>
      have hstep : threadStep s i =
          some { s.move i (.taken m) with head := head, acts := s.acts ++ [.got m] } := by
        simp only [threadStep, hi, hhead]
      refine ⟨_, hstep, measure_move (i := i) rfl rfl ?_⟩
      simp only [hi, hhead, ThreadPc.rank, List.length_cons]
      omega
  | taken m =>
    have hstep : threadStep s i = some { s.move i .testing with printed := s.printed ++ [m] } := by
      simp only [threadStep, hi]
    refine ⟨_, hstep, measure_move (i := i) rfl rfl ?_⟩
    simp [State.move, hi, ThreadPc.rank]
  | cleaning =>
    have hstep : threadStep s i = some { s.move i .done with mtx := none } := by
      simp only [threadStep, hi]
    refine ⟨_, hstep, measure_move (i := i) rfl rfl ?_⟩
    simp [State.move, hi, ThreadPc.rank]
  | start | waiting | woken | done =>
    rw [hi] at hin
    cases hin

/-- A thread outside does so when the mutex is free and the threads are cancelled. -/
lemma nearer_outside (hmtx : s.mtx = none) (hc : s.cancelled = true)
    (hout : (s.thread i).inside = false) (hdone : s.thread i ≠ .done) :
    ∃ e t, step count s e = some t ∧ t.measure count < s.measure count := by
  have hclean (hi : s.thread i = .waiting ∨ s.thread i = .woken) :
      ∃ e t, step count s e = some t ∧ t.measure count < s.measure count := by
    have hstep : step count s (.cancel i) =
        some { s.move i .cleaning with mtx := some (.thread i) } := by
      rcases hi with hi | hi <;> simp only [step, cancelStep, hc, hi, hmtx, if_true]
    refine ⟨_, _, hstep, measure_move (i := i) rfl rfl ?_⟩
    rcases hi with hi | hi <;> simp [State.move, hi, ThreadPc.rank]
  cases hi : s.thread i with
  | start =>
    have hstep : step count s (.thread i) =
        some { s.move i .testing with mtx := some (.thread i) } := by
      simp only [step, threadStep, hi, hmtx, if_true]
    refine ⟨_, _, hstep, measure_move (i := i) rfl rfl ?_⟩
    simp [State.move, hi, ThreadPc.rank]
  | waiting => exact hclean (.inl hi)
  | woken => exact hclean (.inr hi)
  | done => exact absurd hi hdone
  | testing | taken | cleaning =>
    rw [hi] at hout
    cases hout

/-- `main` inside. -/
lemma nearer_main (hp : Phase count s) (hin : s.main.inside = true) :
    ∃ e t, step count s e = some t ∧ t.measure count < s.measure count := by
  have hbound := hp.bound
  cases hm : s.main with
  | locked i =>
    have hlt := hp.locked i hm
    have hstep : step count s .main =
        some { s with main := .pushed i, head := i :: s.head, acts := s.acts ++ [.push i] } := by
      simp only [step, mainStep, hm]
    refine ⟨_, _, hstep, measure_main rfl (Nat.le_refl _) ?_⟩
    simp only [hm, MainPc.rank]
    omega
  | pushed i =>
    rw [hm] at hbound
    have hlt : i < count := hbound
    by_cases hnone : ∀ j, s.thread j ≠ .waiting
    · have hstep : step count s (.signal none) = some { s with main := .signalled i } := by
        simp only [step, signalStep, hm]
        rw [if_pos hnone]
      refine ⟨_, _, hstep, measure_main rfl (Nat.le_succ _) ?_⟩
      simp only [hm, MainPc.rank]
      omega
    · obtain ⟨j, hj⟩ := not_forall.1 hnone
      rw [not_not] at hj
      have hstep : step count s (.signal (some j)) =
          some { s.move j .woken with main := .signalled i } := by
        simp only [step, signalStep, hm, hj, if_true]
      refine ⟨_, _, hstep, ?_⟩
      -- the thread that is woken is two steps farther from its end, `main` is one nearer
      have hsum := sum_update (fun _ => ThreadPc.rank) s.thread j .woken
      simp only [State.measure, State.move, hm, hj, MainPc.rank, ThreadPc.rank] at hsum ⊢
      omega
  | signalled i =>
    rw [hm] at hbound
    have hlt : i < count := hbound
    have hstep : step count s .main = some { s with main := .ready (i + 1), mtx := none } := by
      simp only [step, mainStep, hm]
    refine ⟨_, _, hstep, measure_main rfl (Nat.le_succ _) ?_⟩
    simp only [hm, MainPc.rank]
    omega
  | ready | joining | finished =>
    rw [hm] at hin
    cases hin

/-- `main` outside. -/
lemma nearer_free (h : Inv count s) (hmtx : s.mtx = none) (hne : s.main ≠ .finished) :
    ∃ e t, step count s e = some t ∧ t.measure count < s.measure count := by
  have hg := h.guarded
  rw [hmtx] at hg
  cases hm : s.main with
  | ready i =>
    by_cases hlt : i < count
    · have hstep : step count s .main = some { s with main := .locked i, mtx := some .main } := by
        simp only [step, mainStep, hm, if_pos hlt, hmtx, if_true]
      refine ⟨_, _, hstep, measure_main rfl (Nat.le_succ _) ?_⟩
      simp only [hm, MainPc.rank]
      omega
    · have hstep : step count s .main = some { s with main := .joining, cancelled := true } := by
        simp only [step, mainStep, hm, if_neg hlt]
      refine ⟨_, _, hstep, measure_main rfl (Nat.le_succ _) ?_⟩
      simp only [hm, MainPc.rank]
      omega
  | joining =>
    by_cases hall : ∀ i, s.thread i = .done
    · have hstep : step count s .main = some { s with main := .finished } := by
        simp only [step, mainStep, hm]
        rw [if_pos hall]
      refine ⟨_, _, hstep, measure_main rfl (Nat.le_succ _) ?_⟩
      simp [hm, MainPc.rank]
    · obtain ⟨i, hi⟩ := not_forall.1 hall
      exact nearer_outside hmtx (h.phase.cancelled.2 (.inl hm)) (hg.of_none (.thread i)) hi
  | finished => exact absurd hm hne
  | locked | pushed | signalled =>
    have hout := hg.of_none .main
    rw [State.inside, hm] at hout
    cases hout

/-- As long as `main` has not returned, somebody can do a step towards the end. -/
lemma nearer (h : Inv count s) (hne : s.main ≠ .finished) :
    ∃ e t, step count s e = some t ∧ t.measure count < s.measure count := by
  cases hmtx : s.mtx with
  | none => exact nearer_free h hmtx hne
  | some k =>
    have hin := (h.guarded k).2 hmtx
    cases k with
    | main => exact nearer_main h.phase hin
    | thread i =>
      obtain ⟨t, hstep, hlt⟩ : ∃ t, threadStep s i = some t ∧ t.measure count < s.measure count :=
        nearer_thread hin
      exact ⟨.thread i, t, hstep, hlt⟩

/-- No signal is lost: while the threads are not cancelled, a node on the list finds one of them
awake, or `main` is about to signal. And nobody is ever stuck: from every state that the program
comes to, it can come to its end. -/
theorem wakeup_not_lost (hn : 0 < n) (hr : Reach (step count) (fun _ _ => True) init s) :
    (s.cancelled = false → s.head ≠ [] →
      (∃ i, s.main = .pushed i) ∨ ∃ j, s.thread j ≠ .waiting ∧ s.thread j ≠ .done) ∧
      ∃ t, Reach (step count) (fun _ _ => True) s t ∧ t.main = .finished := by
  have h := inv_reach hr
  refine ⟨fun hc hne => ?_, ?_⟩
  · rcases h.awake hn hc hne with hi | ⟨j, hj⟩
    · exact .inl hi
    · exact .inr ⟨j, hj, (h.phase.running hc j).2⟩
  · refine Reach.exists_of_measure (I := Inv count) (State.measure count) h ?_
    intro s h hne
    obtain ⟨e, t, hstep, hlt⟩ := nearer h hne
    exact ⟨e, t, trivial, hstep, inv_step h hstep, hlt⟩

end Progress

/-- The thread waits, and the first node is on the list. -/
theorem wakeup_not_lost_sample : ∃ s : State 1,
    Reach (step 10) (fun _ _ => True) init s ∧ s.head = [0] ∧ s.thread 0 = .waiting ∧
      ((∃ i, s.main = .pushed i) ∨ ∃ j, s.thread j ≠ .waiting ∧ s.thread j ≠ .done) ∧
      ∃ t, Reach (step 10) (fun _ _ => True) s t ∧ t.main = .finished := by
  have hrun : (run (step 10) (init : State 1) [.thread 0, .thread 0, .main, .main]).map
      (fun s => (s.head, s.thread 0, s.cancelled)) = some ([0], .waiting, false) := by
    decide
  obtain ⟨s, hs, heq⟩ := Option.map_eq_some_iff.1 hrun
  simp only [Prod.mk.injEq] at heq
  obtain ⟨hhead, hwait, hc⟩ := heq
  have hreach := Reach.of_run hs
  obtain ⟨hawake, hend⟩ := wakeup_not_lost (by decide) hreach
  exact ⟨s, hreach, hhead, hwait, hawake hc (by simp [hhead]), hend⟩

end CcodeTest.Pthread
