import CcodeTest.Lib.Transition

/-!
# Signals that nobody waits for

Two test programs ask whether a signal is missed when nobody is listening. In the first one a thread
calls `pthread_cond_wait` over and over and works for a while in between; another one calls
`pthread_cond_signal` ten times, without the mutex and without anything that would be left for the
first to see. In the second program the two functions are `sem_wait` and `sem_post`.

The answer is in `rounds_outcomes`: how often the thread has worked in the end can be any number up to
that of the signals, but it is always the number of the posts.
-/

namespace CcodeTest.Pthread.Signals
open CcodeTest.Lib

/-! `pthread_cond_signal`. -/

/-- Where `thread_cond_wait` is. -/
inductive WaitPc
  | start
  | waiting
  | woken
  | working
deriving DecidableEq

/-- How many signals have been sent, and how often the thread has worked. -/
structure Cond where
  sent : Nat
  rounds : Nat
  pc : WaitPc

inductive CondEvent
  | go
  | signal
  | wake
deriving DecidableEq

/-- The thread goes on, a signal is sent, or the thread is woken by nothing. -/
def condStep (count : Nat) (s : Cond) : CondEvent → Option Cond
  | .go =>
    match s.pc with
    | .start => some { s with pc := .waiting }
    | .waiting => none
    | .woken => some { s with pc := .working }
    | .working => some { s with pc := .waiting, rounds := s.rounds + 1 }
  | .signal =>
    if s.sent < count then
      some { s with sent := s.sent + 1, pc := if s.pc = .waiting then .woken else s.pc }
    else none
  | .wake => if s.pc = .waiting then some { s with pc := .woken } else none

def condInit : Cond := ⟨0, 0, .start⟩

/-! `sem_post`. -/

/-- Where `sem_wait_thread` is. -/
inductive SemPc
  | taking
  | working
deriving DecidableEq

/-- The same with the value of the semaphore. -/
structure Sem where
  value : Nat
  sent : Nat
  rounds : Nat
  pc : SemPc

inductive SemEvent
  | go
  | post
deriving DecidableEq

def semStep (count : Nat) (s : Sem) : SemEvent → Option Sem
  | .go =>
    match s.pc with
    | .taking => if 0 < s.value then some { s with value := s.value - 1, pc := .working } else none
    | .working => some { s with pc := .taking, rounds := s.rounds + 1 }
  | .post =>
    if s.sent < count then some { s with value := s.value + 1, sent := s.sent + 1 } else none

def semInit : Sem := ⟨0, 0, 0, .taking⟩

section Cond

variable {count : Nat} {s t : Cond}

/-- A signal has woken the thread, which has not worked for it yet. -/
def WaitPc.due : WaitPc → Nat
  | .start | .waiting => 0
  | .woken | .working => 1

/-- Without other causes to wake up the thread works for signals only. -/
lemma rounds_le (hr : Reach (condStep count) (fun _ e => e ≠ .wake) condInit s) :
    s.rounds + s.pc.due ≤ s.sent ∧ s.sent ≤ count := by
  refine hr.invariant (I := fun s => s.rounds + s.pc.due ≤ s.sent ∧ s.sent ≤ count)
    ⟨Nat.le_refl _, Nat.zero_le _⟩ ?_
  rintro s e t ⟨hle, hcount⟩ he hstep
  cases e with
  | go =>
    simp only [condStep] at hstep
    cases hpc : s.pc <;> rw [hpc] at hle hstep <;> cases hstep <;> exact ⟨hle, hcount⟩
  | signal =>
    obtain ⟨hlt, hstep⟩ := Option.ite_none_right_eq_some.1 hstep
    cases hstep
    refine ⟨?_, hlt⟩
    cases hpc : s.pc <;> rw [hpc] at hle <;>
      simp only [WaitPc.due, reduceCtorEq, if_true, if_false] at hle ⊢ <;> omega
  | wake => exact absurd rfl he

/-- Signals that are sent before the thread waits. -/
lemma reach_missed {k : Nat} (hk : k ≤ count) :
    Reach (condStep count) (fun _ e => e ≠ .wake) condInit ⟨k, 0, .start⟩ := by
  induction k with
  | zero => exact .refl
  | succ k ih =>
    refine .tail .signal (ih (Nat.le_of_succ_le hk)) (by decide) ?_
    simp only [condStep, if_pos (Nat.lt_of_succ_le hk)]
    rfl

/-- Signals that are sent while it waits. -/
lemma reach_served {k m : Nat} (hk : k + m ≤ count) :
    Reach (condStep count) (fun _ e => e ≠ .wake) ⟨k, 0, .waiting⟩ ⟨k + m, m, .waiting⟩ := by
  induction m with
  | zero => exact .refl
  | succ m ih =>
    have hlt : k + m < count := hk
    have hsignal : condStep count ⟨k + m, m, .waiting⟩ .signal = some ⟨k + m + 1, m, .woken⟩ := by
      simp only [condStep, if_pos hlt, if_true]
    exact .tail .go (.tail .go (.tail .signal (ih (Nat.le_of_lt hlt)) (by decide) hsignal) (by decide)
      rfl) (by decide) rfl

end Cond

section Sem

variable {count : Nat} {s : Sem}

/-- The thread has taken the semaphore and not worked yet. -/
def SemPc.due : SemPc → Nat
  | .taking => 0
  | .working => 1

/-- Every post is in the semaphore or has been taken. -/
lemma rounds_eq (hr : Reach (semStep count) (fun _ _ => True) semInit s) :
    s.rounds + s.pc.due + s.value = s.sent ∧ s.sent ≤ count := by
  refine hr.invariant (I := fun s => s.rounds + s.pc.due + s.value = s.sent ∧ s.sent ≤ count)
    ⟨rfl, Nat.zero_le _⟩ ?_
  rintro s e t ⟨heq, hcount⟩ - hstep
  cases e with
  | go =>
    simp only [semStep] at hstep
    cases hpc : s.pc with
    | taking =>
      rw [hpc] at hstep heq
      obtain ⟨hpos, hstep⟩ := Option.ite_none_right_eq_some.1 hstep
      cases hstep
      refine ⟨?_, hcount⟩
      simp only [SemPc.due] at heq ⊢
      omega
    | working =>
      rw [hpc] at hstep heq
      cases hstep
      exact ⟨heq, hcount⟩
  | post =>
    obtain ⟨hlt, hstep⟩ := Option.ite_none_right_eq_some.1 hstep
    cases hstep
    refine ⟨?_, hlt⟩
    simp only
    omega

/-- As many rounds as posts can be reached. -/
lemma reach_taken {k : Nat} (hk : k ≤ count) :
    Reach (semStep count) (fun _ _ => True) semInit ⟨0, k, k, .taking⟩ := by
  induction k with
  | zero => exact .refl
  | succ k ih =>
    have hpost : semStep count ⟨0, k, k, .taking⟩ .post = some ⟨1, k + 1, k, .taking⟩ := by
      simp only [semStep, if_pos (Nat.lt_of_succ_le hk)]
    exact .tail .go (.tail .go (.tail .post (ih (Nat.le_of_succ_le hk)) trivial hpost) trivial rfl)
      trivial rfl

end Sem

/-- How often the thread has worked when nothing can happen any more: with a condition, any number up
to that of the signals, with a semaphore exactly the number of posts. -/
theorem rounds_outcomes (count m : Nat) :
    ((∃ s, Reach (condStep count) (fun _ e => e ≠ .wake) condInit s ∧
        (∀ e, e ≠ .wake → condStep count s e = none) ∧ s.rounds = m) ↔ m ≤ count) ∧
      ((∃ s, Reach (semStep count) (fun _ _ => True) semInit s ∧
        (∀ e, semStep count s e = none) ∧ s.rounds = m) ↔ m = count) := by
  refine ⟨⟨?_, fun hm => ?_⟩, ⟨?_, fun hm => ?_⟩⟩
  · rintro ⟨s, hr, -, rfl⟩
    obtain ⟨hle, hcount⟩ := rounds_le hr
    omega
  · have hmissed : Reach (condStep count) (fun _ e => e ≠ .wake) condInit ⟨count - m, 0, .start⟩ :=
      reach_missed (Nat.sub_le _ _)
    have hserved := reach_served (Nat.le_of_eq (Nat.sub_add_cancel hm))
    refine ⟨_, (Reach.tail .go hmissed (by decide) rfl).trans hserved, ?_, rfl⟩
    intro e he
    cases e with
    | go => rfl
    | signal =>
      rw [Nat.sub_add_cancel hm]
      simp only [condStep, Nat.lt_irrefl, if_false]
    | wake => exact absurd rfl he
  · rintro ⟨s, hr, hnone, rfl⟩
    obtain ⟨heq, hcount⟩ := rounds_eq hr
    have hpost := hnone .post
    have hgo := hnone .go
    have hsent : s.sent = count := by
      by_contra hne
      simp [semStep, Nat.lt_of_le_of_ne hcount hne] at hpost
    cases hpc : s.pc with
    | taking =>
      have hvalue : s.value = 0 := by
        by_contra hne
        simp [semStep, hpc, Nat.pos_of_ne_zero hne] at hgo
      rw [hpc, hvalue] at heq
      exact heq.trans hsent
    | working => simp [semStep, hpc] at hgo
  · subst hm
    refine ⟨_, reach_taken (Nat.le_refl _), ?_, rfl⟩
    intro e
    cases e with
    | go => rfl
    | post => simp only [semStep, Nat.lt_irrefl, if_false]

end CcodeTest.Pthread.Signals
