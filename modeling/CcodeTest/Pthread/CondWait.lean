import Mathlib.Data.Fintype.Basic
import Mathlib.Data.List.Perm.Basic
import Mathlib.Data.List.Sublists
import CcodeTest.Lib.Mutex
import CcodeTest.Lib.Transition

/-!
# Waiting for nodes

`main` puts numbered nodes on a list and signals a condition each time; `thread_func` waits for the
condition as long as the list is empty, takes nodes off and prints their numbers. In the end `main`
cancels the thread and waits for it. The program has one such thread and ten nodes. Its comments say
that there may be several threads; here there are any number of both.

A thread is woken by a signal, or by nothing at all. It is cancelled in `pthread_cond_wait`, which
takes the mutex again before the clean-up handler gives it back, or in `printf`. The handler has been
given the pointer as it was at first, which is null, so a node that is being printed then is lost.
-/

namespace CcodeTest.Pthread
open CcodeTest.Lib

/-- Where `main` is, with `i`. -/
inductive MainPc
  | ready (i : Nat)
  | locked (i : Nat)
  | pushed (i : Nat)
  | signalled (i : Nat)
  | joining
  | finished
deriving DecidableEq

/-- Where a thread is in `thread_func`: `testing` in front of `head==NULL`, `taken` in front of
`printf`, `cleaning` in the clean-up handler. -/
inductive ThreadPc
  | start
  | testing
  | waiting
  | woken
  | taken (n_number : Nat)
  | cleaning
  | done
deriving DecidableEq

inductive Owner (n : Nat)
  | main
  | thread (i : Fin n)
deriving DecidableEq

/-- A node is put on the list or taken off. -/
inductive Act
  | push (n_number : Nat)
  | got (n_number : Nat)

/-- The numbers on the list, who has the mutex, where everybody is, whether the threads have been
cancelled, the numbers printed, those of the nodes lost, and what has happened to the list. -/
structure State (n : Nat) where
  head : List Nat
  mtx : Option (Owner n)
  main : MainPc
  thread : Fin n → ThreadPc
  cancelled : Bool
  printed : List Nat
  lost : List Nat
  acts : List Act

inductive Event (n : Nat)
  | main
  | signal (j : Option (Fin n))
  | thread (i : Fin n)
  | wake (i : Fin n)
  | cancel (i : Fin n)

variable {n : Nat}

def State.move (s : State n) (i : Fin n) (pc : ThreadPc) : State n :=
  { s with thread := Function.update s.thread i pc }

/-- `main` goes on, except for the signal. -/
def mainStep (count : Nat) (s : State n) : Option (State n) :=
  match s.main with
  | .ready i =>
    if i < count then
      if s.mtx = none then some { s with main := .locked i, mtx := some .main } else none
    else some { s with main := .joining, cancelled := true }
  | .locked i =>
    some { s with main := .pushed i, head := i :: s.head, acts := s.acts ++ [.push i] }
  | .pushed _ => none
  | .signalled i => some { s with main := .ready (i + 1), mtx := none }
  | .joining => if ∀ i, s.thread i = .done then some { s with main := .finished } else none
  | .finished => none

/-- `pthread_cond_signal`: somebody who waits is woken, if there is anybody. -/
def signalStep (s : State n) (j : Option (Fin n)) : Option (State n) :=
  match s.main, j with
  | .pushed i, none =>
    if ∀ j, s.thread j ≠ .waiting then some { s with main := .signalled i } else none
  | .pushed i, some j =>
    if s.thread j = .waiting then some { s.move j .woken with main := .signalled i } else none
  | _, _ => none

/-- A thread goes on. -/
def threadStep (s : State n) (i : Fin n) : Option (State n) :=
  match s.thread i with
  | .start | .woken =>
    if s.mtx = none then some { s.move i .testing with mtx := some (.thread i) } else none
  | .testing =>
    match s.head with
    | [] => some { s.move i .waiting with mtx := none }
    | m :: head => some { s.move i (.taken m) with head := head, acts := s.acts ++ [.got m] }
  | .taken m => some { s.move i .testing with printed := s.printed ++ [m] }
  | .cleaning => some { s.move i .done with mtx := none }
  | .waiting | .done => none

/-- A thread acts upon its cancellation. -/
def cancelStep (s : State n) (i : Fin n) : Option (State n) :=
  if s.cancelled then
    match s.thread i with
    | .waiting | .woken =>
      if s.mtx = none then some { s.move i .cleaning with mtx := some (.thread i) } else none
    | .taken m => some { s.move i .cleaning with lost := s.lost ++ [m] }
    | _ => none
  else none

def step (count : Nat) (s : State n) : Event n → Option (State n)
  | .main => mainStep count s
  | .signal j => signalStep s j
  | .thread i => threadStep s i
  | .wake i => if s.thread i = .waiting then some (s.move i .woken) else none
  | .cancel i => cancelStep s i

def init : State n where
  head := []
  mtx := none
  main := .ready 0
  thread _ := .start
  cancelled := false
  printed := []
  lost := []
  acts := []

/-- What a step can be. -/
inductive Step (count : Nat) (s : State n) : State n → Prop
  | lock {i} : s.main = .ready i → i < count → s.mtx = none →
      Step count s { s with main := .locked i, mtx := some .main }
  | cancelAll {i} : s.main = .ready i → count ≤ i →
      Step count s { s with main := .joining, cancelled := true }
  | push {i} : s.main = .locked i →
      Step count s { s with main := .pushed i, head := i :: s.head, acts := s.acts ++ [.push i] }
  | signalNobody {i} : s.main = .pushed i → (∀ j, s.thread j ≠ .waiting) →
      Step count s { s with main := .signalled i }
  | signal {i j} : s.main = .pushed i → s.thread j = .waiting →
      Step count s { s.move j .woken with main := .signalled i }
  | unlock {i} : s.main = .signalled i → Step count s { s with main := .ready (i + 1), mtx := none }
  | join : s.main = .joining → (∀ i, s.thread i = .done) → Step count s { s with main := .finished }
  | enter {i} : s.thread i = .start ∨ s.thread i = .woken → s.mtx = none →
      Step count s { s.move i .testing with mtx := some (.thread i) }
  | wait {i} : s.thread i = .testing → s.head = [] →
      Step count s { s.move i .waiting with mtx := none }
  | get {i m head} : s.thread i = .testing → s.head = m :: head →
      Step count s { s.move i (.taken m) with head := head, acts := s.acts ++ [.got m] }
  | print {i m} : s.thread i = .taken m →
      Step count s { s.move i .testing with printed := s.printed ++ [m] }
  | leave {i} : s.thread i = .cleaning → Step count s { s.move i .done with mtx := none }
  | wake {i} : s.thread i = .waiting → Step count s (s.move i .woken)
  | cancel {i} : s.cancelled = true → s.thread i = .waiting ∨ s.thread i = .woken → s.mtx = none →
      Step count s { s.move i .cleaning with mtx := some (.thread i) }
  | drop {i m} : s.cancelled = true → s.thread i = .taken m →
      Step count s { s.move i .cleaning with lost := s.lost ++ [m] }

section Inversion

variable {count : Nat} {s t : State n} {i : Fin n}

/-- The steps of `main`. -/
lemma Step.of_mainStep (h : mainStep count s = some t) : Step count s t := by
  unfold mainStep at h
  cases hm : s.main with
  | ready i =>
    simp only [hm] at h
    split at h
    · obtain ⟨hmtx, h⟩ := Option.ite_none_right_eq_some.1 h
      cases h
      exact .lock hm ‹_› hmtx
    · cases h
      exact .cancelAll hm (Nat.not_lt.1 ‹_›)
  | locked i =>
    simp only [hm] at h
    cases h
    exact .push hm
  | pushed i =>
    simp only [hm] at h
    cases h
  | signalled i =>
    simp only [hm] at h
    cases h
    exact .unlock hm
  | joining =>
    simp only [hm] at h
    obtain ⟨hdone, h⟩ := Option.ite_none_right_eq_some.1 h
    cases h
    exact .join hm hdone
  | finished =>
    simp only [hm] at h
    cases h

/-- `pthread_cond_signal`. -/
lemma Step.of_signalStep {j : Option (Fin n)} (h : signalStep s j = some t) : Step count s t := by
  unfold signalStep at h
  split at h
  · obtain ⟨hnone, h⟩ := Option.ite_none_right_eq_some.1 h
    cases h
    exact .signalNobody ‹_› hnone
  · obtain ⟨hwait, h⟩ := Option.ite_none_right_eq_some.1 h
    cases h
    exact .signal ‹_› hwait
  · cases h

/-- The steps of a consumer. -/
lemma Step.of_threadStep (h : threadStep s i = some t) : Step count s t := by
  unfold threadStep at h
  cases hi : s.thread i with
  | start =>
    simp only [hi] at h
    obtain ⟨hmtx, h⟩ := Option.ite_none_right_eq_some.1 h
    cases h
    exact .enter (.inl hi) hmtx
  | woken =>
    simp only [hi] at h
    obtain ⟨hmtx, h⟩ := Option.ite_none_right_eq_some.1 h
    cases h
    exact .enter (.inr hi) hmtx
  | testing =>
    simp only [hi] at h
    split at h
    · cases h
      exact .wait hi ‹_›
    · cases h
      exact .get hi ‹_›
  | taken m =>
    simp only [hi] at h
    cases h
    exact .print hi
  | cleaning =>
    simp only [hi] at h
    cases h
    exact .leave hi
  | waiting | done =>
    simp only [hi] at h
    cases h

/-- A consumer is cancelled at a cancellation point. -/
lemma Step.of_cancelStep (h : cancelStep s i = some t) : Step count s t := by
  unfold cancelStep at h
  obtain ⟨hc, h⟩ := Option.ite_none_right_eq_some.1 h
  cases hi : s.thread i with
  | waiting =>
    simp only [hi] at h
    obtain ⟨hmtx, h⟩ := Option.ite_none_right_eq_some.1 h
    cases h
    exact .cancel hc (.inl hi) hmtx
  | woken =>
    simp only [hi] at h
    obtain ⟨hmtx, h⟩ := Option.ite_none_right_eq_some.1 h
    cases h
    exact .cancel hc (.inr hi) hmtx
  | taken m =>
    simp only [hi] at h
    cases h
    exact .drop hc hi
  | start | testing | cleaning | done =>
    simp only [hi] at h
    cases h

/-- `Step` covers every step. -/
lemma Step.of_step {e : Event n} (h : step count s e = some t) : Step count s t := by
  cases e with
  | main => exact .of_mainStep h
  | signal j => exact .of_signalStep h
  | thread i => exact .of_threadStep h
  | wake i =>
    obtain ⟨hi, h⟩ := Option.ite_none_right_eq_some.1 h
    cases h
    exact .wake hi
  | cancel i => exact .of_cancelStep h

end Inversion

/-! Who is where. -/

def MainPc.inside : MainPc → Bool
  | .locked _ | .pushed _ | .signalled _ => true
  | .ready _ | .joining | .finished => false

def ThreadPc.inside : ThreadPc → Bool
  | .testing | .taken _ | .cleaning => true
  | .start | .waiting | .woken | .done => false

def State.inside (s : State n) : Owner n → Bool
  | .main => s.main.inside
  | .thread i => (s.thread i).inside

/-- The number of the node that a thread is printing. -/
def ThreadPc.hand : ThreadPc → List Nat
  | .taken m => [m]
  | .start | .testing | .waiting | .woken | .cleaning | .done => []

/-- The number that is being printed. -/
def State.hand (s : State n) : List Nat :=
  match s.mtx with
  | some (.thread i) => (s.thread i).hand
  | some .main | none => []

section Mutex

variable {count : Nat} {s t : State n} {i : Fin n} {pc : ThreadPc}

/-- Where `main` goes decides whether it is inside. -/
lemma inside_main (hthread : t.thread = s.thread) :
    t.inside = Function.update s.inside .main t.main.inside := by
  funext k
  cases k with
  | main => rw [Function.update_self, State.inside]
  | thread i =>
    rw [Function.update_of_ne (by simp)]
    simp only [State.inside, hthread]

/-- So does where a thread goes. -/
lemma inside_move {b : Bool} (hthread : t.thread = Function.update s.thread i pc)
    (hmain : t.main.inside = s.main.inside) (hpc : pc.inside = b) :
    t.inside = Function.update s.inside (.thread i) b := by
  subst hpc
  funext k
  cases k with
  | main =>
    rw [Function.update_of_ne (by simp)]
    exact hmain
  | thread j =>
    by_cases hj : j = i
    · subst hj
      simp only [State.inside, hthread, Function.update_self]
    · rw [Function.update_of_ne (by simpa using hj)]
      simp only [State.inside, hthread, Function.update_of_ne hj]

/-- Every step keeps the mutex with the one who is inside. -/
lemma guarded_step (h : Guarded s.inside s.mtx) (hstep : Step count s t) :
    Guarded t.inside t.mtx := by
  cases hstep with
  | lock _ _ hmtx => exact h.lock hmtx (inside_main rfl)
  | cancelAll hm | push hm | signalNobody hm | join hm =>
    exact h.stay (inside_main rfl) (by rw [State.inside, hm]; rfl)
  | signal hm hj =>
    exact h.stay (inside_move rfl (by rw [hm]; rfl) rfl) (by rw [State.inside, hj]; rfl)
  | unlock hm => exact h.unlock (by rw [State.inside, hm]; rfl) (inside_main rfl)
  | enter _ hmtx | cancel _ _ hmtx => exact h.lock hmtx (inside_move rfl rfl rfl)
  | get hi | print hi | wake hi | drop _ hi =>
    exact h.stay (inside_move rfl rfl rfl) (by rw [State.inside, hi]; rfl)
  | wait hi | leave hi =>
    refine h.unlock ?_ (inside_move rfl rfl rfl)
    rw [State.inside, hi]
    rfl

/-- What the thread inside has in its hand. -/
lemma hand_inside (h : Guarded s.inside s.mtx) (hi : s.thread i = pc) (hin : pc.inside = true) :
    s.hand = pc.hand := by
  have hmtx : s.mtx = some (.thread i) := (h (.thread i)).1 (by rw [State.inside, hi]; exact hin)
  simp only [State.hand, hmtx, hi]

/-- Nobody's hand changes when a thread goes on that has nothing in its hand. -/
lemma hand_move (hmtx : t.mtx = s.mtx) (hthread : t.thread = Function.update s.thread i pc)
    (hpc : pc.hand = (s.thread i).hand) : t.hand = s.hand := by
  unfold State.hand
  rw [hmtx, hthread]
  split
  · rename_i j _
    by_cases hj : j = i
    · subst hj
      rw [Function.update_self, hpc]
    · rw [Function.update_of_ne hj]
  · rfl
  · rfl

end Mutex

/-! What happens to the list. -/

/-- The list after `acts`, if the node taken off is the first one each time. -/
def replay (acts : List Act) : Option (List Nat) :=
  acts.foldl (fun list act => list.bind fun list =>
    match act, list with
    | .push m, list => some (m :: list)
    | .got m, k :: list => if k = m then some list else none
    | .got _, [] => none) (some [])

def pushes (acts : List Act) : List Nat :=
  acts.filterMap fun act => match act with
    | .push m => some m
    | .got _ => none

def gots (acts : List Act) : List Nat :=
  acts.filterMap fun act => match act with
    | .push _ => none
    | .got m => some m

section Acts

variable {acts : List Act} {list : List Nat} {m : Nat}

/-- One more node at the head. -/
lemma replay_push (h : replay acts = some list) : replay (acts ++ [.push m]) = some (m :: list) := by
  rw [replay, List.foldl_append, ← replay, h]
  rfl

/-- One less. -/
lemma replay_got (h : replay acts = some (m :: list)) : replay (acts ++ [.got m]) = some list := by
  rw [replay, List.foldl_append, ← replay, h]
  simp

@[simp] lemma pushes_push : pushes (acts ++ [.push m]) = pushes acts ++ [m] := by simp [pushes]

@[simp] lemma pushes_got : pushes (acts ++ [.got m]) = pushes acts := by simp [pushes]

@[simp] lemma gots_push : gots (acts ++ [.push m]) = gots acts := by simp [gots]

@[simp] lemma gots_got : gots (acts ++ [.got m]) = gots acts ++ [m] := by simp [gots]

end Acts

/-- How many nodes `main` has put on the list. -/
def MainPc.made (count : Nat) : MainPc → Nat
  | .ready i | .locked i => i
  | .pushed i | .signalled i => i + 1
  | .joining | .finished => count

/-- The list, and what has become of the nodes that were on it. -/
structure History (count : Nat) (s : State n) : Prop where
  list : replay s.acts = some s.head
  made : pushes s.acts = List.range (s.main.made count)
  taken : (gots s.acts).Perm (s.printed ++ s.lost ++ s.hand)
  order : ∃ before, gots s.acts = before ++ s.hand ∧ s.printed.Sublist before

/-- The numbers of the loop of `main`, and the threads before they are cancelled. -/
structure Phase (count : Nat) (s : State n) : Prop where
  bound : s.main.made count ≤ count
  locked : ∀ i, s.main = .locked i → i < count
  cancelled : s.cancelled = true ↔ s.main = .joining ∨ s.main = .finished
  lost : s.cancelled = false → s.lost = []
  running : s.cancelled = false → ∀ i, s.thread i ≠ .cleaning ∧ s.thread i ≠ .done
  ended : s.main = .finished → ∀ i, s.thread i = .done

section Steps

variable {count : Nat} {s t : State n} {i : Fin n}

/-- The list and the nodes stay. -/
lemma History.frame (h : History count s) (hacts : t.acts = s.acts) (hhead : t.head = s.head)
    (hprinted : t.printed = s.printed) (hlost : t.lost = s.lost)
    (hmade : t.main.made count = s.main.made count) (hhand : t.hand = s.hand) : History count t := by
  refine ⟨?_, ?_, ?_, ?_⟩
  · rw [hacts, hhead, h.list]
  · rw [hacts, hmade, h.made]
  · rw [hacts, hprinted, hlost, hhand]
    exact h.taken
  · rw [hacts, hprinted, hhand]
    exact h.order

/-- A node is taken off. -/
lemma History.get {m : Nat} (h : History count s) (hs : s.hand = []) (ht : t.hand = [m])
    (hhead : s.head = m :: t.head) (hacts : t.acts = s.acts ++ [.got m])
    (hprinted : t.printed = s.printed) (hlost : t.lost = s.lost) (hmain : t.main = s.main) :
    History count t := by
  have htaken := h.taken
  obtain ⟨before, hbefore, hsub⟩ := h.order
  rw [hs, List.append_nil] at htaken hbefore
  refine ⟨?_, ?_, ?_, before, ?_, ?_⟩
  · rw [hacts]
    exact replay_got (hhead ▸ h.list)
  · rw [hacts, pushes_got, hmain, h.made]
  · rw [hacts, gots_got, ht, hprinted, hlost]
    exact htaken.append_right [m]
  · rw [hacts, gots_got, ht, hbefore]
  · rw [hprinted]
    exact hsub

/-- It leaves the hand, printed or lost. -/
lemma History.settle {m : Nat} (h : History count s) (hs : s.hand = [m]) (ht : t.hand = [])
    (hhead : t.head = s.head) (hacts : t.acts = s.acts) (hmain : t.main = s.main)
    (hgone : (s.printed ++ s.lost ++ [m]).Perm (t.printed ++ t.lost))
    (hprinted : t.printed.Sublist (s.printed ++ [m])) : History count t := by
  have htaken := h.taken
  obtain ⟨before, hbefore, hsub⟩ := h.order
  rw [hs] at htaken hbefore
  refine ⟨?_, ?_, ?_, before ++ [m], ?_, ?_⟩
  · rw [hacts, hhead, h.list]
  · rw [hacts, hmain, h.made]
  · rw [hacts, ht, List.append_nil]
    exact htaken.trans hgone
  · rw [hacts, ht, List.append_nil, hbefore]
  · exact hprinted.trans (hsub.append (.refl _))

/-- The list, what is printed and what is lost go together at every step. -/
lemma history_step (h : History count s) (hg : Guarded s.inside s.mtx) (hp : Phase count s)
    (hstep : Step count s t) : History count t := by
  have hg' := guarded_step hg hstep
  cases hstep with
  | lock hm _ hmtx =>
    refine h.frame rfl rfl rfl rfl (by rw [hm]; rfl) ?_
    simp only [State.hand, hmtx]
  | @cancelAll i hm hle =>
    have hi : i = count := by
      have hbound := hp.bound
      rw [hm] at hbound
      exact Nat.le_antisymm hbound hle
    exact h.frame rfl rfl rfl rfl (by rw [hm, hi]; rfl) rfl
  | @push i hm =>
    refine ⟨replay_push h.list, ?_, ?_, ?_⟩
    · rw [pushes_push, h.made, hm]
      exact List.range_succ.symm
    · rw [gots_push]
      exact h.taken
    · rw [gots_push]
      exact h.order
  | signalNobody hm => exact h.frame rfl rfl rfl rfl (by rw [hm]; rfl) rfl
  | signal hm hj =>
    exact h.frame rfl rfl rfl rfl (by rw [hm]; rfl) (hand_move rfl rfl (by rw [hj]; rfl))
  | unlock hm =>
    refine h.frame rfl rfl rfl rfl (by rw [hm]; rfl) ?_
    have hmtx : s.mtx = some .main := (hg .main).1 (by rw [State.inside, hm]; rfl)
    simp only [State.hand, hmtx]
  | join hm => exact h.frame rfl rfl rfl rfl (by rw [hm]; rfl) rfl
  | enter _ hmtx | cancel _ _ hmtx =>
    refine h.frame rfl rfl rfl rfl rfl ?_
    simp only [State.hand, hmtx, State.move, Function.update_self, ThreadPc.hand]
  | wait hi | leave hi =>
    exact h.frame rfl rfl rfl rfl rfl (hand_inside hg hi rfl).symm
  | wake hi => exact h.frame rfl rfl rfl rfl rfl (hand_move rfl rfl (by rw [hi]; rfl))
  | get hi hhead =>
    exact h.get (hand_inside hg hi rfl) (hand_inside hg' (Function.update_self ..) rfl) hhead rfl rfl
      rfl rfl
  | print hi =>
    refine h.settle (hand_inside hg hi rfl) (hand_inside hg' (Function.update_self ..) rfl) rfl rfl
      rfl ?_ (.refl _)
    rw [List.append_assoc, State.move, List.append_assoc]
    exact List.perm_append_comm.append_left _
  | drop _ hi =>
    refine h.settle (hand_inside hg hi rfl) (hand_inside hg' (Function.update_self ..) rfl) rfl rfl
      rfl ?_ (List.sublist_append_left ..)
    exact .of_eq (List.append_assoc ..)

/-- A thread goes on, not to its end unless it is cancelled. -/
lemma Phase.move (h : Phase count s) {pc : ThreadPc} (hthread : t.thread = Function.update s.thread i pc)
    (hmain : t.main = s.main) (hcancelled : t.cancelled = s.cancelled)
    (hlost : s.cancelled = false → t.lost = s.lost)
    (hpc : s.cancelled = false → pc ≠ .cleaning ∧ pc ≠ .done)
    (hdone : s.thread i ≠ .done) : Phase count t := by
  refine ⟨?_, ?_, ?_, ?_, ?_, ?_⟩
  · rw [hmain]
    exact h.bound
  · rw [hmain]
    exact h.locked
  · rw [hmain, hcancelled]
    exact h.cancelled
  · rw [hcancelled]
    exact fun hc => (hlost hc).trans (h.lost hc)
  · rw [hcancelled, hthread]
    exact fun hc => (Function.forall_update_iff s.thread fun _ pc => pc ≠ .cleaning ∧ pc ≠ .done).2
      ⟨hpc hc, fun j _ => h.running hc j⟩
  · rw [hmain]
    exact fun hm => absurd (h.ended hm i) hdone

/-- `main` goes on in its loop. -/
lemma Phase.main (h : Phase count s) (hthread : t.thread = s.thread) (hlost : t.lost = s.lost)
    (hcancelled : t.cancelled = s.cancelled) (hs : s.main ≠ .joining ∧ s.main ≠ .finished)
    (ht : t.main ≠ .joining ∧ t.main ≠ .finished) (hbound : t.main.made count ≤ count)
    (hlocked : ∀ i, t.main = .locked i → i < count) : Phase count t := by
  have hrun : s.cancelled = false := by
    rw [← Bool.not_eq_true, h.cancelled]
    simp [hs]
  refine ⟨hbound, hlocked, ?_, ?_, ?_, fun hm => absurd hm ht.2⟩
  · rw [hcancelled, hrun]
    simp [ht]
  · rw [hlost]
    exact fun _ => h.lost hrun
  · rw [hthread]
    exact fun _ => h.running hrun

/-- Nobody is cancelled before `main` is through. -/
lemma phase_step (h : Phase count s) (hstep : Step count s t) : Phase count t := by
  cases hstep with
  | @lock i hm hlt =>
    refine h.main rfl rfl rfl (by simp [hm]) (by simp) (Nat.le_of_lt hlt) ?_
    intro j hj
    cases hj
    exact hlt
  | cancelAll hm =>
    exact ⟨Nat.le_refl _, by simp, by simp, by simp, by simp, by simp⟩
  | push hm =>
    exact h.main rfl rfl rfl (by simp [hm]) (by simp) (h.locked _ hm) (by simp)
  | signalNobody hm =>
    have hbound := h.bound
    rw [hm] at hbound
    exact h.main rfl rfl rfl (by simp [hm]) (by simp) hbound (by simp)
  | @signal i j hm hj =>
    have hbound := h.bound
    rw [hm] at hbound
    have hmove : Phase count (s.move j .woken) :=
      h.move rfl rfl rfl (fun _ => rfl) (by simp) (by simp [hj])
    exact hmove.main rfl rfl rfl (by simp [State.move, hm]) (by simp) hbound (by simp)
  | unlock hm =>
    have hbound := h.bound
    rw [hm] at hbound
    exact h.main rfl rfl rfl (by simp [hm]) (by simp) hbound (by simp)
  | join hm hdone =>
    have hc : s.cancelled = true := h.cancelled.2 (.inl hm)
    exact ⟨Nat.le_refl _, by simp, by simp [hc], by simp [hc], by simp [hc], fun _ => hdone⟩
  | enter hi =>
    refine h.move rfl rfl rfl (fun _ => rfl) (by simp) ?_
    rcases hi with hi | hi <;> simp [hi]
  | wait hi | get hi | print hi | wake hi =>
    exact h.move rfl rfl rfl (fun _ => rfl) (by simp) (by simp [hi])
  | @leave i hi =>
    refine h.move rfl rfl rfl (fun _ => rfl) (fun hc => ?_) (by simp [hi])
    exact absurd hi (h.running hc i).1
  | cancel hc hi =>
    refine h.move rfl rfl rfl (fun _ => rfl) (by simp [hc]) ?_
    rcases hi with hi | hi <;> simp [hi]
  | drop hc hi => exact h.move rfl rfl rfl (by simp [hc]) (by simp [hc]) (by simp [hi])

/-- Before the end a node on the list finds a thread that is awake, or `main` has yet to signal. -/
def Awake (s : State n) : Prop :=
  s.cancelled = false → s.head ≠ [] → (∃ i, s.main = .pushed i) ∨ ∃ j, s.thread j ≠ .waiting

/-- A thread that goes on is awake. -/
lemma Awake.of_thread {pc : ThreadPc} (hthread : t.thread = Function.update s.thread i pc)
    (hpc : pc ≠ .waiting) : Awake t := by
  refine fun _ _ => .inr ⟨i, ?_⟩
  rw [hthread, Function.update_self]
  exact hpc

/-- `main` goes on without a new node. -/
lemma Awake.main (h : Awake s) (hthread : t.thread = s.thread) (hhead : t.head = s.head)
    (hcancelled : t.cancelled = s.cancelled) (hm : ∀ i, s.main ≠ .pushed i) : Awake t := by
  intro hc hne
  rw [hcancelled] at hc
  rw [hhead] at hne
  rw [hthread]
  rcases h hc hne with ⟨i, hi⟩ | hj
  · exact absurd hi (hm i)
  · exact .inr hj

/-- Every step leaves somebody awake for a node on the list. -/
lemma awake_step (hn : 0 < n) (h : Awake s) (hp : Phase count s) (hstep : Step count s t) :
    Awake t := by
  cases hstep with
  | lock hm | unlock hm => exact h.main rfl rfl rfl (by simp [hm])
  | cancelAll hm => exact fun hc => by cases hc
  | push hm => exact fun _ _ => .inl ⟨_, rfl⟩
  | signalNobody hm hnone => exact fun _ _ => .inr ⟨⟨0, hn⟩, hnone _⟩
  | signal hm hj => exact .of_thread rfl (by simp)
  | join hm =>
    intro hc
    rw [hp.cancelled.2 (.inl hm)] at hc
    cases hc
  | enter | get | print | leave | wake | cancel | drop => exact .of_thread rfl (by simp)
  | wait hi hhead => exact fun _ hne => absurd hhead hne

end Steps

structure Inv (count : Nat) (s : State n) : Prop where
  guarded : Guarded s.inside s.mtx
  history : History count s
  phase : Phase count s
  awake : 0 < n → Awake s

section Runs

variable {count : Nat} {s t : State n}

/-- It holds when the program starts. -/
lemma inv_init : Inv count (init : State n) where
  guarded := by
    intro k
    cases k <;> simp [State.inside, init, MainPc.inside, ThreadPc.inside]
  history := ⟨rfl, rfl, .refl _, [], rfl, .refl _⟩
  phase := by
    refine ⟨Nat.zero_le _, ?_, ?_, fun _ => rfl, ?_, ?_⟩ <;> simp [init]
  awake := fun _ _ hne => absurd rfl hne

/-- Every step keeps it. -/
lemma inv_step {e : Event n} (h : Inv count s) (hstep : step count s e = some t) : Inv count t :=
  have hst := Step.of_step hstep
  ⟨guarded_step h.guarded hst, history_step h.history h.guarded h.phase hst, phase_step h.phase hst,
    fun hn => awake_step hn (h.awake hn) h.phase hst⟩

/-- So it holds in every run. -/
lemma inv_reach (hr : Reach (step count) (fun _ _ => True) init s) : Inv count s :=
  hr.invariant inv_init fun _ _ _ h _ hstep => inv_step h hstep

end Runs

/-- One thread and three nodes. The thread waits first and is woken for nothing once; the last node
is put on the list while it is slow, and it is cancelled in `printf`. -/
def sampleRun : List (Event 1) :=
  [.thread 0, .thread 0, .main, .main, .signal (some 0), .main, .main, .main, .signal none, .main,
    .thread 0, .thread 0, .thread 0, .thread 0, .thread 0, .thread 0, .wake 0, .main, .main,
    .signal none, .main, .main, .thread 0, .thread 0, .cancel 0, .thread 0, .main]

end CcodeTest.Pthread
