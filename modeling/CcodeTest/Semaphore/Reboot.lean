import Mathlib.Data.Fin.Basic
import Mathlib.Data.Fintype.Card
import CcodeTest.Lib.NamedSem
import CcodeTest.Lib.Transition

/-!
# Waiting for processes with a semaphore

`processA.c` tells the processes B and C by a signal that the system goes down, and takes a semaphore
once for each of them; `processB.c` and `processC.c` save their files and post it, if the signal has
come by then. All three open the semaphore by its name and remove the name when they are done, so
they need not hold the same one. A process that has not installed its handler is killed by the signal,
and a process may be killed at any other point.

A is successful only if all have saved their files (`successful_saved`), whatever the order of the
steps. This takes that they all hold the semaphore of A and that it was not there before with a value:
a value left from an earlier run stands for as many processes that A does not wait for.
-/

namespace CcodeTest.Semaphore
open CcodeTest.Lib

/-- Where process B or C is: before `sem_open`, before `sigaction`, before it saves its files, before
`if (reboot)`, before `sem_post`, before `sem_close` and before `sem_unlink`. -/
inductive WorkerPc
  | absent
  | opened
  | ready
  | saved
  | posting
  | closing
  | unlinking
  | exited
  | killed
deriving DecidableEq

/-- There is a process that a signal can be sent to. -/
def WorkerPc.alive : WorkerPc → Bool
  | .absent | .exited | .killed => false
  | _ => true

/-- A process with its variables. `pending` is a `SIGUSR1` that has not been handled, `hasSaved` says
that the files are saved. -/
structure Worker where
  pc : WorkerPc
  sem : Nat
  reboot : Bool
  sendToThread : Bool
  pending : Bool
  hasSaved : Bool
deriving DecidableEq

/-- Where A is: before `sem_open`, before the next `killall`, before `sem_timedwait` with `proc_cnt`,
before `sem_close`, and at its end. -/
inductive MasterPc
  | opening
  | signalling (i : Nat)
  | waiting (procCnt : Nat)
  | closing (successful : Bool)
  | finished (successful : Bool)
deriving DecidableEq

structure State (n : Nat) where
  books : Books (Fin n)
  worker : Fin n → Worker
  master : MasterPc
  sem : Nat

inductive Event (n : Nat)
  | openA
  | openAFails
  | signal
  | take
  | timeOut
  | leave
  | unlinkA
  | openSem (i : Fin n)
  | openFails (i : Fin n)
  | install (i : Fin n)
  | deliver (i : Fin n)
  | save (i : Fin n)
  | test (i : Fin n)
  | post (i : Fin n)
  | close (i : Fin n)
  | unlink (i : Fin n)
  | kill (i : Fin n)

variable {n : Nat}

/-- `sig_usr1_handler`. The signal that it sends on to the thread runs it once more, without effect. -/
def sigUsr1Handler (w : Worker) : Worker :=
  if w.sendToThread then { w with reboot := true, sendToThread := false } else w

/-- A process goes on to `w`. -/
def State.move (s : State n) (i : Fin n) (w : Worker) : State n :=
  { s with worker := Function.update s.worker i w }

def step (s : State n) : Event n → Option (State n)
  | .openA =>
    if s.master = .opening then
      some { s with books := s.books.semOpen.1, sem := s.books.semOpen.2, master := .signalling 0 }
    else none
  | .openAFails =>
    if s.master = .opening then
      some { s with books := s.books.semUnlink, master := .finished false }
    else none
  | .signal =>
    match s.master with
    | .signalling i =>
      if h : i < n then
        let w := s.worker ⟨i, h⟩
        some { s.move ⟨i, h⟩ { w with pending := w.pending || w.pc.alive } with
          master := .signalling (i + 1) }
      else some { s with master := .waiting n }
    | _ => none
  | .take =>
    match s.master with
    | .waiting (procCnt + 1) =>
      (s.books.semWait s.sem).map fun books => { s with books, master := .waiting procCnt }
    | _ => none
  | .timeOut =>
    match s.master with
    | .waiting (_ + 1) =>
      if s.books.value.getD s.sem 0 = 0 then some { s with master := .closing false } else none
    | _ => none
  | .leave => if s.master = .waiting 0 then some { s with master := .closing true } else none
  | .unlinkA =>
    match s.master with
    | .closing successful =>
      some { s with books := s.books.semUnlink, master := .finished successful }
    | _ => none
  | .openSem i =>
    if (s.worker i).pc = .absent then
      some { s.move i { s.worker i with pc := .opened, sem := s.books.semOpen.2 } with
        books := s.books.semOpen.1 }
    else none
  | .openFails i =>
    if (s.worker i).pc = .absent then
      some { s.move i { s.worker i with pc := .exited } with books := s.books.semUnlink }
    else none
  | .install i =>
    if (s.worker i).pc = .opened then some (s.move i { s.worker i with pc := .ready }) else none
  | .deliver i =>
    if (s.worker i).pending ∧ (s.worker i).pc.alive then
      if (s.worker i).pc = .opened then some (s.move i { s.worker i with pc := .killed })
      else some (s.move i (sigUsr1Handler { s.worker i with pending := false }))
    else none
  | .save i =>
    if (s.worker i).pc = .ready then
      some (s.move i { s.worker i with pc := .saved, hasSaved := true })
    else none
  | .test i =>
    if (s.worker i).pc = .saved then
      if (s.worker i).reboot then
        some (s.move i { s.worker i with pc := .posting, reboot := false })
      else some (s.move i { s.worker i with pc := .closing })
    else none
  | .post i =>
    if (s.worker i).pc = .posting then
      some { s.move i { s.worker i with pc := .closing } with
        books := s.books.semPost i (s.worker i).sem }
    else none
  | .close i =>
    if (s.worker i).pc = .closing then some (s.move i { s.worker i with pc := .unlinking }) else none
  | .unlink i =>
    if (s.worker i).pc = .unlinking then
      some { s.move i { s.worker i with pc := .exited } with books := s.books.semUnlink }
    else none
  | .kill i =>
    if (s.worker i).pc.alive then some (s.move i { s.worker i with pc := .killed }) else none

/-- Before anybody starts. A semaphore may be left from before, with a value. -/
def init (left : Option Nat) : State n where
  books := Books.start left
  worker _ := ⟨.absent, 0, false, true, false, false⟩
  master := .opening
  sem := 0

/-! What holds in every state that is reached. -/

/-- It has not come to its `sem_post`. -/
def WorkerPc.early : WorkerPc → Bool
  | .absent | .opened | .ready | .saved | .posting => true
  | _ => false

/-- Its files are saved. -/
def WorkerPc.late : WorkerPc → Bool
  | .saved | .posting | .closing | .unlinking => true
  | _ => false

/-- A process that has posted has handled the signal and saved its files before. -/
structure WorkerOk (b : Books (Fin n)) (i : Fin n) (w : Worker) : Prop where
  held : w.pc.alive = true → w.sem < b.value.length
  saved : w.pc.late = true → w.hasSaved = true
  told : w.reboot = true ∨ w.pc = .posting → w.sendToThread = false
  early : w.pc.early = true → ∀ id, (i, id) ∉ b.posted
  posted : ∀ id, (i, id) ∈ b.posted → id = w.sem ∧ w.hasSaved = true ∧ w.sendToThread = false

/-- How much A has taken. -/
def MasterPc.Taken (n : Nat) (taken : List Nat) : MasterPc → Prop
  | .opening | .signalling _ => taken = []
  | .waiting procCnt => taken.length + procCnt = n
  | .closing true | .finished true => taken.length = n
  | .closing false | .finished false => True

structure Inv (v : Nat → Nat) (s : State n) : Prop where
  balanced : s.books.Balanced v
  named : s.books.Named
  nodup : s.books.posted.Nodup
  worker : ∀ i, WorkerOk s.books i (s.worker i)
  taken : s.master.Taken n s.books.taken
  own : ∀ id ∈ s.books.taken, id = s.sem

section Preserve

variable {v : Nat → Nat} {s t : State n} {i : Fin n} {w : Worker} {b b' : Books (Fin n)}

/-- A process that is not concerned. -/
lemma WorkerOk.mono (h : WorkerOk b i w) (hlen : b.value.length ≤ b'.value.length)
    (hposted : ∀ id, (i, id) ∈ b'.posted ↔ (i, id) ∈ b.posted) : WorkerOk b' i w := by
  refine ⟨fun ha => Nat.lt_of_lt_of_le (h.held ha) hlen, h.saved, h.told, ?_, ?_⟩
  · intro he id
    rw [hposted]
    exact h.early he id
  · intro id hid
    exact h.posted id ((hposted id).1 hid)

/-- What holds of all processes still does when it holds of the one that goes on. -/
lemma forall_move (P : Fin n → Worker → Prop) (hw : P i w) (h : ∀ j, P j (s.worker j)) :
    ∀ j, P j ((s.move i w).worker j) :=
  (Function.forall_update_iff s.worker P).2 ⟨hw, fun j _ => h j⟩

lemma Inv.move (h : Inv v s) (hw : WorkerOk s.books i w) : Inv v (s.move i w) :=
  ⟨h.balanced, h.named, h.nodup, forall_move (WorkerOk s.books) hw h.worker, h.taken, h.own⟩

/-- A goes on. -/
lemma Inv.goOn (h : Inv v s) {m : MasterPc} (hm : m.Taken n s.books.taken) :
    Inv v { s with master := m } :=
  ⟨h.balanced, h.named, h.nodup, h.worker, hm, h.own⟩

/-- The name is removed. -/
lemma Inv.semUnlink (h : Inv v s) : Inv v { s with books := s.books.semUnlink } :=
  ⟨h.balanced, by rintro id ⟨⟩, h.nodup,
    fun j => (h.worker j).mono (Nat.le_refl _) fun _ => Iff.rfl, h.taken, h.own⟩

/-- Somebody opens the semaphore. -/
lemma Inv.semOpen (h : Inv v s) : Inv v { s with books := s.books.semOpen.1 } := by
  refine ⟨h.balanced.semOpen, h.named.semOpen, ?_, ?_, ?_, ?_⟩
  · simpa only [posted_semOpen] using h.nodup
  · exact fun j => (h.worker j).mono length_semOpen_le fun id => by rw [posted_semOpen]
  · simpa only [taken_semOpen] using h.taken
  · simpa only [taken_semOpen] using h.own

/-- A opens it. It has taken nothing yet. -/
lemma Inv.openA (h : Inv v s) (hm : s.master = .opening) :
    Inv v { s with books := s.books.semOpen.1, sem := s.books.semOpen.2, master := .signalling 0 } := by
  have hopen := h.semOpen
  have htaken : s.books.taken = [] := by
    have ht := h.taken
    rwa [hm] at ht
  refine ⟨hopen.balanced, hopen.named, hopen.nodup, hopen.worker, ?_, ?_⟩
  · rw [taken_semOpen]
    exact htaken
  · intro id hid
    rw [taken_semOpen, htaken] at hid
    cases hid

/-- A takes it. -/
lemma Inv.take (h : Inv v s) {procCnt : Nat} (hm : s.master = .waiting (procCnt + 1))
    (hb : s.books.semWait s.sem = some b) :
    Inv v { s with books := b, master := .waiting procCnt } := by
  have hlen := length_semWait hb
  have hbal := h.balanced.semWait hb
  have hnamed := h.named.semWait hb
  obtain ⟨htaken, hown⟩ := taken_semWait h.own hb
  obtain ⟨-, rfl⟩ := semWait_eq_some hb
  have ht := h.taken
  rw [hm] at ht
  refine ⟨hbal, hnamed, h.nodup, ?_, ?_, hown⟩
  · exact fun j => (h.worker j).mono (Nat.le_of_eq hlen.symm) fun _ => Iff.rfl
  · simp only [MasterPc.Taken] at ht ⊢
    rw [htaken]
    omega

/-- A process posts, for the first time. -/
lemma Inv.post (h : Inv v s) (hi : (s.worker i).pc = .posting) :
    Inv v { s.move i { s.worker i with pc := .closing } with
      books := s.books.semPost i (s.worker i).sem } := by
  have hw := h.worker i
  have hnew := hw.early (by rw [hi]; rfl)
  have hheld := hw.held (by rw [hi]; rfl)
  refine ⟨h.balanced.semPost hheld i, h.named.semPost _ _, nodup_semPost h.nodup (hnew _), ?_,
    h.taken, h.own⟩
  · intro j
    by_cases hj : j = i
    · subst hj
      simp only [State.move, Function.update_self]
      have hsaved := hw.saved (by rw [hi]; rfl)
      refine ⟨fun _ => ?_, fun _ => hsaved, ?_, ?_, ?_⟩
      · rw [length_semPost]
        exact hheld
      · exact fun _ => hw.told (.inr hi)
      · intro he
        cases he
      · intro id hid
        rcases List.mem_append.1 hid with hid | hid
        · exact absurd hid (hnew id)
        · cases List.mem_singleton.1 hid
          exact ⟨rfl, hsaved, hw.told (.inr hi)⟩
    · simp only [State.move, Function.update_of_ne hj]
      exact (h.worker j).mono (Nat.le_of_eq length_semPost.symm) fun _ => mem_posted_semPost hj

/-- A process that goes on without a call to the semaphore, or dies. -/
lemma WorkerOk.goOn (h : WorkerOk b i w) (pc : WorkerPc) (hheld : pc.alive = true → w.pc.alive = true)
    (hsaved : pc.late = true → w.pc.late = true) (htold : pc ≠ .posting)
    (hearly : pc.early = true → w.pc.early = true) : WorkerOk b i { w with pc } := by
  refine ⟨fun ha => h.held (hheld ha), fun hl => h.saved (hsaved hl), ?_,
    fun he => h.early (hearly he), h.posted⟩
  rintro (hr | hp)
  · exact h.told (.inl hr)
  · exact absurd hp htold

lemma WorkerOk.setPending (h : WorkerOk b i w) (pending : Bool) :
    WorkerOk b i { w with pending } :=
  ⟨h.held, h.saved, h.told, h.early, h.posted⟩

lemma WorkerOk.handler (h : WorkerOk b i w) : WorkerOk b i (sigUsr1Handler w) := by
  unfold sigUsr1Handler
  split
  · refine ⟨h.held, h.saved, fun _ => rfl, h.early, ?_⟩
    intro id hid
    obtain ⟨hsem, hsaved, -⟩ := h.posted id hid
    exact ⟨hsem, hsaved, rfl⟩
  · exact h

/-- A process removes the name and leaves. -/
lemma Inv.exit (h : Inv v s) (i : Fin n) : Inv v { s.move i { s.worker i with pc := .exited } with
    books := s.books.semUnlink } := by
  have hmove := h.semUnlink.move ((h.semUnlink.worker i).goOn .exited (by simp [WorkerPc.alive])
    (by simp [WorkerPc.late]) (by simp) (by simp [WorkerPc.early]))
  exact ⟨hmove.balanced, hmove.named, hmove.nodup, hmove.worker, hmove.taken, hmove.own⟩

/-- No step breaks it. -/
lemma step_inv {e : Event n} (h : Inv v s) (hs : step s e = some t) : Inv v t := by
  cases e with
  | openA =>
    simp only [step] at hs
    split at hs <;> cases hs
    exact h.openA ‹_›
  | openAFails =>
    simp only [step] at hs
    split at hs <;> cases hs
    exact h.semUnlink.goOn trivial
  | signal =>
    simp only [step] at hs
    split at hs
    · rename_i k hm
      have ht := h.taken
      rw [hm] at ht
      split at hs
      · cases hs
        exact (h.move ((h.worker _).setPending _)).goOn ht
      · cases hs
        refine h.goOn ?_
        simp only [MasterPc.Taken] at ht ⊢
        rw [ht, List.length_nil, Nat.zero_add]
    · cases hs
  | take =>
    simp only [step] at hs
    split at hs
    · obtain ⟨b, hb, rfl⟩ := Option.map_eq_some_iff.1 hs
      exact h.take ‹_› hb
    · cases hs
  | timeOut =>
    simp only [step] at hs
    split at hs
    · split at hs <;> cases hs
      exact h.goOn trivial
    · cases hs
  | leave =>
    simp only [step] at hs
    split at hs <;> cases hs
    rename_i hm
    have ht := h.taken
    rw [hm] at ht
    exact h.goOn ht
  | unlinkA =>
    simp only [step] at hs
    split at hs <;> cases hs
    rename_i ok hm
    have ht := h.taken
    rw [hm] at ht
    refine h.semUnlink.goOn ?_
    cases ok with
    | true => exact ht
    | false => trivial
  | openSem i =>
    simp only [step] at hs
    split at hs <;> cases hs
    rename_i hi
    have hopen := h.semOpen
    have hw := hopen.worker i
    have hnew := hw.early (by simp only [hi]; rfl)
    have hmove := hopen.move (i := i) (w := { s.worker i with pc := .opened, sem := s.books.semOpen.2 })
      ⟨fun _ => h.named.lt_semOpen, by simp [WorkerPc.late],
        fun hr => hw.told (.inl (hr.resolve_right (by simp))), fun _ => hnew,
        fun id hid => absurd hid (hnew id)⟩
    exact ⟨hmove.balanced, hmove.named, hmove.nodup, hmove.worker, hmove.taken, hmove.own⟩
  | openFails i =>
    simp only [step] at hs
    split at hs <;> cases hs
    exact h.exit i
  | install i =>
    simp only [step] at hs
    split at hs <;> cases hs
    rename_i hi
    exact h.move ((h.worker i).goOn _ (by rw [hi]; decide) (by rw [hi]; decide) (by simp)
      (by rw [hi]; decide))
  | deliver i =>
    simp only [step] at hs
    split at hs
    · split at hs <;> cases hs
      · exact h.move ((h.worker i).goOn _ (by simp [WorkerPc.alive]) (by simp [WorkerPc.late])
          (by simp) (by simp [WorkerPc.early]))
      · exact h.move ((h.worker i).setPending false).handler
    · cases hs
  | save i =>
    simp only [step] at hs
    split at hs <;> cases hs
    rename_i hi
    have hw := h.worker i
    have hnew := hw.early (by rw [hi]; rfl)
    refine h.move ⟨fun _ => hw.held (by rw [hi]; rfl), fun _ => rfl, ?_, fun _ => hnew,
      fun id hid => absurd hid (hnew id)⟩
    exact fun hr => hw.told (.inl (hr.resolve_right (by simp)))
  | test i =>
    simp only [step] at hs
    split at hs
    · rename_i hi
      have hw := h.worker i
      split at hs <;> cases hs
      · rename_i hr
        have hnew := hw.early (by rw [hi]; rfl)
        exact h.move ⟨fun _ => hw.held (by rw [hi]; rfl), fun _ => hw.saved (by rw [hi]; rfl),
          fun _ => hw.told (.inl hr), fun _ => hnew, fun id hid => absurd hid (hnew id)⟩
      · exact h.move (hw.goOn _ (by rw [hi]; decide) (by rw [hi]; decide) (by simp)
          (by simp [WorkerPc.early]))
    · cases hs
  | post i =>
    simp only [step] at hs
    split at hs <;> cases hs
    exact h.post ‹_›
  | close i =>
    simp only [step] at hs
    split at hs <;> cases hs
    rename_i hi
    exact h.move ((h.worker i).goOn _ (by rw [hi]; decide) (by rw [hi]; decide) (by simp)
      (by simp [WorkerPc.early]))
  | unlink i =>
    simp only [step] at hs
    split at hs <;> cases hs
    exact h.exit i
  | kill i =>
    simp only [step] at hs
    split at hs <;> cases hs
    exact h.move ((h.worker i).goOn _ (by simp [WorkerPc.alive]) (by simp [WorkerPc.late]) (by simp)
      (by simp [WorkerPc.early]))

end Preserve

lemma init_inv (left : Option Nat) : Inv (leftValue left) (init left : State n) := by
  have hworker (b : Books (Fin n)) (hb : b.posted = []) (i : Fin n) :
      WorkerOk b i ⟨.absent, 0, false, true, false, false⟩ := by
    refine ⟨by simp [WorkerPc.alive], by simp [WorkerPc.late], by simp, ?_, ?_⟩
    · intro _ id
      rw [hb]
      exact List.not_mem_nil
    · intro id hid
      rw [hb] at hid
      cases hid
  refine ⟨balanced_start left, named_start left, ?_, hworker _ (posted_start left), taken_start left, ?_⟩
  · simp only [init, posted_start, List.nodup_nil]
  · intro id hid
    rw [show (init left : State n).books.taken = [] from taken_start left] at hid
    cases hid

lemma reach_inv {left : Option Nat} {s : State n}
    (hr : Reach step (fun _ _ => True) (init left) s) : Inv (leftValue left) s :=
  hr.invariant (init_inv left) fun _ _ _ h _ hs => step_inv h hs

/-- In every interleaving, with processes that are killed and calls that fail: when A has taken the
semaphore once for each process, at least as many as it waits for, less the value that was left in
the semaphore, have handled the signal, saved their files and posted to it. With no such value these
are all, and all hold the semaphore of A. -/
theorem successful_saved (left : Option Nat) (s : State n)
    (hr : Reach step (fun _ _ => True) (init left) s) (hm : s.master = .finished true) :
    n ≤ (s.books.posters s.sem).card + left.getD 0 ∧
      (∀ i ∈ s.books.posters s.sem,
        (s.worker i).hasSaved = true ∧ (s.worker i).sendToThread = false ∧
          (s.worker i).sem = s.sem) ∧
      (left.getD 0 = 0 → ∀ i, i ∈ s.books.posters s.sem) := by
  have h := reach_inv hr
  have htaken := h.taken
  rw [hm] at htaken
  have hcount : s.books.taken.count s.sem = n := by
    rw [count_taken h.own]
    exact htaken
  have hle : s.books.taken.count s.sem ≤ (s.books.posters s.sem).card + leftValue left s.sem :=
    h.balanced.card_posters h.nodup
  have hleft := leftValue_le left s.sem
  have hcard : n ≤ (s.books.posters s.sem).card + left.getD 0 := by omega
  refine ⟨hcard, ?_, ?_⟩
  · intro i hi
    obtain ⟨hsem, hsaved, htold⟩ := (h.worker i).posted s.sem (mem_posters.1 hi)
    exact ⟨hsaved, htold, hsem.symm⟩
  · intro hzero i
    have huniv : s.books.posters s.sem = Finset.univ := by
      apply Finset.eq_univ_of_card
      rw [Fintype.card_fin]
      apply Nat.le_antisymm
      · exact (Finset.card_le_univ _).trans (Nat.le_of_eq (Fintype.card_fin n))
      · omega
    rw [huniv]
    exact Finset.mem_univ i

/-- B and C start before A, and C comes to its `sem_post` first. -/
def sampleRun (b c : Fin 2) : List (Event 2) :=
  [.openSem b, .openSem c, .install c, .install b, .openA, .signal, .signal, .signal, .deliver c,
    .save c, .deliver b, .save b, .test c, .post c, .take, .test b, .post b, .close c, .unlink c,
    .take, .leave, .unlinkA]

theorem successful_saved_sample : ∃ s : State 2,
    Reach step (fun _ _ => True) (init none) s ∧ s.master = .finished true ∧
      ((none : Option Nat).getD 0 = 0 → ∀ i, i ∈ s.books.posters s.sem) := by
  have hrun : (run step (init none) (sampleRun 0 1)).map State.master = some (.finished true) := by
    decide
  obtain ⟨s, hs, hm⟩ := Option.map_eq_some_iff.1 hrun
  have hreach := Reach.of_run hs
  exact ⟨s, hreach, hm, (successful_saved none s hreach hm).2.2⟩

end CcodeTest.Semaphore
