import CcodeTest.Lib.Rank
import CcodeTest.Lib.Transition

/-!
# A lock that prefers the writer

`test_rwlock` is made with `PTHREAD_RWLOCK_PREFER_WRITER_NONRECURSIVE_NP`. `thread_read_a` takes it
for reading three times before it gives it back three times, `thread_read_b` does so twice, and
`thread_write_c` takes it for writing. Here there are any number of readers, reader `i` with
`depth i` locks.

While a writer waits and the lock is held for reading, `pthread_rwlock_rdlock` waits too, also in a
thread that holds the lock. So a reader between two of its locks and the writer wait for each other.
When the lock is not held by anyone, a reader may come before a writer that waits or not.
-/

namespace CcodeTest.Pthread.Rwlock
open CcodeTest.Lib

/-- A reader that takes its locks and holds `k`, or that gives them back and still holds `k`. -/
inductive ReaderPc
  | acquiring (k : Nat)
  | releasing (k : Nat)
deriving DecidableEq

inductive WriterPc
  | idle
  | waiting
  | holding
deriving DecidableEq

/-- The lock, as the library keeps it, and where the threads are. -/
structure State (n : Nat) where
  readers : Nat
  writer : Bool
  queued : Nat
  reader : Fin n → ReaderPc
  writerPc : WriterPc

inductive Event (n : Nat)
  | rdlock (i : Fin n)
  | rdunlock (i : Fin n)
  | wrlock
  | granted
  | wrunlock

variable {n : Nat}

/-- A call of `pthread_rwlock_rdlock` that does not wait. -/
def State.readable (s : State n) : Bool := !s.writer && (s.queued == 0 || s.readers == 0)

def step (depth : Fin n → Nat) (s : State n) : Event n → Option (State n)
  | .rdlock i =>
    match s.reader i with
    | .acquiring k =>
      if k < depth i ∧ s.readable then
        some { s with
          readers := s.readers + 1
          reader := Function.update s.reader i
            (if k + 1 = depth i then .releasing (k + 1) else .acquiring (k + 1)) }
      else none
    | .releasing _ => none
  | .rdunlock i =>
    match s.reader i with
    | .acquiring _ => none
    | .releasing k =>
      some { s with
        readers := s.readers - 1
        reader := Function.update s.reader i
          (if k = 1 then .acquiring 0 else .releasing (k - 1)) }
  | .wrlock =>
    if s.writerPc = .idle then some { s with writerPc := .waiting, queued := s.queued + 1 } else none
  | .granted =>
    if s.writerPc = .waiting ∧ s.writer = false ∧ s.readers = 0 then
      some { s with writerPc := .holding, writer := true, queued := s.queued - 1 }
    else none
  | .wrunlock =>
    if s.writerPc = .holding then some { s with writerPc := .idle, writer := false } else none

def init : State n where
  readers := 0
  writer := false
  queued := 0
  reader _ := .acquiring 0
  writerPc := .idle

/-- The locks that a reader holds. -/
def ReaderPc.held : ReaderPc → Nat
  | .acquiring k | .releasing k => k

/-- Where a reader can be. -/
def ReaderPc.Ok (d : Nat) : ReaderPc → Prop
  | .acquiring k => k = 0 ∨ k < d
  | .releasing k => 0 < k ∧ k ≤ d

/-- The lock says who holds it, and that is not a writer beside readers. -/
structure Inv (depth : Fin n → Nat) (s : State n) : Prop where
  readers : s.readers = ∑ i, (s.reader i).held
  reader : ∀ i, (s.reader i).Ok (depth i)
  writer : s.writer = true ↔ s.writerPc = .holding
  queued : s.queued = if s.writerPc = .waiting then 1 else 0
  exclusive : s.writer = true → s.readers = 0

/-- The writer waits, and a reader holds some of its locks and wants the next one. -/
def Stuck (depth : Fin n → Nat) (s : State n) : Prop :=
  s.writerPc = .waiting ∧ ∃ i k, s.reader i = .acquiring k ∧ 0 < k ∧ k < depth i

section Steps

variable {depth : Fin n → Nat} {s t : State n} {i : Fin n} {pc : ReaderPc}

/-- A reader gets the lock when no writer has it, and none waits while others read. -/
lemma readable_iff (h : Inv depth s) :
    s.readable = true ↔ s.writerPc ≠ .holding ∧ (s.writerPc = .waiting → s.readers = 0) := by
  have hw := h.writer
  have hq := h.queued
  cases hpc : s.writerPc <;> simp_all [State.readable]

/-- A reader goes on. -/
lemma Inv.move (h : Inv depth s) (hok : pc.Ok (depth i))
    (hreaders : s.readers + pc.held = t.readers + (s.reader i).held)
    (hreader : t.reader = Function.update s.reader i pc) (hpc : t.writerPc = s.writerPc)
    (hwriter : t.writer = s.writer) (hqueued : t.queued = s.queued)
    (hexclusive : s.writer = true → t.readers = 0) : Inv depth t := by
  refine ⟨?_, ?_, ?_, ?_, ?_⟩
  · have hsum := sum_update (fun _ => ReaderPc.held) s.reader i pc
    have hcount := h.readers
    rw [hreader]
    omega
  · rw [hreader]
    exact (Function.forall_update_iff s.reader fun j pc => pc.Ok (depth j)).2 ⟨hok, fun j _ => h.reader j⟩
  · rw [hwriter, hpc]
    exact h.writer
  · rw [hqueued, hpc]
    exact h.queued
  · rw [hwriter]
    exact hexclusive

/-- A reader takes one more lock. -/
lemma inv_rdlock {k : Nat} (h : Inv depth s) (hi : s.reader i = .acquiring k) (hk : k < depth i)
    (hread : s.readable = true) : Inv depth { s with
      readers := s.readers + 1
      reader := Function.update s.reader i
        (if k + 1 = depth i then .releasing (k + 1) else .acquiring (k + 1)) } := by
  have hidle : s.writer = false := by
    rw [← Bool.not_eq_true, h.writer]
    exact ((readable_iff h).1 hread).1
  refine h.move ?_ ?_ rfl rfl rfl rfl (by simp [hidle])
  · split
    · exact ⟨Nat.succ_pos k, hk⟩
    · exact .inr (by omega)
  · have hheld : (if k + 1 = depth i then ReaderPc.releasing (k + 1) else .acquiring (k + 1)).held =
        k + 1 := by
      split <;> rfl
    rw [hheld, hi]
    simp only [ReaderPc.held]
    omega

/-- It gives one back. -/
lemma inv_rdunlock {k : Nat} (h : Inv depth s) (hi : s.reader i = .releasing k) :
    Inv depth { s with
      readers := s.readers - 1
      reader := Function.update s.reader i
        (if k = 1 then .acquiring 0 else .releasing (k - 1)) } := by
  have hok := h.reader i
  rw [hi] at hok
  obtain ⟨hpos, hle⟩ := hok
  have hcount : k ≤ s.readers := by
    have hsum := le_sum ReaderPc.held s.reader i
    rw [hi, ← h.readers] at hsum
    exact hsum
  refine h.move ?_ ?_ rfl rfl rfl rfl fun hw => ?_
  · split
    · exact .inl rfl
    · exact ⟨by omega, by omega⟩
  · have hheld : (if k = 1 then ReaderPc.acquiring 0 else .releasing (k - 1)).held = k - 1 := by
      split <;> simp_all [ReaderPc.held]
    rw [hheld, hi]
    simp only [ReaderPc.held]
    omega
  · have hzero := h.exclusive hw
    omega

/-- Every step keeps the lock and its holders together. -/
lemma inv_step {e : Event n} (h : Inv depth s) (hstep : step depth s e = some t) : Inv depth t := by
  cases e with
  | rdlock i =>
    simp only [step] at hstep
    split at hstep
    · obtain ⟨⟨hk, hread⟩, hstep⟩ := Option.ite_none_right_eq_some.1 hstep
      cases hstep
      exact inv_rdlock h ‹_› hk hread
    · cases hstep
  | rdunlock i =>
    simp only [step] at hstep
    split at hstep
    · cases hstep
    · cases hstep
      exact inv_rdunlock h ‹_›
  | wrlock =>
    obtain ⟨hpc, hstep⟩ := Option.ite_none_right_eq_some.1 hstep
    cases hstep
    have hw := h.writer
    have hq := h.queued
    rw [hpc] at hw hq
    exact ⟨h.readers, h.reader, by simpa using hw, by simp [hq], h.exclusive⟩
  | granted =>
    obtain ⟨⟨hpc, hw, hzero⟩, hstep⟩ := Option.ite_none_right_eq_some.1 hstep
    cases hstep
    have hq := h.queued
    rw [hpc] at hq
    exact ⟨h.readers, h.reader, by simp, by simp [hq], fun _ => hzero⟩
  | wrunlock =>
    obtain ⟨hpc, hstep⟩ := Option.ite_none_right_eq_some.1 hstep
    cases hstep
    have hq := h.queued
    rw [hpc] at hq
    exact ⟨h.readers, h.reader, by simp, by simp [hq], by simp⟩

/-- Nobody has a lock in the beginning. -/
lemma inv_init : Inv depth (init : State n) :=
  ⟨by simp [init, ReaderPc.held], fun _ => .inl rfl, by simp [init], by simp [init], by simp [init]⟩

/-- Every run keeps the books of the lock. -/
lemma inv_reach (hr : Reach (step depth) (fun _ _ => True) init s) : Inv depth s :=
  hr.invariant inv_init fun _ _ _ h _ hstep => inv_step h hstep

/-- The lock is held for reading while some reader is between two of its locks. -/
lemma Stuck.readers_ne (hs : Stuck depth s) (h : Inv depth s) : s.readers ≠ 0 := by
  obtain ⟨-, i, k, hi, hpos, -⟩ := hs
  have hsum := le_sum ReaderPc.held s.reader i
  rw [hi, ← h.readers] at hsum
  exact Nat.ne_of_gt (Nat.lt_of_lt_of_le hpos hsum)

/-- No reader gets a lock then. -/
lemma Stuck.not_readable (hs : Stuck depth s) (h : Inv depth s) : s.readable = false := by
  rw [← Bool.not_eq_true, readable_iff h]
  exact fun hread => hs.readers_ne h (hread.2 hs.1)

/-- In this situation locks can only be given back, and it stays as it is. -/
lemma stuck_step {e : Event n} (h : Inv depth s) (hs : Stuck depth s)
    (hstep : step depth s e = some t) : Stuck depth t ∧ t.readers < s.readers := by
  have hread := hs.not_readable h
  have hne := hs.readers_ne h
  obtain ⟨hw, i, k, hi, hpos, hlt⟩ := hs
  cases e with
  | rdlock j =>
    simp only [step, hread] at hstep
    split at hstep <;> simp at hstep
  | rdunlock j =>
    simp only [step] at hstep
    split at hstep
    · cases hstep
    · rename_i hj
      cases hstep
      refine ⟨⟨hw, i, k, ?_, hpos, hlt⟩, Nat.sub_lt (Nat.pos_of_ne_zero hne) Nat.one_pos⟩
      have hji : i ≠ j := by
        rintro rfl
        rw [hi] at hj
        cases hj
      exact (Function.update_of_ne hji _ _).trans hi
  | wrlock =>
    obtain ⟨hpc, -⟩ := Option.ite_none_right_eq_some.1 hstep
    rw [hw] at hpc
    cases hpc
  | granted =>
    obtain ⟨⟨-, -, hzero⟩, -⟩ := Option.ite_none_right_eq_some.1 hstep
    exact absurd hzero hne
  | wrunlock =>
    obtain ⟨hpc, -⟩ := Option.ite_none_right_eq_some.1 hstep
    rw [hw] at hpc
    cases hpc

/-- And it stays like that. -/
lemma stuck_reach (h : Inv depth s) (hs : Stuck depth s)
    (hr : Reach (step depth) (fun _ _ => True) s t) : Stuck depth t :=
  (hr.invariant (I := fun t => Inv depth t ∧ Stuck depth t) ⟨h, hs⟩ fun _ _ _ h _ hstep =>
    ⟨inv_step h.1 hstep, (stuck_step h.1 h.2 hstep).1⟩).2

/-- Only so many locks can be given back. -/
lemma stuck_run {es : List (Event n)} (h : Inv depth s) (hs : Stuck depth s)
    (hrun : run (step depth) s es = some t) : es.length + t.readers ≤ s.readers := by
  induction es generalizing s with
  | nil =>
    cases hrun
    exact Nat.le_of_eq (Nat.zero_add _)
  | cons e es ih =>
    rw [run, Option.bind_eq_some_iff] at hrun
    obtain ⟨u, hu, hrun⟩ := hrun
    obtain ⟨hsu, hlt⟩ := stuck_step h hs hu
    have hrest := ih (inv_step h hu) hsu hrun
    rw [List.length_cons]
    omega

end Steps

/-- What a reader that holds the lock has still to do before it holds it no more. -/
def ReaderPc.left (d : Nat) : ReaderPc → Nat
  | .acquiring k => if k = 0 then 0 else 2 * d - k
  | .releasing k => k

def WriterPc.left : WriterPc → Nat
  | .idle => 2
  | .waiting => 1
  | .holding => 0

def State.measure (depth : Fin n → Nat) (s : State n) : Nat :=
  s.writerPc.left + ∑ i, (s.reader i).left (depth i)

section Progress

variable {depth : Fin n → Nat} {s t : State n} {i : Fin n} {k : Nat}

/-- A reader goes on. -/
lemma measure_move {pc : ReaderPc} (hreader : t.reader = Function.update s.reader i pc)
    (hpc : t.writerPc = s.writerPc) (hlt : pc.left (depth i) < (s.reader i).left (depth i)) :
    t.measure depth < s.measure depth := by
  have hsum := sum_update (fun j => ReaderPc.left (depth j)) s.reader i pc
  unfold State.measure
  rw [hreader, hpc]
  omega

/-- A reader that gives its locks back can do so at any time. -/
lemma nearer_releasing (h : Inv depth s) (hs : ¬ Stuck depth s) (hi : s.reader i = .releasing k) :
    ∃ e t, step depth s e = some t ∧ ¬ Stuck depth t ∧ t.measure depth < s.measure depth := by
  have hok := h.reader i
  rw [hi] at hok
  have hstep : step depth s (.rdunlock i) = some { s with
      readers := s.readers - 1
      reader := Function.update s.reader i
        (if k = 1 then .acquiring 0 else .releasing (k - 1)) } := by
    simp only [step, hi]
  refine ⟨_, _, hstep, ?_, measure_move (i := i) rfl rfl ?_⟩
  · rintro ⟨hw, j, k', hj, hpos, hlt⟩
    by_cases hji : j = i
    · subst hji
      simp only [Function.update_self] at hj
      split at hj
      · cases hj
        exact Nat.lt_irrefl _ hpos
      · cases hj
    · exact hs ⟨hw, j, k', (Function.update_of_ne hji _ _).symm.trans hj, hpos, hlt⟩
  · rw [hi]
    obtain ⟨hpos, -⟩ := hok
    split <;> simp only [ReaderPc.left, if_true] <;> omega

/-- Without a writer a reader can take its next lock. -/
lemma nearer_acquiring (h : Inv depth s) (hidle : s.writerPc = .idle)
    (hi : s.reader i = .acquiring k) (hpos : 0 < k) :
    ∃ e t, step depth s e = some t ∧ ¬ Stuck depth t ∧ t.measure depth < s.measure depth := by
  have hok := h.reader i
  rw [hi] at hok
  have hlt : k < depth i := hok.resolve_left (Nat.ne_of_gt hpos)
  have hread : s.readable = true := by
    rw [readable_iff h, hidle]
    simp
  have hstep : step depth s (.rdlock i) = some { s with
      readers := s.readers + 1
      reader := Function.update s.reader i
        (if k + 1 = depth i then .releasing (k + 1) else .acquiring (k + 1)) } := by
    simp only [step, hi]
    rw [if_pos ⟨hlt, hread⟩]
  refine ⟨_, _, hstep, ?_, measure_move (i := i) rfl rfl ?_⟩
  · rintro ⟨hw, -⟩
    cases hidle.symm.trans hw
  · rw [hi]
    split
    · simp only [ReaderPc.left, if_neg (Nat.ne_of_gt hpos)]
      omega
    · simp only [ReaderPc.left, if_neg (Nat.ne_of_gt hpos), if_neg (Nat.succ_ne_zero k)]
      omega

/-- If nobody holds the lock, the writer goes on. -/
lemma nearer_writer (h : Inv depth s) (hzero : s.readers = 0) (hw : s.writerPc ≠ .holding) :
    ∃ e t, step depth s e = some t ∧ ¬ Stuck depth t ∧ t.measure depth < s.measure depth := by
  cases hpc : s.writerPc with
  | idle =>
    have hstep : step depth s .wrlock =
        some { s with writerPc := .waiting, queued := s.queued + 1 } := by
      simp only [step, hpc, if_true]
    refine ⟨_, _, hstep, ?_, ?_⟩
    · rintro ⟨-, j, k, hj, hpos, -⟩
      have hsum := le_sum ReaderPc.held s.reader j
      rw [← h.readers, hzero, show s.reader j = .acquiring k from hj] at hsum
      exact absurd (Nat.le_zero.1 hsum) (Nat.ne_of_gt hpos)
    · simp [State.measure, hpc, WriterPc.left]
  | waiting =>
    have hfree : s.writer = false := by
      rw [← Bool.not_eq_true, h.writer]
      exact hw
    have hstep : step depth s .granted =
        some { s with writerPc := .holding, writer := true, queued := s.queued - 1 } := by
      simp only [step, hpc, hfree, hzero, and_self, if_true]
    refine ⟨_, _, hstep, ?_, ?_⟩
    · rintro ⟨hw, -⟩
      cases hw
    · simp [State.measure, hpc, WriterPc.left]
  | holding => exact absurd hpc hw

/-- A step that brings the writer nearer to the lock. -/
lemma nearer (h : Inv depth s) (hs : ¬ Stuck depth s) (hw : s.writerPc ≠ .holding) :
    ∃ e t, step depth s e = some t ∧ ¬ Stuck depth t ∧ t.measure depth < s.measure depth := by
  by_cases hzero : s.readers = 0
  · exact nearer_writer h hzero hw
  · rw [h.readers] at hzero
    obtain ⟨i, hheld⟩ := exists_of_sum_ne_zero ReaderPc.held s.reader hzero
    cases hi : s.reader i with
    | releasing k => exact nearer_releasing h hs hi
    | acquiring k =>
      rw [hi] at hheld
      have hpos : 0 < k := Nat.pos_of_ne_zero hheld
      cases hpc : s.writerPc with
      | idle => exact nearer_acquiring h hpc hi hpos
      | waiting =>
        have hok := h.reader i
        rw [hi] at hok
        exact absurd ⟨hpc, i, k, hi, hpos, hok.resolve_left (Nat.ne_of_gt hpos)⟩ hs
      | holding => exact absurd hpc hw

/-- From any state the program comes to, the writer can get the lock unless it waits while a reader
is between two of its locks. In that case it never gets it, and the whole program comes to a stop
after the locks that other readers can still give back. -/
theorem writer_gets_lock_iff (hr : Reach (step depth) (fun _ _ => True) init s) :
    ((∃ t, Reach (step depth) (fun _ _ => True) s t ∧ t.writerPc = .holding) ↔ ¬ Stuck depth s) ∧
      (Stuck depth s → ∀ es t, run (step depth) s es = some t →
        es.length ≤ ∑ i, (s.reader i).held) := by
  have h := inv_reach hr
  refine ⟨⟨?_, fun hs => ?_⟩, fun hs es t hrun => ?_⟩
  · rintro ⟨t, hst, hhold⟩ hs
    have hw := (stuck_reach h hs hst).1
    rw [hhold] at hw
    cases hw
  · refine Reach.exists_of_measure (I := fun s => Inv depth s ∧ ¬ Stuck depth s)
      (State.measure depth) ⟨h, hs⟩ ?_
    rintro s ⟨h, hs⟩ hw
    obtain ⟨e, t, hstep, hst, hlt⟩ := nearer h hs hw
    exact ⟨e, t, trivial, hstep, ⟨inv_step h hstep, hst⟩, hlt⟩
  · have hlen := stuck_run h hs hrun
    rw [← h.readers]
    omega

/-- A reader has its first lock and the writer waits. -/
def crossed (i : Fin n) : State n where
  readers := 1
  writer := false
  queued := 1
  reader := Function.update (fun _ => .acquiring 0) i (.acquiring 1)
  writerPc := .waiting

/-- A reader with two locks and a writer get there. -/
lemma reach_crossed (hi : 2 ≤ depth i) :
    Reach (step depth) (fun _ _ => True) init (crossed i) := by
  have hfirst : step depth init (.rdlock i) =
      some { crossed i with queued := 0, writerPc := .idle } := by
    have hreader : (init : State n).reader i = .acquiring 0 := rfl
    have hread : (init : State n).readable = true := rfl
    have hlt : 0 < depth i := by omega
    have hne : ¬ 0 + 1 = depth i := by omega
    simp only [step, hreader]
    rw [if_pos ⟨hlt, hread⟩, if_neg hne]
    rfl
  exact .tail .wrlock (.tail (.rdlock i) .refl trivial hfirst) trivial rfl

/-- From there nobody can go on. -/
lemma step_crossed (i : Fin n) (e : Event n) : step depth (crossed i) e = none := by
  have hacq (j : Fin n) : ∃ k, (crossed i).reader j = .acquiring k := by
    unfold crossed
    by_cases hj : j = i
    · subst hj
      exact ⟨1, by simp⟩
    · exact ⟨0, by simp [hj]⟩
  cases e with
  | rdlock j =>
    obtain ⟨k, hk⟩ := hacq j
    have hread : (crossed i).readable = false := rfl
    simp [step, hk, hread]
  | rdunlock j =>
    obtain ⟨k, hk⟩ := hacq j
    simp only [step, hk]
  | wrlock | granted | wrunlock => rfl

/-- The program can come to a point where no thread can go on exactly if some reader takes the lock
again while it holds it. -/
theorem deadlock_iff (depth : Fin n → Nat) :
    (∃ s, Reach (step depth) (fun _ _ => True) init s ∧ ∀ e, step depth s e = none) ↔
      ∃ i, 2 ≤ depth i := by
  refine ⟨?_, fun ⟨i, hi⟩ => ⟨crossed i, reach_crossed hi, step_crossed i⟩⟩
  rintro ⟨s, hr, hnone⟩
  by_contra hno
  have hs : ¬ Stuck depth s := fun ⟨_, i, k, _, hpos, hlt⟩ => hno ⟨i, by omega⟩
  by_cases hw : s.writerPc = .holding
  · have hstep := hnone .wrunlock
    simp [step, hw] at hstep
  · obtain ⟨e, t, hstep, -⟩ := nearer (inv_reach hr) hs hw
    cases (hnone e).symm.trans hstep

end Progress

/-- `thread_read_a` and `thread_read_b`. -/
def testDepth : Fin 2 → Nat
  | 0 => 3
  | 1 => 2

/-- The first one has two of its three locks when the writer comes, the other one both of its own. -/
theorem writer_gets_lock_iff_sample : ∃ s : State 2,
    Reach (step testDepth) (fun _ _ => True) init s ∧ s.writerPc = .waiting ∧
      ¬∃ t, Reach (step testDepth) (fun _ _ => True) s t ∧ t.writerPc = .holding := by
  have hrun : (run (step testDepth) (init : State 2)
      [.rdlock 0, .rdlock 1, .rdlock 0, .rdlock 1, .wrlock]).map
      (fun s => (s.writerPc, s.reader 0)) = some (.waiting, .acquiring 2) := by
    decide
  obtain ⟨s, hs, heq⟩ := Option.map_eq_some_iff.1 hrun
  obtain ⟨hw, hreader⟩ := Prod.mk.inj heq
  have hreach := Reach.of_run hs
  refine ⟨s, hreach, hw, ?_⟩
  rw [(writer_gets_lock_iff hreach).1, not_not]
  exact ⟨hw, 0, 2, hreader, by decide, by decide⟩

end CcodeTest.Pthread.Rwlock
