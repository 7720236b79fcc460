import Mathlib.Data.Finset.Card
import Mathlib.Data.Nat.Bitwise
import Mathlib.Data.Fin.Basic
import CcodeTest.Lib.Transition

/-!
# Synchronising processes by fifos

`master_process.c` tells every process that has made its fifo to save its files, and waits until all
of them have answered through the fifo of the master; `slaveA_fifo.c` and `slaveB_fifo.c` are two such
processes. What they do is interleaved by the scheduler, so the system is a step function over their
states and the bytes in the fifos, an event naming who goes on and how a call of the kernel ends.

`open` on a fifo waits for the other end, so it is one step of both sides. A process may be killed at
any point. The master gives up when `select` returns zero, which it does only if there is nothing to
read.

An answer is a number, and the master only compares two sets of bits: those of the fifos it has
opened, and those of the answers. That it reports success only when all have answered does not
follow from the numbers being right. There are not more answers than fifos that were opened
(`reported_answered`), so any coincidence of the two sets takes all of them.
-/

namespace CcodeTest.Fifo
open CcodeTest.Lib

/-- The set of bits `1 << i`. -/
def bitsOf (is : List Nat) : Nat := is.foldl (fun bits i => bits ||| 1 <<< i) 0

/-- The entries of `res_fifo[]` and the number each process answers with. All shifts are those of an
`int`, and no answer is negative, so that the test `fifo_index[i] >= 0` never fails. -/
structure Config (n : Nat) where
  n_le : n ≤ 31
  answer : Fin n → Nat
  answer_lt : ∀ i, answer i < 31

/-- `SP_MON_DAEMON_FIFO_INDEX` of `slaveA_fifo.c`, `SP_MON_DAEMON_FIFO1_INDEX` of `slaveB_fifo.c`. -/
def slaves : Config 2 where
  n_le := by decide
  answer i := i
  answer_lt := by decide

/-- Where a process is: not started, in `open` of its own fifo, before `open` of the fifo of the
master, in `read`, told to save its files, before `write`, before its end. -/
inductive SlavePc
  | absent
  | opening
  | opened
  | reading
  | saving
  | saved
  | answered
  | exited
  | killed
deriving DecidableEq

/-- Where the master is: before `access` for entry `i`, before `write` to it, in `select`, and its two
ends. -/
inductive MasterPc
  | opening (i : Nat)
  | writing (i : Nat)
  | selecting
  | reported
  | timedOut
deriving DecidableEq

def MasterPc.finished : MasterPc → Bool
  | .reported => true
  | .timedOut => true
  | _ => false

/-- The processes, the fifos and the variables of the master. `created` says which fifos there are,
`saved` which processes have saved their files, and `sent` who has answered, in this order. -/
structure State (n : Nat) where
  created : Fin n → Bool
  slave : Fin n → SlavePc
  fifo : Fin n → Nat
  saved : Fin n → Bool
  master : MasterPc
  syncBit : Nat
  resSyncBit : Nat
  masterFifo : List Nat
  sent : List (Fin n)

/-- Who goes on. The three ends of `open` in the master are `skip`, if there is no fifo, `openBoth` and
`openFails`; those of `select` are `serve`, `timeOut` and `interrupted`. -/
inductive Event (n : Nat)
  | start (i : Fin n)
  | skip
  | openBoth
  | openFails
  | write
  | openMaster (i : Fin n)
  | read (i : Fin n)
  | save (i : Fin n)
  | answer (i : Fin n)
  | close (i : Fin n)
  | kill (i : Fin n)
  | serve
  | timeOut
  | interrupted

variable {n : Nat}

/-- The process goes on to `pc`. -/
def State.move (s : State n) (i : Fin n) (pc : SlavePc) : State n :=
  { s with slave := Function.update s.slave i pc }

/-- `if (sync_bit == res_sync_bit)` at the end of the loop. -/
def State.check (s : State n) : State n :=
  { s with master := if s.syncBit = s.resSyncBit then .reported else .selecting }

/-- The bytes that one `read` of the master returns. -/
def readSize : Nat := 32

def step (c : Config n) (s : State n) : Event n → Option (State n)
  | .start i =>
    if s.slave i = .absent then
      some { s.move i .opening with created := Function.update s.created i true }
    else none
  | .skip =>
    match s.master with
    | .opening i =>
      if h : i < n then
        if s.created ⟨i, h⟩ then none else some { s with master := .opening (i + 1) }
      else some { s with master := .selecting }
    | _ => none
  | .openBoth =>
    match s.master with
    | .opening i =>
      if h : i < n then
        if s.created ⟨i, h⟩ ∧ s.slave ⟨i, h⟩ = .opening then
          some { s.move ⟨i, h⟩ .opened with syncBit := s.syncBit ||| 1 <<< i, master := .writing i }
        else none
      else none
    | _ => none
  | .openFails =>
    match s.master with
    | .opening i =>
      if h : i < n then
        if s.created ⟨i, h⟩ then some { s with master := .opening (i + 1) } else none
      else none
    | _ => none
  | .write =>
    match s.master with
    | .writing i =>
      if h : i < n then
        -- without a reader the signal is caught and `write` fails; the bit has been set already
        if s.slave ⟨i, h⟩ = .killed then some { s with master := .opening (i + 1) }
        else some { s with
          fifo := Function.update s.fifo ⟨i, h⟩ (s.fifo ⟨i, h⟩ + 1), master := .opening (i + 1) }
      else none
    | _ => none
  | .openMaster i =>
    if s.slave i = .opened ∧ s.master.finished = false then some (s.move i .reading) else none
  | .read i =>
    if s.slave i = .reading then
      if 0 < s.fifo i then
        some { s.move i .saving with fifo := Function.update s.fifo i (s.fifo i - 1) }
      else if s.master.finished then some (s.move i .exited)
      else none
    else none
  | .save i =>
    if s.slave i = .saving then
      some { s.move i .saved with saved := Function.update s.saved i true }
    else none
  | .answer i =>
    if s.slave i = .saved then
      if s.master.finished then some (s.move i .killed)
      else some { s.move i .answered with
        masterFifo := s.masterFifo ++ [c.answer i], sent := s.sent ++ [i] }
    else none
  | .close i => if s.slave i = .answered then some (s.move i .exited) else none
  | .kill i =>
    if s.slave i = .absent ∨ s.slave i = .exited ∨ s.slave i = .killed then none
    else some (s.move i .killed)
  | .serve =>
    if s.master = .selecting ∧ s.masterFifo ≠ [] then
      some { s with
        resSyncBit := (s.masterFifo.take readSize).foldl (fun bits i => bits ||| 1 <<< i) s.resSyncBit
        masterFifo := s.masterFifo.drop readSize }.check
    else none
  | .timeOut =>
    if s.master = .selecting ∧ s.masterFifo = [] then some { s with master := .timedOut } else none
  | .interrupted => if s.master = .selecting then some s.check else none

/-- When the master starts its loop, after it has made a fresh fifo. Others may be left from before. -/
def init (created : Fin n → Bool) : State n where
  created := created
  slave _ := .absent
  fifo _ := 0
  saved _ := false
  master := .opening 0
  syncBit := 0
  resSyncBit := 0
  masterFifo := []
  sent := []

/-- What a step can do, one constructor for each way an event can end. -/
inductive Step (c : Config n) (s : State n) : Event n → State n → Prop
  | start (i : Fin n) : s.slave i = .absent →
      Step c s (.start i) { s.move i .opening with created := Function.update s.created i true }
  | skip (i : Fin n) : s.master = .opening i → s.created i = false →
      Step c s .skip { s with master := .opening (i + 1) }
  | leave (i : Nat) : s.master = .opening i → n ≤ i → Step c s .skip { s with master := .selecting }
  | openBoth (i : Fin n) : s.master = .opening i → s.created i = true → s.slave i = .opening →
      Step c s .openBoth
        { s.move i .opened with syncBit := s.syncBit ||| 1 <<< i.val, master := .writing i }
  | openFails (i : Fin n) : s.master = .opening i → s.created i = true →
      Step c s .openFails { s with master := .opening (i + 1) }
  | writeFails (i : Fin n) : s.master = .writing i → s.slave i = .killed →
      Step c s .write { s with master := .opening (i + 1) }
  | write (i : Fin n) : s.master = .writing i → s.slave i ≠ .killed →
      Step c s .write { s with
        fifo := Function.update s.fifo i (s.fifo i + 1), master := .opening (i + 1) }
  | openMaster (i : Fin n) : s.slave i = .opened → s.master.finished = false →
      Step c s (.openMaster i) (s.move i .reading)
  | read (i : Fin n) : s.slave i = .reading → 0 < s.fifo i →
      Step c s (.read i)
        { s.move i .saving with fifo := Function.update s.fifo i (s.fifo i - 1) }
  | readEnd (i : Fin n) : s.slave i = .reading → s.fifo i = 0 → s.master.finished = true →
      Step c s (.read i) (s.move i .exited)
  | save (i : Fin n) : s.slave i = .saving →
      Step c s (.save i) { s.move i .saved with saved := Function.update s.saved i true }
  | answer (i : Fin n) : s.slave i = .saved → s.master.finished = false →
      Step c s (.answer i) { s.move i .answered with
        masterFifo := s.masterFifo ++ [c.answer i], sent := s.sent ++ [i] }
  | answerFails (i : Fin n) : s.slave i = .saved → s.master.finished = true →
      Step c s (.answer i) (s.move i .killed)
  | close (i : Fin n) : s.slave i = .answered → Step c s (.close i) (s.move i .exited)
  | kill (i : Fin n) : s.slave i ≠ .absent → s.slave i ≠ .exited → s.slave i ≠ .killed →
      Step c s (.kill i) (s.move i .killed)
  | serve : s.master = .selecting → s.masterFifo ≠ [] →
      Step c s .serve { s with
        resSyncBit := (s.masterFifo.take readSize).foldl (fun bits i => bits ||| 1 <<< i) s.resSyncBit
        masterFifo := s.masterFifo.drop readSize }.check
  | timeOut : s.master = .selecting → s.masterFifo = [] →
      Step c s .timeOut { s with master := .timedOut }
  | interrupted : s.master = .selecting → Step c s .interrupted s.check

/-- `Step` covers every step. -/
lemma Step.of_step {c : Config n} {s t : State n} {e : Event n} (h : step c s e = some t) :
    Step c s e t := by
  cases e with
  | start i =>
    simp only [step] at h
    split at h <;> cases h
    exact .start i ‹_›
  | skip =>
    simp only [step] at h
    split at h
    · split at h
      · split at h <;> cases h
        exact .skip ⟨_, ‹_›⟩ ‹_› (Bool.eq_false_of_not_eq_true ‹_›)
      · cases h
        exact .leave _ ‹_› (Nat.not_lt.1 ‹_›)
    · cases h
  | openBoth =>
    simp only [step] at h
    split at h
    · split at h
      · split at h <;> cases h
        rename_i hi
        exact .openBoth ⟨_, ‹_›⟩ ‹_› hi.1 hi.2
      · cases h
    · cases h
  | openFails =>
    simp only [step] at h
    split at h
    · split at h
      · split at h <;> cases h
        exact .openFails ⟨_, ‹_›⟩ ‹_› ‹_›
      · cases h
    · cases h
  | write =>
    simp only [step] at h
    split at h
    · split at h
      · split at h <;> cases h
        · exact .writeFails ⟨_, ‹_›⟩ ‹_› ‹_›
        · exact .write ⟨_, ‹_›⟩ ‹_› ‹_›
      · cases h
    · cases h
  | openMaster i =>
    simp only [step] at h
    split at h <;> cases h
    rename_i hi
    exact .openMaster i hi.1 hi.2
  | read i =>
    simp only [step] at h
    split at h
    · split at h
      · cases h
        exact .read i ‹_› ‹_›
      · split at h <;> cases h
        exact .readEnd i ‹_› (Nat.eq_zero_of_not_pos ‹_›) ‹_›
    · cases h
  | save i =>
    simp only [step] at h
    split at h <;> cases h
    exact .save i ‹_›
  | answer i =>
    simp only [step] at h
    split at h
    · split at h <;> cases h
      · exact .answerFails i ‹_› ‹_›
      · exact .answer i ‹_› (Bool.eq_false_of_not_eq_true ‹_›)
    · cases h
  | close i =>
    simp only [step] at h
    split at h <;> cases h
    exact .close i ‹_›
  | kill i =>
    simp only [step] at h
    split at h <;> cases h
    rename_i hi
    simp only [not_or] at hi
    exact .kill i hi.1 hi.2.1 hi.2.2
  | serve =>
    simp only [step] at h
    split at h <;> cases h
    rename_i hm
    exact .serve hm.1 hm.2
  | timeOut =>
    simp only [step] at h
    split at h <;> cases h
    rename_i hm
    exact .timeOut hm.1 hm.2
  | interrupted =>
    simp only [step] at h
    split at h <;> cases h
    exact .interrupted ‹_›

/-! What holds in every state that is reached. -/

/-- The master has opened its fifo, and it is not killed. -/
def SlavePc.called : SlavePc → Bool
  | .opened | .reading | .saving | .saved | .answered | .exited => true
  | .absent | .opening | .killed => false

/-- It has not come to its answer. -/
def SlavePc.silent : SlavePc → Bool
  | .absent | .opening | .opened | .reading | .saving | .saved => true
  | .answered | .exited | .killed => false

/-- Of those that have answered, the first are in `res_sync_bit` and the others in the fifo. -/
structure Inv (c : Config n) (s : State n) : Prop where
  nodup : s.sent.Nodup
  split : ∃ got rest, s.sent = got ++ rest ∧ s.masterFifo = rest.map c.answer ∧
    s.resSyncBit = bitsOf (got.map c.answer)
  called : ∀ i, (s.slave i).called = true → s.syncBit.testBit i = true
  sent : ∀ i ∈ s.sent, s.syncBit.testBit i = true ∧ s.saved i = true
  silent : ∀ i, (s.slave i).silent = true → i ∉ s.sent
  saved : ∀ i, s.slave i = .saved → s.saved i = true
  reported : s.master = .reported → s.syncBit = s.resSyncBit
  lt : ∀ j, s.syncBit.testBit j = true → j < n

section Bits

/-- Setting the bits of a list of numbers. -/
lemma testBit_foldl (bits : Nat) (is : List Nat) (j : Nat) :
    (is.foldl (fun bits i => bits ||| 1 <<< i) bits).testBit j = true ↔
      bits.testBit j = true ∨ j ∈ is := by
  induction is generalizing bits with
  | nil => simp
  | cons i is ih =>
    rw [List.foldl_cons, ih, Nat.testBit_or, Nat.shiftLeft_eq, Nat.one_mul, Nat.testBit_two_pow,
      Bool.or_eq_true, decide_eq_true_eq, List.mem_cons, or_assoc, eq_comm (a := i)]

/-- The bits of a list are those of its numbers. -/
lemma testBit_bitsOf (is : List Nat) (j : Nat) : (bitsOf is).testBit j = true ↔ j ∈ is := by
  rw [bitsOf, testBit_foldl, Nat.zero_testBit]
  simp

/-- Setting one bit. -/
lemma testBit_or_shift (bits i j : Nat) :
    (bits ||| 1 <<< i).testBit j = true ↔ bits.testBit j = true ∨ j = i := by
  have h := testBit_foldl bits [i] j
  rwa [List.mem_singleton] at h

end Bits

section Preserve

variable {c : Config n} {s t : State n} {i : Fin n} {pc : SlavePc}

/-- What holds of all processes still does when it holds of the one that goes on. -/
lemma forall_move (P : Fin n → SlavePc → Prop) (hpc : P i pc) (h : ∀ j, P j (s.slave j)) :
    ∀ j, P j ((s.move i pc).slave j) :=
  (Function.forall_update_iff s.slave P).2 ⟨hpc, fun j _ => h j⟩

/-- A slave goes on and writes nothing. -/
lemma Inv.move (h : Inv c s) (hcalled : pc.called = true → s.syncBit.testBit i = true)
    (hsilent : pc.silent = true → i ∉ s.sent) (hsaved : pc = .saved → s.saved i = true) :
    Inv c (s.move i pc) := by
  refine ⟨h.nodup, h.split, ?_, h.sent, ?_, ?_, h.reported, h.lt⟩
  · exact forall_move (fun j pc => pc.called = true → s.syncBit.testBit j = true) hcalled h.called
  · exact forall_move (fun j pc => pc.silent = true → j ∉ s.sent) hsilent h.silent
  · exact forall_move (fun j pc => pc = .saved → s.saved j = true) hsaved h.saved

/-- The master goes on and has not reported yet. -/
lemma Inv.goOn (h : Inv c s) {pc : MasterPc} (hpc : pc ≠ .reported) :
    Inv c { s with master := pc } :=
  ⟨h.nodup, h.split, h.called, h.sent, h.silent, h.saved, fun he => absurd he hpc, h.lt⟩

/-- The master looks at its loop condition. -/
lemma Inv.check (h : Inv c s) : Inv c s.check := by
  refine ⟨h.nodup, h.split, h.called, h.sent, h.silent, h.saved, ?_, h.lt⟩
  intro hrep
  simp only [State.check] at hrep
  split at hrep
  · assumption
  · cases hrep

/-- The master opens a fifo: its bit is set, and the process has been waiting for it. -/
lemma Inv.openBoth (h : Inv c s) (hi : s.slave i = .opening) :
    Inv c { s.move i .opened with syncBit := s.syncBit ||| 1 <<< i.val, master := .writing i } := by
  have hgrow {j : Nat} (hj : s.syncBit.testBit j = true) :
      (s.syncBit ||| 1 <<< i.val).testBit j = true := (testBit_or_shift _ _ _).2 (.inl hj)
  refine ⟨h.nodup, h.split, ?_, ?_, ?_, ?_, by simp, ?_⟩
  · refine forall_move (fun j pc => pc.called = true → (s.syncBit ||| 1 <<< i.val).testBit j = true)
      (fun _ => ?_) fun j hj => hgrow (h.called j hj)
    exact (testBit_or_shift _ _ _).2 (.inr rfl)
  · intro j hj
    exact ⟨hgrow (h.sent j hj).1, (h.sent j hj).2⟩
  · refine forall_move (fun j pc => pc.silent = true → j ∉ s.sent) (fun _ => ?_) h.silent
    exact h.silent i (by rw [hi]; rfl)
  · exact forall_move (fun j pc => pc = .saved → s.saved j = true) (by simp) h.saved
  · intro j hj
    rcases (testBit_or_shift _ _ _).1 hj with hj | rfl
    · exact h.lt j hj
    · exact i.isLt

/-- A process saves its files. -/
lemma Inv.save (h : Inv c s) (hi : s.slave i = .saving) :
    Inv c { s.move i .saved with saved := Function.update s.saved i true } := by
  have hgrow (j : Fin n) (hj : s.saved j = true) : Function.update s.saved i true j = true := by
    by_cases hji : j = i
    · rw [hji, Function.update_self]
    · rwa [Function.update_of_ne hji]
  refine ⟨h.nodup, h.split, ?_, ?_, ?_, ?_, h.reported, h.lt⟩
  · refine forall_move (fun j pc => pc.called = true → s.syncBit.testBit j = true) (fun _ => ?_)
      h.called
    exact h.called i (by rw [hi]; rfl)
  · intro j hj
    exact ⟨(h.sent j hj).1, hgrow j (h.sent j hj).2⟩
  · refine forall_move (fun j pc => pc.silent = true → j ∉ s.sent) (fun _ => ?_) h.silent
    exact h.silent i (by rw [hi]; rfl)
  · refine forall_move (fun j pc => pc = .saved → Function.update s.saved i true j = true) ?_
      fun j hj => hgrow j (h.saved j hj)
    exact fun _ => Function.update_self i true s.saved

/-- A process answers: it has saved its files, and it has not answered before. -/
lemma Inv.answer (h : Inv c s) (hi : s.slave i = .saved) :
    Inv c { s.move i .answered with
      masterFifo := s.masterFifo ++ [c.answer i], sent := s.sent ++ [i] } := by
  have hcalled := h.called i (by rw [hi]; rfl)
  have hnew := h.silent i (by rw [hi]; rfl)
  refine ⟨?_, ?_, ?_, ?_, ?_, ?_, h.reported, h.lt⟩
  · refine List.Nodup.append h.nodup (List.nodup_singleton i) ?_
    rw [List.disjoint_singleton]
    exact hnew
  · obtain ⟨got, rest, hsent, hfifo, hres⟩ := h.split
    refine ⟨got, rest ++ [i], ?_, ?_, hres⟩
    · rw [hsent, List.append_assoc]
    · rw [hfifo, List.map_append]
      rfl
  · exact forall_move (fun j pc => pc.called = true → s.syncBit.testBit j = true) (fun _ => hcalled)
      h.called
  · intro j hj
    rcases List.mem_append.1 hj with hj | hj
    · exact h.sent j hj
    · rw [List.mem_singleton.1 hj]
      exact ⟨hcalled, h.saved i hi⟩
  · -- whoever is silent is another one
    intro j hj
    by_cases hji : j = i
    · rw [hji] at hj
      simp [State.move, SlavePc.silent] at hj
    · simp only [State.move, Function.update_of_ne hji] at hj
      rw [List.mem_append, List.mem_singleton, not_or]
      exact ⟨h.silent j hj, hji⟩
  · exact forall_move (fun j pc => pc = .saved → s.saved j = true) (by simp) h.saved

/-- The master reads answers. -/
lemma Inv.serve (h : Inv c s) (hm : s.master = .selecting) : Inv c { s with
    resSyncBit := (s.masterFifo.take readSize).foldl (fun bits i => bits ||| 1 <<< i) s.resSyncBit
    masterFifo := s.masterFifo.drop readSize }.check := by
  apply Inv.check
  refine ⟨h.nodup, ?_, h.called, h.sent, h.silent, h.saved, ?_, h.lt⟩
  · obtain ⟨got, rest, hsent, hfifo, hres⟩ := h.split
    refine ⟨got ++ rest.take readSize, rest.drop readSize, ?_, ?_, ?_⟩
    · rw [List.append_assoc, List.take_append_drop]
      exact hsent
    · rw [List.map_drop]
      exact congrArg (List.drop readSize) hfifo
    · rw [hres, hfifo, List.map_append, List.map_take, bitsOf, bitsOf, List.foldl_append]
  · intro hrep
    rw [hm] at hrep
    cases hrep

/-- No step breaks it. -/
lemma step_inv {e : Event n} (h : Inv c s) (hs : step c s e = some t) : Inv c t := by
  cases Step.of_step hs with
  | start i hi =>
    have hmove : Inv c (s.move i .opening) :=
      h.move (by simp [SlavePc.called]) (fun _ => h.silent i (by rw [hi]; rfl)) (by simp)
    exact ⟨hmove.nodup, hmove.split, hmove.called, hmove.sent, hmove.silent, hmove.saved,
      hmove.reported, hmove.lt⟩
  | skip | leave | openFails | writeFails | timeOut => exact h.goOn (by simp)
  | openBoth i hm hc hi => exact h.openBoth hi
  | write i => exact ⟨h.nodup, h.split, h.called, h.sent, h.silent, h.saved, by simp, h.lt⟩
  | openMaster i hi =>
    exact h.move (fun _ => h.called i (by rw [hi]; rfl)) (fun _ => h.silent i (by rw [hi]; rfl))
      (by simp)
  | read i hi =>
    have hmove : Inv c (s.move i .saving) := h.move (fun _ => h.called i (by rw [hi]; rfl))
      (fun _ => h.silent i (by rw [hi]; rfl)) (by simp)
    exact ⟨hmove.nodup, hmove.split, hmove.called, hmove.sent, hmove.silent, hmove.saved,
      hmove.reported, hmove.lt⟩
  | readEnd i hi =>
    exact h.move (fun _ => h.called i (by rw [hi]; rfl)) (by simp [SlavePc.silent]) (by simp)
  | save i hi => exact h.save hi
  | answer i hi => exact h.answer hi
  | answerFails i | kill i =>
    exact h.move (by simp [SlavePc.called]) (by simp [SlavePc.silent]) (by simp)
  | close i hi =>
    exact h.move (fun _ => h.called i (by rw [hi]; rfl)) (by simp [SlavePc.silent]) (by simp)
  | serve hm => exact h.serve hm
  | interrupted => exact h.check

end Preserve

/-- Nothing has been opened, sent or saved in the beginning. -/
lemma init_inv (c : Config n) (created : Fin n → Bool) : Inv c (init created) := by
  refine ⟨List.nodup_nil, ⟨[], [], rfl, rfl, rfl⟩, ?_, ?_, ?_, ?_, ?_, ?_⟩
  · intro i h
    cases h
  · intro i h
    cases h
  · exact fun i _ => List.not_mem_nil
  · intro i h
    cases h
  · intro h
    cases h
  · intro j h
    rw [show (init created).syncBit = 0 from rfl, Nat.zero_testBit] at h
    cases h

/-- Every run keeps the invariant. -/
lemma reach_inv {c : Config n} {created : Fin n → Bool} {P : State n → Event n → Prop} {s : State n}
    (hr : Reach (step c) P (init created) s) : Inv c s :=
  hr.invariant (init_inv c created) fun _ _ _ h _ hs => step_inv h hs

section Count

variable {c : Config n} {s : State n}

/-- The bits of `sync_bit`. -/
def State.openedBits (s : State n) : Finset Nat := (Finset.range n).filter (s.syncBit.testBit ·)

/-- The bits of the fifos that were opened. -/
lemma Inv.mem_openedBits (h : Inv c s) {j : Nat} :
    j ∈ s.openedBits ↔ s.syncBit.testBit j = true := by
  rw [State.openedBits, Finset.mem_filter, Finset.mem_range]
  exact ⟨fun hj => hj.2, fun hj => ⟨h.lt j hj, hj⟩⟩

/-- The processes that have answered. -/
def State.sentSet (s : State n) : Finset Nat := (s.sent.map Fin.val).toFinset

/-- The slaves that have answered. -/
lemma State.mem_sentSet {i : Fin n} : i.val ∈ s.sentSet ↔ i ∈ s.sent := by
  rw [State.sentSet, List.mem_toFinset, List.mem_map_of_injective Fin.val_injective]

/-- No slave has answered twice. -/
lemma Inv.card_sentSet (h : Inv c s) : s.sentSet.card = s.sent.length := by
  rw [State.sentSet, List.toFinset_card_of_nodup (h.nodup.map Fin.val_injective), List.length_map]

/-- Only a slave that was called has answered. -/
lemma Inv.sentSet_subset (h : Inv c s) : s.sentSet ⊆ s.openedBits := by
  intro j hj
  obtain ⟨i, hi, rfl⟩ := List.mem_map.1 (List.mem_toFinset.1 hj)
  exact h.mem_openedBits.2 (h.sent i hi).1

/-- When the two sets of bits are the same, all whose fifo was opened have answered, and all answers
have been read. -/
lemma Inv.sentSet_eq (h : Inv c s) (heq : s.syncBit = s.resSyncBit) :
    s.sentSet = s.openedBits ∧ s.masterFifo = [] := by
  obtain ⟨got, rest, hsent, hfifo, hres⟩ := h.split
  have himage : s.openedBits = (got.map c.answer).toFinset := by
    ext j
    rw [h.mem_openedBits, heq, hres, testBit_bitsOf, List.mem_toFinset]
  have hle : s.openedBits.card ≤ got.length := by
    rw [himage]
    exact (List.toFinset_card_le _).trans (Nat.le_of_eq (List.length_map _))
  have hlen : s.sent.length = got.length + rest.length := by rw [hsent, List.length_append]
  have hcard := Finset.card_le_card h.sentSet_subset
  rw [h.card_sentSet] at hcard
  constructor
  · apply Finset.eq_of_subset_of_card_le h.sentSet_subset
    rw [h.card_sentSet]
    omega
  · have hrest : rest = [] := List.eq_nil_of_length_eq_zero (by omega)
    rw [hfifo, hrest]
    rfl

end Count

/-- In every interleaving, with processes that are killed and calls that fail, and whatever numbers
from 0 to 30 the processes answer with: when the master reports that all have answered, every
process whose fifo it opened has saved its files and has answered. -/
theorem reported_answered (c : Config n) (created : Fin n → Bool) (s : State n)
    (hr : Reach (step c) (fun _ _ => True) (init created) s) (hrep : s.master = .reported)
    (i : Fin n) (hi : s.syncBit.testBit i = true) : i ∈ s.sent ∧ s.saved i = true := by
  have h := reach_inv hr
  have hsent : i ∈ s.sent := by
    rw [← State.mem_sentSet, (h.sentSet_eq (h.reported hrep)).1]
    exact h.mem_openedBits.2 hi
  exact ⟨hsent, (h.sent i hsent).2⟩

/-- Both processes are told and answer, the second one first. -/
def sampleRun : List (Event 2) :=
  [.start 0, .start 1, .openBoth, .write, .openBoth, .write, .skip, .openMaster 0, .openMaster 1,
    .read 1, .read 0, .save 0, .save 1, .answer 1, .answer 0, .serve]

/-- One of two slaves is there, and answers. -/
theorem reported_answered_sample : ∃ s : State 2,
    Reach (step slaves) (fun _ _ => True) (init fun _ => false) s ∧ s.master = .reported ∧
      s.syncBit.testBit 1 = true ∧ (1 ∈ s.sent ∧ s.saved 1 = true) := by
  have hrun : (run (step slaves) (init fun _ => false) sampleRun).map
      (fun s => (s.master, s.syncBit)) = some (.reported, 3) := by decide
  obtain ⟨s, hs, hpair⟩ := Option.map_eq_some_iff.1 hrun
  have hm : s.master = .reported := congrArg Prod.fst hpair
  have hb : s.syncBit.testBit 1 = true := by
    rw [show s.syncBit = 3 from congrArg Prod.snd hpair]
    decide
  have hreach := Reach.of_run hs
  exact ⟨s, hreach, hm, hb, reported_answered slaves _ s hreach hm 1 hb⟩

end CcodeTest.Fifo
