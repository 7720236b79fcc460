import CcodeTest.Lib.Chain
import CcodeTest.Lib.Mutex
import CcodeTest.Lib.Transition
import CcodeTest.SysQueue.Registry

/-!
# The registry in memory, shared between threads

`Registry` has the list that the macros make of the links. Here are the links: the entries are
cells on the heap, threads call the functions at the same time, and `file_storage_task` follows the
links to save the files. Between two steps any other thread may run, also in the middle of a macro;
what keeps them apart is the mutex alone. An access to a cell that is not there is a `fault`.

`acts` writes down what happens to the list at the points where it happens: an entry is pushed when
the head is set, popped when it is set to the next one, and a round of the task is over when it gives
the mutex back. `storage_refines` is that the links are always those of the list which the pushes and
pops make, and that every round has saved the files of this list, all of them and in order.
-/

namespace CcodeTest.SysQueue
open CcodeTest.Lib

/-- Where a thread is in a call. In `inserting` and after it the mutex is held. `f` is the name that
`file_storage_unregister` looks for, or missing in `file_storage_unregister_all`. -/
inductive ClientPc
  | idle
  | filled (a : Nat) (fs : FileStorage)
  | inserting (a : Nat) (fs : FileStorage)
  | linking (a : Nat) (fs : FileStorage)
  | looping (f : Option (List UInt8))
  | got (f : Option (List UInt8)) (a : Nat)
  | removed (f : Option (List UInt8)) (a : Nat)
  | leaving
deriving DecidableEq

/-- `file_storage_task`: in `sleep`, or in a round, with `fs` and the names that it has saved. -/
inductive TaskPc
  | sleeping
  | scanning (fs : Nat) (saved : List (Option (List UInt8)))

inductive Owner (ι : Type)
  | client (i : ι)
  | task
deriving DecidableEq

/-- What happens to the list. -/
inductive Act
  | push (fs : FileStorage)
  | pop
  | round (saved : List (Option (List UInt8)))
deriving DecidableEq

/-- The heap, the head of the list, the owner of the mutex and where the threads are. `lost` are the
cells that a call with a null pointer for a name has allocated. -/
structure Storage (ι : Type) where
  heap : Nat → Option (FileStorage × Nat)
  slhFirst : Nat
  owner : Option (Owner ι)
  client : ι → ClientPc
  task : TaskPc
  lost : List Nat
  acts : List Act
  fault : Bool

/-- Calls, and a thread that goes on. `a` is the address that `malloc` returns, and `next` what the
cell has in its link. -/
inductive Event (ι : Type)
  | register (i : ι) (a : Nat) (fs : FileStorage) (next : Nat)
  | registerNull (i : ι) (a : Nat) (fs : FileStorage) (next : Nat)
  | unregister (i : ι) (f : Option (List UInt8))
  | go (i : ι)
  | goTask

variable {ι : Type} [DecidableEq ι]

def Storage.move (s : Storage ι) (i : ι) (pc : ClientPc) : Storage ι :=
  { s with client := Function.update s.client i pc }

/-- `SLIST_REMOVE_HEAD`. -/
def Storage.removeHead (s : Storage ι) (i : ι) (f : Option (List UInt8)) (a : Nat) : Storage ι :=
  match s.heap s.slhFirst with
  | none => { s with fault := true }
  | some (_, next) => { s.move i (.removed f a) with slhFirst := next, acts := s.acts ++ [.pop] }

/-- A thread in a call goes on. -/
def Storage.go (s : Storage ι) (i : ι) : Option (Storage ι) :=
  match s.client i with
  | .idle => none
  | .filled a fs =>
    if s.owner.isNone then some { s.move i (.inserting a fs) with owner := some (.client i) }
    else none
  | .inserting a fs =>
    match s.heap a with
    | none => some { s with fault := true }
    | some (content, _) =>
      some { s.move i (.linking a fs) with
        heap := Function.update s.heap a (some (content, s.slhFirst)) }
  | .linking a fs => some { s.move i .leaving with slhFirst := a, acts := s.acts ++ [.push fs] }
  | .looping f =>
    if s.slhFirst = 0 then some (s.move i .leaving) else some (s.move i (.got f s.slhFirst))
  | .got none a => some (s.removeHead i none a)
  | .got (some filename) a =>
    match s.heap a with
    | none => some { s with fault := true }
    | some (fs, _) =>
      match fs.filename with
      | none => some { s with fault := true }
      | some name =>
        if name = filename then some (s.removeHead i (some filename) a)
        else some (s.move i (.looping (some filename)))
  | .removed f a =>
    match s.heap a with
    | none => some { s with fault := true }
    | some _ => some { s.move i (.looping f) with heap := Function.update s.heap a none }
  | .leaving => some { s.move i .idle with owner := none }

/-- The task goes on: `SLIST_FOREACH` under the mutex. -/
def Storage.goTask (s : Storage ι) : Option (Storage ι) :=
  match s.task with
  | .sleeping =>
    if s.owner.isNone then some { s with owner := some .task, task := .scanning s.slhFirst [] }
    else none
  | .scanning fs saved =>
    if fs = 0 then
      some { s with owner := none, task := .sleeping, acts := s.acts ++ [.round saved] }
    else
      match s.heap fs with
      | none => some { s with fault := true }
      | some (content, next) => some { s with task := .scanning next (saved ++ [content.filename]) }

def storageStep (s : Storage ι) : Event ι → Option (Storage ι)
  | .register i a fs next =>
    match s.client i with
    | .idle =>
      if a ≠ 0 ∧ (s.heap a).isNone then
        some { s.move i (.filled a fs) with heap := Function.update s.heap a (some (fs, next)) }
      else none
    | _ => none
  | .registerNull i a fs next =>
    match s.client i with
    | .idle =>
      if a ≠ 0 ∧ (s.heap a).isNone then
        some { s with heap := Function.update s.heap a (some (fs, next)), lost := a :: s.lost }
      else none
    | _ => none
  | .unregister i f =>
    match s.client i with
    | .idle =>
      if s.owner.isNone then some { s.move i (.looping f) with owner := some (.client i) } else none
    | _ => none
  | .go i => s.go i
  | .goTask => s.goTask

/-- After `file_storage_init`. -/
def storageInit : Storage ι where
  heap _ := none
  slhFirst := 0
  owner := none
  client _ := .idle
  task := .sleeping
  lost := []
  acts := []
  fault := false

/-! The list behind the links. -/

/-- The list that the pushes and pops make. -/
def replay (acts : List Act) : List FileStorage :=
  acts.foldl (fun list act => match act with
    | .push fs => fs :: list
    | .pop => list.tail
    | .round _ => list) []

/-- Every round has saved the files of the list at that point. -/
def Consistent (acts : List Act) : Prop :=
  ∀ pre saved post, acts = pre ++ .round saved :: post → saved = (replay pre).map (·.filename)

section Acts

variable {acts : List Act} {act : Act}

lemma replay_append : replay (acts ++ [act]) = match act with
    | .push fs => fs :: replay acts
    | .pop => (replay acts).tail
    | .round _ => replay acts := by
  rw [replay, List.foldl_append]
  cases act <;> rfl

lemma consistent_append (h : Consistent acts)
    (hact : ∀ saved, act = .round saved → saved = (replay acts).map (·.filename)) :
    Consistent (acts ++ [act]) := by
  intro pre saved post heq
  rcases List.eq_nil_or_concat post with rfl | ⟨post, last, rfl⟩
  · obtain ⟨rfl, hlast⟩ := List.append_inj' heq rfl
    exact hact saved (List.singleton_inj.1 hlast)
  · rw [List.concat_eq_append, ← List.cons_append, ← List.append_assoc] at heq
    exact h pre saved post (List.append_inj' heq rfl).1

end Acts

/-- Whose a cell is: nobody's, the list's, a call's, or lost. -/
inductive Role (ι : Type)
  | free
  | listed
  | flight (i : ι)
  | lost

/-- The cell that a call has in its hands. -/
def ClientPc.flight : ClientPc → Option Nat
  | .filled a _ | .inserting a _ | .linking a _ | .removed _ a => some a
  | .idle | .looping _ | .got _ _ | .leaving => none

/-- It holds the mutex. -/
def ClientPc.inside : ClientPc → Bool
  | .idle | .filled _ _ => false
  | .inserting _ _ | .linking _ _ | .looping _ | .got _ _ | .removed _ _ | .leaving => true

def TaskPc.inside : TaskPc → Bool
  | .sleeping => false
  | .scanning _ _ => true

def Storage.inside (s : Storage ι) : Owner ι → Bool
  | .client i => (s.client i).inside
  | .task => s.task.inside

/-- What a call knows of the memory. -/
def ClientOk (s : Storage ι) : ClientPc → Prop
  | .filled a fs | .inserting a fs => a ≠ 0 ∧ ∃ next, s.heap a = some (fs, next)
  | .linking a fs => a ≠ 0 ∧ s.heap a = some (fs, s.slhFirst)
  | .got _ a => a ≠ 0 ∧ a = s.slhFirst
  | .idle | .looping _ | .removed _ _ | .leaving => True

/-- What the task knows of the list. -/
def TaskOk (s : Storage ι) (l : List (Nat × FileStorage)) : TaskPc → Prop
  | .sleeping => True
  | .scanning fs saved => ∃ pre rest, l = pre ++ rest ∧
      saved = pre.map (fun cell => cell.2.filename) ∧ Chain s.heap fs rest

/-- Either nobody looks for a name, or there are names to compare with. -/
def ClientPc.NameOk : Bool → ClientPc → Prop
  | true, .filled _ fs | true, .inserting _ fs | true, .linking _ fs => fs.filename ≠ none
  | false, .looping f | false, .got f _ | false, .removed f _ => f = none
  | _, _ => True

/-- The links and the cells. -/
structure MemoryOk (s : Storage ι) (l : List (Nat × FileStorage)) (r : Nat → Role ι) : Prop where
  chain : Chain s.heap s.slhFirst l
  free : ∀ a, r a = .free ↔ s.heap a = none
  listed : ∀ a, r a = .listed ↔ a ∈ addrs l
  flight : ∀ i a, r a = .flight i ↔ (s.client i).flight = some a
  lost : ∀ a, r a = .lost ↔ a ∈ s.lost

structure StorageInv (named : Bool) (s : Storage ι) (l : List (Nat × FileStorage)) (r : Nat → Role ι) :
    Prop where
  memory : MemoryOk s l r
  mutex : Guarded s.inside s.owner
  replay : replay s.acts = l.map Prod.snd
  consistent : Consistent s.acts
  client : ∀ i, ClientOk s (s.client i) ∧ (s.client i).NameOk named
  task : TaskOk s l s.task
  names : named = true → ∀ cell ∈ l, cell.2.filename ≠ none
  fault : s.fault = false

section Preserve

variable {named : Bool} {s t : Storage ι} {l : List (Nat × FileStorage)} {r : Nat → Role ι} {i : ι}
  {pc : ClientPc} {a : Nat}

lemma forall_move (P : ι → ClientPc → Prop) (hpc : P i pc) (h : ∀ j, j ≠ i → P j (s.client j)) :
    ∀ j, P j ((s.move i pc).client j) :=
  (Function.forall_update_iff s.client P).2 ⟨hpc, h⟩

/-! The mutex. -/

omit [DecidableEq ι] in
lemma outside_of_inside (h : Guarded s.inside s.owner) (hi : (s.client i).inside = true) {j : ι}
    (hj : j ≠ i) : (s.client j).inside = false := by
  have hin : s.inside (.client i) = true := hi
  have hne : Owner.client j ≠ .client i := by simpa using hj
  exact h.outside hin hne

omit [DecidableEq ι] in
lemma sleeping_of_inside (h : Guarded s.inside s.owner) (hi : (s.client i).inside = true) :
    s.task = .sleeping := by
  have hin : s.inside (.client i) = true := hi
  have hne : (Owner.task : Owner ι) ≠ .client i := by simp
  have hout : s.inside .task = false := h.outside hin hne
  rw [Storage.inside] at hout
  cases htask : s.task with
  | sleeping => rfl
  | scanning fs saved =>
    rw [htask] at hout
    cases hout

lemma inside_move : (s.move i pc).inside = Function.update s.inside (.client i) pc.inside := by
  funext k
  cases k with
  | task => rw [Function.update_of_ne (by simp), Storage.inside, Storage.inside, Storage.move]
  | client j =>
    by_cases hj : j = i
    · subst hj
      simp only [Storage.inside, Storage.move, Function.update_self]
    · rw [Function.update_of_ne (by simpa using hj)]
      simp only [Storage.inside, Storage.move, Function.update_of_ne hj]

lemma inside_task (hclient : t.client = s.client) :
    t.inside = Function.update s.inside .task t.task.inside := by
  funext k
  cases k with
  | task => rw [Function.update_self, Storage.inside]
  | client j =>
    rw [Function.update_of_ne (by simp)]
    simp only [Storage.inside, hclient]

/-- A call goes on and has the same cell in its hands. -/
lemma MemoryOk.move (h : MemoryOk s l r) (hpc : pc.flight = (s.client i).flight) :
    MemoryOk (s.move i pc) l r :=
  ⟨h.chain, h.free, h.listed, fun j b => forall_move (fun j pc => r b = .flight j ↔ pc.flight = some b)
    (by rw [hpc]; exact h.flight i b) (fun j _ => h.flight j b) j, h.lost⟩

omit [DecidableEq ι] in
/-- Whoever has another cell in its hands does not see the change. -/
lemma ClientOk.update (h : ClientOk s pc) (ha : pc.flight ≠ some a) (c : Option (FileStorage × Nat)) :
    ClientOk { s with heap := Function.update s.heap a c } pc := by
  cases pc with
  | filled b fs | inserting b fs | linking b fs =>
    have hb : b ≠ a := fun he => ha (congrArg some he)
    simp only [ClientOk, Function.update_of_ne hb] at h ⊢
    exact h
  | idle | looping | removed | leaving => trivial
  | got => exact h

omit [DecidableEq ι] in
/-- Outside the mutex nobody sees the head of the list. -/
lemma ClientOk.outside (h : ClientOk s pc) (hpc : pc.inside = false) (hheap : t.heap = s.heap) :
    ClientOk t pc := by
  cases pc with
  | idle => trivial
  | filled a fs =>
    simp only [ClientOk] at h ⊢
    rwa [hheap]
  | inserting | linking | looping | got | removed | leaving => cases hpc

/-- A call goes on without touching the memory. -/
lemma StorageInv.move (h : StorageInv named s l r) (owner : Option (Owner ι))
    (hflight : pc.flight = (s.client i).flight) (hok : ClientOk s pc) (hname : pc.NameOk named)
    (hmutex : Guarded (s.move i pc).inside owner) :
    StorageInv named { s.move i pc with owner } l r := by
  have hmem := h.memory.move hflight
  refine ⟨⟨hmem.chain, hmem.free, hmem.listed, hmem.flight, hmem.lost⟩, hmutex, h.replay,
    h.consistent, ?_, h.task, h.names, h.fault⟩
  exact forall_move (fun _ pc => ClientOk s pc ∧ pc.NameOk named) ⟨hok, hname⟩ fun j _ => h.client j

omit [DecidableEq ι] in
/-- A cell that is not there is nobody's. -/
lemma MemoryOk.of_free (h : MemoryOk s l r) (ha : s.heap a = none) :
    a ∉ addrs l ∧ a ∉ s.lost ∧ ∀ j, (s.client j).flight ≠ some a := by
  have hr := (h.free a).2 ha
  refine ⟨fun hl => ?_, fun hl => ?_, fun j hj => ?_⟩
  · cases hr.symm.trans ((h.listed a).2 hl)
  · cases hr.symm.trans ((h.lost a).2 hl)
  · cases hr.symm.trans ((h.flight j a).2 hj)

omit [DecidableEq ι] in
/-- A cell in the hands of a call is nobody else's. -/
lemma MemoryOk.of_flight (h : MemoryOk s l r) (ha : (s.client i).flight = some a) :
    s.heap a ≠ none ∧ a ∉ addrs l ∧ a ∉ s.lost ∧ ∀ j, j ≠ i → (s.client j).flight ≠ some a := by
  have hr := (h.flight i a).2 ha
  refine ⟨fun hl => ?_, fun hl => ?_, fun hl => ?_, fun j hji hj => ?_⟩
  · cases hr.symm.trans ((h.free a).2 hl)
  · cases hr.symm.trans ((h.listed a).2 hl)
  · cases hr.symm.trans ((h.lost a).2 hl)
  · cases hr.symm.trans ((h.flight j a).2 hj)
    exact hji rfl

omit [DecidableEq ι] in
lemma MemoryOk.of_listed (h : MemoryOk s l r) (ha : a ∈ addrs l) :
    s.heap a ≠ none ∧ a ∉ s.lost ∧ ∀ j, (s.client j).flight ≠ some a := by
  have hr := (h.listed a).2 ha
  refine ⟨fun hl => ?_, fun hl => ?_, fun j hj => ?_⟩
  · cases hr.symm.trans ((h.free a).2 hl)
  · cases hr.symm.trans ((h.lost a).2 hl)
  · cases hr.symm.trans ((h.flight j a).2 hj)

omit [DecidableEq ι] in
/-- One cell changes hands. -/
lemma MemoryOk.reassign {l' : List (Nat × FileStorage)} {role : Role ι} (h : MemoryOk s l r)
    (hchain : Chain t.heap t.slhFirst l') (hheap : ∀ b, b ≠ a → (t.heap b = none ↔ s.heap b = none))
    (hlist : ∀ b, b ≠ a → (b ∈ addrs l' ↔ b ∈ addrs l))
    (hclient : ∀ j b, b ≠ a → ((t.client j).flight = some b ↔ (s.client j).flight = some b))
    (hlost : ∀ b, b ≠ a → (b ∈ t.lost ↔ b ∈ s.lost)) (afree : role = .free ↔ t.heap a = none)
    (alisted : role = .listed ↔ a ∈ addrs l')
    (aflight : ∀ j, role = .flight j ↔ (t.client j).flight = some a)
    (alost : role = .lost ↔ a ∈ t.lost) : MemoryOk t l' (Function.update r a role) := by
  refine ⟨hchain, ?_, ?_, ?_, ?_⟩
  · refine (Function.forall_update_iff r fun b x => x = .free ↔ t.heap b = none).2 ⟨afree, ?_⟩
    exact fun b hb => (h.free b).trans (hheap b hb).symm
  · refine (Function.forall_update_iff r fun b x => x = .listed ↔ b ∈ addrs l').2 ⟨alisted, ?_⟩
    exact fun b hb => (h.listed b).trans (hlist b hb).symm
  · intro j
    refine (Function.forall_update_iff r fun b x => x = .flight j ↔ (t.client j).flight = some b).2
      ⟨aflight j, ?_⟩
    exact fun b hb => (h.flight j b).trans (hclient j b hb).symm
  · refine (Function.forall_update_iff r fun b x => x = .lost ↔ b ∈ t.lost).2 ⟨alost, ?_⟩
    exact fun b hb => (h.lost b).trans (hlost b hb).symm

/-- Nobody but the call itself has something in its hands that it had not. -/
lemma flight_move (hpc : ∀ b, b ≠ a → (pc.flight = some b ↔ (s.client i).flight = some b)) (j : ι)
    (b : Nat) (hb : b ≠ a) :
    ((s.move i pc).client j).flight = some b ↔ (s.client j).flight = some b :=
  forall_move (fun j pc => pc.flight = some b ↔ (s.client j).flight = some b) (hpc b hb)
    (fun _ _ => Iff.rfl) j

omit [DecidableEq ι] in
lemma update_none_iff {h : Nat → Option (FileStorage × Nat)} (c : Option (FileStorage × Nat)) (b : Nat)
    (hb : b ≠ a) : Function.update h a c b = none ↔ h b = none := by
  rw [Function.update_of_ne hb]

omit [DecidableEq ι] in
/-- The task goes on with the same list when a cell outside of it changes. -/
lemma TaskOk.update {task : TaskPc} (h : TaskOk s l task) (ha : a ∉ addrs l)
    (c : Option (FileStorage × Nat)) : TaskOk { s with heap := Function.update s.heap a c } l task := by
  cases task with
  | sleeping => trivial
  | scanning fs saved =>
    obtain ⟨pre, rest, rfl, hsaved, hchain⟩ := h
    refine ⟨pre, rest, rfl, hsaved, hchain.update ?_ c⟩
    rw [addrs_append, List.mem_append, not_or] at ha
    exact ha.2

/-- `malloc` in `file_storage_register`. -/
lemma StorageInv.register (h : StorageInv named s l r) (hi : s.client i = .idle) (ha : a ≠ 0)
    (hfree : s.heap a = none) {fs : FileStorage} (hname : named = true → fs.filename ≠ none)
    (next : Nat) : ∃ r', StorageInv named { s.move i (.filled a fs) with
      heap := Function.update s.heap a (some (fs, next)) } l r' := by
  obtain ⟨hlist, hlost, hflight⟩ := h.memory.of_free hfree
  have hmutex : Guarded (s.move i (.filled a fs)).inside s.owner :=
    h.mutex.stay inside_move (by rw [Storage.inside, hi]; rfl)
  refine ⟨Function.update r a (.flight i), ?_, ?_, h.replay, h.consistent, ?_, ?_, h.names, h.fault⟩
  · refine h.memory.reassign (h.memory.chain.update hlist _) (update_none_iff _)
      (fun _ _ => Iff.rfl) ?_ (fun _ _ => Iff.rfl) ?_ ?_ ?_ ?_
    · refine flight_move fun b hb => ?_
      simp [hi, ClientPc.flight, Ne.symm hb]
    · simp
    · simp [hlist]
    · refine forall_move (fun j pc => Role.flight i = .flight j ↔ pc.flight = some a) ?_ fun j hj => ?_
      · simp [ClientPc.flight]
      · simp [hflight j, Ne.symm hj]
    · simp [Storage.move, hlost]
  · exact hmutex
  · refine forall_move (fun _ pc => ClientOk { s with
        heap := Function.update s.heap a (some (fs, next)) } pc ∧ pc.NameOk named) ⟨?_, ?_⟩ ?_
    · exact ⟨ha, next, Function.update_self ..⟩
    · cases named with
      | true => exact hname rfl
      | false => trivial
    · exact fun j _ => ⟨(h.client j).1.update (hflight j) _, (h.client j).2⟩
  · exact h.task.update hlist _

omit [DecidableEq ι] in
/-- The same when the name is missing. -/
lemma StorageInv.registerNull (h : StorageInv named s l r) (hfree : s.heap a = none)
    (cell : FileStorage × Nat) : ∃ r', StorageInv named
      { s with heap := Function.update s.heap a (some cell), lost := a :: s.lost } l r' := by
  obtain ⟨hlist, hlost, hflight⟩ := h.memory.of_free hfree
  refine ⟨Function.update r a .lost, ?_, h.mutex, h.replay, h.consistent, ?_,
    h.task.update hlist _, h.names, h.fault⟩
  · refine h.memory.reassign (h.memory.chain.update hlist _) (update_none_iff _)
      (fun _ _ => Iff.rfl) (fun _ _ _ => Iff.rfl) ?_ ?_ ?_ ?_ ?_
    · intro b hb
      simp [hb]
    · simp
    · simp [hlist]
    · intro j
      simp [hflight j]
    · simp
  · exact fun j => ⟨(h.client j).1.update (hflight j) _, (h.client j).2⟩

/-- `fs->entry.sle_next = gfs_slist->slh_first`. -/
lemma StorageInv.inserting (h : StorageInv named s l r) {fs : FileStorage}
    (hi : s.client i = .inserting a fs) {next : Nat} (hcell : s.heap a = some (fs, next)) :
    StorageInv named { s.move i (.linking a fs) with
      heap := Function.update s.heap a (some (fs, s.slhFirst)) } l r := by
  obtain ⟨hheap, hlist, -, hother⟩ := h.memory.of_flight (i := i) (a := a) (by rw [hi]; rfl)
  have hmem : MemoryOk (s.move i (.linking a fs)) l r := h.memory.move (by rw [hi]; rfl)
  have hmutex : Guarded (s.move i (.linking a fs)).inside s.owner :=
    h.mutex.stay inside_move (by rw [Storage.inside, hi]; rfl)
  have hok := h.client i
  rw [hi] at hok
  refine ⟨⟨hmem.chain.update hlist _, ?_, hmem.listed, hmem.flight, hmem.lost⟩,
    hmutex, h.replay, h.consistent, ?_, h.task.update hlist _, h.names, h.fault⟩
  · intro b
    by_cases hb : b = a
    · subst hb
      simp [h.memory.free b, hcell]
    · rw [h.memory.free b]
      exact (update_none_iff _ b hb).symm
  · refine forall_move (fun _ pc => ClientOk { s with
        heap := Function.update s.heap a (some (fs, s.slhFirst)) } pc ∧ pc.NameOk named) ⟨?_, ?_⟩ ?_
    · exact ⟨hok.1.1, Function.update_self ..⟩
    · cases named with
      | true => exact hok.2
      | false => trivial
    · exact fun j hj => ⟨(h.client j).1.update (hother j hj) _, (h.client j).2⟩

omit [DecidableEq ι] in
/-- A thread inside is alone: the others do not see what it does to the list. -/
lemma StorageInv.others (h : StorageInv named s l r) (hin : (s.client i).inside = true)
    (hheap : t.heap = s.heap) {j : ι} (hj : j ≠ i) :
    ClientOk t (s.client j) ∧ (s.client j).NameOk named :=
  ⟨(h.client j).1.outside (outside_of_inside h.mutex hin hj) hheap, (h.client j).2⟩

/-- `gfs_slist->slh_first = fs`. -/
lemma StorageInv.linking (h : StorageInv named s l r) {fs : FileStorage}
    (hi : s.client i = .linking a fs) : ∃ r', StorageInv named
      { s.move i .leaving with slhFirst := a, acts := s.acts ++ [.push fs] } ((a, fs) :: l) r' := by
  have hin : (s.client i).inside = true := by rw [hi]; rfl
  have hflight : (s.client i).flight = some a := by rw [hi]; rfl
  obtain ⟨hheap, hlist, hlost, hother⟩ := h.memory.of_flight hflight
  have hmutex : Guarded (s.move i .leaving).inside s.owner :=
    h.mutex.stay inside_move (by rw [Storage.inside, hi]; rfl)
  have hok := h.client i
  rw [hi] at hok
  obtain ⟨⟨ha, hcell⟩, hname⟩ := hok
  refine ⟨Function.update r a .listed, ?_, hmutex, ?_,
    consistent_append h.consistent (by simp), ?_, ?_, ?_, h.fault⟩
  · refine h.memory.reassign (.cons ha hcell h.memory.chain) (fun _ _ => Iff.rfl) ?_ ?_
      (fun _ _ => Iff.rfl) ?_ ?_ ?_ ?_
    · intro b hb
      simp [hb]
    · refine flight_move fun b hb => ?_
      simp [hi, ClientPc.flight, Ne.symm hb]
    · simpa [Storage.move] using hheap
    · simp
    · refine forall_move (fun j pc => Role.listed = .flight j ↔ pc.flight = some a) ?_ fun j hj => ?_
      · simp [ClientPc.flight]
      · simp [hother j hj]
    · simp [Storage.move, hlost]
  · rw [replay_append, h.replay]
    rfl
  · exact forall_move (fun _ pc => ClientOk { s with slhFirst := a } pc ∧ pc.NameOk named)
      ⟨trivial, by cases named <;> trivial⟩ fun j hj =>
        h.others (t := { s with slhFirst := a }) hin rfl hj
  · simp only [Storage.move, sleeping_of_inside h.mutex hin]
    trivial
  · intro hnamed cell hmem
    rcases List.mem_cons.1 hmem with rfl | hmem
    · subst hnamed
      exact hname
    · exact h.names hnamed cell hmem

/-- `SLIST_REMOVE_HEAD`: the first cell is in the hands of the call. -/
lemma StorageInv.removeHead (h : StorageInv named s l r) {f : Option (List UInt8)}
    (hi : s.client i = .got f a) :
    ∃ l' r', StorageInv named (s.removeHead i f a) l' r' := by
  have hin : (s.client i).inside = true := by rw [hi]; rfl
  have hok := h.client i
  rw [hi] at hok
  obtain ⟨⟨ha, rfl⟩, hname⟩ := hok
  obtain ⟨fs, next, l', rfl, hcell, hchain⟩ := h.memory.chain.cases_ne ha
  have hnodup := h.memory.chain.nodup
  rw [addrs_cons, List.nodup_cons] at hnodup
  obtain ⟨hheap, hlost, hother⟩ := h.memory.of_listed (List.mem_cons_self ..)
  have hmutex : Guarded (s.move i (.removed f s.slhFirst)).inside s.owner :=
    h.mutex.stay inside_move (by rw [Storage.inside, hi]; rfl)
  simp only [Storage.removeHead, hcell]
  refine ⟨l', Function.update r s.slhFirst (.flight i), ?_, hmutex, ?_,
    consistent_append h.consistent (by simp), ?_, ?_, ?_, h.fault⟩
  · refine h.memory.reassign hchain (fun _ _ => Iff.rfl) ?_ ?_ (fun _ _ => Iff.rfl) ?_ ?_ ?_ ?_
    · intro b hb
      simp [hb]
    · refine flight_move fun b hb => ?_
      simp [hi, ClientPc.flight, Ne.symm hb]
    · simpa [Storage.move] using hheap
    · simp [hnodup.1]
    · refine forall_move (fun j pc => Role.flight i = .flight j ↔ pc.flight = some s.slhFirst) ?_
        fun j hj => ?_
      · simp [ClientPc.flight]
      · simp [hother j, Ne.symm hj]
    · simp [Storage.move, hlost]
  · rw [replay_append, h.replay]
    rfl
  · refine forall_move (fun _ pc => ClientOk { s with slhFirst := next } pc ∧ pc.NameOk named)
      ⟨trivial, ?_⟩ fun j hj => h.others (t := { s with slhFirst := next }) hin rfl hj
    cases named with
    | true => trivial
    | false => exact hname
  · simp only [Storage.move, sleeping_of_inside h.mutex hin]
    trivial
  · exact fun hnamed cell hmem => h.names hnamed cell (List.mem_cons_of_mem _ hmem)

/-- `free(fs)`. -/
lemma StorageInv.removed (h : StorageInv named s l r) {f : Option (List UInt8)}
    (hi : s.client i = .removed f a) : s.heap a ≠ none ∧ ∃ r', StorageInv named
      { s.move i (.looping f) with heap := Function.update s.heap a none } l r' := by
  have hin : (s.client i).inside = true := by rw [hi]; rfl
  have hflight : (s.client i).flight = some a := by rw [hi]; rfl
  obtain ⟨hheap, hlist, hlost, hother⟩ := h.memory.of_flight hflight
  have hmutex : Guarded (s.move i (.looping f)).inside s.owner :=
    h.mutex.stay inside_move (by rw [Storage.inside, hi]; rfl)
  have hok := h.client i
  rw [hi] at hok
  refine ⟨hheap, Function.update r a .free, ?_, hmutex, h.replay, h.consistent,
    ?_, h.task.update hlist _, h.names, h.fault⟩
  · refine h.memory.reassign (h.memory.chain.update hlist _) (update_none_iff _) (fun _ _ => Iff.rfl)
      ?_ (fun _ _ => Iff.rfl) ?_ ?_ ?_ ?_
    · refine flight_move fun b hb => ?_
      simp [hi, ClientPc.flight, Ne.symm hb]
    · simp
    · simp [hlist]
    · refine forall_move (fun j pc => Role.free = .flight j ↔ pc.flight = some a) ?_ fun j hj => ?_
      · simp [ClientPc.flight]
      · simp [hother j hj]
    · simp [Storage.move, hlost]
  · refine forall_move (fun _ pc => ClientOk { s with heap := Function.update s.heap a none } pc ∧
      pc.NameOk named) ⟨trivial, ?_⟩ ?_
    · cases named with
      | true => trivial
      | false => exact hok.2
    · exact fun j hj => ⟨(h.client j).1.update (hother j hj) _, (h.client j).2⟩

/-- The task takes the mutex and starts at the head. -/
lemma StorageInv.startRound (h : StorageInv named s l r) (howner : s.owner = none) :
    StorageInv named { s with owner := some .task, task := .scanning s.slhFirst [] } l r := by
  refine ⟨⟨h.memory.chain, h.memory.free, h.memory.listed, h.memory.flight, h.memory.lost⟩,
    ?_, h.replay, h.consistent, h.client, ?_, h.names, h.fault⟩
  · exact h.mutex.lock howner (inside_task rfl)
  · exact ⟨[], l, rfl, rfl, h.memory.chain⟩

/-- It goes to the next cell, which is there. -/
lemma StorageInv.scan (h : StorageInv named s l r) {fs : Nat} {saved : List (Option (List UInt8))}
    (htask : s.task = .scanning fs saved) (hne : fs ≠ 0) : ∃ content next,
      s.heap fs = some (content, next) ∧
      StorageInv named { s with task := .scanning next (saved ++ [content.filename]) } l r := by
  have hok := h.task
  rw [htask] at hok
  obtain ⟨pre, rest, hl, hsaved, hchain⟩ := hok
  obtain ⟨content, next, rest, rfl, hcell, hrest⟩ := hchain.cases_ne hne
  refine ⟨content, next, hcell,
    ⟨h.memory.chain, h.memory.free, h.memory.listed, h.memory.flight, h.memory.lost⟩,
    ?_, h.replay, h.consistent, h.client, ?_, h.names, h.fault⟩
  · exact h.mutex.stay (inside_task rfl) (by rw [Storage.inside, htask]; rfl)
  · refine ⟨pre ++ [(fs, content)], rest, ?_, ?_, hrest⟩
    · rw [hl, List.append_assoc, List.singleton_append]
    · rw [hsaved, List.map_append, List.map_singleton]

/-- At the end it has saved the whole list. -/
lemma StorageInv.endRound (h : StorageInv named s l r) {saved : List (Option (List UInt8))}
    (htask : s.task = .scanning 0 saved) : StorageInv named
      { s with owner := none, task := .sleeping, acts := s.acts ++ [.round saved] } l r := by
  have hok := h.task
  rw [htask] at hok
  obtain ⟨pre, rest, hl, hsaved, hchain⟩ := hok
  have hwhole : l = pre := by rw [hl, hchain.eq_nil, List.append_nil]
  refine ⟨⟨h.memory.chain, h.memory.free, h.memory.listed, h.memory.flight, h.memory.lost⟩,
    ?_, ?_, consistent_append h.consistent ?_, h.client, trivial, h.names, h.fault⟩
  · exact h.mutex.unlock (by rw [Storage.inside, htask]; rfl) (inside_task rfl)
  · rw [replay_append]
    exact h.replay
  · intro saved' heq
    cases heq
    rw [hsaved, h.replay, hwhole, List.map_map]
    rfl

/-- A call of an idle thread. -/
lemma StorageInv.lock (h : StorageInv named s l r) (howner : s.owner = none)
    (hflight : pc.flight = (s.client i).flight) (hok : ClientOk s pc) (hname : pc.NameOk named)
    (hin : pc.inside = true) :
    StorageInv named { s.move i pc with owner := some (.client i) } l r :=
  h.move _ hflight hok hname (h.mutex.lock howner (hin ▸ inside_move))

/-- A thread inside goes on without touching the memory. -/
lemma StorageInv.stay (h : StorageInv named s l r) (hflight : pc.flight = (s.client i).flight)
    (hok : ClientOk s pc) (hname : pc.NameOk named) (hin : pc.inside = (s.client i).inside) :
    StorageInv named (s.move i pc) l r :=
  h.move s.owner hflight hok hname (h.mutex.stay inside_move hin)

omit [DecidableEq ι] in
/-- The name at the head can be compared with. -/
lemma StorageInv.compare (h : StorageInv named s l r) {f : List UInt8}
    (hi : s.client i = .got (some f) a) :
    ∃ fs next name, s.heap a = some (fs, next) ∧ fs.filename = some name := by
  have hok := h.client i
  rw [hi] at hok
  obtain ⟨⟨ha, rfl⟩, hname⟩ := hok
  obtain ⟨fs, next, l', rfl, hcell, -⟩ := h.memory.chain.cases_ne ha
  cases named with
  | true =>
    obtain ⟨name, hfs⟩ := Option.ne_none_iff_exists'.1 (h.names rfl _ (List.mem_cons_self ..))
    exact ⟨fs, next, name, hcell, hfs⟩
  | false => cases hname

/-- A thread in a call goes on. -/
lemma StorageInv.go (h : StorageInv named s l r) (hstep : s.go i = some t) :
    ∃ l' r', StorageInv named t l' r' := by
  have hok := h.client i
  unfold Storage.go at hstep
  cases hi : s.client i with
  | idle =>
    rw [hi] at hstep
    cases hstep
  | filled a fs =>
    rw [hi] at hstep hok
    obtain ⟨howner, hstep⟩ := Option.ite_none_right_eq_some.1 hstep
    cases hstep
    refine ⟨l, r, h.lock (Option.isNone_iff_eq_none.1 howner) (by rw [hi]; rfl) hok.1 ?_ rfl⟩
    cases named with
    | true => exact hok.2
    | false => trivial
  | inserting a fs =>
    rw [hi] at hstep hok
    obtain ⟨⟨-, next, hcell⟩, -⟩ := hok
    simp only [hcell] at hstep
    cases hstep
    exact ⟨l, r, h.inserting hi hcell⟩
  | linking a fs =>
    rw [hi] at hstep
    cases hstep
    exact ⟨_, h.linking hi⟩
  | looping f =>
    rw [hi] at hstep hok
    simp only at hstep
    split at hstep
    · cases hstep
      exact ⟨l, r, h.stay (by rw [hi]; rfl) trivial (by cases named <;> trivial) (by rw [hi]; rfl)⟩
    · rename_i hne
      cases hstep
      refine ⟨l, r, h.stay (by rw [hi]; rfl) ⟨hne, rfl⟩ ?_ (by rw [hi]; rfl)⟩
      cases named with
      | true => trivial
      | false => exact hok.2
  | got f a =>
    cases f with
    | none =>
      rw [hi] at hstep
      cases hstep
      exact h.removeHead hi
    | some f =>
      obtain ⟨fs, next, name, hcell, hname⟩ := h.compare hi
      rw [hi] at hstep hok
      simp only [hcell, hname] at hstep
      split at hstep
      · cases hstep
        exact h.removeHead hi
      · cases hstep
        refine ⟨l, r, h.stay (by rw [hi]; rfl) trivial ?_ (by rw [hi]; rfl)⟩
        cases named with
        | true => trivial
        | false => exact hok.2
  | removed f a =>
    obtain ⟨hheap, r', h'⟩ := h.removed hi
    obtain ⟨cell, hcell⟩ := Option.ne_none_iff_exists'.1 hheap
    rw [hi] at hstep
    simp only [hcell] at hstep
    cases hstep
    exact ⟨l, r', h'⟩
  | leaving =>
    rw [hi] at hstep
    cases hstep
    refine ⟨l, r, h.move _ (by rw [hi]; rfl) trivial (by cases named <;> trivial) ?_⟩
    exact h.mutex.unlock (by rw [Storage.inside, hi]; rfl) inside_move

/-- The task goes on. -/
lemma StorageInv.goTask (h : StorageInv named s l r) (hstep : s.goTask = some t) :
    StorageInv named t l r := by
  unfold Storage.goTask at hstep
  cases htask : s.task with
  | sleeping =>
    rw [htask] at hstep
    obtain ⟨howner, hstep⟩ := Option.ite_none_right_eq_some.1 hstep
    cases hstep
    exact h.startRound (Option.isNone_iff_eq_none.1 howner)
  | scanning fs saved =>
    rw [htask] at hstep
    simp only at hstep
    split at hstep
    · rename_i hzero
      subst hzero
      cases hstep
      exact h.endRound htask
    · rename_i hne
      obtain ⟨content, next, hcell, h'⟩ := h.scan htask hne
      simp only [hcell] at hstep
      cases hstep
      exact h'

end Preserve

/-- A NULL pointer in place of a name must not be compared with: if `named`, then `strdup` finds
memory, and if not, then nobody calls `file_storage_unregister`. -/
def Allowed (named : Bool) : Event ι → Prop
  | .register _ _ fs _ => named = true → fs.filename ≠ none
  | .unregister _ f => named = false → f = none
  | .registerNull _ _ _ _ | .go _ | .goTask => True

section Runs

variable {named : Bool} {s t : Storage ι}

omit [DecidableEq ι] in
lemma storageInit_inv : StorageInv named (storageInit : Storage ι) [] fun _ => .free := by
  refine ⟨⟨.nil, ?_, ?_, ?_, ?_⟩, ?_, rfl, ?_, ?_, trivial, ?_, rfl⟩
  · simp [storageInit]
  · simp [addrs]
  · simp [storageInit, ClientPc.flight]
  · simp [storageInit]
  · intro k
    cases k <;> simp [Storage.inside, storageInit, ClientPc.inside, TaskPc.inside]
  · intro pre saved post heq
    simp [storageInit] at heq
  · intro i
    exact ⟨trivial, by cases named <;> trivial⟩
  · simp

/-- Every step keeps the links and the mutex in order. -/
lemma storageStep_inv {e : Event ι} (h : ∃ l r, StorageInv named s l r) (he : Allowed named e)
    (hstep : storageStep s e = some t) : ∃ l r, StorageInv named t l r := by
  obtain ⟨l, r, h⟩ := h
  cases e with
  | register i a fs next =>
    simp only [storageStep] at hstep
    split at hstep
    · rename_i hi
      obtain ⟨⟨ha, hfree⟩, hstep⟩ := Option.ite_none_right_eq_some.1 hstep
      cases hstep
      exact ⟨l, h.register hi ha (Option.isNone_iff_eq_none.1 hfree) he next⟩
    · cases hstep
  | registerNull i a fs next =>
    simp only [storageStep] at hstep
    split at hstep
    · obtain ⟨⟨-, hfree⟩, hstep⟩ := Option.ite_none_right_eq_some.1 hstep
      cases hstep
      exact ⟨l, h.registerNull (Option.isNone_iff_eq_none.1 hfree) (fs, next)⟩
    · cases hstep
  | unregister i f =>
    simp only [storageStep] at hstep
    split at hstep
    · rename_i hi
      obtain ⟨howner, hstep⟩ := Option.ite_none_right_eq_some.1 hstep
      cases hstep
      refine ⟨l, r, h.lock (Option.isNone_iff_eq_none.1 howner) (by rw [hi]; rfl) trivial ?_ rfl⟩
      cases named with
      | true => trivial
      | false => exact he rfl
    · cases hstep
  | go i => exact h.go hstep
  | goTask => exact ⟨l, r, h.goTask hstep⟩

lemma reach_inv (hr : Reach storageStep (fun _ e => Allowed named e) storageInit s) :
    ∃ l r, StorageInv named s l r :=
  hr.invariant (I := fun s => ∃ l r, StorageInv named s l r) ⟨[], _, storageInit_inv⟩
    fun _ _ _ h he hstep => storageStep_inv h he hstep

/-- However the threads and the task take turns: no cell is touched that is not there; the links are
those of the list that the pushes and pops make; every round of the task has saved the files of this
list as it was then, all of them in its order; and every cell is free, on the list once, in the hands
of one call, or lost. -/
theorem storage_refines (hr : Reach storageStep (fun _ e => Allowed named e) storageInit s) :
    s.fault = false ∧ Consistent s.acts ∧
      ∃ l r, MemoryOk s l r ∧ (addrs l).Nodup ∧ replay s.acts = l.map Prod.snd := by
  obtain ⟨l, r, h⟩ := reach_inv hr
  exact ⟨h.fault, h.consistent, l, r, h.memory, h.memory.chain.nodup, h.replay⟩

end Runs

/-- Two threads register a file each and the task runs in between; one of them then removes
everything, while the other has called with a NULL pointer. -/
def sampleStorageRun : List (Event Bool) :=
  [.register false 8 ⟨some [47, 97], 0⟩ 5, .register true 16 ⟨some [47, 98], 0⟩ 7, .go true, .go true,
    .go true, .go true, .goTask, .goTask, .goTask, .go false, .go false, .go false, .go false, .goTask,
    .goTask, .goTask, .goTask, .unregister false none, .registerNull true 24 ⟨none, 0⟩ 3, .go false,
    .go false, .go false, .go false, .go false, .go false, .go false, .go false, .goTask, .goTask]

def sampleActs : List Act :=
  [.push ⟨some [47, 98], 0⟩, .round [some [47, 98]], .push ⟨some [47, 97], 0⟩,
    .round [some [47, 97], some [47, 98]], .pop, .pop, .round []]

theorem storage_refines_sample : ∃ s : Storage Bool,
    Reach storageStep (fun _ e => Allowed true e) storageInit s ∧ s.acts = sampleActs ∧
      s.fault = false ∧ Consistent sampleActs := by
  have hrun : (run storageStep storageInit sampleStorageRun).map Storage.acts = some sampleActs := by
    decide
  obtain ⟨s, hs, hacts⟩ := Option.map_eq_some_iff.1 hrun
  have hreach : Reach storageStep (fun _ e => Allowed true e) storageInit s := by
    refine Reach.of_run_forall hs ?_
    simp [sampleStorageRun, Allowed]
  obtain ⟨hfault, hcons, -⟩ := storage_refines hreach
  exact ⟨s, hreach, hacts, hfault, hacts ▸ hcons⟩

end CcodeTest.SysQueue
