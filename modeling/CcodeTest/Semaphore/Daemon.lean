import Mathlib.Data.Fin.Basic
import Mathlib.Data.Fintype.Card
import CcodeTest.Lib.NamedSem
import CcodeTest.Lib.Transition

/-!
# A daemon that posts in a loop

The version for the access point: `sp_master.c` waits for the processes of a list, of which there is
one, and `sp_sync_sp_mon_daemon.c` is this process. The daemon goes round for ever. Each time it opens
the semaphore, saves its files, posts, closes it and removes the name, whether or not it was told to.

The master takes the semaphore as often as its list has entries, the null pointer at the end being one
of them. It looks as if the posts of a daemon that does not stop would make up for that. They do not:
the next round of the daemon is about another semaphore, for which the master does not wait. No
daemon ever posts twice to the same one, so the master cannot take it more often than there are
daemons (`sync_never`), and with the one daemon it always runs into its time-out.
-/

namespace CcodeTest.Semaphore.Daemon
open CcodeTest.Lib

/-- `sync_proc_cnt`, the size of `proc_name[]`. -/
def syncProcCnt : Nat := 2

/-- Where the daemon is in its loop: before `sem_open`, before it saves its files, before `sem_post`,
`sem_close` and `sem_unlink`. It ends only if `sem_open` fails. -/
inductive DaemonPc
  | opening
  | saving
  | posting
  | closing
  | unlinking
  | exited
  | killed
deriving DecidableEq

/-- Where the master is: before `sem_open`, before `sem_timedwait`, before `sem_close`, and at its
end. The signal only cuts short a `sleep` of the daemon. -/
inductive MasterPc
  | opening
  | waiting (syncProcCnt : Nat)
  | closing (successful : Bool)
  | finished (successful : Bool)
deriving DecidableEq

structure State (d : Nat) where
  books : Books (Fin d)
  pc : Fin d → DaemonPc
  held : Fin d → Nat
  master : MasterPc
  sem : Nat

inductive Event (d : Nat)
  | openMaster
  | openMasterFails
  | take
  | timeOut
  | leave
  | unlinkMaster
  | openSem (i : Fin d)
  | openFails (i : Fin d)
  | save (i : Fin d)
  | post (i : Fin d)
  | close (i : Fin d)
  | unlink (i : Fin d)
  | kill (i : Fin d)

variable {d : Nat}

/-- A daemon goes on to `pc`. -/
def State.move (s : State d) (i : Fin d) (pc : DaemonPc) : State d :=
  { s with pc := Function.update s.pc i pc }

def step (s : State d) : Event d → Option (State d)
  | .openMaster =>
    if s.master = .opening then
      some { s with
        books := s.books.semOpen.1, sem := s.books.semOpen.2, master := .waiting syncProcCnt }
    else none
  | .openMasterFails =>
    if s.master = .opening then
      some { s with books := s.books.semUnlink, master := .finished false }
    else none
  | .take =>
    match s.master with
    | .waiting (k + 1) =>
      (s.books.semWait s.sem).map fun books => { s with books, master := .waiting k }
    | _ => none
  | .timeOut =>
    match s.master with
    | .waiting (_ + 1) =>
      if s.books.value.getD s.sem 0 = 0 then some { s with master := .closing false } else none
    | _ => none
  | .leave => if s.master = .waiting 0 then some { s with master := .closing true } else none
  | .unlinkMaster =>
    match s.master with
    | .closing successful =>
      some { s with books := s.books.semUnlink, master := .finished successful }
    | _ => none
  | .openSem i =>
    if s.pc i = .opening then
      some { s.move i .saving with
        books := s.books.semOpen.1, held := Function.update s.held i s.books.semOpen.2 }
    else none
  | .openFails i =>
    if s.pc i = .opening then some { s.move i .exited with books := s.books.semUnlink } else none
  | .save i => if s.pc i = .saving then some (s.move i .posting) else none
  | .post i =>
    if s.pc i = .posting then
      some { s.move i .closing with books := s.books.semPost i (s.held i) }
    else none
  | .close i => if s.pc i = .closing then some (s.move i .unlinking) else none
  | .unlink i =>
    if s.pc i = .unlinking then some { s.move i .opening with books := s.books.semUnlink } else none
  | .kill i =>
    if s.pc i = .exited ∨ s.pc i = .killed then none else some (s.move i .killed)

/-- Before the master starts. A semaphore may be left from before, with a value. -/
def init (left : Option Nat) : State d where
  books := Books.start left
  pc _ := .opening
  held _ := 0
  master := .opening
  sem := 0

/-! No daemon posts twice to a semaphore. -/

/-- It holds a semaphore that it has not posted to. -/
def DaemonPc.before : DaemonPc → Bool
  | .saving | .posting => true
  | _ => false

/-- It has posted to the one that it holds. -/
def DaemonPc.behind : DaemonPc → Bool
  | .closing | .unlinking => true
  | _ => false

/-- It will open another one. -/
def DaemonPc.between : DaemonPc → Bool
  | .opening => true
  | _ => false

/-- A semaphore that the daemon has posted to has lost its name before the daemon opens the name
again. -/
structure DaemonOk (b : Books (Fin d)) (i : Fin d) (pc : DaemonPc) (held : Nat) : Prop where
  valid : pc.before = true ∨ pc.behind = true → held < b.value.length
  posted : ∀ id, (i, id) ∈ b.posted → id < b.value.length
  before : pc.before = true → ∀ id, (i, id) ∈ b.posted → b.name ≠ some id ∧ held ≠ id
  behind : pc.behind = true → ∀ id, (i, id) ∈ b.posted → b.name ≠ some id ∨ held = id
  between : pc.between = true → ∀ id, (i, id) ∈ b.posted → b.name ≠ some id

/-- How much the master has taken. -/
def MasterPc.Taken (taken : List Nat) : MasterPc → Prop
  | .opening => taken = []
  | .waiting k => taken.length + k = syncProcCnt
  | .closing true | .finished true => taken.length = syncProcCnt
  | .closing false | .finished false => True

structure Inv (v : Nat → Nat) (s : State d) : Prop where
  balanced : s.books.Balanced v
  named : s.books.Named
  nodup : s.books.posted.Nodup
  daemon : ∀ i, DaemonOk s.books i (s.pc i) (s.held i)
  taken : s.master.Taken s.books.taken
  own : ∀ id ∈ s.books.taken, id = s.sem

section Preserve

variable {v : Nat → Nat} {s t : State d} {i : Fin d} {pc pc' : DaemonPc} {held : Nat}
  {b b' : Books (Fin d)}

/-- A daemon that is not concerned. -/
lemma DaemonOk.mono (h : DaemonOk b i pc held) (hlen : b.value.length ≤ b'.value.length)
    (hposted : ∀ id, (i, id) ∈ b'.posted ↔ (i, id) ∈ b.posted)
    (hname : ∀ id < b.value.length, b.name ≠ some id → b'.name ≠ some id) :
    DaemonOk b' i pc held := by
  refine ⟨fun hp => Nat.lt_of_lt_of_le (h.valid hp) hlen, ?_, ?_, ?_, ?_⟩
  · intro id hid
    exact Nat.lt_of_lt_of_le (h.posted id ((hposted id).1 hid)) hlen
  · intro hp id hid
    have hid := (hposted id).1 hid
    exact ⟨hname id (h.posted id hid) (h.before hp id hid).1, (h.before hp id hid).2⟩
  · intro hp id hid
    have hid := (hposted id).1 hid
    exact (h.behind hp id hid).imp_left (hname id (h.posted id hid))
  · intro hp id hid
    have hid := (hposted id).1 hid
    exact hname id (h.posted id hid) (h.between hp id hid)

/-- It goes on without a call to the semaphore, or dies. -/
lemma DaemonOk.goOn (h : DaemonOk b i pc held) (hbefore : pc'.before = true → pc.before = true)
    (hbehind : pc'.behind = true → pc.behind = true)
    (hbetween : pc'.between = true → pc.between = true) : DaemonOk b i pc' held :=
  ⟨fun hp => h.valid (hp.imp hbefore hbehind), h.posted, fun hp => h.before (hbefore hp),
    fun hp => h.behind (hbehind hp), fun hp => h.between (hbetween hp)⟩

/-- All daemons after one of them has moved. -/
lemma forall_move (P : Fin d → DaemonPc → Prop) (hpc : P i pc) (h : ∀ j, P j (s.pc j)) :
    ∀ j, P j ((s.move i pc).pc j) :=
  (Function.forall_update_iff s.pc P).2 ⟨hpc, fun j _ => h j⟩

/-- A daemon goes on without touching the semaphore. -/
lemma Inv.move (h : Inv v s) (hpc : DaemonOk s.books i pc (s.held i)) : Inv v (s.move i pc) :=
  ⟨h.balanced, h.named, h.nodup,
    forall_move (fun j pc => DaemonOk s.books j pc (s.held j)) hpc h.daemon, h.taken, h.own⟩

/-- So does the master. -/
lemma Inv.goOn (h : Inv v s) {m : MasterPc} (hm : m.Taken s.books.taken) :
    Inv v { s with master := m } :=
  ⟨h.balanced, h.named, h.nodup, h.daemon, hm, h.own⟩

/-- The name is removed. -/
lemma Inv.semUnlink (h : Inv v s) : Inv v { s with books := s.books.semUnlink } :=
  ⟨h.balanced, by rintro id ⟨⟩, h.nodup,
    fun j => (h.daemon j).mono (Nat.le_refl _) (fun _ => Iff.rfl) (by rintro id - - ⟨⟩), h.taken,
    h.own⟩

/-- The semaphore is opened, or made. -/
lemma Inv.semOpen (h : Inv v s) : Inv v { s with books := s.books.semOpen.1 } := by
  refine ⟨h.balanced.semOpen, h.named.semOpen, ?_, ?_, ?_, ?_⟩
  · simpa only [posted_semOpen] using h.nodup
  · refine fun j => (h.daemon j).mono length_semOpen_le (fun id => by rw [posted_semOpen]) ?_
    intro id hid hne
    rw [name_semOpen]
    exact fun he => semOpen_ne hid hne (Option.some.inj he)
  · simpa only [taken_semOpen] using h.taken
  · simpa only [taken_semOpen] using h.own

/-- The master opens it and begins to wait. -/
lemma Inv.openMaster (h : Inv v s) (hm : s.master = .opening) : Inv v { s with
    books := s.books.semOpen.1, sem := s.books.semOpen.2, master := .waiting syncProcCnt } := by
  have hopen := h.semOpen
  have htaken : s.books.taken = [] := by
    have ht := h.taken
    rwa [hm] at ht
  refine ⟨hopen.balanced, hopen.named, hopen.nodup, hopen.daemon, ?_, ?_⟩
  · simp only [MasterPc.Taken, taken_semOpen, htaken, List.length_nil, Nat.zero_add]
  · intro id hid
    rw [taken_semOpen, htaken] at hid
    cases hid

/-- The master is woken. -/
lemma Inv.take (h : Inv v s) {k : Nat} (hm : s.master = .waiting (k + 1))
    (hb : s.books.semWait s.sem = some b) : Inv v { s with books := b, master := .waiting k } := by
  have hlen := length_semWait hb
  have hbal := h.balanced.semWait hb
  have hnamed := h.named.semWait hb
  obtain ⟨htaken, hown⟩ := taken_semWait h.own hb
  obtain ⟨-, rfl⟩ := semWait_eq_some hb
  have ht := h.taken
  rw [hm] at ht
  refine ⟨hbal, hnamed, h.nodup, ?_, ?_, hown⟩
  · exact fun j => (h.daemon j).mono (Nat.le_of_eq hlen.symm) (fun _ => Iff.rfl) fun _ _ hne => hne
  · simp only [MasterPc.Taken] at ht ⊢
    rw [htaken]
    omega

/-- A daemon opens the name. The semaphore is one that it has not posted to. -/
lemma Inv.openSem (h : Inv v s) (hi : s.pc i = .opening) : Inv v { s.move i .saving with
    books := s.books.semOpen.1, held := Function.update s.held i s.books.semOpen.2 } := by
  have hopen := h.semOpen
  have hd := h.daemon i
  rw [hi] at hd
  refine ⟨hopen.balanced, hopen.named, hopen.nodup, ?_, hopen.taken, hopen.own⟩
  intro j
  by_cases hj : j = i
  · subst hj
    simp only [State.move, Function.update_self]
    refine ⟨fun _ => h.named.lt_semOpen, (hopen.daemon j).posted, ?_, by simp [DaemonPc.behind],
      by simp [DaemonPc.between]⟩
    intro _ id hid
    rw [posted_semOpen] at hid
    have hne := semOpen_ne (hd.posted id hid) (hd.between rfl id hid)
    rw [name_semOpen]
    exact ⟨fun he => hne (Option.some.inj he), hne⟩
  · simp only [State.move, Function.update_of_ne hj]
    exact hopen.daemon j

/-- A daemon posts, to this semaphore for the first time. -/
lemma Inv.post (h : Inv v s) (hi : s.pc i = .posting) :
    Inv v { s.move i .closing with books := s.books.semPost i (s.held i) } := by
  have hd := h.daemon i
  rw [hi] at hd
  have hheld := hd.valid (.inl rfl)
  refine ⟨h.balanced.semPost hheld i, h.named.semPost _ _, ?_, ?_, h.taken, h.own⟩
  · exact nodup_semPost h.nodup fun hmem => (hd.before rfl _ hmem).2 rfl
  · intro j
    by_cases hj : j = i
    · subst hj
      simp only [State.move, Function.update_self]
      refine ⟨fun _ => ?_, ?_, by simp [DaemonPc.before], ?_, by simp [DaemonPc.between]⟩
      · rw [length_semPost]
        exact hheld
      · intro id hid
        rw [length_semPost]
        rcases List.mem_append.1 hid with hid | hid
        · exact hd.posted id hid
        · cases List.mem_singleton.1 hid
          exact hheld
      · intro _ id hid
        rcases List.mem_append.1 hid with hid | hid
        · exact .inl (hd.before rfl id hid).1
        · cases List.mem_singleton.1 hid
          exact .inr rfl
    · simp only [State.move, Function.update_of_ne hj]
      exact (h.daemon j).mono (Nat.le_of_eq length_semPost.symm) (fun _ => mem_posted_semPost hj)
        fun _ _ hne => hne

/-- A daemon removes the name, and with it its way back. -/
lemma Inv.unlink (h : Inv v s) (i : Fin d) (hpc : pc.before = false) (hpc' : pc.behind = false) :
    Inv v { s.move i pc with books := s.books.semUnlink } := by
  have hunlink := h.semUnlink
  have hd := hunlink.daemon i
  have hmove : Inv v ({ s with books := s.books.semUnlink }.move i pc) := by
    refine hunlink.move ⟨?_, hd.posted, ?_, ?_, fun _ _ _ hname => by cases hname⟩
    · rintro (hp | hp)
      · rw [hpc] at hp
        cases hp
      · rw [hpc'] at hp
        cases hp
    · intro hp
      rw [hpc] at hp
      cases hp
    · intro hp
      rw [hpc'] at hp
      cases hp
  exact ⟨hmove.balanced, hmove.named, hmove.nodup, hmove.daemon, hmove.taken, hmove.own⟩

/-- No step breaks it. -/
lemma step_inv {e : Event d} (h : Inv v s) (hs : step s e = some t) : Inv v t := by
  cases e with
  | openMaster =>
    simp only [step] at hs
    split at hs <;> cases hs
    exact h.openMaster ‹_›
  | openMasterFails =>
    simp only [step] at hs
    split at hs <;> cases hs
    exact h.semUnlink.goOn trivial
  | take =>
    simp only [step] at hs
    split at hs
    · obtain ⟨b, hb, rfl⟩ := Option.map_eq_some_iff.1 hs
      exact h.take ‹_› hb
    · cases hs
  | timeOut =>
    simp only [step] at hs
    split at hs
    · split at hs <;> cases hs
      exact h.goOn trivial
    · cases hs
  | leave =>
    simp only [step] at hs
    split at hs <;> cases hs
    rename_i hm
    have ht := h.taken
    rw [hm] at ht
    exact h.goOn ht
  | unlinkMaster =>
    simp only [step] at hs
    split at hs <;> cases hs
    rename_i ok hm
    have ht := h.taken
    rw [hm] at ht
    refine h.semUnlink.goOn ?_
    cases ok with
    | true => exact ht
    | false => trivial
  | openSem i =>
    simp only [step] at hs
    split at hs <;> cases hs
    exact h.openSem ‹_›
  | openFails i | unlink i =>
    simp only [step] at hs
    split at hs <;> cases hs
    exact h.unlink i rfl rfl
  | save i | close i =>
    simp only [step] at hs
    split at hs <;> cases hs
    rename_i hi
    refine h.move ((h.daemon i).goOn ?_ ?_ ?_)
    all_goals
      rw [hi]
      decide
  | post i =>
    simp only [step] at hs
    split at hs <;> cases hs
    exact h.post ‹_›
  | kill i =>
    simp only [step] at hs
    split at hs <;> cases hs
    exact h.move ((h.daemon i).goOn (by simp [DaemonPc.before]) (by simp [DaemonPc.behind])
      (by simp [DaemonPc.between]))

end Preserve

/-- It holds before anybody has started. -/
lemma init_inv (left : Option Nat) : Inv (leftValue left) (init left : State d) := by
  have hdaemon (b : Books (Fin d)) (hb : b.posted = []) (i : Fin d) :
      DaemonOk b i .opening 0 := by
    have hnone (id : Nat) : (i, id) ∉ b.posted := by
      rw [hb]
      exact List.not_mem_nil
    exact ⟨by simp [DaemonPc.before, DaemonPc.behind], fun id hid => absurd hid (hnone id),
      by simp [DaemonPc.before], by simp [DaemonPc.behind], fun _ id hid => absurd hid (hnone id)⟩
  refine ⟨balanced_start left, named_start left, ?_, hdaemon _ (posted_start left), taken_start left, ?_⟩
  · simp only [init, posted_start, List.nodup_nil]
  · intro id hid
    rw [show (init left : State d).books.taken = [] from taken_start left] at hid
    cases hid

/-- With fewer daemons than entries in the list, the terminating one included, and no value left in
the semaphore to make up for the difference, the master never gets through: in every interleaving,
however often the daemons go round, the only way out of its loop is the time-out. -/
theorem sync_never (left : Option Nat) (hd : d + left.getD 0 < syncProcCnt) (s : State d)
    (hr : Reach step (fun _ _ => True) (init left) s) :
    s.master ≠ .closing true ∧ s.master ≠ .finished true := by
  have h : Inv (leftValue left) s :=
    hr.invariant (init_inv left) fun _ _ _ h _ hs => step_inv h hs
  have hle : s.books.taken.count s.sem ≤ (s.books.posters s.sem).card + leftValue left s.sem :=
    h.balanced.card_posters h.nodup
  have hcount := count_taken h.own
  have hcard : (s.books.posters s.sem).card ≤ d :=
    (Finset.card_le_univ _).trans (Nat.le_of_eq (Fintype.card_fin d))
  have hleft := leftValue_le left s.sem
  have hshort : s.books.taken.length ≠ syncProcCnt := by omega
  have htaken := h.taken
  constructor
  · intro hm
    rw [hm] at htaken
    exact hshort htaken
  · intro hm
    rw [hm] at htaken
    exact hshort htaken

/-- The one daemon of the list, which has gone round once and has begun again. -/
theorem sync_never_one : ∃ s : State 1,
    Reach step (fun _ _ => True) (init none) s ∧ s.master = .waiting 1 ∧ s.pc 0 = .saving ∧
      (s.master ≠ .closing true ∧ s.master ≠ .finished true) := by
  have hrun : (run step (init none : State 1) [.openMaster, .openSem 0, .save 0, .post 0, .close 0,
      .unlink 0, .openSem 0, .take]).map (fun s => (s.master, s.pc 0)) =
      some (.waiting 1, .saving) := by decide
  obtain ⟨s, hs, hpair⟩ := Option.map_eq_some_iff.1 hrun
  have hreach := Reach.of_run hs
  exact ⟨s, hreach, congrArg Prod.fst hpair, congrArg Prod.snd hpair,
    sync_never none (by decide) s hreach⟩

end CcodeTest.Semaphore.Daemon
