import CcodeTest.SysQueue.Storage

/-!
# Unregistering among threads

The loop of `file_storage_unregister` runs under the mutex and looks at the head of the list only. So
an entry of another name anywhere on the list does not only keep the call from returning: nobody gets
the mutex again, nothing is registered, and no file is saved. `unregister_returns_iff` says that this
is the one way in which the call does not return.
-/

namespace CcodeTest.SysQueue
open CcodeTest.Lib

variable {ι : Type} [DecidableEq ι]

section Unregister

variable {s t : Storage ι} {l : List (Nat × FileStorage)} {r : Nat → Role ι} {i j : ι}
  {f : List UInt8}

/-- In the loop, with an entry of another name on the list. -/
structure Stalled (i : ι) (f : List UInt8) (s : Storage ι) : Prop where
  loop : s.client i = .looping (some f) ∨ s.client i = .got (some f) s.slhFirst ∨
    ∃ a, s.client i = .removed (some f) a
  other : ∃ fs ∈ replay s.acts, fs.filename ≠ some f

omit [DecidableEq ι] in
/-- The call is inside. -/
lemma Stalled.inside (h : Stalled i f s) : (s.client i).inside = true := by
  rcases h.loop with hi | hi | ⟨a, hi⟩ <;> rw [hi] <;> rfl

omit [DecidableEq ι] in
/-- It has the mutex. -/
lemma Stalled.owner (h : Stalled i f s) (hm : Guarded s.inside s.owner) :
    s.owner = some (.client i) :=
  (hm (.client i)).1 h.inside

/-- Whoever is outside waits. -/
lemma go_eq_none (hj : (s.client j).inside = false) (howner : s.owner.isNone = false) :
    s.go j = none := by
  unfold Storage.go
  cases hpc : s.client j with
  | idle => rfl
  | filled a fs => simp [howner]
  | inserting | linking | looping | got | removed | leaving =>
    rw [hpc] at hj
    cases hj

/-- Another thread that calls changes neither the list nor where the loop is. -/
lemma Stalled.move {pc : ClientPc} {heap : Nat → Option (FileStorage × Nat)} (h : Stalled i f s)
    (hj : j ≠ i) : Stalled i f { s.move j pc with heap } := by
  have hi : (s.move j pc).client i = s.client i := Function.update_of_ne hj.symm _ _
  refine ⟨?_, h.other⟩
  simp only [hi]
  exact h.loop

/-- The head has another name, or it is removed and the entry of another name is still there. -/
lemma Stalled.removeHead (h : StorageInv true s l r) (hs : Stalled i f s)
    (hi : s.client i = .got (some f) s.slhFirst) {fs : FileStorage} {next : Nat}
    (hcell : s.heap s.slhFirst = some (fs, next)) (hfs : fs.filename = some f) :
    Stalled i f (s.removeHead i (some f) s.slhFirst) := by
  have hne : s.slhFirst ≠ 0 := by
    have hok := (h.client i).1
    rw [hi] at hok
    exact hok.1
  obtain ⟨fs', next', l', rfl, hcell', -⟩ := h.memory.chain.cases_ne hne
  cases hcell.symm.trans hcell'
  simp only [Storage.removeHead, hcell]
  refine ⟨.inr (.inr ⟨_, Function.update_self ..⟩), ?_⟩
  obtain ⟨other, hmem, hother⟩ := hs.other
  rw [h.replay] at hmem
  refine ⟨other, ?_, hother⟩
  rw [replay_append, h.replay]
  exact List.mem_of_ne_of_mem (fun he => hother (he ▸ hfs)) hmem

/-- The thread itself goes on and stays in the loop. -/
lemma Stalled.go (h : StorageInv true s l r) (hs : Stalled i f s) (hstep : s.go i = some t) :
    Stalled i f t := by
  unfold Storage.go at hstep
  rcases hs.loop with hi | hi | ⟨a, hi⟩
  · have hne : s.slhFirst ≠ 0 := by
      intro hzero
      obtain ⟨other, hmem, -⟩ := hs.other
      have hchain := h.memory.chain
      rw [hzero] at hchain
      rw [h.replay, hchain.eq_nil] at hmem
      cases hmem
    simp only [hi, if_neg hne] at hstep
    cases hstep
    exact ⟨.inr (.inl (Function.update_self ..)), hs.other⟩
  · obtain ⟨fs, next, name, hcell, hname⟩ := h.compare hi
    simp only [hi, hcell, hname] at hstep
    split at hstep
    · rename_i heq
      cases hstep
      exact hs.removeHead h hi hcell (hname.trans (congrArg some heq))
    · cases hstep
      exact ⟨.inl (Function.update_self ..), hs.other⟩
  · obtain ⟨hheap, -⟩ := h.removed hi
    obtain ⟨cell, hcell⟩ := Option.ne_none_iff_exists'.1 hheap
    simp only [hi, hcell] at hstep
    cases hstep
    exact ⟨.inl (Function.update_self ..), hs.other⟩

/-- Nobody gets it out of there. -/
lemma Stalled.step {e : Event ι} (h : StorageInv true s l r) (hs : Stalled i f s)
    (hstep : storageStep s e = some t) : Stalled i f t := by
  have howner : s.owner.isNone = false := by rw [hs.owner h.mutex]; rfl
  have hbusy : s.client i ≠ .idle := by
    intro hidle
    have hin := hs.inside
    rw [hidle] at hin
    cases hin
  cases e with
  | register j a fs next =>
    simp only [storageStep] at hstep
    split at hstep
    · rename_i hj
      obtain ⟨-, hstep⟩ := Option.ite_none_right_eq_some.1 hstep
      cases hstep
      exact hs.move fun he => hbusy (he ▸ hj)
    · cases hstep
  | registerNull j a fs next =>
    simp only [storageStep] at hstep
    split at hstep
    · obtain ⟨-, hstep⟩ := Option.ite_none_right_eq_some.1 hstep
      cases hstep
      exact ⟨hs.loop, hs.other⟩
    · cases hstep
  | unregister j f =>
    simp only [storageStep, howner] at hstep
    split at hstep <;> cases hstep
  | go j =>
    by_cases hj : j = i
    · subst hj
      exact hs.go h hstep
    · have hnone := go_eq_none (outside_of_inside h.mutex hs.inside hj) howner
      cases hnone.symm.trans hstep
  | goTask =>
    simp only [storageStep, Storage.goTask, sleeping_of_inside h.mutex hs.inside, howner] at hstep
    cases hstep

/-- The loop looks at the head. -/
lemma go_looping (hi : s.client i = .looping (some f)) (hne : s.slhFirst ≠ 0) :
    s.go i = some (s.move i (.got (some f) s.slhFirst)) := by
  simp only [Storage.go, hi, if_neg hne]

/-- The name is found there, and the cell taken off. -/
lemma go_got {a : Nat} {fs : FileStorage} {next : Nat} (hi : s.client i = .got (some f) a)
    (ha : a = s.slhFirst) (hcell : s.heap a = some (fs, next)) (hfs : fs.filename = some f) :
    s.go i = some { s.move i (.removed (some f) a) with slhFirst := next, acts := s.acts ++ [.pop] } := by
  subst ha
  simp only [Storage.go, hi, hcell, hfs, if_true, Storage.removeHead]

/-- The cell is freed. -/
lemma go_removed {a : Nat} {cell : FileStorage × Nat} (hi : s.client i = .removed (some f) a)
    (hcell : s.heap a = some cell) :
    s.go i = some { s.move i (.looping (some f)) with heap := Function.update s.heap a none } := by
  simp only [Storage.go, hi, hcell]

/-- The mutex is given back. -/
lemma go_leaving (hi : s.client i = .leaving) :
    s.go i = some { s.move i .idle with owner := none } := by
  simp only [Storage.go, hi]

/-- One entry of the name is at the head: three steps remove it. -/
lemma unregister_pass (h : StorageInv true s l r) (hi : s.client i = .looping (some f))
    {fs : FileStorage} {list : List FileStorage} (hlist : replay s.acts = fs :: list)
    (hfs : fs.filename = some f) :
    ∃ t, run storageStep s [.go i, .go i, .go i] = some t ∧ t.client i = .looping (some f) ∧
      replay t.acts = list := by
  have hne : s.slhFirst ≠ 0 := by
    intro hzero
    have hchain := h.memory.chain
    rw [hzero] at hchain
    rw [h.replay, hchain.eq_nil] at hlist
    cases hlist
  obtain ⟨fs', next, l', rfl, hcell, -⟩ := h.memory.chain.cases_ne hne
  have hhead : fs' = fs := (List.cons.inj (h.replay.symm.trans hlist)).1
  rw [hhead] at hcell
  let s₁ := s.move i (.got (some f) s.slhFirst)
  let s₂ : Storage ι := { s₁.move i (.removed (some f) s.slhFirst) with
    slhFirst := next, acts := s.acts ++ [.pop] }
  let s₃ : Storage ι := { s₂.move i (.looping (some f)) with
    heap := Function.update s.heap s.slhFirst none }
  have hgot : s.go i = some s₁ := go_looping hi hne
  have hremoved : s₁.go i = some s₂ :=
    go_got (s := s₁) (Function.update_self ..) rfl hcell hfs
  have hfreed : s₂.go i = some s₃ := go_removed (s := s₂) (Function.update_self ..) hcell
  refine ⟨s₃, ?_, Function.update_self .., ?_⟩
  · simp only [run, storageStep, hgot, hremoved, hfreed, Option.bind_some]
  · rw [show s₃.acts = s.acts ++ [.pop] from rfl, replay_append, hlist]
    rfl

/-- When all entries are of the name, the thread can empty the list and leave. -/
lemma unregister_leaves (hr : Reach storageStep (fun _ e => Allowed true e) storageInit s)
    (hi : s.client i = .looping (some f)) (hall : ∀ fs ∈ replay s.acts, fs.filename = some f) :
    ∃ t, Reach storageStep (fun _ e => Allowed true e) s t ∧ t.owner = none := by
  generalize hlist : replay s.acts = list at hall
  induction list generalizing s with
  | nil =>
    obtain ⟨l, r, h⟩ := reach_inv hr
    have hzero : s.slhFirst = 0 := by
      by_contra hne
      obtain ⟨fs, next, l', rfl, -⟩ := h.memory.chain.cases_ne hne
      cases h.replay.symm.trans hlist
    have hleaving : s.go i = some (s.move i .leaving) := by simp only [Storage.go, hi, if_pos hzero]
    have hidle := go_leaving (s := s.move i .leaving) (Function.update_self ..)
    exact ⟨_, .tail (.go i) (.tail (.go i) .refl trivial hleaving) trivial hidle, rfl⟩
  | cons fs list ih =>
    obtain ⟨l, r, h⟩ := reach_inv hr
    obtain ⟨t, hrun, hi', hlist'⟩ := unregister_pass h hi hlist (hall fs (List.mem_cons_self ..))
    have hst : Reach storageStep (fun _ e => Allowed true e) s t :=
      Reach.of_run_forall hrun (by simp [Allowed])
    obtain ⟨u, htu, howner⟩ :=
      ih (hr.trans hst) hi' hlist' fun fs hfs => hall fs (List.mem_cons_of_mem _ hfs)
    exact ⟨u, hst.trans htu, howner⟩

/-- With an entry of another name on the list, every state after this is in the loop. -/
lemma Stalled.reach (hr : Reach storageStep (fun _ e => Allowed true e) storageInit s)
    (hs : Stalled i f s) (hst : Reach storageStep (fun _ e => Allowed true e) s t) :
    Stalled i f t ∧ t.owner = some (.client i) := by
  have hboth : (∃ l r, StorageInv true t l r) ∧ Stalled i f t := by
    refine hst.invariant (I := fun t => (∃ l r, StorageInv true t l r) ∧ Stalled i f t)
      ⟨reach_inv hr, hs⟩ ?_
    rintro t e u ⟨h, hs⟩ he hstep
    obtain ⟨l, r, hinv⟩ := h
    exact ⟨storageStep_inv ⟨l, r, hinv⟩ he hstep, hs.step hinv hstep⟩
  obtain ⟨⟨l, r, h⟩, hs'⟩ := hboth
  exact ⟨hs', hs'.owner h.mutex⟩

/-- A thread in the loop of `file_storage_unregister` can give the mutex back at all, whatever the
others do, exactly if every entry of the list is of the name. -/
theorem unregister_returns_iff (hr : Reach storageStep (fun _ e => Allowed true e) storageInit s)
    (hi : s.client i = .looping (some f)) :
    (∃ t, Reach storageStep (fun _ e => Allowed true e) s t ∧ t.owner ≠ some (.client i)) ↔
      ∀ fs ∈ replay s.acts, fs.filename = some f := by
  refine ⟨?_, fun hall => ?_⟩
  · rintro ⟨t, hst, howner⟩ fs hfs
    by_contra hname
    exact howner (Stalled.reach hr ⟨.inl hi, fs, hfs, hname⟩ hst).2
  · obtain ⟨t, hst, howner⟩ := unregister_leaves hr hi hall
    refine ⟨t, hst, ?_⟩
    simp [howner]

end Unregister

/-- Both files are registered, and the newer one is unregistered. -/
def sampleStallRun : List (Event Bool) :=
  [.register false 8 ⟨some [47, 97], 0⟩ 5, .go false, .go false, .go false, .go false,
    .register true 16 ⟨some [47, 98], 0⟩ 7, .go true, .go true, .go true, .go true,
    .unregister true (some [47, 98])]

/-- The name wanted stands behind another one. -/
theorem unregister_returns_iff_sample : ∃ s : Storage Bool,
    Reach storageStep (fun _ e => Allowed true e) storageInit s ∧
      s.client true = .looping (some [47, 98]) ∧
      ¬∃ t, Reach storageStep (fun _ e => Allowed true e) s t ∧ t.owner ≠ some (.client true) := by
  have hrun : (run storageStep storageInit sampleStallRun).map
      (fun s => (s.client true, replay s.acts)) = some (.looping (some [47, 98]),
        [⟨some [47, 98], 0⟩, ⟨some [47, 97], 0⟩]) := by
    decide
  obtain ⟨s, hs, heq⟩ := Option.map_eq_some_iff.1 hrun
  obtain ⟨hi, hlist⟩ := Prod.mk.inj heq
  have hreach : Reach storageStep (fun _ e => Allowed true e) storageInit s := by
    refine Reach.of_run_forall hs ?_
    simp [sampleStallRun, Allowed]
  refine ⟨s, hreach, hi, ?_⟩
  rw [unregister_returns_iff hreach hi, hlist]
  decide

end CcodeTest.SysQueue
