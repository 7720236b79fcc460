import CcodeTest.SysQueue.Stailq

/-!
# Lists

The `LIST` and `SLIST` macros of `queue.h`. A head has the pointer to the first element and nothing
else, so there are no macros for the end of a list. The elements of a `LIST` have a pointer back as
in a tail queue, and to insert beside an element or to remove it the head is not needed. Those of a
`SLIST` have none, and `SLIST_REMOVE` looks for the element before like `STAILQ_REMOVE`.

Take away `tqh_last` from a tail queue and what is left is a `LIST`, take away `stqh_last` from the
other kind and what is left is a `SLIST` (`Forgets`).
-/

namespace CcodeTest.SysQueue
open CcodeTest.Lib

/-- The structs of all heads and elements of a `LIST`: `ptr` is `lh_first` and `le_next`, and `back`
is `le_prev`. -/
structure DoubleList (η ε : Type*) where
  ptr : Slot η ε → Option ε
  back : ε → Slot η ε

namespace DoubleList

variable {η ε : Type*} [DecidableEq η] [DecidableEq ε]

def setPtr (k : DoubleList η ε) (s : Slot η ε) (p : Option ε) : DoubleList η ε :=
  { k with ptr := Function.update k.ptr s p }

def setBack (k : DoubleList η ε) (e : ε) (t : Slot η ε) : DoubleList η ε :=
  { k with back := Function.update k.back e t }

/-- The pointer back of the element that `p` leads to, if there is one. -/
def setNextBack (k : DoubleList η ε) (p : Option ε) (t : Slot η ε) : DoubleList η ε :=
  match p with
  | some f => k.setBack f t
  | none => k

/-- `LIST_INIT`. -/
def init (k : DoubleList η ε) (h : η) : DoubleList η ε := k.setPtr (.head h) none

/-- `LIST_INSERT_HEAD`. -/
def insertHead (k : DoubleList η ε) (h : η) (e : ε) : DoubleList η ε :=
  let k := k.setPtr (.elm e) (k.ptr (.head h))
  let k := k.setNextBack (k.ptr (.elm e)) (.elm e)
  let k := k.setPtr (.head h) (some e)
  k.setBack e (.head h)

/-- `LIST_INSERT_AFTER`. -/
def insertAfter (k : DoubleList η ε) (x e : ε) : DoubleList η ε :=
  let k := k.setPtr (.elm e) (k.ptr (.elm x))
  let k := k.setNextBack (k.ptr (.elm e)) (.elm e)
  let k := k.setPtr (.elm x) (some e)
  k.setBack e (.elm x)

/-- `LIST_INSERT_BEFORE`. -/
def insertBefore (k : DoubleList η ε) (x e : ε) : DoubleList η ε :=
  let k := k.setBack e (k.back x)
  let k := k.setPtr (.elm e) (some x)
  let k := k.setPtr (k.back x) (some e)
  k.setBack x (.elm e)

/-- `LIST_REMOVE`. -/
def remove (k : DoubleList η ε) (e : ε) : DoubleList η ε :=
  let k := k.setNextBack (k.ptr (.elm e)) (k.back e)
  k.setPtr (k.back e) (k.ptr (.elm e))

/-- There are no macros for the end of a list. -/
def exec (k : DoubleList η ε) : QueueOp η ε → Option (DoubleList η ε)
  | .init h => some (k.init h)
  | .insertHead h e => some (k.insertHead h e)
  | .insertTail _ _ => none
  | .insertAfter _ x e => some (k.insertAfter x e)
  | .insertBefore _ x e => some (k.insertBefore x e)
  | .remove _ e => some (k.remove e)
  | .concat _ _ => none

/-- `LIST_FOREACH`. -/
def foreach (k : DoubleList η ε) (n : Nat) (h : η) : Option (List ε) :=
  Tailq.loop k.ptr n (.head h)

/-- What is left of a tail queue without `tqh_last`. -/
def Forgets (m : Tailq η ε) (k : DoubleList η ε) : Prop :=
  k.ptr = m.ptr ∧ ∀ e, k.back e = m.back (.elm e)

variable {m : Tailq η ε} {k : DoubleList η ε}

/-- A list keeps no pointer to its last cell. -/
lemma Forgets.setBack_head (hk : Forgets m k) (h : η) (t : Slot η ε) :
    Forgets (m.setBack (.head h) t) k :=
  ⟨hk.1, fun e => by simp [Tailq.setBack, hk.2 e]⟩

/-- The pointer back of an element is `le_prev`. -/
lemma Forgets.setBack_elm (hk : Forgets m k) (e : ε) (t : Slot η ε) :
    Forgets (m.setBack (.elm e) t) (k.setBack e t) := by
  refine ⟨hk.1, ?_⟩
  intro f
  by_cases hf : f = e
  · subst hf
    simp [Tailq.setBack, DoubleList.setBack]
  · simp [Tailq.setBack, DoubleList.setBack, hf, hk.2 f]

/-- The pointers forward are the same. -/
lemma Forgets.setPtr (hk : Forgets m k) (s : Slot η ε) (p : Option ε) :
    Forgets (m.setPtr s p) (k.setPtr s p) :=
  ⟨by simp [Tailq.setPtr, DoubleList.setPtr, hk.1], hk.2⟩

/-- The macros set the pointer back of the next element, if there is one. -/
lemma Forgets.setNextBack (hk : Forgets m k) (h : η) (s t : Slot η ε) :
    Forgets (m.setNextBack h (m.ptr s) t) (k.setNextBack (k.ptr s) t) := by
  rw [hk.1]
  cases m.ptr s with
  | none => exact hk.setBack_head h t
  | some f => exact hk.setBack_elm f t

/-- `LIST_INSERT_HEAD` is `TAILQ_INSERT_HEAD` without the last cell. -/
lemma Forgets.insertHead (hk : Forgets m k) (h : η) (e : ε) :
    Forgets (m.insertHead h e) (k.insertHead h e) := by
  rw [Tailq.insertHead, DoubleList.insertHead, hk.1]
  exact (((hk.setPtr _ _).setNextBack h _ _).setPtr _ _).setBack_elm e _

/-- `LIST_INSERT_AFTER` likewise. -/
lemma Forgets.insertAfter (hk : Forgets m k) (h : η) (x e : ε) :
    Forgets (m.insertAfter h x e) (k.insertAfter x e) := by
  rw [Tailq.insertAfter, DoubleList.insertAfter, hk.1]
  exact (((hk.setPtr _ _).setNextBack h _ _).setPtr _ _).setBack_elm e _

/-- `LIST_INSERT_BEFORE` does not use the head either way. -/
lemma Forgets.insertBefore (hk : Forgets m k) (x e : ε) :
    Forgets (m.insertBefore x e) (k.insertBefore x e) := by
  have hfirst := (hk.setBack_elm e (m.back (.elm x))).setPtr (.elm e) (some x)
  rw [Tailq.insertBefore, DoubleList.insertBefore, hk.2 x, hfirst.2 x]
  exact (hfirst.setPtr _ _).setBack_elm x _

/-- `LIST_REMOVE` likewise. -/
lemma Forgets.remove (hk : Forgets m k) (h : η) (e : ε) :
    Forgets (m.remove h e) (k.remove e) := by
  have hfirst := hk.setNextBack h (.elm e) (m.back (.elm e))
  rw [Tailq.remove, DoubleList.remove, hk.2 e, hfirst.1, hfirst.2 e]
  exact hfirst.setPtr _ _

/-- Every macro does to the list what its counterpart does to a tail queue. -/
lemma Forgets.step {op : QueueOp η ε} (hk : Forgets m k) (htail : ∀ h e, op ≠ .insertTail h e)
    (hconcat : ∀ h₁ h₂, op ≠ .concat h₁ h₂) :
    ∃ k', k.exec op = some k' ∧ Forgets (m.exec op) k' := by
  cases op with
  | init h => exact ⟨_, rfl, (hk.setPtr _ _).setBack_head h _⟩
  | insertHead h e => exact ⟨_, rfl, hk.insertHead h e⟩
  | insertTail h e => exact absurd rfl (htail h e)
  | insertAfter h x e => exact ⟨_, rfl, hk.insertAfter h x e⟩
  | insertBefore h x e => exact ⟨_, rfl, hk.insertBefore x e⟩
  | remove h e => exact ⟨_, rfl, hk.remove h e⟩
  | concat h₁ h₂ => exact absurd rfl (hconcat h₁ h₂)

/-- The links are those of the lists, for some `tqh_last`. -/
def Represents (k : DoubleList η ε) (q : η → List ε) : Prop := ∃ m, Forgets m k ∧ m.Represents q

/-- A list as a tail queue, each `tqh_last` as if the list were empty. -/
def toTailq (k : DoubleList η ε) : Tailq η ε where
  ptr := k.ptr
  back
    | .head h => .head h
    | .elm e => k.back e

omit [DecidableEq η] [DecidableEq ε] in
/-- Lists that have been initialised are empty. -/
lemma Represents.empty (hinit : ∀ h, k.ptr (.head h) = none) : Represents k fun _ => [] := by
  refine ⟨k.toTailq, ⟨rfl, fun _ => rfl⟩, ?_⟩
  exact LinkedRings.empty fun h => ⟨Tailq.next_eq_head.2 (hinit h), rfl⟩

end DoubleList

/-- The structs of all heads and elements of a `SLIST`: `ptr` is `slh_first` and `sle_next`. -/
structure SingleList (η ε : Type*) where
  ptr : Slot η ε → Option ε

namespace SingleList

variable {η ε : Type*} [DecidableEq η] [DecidableEq ε]

def setPtr (k : SingleList η ε) (s : Slot η ε) (p : Option ε) : SingleList η ε :=
  ⟨Function.update k.ptr s p⟩

/-- `SLIST_INIT`. -/
def init (k : SingleList η ε) (h : η) : SingleList η ε := k.setPtr (.head h) none

/-- `SLIST_INSERT_HEAD`. -/
def insertHead (k : SingleList η ε) (h : η) (e : ε) : SingleList η ε :=
  let k := k.setPtr (.elm e) (k.ptr (.head h))
  k.setPtr (.head h) (some e)

/-- `SLIST_INSERT_AFTER`. -/
def insertAfter (k : SingleList η ε) (x e : ε) : SingleList η ε :=
  let k := k.setPtr (.elm e) (k.ptr (.elm x))
  k.setPtr (.elm x) (some e)

/-- The pointer at `s` is moved on by one element; there must be one. -/
def skip (k : SingleList η ε) (s : Slot η ε) : Option (SingleList η ε) :=
  (k.ptr s).map fun f => k.setPtr s (k.ptr (.elm f))

/-- `SLIST_REMOVE_HEAD`. -/
def removeHead (k : SingleList η ε) (h : η) : Option (SingleList η ε) := k.skip (.head h)

/-- `SLIST_REMOVE`, with at most so many turns of the loop, which is that of `STAILQ_REMOVE`. -/
def remove (n : Nat) (k : SingleList η ε) (h : η) (e : ε) : Option (SingleList η ε) :=
  if k.ptr (.head h) = some e then k.removeHead h
  else ((k.ptr (.head h)).bind (Stailq.find k.ptr e n)).bind fun cur => k.skip (.elm cur)

/-- There are no macros for the end of a list, or to put an element before another one. -/
def exec (n : Nat) (k : SingleList η ε) : QueueOp η ε → Option (SingleList η ε)
  | .init h => some (k.init h)
  | .insertHead h e => some (k.insertHead h e)
  | .insertTail _ _ => none
  | .insertAfter _ x e => some (k.insertAfter x e)
  | .insertBefore _ _ _ => none
  | .remove h e => k.remove n h e
  | .concat _ _ => none

/-- `SLIST_FOREACH`. -/
def foreach (k : SingleList η ε) (n : Nat) (h : η) : Option (List ε) :=
  Tailq.loop k.ptr n (.head h)

/-- What is left without `stqh_last`. -/
def forget (m : Stailq η ε) : SingleList η ε := ⟨m.ptr⟩

omit [DecidableEq ε] in
/-- The last cell does not show in a singly-linked list. -/
lemma forget_setLastIf (m : Stailq η ε) (h : η) (s : Slot η ε) :
    forget (m.setLastIf h s) = forget m := by
  unfold Stailq.setLastIf
  split <;> rfl

/-- Skipping a cell looks at pointers forward only. -/
lemma forget_skip (m : Stailq η ε) (h : η) (s : Slot η ε) :
    (m.skip h s).map forget = (forget m).skip s := by
  rw [Stailq.skip, skip, Option.map_map]
  congr 1
  funext f
  exact forget_setLastIf _ h s

/-- `SLIST_REMOVE` is `STAILQ_REMOVE` without the last cell. -/
lemma forget_remove (n : Nat) (m : Stailq η ε) (h : η) (e : ε) :
    (m.remove n h e).map forget = (forget m).remove n h e := by
  rw [Stailq.remove, remove, apply_ite (Option.map forget), Option.map_bind]
  congr 1
  · exact forget_skip m h (.head h)
  · congr 1
    funext cur
    exact forget_skip m h (.elm cur)

/-- Every macro does to the list what its counterpart does to the queue. -/
lemma forget_exec {op : QueueOp η ε} (n : Nat) (m : Stailq η ε)
    (htail : ∀ h e, op ≠ .insertTail h e) (hconcat : ∀ h₁ h₂, op ≠ .concat h₁ h₂) :
    (m.exec n op).map forget = (forget m).exec n op := by
  cases op with
  | init h => rfl
  | insertHead h e =>
    have hlast := forget_setLastIf (m.setPtr (.elm e) (m.ptr (.head h))) h (.elm e)
    exact congrArg (fun k => some (k.setPtr (.head h) (some e))) hlast
  | insertTail h e => exact absurd rfl (htail h e)
  | insertAfter h x e =>
    have hlast := forget_setLastIf (m.setPtr (.elm e) (m.ptr (.elm x))) h (.elm e)
    exact congrArg (fun k => some (k.setPtr (.elm x) (some e))) hlast
  | insertBefore h x e => rfl
  | remove h e => exact forget_remove n m h e
  | concat h₁ h₂ => exact absurd rfl (hconcat h₁ h₂)

end SingleList

/-- Any number of lists and any sequence of macros on them. The loops run through the lists that the
macros are to make, for both kinds of lists as far as they have the macros. -/
theorem lists_refine {η ε : Type*} [DecidableEq η] [DecidableEq ε] {d : DoubleList η ε}
    {s : SingleList η ε} {ops : List (QueueOp η ε)} {q : η → List ε}
    (hinit : ∀ h, d.ptr (.head h) = none ∧ s.ptr (.head h) = none) (hrun : QueueRun ops q)
    (htail : ∀ h e, .insertTail h e ∉ ops) (hconcat : ∀ h₁ h₂, .concat h₁ h₂ ∉ ops) :
    (∃ k, run DoubleList.exec d ops = some k ∧
      ∀ h n, (q h).length < n → k.foreach n h = some (q h)) ∧
    ((∀ h x e, .insertBefore h x e ∉ ops) →
      ∃ N k, (∀ n, N ≤ n → run (SingleList.exec n) s ops = some k) ∧
        ∀ h n, (q h).length < n → k.foreach n h = some (q h)) := by
  refine ⟨?_, ?_⟩
  · have hsim : ∀ op ∈ ops, ∀ (k : DoubleList η ε) (q q' : η → List ε), k.Represents q →
        QueueStep q op q' → ∃ (N : Nat) (k' : DoubleList η ε),
          (∀ n, N ≤ n → k.exec op = some k') ∧ k'.Represents q' := by
      rintro op hop k q q' ⟨m, hk, hm⟩ hstep
      obtain ⟨k', hk', hforgets⟩ := hk.step (fun h e heq => htail h e (heq ▸ hop))
        fun h₁ h₂ heq => hconcat h₁ h₂ (heq ▸ hop)
      exact ⟨0, k', fun _ _ => hk', m.exec op, hforgets, hm.step hstep⟩
    obtain ⟨N, k, hk, m, hforgets, hm⟩ :=
      Trace.simulates hsim hrun (DoubleList.Represents.empty fun h => (hinit h).1)
    refine ⟨k, hk N (Nat.le_refl N), ?_⟩
    intro h n hn
    rw [DoubleList.foreach, hforgets.1]
    exact hm.foreach hn
  · intro hbefore
    have hsim : ∀ op ∈ ops, ∀ (k : SingleList η ε) (q q' : η → List ε),
        (∃ m, SingleList.forget m = k ∧ m.Represents q) → QueueStep q op q' →
          ∃ N k', (∀ n, N ≤ n → k.exec n op = some k') ∧
            ∃ m, SingleList.forget m = k' ∧ m.Represents q' := by
      rintro op hop k q q' ⟨m, rfl, hm⟩ hstep
      obtain ⟨N, m', hm', hr⟩ := hm.step hstep fun h x e heq => hbefore h x e (heq ▸ hop)
      refine ⟨N, SingleList.forget m', ?_, m', rfl, hr⟩
      intro n hn
      rw [← SingleList.forget_exec n m (fun h e heq => htail h e (heq ▸ hop))
        fun h₁ h₂ heq => hconcat h₁ h₂ (heq ▸ hop), hm' n hn]
      rfl
    have hempty : Stailq.Represents ⟨s.ptr, .head⟩ fun _ => [] :=
      Stailq.Represents.empty fun h => ⟨(hinit h).2, rfl⟩
    obtain ⟨N, k, hk, m, rfl, hm⟩ := Trace.simulates hsim hrun ⟨_, rfl, hempty⟩
    exact ⟨N, _, hk, fun h n hn => hm.foreach hn⟩

/-- An element in the middle of the first list is removed. -/
def listOps : List (QueueOp Bool Nat) :=
  [.insertHead false 1, .insertHead true 5, .insertAfter false 1 2, .insertAfter false 2 3,
    .remove false 2]

/-- The operations of the sample, in the queues they stand for. -/
lemma listOps_run : ∃ q : Bool → List Nat, QueueRun listOps q ∧ q false = [1, 3] := by
  refine ⟨_, .cons (.insertHead false (by simp)) <| .cons (.insertHead true (by simp)) <|
    .cons (@QueueStep.insertAfter _ _ _ _ false 1 2 [] [] rfl (by simp)) <|
    .cons (@QueueStep.insertAfter _ _ _ _ false 2 3 [1] [] rfl (by simp)) <|
    .cons (@QueueStep.remove _ _ _ _ false 2 [1] [3] rfl) (.nil _), ?_⟩
  rfl

/-- The sample on both kinds of list. -/
theorem lists_refine_sample :
    (∃ k, run DoubleList.exec (⟨fun _ => none, .elm⟩ : DoubleList Bool Nat) listOps = some k ∧
      k.foreach 3 false = some [1, 3]) ∧
    ∃ N k, (∀ n, N ≤ n →
      run (SingleList.exec n) (⟨fun _ => none⟩ : SingleList Bool Nat) listOps = some k) ∧
        k.foreach 3 false = some [1, 3] := by
  obtain ⟨q, hrun, hq⟩ := listOps_run
  obtain ⟨⟨k₂, hk₂, hloop₂⟩, hsingle⟩ := lists_refine (d := ⟨fun _ => none, .elm⟩)
    (s := ⟨fun _ => none⟩) (fun h => ⟨rfl, rfl⟩) hrun (by simp [listOps]) (by simp [listOps])
  obtain ⟨N, k₁, hk₁, hloop₁⟩ := hsingle (by simp [listOps])
  have hfalse₂ := hloop₂ false 3 (by simp [hq])
  have hfalse₁ := hloop₁ false 3 (by simp [hq])
  rw [hq] at hfalse₁ hfalse₂
  exact ⟨⟨k₂, hk₂, hfalse₂⟩, N, k₁, hk₁, hfalse₁⟩

end CcodeTest.SysQueue
