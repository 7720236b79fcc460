import CcodeTest.Lib.Queues

/-!
# Tail queues

The `TAILQ` macros of `queue.h`. A head has the pointers `tqh_first` and `tqh_last`, an element has
`tqe_next` and `tqe_prev`. The second one of them is the address of a first one: that of the element
before, or of the head. The two structs have the same layout, and `TAILQ_LAST` and `TAILQ_PREV` use
this: they take the address of a `tqe_next` for that of a head.

With the head in the place of the null pointer the links of a queue are a ring (`LinkedRing`), so
that each macro puts a cell between two neighbours or takes one out. `tailq_refines` is about any
number of queues and any use of the macros that the header allows.
-/

namespace CcodeTest.SysQueue
open CcodeTest.Lib

/-- The structs of all heads and elements: `ptr` is `tqh_first` and `tqe_next`, and `back` what
comes behind it, `tqh_last` and `tqe_prev`. A `Slot` is the address of one of the former. -/
structure Tailq (η ε : Type*) where
  ptr : Slot η ε → Option ε
  back : Slot η ε → Slot η ε

namespace Tailq

variable {η ε : Type*} [DecidableEq η] [DecidableEq ε]

def setPtr (m : Tailq η ε) (s : Slot η ε) (p : Option ε) : Tailq η ε :=
  { m with ptr := Function.update m.ptr s p }

def setBack (m : Tailq η ε) (s t : Slot η ε) : Tailq η ε :=
  { m with back := Function.update m.back s t }

/-- `TAILQ_INIT`. -/
def init (m : Tailq η ε) (h : η) : Tailq η ε :=
  (m.setPtr (.head h) none).setBack (.head h) (.head h)

/-- The pointer back to an element that now comes behind `e`, or `tqh_last` if there is none. -/
def setNextBack (m : Tailq η ε) (h : η) (p : Option ε) (t : Slot η ε) : Tailq η ε :=
  match p with
  | some f => m.setBack (.elm f) t
  | none => m.setBack (.head h) t

/-- `TAILQ_INSERT_HEAD`. -/
def insertHead (m : Tailq η ε) (h : η) (e : ε) : Tailq η ε :=
  let m := m.setPtr (.elm e) (m.ptr (.head h))
  let m := m.setNextBack h (m.ptr (.elm e)) (.elm e)
  let m := m.setPtr (.head h) (some e)
  m.setBack (.elm e) (.head h)

/-- `TAILQ_INSERT_TAIL`. -/
def insertTail (m : Tailq η ε) (h : η) (e : ε) : Tailq η ε :=
  let m := m.setPtr (.elm e) none
  let m := m.setBack (.elm e) (m.back (.head h))
  let m := m.setPtr (m.back (.head h)) (some e)
  m.setBack (.head h) (.elm e)

/-- `TAILQ_INSERT_AFTER`. -/
def insertAfter (m : Tailq η ε) (h : η) (x e : ε) : Tailq η ε :=
  let m := m.setPtr (.elm e) (m.ptr (.elm x))
  let m := m.setNextBack h (m.ptr (.elm e)) (.elm e)
  let m := m.setPtr (.elm x) (some e)
  m.setBack (.elm e) (.elm x)

/-- `TAILQ_INSERT_BEFORE`. -/
def insertBefore (m : Tailq η ε) (x e : ε) : Tailq η ε :=
  let m := m.setBack (.elm e) (m.back (.elm x))
  let m := m.setPtr (.elm e) (some x)
  let m := m.setPtr (m.back (.elm x)) (some e)
  m.setBack (.elm x) (.elm e)

/-- `TAILQ_REMOVE`. -/
def remove (m : Tailq η ε) (h : η) (e : ε) : Tailq η ε :=
  let m := m.setNextBack h (m.ptr (.elm e)) (m.back (.elm e))
  m.setPtr (m.back (.elm e)) (m.ptr (.elm e))

/-- `TAILQ_CONCAT`. -/
def concat (m : Tailq η ε) (h₁ h₂ : η) : Tailq η ε :=
  match m.ptr (.head h₂) with
  | none => m
  | some f =>
    let m := m.setPtr (m.back (.head h₁)) (some f)
    let m := m.setBack (.elm f) (m.back (.head h₁))
    let m := m.setBack (.head h₁) (m.back (.head h₂))
    m.init h₂

def exec (m : Tailq η ε) : QueueOp η ε → Tailq η ε
  | .init h => m.init h
  | .insertHead h e => m.insertHead h e
  | .insertTail h e => m.insertTail h e
  | .insertAfter h x e => m.insertAfter h x e
  | .insertBefore _ x e => m.insertBefore x e
  | .remove h e => m.remove h e
  | .concat h₁ h₂ => m.concat h₁ h₂

/-- A loop over the elements to which `p` leads, from the pointer at `s` on and for at most so many
turns. -/
def loop (p : Slot η ε → Option ε) : Nat → Slot η ε → Option (List ε)
  | 0, _ => none
  | n + 1, s =>
    match p s with
    | none => some []
    | some e => (loop p n (.elm e)).map (e :: ·)

/-- `TAILQ_FOREACH`. -/
def foreach (m : Tailq η ε) (n : Nat) (h : η) : Option (List ε) := loop m.ptr n (.head h)

/-- `TAILQ_LAST`, and with the address of an element's link `TAILQ_PREV`. -/
def prevElm (m : Tailq η ε) (s : Slot η ε) : Option ε := m.ptr (m.back (m.back s))

/-- `TAILQ_FOREACH_REVERSE`. -/
def foreachReverse (m : Tailq η ε) (n : Nat) (h : η) : Option (List ε) :=
  loop m.prevElm n (.head h)

/-! The ring. -/

/-- Where a pointer leads, with the head for the null pointer. -/
def next (m : Tailq η ε) (h : η) (s : Slot η ε) : Slot η ε := (m.ptr s).elim (.head h) .elm

variable {m m' : Tailq η ε} {q : η → List ε} {h : η} {e x : ε} {s : Slot η ε} {l l₁ l₂ : List ε}

omit [DecidableEq η] [DecidableEq ε] in
/-- The cell behind `s` is the head again where the pointer is NULL. -/
lemma next_eq_head : m.next h s = .head h ↔ m.ptr s = none := by
  cases hp : m.ptr s <;> simp [next, hp]

omit [DecidableEq η] [DecidableEq ε] in
/-- It is an element where the pointer is not. -/
lemma next_eq_elm : m.next h s = .elm e ↔ m.ptr s = some e := by
  cases hp : m.ptr s <;> simp [next, hp]

/-- An element is put behind the pointer at `s`. -/
def linkAt (m : Tailq η ε) (h : η) (s : Slot η ε) (e : ε) : Tailq η ε where
  ptr := Function.update (Function.update m.ptr (.elm e) (m.ptr s)) s (some e)
  back := Function.update (Function.update m.back (m.next h s) (.elm e)) (.elm e) s

/-- An element is taken out. -/
def unlink (m : Tailq η ε) (h : η) (e : ε) : Tailq η ε where
  ptr := Function.update m.ptr (m.back (.elm e)) (m.ptr (.elm e))
  back := Function.update m.back (m.next h (.elm e)) (m.back (.elm e))

/-- The macros set the back link of whatever cell comes behind `s`. -/
lemma setNextBack_eq (m : Tailq η ε) (h : η) (s t : Slot η ε) :
    m.setNextBack h (m.ptr s) t = m.setBack (m.next h s) t := by
  cases hp : m.ptr s <;> simp [setNextBack, next, hp]

/-- `TAILQ_INSERT_HEAD` links the element behind the head. -/
lemma insertHead_eq (m : Tailq η ε) (h : η) (e : ε) :
    m.insertHead h e = m.linkAt h (.head h) e := by
  have hnext : (m.setPtr (.elm e) (m.ptr (.head h))).next h (.elm e) = m.next h (.head h) := by
    simp [next, setPtr]
  rw [insertHead, setNextBack_eq, hnext]
  rfl

/-- `TAILQ_INSERT_AFTER` links it behind the element given. -/
lemma insertAfter_eq (m : Tailq η ε) (h : η) (x e : ε) :
    m.insertAfter h x e = m.linkAt h (.elm x) e := by
  have hnext : (m.setPtr (.elm e) (m.ptr (.elm x))).next h (.elm e) = m.next h (.elm x) := by
    simp [next, setPtr]
  rw [insertAfter, setNextBack_eq, hnext]
  rfl

/-- `TAILQ_INSERT_TAIL` links it behind the last cell, whose pointer is NULL. -/
lemma insertTail_eq (hlast : m.ptr (m.back (.head h)) = none) :
    m.insertTail h e = m.linkAt h (m.back (.head h)) e := by
  have hne : (.elm e : Slot η ε) ≠ .head h := nofun
  have hback : Function.update m.back (.elm e) (m.back (.head h)) (.head h) = m.back (.head h) :=
    Function.update_of_ne hne.symm _ _
  rw [insertTail, linkAt, hlast, next_eq_head.2 hlast, Function.update_comm hne.symm]
  simp only [setPtr, setBack, hback]

/-- `TAILQ_INSERT_BEFORE` links it behind the cell whose pointer leads to the element given. -/
lemma insertBefore_eq (hx : m.ptr (m.back (.elm x)) = some x) (hne : x ≠ e) :
    m.insertBefore x e = m.linkAt h (m.back (.elm x)) e := by
  have hslot : (.elm e : Slot η ε) ≠ .elm x := fun heq => hne (Slot.elm.inj heq).symm
  have hback : Function.update m.back (.elm e) (m.back (.elm x)) (.elm x) = m.back (.elm x) :=
    Function.update_of_ne hslot.symm _ _
  rw [insertBefore, linkAt, hx, next_eq_elm.2 hx, Function.update_comm hslot.symm]
  simp only [setPtr, setBack, hback]

/-- `TAILQ_REMOVE` takes an element out that does not follow itself. -/
lemma remove_eq (hne : m.ptr (.elm e) ≠ some e) : m.remove h e = m.unlink h e := by
  have hback : (m.setBack (m.next h (.elm e)) (m.back (.elm e))).back (.elm e) =
      m.back (.elm e) := by
    refine Function.update_of_ne ?_ _ _
    intro heq
    exact hne (next_eq_elm.1 heq.symm)
  rw [remove, setNextBack_eq, hback]
  rfl

/-- A pointer that is set changes the cell behind `s`, in every queue. -/
lemma next_update (m : Tailq η ε) (h : η) (s : Slot η ε) (p : Option ε) :
    (m.setPtr s p).next h = Function.update (m.next h) s (p.elim (.head h) .elm) := by
  funext t
  by_cases ht : t = s
  · subst ht
    simp [next, setPtr]
  · simp [next, setPtr, ht]

/-- What follows what after an element is linked in. -/
lemma next_linkAt (m : Tailq η ε) (h h' : η) (s : Slot η ε) (e : ε) :
    (m.linkAt h s e).next h' =
      Function.update (Function.update (m.next h') (.elm e) (m.next h' s)) s (.elm e) := by
  have hlink : (m.linkAt h s e).next h' =
      ((m.setPtr (.elm e) (m.ptr s)).setPtr s (some e)).next h' := rfl
  rw [hlink, next_update, next_update]
  rfl

/-- What follows what after an element is taken out. -/
lemma next_unlink (m : Tailq η ε) (h h' : η) (e : ε) :
    (m.unlink h e).next h' =
      Function.update (m.next h') (m.back (.elm e)) (m.next h' (.elm e)) := by
  have hlink : (m.unlink h e).next h' =
      (m.setPtr (m.back (.elm e)) (m.ptr (.elm e))).next h' := rfl
  rw [hlink, next_update]
  rfl

/-- The links are those of the queues. -/
def Represents (m : Tailq η ε) (q : η → List ε) : Prop := LinkedRings m.next m.back q

/-- `linkAt` sets the links that the ring asks for. -/
lemma linkedAt (m : Tailq η ε) (h : η) (s : Slot η ε) (e : ε) :
    LinkedAt m.next m.back h s e (m.linkAt h s e).next (m.linkAt h s e).back :=
  ⟨fun h' => next_linkAt m h h' s e, rfl⟩

/-- Taking an element out of the links takes it out of the queue. -/
lemma Represents.unlink (hr : Represents m q) (hq : q h = l₁ ++ e :: l₂) :
    Represents (m.unlink h e) (Function.update q h (l₁ ++ l₂)) :=
  LinkedRings.remove hr hq (fun h' => next_unlink m h h' e) rfl

/-- `TAILQ_INIT` empties the queue. -/
lemma Represents.init (hr : Represents m q) (h : η) :
    Represents (m.init h) (Function.update q h []) := by
  refine LinkedRings.init hr ?_ ?_
  · simp [next, Tailq.init, setPtr, setBack]
  · intro s hs
    simp [next, Tailq.init, setPtr, setBack, hs]

/-- `TAILQ_CONCAT` when the second queue begins with `f`. -/
def append (m : Tailq η ε) (h₁ h₂ : η) (f : ε) : Tailq η ε where
  ptr := Function.update (Function.update m.ptr (m.back (.head h₁)) (some f)) (.head h₂) none
  back := Function.update (Function.update (Function.update m.back
    (.elm f) (m.back (.head h₁))) (.head h₁) (m.back (.head h₂))) (.head h₂) (.head h₂)

/-- `TAILQ_CONCAT` with a queue that is not empty appends it at the last cell. -/
lemma concat_eq {h₁ h₂ : η} {f : ε} (hfirst : m.ptr (.head h₂) = some f) :
    m.concat h₁ h₂ = m.append h₁ h₂ f := by
  rw [concat, hfirst]
  simp [append, Tailq.init, setPtr, setBack]

/-- The cells of the two queues after that. -/
lemma Represents.append_ring {h₁ h₂ : η} {f : ε} (hr : Represents m q) (hne : h₁ ≠ h₂)
    (hq : q h₂ = f :: l) :
    LinkedRing ((m.append h₁ h₂ f).next h₁) (m.append h₁ h₂ f).back (.head h₁)
      (cells (q h₁) ++ .elm f :: cells l) := by
  have hring₁ := hr.ring h₁
  have hring₂ := hr.ring h₂
  rw [hq, cells_cons] at hring₂
  obtain ⟨hend₁, hlast₁⟩ := hring₁.at_end
  obtain ⟨hend₂, hlast₂⟩ := hring₂.at_end
  have hmem₁ := (mem_of_cut (.head h₁ : Slot η ε) (cells (q h₁)) []).1
  have hmem₂ := (mem_of_cut (.elm f : Slot η ε) (cells l) []).1
  rw [List.append_nil] at hmem₁ hmem₂
  have hdisj : ∀ y ∈ .head h₁ :: cells (q h₁), y ≠ .head h₂ ∧ y ∉ .elm f :: cells l := by
    intro y hy
    cases y with
    | head h => simp_all
    | elm e =>
      have he : e ∉ q h₂ := hr.disjoint h₁ h₂ hne e (by simpa using hy)
      rw [hq] at he
      simpa using he
  have hsecond : ∀ y ∈ .elm f :: cells l, y ≠ .head h₂ ∧ y ≠ m.back (.head h₁) := by
    intro y hy
    refine ⟨?_, ?_⟩
    · rintro rfl
      exact (List.nodup_cons.1 hring₂.nodup).1 hy
    · rintro rfl
      exact (hdisj _ (hlast₁ ▸ hmem₁)).2 hy
  have hptr : ∀ y, y ≠ .head h₂ → y ≠ m.back (.head h₁) → (m.append h₁ h₂ f).ptr y = m.ptr y := by
    intro y hhead hlast
    simp [append, hhead, hlast]
  refine hring₁.concat hring₂ (fun y hy => (hdisj y hy).2) ?_ ?_ ?_ ?_
  · rw [← hlast₁] at hmem₁ ⊢
    exact ⟨next_eq_elm.2 (by simp [append, (hdisj _ hmem₁).1]), by simp [append]⟩
  · obtain ⟨hhead, hback⟩ := hsecond _ hmem₂
    refine ⟨next_eq_head.2 ?_, ?_⟩
    · rw [hptr _ hhead hback]
      exact next_eq_head.1 hend₂
    · simp [append, hne, hlast₂, lastFrom]
  · intro y hy
    refine ⟨?_, ?_⟩
    · intro hlast
      rw [← hlast₁] at hlast
      rw [next, hptr y (hdisj y hy).1 hlast, next]
    · intro hhead
      have hf : y ≠ .elm f := fun heq => (hdisj y hy).2 (heq ▸ List.mem_cons_self)
      simp [append, hhead, (hdisj y hy).1, hf]
  · intro y hy
    obtain ⟨hhead, hback⟩ := hsecond y hy
    refine ⟨?_, ?_⟩
    · intro hlast
      -- it is not the last one, so that its pointer is not null
      have hnext : m.next h₂ y ≠ .head h₂ := by
        intro heq
        have hprev := (hring₂.prev_next (List.mem_cons_of_mem _ hy)).2
        rw [heq, hlast₂] at hprev
        exact hlast hprev.symm
      obtain ⟨e, he⟩ := Option.ne_none_iff_exists'.1 (mt next_eq_head.2 hnext)
      rw [next_eq_elm.2 he]
      exact next_eq_elm.2 ((hptr y hhead hback).trans he)
    · intro hf
      have hhead₁ : y ≠ .head h₁ := fun heq => (hdisj _ List.mem_cons_self).2 (heq ▸ hy)
      simp [append, hf, hhead, hhead₁]

/-- `TAILQ_CONCAT` moves the second queue to the end of the first. -/
lemma Represents.concat {h₁ h₂ : η} (hr : Represents m q) (hne : h₁ ≠ h₂) :
    Represents (m.concat h₁ h₂)
      (Function.update (Function.update q h₁ (q h₁ ++ q h₂)) h₂ []) := by
  cases hq : q h₂ with
  | nil =>
    have hring₂ := hr.ring h₂
    rw [hq] at hring₂
    have hfirst : m.next h₂ (.head h₂) = .head h₂ := hring₂.at_end.1
    have hconcat : m.concat h₁ h₂ = m := by
      rw [Tailq.concat, next_eq_head.1 hfirst]
    rw [hconcat, List.append_nil, Function.update_eq_self, ← hq, Function.update_eq_self]
    exact hr
  | cons f l =>
    have hring₂ := hr.ring h₂
    rw [hq] at hring₂
    have hfirst : m.next h₂ (.head h₂) = .elm f := (hring₂.link _ List.mem_cons_self).1
    rw [concat_eq (next_eq_elm.1 hfirst), Function.update_comm hne]
    -- the elements of the second queue are free once it is empty
    refine LinkedRings.set (hr.init h₂) ?_ ?_ ?_
    · rw [cells_append, cells_cons]
      exact hr.append_ring hne hq
    · intro h hh e he
      by_cases hh₂ : h = h₂
      · subst hh₂
        simp
      · rw [Function.update_of_ne hh₂]
        rw [List.mem_append, ← hq] at he
        rcases he with he | he
        · exact hr.disjoint h₁ h hh.symm e he
        · exact hr.disjoint h₂ h (Ne.symm hh₂) e he
    · intro s hs
      have hmem := (mem_of_cut (.head h₁ : Slot η ε) (cells (q h₁)) []).1
      rw [List.append_nil, ← (hr.ring h₁).at_end.2] at hmem
      have hback : s ≠ m.back (.head h₁) := by
        rintro rfl
        simp_all
      have hhead : s ≠ .head h₁ := by
        rintro rfl
        simp_all
      have hf : s ≠ .elm f := by
        rintro rfl
        simp_all
      refine ⟨?_, ?_⟩
      · intro h
        simp [next, append, Tailq.init, setPtr, setBack, Function.update_apply, hback]
      · simp [append, Tailq.init, setPtr, setBack, Function.update_apply, hhead, hf]

/-- Every macro keeps the links, when it is used on elements as the header says. -/
lemma Represents.step {q' : η → List ε} {op : QueueOp η ε} (hr : Represents m q)
    (hstep : QueueStep q op q') : Represents (m.exec op) q' := by
  cases hstep with
  | init h => exact hr.init h
  | insertHead h hnew =>
    rw [exec, insertHead_eq]
    exact LinkedRings.insertHead hr (linkedAt ..) hnew
  | insertTail h hnew =>
    have hlast := ((hr.ring h).next_prev List.mem_cons_self).2
    rw [exec, insertTail_eq (next_eq_head.1 hlast)]
    exact LinkedRings.insertTail hr (linkedAt ..) hnew
  | insertAfter hq hnew =>
    rw [exec, insertAfter_eq]
    exact LinkedRings.insertAfter hr (linkedAt ..) hnew hq
  | @insertBefore h x e l₁ l₂ hq hnew =>
    have hx : m.next h (m.back (.elm x)) = .elm x :=
      ((hr.ring h).next_prev (by simp [hq])).2
    rw [exec, insertBefore_eq (next_eq_elm.1 hx) (ne_of_new hnew hq)]
    exact LinkedRings.insertBefore hr (linkedAt ..) hnew hq
  | remove hq =>
    have hself : m.ptr (.elm _) ≠ some _ := mt next_eq_elm.2 (hr.at_elm hq).next_ne
    rw [exec, remove_eq hself]
    exact hr.unlink hq
  | concat hne => exact hr.concat hne

/-! The loops. -/

/-- The loops over a queue follow its links up to the head. -/
lemma loop_eq (p : Slot η ε → Option ε) (h : η) (n : Nat) (s : Slot η ε) :
    (loop p n s).map cells = follow (fun s => (p s).elim (.head h) .elm) (.head h) n s := by
  induction n generalizing s with
  | zero => rfl
  | succ n ih =>
    rw [loop, follow]
    cases hp : p s with
    | none => simp
    | some e =>
      have hrest := ih (.elm e)
      simp only [Option.elim_some, reduceCtorEq, if_false, ← hrest, Option.map_map]
      rfl

/-- What the loop runs through when its pointers are those of a ring. -/
lemma loop_ring {p : Slot η ε → Option ε} {prev : Slot η ε → Slot η ε} {n : Nat}
    (hring : LinkedRing (fun s => (p s).elim (.head h) .elm) prev (.head h) (cells l))
    (hn : l.length < n) : loop p n (.head h) = some l := by
  have hfollow := hring.follow (n := n) (by simpa [cells] using hn)
  rw [← loop_eq] at hfollow
  obtain ⟨l', hloop, heq⟩ := Option.map_eq_some_iff.1 hfollow
  rw [hloop, cells_injective heq]

/-- `TAILQ_FOREACH` visits the elements of the queue in order. -/
lemma Represents.foreach {n : Nat} (hr : Represents m q) (hn : (q h).length < n) :
    m.foreach n h = some (q h) :=
  loop_ring (hr.ring h) hn

/-- Two pointers back and one on is one back. -/
lemma Represents.foreachReverse {n : Nat} (hr : Represents m q) (hn : (q h).length < n) :
    m.foreachReverse n h = some (q h).reverse := by
  have hring := (hr.ring h).reverse
  rw [cells_reverse] at hring
  have htwo : LinkedRing (fun s => m.next h (m.back (m.back s))) (m.next h) (.head h)
      (cells (q h).reverse) := by
    refine hring.congr ?_
    intro s hs
    obtain ⟨hmem, -⟩ := hring.prev_next hs
    exact ⟨(hring.prev_next hmem).2, rfl⟩
  exact loop_ring htwo (by rwa [List.length_reverse])

end Tailq

open Tailq

/-- Any number of tail queues, with heads that are initialised and elements that have anything in
their links, and any sequence of macros on them: the loops run through the queues that the macros
are to make, in both directions, and come to an end. -/
theorem tailq_refines {η ε : Type*} [DecidableEq η] [DecidableEq ε] {m : Tailq η ε}
    {ops : List (QueueOp η ε)} {q : η → List ε}
    (hinit : ∀ h, m.ptr (.head h) = none ∧ m.back (.head h) = .head h) (hrun : QueueRun ops q)
    (h : η) (n : Nat) (hn : (q h).length < n) :
    (ops.foldl exec m).foreach n h = some (q h) ∧
      (ops.foldl exec m).foreachReverse n h = some (q h).reverse := by
  have hsim : ∀ op ∈ ops, ∀ (m : Tailq η ε) (q q' : η → List ε), Represents m q →
      QueueStep q op q' → ∃ N m', (∀ n, N ≤ n → some (exec m op) = some m') ∧ Represents m' q' :=
    fun op _ m q q' hr hstep => ⟨0, _, fun _ _ => rfl, hr.step hstep⟩
  have hempty : Represents m fun _ => [] :=
    LinkedRings.empty fun h => ⟨next_eq_head.2 (hinit h).1, (hinit h).2⟩
  obtain ⟨N, m', hm', hr⟩ := Trace.simulates hsim hrun hempty
  have hfold := hm' N (Nat.le_refl N)
  rw [run_total_function] at hfold
  cases hfold
  exact ⟨hr.foreach hn, hr.foreachReverse hn⟩

/-- Two queues. The second one is appended to the first one, which loses one of its elements. -/
def sampleOps : List (QueueOp Bool Nat) :=
  [.insertTail false 1, .insertHead false 2, .insertAfter false 2 3, .insertTail true 4,
    .insertBefore true 4 5, .concat false true, .remove false 3]

/-- The operations of the sample, in the queues they stand for. -/
lemma sampleOps_run : ∃ q : Bool → List Nat, QueueRun sampleOps q ∧ q false = [2, 1, 5, 4] := by
  refine ⟨_, .cons (.insertTail false (by simp)) <| .cons (.insertHead false (by simp)) <|
    .cons (@QueueStep.insertAfter _ _ _ _ false 2 3 [] [1] rfl (by simp)) <|
    .cons (.insertTail true (by simp)) <|
    .cons (@QueueStep.insertBefore _ _ _ _ true 4 5 [] [] rfl (by simp)) <|
    .cons (.concat _ (by simp)) <|
    .cons (@QueueStep.remove _ _ _ _ false 3 [2] [1, 5, 4] rfl) (.nil _), ?_⟩
  rfl

/-- Two queues, an element put before another one, one removed, and the queues joined. -/
theorem tailq_refines_sample : ∃ q : Bool → List Nat, QueueRun sampleOps q ∧
    (sampleOps.foldl exec ⟨fun _ => none, id⟩).foreach 5 false = some [2, 1, 5, 4] ∧
      (sampleOps.foldl exec ⟨fun _ => none, id⟩).foreachReverse 5 false = some [4, 5, 1, 2] := by
  obtain ⟨q, hrun, hq⟩ := sampleOps_run
  have hloops := tailq_refines (m := ⟨fun _ => none, id⟩) (fun h => ⟨rfl, rfl⟩) hrun false 5
    (by simp [hq])
  rw [hq] at hloops
  exact ⟨q, hrun, hloops⟩

end CcodeTest.SysQueue
