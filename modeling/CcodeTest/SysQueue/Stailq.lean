import CcodeTest.SysQueue.Tailq

/-!
# Tail queues that are linked in one direction

The `STAILQ` macros of `queue.h`, which are the `SIMPLEQ` macros under another name, with
`STAILQ_CONCAT` in addition. A head still has the address of the last pointer, but the elements have
no pointer back, so that `STAILQ_REMOVE` has to look for the element before the one it removes.

Take the pointers back from a tail queue and what is left is such a queue (`Forgets`): each macro
does to it what its counterpart does to the tail queue.
-/

namespace CcodeTest.SysQueue
open CcodeTest.Lib

/-- The structs of all heads and elements: `ptr` is `stqh_first` and `stqe_next`, and `last` is
`stqh_last`. -/
structure Stailq (η ε : Type*) where
  ptr : Slot η ε → Option ε
  last : η → Slot η ε

namespace Stailq

variable {η ε : Type*} [DecidableEq η] [DecidableEq ε]

def setPtr (k : Stailq η ε) (s : Slot η ε) (p : Option ε) : Stailq η ε :=
  { k with ptr := Function.update k.ptr s p }

def setLast (k : Stailq η ε) (h : η) (s : Slot η ε) : Stailq η ε :=
  { k with last := Function.update k.last h s }

/-- `stqh_last` is moved to `s` if the pointer there is null. -/
def setLastIf (k : Stailq η ε) (h : η) (s : Slot η ε) : Stailq η ε :=
  if k.ptr s = none then k.setLast h s else k

/-- `STAILQ_INIT`. -/
def init (k : Stailq η ε) (h : η) : Stailq η ε := (k.setPtr (.head h) none).setLast h (.head h)

/-- `STAILQ_INSERT_HEAD`. -/
def insertHead (k : Stailq η ε) (h : η) (e : ε) : Stailq η ε :=
  let k := k.setPtr (.elm e) (k.ptr (.head h))
  let k := k.setLastIf h (.elm e)
  k.setPtr (.head h) (some e)

/-- `STAILQ_INSERT_TAIL`. -/
def insertTail (k : Stailq η ε) (h : η) (e : ε) : Stailq η ε :=
  let k := k.setPtr (.elm e) none
  let k := k.setPtr (k.last h) (some e)
  k.setLast h (.elm e)

/-- `STAILQ_INSERT_AFTER`. -/
def insertAfter (k : Stailq η ε) (h : η) (x e : ε) : Stailq η ε :=
  let k := k.setPtr (.elm e) (k.ptr (.elm x))
  let k := k.setLastIf h (.elm e)
  k.setPtr (.elm x) (some e)

/-- The pointer at `s` is moved on by one element; there must be one. -/
def skip (k : Stailq η ε) (h : η) (s : Slot η ε) : Option (Stailq η ε) :=
  (k.ptr s).map fun f => (k.setPtr s (k.ptr (.elm f))).setLastIf h s

/-- `STAILQ_REMOVE_HEAD`. -/
def removeHead (k : Stailq η ε) (h : η) : Option (Stailq η ε) := k.skip h (.head h)

/-- The loop of `STAILQ_REMOVE`: from `cur` on, the element whose pointer is to `e`. It has no
result when a null pointer comes first. -/
def find (ptr : Slot η ε → Option ε) (e : ε) : Nat → ε → Option ε
  | 0, _ => none
  | n + 1, cur =>
    if ptr (.elm cur) = some e then some cur else (ptr (.elm cur)).bind (find ptr e n)

/-- `STAILQ_REMOVE`, with at most so many turns of the loop. -/
def remove (n : Nat) (k : Stailq η ε) (h : η) (e : ε) : Option (Stailq η ε) :=
  if k.ptr (.head h) = some e then k.removeHead h
  else ((k.ptr (.head h)).bind (find k.ptr e n)).bind fun cur => k.skip h (.elm cur)

/-- `STAILQ_CONCAT`. -/
def concat (k : Stailq η ε) (h₁ h₂ : η) : Stailq η ε :=
  match k.ptr (.head h₂) with
  | none => k
  | some f =>
    let k := k.setPtr (k.last h₁) (some f)
    let k := k.setLast h₁ (k.last h₂)
    k.init h₂

/-- There is no macro that puts an element before another one. -/
def exec (n : Nat) (k : Stailq η ε) : QueueOp η ε → Option (Stailq η ε)
  | .init h => some (k.init h)
  | .insertHead h e => some (k.insertHead h e)
  | .insertTail h e => some (k.insertTail h e)
  | .insertAfter h x e => some (k.insertAfter h x e)
  | .insertBefore _ _ _ => none
  | .remove h e => k.remove n h e
  | .concat h₁ h₂ => some (k.concat h₁ h₂)

/-- `STAILQ_FOREACH`. -/
def foreach (k : Stailq η ε) (n : Nat) (h : η) : Option (List ε) := Tailq.loop k.ptr n (.head h)

/-- What is left of a tail queue without the pointers back. -/
def Forgets (m : Tailq η ε) (k : Stailq η ε) : Prop :=
  k.ptr = m.ptr ∧ ∀ h, k.last h = m.back (.head h)

variable {m : Tailq η ε} {k : Stailq η ε} {q : η → List ε} {h : η} {e x : ε} {s : Slot η ε}
  {l l₁ l₂ : List ε}

/-- The pointers of the elements before do not count. -/
lemma Forgets.setBack_elm (hk : Forgets m k) (e : ε) (t : Slot η ε) :
    Forgets (m.setBack (.elm e) t) k :=
  ⟨hk.1, fun h => by simp [Tailq.setBack, hk.2 h]⟩

/-- Of the back links only the one of the head is kept: it is the last cell. -/
lemma Forgets.setBack_head (hk : Forgets m k) (h : η) (t : Slot η ε) :
    Forgets (m.setBack (.head h) t) (k.setLast h t) := by
  refine ⟨hk.1, ?_⟩
  intro h'
  by_cases hh : h' = h
  · subst hh
    simp [Tailq.setBack, setLast]
  · simp [Tailq.setBack, setLast, hh, hk.2 h']

/-- The pointers forward are the same. -/
lemma Forgets.setPtr (hk : Forgets m k) (s : Slot η ε) (p : Option ε) :
    Forgets (m.setPtr s p) (k.setPtr s p) :=
  ⟨by simp [Tailq.setPtr, Stailq.setPtr, hk.1], hk.2⟩

/-- The element behind gets its pointer back, or `tqh_last` is moved: only the latter counts. -/
lemma Forgets.setNextBack (hk : Forgets m k) (h : η) (s : Slot η ε) :
    Forgets (m.setNextBack h (m.ptr s) s) (k.setLastIf h s) := by
  rw [setLastIf, hk.1]
  cases m.ptr s with
  | none => exact hk.setBack_head h s
  | some f => exact hk.setBack_elm f s

/-- `STAILQ_INIT` is `TAILQ_INIT`. -/
lemma Forgets.init (hk : Forgets m k) (h : η) : Forgets (m.init h) (k.init h) :=
  (hk.setPtr _ _).setBack_head h _

/-- `STAILQ_INSERT_HEAD` is `TAILQ_INSERT_HEAD` without the pointers back. -/
lemma Forgets.insertHead (hk : Forgets m k) (h : η) (e : ε) :
    Forgets (m.insertHead h e) (k.insertHead h e) := by
  rw [Tailq.insertHead, Stailq.insertHead, hk.1]
  exact (((hk.setPtr _ _).setNextBack h _).setPtr _ _).setBack_elm e _

/-- `STAILQ_INSERT_AFTER` likewise. -/
lemma Forgets.insertAfter (hk : Forgets m k) (h : η) (x e : ε) :
    Forgets (m.insertAfter h x e) (k.insertAfter h x e) := by
  rw [Tailq.insertAfter, Stailq.insertAfter, hk.1]
  exact (((hk.setPtr _ _).setNextBack h _).setPtr _ _).setBack_elm e _

/-- `STAILQ_INSERT_TAIL` likewise. -/
lemma Forgets.insertTail (hk : Forgets m k) (h : η) (e : ε) :
    Forgets (m.insertTail h e) (k.insertTail h e) := by
  have hfirst := (hk.setPtr (.elm e) none).setBack_elm e (m.back (.head h))
  rw [Tailq.insertTail, Stailq.insertTail, hfirst.2 h]
  exact (hfirst.setPtr _ _).setBack_head h _

/-- `STAILQ_CONCAT` likewise. -/
lemma Forgets.concat (hk : Forgets m k) (h₁ h₂ : η) :
    Forgets (m.concat h₁ h₂) (k.concat h₁ h₂) := by
  rw [Tailq.concat, Stailq.concat, hk.1]
  cases m.ptr (.head h₂) with
  | none => exact hk
  | some f =>
    have hfirst := (hk.setPtr (m.back (.head h₁)) (some f)).setBack_elm f (m.back (.head h₁))
    simp only [hk.2 h₁, hfirst.2 h₂]
    exact (hfirst.setBack_head h₁ _).init h₂

/-- The pointer to `e` is moved on. -/
lemma Forgets.skip (hk : Forgets m k) (hs : m.ptr s = some e) (hback : m.back (.elm e) = s)
    (hself : m.ptr (.elm e) ≠ some e) :
    ∃ k', k.skip h s = some k' ∧ Forgets (m.remove h e) k' := by
  refine ⟨(k.setPtr s (k.ptr (.elm e))).setLastIf h s, ?_, ?_⟩
  · rw [Stailq.skip, hk.1, hs]
    rfl
  · rw [Tailq.remove_eq hself, Tailq.unlink, hback, hk.1]
    cases hp : m.ptr (.elm e) with
    | none =>
      have hlast : (k.setPtr s none).setLastIf h s = (k.setPtr s none).setLast h s := by
        simp [setLastIf, Stailq.setPtr]
      rw [hlast, Tailq.next_eq_head.2 hp]
      exact (hk.setPtr s none).setBack_head h s
    | some f =>
      have hlast : (k.setPtr s (some f)).setLastIf h s = k.setPtr s (some f) := by
        simp [setLastIf, Stailq.setPtr]
      rw [hlast, Tailq.next_eq_elm.2 hp]
      exact (hk.setPtr s (some f)).setBack_elm f s

omit [DecidableEq η] in
/-- The loop comes to the last element before `e`. -/
lemma find_eq (hlink : ∀ p ∈ edges (.elm x) (cells l) (.elm e), m.next h p.1 = p.2) (he : e ∉ l) :
    ∃ y, .elm y = lastFrom (.elm x : Slot η ε) (cells l) ∧
      ∀ n, l.length < n → find m.ptr e n x = some y := by
  induction l generalizing x with
  | nil =>
    refine ⟨x, rfl, ?_⟩
    intro n hn
    have hptr : m.ptr (.elm x) = some e := Tailq.next_eq_elm.1 (hlink _ List.mem_cons_self)
    cases n with
    | zero => cases hn
    | succ n => rw [find, if_pos hptr]
  | cons z l ih =>
    obtain ⟨hne, he⟩ := not_or.1 (mt List.mem_cons.2 he)
    obtain ⟨y, hy, hfind⟩ := ih (fun p hp => hlink p (List.mem_cons_of_mem _ hp)) he
    refine ⟨y, hy, ?_⟩
    intro n hn
    have hptr : m.ptr (.elm x) = some z := Tailq.next_eq_elm.1 (hlink _ List.mem_cons_self)
    cases n with
    | zero => cases hn
    | succ n =>
      rw [find, hptr, if_neg (fun heq => hne (Option.some.inj heq).symm)]
      exact hfind n (Nat.lt_of_succ_lt_succ hn)

/-- `STAILQ_REMOVE` finds the pointer that `tqe_prev` would lead to. -/
lemma remove_eq (hr : m.Represents q) (hq : q h = l₁ ++ e :: l₂) {n : Nat} (hn : l₁.length ≤ n)
    (hk : Forgets m k) : k.remove n h e = k.skip h (m.back (.elm e)) := by
  have hring := hr.at_elm hq
  rw [hring.at_cell.1, Stailq.remove, removeHead, hk.1]
  cases l₁ with
  | nil =>
    have hfirst : m.ptr (.head h) = some e := Tailq.next_eq_elm.1 hring.at_cut.1
    rw [if_pos hfirst]
    rfl
  | cons x l₁ =>
    have hout : e ∉ x :: l₁ := by
      have hperm := (perm_put (.head h : Slot η ε) (.elm e) (cells (x :: l₁)) (cells l₂)).nodup_iff
      have hnd := (List.nodup_cons.1 (hperm.1 hring.nodup)).1
      simp_all
    obtain ⟨hne, hrest⟩ := not_or.1 (mt List.mem_cons.2 hout)
    have hlink : ∀ p ∈ edges (.head h) (cells (x :: l₁)) (.elm e), m.next h p.1 = p.2 := by
      intro p hp
      refine (hring.link p ?_).1
      rw [edges_append_cons]
      exact List.mem_append_left _ hp
    have hfirst : m.ptr (.head h) = some x :=
      Tailq.next_eq_elm.1 (hlink _ List.mem_cons_self)
    obtain ⟨y, hy, hfind⟩ := find_eq (fun p hp => hlink p (List.mem_cons_of_mem _ hp)) hrest
    rw [hfirst, if_neg (fun heq => hne (Option.some.inj heq).symm), Option.bind_some, hfind n hn,
      Option.bind_some, hy]
    rfl

/-- `STAILQ_REMOVE` looks for the cell before the element, and then does what `TAILQ_REMOVE` does.
-/
lemma Forgets.remove (hk : Forgets m k) (hr : m.Represents q) (hq : q h = l₁ ++ e :: l₂) :
    ∃ k', (∀ n, l₁.length ≤ n → k.remove n h e = some k') ∧ Forgets (m.remove h e) k' := by
  have hself : m.ptr (.elm e) ≠ some e := mt Tailq.next_eq_elm.2 (hr.at_elm hq).next_ne
  have hptr : m.next h (m.back (.elm e)) = .elm e := ((hr.ring h).next_prev (by simp [hq])).2
  obtain ⟨k', hskip, hk'⟩ := hk.skip (h := h) (Tailq.next_eq_elm.1 hptr) rfl hself
  refine ⟨k', ?_, hk'⟩
  intro n hn
  rw [remove_eq hr hq hn hk]
  exact hskip

/-- Every macro does to the queue what its counterpart does to a tail queue. -/
lemma Forgets.step {q' : η → List ε} {op : QueueOp η ε} (hk : Forgets m k) (hr : m.Represents q)
    (hstep : QueueStep q op q') (hop : ∀ h x e, op ≠ .insertBefore h x e) :
    ∃ N k', (∀ n, N ≤ n → k.exec n op = some k') ∧ Forgets (m.exec op) k' := by
  cases hstep with
  | init h => exact ⟨0, _, fun _ _ => rfl, hk.init h⟩
  | insertHead h => exact ⟨0, _, fun _ _ => rfl, hk.insertHead h _⟩
  | insertTail h => exact ⟨0, _, fun _ _ => rfl, hk.insertTail h _⟩
  | insertAfter => exact ⟨0, _, fun _ _ => rfl, hk.insertAfter _ _ _⟩
  | insertBefore => exact absurd rfl (hop _ _ _)
  | @remove h e l₁ l₂ hq =>
    obtain ⟨k', hremove, hk'⟩ := hk.remove hr hq
    exact ⟨l₁.length, k', hremove, hk'⟩
  | concat => exact ⟨0, _, fun _ _ => rfl, hk.concat _ _⟩

/-- The links are those of the queues, for some pointers back. -/
def Represents (k : Stailq η ε) (q : η → List ε) : Prop := ∃ m, Forgets m k ∧ m.Represents q

omit [DecidableEq η] [DecidableEq ε] in
/-- Queues that have been initialised are empty. -/
lemma Represents.empty (hinit : ∀ h, k.ptr (.head h) = none ∧ k.last h = .head h) :
    Represents k fun _ => [] := by
  refine ⟨⟨k.ptr, fun s => s⟩, ⟨rfl, fun h => (hinit h).2⟩, ?_⟩
  exact LinkedRings.empty fun h => ⟨Tailq.next_eq_head.2 (hinit h).1, rfl⟩

/-- One operation on the links and on the queues. -/
lemma Represents.step {q' : η → List ε} {op : QueueOp η ε} (hr : Represents k q)
    (hstep : QueueStep q op q') (hop : ∀ h x e, op ≠ .insertBefore h x e) :
    ∃ N k', (∀ n, N ≤ n → k.exec n op = some k') ∧ Represents k' q' := by
  obtain ⟨m, hk, hm⟩ := hr
  obtain ⟨N, k', hk', hforgets⟩ := hk.step hm hstep hop
  exact ⟨N, k', hk', m.exec op, hforgets, hm.step hstep⟩

/-- `STAILQ_FOREACH` visits the elements of the queue in order. -/
lemma Represents.foreach {n : Nat} (hr : Represents k q) (hn : (q h).length < n) :
    k.foreach n h = some (q h) := by
  obtain ⟨m, hk, hm⟩ := hr
  rw [Stailq.foreach, hk.1]
  exact hm.foreach hn

end Stailq

open Stailq

/-- Any number of queues and any sequence of macros on them: no null pointer is followed, the loops
that look for an element end, and the queues are those that the macros are to make. -/
theorem stailq_refines {η ε : Type*} [DecidableEq η] [DecidableEq ε] {k : Stailq η ε}
    {ops : List (QueueOp η ε)} {q : η → List ε}
    (hinit : ∀ h, k.ptr (.head h) = none ∧ k.last h = .head h) (hrun : QueueRun ops q)
    (hops : ∀ h x e, .insertBefore h x e ∉ ops) :
    ∃ N k', (∀ n, N ≤ n → run (exec n) k ops = some k') ∧
      ∀ h n, (q h).length < n → k'.foreach n h = some (q h) := by
  have hsim : ∀ op ∈ ops, ∀ (k : Stailq η ε) (q q' : η → List ε), Represents k q →
      QueueStep q op q' → ∃ N k', (∀ n, N ≤ n → exec n k op = some k') ∧ Represents k' q' :=
    fun op hop k q q' hr hstep => hr.step hstep fun h x e heq => hops h x e (heq ▸ hop)
  obtain ⟨N, k', hk', hr⟩ := Trace.simulates hsim hrun (Represents.empty hinit)
  exact ⟨N, k', hk', fun h n hn => hr.foreach hn⟩

/-- The last element is removed before the second queue is appended. -/
def stailqOps : List (QueueOp Bool Nat) :=
  [.insertTail false 1, .insertTail false 2, .insertTail true 3, .remove false 2,
    .concat false true, .insertTail false 2]

/-- The operations of the sample, in the queues they stand for. -/
lemma stailqOps_run : ∃ q : Bool → List Nat, QueueRun stailqOps q ∧ q false = [1, 3, 2] := by
  refine ⟨_, .cons (.insertTail false (by simp)) <| .cons (.insertTail false (by simp)) <|
    .cons (.insertTail true (by simp)) <|
    .cons (@QueueStep.remove _ _ _ _ false 2 [1] [] rfl) <|
    .cons (.concat _ (by simp)) <| .cons (.insertTail false (by simp)) (.nil _), ?_⟩
  rfl

/-- The sample, with a search long enough. -/
theorem stailq_refines_sample : ∃ N k', (∀ n, N ≤ n →
    run (exec n) (⟨fun _ => none, .head⟩ : Stailq Bool Nat) stailqOps = some k') ∧
      k'.foreach 4 false = some [1, 3, 2] := by
  obtain ⟨q, hrun, hq⟩ := stailqOps_run
  obtain ⟨N, k', hk', hloop⟩ := stailq_refines (k := ⟨fun _ => none, .head⟩) (fun h => ⟨rfl, rfl⟩)
    hrun (by simp [stailqOps])
  have hfalse := hloop false 4 (by simp [hq])
  rw [hq] at hfalse
  exact ⟨N, k', hk', hfalse⟩

end CcodeTest.SysQueue
