import CcodeTest.Lib.Queues

/-!
# Circular queues

The `CIRCLEQ` macros of `queue.h`. Here the pointers are to elements in both directions, and at the
ends to the head itself, cast to a pointer to an element; the macros compare with it before they go
to an element. What would use the address of a head as that of an element has no result.
`circleq_refines` says that this does not happen.
-/

namespace CcodeTest.SysQueue
open CcodeTest.Lib

/-- The structs of all heads and elements: `next` is `cqh_first` and `cqe_next`, and `prev` is
`cqh_last` and `cqe_prev`. A `Slot` is the address of one of them. -/
structure Circleq (η ε : Type*) where
  next : Slot η ε → Slot η ε
  prev : Slot η ε → Slot η ε

namespace Circleq

variable {η ε : Type*} [DecidableEq η] [DecidableEq ε]

def setNext (m : Circleq η ε) (s t : Slot η ε) : Circleq η ε :=
  { m with next := Function.update m.next s t }

def setPrev (m : Circleq η ε) (s t : Slot η ε) : Circleq η ε :=
  { m with prev := Function.update m.prev s t }

@[simp] lemma setNext_next (m : Circleq η ε) (s t : Slot η ε) :
    (m.setNext s t).next = Function.update m.next s t := rfl

@[simp] lemma setNext_prev (m : Circleq η ε) (s t : Slot η ε) : (m.setNext s t).prev = m.prev := rfl

@[simp] lemma setPrev_next (m : Circleq η ε) (s t : Slot η ε) : (m.setPrev s t).next = m.next := rfl

@[simp] lemma setPrev_prev (m : Circleq η ε) (s t : Slot η ε) :
    (m.setPrev s t).prev = Function.update m.prev s t := rfl

/-- `p->field.cqe_next = t`. -/
def setElmNext (m : Circleq η ε) (p t : Slot η ε) : Option (Circleq η ε) :=
  match p with
  | .head _ => none
  | .elm e => some (m.setNext (.elm e) t)

/-- `p->field.cqe_prev = t`. -/
def setElmPrev (m : Circleq η ε) (p t : Slot η ε) : Option (Circleq η ε) :=
  match p with
  | .head _ => none
  | .elm e => some (m.setPrev (.elm e) t)

/-- The pointer on in what `p` leads back to: in the head it is `cqh_first`. -/
def setNextOf (m : Circleq η ε) (h : η) (p t : Slot η ε) : Option (Circleq η ε) :=
  if p = .head h then some (m.setNext (.head h) t) else m.setElmNext p t

/-- The pointer back in what `p` leads to: in the head it is `cqh_last`. -/
def setPrevOf (m : Circleq η ε) (h : η) (p t : Slot η ε) : Option (Circleq η ε) :=
  if p = .head h then some (m.setPrev (.head h) t) else m.setElmPrev p t

/-- `CIRCLEQ_INIT`. -/
def init (m : Circleq η ε) (h : η) : Circleq η ε :=
  (m.setNext (.head h) (.head h)).setPrev (.head h) (.head h)

/-- `CIRCLEQ_INSERT_AFTER`. -/
def insertAfter (m : Circleq η ε) (h : η) (x e : ε) : Option (Circleq η ε) := do
  let m := m.setNext (.elm e) (m.next (.elm x))
  let m := m.setPrev (.elm e) (.elm x)
  let m ← m.setPrevOf h (m.next (.elm x)) (.elm e)
  return m.setNext (.elm x) (.elm e)

/-- `CIRCLEQ_INSERT_BEFORE`. -/
def insertBefore (m : Circleq η ε) (h : η) (x e : ε) : Option (Circleq η ε) := do
  let m := m.setNext (.elm e) (.elm x)
  let m := m.setPrev (.elm e) (m.prev (.elm x))
  let m ← m.setNextOf h (m.prev (.elm x)) (.elm e)
  return m.setPrev (.elm x) (.elm e)

/-- `CIRCLEQ_INSERT_HEAD`. -/
def insertHead (m : Circleq η ε) (h : η) (e : ε) : Option (Circleq η ε) := do
  let m := m.setNext (.elm e) (m.next (.head h))
  let m := m.setPrev (.elm e) (.head h)
  -- the last element decides whether there is a first one
  if m.prev (.head h) = .head h then
    return (m.setPrev (.head h) (.elm e)).setNext (.head h) (.elm e)
  else
    let m ← m.setElmPrev (m.next (.head h)) (.elm e)
    return m.setNext (.head h) (.elm e)

/-- `CIRCLEQ_INSERT_TAIL`. -/
def insertTail (m : Circleq η ε) (h : η) (e : ε) : Option (Circleq η ε) := do
  let m := m.setNext (.elm e) (.head h)
  let m := m.setPrev (.elm e) (m.prev (.head h))
  if m.next (.head h) = .head h then
    return (m.setNext (.head h) (.elm e)).setPrev (.head h) (.elm e)
  else
    let m ← m.setElmNext (m.prev (.head h)) (.elm e)
    return m.setPrev (.head h) (.elm e)

/-- `CIRCLEQ_REMOVE`. -/
def remove (m : Circleq η ε) (h : η) (e : ε) : Option (Circleq η ε) := do
  let m ← m.setPrevOf h (m.next (.elm e)) (m.prev (.elm e))
  m.setNextOf h (m.prev (.elm e)) (m.next (.elm e))

/-- There is no macro that appends a queue to another one. -/
def exec (m : Circleq η ε) : QueueOp η ε → Option (Circleq η ε)
  | .init h => some (m.init h)
  | .insertHead h e => m.insertHead h e
  | .insertTail h e => m.insertTail h e
  | .insertAfter h x e => m.insertAfter h x e
  | .insertBefore h x e => m.insertBefore h x e
  | .remove h e => m.remove h e
  | .concat _ _ => none

/-- A loop over the elements to which `p` leads, until the head comes, for at most so many turns. -/
def loop (p : Slot η ε → Slot η ε) (h : η) : Nat → Slot η ε → Option (List ε)
  | 0, _ => none
  | n + 1, var =>
    if var = .head h then some []
    else
      match var with
      | .head _ => none
      | .elm e => (loop p h n (p (.elm e))).map (e :: ·)

/-- `CIRCLEQ_FOREACH`. -/
def foreach (m : Circleq η ε) (n : Nat) (h : η) : Option (List ε) :=
  loop m.next h n (m.next (.head h))

/-- `CIRCLEQ_FOREACH_REVERSE`. -/
def foreachReverse (m : Circleq η ε) (n : Nat) (h : η) : Option (List ε) :=
  loop m.prev h n (m.prev (.head h))

variable {m m' : Circleq η ε} {q : η → List ε} {h : η} {e x : ε} {s t : Slot η ε}
  {l l₁ l₂ : List ε}

/-- The links are those of the queues. -/
def Represents (m : Circleq η ε) (q : η → List ε) : Prop := LinkedRings (fun _ => m.next) m.prev q

/-- An element is put between the neighbours `s` and `t`. -/
def linkAt (m : Circleq η ε) (s t : Slot η ε) (e : ε) : Circleq η ε where
  next := Function.update (Function.update m.next (.elm e) t) s (.elm e)
  prev := Function.update (Function.update m.prev t (.elm e)) (.elm e) s

/-- With a cell of the queue of `h` it is the pointer of this cell. -/
lemma setPrevOf_eq (m : Circleq η ε) (hs : s ∈ .head h :: cells l) :
    m.setPrevOf h s t = some (m.setPrev s t) := by
  cases s with
  | head h' => simp_all [setPrevOf]
  | elm e => rfl

/-- The next link of a cell of the queue is set, be it the head or an element. -/
lemma setNextOf_eq (m : Circleq η ε) (hs : s ∈ .head h :: cells l) :
    m.setNextOf h s t = some (m.setNext s t) := by
  cases s with
  | head h' => simp_all [setNextOf]
  | elm e => rfl

/-- The order of the writes does not matter when `e` is new. -/
lemma linkAt_eq (m : Circleq η ε) (hte : t ≠ .elm e) :
    m.linkAt s t e =
      { next := Function.update (Function.update m.next (.elm e) t) s (.elm e)
        prev := Function.update (Function.update m.prev (.elm e) s) t (.elm e) } := by
  rw [linkAt, Function.update_comm hte]

/-- `linkAt` sets the links that the ring asks for. -/
lemma linkedAt (hst : m.next s = t) :
    LinkedAt (fun _ : η => m.next) m.prev h s e (fun _ => (m.linkAt s t e).next)
      (m.linkAt s t e).prev := by
  subst hst
  exact ⟨fun _ => rfl, rfl⟩

/-- `CIRCLEQ_INSERT_AFTER` links the element between the one given and its follower. -/
lemma insertAfter_eq (hxe : x ≠ e) (hmem : m.next (.elm x) ∈ .head h :: cells l) (he : e ∉ l) :
    m.insertAfter h x e = some (m.linkAt (.elm x) (m.next (.elm x)) e) := by
  have hte : m.next (.elm x) ≠ .elm e := by
    intro heq
    rw [heq] at hmem
    simp [he] at hmem
  have hnext : Function.update m.next (.elm e) (m.next (.elm x)) (.elm x) = m.next (.elm x) :=
    Function.update_of_ne (by simp [hxe]) _ _
  rw [linkAt_eq m hte, insertAfter]
  simp only [setNext_next, setPrev_next, hnext, setPrevOf_eq _ hmem]
  rfl

/-- `CIRCLEQ_INSERT_BEFORE` links it between the one given and the cell before. -/
lemma insertBefore_eq (hxe : x ≠ e) (hmem : m.prev (.elm x) ∈ .head h :: cells l) :
    m.insertBefore h x e = some (m.linkAt (m.prev (.elm x)) (.elm x) e) := by
  have hprev : Function.update m.prev (.elm e) (m.prev (.elm x)) (.elm x) = m.prev (.elm x) :=
    Function.update_of_ne (by simp [hxe]) _ _
  rw [linkAt_eq m (by simp [hxe]), insertBefore]
  simp only [setNext_prev, setPrev_prev, hprev, setNextOf_eq _ hmem]
  rfl

/-- `CIRCLEQ_INSERT_HEAD` links it between the head and the first cell. -/
lemma insertHead_eq (hmem : m.next (.head h) ∈ .head h :: cells l) (he : e ∉ l)
    (hempty : m.prev (.head h) = .head h ↔ m.next (.head h) = .head h) :
    m.insertHead h e = some (m.linkAt (.head h) (m.next (.head h)) e) := by
  have hte : m.next (.head h) ≠ .elm e := by
    intro heq
    rw [heq] at hmem
    simp [he] at hmem
  have hnext : Function.update m.next (.elm e) (m.next (.head h)) (.head h) = m.next (.head h) :=
    Function.update_of_ne (by simp) _ _
  have hprev : Function.update m.prev (.elm e) (.head h) (.head h) = m.prev (.head h) :=
    Function.update_of_ne (by simp) _ _
  rw [linkAt_eq m hte, insertHead]
  simp only [setNext_next, setPrev_next, setNext_prev, setPrev_prev, hnext, hprev]
  by_cases hlast : m.prev (.head h) = .head h
  · rw [if_pos hlast, hempty.1 hlast]
    rfl
  · have hset := setPrevOf_eq ((m.setNext (.elm e) (m.next (.head h))).setPrev (.elm e) (.head h))
      (t := .elm e) hmem
    rw [setPrevOf, if_neg (mt hempty.2 hlast)] at hset
    rw [if_neg hlast, hset]
    rfl

/-- `CIRCLEQ_INSERT_TAIL` links it between the last cell and the head. -/
lemma insertTail_eq (hmem : m.prev (.head h) ∈ .head h :: cells l)
    (hempty : m.prev (.head h) = .head h ↔ m.next (.head h) = .head h) :
    m.insertTail h e = some (m.linkAt (m.prev (.head h)) (.head h) e) := by
  have hnext : Function.update m.next (.elm e) (.head h) (.head h) = m.next (.head h) :=
    Function.update_of_ne (by simp) _ _
  have hprev : Function.update m.prev (.elm e) (m.prev (.head h)) (.head h) = m.prev (.head h) :=
    Function.update_of_ne (by simp) _ _
  rw [linkAt_eq m (by simp), insertTail]
  simp only [setNext_next, setPrev_next, setNext_prev, setPrev_prev, hnext, hprev]
  by_cases hfirst : m.next (.head h) = .head h
  · rw [if_pos hfirst, hempty.2 hfirst]
    rfl
  · have hset := setNextOf_eq ((m.setNext (.elm e) (.head h)).setPrev (.elm e) (m.prev (.head h)))
      (t := .elm e) hmem
    rw [setNextOf, if_neg (mt hempty.1 hfirst)] at hset
    rw [if_neg hfirst, hset]
    rfl

/-- `CIRCLEQ_REMOVE` joins the two cells around an element that does not follow itself. -/
lemma remove_eq (hne : m.next (.elm e) ≠ .elm e) (hnext : m.next (.elm e) ∈ .head h :: cells l)
    (hprev : m.prev (.elm e) ∈ .head h :: cells l) :
    m.remove h e = some
      { next := Function.update m.next (m.prev (.elm e)) (m.next (.elm e))
        prev := Function.update m.prev (m.next (.elm e)) (m.prev (.elm e)) } := by
  have hback : Function.update m.prev (m.next (.elm e)) (m.prev (.elm e)) (.elm e) =
      m.prev (.elm e) := Function.update_of_ne hne.symm _ _
  rw [remove, setPrevOf_eq m hnext]
  simp only [Option.bind_eq_bind, Option.bind_some, setPrev_prev, setPrev_next, hback]
  rw [setNextOf_eq _ hprev]
  rfl

/-- Every macro keeps the links and stays inside the structs, when it is used on elements as the
header says. -/
lemma Represents.step {q' : η → List ε} {op : QueueOp η ε} (hr : Represents m q)
    (hstep : QueueStep q op q') (hop : ∀ h₁ h₂, op ≠ .concat h₁ h₂) :
    ∃ m', m.exec op = some m' ∧ Represents m' q' := by
  cases hstep with
  | init h =>
    refine ⟨_, rfl, LinkedRings.init hr ?_ ?_⟩
    · simp [Circleq.init]
    · intro s hs
      simp [Circleq.init, hs]
  | insertHead h hnew =>
    have hring := hr.ring h
    obtain ⟨hmem, -⟩ := hring.prev_next List.mem_cons_self
    rw [exec, insertHead_eq hmem (hnew h) hring.prev_eq_self]
    exact ⟨_, rfl, LinkedRings.insertHead hr (linkedAt rfl) hnew⟩
  | insertTail h hnew =>
    have hring := hr.ring h
    obtain ⟨hmem, hback⟩ := hring.next_prev List.mem_cons_self
    rw [exec, insertTail_eq hmem hring.prev_eq_self]
    exact ⟨_, rfl, LinkedRings.insertTail hr (linkedAt hback) hnew⟩
  | @insertAfter h x e l₁ l₂ hq hnew =>
    obtain ⟨hmem, -⟩ := (hr.ring h).prev_next (s := .elm x) (by simp [hq])
    rw [exec, insertAfter_eq (ne_of_new hnew hq) hmem (hnew h)]
    exact ⟨_, rfl, LinkedRings.insertAfter hr (linkedAt rfl) hnew hq⟩
  | @insertBefore h x e l₁ l₂ hq hnew =>
    obtain ⟨hmem, hback⟩ := (hr.ring h).next_prev (s := .elm x) (by simp [hq])
    rw [exec, insertBefore_eq (ne_of_new hnew hq) hmem]
    exact ⟨_, rfl, LinkedRings.insertBefore hr (linkedAt hback) hnew hq⟩
  | @remove h e l₁ l₂ hq =>
    have hring := hr.at_elm hq
    obtain ⟨hbefore, hbehind⟩ := mem_of_cut (.head h : Slot η ε) (cells l₁) (cells l₂)
    rw [← hring.at_cell.1, ← cells_append] at hbefore
    rw [← hring.at_cell.2, ← cells_append] at hbehind
    rw [exec, remove_eq hring.next_ne hbehind hbefore]
    exact ⟨_, rfl, LinkedRings.remove hr hq (fun _ => rfl) rfl⟩
  | concat hne => exact absurd rfl (hop _ _)

/-- A loop along the links of a queue visits its elements and stops at the head. -/
lemma loop_eq {p : Slot η ε → Slot η ε} {n : Nat}
    (hlink : ∀ r ∈ edges s (cells l) (.head h), p r.1 = r.2) (hn : l.length < n) :
    loop p h n (p s) = some l := by
  induction l generalizing s n with
  | nil =>
    cases n with
    | zero => cases hn
    | succ n =>
      have hp : p s = .head h := hlink _ List.mem_cons_self
      simp [hp, loop]
  | cons e l ih =>
    cases n with
    | zero => cases hn
    | succ n =>
      have hp : p s = .elm e := hlink _ List.mem_cons_self
      have hrest := ih (fun r hr => hlink r (List.mem_cons_of_mem _ hr)) (Nat.lt_of_succ_lt_succ hn)
      simp [hp, loop, hrest]

end Circleq

open Circleq

/-- Any number of circular queues and any sequence of macros on them: none of them takes a head for
an element, and the loops run through the queues that the macros are to make, in both directions. -/
theorem circleq_refines {η ε : Type*} [DecidableEq η] [DecidableEq ε] {m : Circleq η ε}
    {ops : List (QueueOp η ε)} {q : η → List ε}
    (hinit : ∀ h, m.next (.head h) = .head h ∧ m.prev (.head h) = .head h)
    (hrun : QueueRun ops q) (hops : ∀ h₁ h₂, .concat h₁ h₂ ∉ ops) :
    ∃ m', run exec m ops = some m' ∧ ∀ h n, (q h).length < n →
      m'.foreach n h = some (q h) ∧ m'.foreachReverse n h = some (q h).reverse := by
  have hsim : ∀ op ∈ ops, ∀ (m : Circleq η ε) (q q' : η → List ε), Represents m q →
      QueueStep q op q' →
        ∃ (N : Nat) (m' : Circleq η ε), (∀ n, N ≤ n → exec m op = some m') ∧ Represents m' q' := by
    intro op hop m q q' hr hstep
    obtain ⟨m', hm', hr'⟩ := hr.step hstep fun h₁ h₂ heq => hops h₁ h₂ (heq ▸ hop)
    exact ⟨0, m', fun _ _ => hm', hr'⟩
  obtain ⟨N, m', hm', hr⟩ := Trace.simulates hsim hrun (LinkedRings.empty hinit)
  refine ⟨m', hm' N (Nat.le_refl N), ?_⟩
  intro h n hn
  have hring := hr.ring h
  have hreverse := hring.reverse
  rw [cells_reverse] at hreverse
  refine ⟨loop_eq (fun r hr => (hring.link r hr).1) hn, ?_⟩
  exact loop_eq (fun r hr => (hreverse.link r hr).1) (by rwa [List.length_reverse])

/-- An element goes from one queue to the other. -/
def circleqOps : List (QueueOp Bool Nat) :=
  [.insertHead false 1, .insertTail false 2, .insertAfter false 1 3, .remove false 3,
    .insertTail true 4, .insertBefore true 4 3]

/-- The operations of the sample, in the queues they stand for. -/
lemma circleqOps_run : ∃ q : Bool → List Nat, QueueRun circleqOps q ∧ q true = [3, 4] := by
  refine ⟨_, .cons (.insertHead false (by simp)) <| .cons (.insertTail false (by simp)) <|
    .cons (@QueueStep.insertAfter _ _ _ _ false 1 3 [] [2] rfl (by simp)) <|
    .cons (@QueueStep.remove _ _ _ _ false 3 [1] [2] rfl) <|
    .cons (.insertTail true (by simp)) <|
    .cons (@QueueStep.insertBefore _ _ _ _ true 4 3 [] [] rfl (by simp)) (.nil _), ?_⟩
  rfl

/-- The sample read in both directions. -/
theorem circleq_refines_sample : ∃ m' : Circleq Bool Nat,
    run exec ⟨id, id⟩ circleqOps = some m' ∧ m'.foreach 3 true = some [3, 4] ∧
      m'.foreachReverse 3 true = some [4, 3] := by
  obtain ⟨q, hrun, hq⟩ := circleqOps_run
  obtain ⟨m', hm', hloops⟩ := circleq_refines (m := ⟨id, id⟩) (fun h => ⟨rfl, rfl⟩) hrun
    (by simp [circleqOps])
  have htrue := hloops true 3 (by simp [hq])
  rw [hq] at htrue
  exact ⟨m', hm', htrue⟩

end CcodeTest.SysQueue
