import Mathlib.Data.List.Count
import Mathlib.Data.Finset.Card
import Mathlib.Tactic.TypeStar

/-!
# A named semaphore

One name, under which processes open a semaphore. Opening creates one if there is none; after the
name has been removed, those who hold the semaphore go on with it, and the next one to open the name
gets another. So the name stands for a sequence of semaphores, numbered as they are created, and
whoever waits and whoever posts may hold different ones.

The books also keep who has posted to which semaphore and what was taken. `Balanced` is the account:
what a semaphore has left and what was taken from it is what was posted to it, and what it had in the
beginning. If nobody posts twice to a semaphore, then as many have posted as were taken
(`Balanced.card_posters`).
-/

namespace CcodeTest.Lib

variable {π : Type*}

/-- The semaphores with their values, the one that the name stands for, and what has happened. -/
structure Books (π : Type*) where
  name : Option Nat
  value : List Nat
  posted : List (π × Nat)
  taken : List Nat

/-- `sem_open` with `O_CREAT` and the value 0. -/
def Books.semOpen (b : Books π) : Books π × Nat :=
  match b.name with
  | some id => (b, id)
  | none => ({ b with name := some b.value.length, value := b.value ++ [0] }, b.value.length)

/-- `sem_post` by `p`. -/
def Books.semPost (b : Books π) (p : π) (id : Nat) : Books π :=
  { b with value := b.value.modify id (· + 1), posted := b.posted ++ [(p, id)] }

/-- `sem_wait` when it does not have to wait. -/
def Books.semWait (b : Books π) (id : Nat) : Option (Books π) :=
  if 0 < b.value.getD id 0 then
    some { b with value := b.value.modify id (· - 1), taken := b.taken ++ [id] }
  else none

/-- `sem_unlink`. -/
def Books.semUnlink (b : Books π) : Books π := { b with name := none }

/-- When nobody has started. A semaphore may be left from before, with a value. -/
def Books.start : Option Nat → Books π
  | none => ⟨none, [], [], []⟩
  | some v => ⟨some 0, [v], [], []⟩

/-- What that semaphore had. -/
def leftValue (left : Option Nat) (id : Nat) : Nat := if id = 0 then left.getD 0 else 0

/-- The name stands for a semaphore that there is. -/
def Books.Named (b : Books π) : Prop := ∀ id, b.name = some id → id < b.value.length

/-- The account of every semaphore, with its value in the beginning. -/
def Books.Balanced (v : Nat → Nat) (b : Books π) : Prop :=
  ∀ id, b.value.getD id 0 + b.taken.count id = (b.posted.map Prod.snd).count id + v id

section Books

variable {b b' : Books π} {v : Nat → Nat} {id k : Nat} {p : π}

/-- A list after a change at one place. -/
lemma getD_modify {l : List Nat} {f : Nat → Nat} (h : id < l.length) :
    (l.modify id f).getD k 0 = if k = id then f (l.getD id 0) else l.getD k 0 := by
  rw [List.getD_eq_getElem?_getD, List.getElem?_modify, List.getD_eq_getElem?_getD,
    List.getD_eq_getElem?_getD]
  by_cases hk : k = id
  · subst hk
    simp [List.getElem?_eq_getElem h]
  · simp [hk, Ne.symm hk]

/-- A name that is there is opened. -/
lemma semOpen_of_some (h : b.name = some id) : b.semOpen = (b, id) := by
  rw [Books.semOpen, h]

/-- A name that is not there is made, with value 0. -/
lemma semOpen_of_none (h : b.name = none) : b.semOpen =
    ({ b with name := some b.value.length, value := b.value ++ [0] }, b.value.length) := by
  rw [Books.semOpen, h]

/-- No semaphore had more in the beginning than what was left. -/
lemma leftValue_le (left : Option Nat) (id : Nat) : leftValue left id ≤ left.getD 0 := by
  unfold leftValue
  split
  · exact Nat.le_refl _
  · exact Nat.zero_le _

/-- The books are balanced before the first call. -/
lemma balanced_start (left : Option Nat) : (Books.start left : Books π).Balanced (leftValue left) := by
  intro id
  cases left with
  | none => simp [Books.start, leftValue]
  | some x =>
    cases id with
    | zero => simp [Books.start, leftValue]
    | succ id => simp [Books.start, leftValue]

/-- And the name leads to a semaphore, if it is there. -/
lemma named_start (left : Option Nat) : (Books.start left : Books π).Named := by
  cases left with
  | none => rintro id ⟨⟩
  | some x =>
    rintro id ⟨⟩
    exact Nat.zero_lt_one

@[simp] lemma posted_start (left : Option Nat) : (Books.start left : Books π).posted = [] := by
  cases left <;> rfl

@[simp] lemma taken_start (left : Option Nat) : (Books.start left : Books π).taken = [] := by
  cases left <;> rfl

/-- Opening leaves what was posted and taken. -/
lemma Books.Balanced.semOpen (h : b.Balanced v) : b.semOpen.1.Balanced v := by
  cases hn : b.name with
  | some id =>
    rw [semOpen_of_some hn]
    exact h
  | none =>
    rw [semOpen_of_none hn]
    intro k
    have hk := h k
    rcases Nat.lt_trichotomy k b.value.length with hlt | rfl | hgt
    · simpa [List.getD_eq_getElem?_getD, List.getElem?_append_left hlt] using hk
    · simpa [List.getD_eq_getElem?_getD] using hk
    · have h1 : (b.value ++ [0])[k]? = none := List.getElem?_eq_none (by simp; omega)
      have h2 : b.value[k]? = none := List.getElem?_eq_none (Nat.le_of_lt hgt)
      simpa [List.getD_eq_getElem?_getD, h1, h2] using hk

/-- A post is one more on both sides. -/
lemma Books.Balanced.semPost (h : b.Balanced v) (hid : id < b.value.length) (p : π) :
    (b.semPost p id).Balanced v := by
  intro k
  have hk := h k
  simp only [Books.semPost, getD_modify hid, List.map_append, List.count_append, List.map_cons,
    List.map_nil, List.count_singleton]
  by_cases hkid : k = id
  · subst hkid
    simp only [if_true, beq_self_eq_true]
    omega
  · have hne : (id == k) = false := by simpa using Ne.symm hkid
    simp only [if_neg hkid, hne, Bool.false_eq_true, if_false]
    omega

/-- A wait that returns has found a value above 0, and takes one from it. -/
lemma semWait_eq_some (h : b.semWait id = some b') :
    0 < b.value.getD id 0 ∧
      b' = { b with value := b.value.modify id (· - 1), taken := b.taken ++ [id] } := by
  unfold Books.semWait at h
  split at h
  · cases h
    exact ⟨‹_›, rfl⟩
  · cases h

/-- A place with a value above 0 is a place of the list. -/
lemma lt_of_getD_pos {l : List Nat} (h : 0 < l.getD id 0) : id < l.length := by
  by_contra hle
  rw [List.getD_eq_getElem?_getD, List.getElem?_eq_none (Nat.not_lt.1 hle)] at h
  exact Nat.lt_irrefl 0 h

/-- A wait moves one from the value to what was taken. -/
lemma Books.Balanced.semWait (h : b.Balanced v) (hw : b.semWait id = some b') : b'.Balanced v := by
  obtain ⟨hpos, rfl⟩ := semWait_eq_some hw
  intro k
  have hk := h k
  simp only [getD_modify (lt_of_getD_pos hpos), List.count_append, List.count_singleton]
  by_cases hkid : k = id
  · subst hkid
    simp only [if_true, beq_self_eq_true]
    omega
  · have hne : (id == k) = false := by simpa using Ne.symm hkid
    simp only [if_neg hkid, hne, Bool.false_eq_true, if_false]
    omega

/-- Removing the name touches no value. -/
lemma Books.Balanced.semUnlink (h : b.Balanced v) : b.semUnlink.Balanced v := h

/-! Semaphores are never given away, and the name never goes back to an old one. -/

/-- No call removes a semaphore. -/
lemma length_semOpen_le : b.value.length ≤ b.semOpen.1.value.length := by
  cases hn : b.name with
  | some id => rw [semOpen_of_some hn]
  | none =>
    rw [semOpen_of_none hn]
    simp

@[simp] lemma length_semPost : (b.semPost p id).value.length = b.value.length :=
  List.length_modify ..

/-- A wait makes none. -/
lemma length_semWait (h : b.semWait id = some b') : b'.value.length = b.value.length := by
  obtain ⟨-, rfl⟩ := semWait_eq_some h
  exact List.length_modify ..

/-- The name still leads to a semaphore after `sem_open`. -/
lemma Books.Named.semOpen (h : b.Named) : b.semOpen.1.Named := by
  cases hn : b.name with
  | some id =>
    rw [semOpen_of_some hn]
    exact h
  | none =>
    rw [semOpen_of_none hn]
    rintro id ⟨⟩
    simp

/-- And after a post. -/
lemma Books.Named.semPost (h : b.Named) (p : π) (id : Nat) : (b.semPost p id).Named := by
  intro k hk
  rw [length_semPost]
  exact h k hk

/-- And after a wait. -/
lemma Books.Named.semWait (h : b.Named) (hw : b.semWait id = some b') : b'.Named := by
  have hlen := length_semWait hw
  obtain ⟨-, rfl⟩ := semWait_eq_some hw
  intro k hk
  rw [hlen]
  exact h k hk

/-- Who opens the name holds the semaphore that it then stands for. -/
lemma Books.Named.lt_semOpen (h : b.Named) : b.semOpen.2 < b.semOpen.1.value.length := by
  cases hn : b.name with
  | some id =>
    rw [semOpen_of_some hn]
    exact h id hn
  | none =>
    rw [semOpen_of_none hn]
    simp

/-- After `sem_open` the name leads to what it returned. -/
lemma name_semOpen : b.semOpen.1.name = some b.semOpen.2 := by
  cases hn : b.name with
  | some id =>
    rw [semOpen_of_some hn]
    exact hn
  | none => rw [semOpen_of_none hn]

/-- It is not one that has lost the name. -/
lemma semOpen_ne (hid : id < b.value.length) (hname : b.name ≠ some id) : b.semOpen.2 ≠ id := by
  cases hn : b.name with
  | some k =>
    rw [semOpen_of_some hn]
    exact fun he => hname (he ▸ hn)
  | none =>
    rw [semOpen_of_none hn]
    exact Nat.ne_of_gt hid

@[simp] lemma posted_semOpen : b.semOpen.1.posted = b.posted := by
  cases hn : b.name with
  | some id => rw [semOpen_of_some hn]
  | none => rw [semOpen_of_none hn]

@[simp] lemma taken_semOpen : b.semOpen.1.taken = b.taken := by
  cases hn : b.name with
  | some id => rw [semOpen_of_some hn]
  | none => rw [semOpen_of_none hn]

/-- Nobody has posted twice to a semaphore if the one who posts has not posted to it before. -/
lemma nodup_semPost (h : b.posted.Nodup) (hnew : (p, id) ∉ b.posted) :
    (b.semPost p id).posted.Nodup := by
  refine List.Nodup.append h (List.nodup_singleton _) ?_
  rw [List.disjoint_singleton]
  exact hnew

/-- The posts of the others are the same. -/
lemma mem_posted_semPost {q : π} (hq : q ≠ p) :
    (q, k) ∈ (b.semPost p id).posted ↔ (q, k) ∈ b.posted := by
  simp [Books.semPost, hq]

/-- Whoever waits for `id` takes one more, from `id`. -/
lemma taken_semWait (h : ∀ k ∈ b.taken, k = id) (hw : b.semWait id = some b') :
    b'.taken.length = b.taken.length + 1 ∧ ∀ k ∈ b'.taken, k = id := by
  obtain ⟨-, rfl⟩ := semWait_eq_some hw
  refine ⟨by rw [List.length_append, List.length_singleton], ?_⟩
  intro k hk
  rcases List.mem_append.1 hk with hk | hk
  · exact h k hk
  · exact List.mem_singleton.1 hk

/-- Whoever takes only from `id` has taken as much from it as there was taken. -/
lemma count_taken (h : ∀ k ∈ b.taken, k = id) : b.taken.count id = b.taken.length :=
  List.count_eq_length.2 fun k hk => (h k hk).symm

/-- Those who have posted to a semaphore. -/
def Books.posters [DecidableEq π] (b : Books π) (id : Nat) : Finset π :=
  ((b.posted.filter (·.2 = id)).map Prod.fst).toFinset

/-- Who has posted to a semaphore. -/
lemma mem_posters [DecidableEq π] : p ∈ b.posters id ↔ (p, id) ∈ b.posted := by
  simp [Books.posters]

/-- If nobody has posted twice to a semaphore, what was taken from it was posted by as many, but for
what it had in the beginning. -/
lemma Books.Balanced.card_posters [DecidableEq π] (h : b.Balanced v) (hnodup : b.posted.Nodup) :
    b.taken.count id ≤ (b.posters id).card + v id := by
  have hcount : (b.posted.map Prod.snd).count id = (b.posted.filter (·.2 = id)).length := by
    rw [List.count, List.countP_map, List.countP_eq_length_filter]
    congr 1
  have hinj : ((b.posted.filter (·.2 = id)).map Prod.fst).Nodup := by
    refine List.Nodup.map_on ?_ (hnodup.filter _)
    intro x hx y hy hxy
    have hx2 : x.2 = id := by simpa using (List.mem_filter.1 hx).2
    have hy2 : y.2 = id := by simpa using (List.mem_filter.1 hy).2
    exact Prod.ext hxy (hx2.trans hy2.symm)
  have hcard : (b.posters id).card = (b.posted.filter (·.2 = id)).length := by
    rw [Books.posters, List.toFinset_card_of_nodup hinj, List.length_map]
  have hid := h id
  rw [hcount, ← hcard] at hid
  omega

end Books

end CcodeTest.Lib
