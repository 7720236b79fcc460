import Mathlib.Algebra.GroupWithZero.Nat
import CcodeTest.Lib.Block
import CcodeTest.Range2cidr.Cidr

/-!
# How many prefixes, and where they are written

The prefixes that `range2cidr` writes are those of a walk that takes the largest block at each point,
so no other way to cut the range into aligned blocks has fewer (`range2cidr_minimal`).

The loop compares a number of 32 bits with `end`. It never gets past the last number there is
(`range2cidr_leaves_iff`), and for every other `end` each pass moves on. `cidr_max` is used for the
first `memset` only; `range2cidrInto` is the call with the array of the caller, and
`range2cidrInto_inside_iff` says for which ranges it stays inside.
-/

namespace CcodeTest.Range2cidr
open CcodeTest.Lib

/-! The number of prefixes. -/

/-- The blocks of the prefixes, each starting where the one before ends. -/
def blocksFrom (w : Nat) : Nat → List Nat → List Block
  | _, [] => []
  | s, p :: ps => ⟨s, w - p⟩ :: blocksFrom w (s + 2 ^ (w - p)) ps

section Count

variable {s hi w : Nat} {bs : List Block}

lemma sub_prefixLen {b : Block} (h : b.log ≤ w) : w - (entryOf w b).prefixLen = b.log :=
  Nat.sub_sub_self h

/-- The prefixes of blocks that follow one another give the blocks back. -/
lemma blocksFrom_prefixes (h : Paves hi s bs) (hlog : ∀ b ∈ bs, b.log ≤ w) :
    blocksFrom w s ((bs.map (entryOf w)).map Cidr.prefixLen) = bs := by
  induction bs generalizing s with
  | nil => rfl
  | cons b bs ih =>
    obtain ⟨rfl, h⟩ := h
    have hrest := ih h fun c hc => hlog c (List.mem_cons_of_mem _ hc)
    rw [List.map_cons, List.map_cons, blocksFrom, sub_prefixLen (hlog b (List.mem_cons_self ..))]
    exact congrArg (b :: ·) hrest

/-- The sizes add up to the length of the range. -/
lemma sum_sizes (h : Paves hi s bs) (hlog : ∀ b ∈ bs, b.log ≤ w) :
    s + ((bs.map (entryOf w)).map fun c => 2 ^ (w - c.prefixLen)).sum = hi := by
  induction bs generalizing s with
  | nil => exact h
  | cons b bs ih =>
    obtain ⟨rfl, h⟩ := h
    have hrest := ih h fun c hc => hlog c (List.mem_cons_of_mem _ hc)
    rw [List.map_cons, List.map_cons, List.sum_cons, sub_prefixLen (hlog b (List.mem_cons_self ..)),
      ← Nat.add_assoc]
    exact hrest

end Count

/-- For every range of numbers of `w` bits: the prefixes stand for aligned blocks that follow one
another and fill the range, no partition of the range into aligned blocks has fewer of them, and
there are at most `2 * w - 2`. -/
theorem range2cidr_minimal (start e w : Nat) (hw : 2 ≤ w) (hw' : w ≤ 32) (hse : start ≤ e)
    (he : e < 2 ^ w) (he' : e < uint32Bound - 1) :
    ∃ cidr, range2cidr start e w = some cidr ∧
      (∀ c ∈ cidr, c.prefixLen ≤ w) ∧
      (∀ b ∈ blocksFrom w start (cidr.map Cidr.prefixLen), b.Aligned) ∧
      (cidr.map fun c => 2 ^ (w - c.prefixLen)).sum = e - start + 1 ∧
      (∀ cs : List Block, (∀ c ∈ cs, c.Aligned) → Partitions start (e + 1) cs →
        cidr.length ≤ cs.length) ∧
      cidr.length ≤ 2 * w - 2 := by
  obtain ⟨bs, hrun, hpaves, hbs⟩ := range2cidr_chosen hw' (Nat.le_succ_of_le hse) (by omega)
  have hlog : ∀ b ∈ bs, b.log ≤ w := fun b hb => (hbs b hb).log_le
  refine ⟨_, hrun, ?_, ?_, ?_, ?_, ?_⟩
  · intro c hc
    obtain ⟨b, -, rfl⟩ := List.mem_map.1 hc
    exact Nat.sub_le w b.log
  · rw [blocksFrom_prefixes hpaves hlog]
    exact fun b hb => (hbs b hb).aligned
  · have hsum := sum_sizes hpaves hlog
    omega
  · intro cs hal hcs
    rw [List.length_map]
    refine hpaves.length_le hbs ?_ hcs.cover
    intro c hc
    refine ⟨hal c hc, ?_⟩
    -- a block of the range has at most `2 ^ w` numbers
    have hstop : c.start + 2 ^ c.log ≤ e + 1 := (inside_of_cover hcs.cover hc).2
    exact (Nat.pow_le_pow_iff_right (by decide : 1 < 2)).1 (by omega)
  · obtain ⟨cs, hcs, hlen⟩ := exists_paves (o := 0) (Nat.dvd_zero (2 ^ w)) (Nat.lt_succ_of_le hse) he
    rw [Nat.zero_add, Nat.zero_add] at hcs
    have hle := hpaves.length_le hbs hcs.bounded fun x => hcs.paves.cover
    rw [List.length_map]
    omega

/-- The numbers 1 to 6 of three bits need the four blocks that the bound allows. -/
theorem range2cidr_minimal_four :
    ∃ cidr, range2cidr 1 6 3 = some cidr ∧ cidr.length ≤ 4 ∧
      ∀ cs : List Block, (∀ c ∈ cs, c.Aligned) → Partitions 1 7 cs → cidr.length ≤ cs.length := by
  obtain ⟨cidr, hrun, -, -, -, hmin, hlen⟩ := range2cidr_minimal 1 6 3 (by decide) (by decide)
    (by decide) (by decide) (by decide)
  exact ⟨cidr, hrun, hlen, hmin⟩

/-! The end of the loop. -/

/-- `while (s <= end)`, entered with `s`, is left with `s'`. Each pass has to find its block, and its
mask in the table. -/
inductive Leaves (end' maxPrefix : Nat) : Nat → Nat → Prop where
  | done {s : Nat} : end' < s → Leaves end' maxPrefix s s
  | pass {s s' t : Nat} {c : Cidr} : s ≤ end' → Range2cidr.pass end' maxPrefix s = some (c, t) →
      Leaves end' maxPrefix t s' → Leaves end' maxPrefix s s'

section Leaves

variable {e w s s' t : Nat} {c : Cidr}

lemma Leaves.past (h : Leaves e w s s') : e < s' := by
  induction h with
  | done hlt => exact hlt
  | pass _ _ _ ih => exact ih

/-- The counter is a number of 32 bits. -/
lemma pass_lt (h : pass e w s = some (c, t)) : t < uint32Bound := by
  have hpos : 0 < uint32Bound := by decide
  unfold pass at h
  dsimp only at h
  split at h
  · cases h
    exact Nat.mod_lt _ hpos
  · obtain ⟨j, -, h⟩ := Option.bind_eq_some_iff.1 h
    obtain ⟨m, -, h⟩ := Option.map_eq_some_iff.1 h
    cases h
    exact Nat.mod_lt _ hpos

lemma Leaves.lt (h : Leaves e w s s') (hs : s < uint32Bound) : s' < uint32Bound := by
  induction h with
  | done _ => exact hs
  | pass _ hpass _ ih => exact ih (pass_lt hpass)

/-- The loop with a number of passes and the loop that is left. -/
lemma leaves_iff_cidrLoop (cidr : List Cidr) :
    (∃ s', Leaves e w s s') ↔ ∃ fuel out, cidrLoop e w fuel s cidr = some out := by
  constructor
  · rintro ⟨s', h⟩
    induction h generalizing cidr with
    | done hlt => exact ⟨0, cidr, by rw [cidrLoop, if_neg (Nat.not_le.2 hlt)]⟩
    | @pass s s' t c hle hpass _ ih =>
      obtain ⟨fuel, out, hloop⟩ := ih (cidr ++ [c])
      refine ⟨fuel + 1, out, ?_⟩
      rw [cidrLoop, if_pos hle, hpass]
      exact hloop
  · rintro ⟨fuel, out, h⟩
    induction fuel generalizing s cidr with
    | zero =>
      rw [cidrLoop] at h
      split at h
      · cases h
      · rename_i hlt
        exact ⟨s, .done (Nat.not_le.1 hlt)⟩
    | succ fuel ih =>
      rw [cidrLoop] at h
      split at h
      · rename_i hle
        obtain ⟨⟨c, t⟩, hpass, h⟩ := Option.bind_eq_some_iff.1 h
        obtain ⟨s', hs'⟩ := ih _ h
        exact ⟨s', .pass hle hpass hs'⟩
      · rename_i hlt
        exact ⟨s, .done (Nat.not_le.1 hlt)⟩

/-- Below the last number every pass moves on. -/
lemma exists_leaves (hw : w ≤ 32) (he : e + 1 < uint32Bound) (hs : s ≤ e + 1) :
    ∃ s', Leaves e w s s' := by
  obtain ⟨bs, hloop, -⟩ := cidrLoop_spec hw he [] hs (Nat.le_refl _)
  exact (leaves_iff_cidrLoop []).2 ⟨_, _, hloop⟩

end Leaves

/-- For every `max_prefix` and all numbers of 32 bits: the loop is left, with `s` past `end` and every
mask taken from the table, exactly when `end` is not the last number. -/
theorem range2cidr_leaves_iff (start e w : Nat) (hw : w ≤ 32)
    (hstart : start < uint32Bound) (he : e < uint32Bound) :
    (∃ s', Leaves e w start s' ∧ e < s') ↔ e < uint32Bound - 1 := by
  constructor
  · rintro ⟨s', h, hlt⟩
    have hs' := h.lt hstart
    omega
  · intro hlt
    rcases Nat.lt_or_ge (e + 1) start with hout | hin
    · exact ⟨start, .done (by omega), by omega⟩
    · obtain ⟨s', h⟩ := exists_leaves hw (show e + 1 < uint32Bound by omega) hin
      exact ⟨s', h, h.past⟩

theorem range2cidr_leaves_three_blocks : ∃ s', Leaves 17 16 10 s' ∧ 17 < s' :=
  (range2cidr_leaves_iff 10 17 16 (by decide) (by decide) (by decide)).2 (by decide)

/-- From the last number on the loop goes on with 0. -/
theorem range2cidr_never_left :
    pass 4294967295 32 4294967295 = some (⟨4294967295, 32⟩, 0) ∧
      ¬ ∃ s', Leaves 4294967295 32 4294967295 s' ∧ 4294967295 < s' := by
  refine ⟨by decide, ?_⟩
  rintro ⟨s', h, hlt⟩
  have hs' := h.lt (by decide)
  unfold uint32Bound at hs'
  omega

/-! The array of the caller. -/

/-- The loop with the array; `cidr[idx]` has to be one of its entries. -/
def cidrStore (end' maxPrefix : Nat) : Nat → Nat → Nat → List Cidr → Option (List Cidr)
  | 0, s, _, cidr => if s ≤ end' then none else some cidr
  | fuel + 1, s, idx, cidr =>
    if s ≤ end' then
      (pass end' maxPrefix s).bind fun p =>
        (store cidr idx p.1).bind fun cidr => cidrStore end' maxPrefix fuel p.2 (idx + 1) cidr
    else some cidr

/-- `range2cidr(cidr, cidr_max, start, end, max_prefix)` on an array of `cidr_max` entries, which is
filled with zeros first. -/
def range2cidrInto (cidrMax start end' maxPrefix : Nat) : Option (List Cidr) :=
  cidrStore end' maxPrefix (end' + 1 - start) start 0 (List.replicate cidrMax ⟨0, 0⟩)

section Store

variable {e w s fuel k : Nat} {es a : List Cidr}

/-- The entries written so far only stand in front. -/
lemma cidrLoop_append (fuel s : Nat) (acc : List Cidr) :
    cidrLoop e w fuel s acc = (cidrLoop e w fuel s []).map (acc ++ ·) := by
  induction fuel generalizing s acc with
  | zero =>
    rw [cidrLoop, cidrLoop]
    split
    · rfl
    · simp
  | succ fuel ih =>
    rw [cidrLoop, cidrLoop]
    split
    · cases pass e w s with
      | none => rfl
      | some p =>
        rw [Option.bind_some, Option.bind_some, ih, ih p.2 ([] ++ [p.1]), Option.map_map]
        refine congrArg (Option.map · _) (funext fun es => ?_)
        simp
    · simp

/-- With the array the entries are written one behind the other as long as there is room. -/
lemma cidrStore_eq (h : cidrLoop e w fuel s [] = some es) :
    cidrStore e w fuel s a.length (a ++ List.replicate k ⟨0, 0⟩) =
      if es.length ≤ k then some (a ++ es ++ List.replicate (k - es.length) ⟨0, 0⟩) else none := by
  induction fuel generalizing s es a k with
  | zero =>
    rw [cidrLoop] at h
    rw [cidrStore]
    split at h
    · cases h
    · cases h
      simp [*]
  | succ fuel ih =>
    rw [cidrLoop] at h
    rw [cidrStore]
    split at h
    · rename_i hle
      obtain ⟨p, hpass, h⟩ := Option.bind_eq_some_iff.1 h
      rw [cidrLoop_append] at h
      obtain ⟨es, hes, rfl⟩ := Option.map_eq_some_iff.1 h
      rw [if_pos hle, hpass, Option.bind_some]
      cases k with
      | zero => simp [store]
      | succ k =>
        have hnext := ih (a := a ++ [p.1]) (k := k) hes
        rw [List.length_append, List.length_singleton, List.append_assoc] at hnext
        rw [List.replicate_succ, store_append, Option.bind_some]
        simpa using hnext
    · rename_i hlt
      cases h
      simp [hlt]

/-- The array holds what `range2cidr` writes, if it is large enough. -/
lemma range2cidrInto_eq (cidrMax : Nat) (h : range2cidr s e w = some es) :
    range2cidrInto cidrMax s e w =
      if es.length ≤ cidrMax then some (es ++ List.replicate (cidrMax - es.length) ⟨0, 0⟩)
      else none :=
  cidrStore_eq (a := []) h

end Store

/-- For every array, every `max_prefix` and every range that does not reach the last number: all
entries are written inside the array exactly when the range can be cut into as many aligned blocks
of at most `2 ^ max_prefix` numbers as the array has entries, or fewer. -/
theorem range2cidrInto_inside_iff (cidrMax start e w : Nat) (hw : w ≤ 32)
    (he : e < uint32Bound - 1) :
    (∃ cidr, range2cidrInto cidrMax start e w = some cidr) ↔
      ∃ cs : List Block, (∀ c ∈ cs, c.Aligned ∧ c.log ≤ w) ∧ Partitions start (e + 1) cs ∧
        cs.length ≤ cidrMax := by
  rcases Nat.lt_or_ge (e + 1) start with hout | hin
  · -- the loop is not entered, and the range is empty
    have hnone : range2cidr start e w = some [] := by
      rw [range2cidr, show e + 1 - start = 0 by omega, cidrLoop, if_neg (by omega)]
    rw [range2cidrInto_eq cidrMax hnone, List.length_nil, if_pos (Nat.zero_le _)]
    refine ⟨fun _ => ⟨[], by simp, ⟨fun x => ?_, .nil⟩, Nat.zero_le _⟩, fun _ => ⟨_, rfl⟩⟩
    simp only [List.not_mem_nil, false_and, exists_false, false_iff]
    omega
  · obtain ⟨bs, hrun, hpaves, hbs⟩ := range2cidr_chosen hw hin (by omega)
    rw [range2cidrInto_eq cidrMax hrun, List.length_map]
    constructor
    · rintro ⟨cidr, h⟩
      split at h
      · rename_i hle
        exact ⟨bs, fun b hb => ⟨(hbs b hb).aligned, (hbs b hb).log_le⟩, hpaves.partitions, hle⟩
      · cases h
    · rintro ⟨cs, hcs, hpart, hle⟩
      have hmin := hpaves.length_le hbs hcs hpart.cover
      exact ⟨_, if_pos (Nat.le_trans hmin hle)⟩

/-- Three entries are enough for the numbers from 10 to 17. -/
theorem range2cidrInto_inside_three : ∃ cidr, range2cidrInto 3 10 17 16 = some cidr := by
  refine (range2cidrInto_inside_iff 3 10 17 16 (by decide) (by decide)).2 ?_
  have hpaves : Paves 18 10 [⟨10, 1⟩, ⟨12, 2⟩, ⟨16, 1⟩] := ⟨rfl, rfl, rfl, rfl⟩
  refine ⟨[⟨10, 1⟩, ⟨12, 2⟩, ⟨16, 1⟩], ?_, hpaves.partitions, by decide⟩
  intro c hc
  rcases List.mem_cons.1 hc with rfl | hc
  · exact ⟨⟨5, rfl⟩, by decide⟩
  · rcases List.mem_cons.1 hc with rfl | hc
    · exact ⟨⟨3, rfl⟩, by decide⟩
    · cases List.mem_singleton.1 hc
      exact ⟨⟨8, rfl⟩, by decide⟩

/-- The array of `main` is too small for the numbers of 18 bits without the first and the last
one, which are 34 blocks. -/
theorem range2cidrInto_outside :
    (range2cidr 1 262142 18).map List.length = some 34 ∧ range2cidrInto 32 1 262142 18 = none := by
  have hlen : (range2cidr 1 262142 18).map List.length = some 34 := by decide +kernel
  refine ⟨hlen, ?_⟩
  obtain ⟨es, hes, hes'⟩ := Option.map_eq_some_iff.1 hlen
  rw [range2cidrInto_eq 32 hes, hes']
  rfl

end CcodeTest.Range2cidr
