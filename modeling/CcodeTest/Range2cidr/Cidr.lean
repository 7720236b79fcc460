import Mathlib.Data.List.GetD
import CcodeTest.Lib.Dyadic

/-!
# From a range to prefixes

`range2cidr` splits the numbers from `start` to `end` into aligned blocks and writes each as an
address and a prefix length out of `max_prefix` bits. The loop finds the trailing zero bits of the
position it has reached, and from there the largest block that still fits; the address is then
computed again, with a table of masks. `pow(2, j)` is the exact power and the numbers are unsigned
of 32 bits.

The loop is the greedy walk of `Lib.Dyadic`, so the blocks it goes through are the maximal aligned
blocks of the range (`range2cidr_spec`). The masks from the eleventh on are not those of the block
sizes they are indexed with; `range2cidr_tiles_iff` says for which ranges the written entries still
are the blocks.
-/

namespace CcodeTest.Range2cidr
open CcodeTest.Lib

/-- `cidr_t`. -/
structure Cidr where
  cidr : Nat
  prefixLen : Nat
deriving DecidableEq

/-- `mask_map`; the initialiser has 27 of the 32 entries, the rest is zero. -/
def maskMap : List Nat :=
  [0xffffffff, 0xfffffffe, 0xfffffffc, 0xfffffff8, 0xfffffff0,
   0xffffffe0, 0xffffffc0, 0xffffff80, 0xffffff00, 0xfffffe00,
   0xfffff800, 0xfffff000, 0xffffe000, 0xffff8000, 0xffff0000,
   0xfffe0000, 0xfff80000, 0xfff00000, 0xffe00000, 0xff800000,
   0xff000000, 0xfe000000, 0xf8000000, 0xf0000000, 0xe0000000,
   0x80000000, 0x00000000, 0, 0, 0, 0, 0]

/-- The number of values of `uint32_t`. -/
def uint32Bound : Nat := 4294967296

/-- `for (i = 0; i < max_prefix; i++) if (s & (1 << i)) break;` from `i` on, with the first
argument the number of passes that are left. -/
def lowBit (s : Nat) : Nat → Nat → Nat
  | 0, i => i
  | k + 1, i => if s.testBit i then i else lowBit s k (i + 1)

/-- `value = s + pow(2,j) - 1`. -/
def lastOf (s j : Nat) : Nat := (s + 2 ^ j - 1) % uint32Bound

/-- `for (j = i; j >= 0; j--)` up to the `j` whose block fits. -/
def fitting (s end' : Nat) : Nat → Option Nat
  | 0 => if lastOf s 0 ≥ s ∧ lastOf s 0 ≤ end' then some 0 else none
  | j + 1 => if lastOf s (j + 1) ≥ s ∧ lastOf s (j + 1) ≤ end' then some (j + 1) else fitting s end' j

/-- One pass of the outer loop: the entry it writes and the next `s`. There is none when no block
fits, and the loop then never ends, or when the mask is outside the table. -/
def pass (end' maxPrefix s : Nat) : Option (Cidr × Nat) :=
  let i := lowBit s maxPrefix 0
  if i = 0 then some (⟨s, maxPrefix⟩, (s + 1) % uint32Bound)
  else
    (fitting s end' i).bind fun j =>
      maskMap[j]?.map fun mask => (⟨s &&& mask, maxPrefix - j⟩, (lastOf s j + 1) % uint32Bound)

/-- `while (s <= end)`, for at most as many passes as the first argument says; the entries are
written one behind the other. -/
def cidrLoop (end' maxPrefix : Nat) : Nat → Nat → List Cidr → Option (List Cidr)
  | 0, s, cidr => if s ≤ end' then none else some cidr
  | fuel + 1, s, cidr =>
    if s ≤ end' then
      (pass end' maxPrefix s).bind fun p => cidrLoop end' maxPrefix fuel p.2 (cidr ++ [p.1])
    else some cidr

/-- `range2cidr`, the entries it writes. A pass that moves on covers a number at least, so the
number of passes is no restriction. -/
def range2cidr (start end' maxPrefix : Nat) : Option (List Cidr) :=
  cidrLoop end' maxPrefix (end' + 1 - start) start []

/-- The block an entry stands for, as `cidr2range` reads it. -/
def Cidr.block (maxPrefix : Nat) (e : Cidr) : Block := ⟨e.cidr, maxPrefix - e.prefixLen⟩

/-- The entries are disjoint aligned blocks in increasing order that together are the range. -/
structure Tiles (start end' maxPrefix : Nat) (cidr : List Cidr) : Prop where
  aligned : ∀ e ∈ cidr, (e.block maxPrefix).Aligned
  increasing : cidr.Pairwise fun e f => e.cidr < f.cidr
  disjoint : cidr.Pairwise fun e f => ∀ x, (e.block maxPrefix).Has x → ¬ (f.block maxPrefix).Has x
  union : ∀ x, (∃ e ∈ cidr, (e.block maxPrefix).Has x) ↔ start ≤ x ∧ x ≤ end'

/-! One pass. -/

section Pass

variable {s e w i j k : Nat}

/-- A multiple of `2 ^ i` with bit `i` clear is a multiple of the next power. -/
lemma dvd_succ_iff (h : 2 ^ i ∣ s) : 2 ^ (i + 1) ∣ s ↔ s.testBit i = false := by
  obtain ⟨q, rfl⟩ := h
  rw [Nat.testBit_eq_decide_div_mod_eq, Nat.mul_div_cancel_left _ (Nat.two_pow_pos i), Nat.pow_succ,
    Nat.mul_dvd_mul_iff_left (Nat.two_pow_pos i), decide_eq_false_iff_not]
  omega

/-- The scan ends at the lowest set bit, or at `max_prefix` when there is none. -/
lemma lowBit_spec (k : Nat) (h : 2 ^ i ∣ s) :
    lowBit s k i ≤ i + k ∧ 2 ^ lowBit s k i ∣ s ∧
      (lowBit s k i < i + k → ¬ 2 ^ (lowBit s k i + 1) ∣ s) := by
  induction k generalizing i with
  | zero => exact ⟨Nat.le_refl _, h, fun hlt => absurd hlt (Nat.lt_irrefl _)⟩
  | succ k ih =>
    rw [lowBit]
    cases hbit : s.testBit i with
    | true =>
      refine ⟨by simp, by simpa using h, fun _ hdvd => ?_⟩
      rw [if_pos rfl, dvd_succ_iff h, hbit] at hdvd
      cases hdvd
    | false =>
      obtain ⟨hle, hdvd, hlow⟩ := ih ((dvd_succ_iff h).2 hbit)
      simp only [Bool.false_eq_true, if_false]
      exact ⟨by omega, hdvd, fun hlt => hlow (by omega)⟩

/-- An aligned block that starts below a power of two ends by it. -/
lemma add_le_of_dvd (h : 2 ^ j ∣ s) (hj : j ≤ k) (hs : s < 2 ^ k) : s + 2 ^ j ≤ 2 ^ k := by
  have hb : (⟨s, j⟩ : Block).Aligned := h
  have hc : (⟨0, k⟩ : Block).Aligned := Nat.dvd_zero _
  have hhas : (⟨0, k⟩ : Block).Has s := ⟨Nat.zero_le s, by simpa [Block.stop] using hs⟩
  have hn := (hb.nested hc hj (Block.has_start _) hhas).2
  simpa [Block.stop] using hn

/-- The inner loop finds the largest block that fits. -/
lemma fitting_spec (hfit : ∀ k ≤ i, s + 2 ^ k ≤ uint32Bound) (hs : s ≤ e) :
    ∃ j ≤ i, fitting s e i = some j ∧ s + 2 ^ j ≤ e + 1 ∧
      ∀ k ≤ i, s + 2 ^ k ≤ e + 1 → k ≤ j := by
  have hlast : ∀ k ≤ i, (lastOf s k ≥ s ∧ lastOf s k ≤ e ↔ s + 2 ^ k ≤ e + 1) := by
    intro k hk
    have hpos := Nat.two_pow_pos k
    have hle := hfit k hk
    rw [lastOf, Nat.mod_eq_of_lt (by omega)]
    omega
  induction i with
  | zero =>
    refine ⟨0, Nat.le_refl 0, ?_, ?_, fun k hk _ => hk⟩
    · rw [fitting, if_pos ((hlast 0 (Nat.le_refl 0)).2 (by simpa using hs))]
    · simpa using hs
  | succ i ih =>
    rw [fitting]
    by_cases hle : s + 2 ^ (i + 1) ≤ e + 1
    · refine ⟨i + 1, Nat.le_refl _, ?_, hle, fun k hk _ => hk⟩
      rw [if_pos ((hlast _ (Nat.le_refl _)).2 hle)]
    · obtain ⟨j, hj, hfound, hjle, hmax⟩ := ih (fun k hk => hfit k (by omega))
        (fun k hk => hlast k (by omega))
      refine ⟨j, by omega, ?_, hjle, ?_⟩
      · rw [if_neg fun h => hle ((hlast _ (Nat.le_refl _)).1 h)]
        exact hfound
      · intro k hk hkle
        rcases Nat.lt_or_eq_of_le hk with hlt | rfl
        · exact hmax k (by omega) hkle
        · exact absurd hkle hle

/-- What the code writes for a block. -/
def entryOf (w : Nat) (b : Block) : Cidr := ⟨b.start &&& maskMap.getD b.log 0, w - b.log⟩

/-- Every size of an aligned block at `s` is found by the scan, as far as it goes. -/
lemma le_lowBit (hk : k ≤ w) (hdvd : 2 ^ k ∣ s) : k ≤ lowBit s w 0 := by
  obtain ⟨hle, -, hlow⟩ := lowBit_spec (s := s) (i := 0) w (Nat.one_dvd s)
  by_contra hgt
  refine hlow (by omega) (Nat.dvd_trans (Nat.pow_dvd_pow 2 ?_) hdvd)
  omega

/-- One pass takes the largest aligned block of at most `2 ^ w` numbers that starts at `s` and
fits. -/
lemma pass_spec (hw : w ≤ 32) (he : e + 1 < uint32Bound) (hs : s ≤ e) :
    ∃ b : Block, b.start = s ∧ b.stop ≤ e + 1 ∧ b.Chosen w (e + 1) ∧
      pass e w s = some (entryOf w b, b.stop) := by
  obtain ⟨hle, hdvd, -⟩ := lowBit_spec (s := s) (i := 0) w (Nat.one_dvd s)
  have hs32 : s < 2 ^ 32 := by
    unfold uint32Bound at he
    omega
  by_cases hi : lowBit s w 0 = 0
  · -- an odd number is a block of its own
    refine ⟨⟨s, 0⟩, rfl, by simpa [Block.stop] using hs, ⟨Nat.zero_le w, Nat.one_dvd s, ?_⟩, ?_⟩
    · intro k hk hdvd _
      have hle0 : k ≤ lowBit s w 0 := le_lowBit hk hdvd
      rw [hi] at hle0
      exact hle0
    · have hmask : s &&& 0xffffffff = s := Nat.and_two_pow_sub_one_of_lt_two_pow hs32
      have hnext : (s + 1) % uint32Bound = s + 1 := Nat.mod_eq_of_lt (by omega)
      rw [pass, if_pos hi, hnext, entryOf]
      simp [maskMap, hmask, Block.stop]
  · have hfit : ∀ k ≤ lowBit s w 0, s + 2 ^ k ≤ uint32Bound := fun k hk =>
      add_le_of_dvd (Nat.dvd_trans (Nat.pow_dvd_pow 2 hk) hdvd) (by omega) hs32
    obtain ⟨j, hj, hfound, hjle, hmax⟩ := fitting_spec hfit hs
    -- a block that ends below the last number is small enough for the table
    have hj32 : j < maskMap.length := by
      change j < 32
      rw [← Nat.pow_lt_pow_iff_right (by decide : 1 < 2)]
      unfold uint32Bound at he
      omega
    have hnext : (lastOf s j + 1) % uint32Bound = s + 2 ^ j := by
      have hpos := Nat.two_pow_pos j
      have hlt : s + 2 ^ j < uint32Bound := Nat.lt_of_le_of_lt hjle he
      have hlast : s + 2 ^ j - 1 < uint32Bound := Nat.lt_of_le_of_lt (Nat.sub_le _ 1) hlt
      rw [lastOf, Nat.mod_eq_of_lt hlast, Nat.sub_add_cancel (Nat.le_add_left_of_le hpos),
        Nat.mod_eq_of_lt hlt]
    refine ⟨⟨s, j⟩, rfl, hjle, ⟨by dsimp only; omega, Nat.dvd_trans (Nat.pow_dvd_pow 2 hj) hdvd,
      fun k hk hkdvd hkfit => hmax k (le_lowBit hk hkdvd) hkfit⟩, ?_⟩
    rw [pass, if_neg hi, hfound, Option.bind_some, List.getElem?_eq_getElem hj32, Option.map_some,
      hnext, entryOf, List.getD_eq_getElem _ _ hj32]
    rfl

/-- The loop goes through the blocks that the passes take from `s` on. -/
lemma cidrLoop_spec {fuel : Nat} (hw : w ≤ 32) (he : e + 1 < uint32Bound) (cidr : List Cidr)
    (hs : s ≤ e + 1) (hfuel : e + 1 - s ≤ fuel) :
    ∃ bs : List Block, cidrLoop e w fuel s cidr = some (cidr ++ bs.map (entryOf w)) ∧
      Paves (e + 1) s bs ∧ ∀ b ∈ bs, b.Chosen w (e + 1) := by
  induction fuel generalizing s cidr with
  | zero =>
    have hend : s = e + 1 := by omega
    refine ⟨[], ?_, hend, by simp⟩
    rw [cidrLoop, if_neg (by omega)]
    simp
  | succ fuel ih =>
    by_cases hle : s ≤ e
    · obtain ⟨b, rfl, hstop, hb, hpass⟩ := pass_spec hw he hle
      have hlt := b.start_lt_stop
      obtain ⟨bs, hloop, hpaves, hbs⟩ := ih (s := b.stop) (cidr ++ [entryOf w b]) hstop (by omega)
      refine ⟨b :: bs, ?_, ⟨rfl, hpaves⟩, ?_⟩
      · rw [cidrLoop, if_pos hle, hpass, Option.bind_some, hloop]
        simp
      · intro c hc
        cases hc with
        | head => exact hb
        | tail _ hc => exact hbs c hc
    · have hend : s = e + 1 := by omega
      refine ⟨[], ?_, hend, by simp⟩
      rw [cidrLoop, if_neg hle]
      simp

end Pass

/-! The whole range. -/

/-- The mask that belongs to the size of the block clears no bit of its start. -/
def MaskKeeps (b : Block) : Prop := b.start &&& maskMap.getD b.log 0 = b.start

section Range

variable {start e w : Nat} {b : Block}

/-- The call writes one entry for each block that the passes take. -/
lemma range2cidr_chosen (hw : w ≤ 32) (hse : start ≤ e + 1) (he : e + 1 < uint32Bound) :
    ∃ bs : List Block, range2cidr start e w = some (bs.map (entryOf w)) ∧
      Paves (e + 1) start bs ∧ ∀ b ∈ bs, b.Chosen w (e + 1) :=
  cidrLoop_spec hw he [] hse (Nat.le_refl _)

/-- In a range of numbers of `w` bits these are the maximal blocks. -/
lemma range2cidr_spec (hw : w ≤ 32) (hse : start ≤ e) (he : e < 2 ^ w)
    (he' : e + 1 < uint32Bound) :
    ∃ bs : List Block, range2cidr start e w = some (bs.map (entryOf w)) ∧
      Paves (e + 1) start bs ∧ ∀ b ∈ bs, b.Maximal start (e + 1) ∧ b.log ≤ w := by
  obtain ⟨bs, hrun, hpaves, hbs⟩ := range2cidr_chosen hw (Nat.le_succ_of_le hse) he'
  have hlarge : ∀ b ∈ bs, b.Aligned ∧ b.Largest (e + 1) := by
    intro b hb
    refine ⟨(hbs b hb).aligned, ?_⟩
    intro k hdvd hfit
    have hkw : k ≤ w := (Nat.pow_le_pow_iff_right (by decide : 1 < 2)).1 (by omega)
    exact (hbs b hb).largest k hkw hdvd hfit
  have hmax := hpaves.maximal (Nat.le_refl start) noStraddle_lo hlarge
  exact ⟨bs, hrun, hpaves, fun b hb => ⟨hmax b hb, (hbs b hb).log_le⟩⟩

lemma entryOf_block (hlog : b.log ≤ w) :
    (entryOf w b).block w = ⟨b.start &&& maskMap.getD b.log 0, b.log⟩ := by
  rw [Cidr.block, entryOf, Nat.sub_sub_self hlog]

lemma MaskKeeps.entryOf_block (h : MaskKeeps b) (hlog : b.log ≤ w) :
    (entryOf w b).block w = b := by
  rw [Range2cidr.entryOf_block hlog, h]

/-- Entries that are their blocks tile what the blocks pave. -/
lemma tiles_of_paves {bs : List Block} (h : Paves (e + 1) start bs)
    (hal : ∀ b ∈ bs, b.Aligned) (hblock : ∀ b ∈ bs, (entryOf w b).block w = b) :
    Tiles start e w (bs.map (entryOf w)) := by
  have hpair := List.Pairwise.and_mem.1 h.pairwise
  refine ⟨?_, ?_, ?_, ?_⟩
  · intro f hf
    obtain ⟨b, hb, rfl⟩ := List.mem_map.1 hf
    rw [hblock b hb]
    exact hal b hb
  · rw [List.pairwise_map]
    refine hpair.imp ?_
    intro b c hbc
    obtain ⟨hb, hc, hle⟩ := hbc
    have hb' : (entryOf w b).cidr = b.start := congrArg Block.start (hblock b hb)
    have hc' : (entryOf w c).cidr = c.start := congrArg Block.start (hblock c hc)
    rw [hb', hc']
    exact Nat.lt_of_lt_of_le b.start_lt_stop hle
  · rw [List.pairwise_map]
    refine hpair.imp ?_
    intro b c hbc x hx hx'
    obtain ⟨hb, hc, hle⟩ := hbc
    rw [hblock b hb] at hx
    rw [hblock c hc] at hx'
    exact absurd (Nat.lt_of_lt_of_le hx.2 hle) (Nat.not_lt.2 hx'.1)
  · intro x
    have hcover : (∃ b ∈ bs, b.Has x) ↔ start ≤ x ∧ x ≤ e :=
      h.cover.trans (and_congr_right fun _ => Nat.lt_succ_iff)
    rw [← hcover]
    constructor
    · intro hex
      obtain ⟨f, hf, hx⟩ := hex
      obtain ⟨b, hb, rfl⟩ := List.mem_map.1 hf
      rw [hblock b hb] at hx
      exact ⟨b, hb, hx⟩
    · intro hex
      obtain ⟨b, hb, hx⟩ := hex
      refine ⟨entryOf w b, List.mem_map_of_mem hb, ?_⟩
      rw [hblock b hb]
      exact hx

/-- Conversely entries that are disjoint and not below `start` are their blocks: a mask
can only lower an address, and below it there is no room. -/
lemma maskKeeps_of_disjoint {bs : List Block} (h : Paves (e + 1) start bs)
    (hlog : ∀ b ∈ bs, b.log ≤ w)
    (hlo : ∀ b ∈ bs, start ≤ (entryOf w b).cidr)
    (hdis : bs.Pairwise fun b c =>
      ∀ x, ((entryOf w b).block w).Has x → ¬ ((entryOf w c).block w).Has x) :
    ∀ b ∈ bs, MaskKeeps b := by
  induction bs generalizing start with
  | nil => simp
  | cons b bs ih =>
    obtain ⟨rfl, h⟩ := h
    rw [List.pairwise_cons] at hdis
    have hle : b.start &&& maskMap.getD b.log 0 ≤ b.start := Nat.and_le_left
    -- the first entry cannot lie below the range, and the next ones cannot lie in its block
    have hb : MaskKeeps b := Nat.le_antisymm hle (hlo b (List.mem_cons_self ..))
    have hblock := hb.entryOf_block (hlog b (List.mem_cons_self ..))
    have hnext : ∀ c ∈ bs, b.stop ≤ (entryOf w c).cidr := by
      intro c hc
      by_contra hlt
      refine hdis.1 c hc (entryOf w c).cidr ?_ (Block.has_start _)
      rw [hblock]
      refine ⟨?_, Nat.not_le.1 hlt⟩
      exact hlo c (List.mem_cons_of_mem _ hc)
    intro c hc
    cases hc with
    | head => exact hb
    | tail _ hc =>
      exact ih h (fun d hd => hlog d (List.mem_cons_of_mem _ hd)) hnext hdis.2 c hc

/-- The entries tile the range exactly when the masks keep the starts of its maximal blocks. -/
theorem range2cidr_tiles_iff (start e w : Nat) (hw : w ≤ 32) (hse : start ≤ e)
    (he : e < 2 ^ w) (he' : e < uint32Bound - 1) :
    (∃ cidr, range2cidr start e w = some cidr ∧ Tiles start e w cidr) ↔
      ∀ b : Block, b.Maximal start (e + 1) → MaskKeeps b := by
  obtain ⟨bs, hrun, hpaves, hbs⟩ := range2cidr_spec hw hse he (by omega)
  rw [hrun]
  constructor
  · intro hex
    obtain ⟨cidr, hcidr, ht⟩ := hex
    cases hcidr
    have hlo : ∀ b ∈ bs, start ≤ (entryOf w b).cidr := fun b hb =>
      ((ht.union _).1 ⟨_, List.mem_map_of_mem hb, Block.has_start _⟩).1
    have hkeep := maskKeeps_of_disjoint hpaves (fun c hc => (hbs c hc).2) hlo
      (List.pairwise_map.1 ht.disjoint)
    intro b hb
    exact hkeep b (hpaves.mem_of_maximal (fun c hc => (hbs c hc).1) hb)
  · intro hkeep
    refine ⟨_, rfl, tiles_of_paves hpaves ?_ ?_⟩
    · intro b hb
      exact (hbs b hb).1.aligned
    · intro b hb
      exact (hkeep b (hbs b hb).1).entryOf_block (hbs b hb).2

/-- The numbers from 10 to 17 are three blocks, of two, four and two numbers, and the masks up to
16 numbers are the right ones. -/
theorem range2cidr_three_tile :
    ∃ cidr, range2cidr 10 17 16 = some cidr ∧ Tiles 10 17 16 cidr := by
  refine (range2cidr_tiles_iff 10 17 16 (by decide) (by decide) (by decide) (by decide)).2 ?_
  intro b hb
  have hhi : b.start + 2 ^ b.log ≤ 18 := hb.le_hi
  have hpos := Nat.two_pow_pos b.log
  have hlog : b.log < 5 := (Nat.pow_lt_pow_iff_right (by decide : 1 < 2)).1 (by omega)
  have hkeeps : ∀ s < 18, ∀ j < 5, 2 ^ j ∣ s → s &&& maskMap.getD j 0 = s := by decide
  exact hkeeps b.start (by omega) b.log hlog hb.aligned

/-- The mask for blocks of 1024 numbers also clears the bit above, so that the block from 1024 on is
written as the one from 0 on. -/
theorem range2cidr_1024_not_tiles :
    ¬ ∀ start e w, 1 ≤ w → w ≤ 32 → start ≤ e → e < 2 ^ w → e < uint32Bound - 1 →
      ∃ cidr, range2cidr start e w = some cidr ∧ Tiles start e w cidr := by
  intro h
  obtain ⟨cidr, hrun, ht⟩ := h 1024 2047 16 (by decide) (by decide) (by decide) (by decide)
    (by decide)
  have hwritten : range2cidr 1024 2047 16 = some [⟨0, 6⟩] := by decide
  cases hwritten.symm.trans hrun
  have hzero : (Cidr.block 16 ⟨0, 6⟩).Has 0 := Block.has_start _
  have hin := (ht.union 0).1 ⟨_, List.mem_singleton.2 rfl, hzero⟩
  exact absurd hin.1 (by decide)

end Range

end CcodeTest.Range2cidr
