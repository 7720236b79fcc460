import Mathlib.Algebra.Group.Nat.Defs
import Mathlib.Data.List.Pairwise

/-!
# Aligned blocks of a range

A block is `2 ^ log` consecutive numbers; it is aligned when its start is a multiple of its size.
Two aligned blocks with a common point are nested, so the maximal aligned blocks inside a range are
disjoint. `Paves lo hi bs` says that the blocks `bs` follow one another from `lo` to `hi`. A greedy
walk that takes at each point the largest aligned block that starts there and still fits produces
the maximal blocks and no others (`Paves.maximal`, `Paves.mem_of_maximal`).

The walk may also be kept to blocks of at most `2 ^ w` numbers. Whatever other blocks of that kind
cover the range, the walk needs no more of them (`Paves.length_le`), so that every way of paving a
range bounds its number of steps; `exists_paves` gives one with `2 * w - 2` blocks.
-/

namespace CcodeTest.Lib

/-- The numbers from `start` to `start + 2 ^ log - 1`. -/
structure Block where
  start : Nat
  log : Nat
deriving DecidableEq

namespace Block

/-- The first number behind the block. -/
def stop (b : Block) : Nat := b.start + 2 ^ b.log

/-- The block contains a number. -/
def Has (b : Block) (x : Nat) : Prop := b.start ≤ x ∧ x < b.stop

/-- The start is a multiple of the size. -/
def Aligned (b : Block) : Prop := 2 ^ b.log ∣ b.start

/-- An aligned block within the numbers from `lo` to `hi - 1`. -/
structure Inside (lo hi : Nat) (b : Block) : Prop where
  aligned : b.Aligned
  lo_le : lo ≤ b.start
  le_hi : b.stop ≤ hi

/-- No larger aligned block inside the range contains its start. -/
structure Maximal (lo hi : Nat) (b : Block) : Prop extends Inside lo hi b where
  largest : ∀ c, Inside lo hi c → c.Has b.start → c.log ≤ b.log

variable {b c : Block} {lo hi x : Nat}

/-- A block holds a number. -/
lemma start_lt_stop (b : Block) : b.start < b.stop :=
  Nat.lt_add_of_pos_right (Nat.two_pow_pos _)

/-- It holds its start. -/
lemma has_start (b : Block) : b.Has b.start := ⟨Nat.le_refl _, b.start_lt_stop⟩

/-- A smaller aligned block with a point of a larger one lies inside it. -/
lemma Aligned.nested (hb : b.Aligned) (hc : c.Aligned) (hle : b.log ≤ c.log) (hx : b.Has x)
    (hx' : c.Has x) : c.start ≤ b.start ∧ b.stop ≤ c.stop := by
  obtain ⟨q, hq⟩ := hb
  obtain ⟨r, hr⟩ := hc
  obtain ⟨d, hd⟩ := Nat.exists_eq_add_of_le hle
  -- both blocks in multiples of the smaller size
  have hsize : 2 ^ c.log = 2 ^ b.log * 2 ^ d := by rw [hd, Nat.pow_add]
  have hcs : c.start = 2 ^ b.log * (2 ^ d * r) := by rw [hr, hsize, Nat.mul_assoc]
  have hbe : b.stop = 2 ^ b.log * (q + 1) := by rw [Block.stop, hq, Nat.mul_succ]
  have hce : c.stop = 2 ^ b.log * (2 ^ d * r + 2 ^ d) := by
    rw [Block.stop, hcs, hsize, ← Nat.mul_add]
  obtain ⟨hx0, hx1⟩ := hx
  obtain ⟨hy0, hy1⟩ := hx'
  rw [hq] at hx0
  rw [hbe] at hx1
  rw [hcs] at hy0
  rw [hce] at hy1
  have hlt : 2 ^ d * r < q + 1 := Nat.lt_of_mul_lt_mul_left (Nat.lt_of_le_of_lt hy0 hx1)
  have hlt' : q < 2 ^ d * r + 2 ^ d := Nat.lt_of_mul_lt_mul_left (Nat.lt_of_le_of_lt hx0 hy1)
  rw [hcs, hq, hbe, hce]
  exact ⟨Nat.mul_le_mul_left _ (Nat.le_of_lt_succ hlt), Nat.mul_le_mul_left _ hlt'⟩

/-- Two maximal blocks with a number in common are one. -/
lemma Maximal.eq_of_log_le (hb : b.Maximal lo hi) (hc : c.Maximal lo hi) (hle : b.log ≤ c.log)
    (hx : b.Has x) (hx' : c.Has x) : b = c := by
  obtain ⟨h0, h1⟩ := hb.aligned.nested hc.aligned hle hx hx'
  have hhas : c.Has b.start := ⟨h0, Nat.lt_of_lt_of_le b.start_lt_stop h1⟩
  have hlog : b.log = c.log := Nat.le_antisymm hle (hb.largest c hc.toInside hhas)
  obtain ⟨h2, -⟩ := hc.aligned.nested hb.aligned (Nat.le_of_eq hlog.symm) hx' hx
  obtain ⟨bs, bl⟩ := b
  obtain ⟨cs, cl⟩ := c
  rw [Block.mk.injEq]
  exact ⟨Nat.le_antisymm h2 h0, hlog⟩

/-- Maximal blocks with a common point are the same. -/
lemma Maximal.eq (hb : b.Maximal lo hi) (hc : c.Maximal lo hi) (hx : b.Has x) (hx' : c.Has x) :
    b = c := by
  rcases Nat.le_total b.log c.log with hle | hle
  · exact hb.eq_of_log_le hc hle hx hx'
  · exact (hc.eq_of_log_le hb hle hx' hx).symm

end Block

/-! Blocks that follow one another. -/

/-- The blocks follow one another from `lo` to `hi`. -/
def Paves (hi : Nat) : Nat → List Block → Prop
  | lo, [] => lo = hi
  | lo, b :: bs => b.start = lo ∧ Paves hi b.stop bs

section Paves

variable {lo hi x : Nat} {b : Block} {bs : List Block}

/-- A paved range ends behind its start. -/
lemma Paves.le (h : Paves hi lo bs) : lo ≤ hi := by
  induction bs generalizing lo with
  | nil => exact Nat.le_of_eq h
  | cons b bs ih =>
    obtain ⟨rfl, h⟩ := h
    exact Nat.le_trans (Nat.le_of_lt b.start_lt_stop) (ih h)

/-- Together they hold the numbers from `lo` to `hi - 1`. -/
lemma Paves.cover (h : Paves hi lo bs) : (∃ b ∈ bs, b.Has x) ↔ lo ≤ x ∧ x < hi := by
  induction bs generalizing lo with
  | nil =>
    cases h
    simp only [List.not_mem_nil, false_and, exists_false, false_iff]
    omega
  | cons b bs ih =>
    obtain ⟨rfl, h⟩ := h
    have hle := h.le
    have hlt := b.start_lt_stop
    simp only [List.mem_cons, or_and_right, exists_or, exists_eq_left]
    rw [ih h, Block.Has]
    omega

/-- Each block starts behind the ones before it. -/
lemma Paves.le_start (h : Paves hi lo bs) (hb : b ∈ bs) : lo ≤ b.start := by
  induction bs generalizing lo with
  | nil => cases hb
  | cons c bs ih =>
    obtain ⟨rfl, h⟩ := h
    cases hb with
    | head => exact Nat.le_refl _
    | tail _ hb => exact Nat.le_trans (Nat.le_of_lt c.start_lt_stop) (ih h hb)

/-- And ends within the range. -/
lemma Paves.stop_le (h : Paves hi lo bs) (hb : b ∈ bs) : b.stop ≤ hi := by
  induction bs generalizing lo with
  | nil => cases hb
  | cons c bs ih =>
    obtain ⟨rfl, h⟩ := h
    cases hb with
    | head => exact h.le
    | tail _ hb => exact ih h hb

/-- Two paved ranges side by side. -/
lemma Paves.append {mid : Nat} {cs : List Block} (h : Paves mid lo bs) (h' : Paves hi mid cs) :
    Paves hi lo (bs ++ cs) := by
  induction bs generalizing lo with
  | nil =>
    cases h
    exact h'
  | cons b bs ih =>
    obtain ⟨rfl, h⟩ := h
    exact ⟨rfl, ih h⟩

/-- The blocks stand one behind the other. -/
lemma Paves.pairwise (h : Paves hi lo bs) : bs.Pairwise fun b c => b.stop ≤ c.start := by
  induction bs generalizing lo with
  | nil => exact .nil
  | cons b bs ih =>
    obtain ⟨rfl, h⟩ := h
    exact .cons (fun c hc => h.le_start hc) (ih h)

/-- Blocks that pave a range and are maximal in it are all its maximal blocks. -/
lemma Paves.mem_of_maximal (h : Paves hi lo bs) (hmax : ∀ b ∈ bs, b.Maximal lo hi)
    (hb : b.Maximal lo hi) : b ∈ bs := by
  have hrange : lo ≤ b.start ∧ b.start < hi :=
    ⟨hb.lo_le, Nat.lt_of_lt_of_le b.start_lt_stop hb.le_hi⟩
  obtain ⟨c, hc, hhas⟩ := h.cover.2 hrange
  rw [hb.eq (hmax c hc) b.has_start hhas]
  exact hc

end Paves

/-! The greedy walk. -/

/-- No aligned block inside the range reaches over `s`. -/
def NoStraddle (lo hi s : Nat) : Prop :=
  ∀ c : Block, c.Inside lo hi → c.start < s → c.stop ≤ s

/-- The block is the largest aligned one that starts at its start and fits. -/
def Block.Largest (hi : Nat) (b : Block) : Prop :=
  ∀ k, 2 ^ k ∣ b.start → b.start + 2 ^ k ≤ hi → k ≤ b.log

section Greedy

variable {lo hi : Nat} {b : Block}

/-- No block of the range reaches over its start. -/
lemma noStraddle_lo : NoStraddle lo hi lo :=
  fun _ hc hlt => absurd hc.lo_le (Nat.not_le.2 hlt)

/-- Taking the largest block is maximal. -/
lemma NoStraddle.maximal (h : NoStraddle lo hi b.start) (hb : b.Inside lo hi)
    (hl : b.Largest hi) : b.Maximal lo hi := by
  refine ⟨hb, ?_⟩
  intro c hc hhas
  rcases Nat.lt_or_eq_of_le hhas.1 with hlt | heq
  · exact absurd (h c hc hlt) (Nat.not_le.2 hhas.2)
  · refine hl c.log ?_ ?_
    · rw [← heq]
      exact hc.aligned
    · rw [← heq]
      exact hc.le_hi

/-- And behind it the walk can go on. -/
lemma NoStraddle.next (h : NoStraddle lo hi b.start) (hb : b.Inside lo hi) (hl : b.Largest hi) :
    NoStraddle lo hi b.stop := by
  intro c hc hlt
  rcases Nat.lt_or_ge c.start b.start with hbefore | hfrom
  · exact Nat.le_trans (h c hc hbefore) (Nat.le_of_lt b.start_lt_stop)
  · have hhas : b.Has c.start := ⟨hfrom, hlt⟩
    rcases Nat.le_total c.log b.log with hle | hle
    · exact (hc.aligned.nested hb.aligned hle c.has_start hhas).2
    · -- a larger block would start where this one does
      obtain ⟨h0, -⟩ := hb.aligned.nested hc.aligned hle hhas c.has_start
      have heq : c.start = b.start := Nat.le_antisymm h0 hfrom
      have hlog : c.log ≤ b.log := by
        refine hl c.log ?_ ?_
        · rw [← heq]
          exact hc.aligned
        · rw [← heq]
          exact hc.le_hi
      exact (hc.aligned.nested hb.aligned hlog c.has_start hhas).2

/-- A walk that always takes the largest block goes through maximal ones. -/
lemma Paves.maximal {bs : List Block} {s : Nat} (h : Paves hi s bs) (hlo : lo ≤ s)
    (hno : NoStraddle lo hi s) (hbs : ∀ b ∈ bs, b.Aligned ∧ b.Largest hi) :
    ∀ b ∈ bs, b.Maximal lo hi := by
  induction bs generalizing s with
  | nil => exact fun b hb => absurd hb List.not_mem_nil
  | cons c bs ih =>
    have hstop : c.stop ≤ hi := h.stop_le (List.mem_cons_self ..)
    obtain ⟨rfl, h⟩ := h
    obtain ⟨hal, hl⟩ := hbs c (List.mem_cons_self ..)
    have hin : c.Inside lo hi := ⟨hal, hlo, hstop⟩
    intro b hb
    cases hb with
    | head => exact hno.maximal hin hl
    | tail _ hb =>
      exact ih h (Nat.le_trans hlo (Nat.le_of_lt c.start_lt_stop)) (hno.next hin hl)
        (fun d hd => hbs d (List.mem_cons_of_mem _ hd)) b hb

end Greedy

/-! Blocks of a bounded size. -/

/-- The block is the largest one of at most `2 ^ w` numbers that is aligned, starts at its start and
fits. -/
structure Block.Chosen (w hi : Nat) (b : Block) : Prop where
  log_le : b.log ≤ w
  aligned : b.Aligned
  largest : ∀ k ≤ w, 2 ^ k ∣ b.start → b.start + 2 ^ k ≤ hi → k ≤ b.log

/-- The blocks, in any order, are disjoint and together hold the numbers from `lo` to `hi - 1`. -/
structure Partitions (lo hi : Nat) (cs : List Block) : Prop where
  cover : ∀ x, (∃ c ∈ cs, c.Has x) ↔ lo ≤ x ∧ x < hi
  disjoint : cs.Pairwise fun c d => ∀ x, c.Has x → ¬ d.Has x

section Bounded

variable {lo hi w x : Nat} {b c : Block} {bs cs : List Block}

/-- What paves a range partitions it. -/
lemma Paves.partitions (h : Paves hi lo bs) : Partitions lo hi bs := by
  refine ⟨fun x => h.cover, h.pairwise.imp ?_⟩
  intro b c hle x hx hx'
  exact absurd (Nat.lt_of_lt_of_le hx.2 hle) (Nat.not_lt.2 hx'.1)

/-- Blocks that cover a range lie in it. -/
lemma inside_of_cover (hcover : ∀ x, (∃ c ∈ cs, c.Has x) ↔ lo ≤ x ∧ x < hi) (hc : c ∈ cs) :
    lo ≤ c.start ∧ c.stop ≤ hi := by
  have hlt := c.start_lt_stop
  have hlast : c.Has (c.stop - 1) := ⟨by omega, by omega⟩
  have h0 := (hcover _).1 ⟨c, hc, c.has_start⟩
  have h1 := (hcover _).1 ⟨c, hc, hlast⟩
  omega

/-- A block that starts in the chosen one ends in it, when it does not begin before. -/
lemma Block.Chosen.stop_le (hb : b.Chosen w hi) (hal : c.Aligned) (hlog : c.log ≤ w)
    (h0 : b.start ≤ c.start) (h1 : c.start < b.stop) (hhi : c.stop ≤ hi) : c.stop ≤ b.stop := by
  have hhas : b.Has c.start := ⟨h0, h1⟩
  rcases Nat.le_total c.log b.log with hle | hle
  · exact (hal.nested hb.aligned hle c.has_start hhas).2
  · -- a larger block would start where the chosen one does
    have hstart := (hb.aligned.nested hal hle hhas c.has_start).1
    have heq : c.start = b.start := Nat.le_antisymm hstart h0
    have hfit : b.start + 2 ^ c.log ≤ hi := by
      rw [← heq]
      exact hhi
    have hdvd : 2 ^ c.log ∣ b.start := by
      rw [← heq]
      exact hal
    exact (hal.nested hb.aligned (hb.largest c.log hlog hdvd hfit) c.has_start hhas).2

/-- No cover by such blocks has fewer of them than the walk that takes the largest each time. -/
lemma Paves.length_le (h : Paves hi lo bs) (hbs : ∀ b ∈ bs, b.Chosen w hi)
    (hcs : ∀ c ∈ cs, c.Aligned ∧ c.log ≤ w)
    (hcover : ∀ x, (∃ c ∈ cs, c.Has x) ↔ lo ≤ x ∧ x < hi) : bs.length ≤ cs.length := by
  induction bs generalizing lo cs with
  | nil => exact Nat.zero_le _
  | cons b bs ih =>
    have hb := hbs b (List.mem_cons_self ..)
    obtain ⟨rfl, h⟩ := h
    have hlt := b.start_lt_stop
    have hle := h.le
    -- every block of the cover ends by the end of the first one or starts behind it
    have hsplit : ∀ c ∈ cs, c.start < b.stop → c.stop ≤ b.stop := by
      intro c hc hc'
      obtain ⟨h0, h1⟩ := inside_of_cover hcover hc
      exact hb.stop_le (hcs c hc).1 (hcs c hc).2 h0 hc' h1
    have hrest : ∀ x, (∃ c ∈ cs.filter fun c => decide (b.stop ≤ c.start), c.Has x) ↔
        b.stop ≤ x ∧ x < hi := by
      intro x
      constructor
      · rintro ⟨c, hc, hx⟩
        obtain ⟨hc, hc'⟩ := List.mem_filter.1 hc
        exact ⟨Nat.le_trans (of_decide_eq_true hc') hx.1, ((hcover x).1 ⟨c, hc, hx⟩).2⟩
      · rintro ⟨h0, h1⟩
        obtain ⟨c, hc, hx⟩ := (hcover x).2 ⟨by omega, h1⟩
        refine ⟨c, List.mem_filter.2 ⟨hc, decide_eq_true ?_⟩, hx⟩
        by_contra hlt'
        have hend := hsplit c hc (Nat.not_le.1 hlt')
        exact absurd (Nat.lt_of_lt_of_le hx.2 hend) (Nat.not_lt.2 h0)
    have hle' := ih h (fun c hc => hbs c (List.mem_cons_of_mem _ hc))
      (fun c hc => hcs c (List.mem_filter.1 hc).1) hrest
    -- the one that holds the first number is not among the rest
    obtain ⟨c, hc, hx⟩ := (hcover b.start).2 ⟨Nat.le_refl _, by omega⟩
    have hfewer : (cs.filter fun c => decide (b.stop ≤ c.start)).length < cs.length := by
      rw [List.length_filter_lt_length_iff_exists]
      refine ⟨c, hc, ?_⟩
      have := hx.1
      rw [decide_eq_true_eq]
      omega
    rw [List.length_cons]
    omega

end Bounded

/-! Few blocks are enough. -/

/-- Aligned blocks of at most `2 ^ w` numbers that follow one another from `lo` to `hi`. -/
structure PavesUpTo (w hi lo : Nat) (bs : List Block) : Prop where
  paves : Paves hi lo bs
  bounded : ∀ b ∈ bs, b.Aligned ∧ b.log ≤ w

section Few

variable {lo hi mid m o w : Nat} {bs cs : List Block}

/-- Two ranges side by side. -/
lemma PavesUpTo.append (h : PavesUpTo w mid lo bs) (h' : PavesUpTo w hi mid cs) :
    PavesUpTo w hi lo (bs ++ cs) := by
  refine ⟨h.paves.append h'.paves, ?_⟩
  intro b hb
  rcases List.mem_append.1 hb with hb | hb
  · exact h.bounded b hb
  · exact h'.bounded b hb

/-- Larger blocks may be used. -/
lemma PavesUpTo.succ (h : PavesUpTo w hi lo bs) : PavesUpTo (w + 1) hi lo bs :=
  ⟨h.paves, fun b hb => ⟨(h.bounded b hb).1, Nat.le_succ_of_le (h.bounded b hb).2⟩⟩

/-- One block. -/
lemma pavesUpTo_singleton (ho : 2 ^ w ∣ o) : PavesUpTo w (o + 2 ^ w) o [⟨o, w⟩] := by
  refine ⟨⟨rfl, rfl⟩, ?_⟩
  intro b hb
  cases List.mem_singleton.1 hb
  exact ⟨ho, Nat.le_refl w⟩

lemma dvd_half (ho : 2 ^ (w + 1) ∣ o) : 2 ^ w ∣ o ∧ 2 ^ w ∣ o + 2 ^ w := by
  have hdvd : 2 ^ w ∣ o := Nat.dvd_trans (Nat.pow_dvd_pow 2 (Nat.le_succ w)) ho
  exact ⟨hdvd, Nat.dvd_add hdvd (Nat.dvd_refl _)⟩

/-- The first numbers of an aligned block. -/
lemma exists_paves_low (ho : 2 ^ w ∣ o) (hm : m < 2 ^ w) :
    ∃ bs, PavesUpTo w (o + m) o bs ∧ bs.length ≤ w := by
  induction w generalizing o m with
  | zero =>
    cases Nat.lt_one_iff.1 hm
    exact ⟨[], ⟨rfl, by simp⟩, Nat.le_refl 0⟩
  | succ w ih =>
    obtain ⟨h0, h1⟩ := dvd_half ho
    rcases Nat.lt_or_ge m (2 ^ w) with hlt | hge
    · obtain ⟨bs, hbs, hlen⟩ := ih h0 hlt
      exact ⟨bs, hbs.succ, by omega⟩
    · obtain ⟨bs, hbs, hlen⟩ := ih h1 (m := m - 2 ^ w) (by omega)
      rw [show o + 2 ^ w + (m - 2 ^ w) = o + m by omega] at hbs
      refine ⟨[⟨o, w⟩] ++ bs, ((pavesUpTo_singleton h0).append hbs).succ, ?_⟩
      rw [List.length_append, List.length_singleton]
      omega

/-- The last numbers of an aligned block. -/
lemma exists_paves_high (ho : 2 ^ w ∣ o) (hm : 0 < m) (hle : m ≤ 2 ^ w) :
    ∃ bs, PavesUpTo w (o + 2 ^ w) (o + m) bs ∧ bs.length ≤ w := by
  induction w generalizing o m with
  | zero =>
    have hone : m = 1 := Nat.le_antisymm hle hm
    subst hone
    exact ⟨[], ⟨rfl, by simp⟩, Nat.le_refl 0⟩
  | succ w ih =>
    obtain ⟨h0, h1⟩ := dvd_half ho
    have hstop : o + 2 ^ (w + 1) = o + 2 ^ w + 2 ^ w := by omega
    rw [hstop]
    rcases Nat.lt_or_ge (2 ^ w) m with hlt | hge
    · obtain ⟨bs, hbs, hlen⟩ := ih h1 (m := m - 2 ^ w) (by omega) (by omega)
      rw [show o + 2 ^ w + (m - 2 ^ w) = o + m by omega] at hbs
      exact ⟨bs, hbs.succ, by omega⟩
    · obtain ⟨bs, hbs, hlen⟩ := ih h0 hm hge
      refine ⟨bs ++ [⟨o + 2 ^ w, w⟩], (hbs.append (pavesUpTo_singleton h1)).succ, ?_⟩
      rw [List.length_append, List.length_singleton]
      omega

/-- The numbers on both sides of the middle: at most one block for each size on each side. -/
lemma exists_paves_middle (ho : 2 ^ (w + 1) ∣ o) (hlo : lo < 2 ^ w) (hmid : 2 ^ w < hi)
    (hhi : hi ≤ 2 ^ (w + 1)) (hw : 0 < w) :
    ∃ bs, PavesUpTo (w + 1) (o + hi) (o + lo) bs ∧ bs.length ≤ w + w := by
  obtain ⟨h0, h1⟩ := dvd_half ho
  have hleft : ∃ bs, PavesUpTo w (o + 2 ^ w) (o + lo) bs ∧ bs.length ≤ w := by
    rcases Nat.eq_zero_or_pos lo with rfl | hpos
    · exact ⟨_, pavesUpTo_singleton h0, hw⟩
    · exact exists_paves_high h0 hpos (Nat.le_of_lt hlo)
  have hright : ∃ bs, PavesUpTo w (o + hi) (o + 2 ^ w) bs ∧ bs.length ≤ w := by
    rcases Nat.lt_or_eq_of_le hhi with hlt | rfl
    · obtain ⟨bs, hbs, hlen⟩ := exists_paves_low h1 (m := hi - 2 ^ w) (by omega)
      rw [show o + 2 ^ w + (hi - 2 ^ w) = o + hi by omega] at hbs
      exact ⟨bs, hbs, hlen⟩
    · have hone := pavesUpTo_singleton h1
      rw [show o + 2 ^ w + 2 ^ w = o + 2 ^ (w + 1) by omega] at hone
      exact ⟨_, hone, hw⟩
  obtain ⟨bs, hbs, hlen⟩ := hleft
  obtain ⟨cs, hcs, hlen'⟩ := hright
  refine ⟨bs ++ cs, (hbs.append hcs).succ, ?_⟩
  rw [List.length_append]
  omega

/-- Any range within an aligned block of `2 ^ w` numbers. -/
lemma exists_paves (ho : 2 ^ w ∣ o) (hlt : lo < hi) (hhi : hi ≤ 2 ^ w) :
    ∃ bs, PavesUpTo w (o + hi) (o + lo) bs ∧ (bs.length ≤ 1 ∨ bs.length + 2 ≤ 2 * w) := by
  induction w generalizing o lo hi with
  | zero =>
    have hlo : lo = 0 := by omega
    have hhi : hi = 2 ^ 0 := by omega
    subst hlo
    subst hhi
    exact ⟨_, pavesUpTo_singleton ho, .inl (Nat.le_refl 1)⟩
  | succ w ih =>
    obtain ⟨h0, h1⟩ := dvd_half ho
    rcases Nat.lt_or_ge (2 ^ w) hi with hmid | hleft
    · rcases Nat.lt_or_ge lo (2 ^ w) with hlo | hright
      · rcases Nat.eq_zero_or_pos w with rfl | hw
        · have hlo : lo = 0 := by omega
          have hhi : hi = 2 ^ (0 + 1) := by omega
          subst hlo
          subst hhi
          exact ⟨_, pavesUpTo_singleton ho, .inl (Nat.le_refl 1)⟩
        · obtain ⟨bs, hbs, hlen⟩ := exists_paves_middle ho hlo hmid hhi hw
          exact ⟨bs, hbs, .inr (by omega)⟩
      · obtain ⟨bs, hbs, hlen⟩ := ih h1 (show lo - 2 ^ w < hi - 2 ^ w by omega) (by omega)
        rw [show o + 2 ^ w + (hi - 2 ^ w) = o + hi by omega,
          show o + 2 ^ w + (lo - 2 ^ w) = o + lo by omega] at hbs
        exact ⟨bs, hbs.succ, by omega⟩
    · obtain ⟨bs, hbs, hlen⟩ := ih h0 hlt hleft
      exact ⟨bs, hbs.succ, by omega⟩

end Few

end CcodeTest.Lib
