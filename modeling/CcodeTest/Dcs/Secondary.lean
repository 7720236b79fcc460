import CcodeTest.Dcs.Options
import CcodeTest.Dcs.Provision
import CcodeTest.Dcs.Scan

/-!
# The secondary channel

At 40 MHz a primary channel in the middle of the band leaves two secondary channels, and
`setPowerOrCh` compares the scores of the two in the interference table of the node. That table is
read by channel number, but `decideOptionalCh` has sorted it in place: what is compared are two
places of the ascending order of all scores.
-/

namespace CcodeTest.Dcs
open CcodeTest.Lib

section Table

variable {lib : RfaLib} {h₀ : Head} {cnt : Nat} {n : Node} {e : Env}

/-- The table of a node on a fixed channel is empty. -/
lemma rfaTable_fixed (hch : n.radioInfo.chP ≠ 0) {c : Nat} (hc : 1 ≤ c ∧ c ≤ 11) :
    (rfaTable lib h₀ cnt n).rfScore c = 0 := by
  have hfold : ∀ (l : List Nat) (r : AcpRfa),
      (l.foldl clearChannel r).rfScore c = if c ∈ l then 0 else r.rfScore c := by
    intro l
    induction l with
    | nil => exact fun _ => rfl
    | cons j js ih =>
      intro r
      rw [List.foldl_cons, ih, clearChannel]
      simp only [Function.update_apply]
      grind
  have hmem : c ∈ List.range' 1 numUsingChannel := by
    rw [numUsingChannel, List.mem_range'_1]
    omega
  rw [rfaTable, if_neg fun hcond => hch hcond.2, hfold, if_pos hmem]

/-- With a positive score in it, the calculation leaves the table sorted. -/
lemma rfaNode_rfa (hpos : ∃ c, 1 ≤ c ∧ c ≤ 11 ∧ 0 < (rfaTable lib h₀ cnt n).rfScore c) :
    (rfaNode lib h₀ cnt true n e).1.rfa = selectionSort (rfaTable lib h₀ cnt n) := by
  obtain ⟨c, h1, h11, hc⟩ := hpos
  have hch : ¬ n.radioInfo.chP ≠ 0 := by
    intro hch
    rw [rfaTable_fixed hch ⟨h1, h11⟩] at hc
    exact absurd hc (Int.lt_irrefl 0)
  have hscored : (rfaTable lib h₀ cnt n).Scored := ⟨c, h1, h11, hc⟩
  unfold rfaNode orderOptions decideOptionalCh
  dsimp only
  rw [if_pos rfl, if_neg hch, sort_scored hscored]

end Table

/-- The secondary channel by the scores `f` of the channels. -/
def secondaryChannel (f : Nat → Int) (p : Nat) : Nat :=
  if p ≤ 4 then p + 4
  else if p ≥ 8 then p - 4
  else if f (p + 4) > f (p - 4) then p - 4
  else p + 4

/-- The code chooses by the table of the node. -/
lemma dynamicChannels_secondary {n : Node} (c : Nat)
    (h40 : n.radioInfo.modeAndBand.is40MAuto = true) :
    (dynamicChannels n c).2 = secondaryChannel n.rfa.rfScore c := by
  unfold dynamicChannels secondaryChannel
  cases hm : n.radioInfo.modeAndBand with
  | ch24G40MAuto | ch5G40MAuto =>
    dsimp only
    split
    · rfl
    · split
      · rfl
      · split <;> rfl
  | _ =>
    rw [hm] at h40
    cases h40

/-- How many of the eleven channels have a score below `x`. -/
def channelsBelow (f : Nat → Int) (x : Int) : Nat :=
  (slice f 1 11).countP fun y => decide (y < x)

/-- How many have one of at most `x`. -/
def channelsUpTo (f : Nat → Int) (x : Int) : Nat :=
  (slice f 1 11).countP fun y => decide (y ≤ x)

/-- By the sorted table the choice is the same when the comparison of the two channels comes out
like that of their places in the order of all scores. -/
lemma secondaryChannel_sorted_iff (t : AcpRfa) (p : Nat) :
    secondaryChannel (selectionSort t).rfScore p = secondaryChannel t.rfScore p ↔
      p ≤ 4 ∨ 8 ≤ p ∨
        (t.rfScore (p - 4) < t.rfScore (p + 4) ↔
          ¬ ∃ x, channelsBelow t.rfScore x < p - 4 ∧ p + 4 ≤ channelsUpTo t.rfScore x) := by
  unfold secondaryChannel
  by_cases h4 : p ≤ 4
  · rw [if_pos h4, if_pos h4]
    exact ⟨fun _ => .inl h4, fun _ => rfl⟩
  · by_cases h8 : p ≥ 8
    · rw [if_neg h4, if_neg h4, if_pos h8, if_pos h8]
      exact ⟨fun _ => .inr (.inl h8), fun _ => rfl⟩
    · have hplace := ascending_lt_iff (a := p - 5) (b := p + 3)
        (fun a b hab hb => selectionSort_ascending t hab hb) (selectionSort_scores t) (by omega)
        (by omega)
      rw [show 1 + (p - 5) = p - 4 by omega, show 1 + (p + 3) = p + 4 by omega] at hplace
      have hcond : (∃ x, channelsBelow t.rfScore x < p - 4 ∧ p + 4 ≤ channelsUpTo t.rfScore x) ↔
          ∃ x, (slice t.rfScore 1 11).countP (fun y => decide (y < x)) ≤ p - 5 ∧
            p + 3 < (slice t.rfScore 1 11).countP (fun y => decide (y ≤ x)) := by
        refine exists_congr fun x => and_congr ?_ Nat.succ_le_iff
        unfold channelsBelow
        omega
      rw [hcond, ← hplace, if_neg h4, if_neg h4, if_neg h8, if_neg h8]
      generalize (selectionSort t).rfScore = g
      by_cases hg : g (p + 4) > g (p - 4)
      · by_cases hf : t.rfScore (p + 4) > t.rfScore (p - 4)
        · rw [if_pos hg, if_pos hf]
          exact ⟨fun _ => .inr (.inr ⟨fun _ => hg, fun _ => hf⟩), fun _ => rfl⟩
        · rw [if_pos hg, if_neg hf]
          refine ⟨fun he => by omega, ?_⟩
          rintro (h | h | h)
          · omega
          · omega
          · exact absurd (h.2 hg) hf
      · by_cases hf : t.rfScore (p + 4) > t.rfScore (p - 4)
        · rw [if_neg hg, if_pos hf]
          refine ⟨fun he => by omega, ?_⟩
          rintro (h | h | h)
          · omega
          · omega
          · exact absurd (h.1 hf) hg
        · rw [if_neg hg, if_neg hf]
          exact ⟨fun _ => .inr (.inr ⟨fun h => absurd h hf, fun h => absurd h hg⟩), fun _ => rfl⟩

/-- The secondary channel that is written for an access point at 40 MHz is the one the scores of
the calculation ask for exactly when the primary channel leaves no choice, or when the comparison of
the two channels comes out like that of the places `p - 4` and `p + 4` in the order of all scores,
where it comes out equal only for a score that takes all places from one to the other. -/
theorem setAllChannels_secondary_iff (lib : RfaLib) (h₀ h : Head) (cnt : Nat) (n : Node) (e : Env)
    (peers : List Peer) (i : Nat)
    (_hround : h₀.roundOfCalc = 0)
    (hpos : ∃ c, 1 ≤ c ∧ c ≤ 11 ∧ 0 < (rfaTable lib h₀ cnt n).rfScore c)
    (h40 : n.radioInfo.modeAndBand.is40MAuto = true)
    (hrfa : (h.node i).rfa = (rfaNode lib h₀ cnt true n e).1.rfa)
    (hradio : (h.node i).radioInfo = n.radioInfo)
    (hs : 0 < h.colorScheme.schemeCnt) (hnd : (h.slList.map (·.bssid)).Nodup) (hi : i < h.count)
    (hfound : ∀ j ≤ i, Wanted h.vertexColor j (h.node j) → (h.peer peers j).isSome = true)
    (hw : Wanted h.vertexColor i (h.node i)) :
    let f := (rfaTable lib h₀ cnt n).rfScore
    let p := h.vertexColor i
    (h.peer (setAllChannels h peers).1 i).map (·.dynamicChAssign) = some (p, secondaryChannel f p) ↔
      p ≤ 4 ∨ 8 ≤ p ∨
        (f (p - 4) < f (p + 4) ↔ ¬ ∃ x, channelsBelow f x < p - 4 ∧ p + 4 ≤ channelsUpTo f x) := by
  intro f p
  obtain ⟨q, hq⟩ := Option.isSome_iff_exists.1 (hfound i (Nat.le_refl i) hw)
  have hst := (setAllChannels_stored hs hnd hi hw hq fun j hj => hfound j (by omega)).1
  have h40' : (h.node i).radioInfo.modeAndBand.is40MAuto = true := by rw [hradio, h40]
  have hauto := ChannelState.isAuto_of_is40MAuto h40'
  have hpair : dynamicChannels (h.node i) p =
      (p, secondaryChannel (selectionSort (rfaTable lib h₀ cnt n)).rfScore p) := by
    refine Prod.ext (dynamicChannels_primary p hauto) ?_
    rw [dynamicChannels_secondary p h40', hrfa, rfaNode_rfa hpos]
  rw [hst, Option.map_some, hpair, Option.some.injEq, Prod.mk.injEq,
    ← secondaryChannel_sorted_iff]
  exact and_iff_right rfl

/-- An access point at 40 MHz. -/
def Node.wideSample (x : UInt8) : Node :=
  { Node.sample x with radioInfo := ⟨.ch24G40MAuto, .nMixed24, .auto, 0, 0⟩ }

/-- Its scan has found one foreign access point, of strength 50 on channel 1. -/
def Head.scanned : Head :=
  { Head.init with
    slList := [Node.wideSample 1]
    findFlag := fun _ => true
    isNeedDoRfa := true
    rfEvaluate := ⟨fun _ => 50, fun _ => 2412⟩ }

/-- After the calculation it gets the channel `c`. -/
def Head.assigned (c : Nat) : Head :=
  { Head.scanned with
    slList := [(rfaNode Platform.sample.toRfaLib Head.scanned 1 true (Node.wideSample 1) .sample).1]
    colorScheme := ⟨⟨some 1, fun _ => c⟩, 1, 1⟩ }

/-- The same with the foreign access point on channel 11. -/
def Head.scannedHigh : Head := { Head.scanned with rfEvaluate := ⟨fun _ => 50, fun _ => 2462⟩ }

/-- It gets channel 6. -/
def Head.assignedHigh : Head :=
  { Head.scannedHigh with
    slList :=
      [(rfaNode Platform.sample.toRfaLib Head.scannedHigh 1 true (Node.wideSample 1) .sample).1]
    colorScheme := ⟨⟨some 1, fun _ => 6⟩, 1, 1⟩ }

/-- The foreign access point is heard on channel 10 and not on channel 2, and channel 2 is taken. -/
theorem setAllChannels_secondary_iff_high :
    (Head.assignedHigh.peer (setAllChannels Head.assignedHigh [Peer.sample 1]).1 0).map
      (·.dynamicChAssign) = some (6, 2) :=
  (setAllChannels_secondary_iff Platform.sample.toRfaLib Head.scannedHigh Head.assignedHigh 1
    (Node.wideSample 1) .sample [Peer.sample 1] 0 rfl ⟨10, by decide, by decide, by decide⟩ rfl rfl
    rfl (by decide) (by decide) (by decide) (by decide) (by decide)).2
    ((secondaryChannel_sorted_iff _ 6).1 (by decide +kernel))

/-- With channel 6 the foreign access point is heard on channel 2 and not on channel 10, but channel
2 is taken. -/
theorem setAllChannels_secondary_wrong :
    (∃ c, 1 ≤ c ∧ c ≤ 11 ∧
        0 < (rfaTable Platform.sample.toRfaLib Head.scanned 1 (Node.wideSample 1)).rfScore c) ∧
      (Node.wideSample 1).radioInfo.modeAndBand.is40MAuto = true ∧
      (rfaTable Platform.sample.toRfaLib Head.scanned 1 (Node.wideSample 1)).rfScore 2 = 25 ∧
      (rfaTable Platform.sample.toRfaLib Head.scanned 1 (Node.wideSample 1)).rfScore 10 = 0 ∧
      secondaryChannel
        (rfaTable Platform.sample.toRfaLib Head.scanned 1 (Node.wideSample 1)).rfScore 6 = 10 ∧
      ((Head.assigned 6).peer (setAllChannels (Head.assigned 6) [Peer.sample 1]).1 0).map
        (·.dynamicChAssign) = some (6, 2) := by
  refine ⟨⟨1, by decide, by decide, by decide⟩, rfl, by decide, by decide, by decide, ?_⟩
  decide +kernel

end CcodeTest.Dcs
