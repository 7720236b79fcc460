import Mathlib.Algebra.GroupWithZero.Nat
import CcodeTest.Dcs.Options
import CcodeTest.Dcs.Assign

/-!
# The interference of the access points already assigned

`doRfa` takes "the effection of APs assigned dynamic Channels into account": to the score of a channel
it adds what every earlier access point with a colour at most four channels away is heard with. A
colour need not be a channel. An access point on a fixed channel has the colour 0 and counts as if it
were on a channel below the first; `doRfa_interference_iff` says when that does not show.
-/

namespace CcodeTest.Dcs
open CcodeTest.Lib

/-- A colour that is a channel, and neither 0 nor `0xff`. -/
def isAssigned (color : Nat) : Bool := decide (1 ≤ color) && decide (color ≤ numUsingChannel)

/-- What the access point at position `u` is heard with on channel `c`. -/
def interferenceFrom (lib : RfaLib) (rssiRow color : Nat → Nat) (c u : Nat) : Nat :=
  if ((color u : Int) - c).natAbs ≤ 4 then rssiRow u / lib.getInterferenceCoefChan c (color u) else 0

/-- The interference on channel `c` of the positions before `v` that have been assigned a channel. -/
def assignedInterference (lib : RfaLib) (rssiRow color : Nat → Nat) (v c : Nat) : Nat :=
  (((List.range v).filter fun u => isAssigned (color u)).map
    (interferenceFrom lib rssiRow color c)).sum

/-- That of the positions that have not. -/
def unassignedInterference (lib : RfaLib) (rssiRow color : Nat → Nat) (v c : Nat) : Nat :=
  (((List.range v).filter fun u => !isAssigned (color u)).map
    (interferenceFrom lib rssiRow color c)).sum

section Sum

variable {lib : RfaLib} {rssiRow color : Nat → Nat} {v c : Nat}

lemma unassignedInterference_eq_zero :
    unassignedInterference lib rssiRow color v c = 0 ↔
      ∀ u < v, isAssigned (color u) = false → interferenceFrom lib rssiRow color c u = 0 := by
  simp only [unassignedInterference, List.sum_eq_zero_iff_forall_eq_nat, List.mem_map,
    List.mem_filter, List.mem_range, Bool.not_eq_true', forall_exists_index, and_imp]
  constructor
  · intro h u hu hcolor
    exact h _ u hu hcolor rfl
  · rintro h _ u hu hcolor rfl
    exact h u hu hcolor

/-- Each position counts on one side. -/
lemma interference_succ :
    assignedInterference lib rssiRow color (v + 1) c +
        unassignedInterference lib rssiRow color (v + 1) c =
      assignedInterference lib rssiRow color v c +
        unassignedInterference lib rssiRow color v c + interferenceFrom lib rssiRow color c v := by
  unfold assignedInterference unassignedInterference
  simp only [List.range_succ, List.filter_append, List.map_append, List.sum_append]
  cases h : isAssigned (color v) with
  | true =>
    simp [h]
    omega
  | false =>
    simp [h]
    omega

end Sum

section Table

variable {lib : RfaLib} {rssiRow color : Nat → Nat} {r : AcpRfa} {M : Int} {v i : Nat}

/-- One pass of the loop, for one row of the table. -/
lemma addAssigned_rfScore (hadd : ∀ (a : Int) (b : Nat), 0 ≤ a → a ≤ M →
      lib.overflowCheckAdd a b = min (a + b) M)
    (hi : 1 ≤ i ∧ i ≤ 11) (h0 : 0 ≤ r.rfScore i) (hM : r.rfScore i ≤ M) (u : Nat) :
    (addAssigned lib rssiRow color r u).rfScore i =
      min (r.rfScore i + interferenceFrom lib rssiRow color (r.rfaCh i) u) M := by
  unfold addAssigned interferenceFrom
  dsimp only
  by_cases hnear : ((color u : Int) - r.rfaCh i).natAbs ≤ 4
  · rw [if_pos ⟨hi.1, hi.2, hnear⟩, if_pos hnear, hadd _ _ h0 hM]
  · rw [if_neg fun h => hnear h.2.2, if_neg hnear]
    omega

/-- The loop, for one row of the table: the colours are all taken for channels. -/
lemma foldl_addAssigned_rfScore (hadd : ∀ (a : Int) (b : Nat), 0 ≤ a → a ≤ M →
      lib.overflowCheckAdd a b = min (a + b) M)
    (hi : 1 ≤ i ∧ i ≤ 11) (h0 : 0 ≤ r.rfScore i) (hM : r.rfScore i ≤ M) (v : Nat) :
    ((List.range v).foldl (addAssigned lib rssiRow color) r).rfScore i =
      min (r.rfScore i + (assignedInterference lib rssiRow color v (r.rfaCh i) +
        unassignedInterference lib rssiRow color v (r.rfaCh i) : Nat)) M := by
  induction v with
  | zero =>
    simp [assignedInterference, unassignedInterference]
    omega
  | succ v ih =>
    rw [interference_succ, List.range_succ, List.foldl_append, List.foldl_cons, List.foldl_nil,
      addAssigned_rfScore hadd hi (by omega) (by omega), foldl_addAssigned_rfaCh, ih]
    omega

end Table

section Call

variable {lib : RfaLib} {rssi : Nat → Nat → Nat} {color : Nat → Nat} {n : Node} {e : Env} {M : Int}
  {v c : Nat}

/-- For an access point without a fixed channel, behind the first position. -/
lemma doRfa_auto (hv : 0 < v) (hauto : n.radioInfo.chP = 0) : doRfa lib rssi color n v e =
    decideOptionalChWith n ((List.range v).foldl (addAssigned lib (rssi v) color) n.rfa) e := by
  rw [doRfa, if_neg (Nat.ne_of_gt hv), if_neg (not_not.2 hauto)]

/-- The score that `doRfa` gives a channel. -/
lemma doRfa_scoreOf (hadd : ∀ (a : Int) (b : Nat), 0 ≤ a → a ≤ M →
      lib.overflowCheckAdd a b = min (a + b) M)
    (hscore : ∀ i, 1 ≤ i → i ≤ 11 → 0 ≤ n.rfa.rfScore i ∧ n.rfa.rfScore i ≤ M)
    (hv : 0 < v) (hauto : n.radioInfo.chP = 0) (hr : n.rfa.Listed) (hc : 1 ≤ c ∧ c ≤ 11) :
    (doRfa lib rssi color n v e).2.1.scoreOf c =
      min (n.rfa.scoreOf c + (assignedInterference lib (rssi v) color v c +
        unassignedInterference lib (rssi v) color v c : Nat)) M := by
  have hch := @foldl_addAssigned_rfaCh lib (rssi v) color (List.range v) n.rfa
  have hlisted : ((List.range v).foldl (addAssigned lib (rssi v) color) n.rfa).Listed := by
    rw [AcpRfa.Listed, hch]
    exact hr
  obtain ⟨i, hi, rfl⟩ := exists_row hr hc
  have hrow := scoreOf_row hlisted hi
  rw [hch] at hrow
  rw [doRfa_auto hv hauto, decideOptionalChWith, scoreOf_perm hlisted (sort_pairs ..), hrow,
    scoreOf_row hr hi]
  exact foldl_addAssigned_rfScore hadd hi (hscore i hi.1 hi.2).1 (hscore i hi.1 hi.2).2 v

end Call

/-- For every access point without a fixed channel behind the first position, whose table lists each
channel once, and every colouring: the table that `doRfa` makes has for each channel the score of the
node's table and the interference of the positions with an assigned channel, up to the limit of the
addition, exactly when on each channel the limit is reached already or no position without an assigned
channel is heard. The table of the node stays as it is. -/
theorem doRfa_interference_iff (lib : RfaLib) (M : Int)
    (hadd : ∀ (a : Int) (b : Nat), 0 ≤ a → a ≤ M → lib.overflowCheckAdd a b = min (a + b) M)
    (rssi : Nat → Nat → Nat) (color : Nat → Nat) (n : Node) (v : Nat) (e : Env)
    (hscore : ∀ i, 1 ≤ i → i ≤ 11 → 0 ≤ n.rfa.rfScore i ∧ n.rfa.rfScore i ≤ M)
    (hv : 0 < v) (hauto : n.radioInfo.chP = 0) (hr : n.rfa.Listed) :
    ((doRfa lib rssi color n v e).1.rfa = n.rfa ∧
      ∀ c, 1 ≤ c ∧ c ≤ 11 → (doRfa lib rssi color n v e).2.1.scoreOf c =
        min (n.rfa.scoreOf c + assignedInterference lib (rssi v) color v c) M) ↔
      ∀ c, 1 ≤ c ∧ c ≤ 11 →
        M ≤ n.rfa.scoreOf c + assignedInterference lib (rssi v) color v c ∨
          ∀ u < v, isAssigned (color u) = false →
            interferenceFrom lib (rssi v) color c u = 0 := by
  have hrfa : (doRfa lib rssi color n v e).1.rfa = n.rfa := by
    rw [doRfa_auto hv hauto]
    rfl
  rw [and_iff_right hrfa]
  refine forall_congr' fun c => forall_congr' fun hc => ?_
  rw [doRfa_scoreOf hadd hscore hv hauto hr hc, ← unassignedInterference_eq_zero]
  omega

/-- Behind an access point on channel 6 that is heard with 50. -/
theorem doRfa_interference_iff_six :
    (doRfa Platform.sample.toRfaLib (fun _ _ => 50) (fun _ => 6) (Node.sample 1) 1
        .sample).2.1.scoreOf 5 =
      min ((Node.sample 1).rfa.scoreOf 5 +
        assignedInterference Platform.sample.toRfaLib (fun _ => 50) (fun _ => 6) 1 5) (2 ^ 31 - 1) ∧
      assignedInterference Platform.sample.toRfaLib (fun _ => 50) (fun _ => 6) 1 5 = 25 := by
  have hM : (0 : Int) ≤ 2 ^ 31 - 1 := by decide
  refine ⟨((doRfa_interference_iff Platform.sample.toRfaLib (2 ^ 31 - 1) (fun _ _ _ _ => rfl)
    (fun _ _ => 50) (fun _ => 6) (Node.sample 1) 1 .sample (fun _ _ _ => ⟨Int.le_refl 0, hM⟩)
    (by decide) rfl (by decide)).2 ?_).2 5 (by decide), by decide⟩
  intro c _
  exact .inr fun u _ h => absurd h (by decide)

/-- Behind an access point on a fixed channel, which has the colour 0: channel 1 is charged with half
of what it is heard with. -/
theorem doRfa_interference_fixed :
    (doRfa Platform.sample.toRfaLib (fun _ _ => 50) (fun _ => 0) (Node.sample 1) 1
        .sample).2.1.scoreOf 1 = 25 ∧
      isAssigned 0 = false ∧
      min ((Node.sample 1).rfa.scoreOf 1 +
        assignedInterference Platform.sample.toRfaLib (fun _ => 50) (fun _ => 0) 1 1)
        (2 ^ 31 - 1) = 0 := by
  refine ⟨?_, by decide, by decide⟩
  decide +kernel

end CcodeTest.Dcs
