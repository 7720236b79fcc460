import CcodeTest.Dcs.Sort

/-!
# What a scan result is used for

When the result of a scan has come back, its entries about managed access points go into the row of
the scanning one in the RSSI matrix, and all others, together with managed ones on a fixed channel,
are marked for the interference table (`traverseResults`). The table is then filled and the optional
channels are ordered by it (`rfaPart`).
-/

namespace CcodeTest.Dcs
open CcodeTest.Lib

/-- `frequency24G`. -/
def frequency24G (ch : Nat) : Nat :=
  [0, 2412, 2417, 2422, 2427, 2432, 2437, 2442, 2447, 2452, 2457, 2462, 2467, 2472, 2477,
    2484].getD ch 0

/-- `memcmp( a, b, 5 ) == 0`. -/
def Mac.sameSp (a b : Mac) : Bool :=
  a.b0 == b.b0 && a.b1 == b.b1 && a.b2 == b.b2 && a.b3 == b.b3 && a.b4 == b.b4

/-- What is stored for a signal strength of a managed access point. From the second round on the
mean is taken with the entry of the adjacency matrix. -/
def storedRssi (h : Head) (row col rssi : Nat) : Nat :=
  if h.roundOfCalc = 0 then rssi
  else if abs32 ((rssi : Int) - h.rssi row col) < rssiAcceptableInterval then
    (rssi + h.pAdjacentMatrix.cell row col) / 2
  else if h.rssi row col > rssi then h.rssi row col else rssi

/-- Store the entry and whether it counts for the interference table: only when the access point's
channel is fixed. -/
def recordManaged (h : Head) (row col m : Nat) (r : ScanResult) : Head :=
  { h with
    pRSSIMatrix :=
      { h.pRSSIMatrix with
        cell := setCell h.pRSSIMatrix.cell row col (storedRssi h row col r.rssi) }
    findFlag := Function.update h.findFlag m ((h.pAPFixedCh.cell col).1 != 0) }

/-- The inner loop over the scan results, numbered, for the node at column `col`. An entry of the
same access point ends it when the virtual access points are not known. -/
def traverseNode (row col : Nat) (n : Node) : List (ScanResult × Nat) → Head → Head
  | [], h => h
  | (r, m) :: rs, h =>
    let h :=
      { h with
        rfEvaluate :=
          ⟨Function.update h.rfEvaluate.scanResultRSSI m r.rssi,
            Function.update h.rfEvaluate.chanFreq m (r.channel % 65536)⟩ }
    if n.bssid.sameSp r.bssid then
      let h := if n.bssid.b5 = r.bssid.b5 then recordManaged h row col m r else h
      if n.vapResolved then
        -- the difference of two bytes is an `int` and may be negative
        if (r.bssid.b5.toNat : Int) - n.bssid.b5.toNat ≤ maxNumVap - 1 then
          traverseNode row col n rs { h with findFlag := Function.update h.findFlag m false }
        else traverseNode row col n rs h
      else h
    else traverseNode row col n rs h

/-- The loop over the nodes, from column `col` on. -/
def traverseNodes (row : Nat) (results : List (ScanResult × Nat)) : List Node → Nat → Head → Head
  | [], _, h => h
  | n :: ns, col, h => traverseNodes row results ns (col + 1) (traverseNode row col n results h)

/-- The traversal of the scan results of the node at `row`. -/
def traverseResults (h : Head) (row : Nat) (results : List ScanResult) : Head :=
  traverseNodes row results.zipIdx h.slList 0 { h with findFlag := fun _ => true }

/-- What one marked entry adds to the score at position `i` of the table. -/
def addInterference (lib : RfaLib) (h : Head) (r : AcpRfa) (i m : Nat) : AcpRfa :=
  let freq := frequency24G (r.rfaCh i)
  let chan := h.rfEvaluate.chanFreq m
  if h.findFlag m ∧ ((chan : Int) - freq).natAbs ≤ 20 then
    { r with
      rfScore := Function.update r.rfScore i (lib.overflowCheckAdd (r.rfScore i)
        (h.rfEvaluate.scanResultRSSI m / lib.getInterferenceCoefFreq freq chan)) }
  else r

/-- The turn of the interference loop for position `i`. -/
def rfaChannel (lib : RfaLib) (h : Head) (scanGCount : Nat) (r : AcpRfa) (i : Nat) : AcpRfa :=
  let r :=
    if h.roundOfCalc = 0 then
      ⟨Function.update r.rfScore i 0, Function.update r.rfaCh i i⟩
    else r
  (List.range scanGCount).foldl (fun r m => addInterference lib h r i m) r

/-- The table without interference. -/
def clearChannel (r : AcpRfa) (i : Nat) : AcpRfa :=
  ⟨Function.update r.rfScore i 0, Function.update r.rfaCh i i⟩

/-- The interference table of the node; it is filled only when there is something to count and the
node's channel is not fixed. -/
def rfaTable (lib : RfaLib) (h : Head) (scanGCount : Nat) (n : Node) : AcpRfa :=
  if h.isNeedDoRfa ∧ n.radioInfo.chP = 0 then
    (List.range' 1 11).foldl (rfaChannel lib h scanGCount) n.rfa
  else (List.range' 1 numUsingChannel).foldl clearChannel n.rfa

/-- `(scanCnt-1) == headDCA.roundOfCalc`: in the last round the options are ordered. -/
def orderOptions (lastRound : Bool) (n : Node) (e : Env) : Node × Env :=
  if lastRound then
    if n.radioInfo.chP ≠ 0 then ({ n with optionalCh := fun _ => 0 }, e) else decideOptionalCh n e
  else (n, e)

/-- `isNeedDoRfa`: one of the results is marked. -/
def needDoRfa (h : Head) (scanGCount : Nat) : Bool := (List.range scanGCount).any h.findFlag

/-- The part of the node loop after the scan: interference table and option list. -/
def rfaNode (lib : RfaLib) (h : Head) (scanGCount : Nat) (lastRound : Bool) (n : Node) (e : Env) :
    Node × Env :=
  orderOptions lastRound { n with rfa := rfaTable lib h scanGCount n } e

section Frame

/-- The results of a node change RSSI values, flags and what is counted, nothing else. -/
lemma traverseNode_frame (row col : Nat) (n : Node) (rs : List (ScanResult × Nat)) (h : Head) :
    ∃ cell flag rf, traverseNode row col n rs h =
      { h with
        pRSSIMatrix := { h.pRSSIMatrix with cell := cell }, findFlag := flag, rfEvaluate := rf } := by
  induction rs generalizing h with
  | nil => exact ⟨_, _, _, rfl⟩
  | cons r rs ih =>
    obtain ⟨r, m⟩ := r
    unfold traverseNode
    dsimp only
    split
    · by_cases hb : n.bssid.b5 = r.bssid.b5
      · rw [if_pos hb]
        split
        · split
          · exact ih _
          · exact ih _
        · exact ⟨_, _, _, rfl⟩
      · rw [if_neg hb]
        split
        · split
          · exact ih _
          · exact ih _
        · exact ⟨_, _, _, rfl⟩
    · exact ih _

/-- So do those of all nodes. -/
lemma traverseResults_frame (h : Head) (row : Nat) (rs : List ScanResult) :
    ∃ cell flag rf, traverseResults h row rs =
      { h with
        pRSSIMatrix := { h.pRSSIMatrix with cell := cell }, findFlag := flag, rfEvaluate := rf } := by
  have hnodes : ∀ (ns : List Node) (col : Nat) (h : Head), ∃ cell flag rf,
      traverseNodes row rs.zipIdx ns col h =
        { h with
          pRSSIMatrix := { h.pRSSIMatrix with cell := cell }, findFlag := flag
          rfEvaluate := rf } := by
    intro ns
    induction ns with
    | nil => exact fun _ _ => ⟨_, _, _, rfl⟩
    | cons n ns ih =>
      intro col h
      obtain ⟨cell, flag, rf, hn⟩ := traverseNode_frame row col n rs.zipIdx h
      rw [traverseNodes, hn]
      exact ih _ _
  exact hnodes h.slList 0 _

end Frame

section Listed

variable {lib : RfaLib} {h : Head}

/-- A turn sets the channel at its own position, in the first round. -/
lemma rfaChannel_rfaCh (h0 : h.roundOfCalc = 0) (cnt : Nat) (r : AcpRfa) (i : Nat) :
    (rfaChannel lib h cnt r i).rfaCh = Function.update r.rfaCh i i := by
  have hfold : ∀ (l : List Nat) (r : AcpRfa),
      (l.foldl (fun r m => addInterference lib h r i m) r).rfaCh = r.rfaCh := by
    intro l
    induction l with
    | nil => exact fun _ => rfl
    | cons m ms ih =>
      intro r
      rw [List.foldl_cons, ih]
      unfold addInterference
      dsimp only
      split <;> rfl
  rw [rfaChannel, if_pos h0, hfold]

/-- Setting the channel of each position lists the channels. -/
lemma slice_setChannels {f : AcpRfa → Nat → AcpRfa}
    (hf : ∀ r i, (f r i).rfaCh = Function.update r.rfaCh i i) (r : AcpRfa) :
    ((List.range' 1 11).foldl f r).Listed := by
  have hfold : ∀ (l : List Nat) (r : AcpRfa) (i : Nat),
      (l.foldl f r).rfaCh i = if i ∈ l then i else r.rfaCh i := by
    intro l
    induction l with
    | nil => exact fun _ _ => rfl
    | cons j js ih =>
      intro r i
      rw [List.foldl_cons, ih, hf, Function.update_apply]
      grind
  have hs : slice ((List.range' 1 11).foldl f r).rfaCh 1 11 = List.range' 1 11 := by
    unfold slice
    refine (List.map_congr_left (g := id) ?_).trans (List.map_id _)
    intro i hi
    rw [hfold, if_pos hi]
    rfl
  rw [AcpRfa.Listed, hs]

/-- In the first round the table lists each channel once. -/
lemma rfaTable_listed (h0 : h.roundOfCalc = 0) (cnt : Nat) (n : Node) :
    (rfaTable lib h cnt n).Listed := by
  unfold rfaTable
  split
  · exact slice_setChannels (fun r i => rfaChannel_rfaCh h0 cnt r i) n.rfa
  · exact slice_setChannels (fun _ _ => rfl) n.rfa

end Listed

end CcodeTest.Dcs
