import CcodeTest.Lib.Store
import CcodeTest.Dcs.Types

/-!
# Exchange with the peer list

What a calculation reads from the SDP peer list and writes back to it: the radio configuration of
every access point at its start (`getChNFromPeerList`, `updateSPRelatedInfo`), the transmit power
before it and the channels after it (`setPowerOrCh` for all access points), and the memory for the
colour scheme that these use.
-/

namespace CcodeTest.Dcs
open CcodeTest.Lib

/-! Memory of the colour scheme. -/

/-- `freeColorScheme`; `SWFREE` leaves NULL in the pointer. -/
def freeColorScheme (h : Head) : Head :=
  let h := h.protect
  Head.release
    { h with
      colorScheme :=
        { h.colorScheme with
          pVertexColor := { h.colorScheme.pVertexColor with alloc := none }
          numOfVertex := 0 }
      pAPFixedCh := { h.pAPFixedCh with alloc := none } }

/-- The allocations of `setupColorScheme`, after the old memory is freed. A failed row of
`pAPFixedCh` leaves the row loop only and is no error. -/
def allocColorScheme (h : Head) (e : Env) : Head × Bool × Env :=
  let h :=
    { h with colorScheme := { h.colorScheme with numOfVertex := h.count, schemeCnt := 0 } }
  let v := e.nextMalloc
  if v.1 then
    let h :=
      { h with
        colorScheme := { h.colorScheme with pVertexColor := ⟨some h.count, fun _ => 0⟩ } }
    let f := v.2.nextMalloc
    if f.1 then
      let rows := f.2.mallocMany h.count
      ({ h with pAPFixedCh := ⟨some rows.1, fun _ => (0, 0)⟩ }, true, rows.2)
    else (h, false, f.2)
  else (h, false, v.2)

/-- `setupColorScheme`; `true` is `SW_ERR_SUCCESS`. -/
def setupColorScheme (h : Head) (e : Env) : Head × Bool × Env :=
  let h := h.protect
  if h.count = 0 then (h.release, false, e)
  else if h.colorScheme.numOfVertex < h.count then
    let r := allocColorScheme (freeColorScheme h) e
    (r.1.release, r.2.1, r.2.2)
  else (h.release, true, e)

/-- `freeColorScheme` changes the colour scheme only. -/
lemma freeColorScheme_frame (h : Head) :
    freeColorScheme h =
      { h with
        colorScheme :=
          { h.colorScheme with
            pVertexColor := { h.colorScheme.pVertexColor with alloc := none }
            numOfVertex := 0 }
        pAPFixedCh := { h.pAPFixedCh with alloc := none } } :=
  Head.release_eq h.semMutex _ rfl

/-- `setupColorScheme` changes the colour scheme and the fixed channels only. -/
lemma setupColorScheme_frame (h : Head) (e : Env) : ∃ cs fc,
    (setupColorScheme h e).1 = { h with colorScheme := cs, pAPFixedCh := fc } := by
  unfold setupColorScheme allocColorScheme
  simp only [freeColorScheme_frame]
  split
  · exact ⟨_, _, Head.release_eq h.semMutex _ rfl⟩
  · split
    · split
      · split
        · exact ⟨_, _, Head.release_eq h.semMutex _ rfl⟩
        · exact ⟨_, _, Head.release_eq h.semMutex _ rfl⟩
      · exact ⟨_, _, Head.release_eq h.semMutex _ rfl⟩
    · exact ⟨_, _, Head.release_eq h.semMutex _ rfl⟩

/-! Reading the configuration. -/

/-- A 20 MHz radio: the channel is fixed when it is set, else left to the assignment. -/
def RadioInfo.standard (r : RadioInfo) (ch : Nat) (fixed auto : ChannelState) : RadioInfo :=
  { r with chP := ch, chS := 0, modeAndBand := if ch > 0 then fixed else auto }

/-- A 40 MHz radio with a primary and a secondary channel. -/
def RadioInfo.wide (r : RadioInfo) (primary secondary : Nat) (fixed auto : ChannelState) :
    RadioInfo :=
  { r with
    chP := primary
    chS := secondary
    modeAndBand := if primary = 0 then auto else fixed }

/-- A radio whose band is chosen for it. -/
def RadioInfo.bandAuto (r : RadioInfo) (auto : ChannelState) : RadioInfo :=
  { r with chP := 0, chS := 0, modeAndBand := auto }

/-- `getChNFromPeerList` for radio unit 1. A mode or band without a branch keeps the channel and
its state as they were. -/
def getChNFromPeerList (cfg : RadioCfg) (r : RadioInfo) : RadioInfo :=
  let r := { r with radioMode := cfg.mainRadioMode, radioBand := cfg.nRadioBand }
  match cfg.mainRadioMode with
  | .gOnly24 => r.standard cfg.gChannel .ch24G20MFixed .ch24G20MAuto
  | .aOnly50 => r.standard cfg.aChannel .ch5G20MFixed .ch5G20MAuto
  | .nOnly24 | .nMixed24 =>
    match cfg.nRadioBand with
    | .auto => r.bandAuto .ch24G40MAuto
    | .standard => r.standard cfg.n24StandardChannel .ch24G20MFixed .ch24G20MAuto
    | .wide => r.wide cfg.n24Primary cfg.n24Secondary .ch24G40MFixed .ch24G40MAuto
    | .other => r
  | .nOnly50 | .nMixed50 =>
    match cfg.nRadioBand with
    | .auto => r.bandAuto .ch5G40MAuto
    | .standard => r.standard cfg.n50StandardChannel .ch5G20MFixed .ch5G20MAuto
    | .wide => r.wide cfg.n50Primary cfg.n50Secondary .ch5G40MFixed .ch5G40MAuto
    | .other => r
  | .other => r

/-- What `updateSPRelatedInfo` copies from the peer into its node. -/
def Node.update (n : Node) (p : Peer) : Node :=
  { n with
    vapResolved := p.vapResolved
    nEnableDCA := p.nRadio.nEnableACP
    spsWorkState := p.spsWorkState
    radioInfo := getChNFromPeerList p.nRadio n.radioInfo }

/-- The peer of the node at a position. -/
def Head.peer (h : Head) (peers : List Peer) (i : Nat) : Option Peer :=
  searchPeer peers (bssidToId (h.node i).bssid)

/-- Change the node at a position. -/
def Head.modifyNode (h : Head) (i : Nat) (f : Node → Node) : Head :=
  { h with slList := h.slList.modify i f }

/-- A field of the nodes that a change of one node keeps. -/
lemma node_modifyNode {α : Sort*} (proj : Node → α) {f : Node → Node}
    (hf : ∀ n, proj (f n) = proj n) (h : Head) (i j : Nat) :
    proj ((h.modifyNode i f).node j) = proj (h.node j) := by
  simp only [Head.node, Head.modifyNode, List.getD_eq_getElem?_getD, List.getElem?_modify]
  cases h.slList[j]? with
  | none => rfl
  | some n =>
    by_cases hij : i = j
    · simp [hij, hf]
    · simp [hij]

/-- The node that is changed. -/
lemma node_modifyNode_self {h : Head} {i : Nat} (f : Node → Node) (hi : i < h.count) :
    (h.modifyNode i f).node i = f (h.node i) := by
  have hs : h.slList[i]? = some (h.slList.get ⟨i, hi⟩) := List.getElem?_eq_getElem hi
  simp [Head.node, Head.modifyNode, List.getD_eq_getElem?_getD, hs]

/-- The others stay. -/
lemma node_modifyNode_ne {h : Head} {i j : Nat} (f : Node → Node) (hij : i ≠ j) :
    (h.modifyNode i f).node j = h.node j := by
  simp [Head.node, Head.modifyNode, List.getD_eq_getElem?_getD, hij]

/-- A change of a node keeps the number of nodes. -/
@[simp]
lemma count_modifyNode (h : Head) (i : Nat) (f : Node → Node) :
    (h.modifyNode i f).count = h.count :=
  List.length_modify ..

/-- One turn of the loop of `updateSPRelatedInfo`, for a node whose peer was found. -/
def updateSPRelatedNode (h : Head) (i : Nat) (p : Peer) : Head :=
  let h := h.modifyNode i (·.update p)
  let r := (h.node i).radioInfo
  { h with
    pAPFixedCh := { h.pAPFixedCh with cell := Function.update h.pAPFixedCh.cell i (r.chP, r.chS) } }

/-- The configuration is one that `getChNFromPeerList` has a branch for. -/
def RadioCfg.recognised (cfg : RadioCfg) : Bool :=
  match cfg.mainRadioMode with
  | .gOnly24 | .aOnly50 => true
  | .nOnly24 | .nMixed24 | .nOnly50 | .nMixed50 => cfg.nRadioBand != .other
  | .other => false

/-- The state of the channel says that it is not fixed only when none is set. -/
def RadioInfo.Consistent (r : RadioInfo) : Prop := r.modeAndBand.isAuto = true → r.chP = 0

instance (r : RadioInfo) : Decidable r.Consistent := inferInstanceAs (Decidable (_ → _))

section Consistent

variable {r : RadioInfo} {fixed auto : ChannelState}

/-- Setting a channel without a secondary one leaves a consistent radio. -/
lemma consistent_standard (h : fixed.isAuto = false) (ch : Nat) :
    (r.standard ch fixed auto).Consistent := by
  intro ha
  by_cases hc : ch > 0
  · simp only [RadioInfo.standard, hc, if_true, h, Bool.false_eq_true] at ha
  · exact Nat.eq_zero_of_not_pos hc

/-- So does setting both channels. -/
lemma consistent_wide (h : fixed.isAuto = false) (p s : Nat) :
    (r.wide p s fixed auto).Consistent := by
  intro ha
  by_cases hp : p = 0
  · exact hp
  · simp only [RadioInfo.wide, hp, if_false, h, Bool.false_eq_true] at ha

/-- A recognised configuration leaves a consistent radio. -/
lemma getChNFromPeerList_consistent {cfg : RadioCfg}
    (h : cfg.recognised = true ∨ r.Consistent) : (getChNFromPeerList cfg r).Consistent := by
  obtain ⟨mode, band, c1, c2, c3, c4, c5, c6, c7, c8, acp⟩ := cfg
  cases mode with
  | gOnly24 => exact consistent_standard rfl _
  | aOnly50 => exact consistent_standard rfl _
  | other =>
    rcases h with h | h
    · cases h
    · exact h
  | nOnly24 | nMixed24 | nOnly50 | nMixed50 =>
    cases band with
    | auto => exact fun _ => rfl
    | standard => exact consistent_standard rfl _
    | wide => exact consistent_wide rfl _ _
    | other =>
      rcases h with h | h
      · cases h
      · exact h

end Consistent

/-! Writing power and channels. -/

/-- Change the first peer with the id. -/
def updatePeer (peers : List Peer) (id : Mac) (f : Peer → Peer) : List Peer :=
  match peers with
  | [] => []
  | p :: ps => if p.id = id then f p :: ps else p :: updatePeer ps id f

/-- `dynamicChAssign[1]` for the colour of an access point. -/
def dynamicChannels (n : Node) (color : Nat) : Nat × Nat :=
  match n.radioInfo.modeAndBand with
  | .ch24G20MAuto | .ch5G20MAuto => (color, 0xff)
  | .ch24G40MAuto | .ch5G40MAuto =>
    if color ≤ 4 then (color, color + 4)
    else if color ≥ 8 then (color, color - 4)
    else if n.rfa.rfScore (color + 4) > n.rfa.rfScore (color - 4) then (color, color - 4)
    else (color, color + 4)
  | _ => (0xff, 0xff)

/-- A primary channel written for a node, with the state of its radio. -/
structure Assignment where
  mac : Mac
  modeAndBand : ChannelState
  channel : Nat
deriving DecidableEq, Repr

/-- The loop of `setPowerOrCh( NULL, SET_CHANNEL, 0 )` from position `i` on: the peers after it, the
channels it wrote and the commands it sent. A missing peer ends the loop. -/
def setChannels (pVertexColor : Nat → Nat) :
    List Node → Nat → List Peer → List Peer × List Assignment × List Msg
  | [], _, peers => (peers, [], [])
  | n :: ns, i, peers =>
    if n.spsWorkState = .operational ∧ pVertexColor i ≠ noColor then
      let id := bssidToId n.bssid
      match searchPeer peers id with
      | none => (peers, [], [])
      | some p =>
        let ch := dynamicChannels n (pVertexColor i)
        let r := setChannels pVertexColor ns (i + 1)
          (updatePeer peers id fun p => { p with dynamicChAssign := ch })
        (r.1, ⟨n.bssid, n.radioInfo.modeAndBand, ch.1⟩ :: r.2.1,
          if p.spsWorkState = .operational then ⟨.spProvisionChannelSet, id⟩ :: r.2.2 else r.2.2)
    else setChannels pVertexColor ns (i + 1) peers

/-- `setPowerOrCh( NULL, SET_CHANNEL, 0 )`. -/
def setAllChannels (h : Head) (peers : List Peer) : List Peer × List Assignment × List Msg :=
  if h.colorScheme.schemeCnt > 0 then setChannels h.vertexColor h.slList 0 peers
  else (peers, [], [])

/-- The loop of `setPowerOrCh( NULL, SET_POWER, 0 )`. The node is reset before its peer is looked
up; a missing peer ends the loop. -/
def setPowers : List Node → List Peer → List Node × List Peer × List Msg
  | [], peers => ([], peers, [])
  | n :: ns, peers =>
    if n.spsWorkState = .operational then
      let n := { n with txPowerLvlCurr := 0, txPowerLvlPrev := 0 }
      let id := bssidToId n.bssid
      match searchPeer peers id with
      | none => (n :: ns, peers, [])
      | some p =>
        let r := setPowers ns
          (updatePeer peers id fun p => { p with txPowerLvlCurr := 0, txPowerLvlPrev := 0 })
        (n :: r.1, r.2.1,
          if p.spsWorkState = .operational then ⟨.spProvisionPowerAdjust, id⟩ :: r.2.2 else r.2.2)
    else
      let r := setPowers ns peers
      (n :: r.1, r.2.1, r.2.2)

/-- `setPowerOrCh( NULL, SET_POWER, 0 )`. -/
def resetAllPowers (h : Head) (peers : List Peer) : Head × List Peer × List Msg :=
  let r := setPowers h.slList peers
  ({ h with slList := r.1 }, r.2.1, r.2.2)

/-- Resetting the power keeps everything of a node but its power levels. -/
def Node.SameButPower (n m : Node) : Prop :=
  m = { n with txPowerLvlCurr := m.txPowerLvlCurr, txPowerLvlPrev := m.txPowerLvlPrev }

/-- Setting the powers changes nothing else about the nodes. -/
lemma setPowers_same (ns : List Node) (peers : List Peer) :
    List.Forall₂ Node.SameButPower ns (setPowers ns peers).1 := by
  induction ns generalizing peers with
  | nil => exact .nil
  | cons n ns ih =>
    unfold setPowers
    dsimp only
    split
    · split
      · refine .cons rfl ?_
        exact List.forall₂_same.2 fun _ _ => rfl
      · exact .cons rfl (ih _)
    · exact .cons rfl (ih _)

/-- The colour is stored as it is when the channel is left to the assignment. -/
lemma dynamicChannels_primary {n : Node} (c : Nat) (ha : n.radioInfo.modeAndBand.isAuto = true) :
    (dynamicChannels n c).1 = c := by
  unfold dynamicChannels
  cases hm : n.radioInfo.modeAndBand with
  | ch24G20MAuto | ch5G20MAuto => rfl
  | ch24G40MAuto | ch5G40MAuto =>
    dsimp only
    split
    · rfl
    · split
      · rfl
      · split
        · rfl
        · rfl
  | _ =>
    rw [hm] at ha
    cases ha

/-- Every channel written belongs to a position of the list whose node is operational and has a
colour, and is that colour when the node's channel is left to the assignment. -/
lemma setChannels_assigned {color : Nat → Nat} {ns : List Node} {i : Nat} {peers : List Peer}
    {a : Assignment} (h : a ∈ (setChannels color ns i peers).2.1)
    (ha : a.modeAndBand.isAuto = true) :
    ∃ k n, ns[k]? = some n ∧ n.spsWorkState = .operational ∧ color (i + k) ≠ noColor ∧
      n.radioInfo.modeAndBand.isAuto = true ∧ a.channel = color (i + k) := by
  induction ns generalizing i peers with
  | nil => cases h
  | cons n ns ih =>
    unfold setChannels at h
    have hnext : ∀ {peers}, a ∈ (setChannels color ns (i + 1) peers).2.1 →
        ∃ k m, (n :: ns)[k]? = some m ∧ m.spsWorkState = .operational ∧ color (i + k) ≠ noColor ∧
          m.radioInfo.modeAndBand.isAuto = true ∧ a.channel = color (i + k) := by
      intro peers h
      obtain ⟨k, m, hk, hrest⟩ := ih h
      refine ⟨k + 1, m, by simpa using hk, ?_⟩
      rw [show i + (k + 1) = i + 1 + k by omega]
      exact hrest
    dsimp only at h
    split at h
    · rename_i hop
      split at h
      · cases h
      · rcases List.mem_cons.1 h with rfl | h
        · exact ⟨0, n, rfl, hop.1, hop.2, ha, dynamicChannels_primary _ ha⟩
        · exact hnext h
    · exact hnext h

end CcodeTest.Dcs
