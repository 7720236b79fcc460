import CcodeTest.Dcs.SpInfo
import CcodeTest.Dcs.Peers

/-!
# Setting the channels

`setPowerOrCh` writes the result of a calculation into the peer list and sends a command to every
access point concerned. The loop over the list ends at the first access point whose peer is missing
(`setAllChannels_delivers_iff`). The call for a single access point copies that loop, but with a list
position that stays 0 and the channel of the node in place of the peer's (`setOne_stores_iff`).
-/

namespace CcodeTest.Dcs
open CcodeTest.Lib

/-- Two addresses with the same id are the same. -/
lemma bssidToId_inj {a b : Mac} : bssidToId a = bssidToId b ↔ a = b := by
  obtain ⟨a0, a1, a2, a3, a4, a5⟩ := a
  obtain ⟨b0, b1, b2, b3, b4, b5⟩ := b
  simp only [bssidToId, Mac.mk.injEq]
  grind

section Lookup

variable {peers : List Peer} {id id' : Mac} {f : Peer → Peer}

/-- One more peer. -/
lemma searchPeer_cons (p : Peer) : searchPeer (p :: peers) id =
    if p.id = id then some p else searchPeer peers id := by
  unfold searchPeer
  by_cases h : p.id = id
  · simp [h]
  · simp [h]

/-- The peer that was changed is found as changed. -/
lemma searchPeer_updatePeer_self (hf : ∀ p, (f p).id = p.id) :
    searchPeer (updatePeer peers id f) id = (searchPeer peers id).map f := by
  induction peers with
  | nil => rfl
  | cons p ps ih =>
    rw [updatePeer, searchPeer_cons]
    split
    · rename_i h
      rw [searchPeer_cons, hf, if_pos h]
      rfl
    · rename_i h
      rw [searchPeer_cons, if_neg h, ih]

/-- The other peers are found as they were. -/
lemma searchPeer_updatePeer_ne (hf : ∀ p, (f p).id = p.id) (hne : id' ≠ id) :
    searchPeer (updatePeer peers id f) id' = searchPeer peers id' := by
  induction peers with
  | nil => rfl
  | cons p ps ih =>
    rw [updatePeer]
    split
    · rename_i h
      rw [searchPeer_cons, searchPeer_cons, hf, h, if_neg hne.symm, if_neg hne.symm]
    · rw [searchPeer_cons, searchPeer_cons, ih]

end Lookup

section Loop

variable {color : Nat → Nat} {ns : List Node} {i : Nat} {peers : List Peer}

/-- The loop looks for the peer of the node: it is operational and has a channel. -/
def Wanted (color : Nat → Nat) (i : Nat) (n : Node) : Prop :=
  n.spsWorkState = .operational ∧ color i ≠ noColor

instance (n : Node) : Decidable (Wanted color i n) := inferInstanceAs (Decidable (_ ∧ _))

/-- The command for the node. -/
def Node.channelSet (n : Node) : Msg := ⟨.spProvisionChannelSet, bssidToId n.bssid⟩

/-- The message tells which access point it is for. -/
lemma channelSet_inj {n m : Node} : n.channelSet = m.channelSet ↔ n.bssid = m.bssid := by
  rw [Node.channelSet, Node.channelSet, Msg.mk.injEq, bssidToId_inj]
  exact and_iff_right rfl

/-- A node that needs no channel is passed over. -/
lemma setChannels_skip {n : Node} (h : ¬ Wanted color i n) :
    setChannels color (n :: ns) i peers = setChannels color ns (i + 1) peers := by
  unfold Wanted at h
  rw [setChannels, if_neg h]

/-- A peer that is missing ends the loop. -/
lemma setChannels_missing {n : Node} (h : Wanted color i n)
    (hp : searchPeer peers (bssidToId n.bssid) = none) :
    setChannels color (n :: ns) i peers = (peers, [], []) := by
  unfold Wanted at h
  rw [setChannels, if_pos h]
  dsimp only
  rw [hp]

/-- The peers after the turn of a node. -/
def assignPeer (peers : List Peer) (n : Node) (color : Nat) : List Peer :=
  updatePeer peers (bssidToId n.bssid) fun p =>
    { p with dynamicChAssign := dynamicChannels n color }

/-- The peer that is assigned has its channels. -/
lemma searchPeer_assignPeer_self {n : Node} {c : Nat} :
    searchPeer (assignPeer peers n c) (bssidToId n.bssid) =
      (searchPeer peers (bssidToId n.bssid)).map fun p =>
        { p with dynamicChAssign := dynamicChannels n c } :=
  searchPeer_updatePeer_self fun _ => rfl

/-- The others stay as they are. -/
lemma searchPeer_assignPeer_ne {n m : Node} {c : Nat} (h : m.bssid ≠ n.bssid) :
    searchPeer (assignPeer peers n c) (bssidToId m.bssid) =
      searchPeer peers (bssidToId m.bssid) :=
  searchPeer_updatePeer_ne (fun _ => rfl) fun he => h (bssidToId_inj.1 he)

/-- A peer that is there is assigned, and told if it is operational. -/
lemma setChannels_found {n : Node} {p : Peer} (h : Wanted color i n)
    (hp : searchPeer peers (bssidToId n.bssid) = some p) :
    (setChannels color (n :: ns) i peers).1 =
        (setChannels color ns (i + 1) (assignPeer peers n (color i))).1 ∧
      (setChannels color (n :: ns) i peers).2.2 =
        if p.spsWorkState = .operational then
          n.channelSet :: (setChannels color ns (i + 1) (assignPeer peers n (color i))).2.2
        else (setChannels color ns (i + 1) (assignPeer peers n (color i))).2.2 := by
  unfold Wanted at h
  rw [setChannels, if_pos h]
  dsimp only
  rw [hp]
  exact ⟨rfl, rfl⟩

/-- The turn of a node sends nothing to another one. -/
lemma setChannels_found_count {m n : Node} {p : Peer} (h : Wanted color i m)
    (hp : searchPeer peers (bssidToId m.bssid) = some p) (hne : m.bssid ≠ n.bssid) :
    (setChannels color (m :: ns) i peers).2.2.count n.channelSet =
      (setChannels color ns (i + 1) (assignPeer peers m (color i))).2.2.count n.channelSet := by
  rw [(setChannels_found h hp).2]
  split
  · exact List.count_cons_of_ne fun he => hne (channelSet_inj.1 he)
  · rfl

/-- The turns of the other nodes neither change the peer of a node nor send it a command. -/
lemma setChannels_other {n : Node} (h : ∀ m ∈ ns, m.bssid ≠ n.bssid) :
    searchPeer (setChannels color ns i peers).1 (bssidToId n.bssid) =
        searchPeer peers (bssidToId n.bssid) ∧
      (setChannels color ns i peers).2.2.count n.channelSet = 0 := by
  induction ns generalizing i peers with
  | nil => exact ⟨rfl, rfl⟩
  | cons m ns ih =>
    have hm : m.bssid ≠ n.bssid := h m (List.mem_cons_self ..)
    have hns : ∀ x ∈ ns, x.bssid ≠ n.bssid := fun x hx => h x (List.mem_cons_of_mem _ hx)
    by_cases hw : Wanted color i m
    · cases hp : searchPeer peers (bssidToId m.bssid) with
      | none =>
        rw [setChannels_missing hw hp]
        exact ⟨rfl, rfl⟩
      | some p =>
        obtain ⟨ih1, ih2⟩ := @ih (i + 1) (assignPeer peers m (color i)) hns
        rw [(setChannels_found hw hp).1, setChannels_found_count hw hp hm, ih1,
          searchPeer_assignPeer_ne hm.symm]
        exact ⟨rfl, ih2⟩
    · rw [setChannels_skip hw]
      exact ih hns

/-- The node at position `k` gets its turn when no peer is missing before it: its channel is stored,
and the command is sent once if the peer is operational. -/
lemma setChannels_reached {k : Nat} {n : Node} {p : Peer} (hn : ns[k]? = some n)
    (hw : Wanted color (i + k) n) (hp : searchPeer peers (bssidToId n.bssid) = some p)
    (hfound : ∀ j < k, ∀ m, ns[j]? = some m → Wanted color (i + j) m →
      (searchPeer peers (bssidToId m.bssid)).isSome = true)
    (hnd : (ns.map (·.bssid)).Nodup) :
    searchPeer (setChannels color ns i peers).1 (bssidToId n.bssid) =
        some { p with dynamicChAssign := dynamicChannels n (color (i + k)) } ∧
      (p.spsWorkState = .operational →
        (setChannels color ns i peers).2.2.count n.channelSet = 1) := by
  induction ns generalizing i k peers with
  | nil => cases hn
  | cons m ns ih =>
    rw [List.map_cons, List.nodup_cons] at hnd
    have hmem : ∀ x ∈ ns, x.bssid ≠ m.bssid := by
      intro x hx he
      exact hnd.1 (he ▸ List.mem_map_of_mem hx)
    cases k with
    | zero =>
      cases hn
      obtain ⟨h1, h2⟩ := @setChannels_found color ns i peers n p hw hp
      obtain ⟨ho, hc⟩ := @setChannels_other color ns (i + 1) (assignPeer peers n (color i)) n hmem
      rw [h1, h2, ho, searchPeer_assignPeer_self, hp]
      refine ⟨rfl, ?_⟩
      intro hop
      rw [if_pos hop, List.count_cons_self, hc]
    | succ k =>
      have hk : i + (k + 1) = i + 1 + k := by omega
      rw [List.getElem?_cons_succ] at hn
      rw [hk] at hw ⊢
      have hne : n.bssid ≠ m.bssid := hmem n (List.mem_of_getElem? hn)
      by_cases hwm : Wanted color i m
      · cases hq : searchPeer peers (bssidToId m.bssid) with
        | none =>
          have hsome := hfound 0 (by omega) m rfl hwm
          rw [hq] at hsome
          cases hsome
        | some q =>
          have hp' : searchPeer (assignPeer peers m (color i)) (bssidToId n.bssid) = some p :=
            (searchPeer_assignPeer_ne hne).trans hp
          have hfound' : ∀ j < k, ∀ x, ns[j]? = some x → Wanted color (i + 1 + j) x →
              (searchPeer (assignPeer peers m (color i)) (bssidToId x.bssid)).isSome = true := by
            intro j hj x hx hwx
            rw [searchPeer_assignPeer_ne (hmem x (List.mem_of_getElem? hx))]
            rw [show i + 1 + j = i + (j + 1) by omega] at hwx
            exact hfound (j + 1) (by omega) x hx hwx
          rw [(setChannels_found hwm hq).1, setChannels_found_count hwm hq hne.symm]
          exact ih hn hw hp' hfound' hnd.2
      · rw [setChannels_skip hwm]
        refine ih hn hw hp ?_ hnd.2
        intro j hj x hx hwx
        rw [show i + 1 + j = i + (j + 1) by omega] at hwx
        exact hfound (j + 1) (by omega) x hx hwx

/-- Behind a node whose peer is missing, no command is sent. -/
lemma setChannels_stopped {j k : Nat} {m n : Node} (hm : ns[j]? = some m)
    (hw : Wanted color (i + j) m) (hnone : searchPeer peers (bssidToId m.bssid) = none)
    (hjk : j < k) (hn : ns[k]? = some n) (hnd : (ns.map (·.bssid)).Nodup) :
    (setChannels color ns i peers).2.2.count n.channelSet = 0 := by
  induction ns generalizing i j k peers with
  | nil => cases hm
  | cons x ns ih =>
    rw [List.map_cons, List.nodup_cons] at hnd
    have hmem : ∀ y ∈ ns, y.bssid ≠ x.bssid := by
      intro y hy he
      exact hnd.1 (he ▸ List.mem_map_of_mem hy)
    cases j with
    | zero =>
      cases hm
      rw [Nat.add_zero] at hw
      rw [setChannels_missing hw hnone]
      rfl
    | succ j =>
      obtain ⟨k, rfl⟩ : ∃ l, k = l + 1 := ⟨k - 1, by omega⟩
      rw [List.getElem?_cons_succ] at hm hn
      rw [show i + (j + 1) = i + 1 + j by omega] at hw
      have hne : n.bssid ≠ x.bssid := hmem n (List.mem_of_getElem? hn)
      by_cases hwx : Wanted color i x
      · cases hq : searchPeer peers (bssidToId x.bssid) with
        | none =>
          rw [setChannels_missing hwx hq]
          rfl
        | some q =>
          have hnone' : searchPeer (assignPeer peers x (color i)) (bssidToId m.bssid) = none :=
            (searchPeer_assignPeer_ne (hmem m (List.mem_of_getElem? hm))).trans hnone
          rw [setChannels_found_count hwx hq hne.symm]
          exact ih hm hw hnone' (by omega) hn hnd.2
      · rw [setChannels_skip hwx]
        exact ih hm hw hnone (by omega) hn hnd.2

end Loop

section Delivery

variable {h : Head} {peers : List Peer}

/-- A node of the list by its index. -/
lemma getElem?_node {i : Nat} (hi : i < h.count) : h.slList[i]? = some (h.node i) := by
  rw [Head.node, List.getD_eq_getElem?_getD, List.getElem?_eq_getElem hi]
  rfl

/-- The call for all access points sends the command once to each one that is operational with a
channel and whose peer is there and operational, and stores the channel of the assignment. -/
def ChannelsDelivered (h : Head) (peers : List Peer) : Prop :=
  ∀ i < h.count, Wanted h.vertexColor i (h.node i) →
    ∀ p, h.peer peers i = some p → p.spsWorkState = .operational →
      (setAllChannels h peers).2.2.count (h.node i).channelSet = 1 ∧
        ((h.node i).radioInfo.modeAndBand.isAuto = true →
          (h.peer (setAllChannels h peers).1 i).map (·.dynamicChAssign.1) =
            some (h.vertexColor i))

/-- The channel that is stored for an access point, when the peers of all before it are there. -/
lemma setAllChannels_stored {i : Nat} {p : Peer} (hs : 0 < h.colorScheme.schemeCnt)
    (hnd : (h.slList.map (·.bssid)).Nodup) (hi : i < h.count)
    (hw : Wanted h.vertexColor i (h.node i)) (hp : h.peer peers i = some p)
    (hfound : ∀ j < i, Wanted h.vertexColor j (h.node j) → (h.peer peers j).isSome = true) :
    h.peer (setAllChannels h peers).1 i =
        some { p with dynamicChAssign := dynamicChannels (h.node i) (h.vertexColor i) } ∧
      (p.spsWorkState = .operational →
        (setAllChannels h peers).2.2.count (h.node i).channelSet = 1) := by
  have hrun := @setChannels_reached h.vertexColor h.slList 0 peers i (h.node i) p
    (getElem?_node hi) (by rwa [Nat.zero_add]) hp ?_ hnd
  · rw [Nat.zero_add] at hrun
    rw [setAllChannels, if_pos hs]
    exact hrun
  · intro j hj m hm hwm
    have hmj : h.node j = m := Option.some.inj ((getElem?_node (by omega)).symm.trans hm)
    rw [Nat.zero_add, ← hmj] at hwm
    rw [← hmj]
    exact hfound j hj hwm

/-- The commands and channels arrive exactly when no access point that should get one stands behind
one whose peer is missing. -/
theorem setAllChannels_delivers_iff (h : Head) (peers : List Peer)
    (hs : 0 < h.colorScheme.schemeCnt) (hnd : (h.slList.map (·.bssid)).Nodup) :
    ChannelsDelivered h peers ↔
      ∀ i < h.count, Wanted h.vertexColor i (h.node i) →
        ∀ p, h.peer peers i = some p → p.spsWorkState = .operational →
          ∀ j < i, Wanted h.vertexColor j (h.node j) → (h.peer peers j).isSome = true := by
  constructor
  · intro hd i hi hw p hp hop j hj hwj
    by_contra hnone
    have hnone' : searchPeer peers (bssidToId (h.node j).bssid) = none := by
      rwa [Bool.not_eq_true, Option.isSome_eq_false_iff, Option.isNone_iff_eq_none] at hnone
    have hzero := @setChannels_stopped h.vertexColor h.slList 0 peers j i (h.node j) (h.node i)
      (getElem?_node (by omega)) (by rwa [Nat.zero_add]) hnone' hj (getElem?_node hi) hnd
    have hone := (hd i hi hw p hp hop).1
    rw [setAllChannels, if_pos hs, hzero] at hone
    cases hone
  · intro hfound i hi hw p hp hop
    obtain ⟨hst, hcnt⟩ := setAllChannels_stored hs hnd hi hw hp (hfound i hi hw p hp hop)
    refine ⟨hcnt hop, ?_⟩
    intro ha
    rw [hst]
    exact congrArg some (dynamicChannels_primary _ ha)

/-- Two access points with the channels 1 and 6. -/
def Head.coloured : Head :=
  { Head.init with
    slList := [Node.sample 1, Node.sample 2]
    colorScheme := ⟨⟨some 2, fun i => if i = 0 then 1 else 6⟩, 1, 2⟩ }

/-- Two access points, both told. -/
theorem setAllChannels_delivers_iff_pair :
    ChannelsDelivered Head.coloured [Peer.sample 1, Peer.sample 2] := by
  apply (setAllChannels_delivers_iff Head.coloured [Peer.sample 1, Peer.sample 2] (by decide)
    (by decide)).2
  intro i hi _ p _ _ j hj _
  have hi2 : i < 2 := hi
  rw [show j = 0 by omega]
  rfl

/-- The peer of the first is not there: the second, whose peer is, gets neither a command nor its
channel. -/
theorem setAllChannels_drops_second :
    0 < Head.coloured.colorScheme.schemeCnt ∧ (Head.coloured.slList.map (·.bssid)).Nodup ∧
      Wanted Head.coloured.vertexColor 1 (Head.coloured.node 1) ∧
      Head.coloured.peer [Peer.sample 2] 1 = some (Peer.sample 2) ∧
      (Peer.sample 2).spsWorkState = .operational ∧
      (Head.coloured.node 1).radioInfo.modeAndBand.isAuto = true ∧
      Head.coloured.vertexColor 1 = 6 ∧
      (setAllChannels Head.coloured [Peer.sample 2]).2.2 = [] ∧
      (setAllChannels Head.coloured [Peer.sample 2]).1 = [Peer.sample 2] ∧
      (Peer.sample 2).dynamicChAssign.1 = 0 ∧
      ¬ ChannelsDelivered Head.coloured [Peer.sample 2] := by
  have hsent : (setAllChannels Head.coloured [Peer.sample 2]).2.2 = [] := by decide
  refine ⟨by decide, by decide, by decide, by decide, rfl, rfl, rfl, hsent, by decide, rfl, ?_⟩
  intro hd
  have hone := (hd 1 (by decide) (by decide) (Peer.sample 2) (by decide) rfl).1
  rw [hsent] at hone
  cases hone

end Delivery

section Single

/-- `SET_POWER` and `SET_CHANNEL`; `other` is a value without a branch. -/
inductive SetPwrCh where
  | setPower
  | setChannel
  | other (v : Int)
deriving DecidableEq, Repr

/-- The two `*_40M_AUTO` values. -/
def ChannelState.is40MAuto : ChannelState → Bool
  | ch24G40MAuto | ch5G40MAuto => true
  | _ => false

/-- The auto modes with 40 MHz are auto modes. -/
lemma ChannelState.isAuto_of_is40MAuto {s : ChannelState} (h : s.is40MAuto = true) :
    s.isAuto = true := by
  cases s with
  | ch24G40MAuto | ch5G40MAuto => rfl
  | _ => cases h

/-- An integer expression stored in an `unsigned char`. -/
def toUChar (x : Int) : Nat := (x % 256).toNat

/-- `dynamicChAssign[1]` of the single access point. At 40 MHz the primary channel is read at the
list position `i`, which is still 0, and the secondary one is counted from the channel of the DCA
node. -/
def oneApChannels (h : Head) (n : Node) (val : Int) : Nat × Nat :=
  match n.radioInfo.modeAndBand with
  | .ch24G20MAuto | .ch5G20MAuto => (toUChar val, 0xff)
  | .ch24G40MAuto | .ch5G40MAuto =>
    let primary := h.vertexColor 0
    if primary < 8 then (primary, toUChar (n.dynamicChAssign.1 + 4))
    else (primary, toUChar (n.dynamicChAssign.1 - 4))
  | _ => (0xff, 0xff)

/-- `setPowerOrCh( mac, setPwrCh, val )` for a single access point: the peers after it and the
commands it sent. `none` is the access through the NULL that `findSpByMAC` returned. -/
def setOneAp (h : Head) (peers : List Peer) (mac : Mac) (setPwrCh : SetPwrCh) (val : Int) :
    Option (List Peer × List Msg) :=
  let pACPNTmp := (findSpByMAC h.slList mac).map h.node
  let id := bssidToId mac
  match searchPeer peers id with
  | none => some (peers, [])
  | some p =>
    if p.spsWorkState = .operational then
      match setPwrCh with
      | .setChannel =>
        if val ≥ 0 ∧ val ≤ 11 then
          pACPNTmp.map fun n =>
            (updatePeer peers id fun p => { p with dynamicChAssign := oneApChannels h n val },
              if p.nRadio.nEnableACP = 1 then [⟨.spProvisionChannelSet, id⟩] else [])
        else some (peers, [])
      | .setPower =>
        if val ≥ 0 ∧ val ≤ 4 then
          pACPNTmp.map fun n =>
            (updatePeer peers id fun p =>
                { p with txPowerLvlPrev := n.txPowerLvlCurr, txPowerLvlCurr := toUChar val },
              if p.nRadio.nEnableACP = 1 then [⟨.spProvisionPowerAdjust, id⟩] else [])
        else some (peers, [])
      | .other _ => some (peers, [])
    else some (peers, [])

variable {h : Head} {peers : List Peer} {mac : Mac} {val : Int}

/-- A channel that is in range is written into the peer. -/
lemma setOneAp_setChannel {k : Nat} {p : Peer} (hk : findSpByMAC h.slList mac = some k)
    (hp : searchPeer peers (bssidToId mac) = some p) (hop : p.spsWorkState = .operational)
    (hval : 0 ≤ val ∧ val ≤ 11) :
    ∃ r, setOneAp h peers mac .setChannel val = some r ∧
      searchPeer r.1 (bssidToId mac) =
        some { p with dynamicChAssign := oneApChannels h (h.node k) val } := by
  have hset : setOneAp h peers mac .setChannel val =
      some (updatePeer peers (bssidToId mac) fun p =>
          { p with dynamicChAssign := oneApChannels h (h.node k) val },
        if p.nRadio.nEnableACP = 1 then [⟨.spProvisionChannelSet, bssidToId mac⟩] else []) := by
    unfold setOneAp
    dsimp only
    rw [hp, hk]
    dsimp only
    rw [if_pos hop, if_pos hval]
    rfl
  have hself := @searchPeer_updatePeer_self peers (bssidToId mac)
    (fun p => { p with dynamicChAssign := oneApChannels h (h.node k) val }) fun _ => rfl
  rw [hp] at hself
  exact ⟨_, hset, hself⟩

/-- At 40 MHz both numbers that the code reads have to be the channel already. -/
lemma wideChannels_iff {primary d : Nat} (hval : 1 ≤ val ∧ val ≤ 11) (hd : d < 256) :
    (((if primary < 8 then (primary, toUChar (d + 4)) else (primary, toUChar (d - 4))).1 : Int) =
        val ∧
      ((if primary < 8 then (primary, toUChar (d + 4)) else (primary, toUChar (d - 4))).2 : Int) =
        if val < 8 then val + 4 else val - 4) ↔ (primary : Int) = val ∧ (d : Int) = val := by
  unfold toUChar
  by_cases hp : primary < 8
  · rw [if_pos hp]
    dsimp only
    split <;> omega
  · rw [if_neg hp]
    dsimp only
    split <;> omega

/-- A value of a byte stays as it is. -/
lemma toUChar_of_range {x : Int} (h0 : 0 ≤ x) (h1 : x < 256) : (toUChar x : Int) = x := by
  unfold toUChar
  omega

/-- The call stores the channel it was given in the peer, with the secondary channel beside it. -/
def StoresChannel (h : Head) (peers : List Peer) (mac : Mac) (k : Nat) (val : Int) : Prop :=
  ∃ r q, setOneAp h peers mac .setChannel val = some r ∧
    searchPeer r.1 (bssidToId mac) = some q ∧ (q.dynamicChAssign.1 : Int) = val ∧
    ((h.node k).radioInfo.modeAndBand.is40MAuto = true →
      (q.dynamicChAssign.2 : Int) = if val < 8 then val + 4 else val - 4)

/-- The call for a single access point stores the channel it was given exactly at 20 MHz, or when
both the first access point of the list and the node already have that channel. -/
theorem setOneAp_stores_iff (h : Head) (peers : List Peer) (mac : Mac) (k : Nat) (p : Peer)
    (val : Int) (hk : findSpByMAC h.slList mac = some k)
    (hp : searchPeer peers (bssidToId mac) = some p) (hop : p.spsWorkState = .operational)
    (hauto : (h.node k).radioInfo.modeAndBand.isAuto = true) (hval : 1 ≤ val ∧ val ≤ 11)
    (hbyte : (h.node k).dynamicChAssign.1 < 256) :
    StoresChannel h peers mac k val ↔
      (h.node k).radioInfo.modeAndBand.is40MAuto = false ∨
        (h.vertexColor 0 : Int) = val ∧ ((h.node k).dynamicChAssign.1 : Int) = val := by
  obtain ⟨r, hr, hq⟩ := setOneAp_setChannel hk hp hop (show 0 ≤ val ∧ val ≤ 11 by omega)
  have hst : StoresChannel h peers mac k val ↔
      ((oneApChannels h (h.node k) val).1 : Int) = val ∧
        ((h.node k).radioInfo.modeAndBand.is40MAuto = true →
          ((oneApChannels h (h.node k) val).2 : Int) = if val < 8 then val + 4 else val - 4) := by
    constructor
    · rintro ⟨r', q, hr', hq', h1, h2⟩
      rw [hr, Option.some.injEq] at hr'
      rw [← hr', hq, Option.some.injEq] at hq'
      subst hq'
      exact ⟨h1, h2⟩
    · intro h12
      exact ⟨r, _, hr, hq, h12.1, h12.2⟩
  rw [hst]
  unfold oneApChannels
  cases hm : (h.node k).radioInfo.modeAndBand with
  | ch24G20MAuto | ch5G20MAuto =>
    refine ⟨fun _ => .inl rfl, fun _ => ⟨toUChar_of_range (by omega) (by omega), ?_⟩⟩
    intro h40
    cases h40
  | ch24G40MAuto | ch5G40MAuto =>
    have hiff := @wideChannels_iff val (h.vertexColor 0) (h.node k).dynamicChAssign.1 hval hbyte
    constructor
    · rintro ⟨h1, h2⟩
      exact .inr (hiff.1 ⟨h1, h2 rfl⟩)
    · rintro (h40 | hboth)
      · cases h40
      · exact ⟨(hiff.2 hboth).1, fun _ => (hiff.2 hboth).2⟩
  | _ =>
    rw [hm] at hauto
    cases hauto

/-- The first of the two, at 40 MHz. -/
def Head.wideFirst : Head :=
  { Head.coloured with
    slList := [{ Node.sample 1 with radioInfo := ⟨.ch24G40MAuto, .nMixed24, .auto, 0, 0⟩ },
      Node.sample 2] }

/-- At 20 MHz the channel 11 is stored. -/
theorem setOneAp_stores_iff_second :
    StoresChannel Head.wideFirst [Peer.sample 1, Peer.sample 2] (Node.sample 2).bssid 1 11 :=
  (setOneAp_stores_iff Head.wideFirst [Peer.sample 1, Peer.sample 2] (Node.sample 2).bssid 1
    (Peer.sample 2) 11 (by decide) (by decide) rfl rfl (by decide) (by decide)).2 (.inl rfl)

/-- At 40 MHz the channel 6 is asked for: stored are the channel 1 of the last assignment and,
counted from the node's 0, the secondary channel 4. -/
theorem setOneAp_ignores_val :
    findSpByMAC Head.wideFirst.slList (Node.sample 1).bssid = some 0 ∧
      searchPeer [Peer.sample 1] (bssidToId (Node.sample 1).bssid) = some (Peer.sample 1) ∧
      (Head.wideFirst.node 0).radioInfo.modeAndBand.isAuto = true ∧
      setOneAp Head.wideFirst [Peer.sample 1] (Node.sample 1).bssid .setChannel 6 =
        some ([{ Peer.sample 1 with dynamicChAssign := (1, 4) }],
          [⟨.spProvisionChannelSet, Mac.sample 1⟩]) ∧
      ¬ StoresChannel Head.wideFirst [Peer.sample 1] (Node.sample 1).bssid 0 6 := by
  have hset : setOneAp Head.wideFirst [Peer.sample 1] (Node.sample 1).bssid .setChannel 6 =
      some ([{ Peer.sample 1 with dynamicChAssign := (1, 4) }],
        [⟨.spProvisionChannelSet, Mac.sample 1⟩]) := by decide
  refine ⟨by decide, by decide, rfl, hset, ?_⟩
  rintro ⟨r, q, hr, hq, h1, _⟩
  rw [hset, Option.some.injEq] at hr
  subst hr
  have hq' : q = { Peer.sample 1 with dynamicChAssign := (1, 4) } :=
    Option.some.inj (hq.symm.trans (by decide))
  rw [hq'] at h1
  exact absurd h1 (by decide)

end Single

end CcodeTest.Dcs
