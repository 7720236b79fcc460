import Mathlib.Data.List.Perm.Basic
import Mathlib.Data.List.Nodup
import Mathlib.Data.List.GetD
import Mathlib.Data.List.InsertIdx
import CcodeTest.Lib.Store
import CcodeTest.Lib.Transition
import CcodeTest.Dcs.Types

/-!
# Messages about access points

`updateSPInfo` handles one message of the SDP task or the GUI: it inserts and deletes nodes, records
for `updateAdjacentAndRSSIMatrix` what happened to the list, and decides through `m_justBoot` and
`m_channelAssignFlag` whether a calculation is wanted. `Updates` lists what it can do, one
constructor for each path, and everything later goes through it.

The second half is about the record of deletions. `delIndexArray` is read as positions in the list
as it was at the last update of the matrices, but written with positions in the current list:
`delIndexArray_positions` says under which order of messages the two agree.
-/

namespace CcodeTest.Dcs
open CcodeTest.Lib

/-- What the two tasks share: `headDCA`, the two flags of the file and the pipe to the calculating
task. -/
structure Shared where
  head : Head
  justBoot : Bool
  channelAssignFlag : Bool
  calcPipe : List CalcCmd

/-- `findSpByMAC`: the position of the first node with the address. -/
def findSpByMAC (slList : List Node) (mac : Mac) : Option Nat :=
  slList.findIdx? fun n => n.bssid == mac

/-- A message with what the code reads elsewhere while it handles it: the configured scan mode, and
whether `SWMALLOC` succeeds and what lies in the memory it returns. -/
structure Update where
  msg : Msg
  dcaScanMode : ScanMode
  malloc : Bool
  heap : Node

/-- The BSSID the message is about. -/
def Update.mac (u : Update) : Mac := idToBssid u.msg.msgMac

/-- The node of a new access point. The `memset` has the size of a pointer and clears the link
only, so everything but the address is what was in the memory. -/
def Update.node (u : Update) : Node := { u.heap with bssid := u.mac }

/-- `slListAdd` of a new node, and what goes with it. -/
def Shared.add (s : Shared) (n : Node) : Shared :=
  let info := s.head.infoUpdateMatrix
  { s with
    head :=
      { s.head with
        slList := n :: s.head.slList
        spScanMode := .allSpScanBasedOnTime
        infoUpdateMatrix := { info with addCount := info.addCount + 1 } }
    justBoot := false
    channelAssignFlag := true }

/-- `validIndex++` on an `unsigned char`. -/
def InfoUpdateMatrix.advance (info : InfoUpdateMatrix) : InfoUpdateMatrix :=
  { info with validIndex := (info.validIndex + 1) % 256 }

/-- A deletion request for an unknown address uses up a slot and nothing else. -/
def Shared.skipSlot (s : Shared) : Shared :=
  { s with head := { s.head with infoUpdateMatrix := s.head.infoUpdateMatrix.advance } }

/-- `slListDelete` of the node at a position, and what goes with it. -/
def Shared.delete (s : Shared) (index : Nat) : Shared :=
  let info := s.head.infoUpdateMatrix
  { s with
    head :=
      { s.head with
        slList := s.head.slList.eraseIdx index
        infoUpdateMatrix :=
          { info.advance with
            delIndexArray := Function.update info.delIndexArray info.validIndex index
            delCount := info.delCount + 1 } }
    justBoot := false
    channelAssignFlag := false }

/-- The `calc` command of the GUI. -/
def Shared.startCalc (s : Shared) (dcaScanMode : ScanMode) : Shared :=
  { s with
    head := { s.head with spScanMode := dcaScanMode }
    justBoot := false
    channelAssignFlag := false
    calcPipe := s.calcPipe ++ [.startCalc] }

/-- An access point that became operational is scanned at the next calculation. -/
def Shared.forceScan (s : Shared) (index : Nat) : Shared :=
  { s with
    head :=
      { s.head with
        slList := s.head.slList.modify index fun n => { n with spScanMode := .forceThisSpScan } }
    channelAssignFlag := true }

/-- `updateSPInfo`; `true` is `SW_ERR_SUCCESS`. The mutex is taken at the start and released on
every way out. -/
def updateSPInfo (u : Update) (s : Shared) : Shared × Bool :=
  let found := findSpByMAC s.head.slList u.mac
  match u.msg.msgCmd with
  | .spAddNewOne =>
    match found with
    | none => if u.malloc then (s.add u.node, true) else (s, false)
    | some _ => (s, true)
  | .spDelOldOne =>
    match found with
    | none => (s.skipSlot, true)
    | some index => (s.delete index, true)
  | .spStartAutoChannel => (s.startCalc u.dcaScanMode, true)
  | .spChangeIntoOperational =>
    match found with
    | none => (s, true)
    | some index => (s.forceScan index, true)
  | _ => (s, true)

/-- What a message can do to the shared state. -/
inductive Updates (u : Update) (s : Shared) : Shared → Prop where
  | ignored (h : u.msg.msgCmd ≠ .spStartAutoChannel) : Updates u s s
  | added (h : u.msg.msgCmd = .spAddNewOne) (hn : findSpByMAC s.head.slList u.mac = none) :
    Updates u s (s.add u.node)
  | unknown (h : u.msg.msgCmd = .spDelOldOne) (hn : findSpByMAC s.head.slList u.mac = none) :
    Updates u s s.skipSlot
  | deleted {index : Nat} (h : u.msg.msgCmd = .spDelOldOne)
    (hi : findSpByMAC s.head.slList u.mac = some index) : Updates u s (s.delete index)
  | started (h : u.msg.msgCmd = .spStartAutoChannel) : Updates u s (s.startCalc u.dcaScanMode)
  | operational {index : Nat} (h : u.msg.msgCmd = .spChangeIntoOperational)
    (hi : findSpByMAC s.head.slList u.mac = some index) : Updates u s (s.forceScan index)

/-- `Updates` covers `updateSPInfo`. -/
lemma updateSPInfo_updates (u : Update) (s : Shared) : Updates u s (updateSPInfo u s).1 := by
  unfold updateSPInfo
  cases hc : u.msg.msgCmd with
  | spAddNewOne =>
    cases hf : findSpByMAC s.head.slList u.mac with
    | none =>
      cases hm : u.malloc with
      | true => exact .added hc hf
      | false => exact .ignored (by rw [hc]; simp)
    | some i => exact .ignored (by rw [hc]; simp)
  | spDelOldOne =>
    cases hf : findSpByMAC s.head.slList u.mac with
    | none => exact .unknown hc hf
    | some i => exact .deleted hc hf
  | spStartAutoChannel => exact .started hc
  | spChangeIntoOperational =>
    cases hf : findSpByMAC s.head.slList u.mac with
    | none => exact .ignored (by rw [hc]; simp)
    | some i => exact .operational hc hf
  | _ => exact .ignored (by rw [hc]; simp)

/-- A message adds nothing to the pipe but a START. -/
lemma Updates.calcPipe {u : Update} {s t : Shared} (h : Updates u s t) :
    ∃ cs, t.calcPipe = s.calcPipe ++ cs ∧ ∀ c ∈ cs, c = .startCalc := by
  cases h with
  | started => exact ⟨_, rfl, fun _ => List.mem_singleton.1⟩
  | _ => exact ⟨[], (List.append_nil _).symm, nofun⟩

/-- The node `spInfoInit` makes for a peer, again on uncleared memory. -/
def initNode (p : Peer) (heap : Node) : Node :=
  { heap with bssid := idToBssid p.id, spScanMode := .thisSpScanBasedOnTime }

/-- The loop of `spInfoInit` over the peers, with memory for every node; each node goes to the head
of the list. -/
def spInfoInit (peers : List Peer) (heap : Mac → Node) (h : Head) : Head :=
  { h with
    slList := (peers.map fun p => initNode p (heap p.id)).reverse
    rssiCurThreshold := rssiThresholdMini }

/-- The addresses in the list. -/
def Head.macs (h : Head) : List Mac := h.slList.map (·.bssid)

section Find

variable {l : List Node} {mac : Mac} {i : Nat}

lemma findSpByMAC_eq_none : findSpByMAC l mac = none ↔ mac ∉ l.map (·.bssid) := by
  simp [findSpByMAC, List.findIdx?_eq_none_iff]

lemma findSpByMAC_eq_some (h : findSpByMAC l mac = some i) :
    ∃ hi : i < l.length, l[i].bssid = mac := by
  obtain ⟨hi, hp, -⟩ := List.findIdx?_eq_some_iff_getElem.1 h
  exact ⟨hi, by simpa using hp⟩

/-- Without the node that is found, its address is gone and no other. -/
lemma mem_eraseIdx_found {m : Mac} (hn : (l.map (·.bssid)).Nodup)
    (hf : findSpByMAC l mac = some i) :
    m ∈ (l.map (·.bssid)).eraseIdx i ↔ m ≠ mac ∧ m ∈ l.map (·.bssid) := by
  obtain ⟨hi, hb⟩ := findSpByMAC_eq_some hf
  have hi' : i < (l.map (·.bssid)).length := by simpa using hi
  have hg : (l.map (·.bssid))[i] = mac := by simpa using hb
  rw [← hn.erase_getElem i hi', hn.mem_erase_iff, hg]

/-- A change of a node that keeps its address keeps all addresses. -/
lemma map_bssid_modify {f : Node → Node} (hf : ∀ n, (f n).bssid = n.bssid) :
    (l.modify i f).map (·.bssid) = l.map (·.bssid) := by
  apply List.ext_getElem
  · simp
  · intro k h₁ h₂
    simp only [List.getElem_map, List.getElem_modify]
    split
    · exact hf _
    · rfl

end Find

/-! What the messages do to the addresses in the list. -/

section Macs

variable {s : Shared} {i : Nat}

lemma macs_add (n : Node) : (s.add n).head.macs = n.bssid :: s.head.macs := rfl

lemma macs_delete : (s.delete i).head.macs = s.head.macs.eraseIdx i :=
  (List.eraseIdx_map ..).symm

lemma macs_forceScan : (s.forceScan i).head.macs = s.head.macs :=
  map_bssid_modify fun _ => rfl

/-- A deletion takes away the address it is about and no other. -/
lemma mem_macs_delete {mac m : Mac} (hn : s.head.macs.Nodup)
    (hf : findSpByMAC s.head.slList mac = some i) :
    m ∈ (s.delete i).head.macs ↔ m ≠ mac ∧ m ∈ s.head.macs := by
  rw [macs_delete]
  exact mem_eraseIdx_found hn hf

/-- The addresses in the list stay different. -/
lemma Updates.macs_nodup {u : Update} {t : Shared} (h : Updates u s t) (hn : s.head.macs.Nodup) :
    t.head.macs.Nodup := by
  cases h with
  | ignored => exact hn
  | added _ hf => exact List.nodup_cons.2 ⟨findSpByMAC_eq_none.1 hf, hn⟩
  | unknown => exact hn
  | deleted =>
    rw [macs_delete]
    exact hn.eraseIdx _
  | started => exact hn
  | operational =>
    rw [macs_forceScan]
    exact hn

end Macs

/-! The record of deletions. -/

/-- The first `delCount` entries of `delIndexArray`. -/
def Head.recorded (h : Head) : List Int :=
  slice h.infoUpdateMatrix.delIndexArray 0 h.infoUpdateMatrix.delCount

/-- The positions in the list `old` of the addresses that are no longer in the list. -/
def Head.removedFrom (h : Head) (old : List Mac) : List Int :=
  ((List.range old.length).filter fun i => decide (old.getD i default ∉ h.macs)).map Int.ofNat

/-- One message. -/
def updateStep (s : Shared) (u : Update) : Option Shared := some (updateSPInfo u s).1

/-- The messages that the record can follow: no access point of `old` comes back, and one that is
deleted is of `old`, stands where it stood there, and finds the next slot aligned with the count. -/
def InOrder (old : List Mac) (s : Shared) (u : Update) : Prop :=
  (u.msg.msgCmd = .spAddNewOne → findSpByMAC s.head.slList u.mac = none → u.mac ∉ old) ∧
    (u.msg.msgCmd = .spDelOldOne → ∀ index, findSpByMAC s.head.slList u.mac = some index →
      s.head.infoUpdateMatrix.validIndex = s.head.infoUpdateMatrix.delCount ∧
        old[index]? = some u.mac)

section Record

variable {s t : Shared} {u : Update} {old : List Mac}

/-- An address that was not in the old list changes nothing about what was removed from it. -/
lemma removedFrom_add {n : Node} (hn : n.bssid ∉ old) :
    (s.add n).head.removedFrom old = s.head.removedFrom old := by
  unfold Head.removedFrom
  congr 1
  apply List.filter_congr
  intro i hi
  have hne : old.getD i default ≠ n.bssid := by
    intro he
    apply hn
    rw [← he, List.getD_eq_getElem _ _ (List.mem_range.1 hi)]
    exact List.getElem_mem _
  rw [decide_eq_decide, macs_add, List.mem_cons]
  exact not_congr (or_iff_right hne)

/-- A deletion adds the old position of the address to what was removed. -/
lemma removedFrom_delete {i : Nat} (ho : old.Nodup) (hn : s.head.macs.Nodup)
    (hf : findSpByMAC s.head.slList u.mac = some i) (hi : old[i]? = some u.mac) :
    ((s.delete i).head.removedFrom old).Perm (s.head.removedFrom old ++ [(i : Int)]) := by
  obtain ⟨hlt, hget⟩ := List.getElem?_eq_some_iff.1 hi
  have hpos : ∀ k < old.length, (old.getD k default = u.mac ↔ k = i) := by
    intro k hk
    rw [List.getD_eq_getElem _ _ hk, ← hget]
    exact ho.getElem_inj_iff
  have hin : u.mac ∈ s.head.macs := by
    obtain ⟨hl, hb⟩ := findSpByMAC_eq_some hf
    rw [← hb]
    exact List.mem_map_of_mem (List.getElem_mem hl)
  change (List.map Int.ofNat _).Perm (List.map Int.ofNat _ ++ List.map Int.ofNat [i])
  rw [← List.map_append]
  refine List.Perm.map _ ?_
  rw [List.perm_ext_iff_of_nodup (List.nodup_range.filter _)]
  · intro k
    simp only [List.mem_filter, List.mem_range, decide_eq_true_eq, List.mem_append,
      List.mem_singleton, mem_macs_delete hn hf, not_and]
    grind
  · rw [List.nodup_append]
    refine ⟨List.nodup_range.filter _, List.nodup_singleton _, ?_⟩
    intro a ha b hb hab
    rw [List.mem_singleton] at hb
    simp only [List.mem_filter, List.mem_range, decide_eq_true_eq] at ha
    apply ha.2
    rw [(hpos a ha.1).2 (hab.trans hb)]
    exact hin

/-- With the next slot aligned, a deletion appends its position to the record. -/
lemma recorded_delete {i : Nat}
    (h : s.head.infoUpdateMatrix.validIndex = s.head.infoUpdateMatrix.delCount) :
    (s.delete i).head.recorded = s.head.recorded ++ [(i : Int)] := by
  unfold Head.recorded slice
  dsimp only [Shared.delete]
  rw [List.range'_concat, List.map_append, h]
  congr 1
  · apply List.map_congr_left
    intro k hk
    have hk' : k < s.head.infoUpdateMatrix.delCount := by simpa using hk
    exact Function.update_of_ne (Nat.ne_of_lt hk') _ _
  · simp

/-- One message keeps the record right. -/
lemma Updates.recorded_perm (h : Updates u s t) (ho : old.Nodup) (hn : s.head.macs.Nodup)
    (hc : InOrder old s u) (hr : s.head.recorded.Perm (s.head.removedFrom old)) :
    t.head.recorded.Perm (t.head.removedFrom old) := by
  cases h with
  | ignored => exact hr
  | added hcmd hf =>
    rw [removedFrom_add (hc.1 hcmd hf)]
    exact hr
  | unknown => exact hr
  | deleted hcmd hf =>
    obtain ⟨hv, hi⟩ := hc.2 hcmd _ hf
    rw [recorded_delete hv]
    exact (hr.append_right _).trans (removedFrom_delete ho hn hf hi).symm
  | started => exact hr
  | operational =>
    rw [Head.removedFrom, macs_forceScan]
    exact hr

end Record

/-- From the last update of the matrices on, as long as every message is one the record can follow,
the recorded positions are those of the removed access points in the list as it was then, each
once. -/
theorem delIndexArray_positions (s₀ s : Shared) (hz : s₀.head.infoUpdateMatrix = .zero)
    (hn : s₀.head.macs.Nodup) (r : Reach updateStep (InOrder s₀.head.macs) s₀ s) :
    s.head.recorded.Perm (s.head.removedFrom s₀.head.macs) := by
  have hinv : s.head.macs.Nodup ∧ s.head.recorded.Perm (s.head.removedFrom s₀.head.macs) := by
    refine r.invariant (I := fun s => s.head.macs.Nodup ∧
      s.head.recorded.Perm (s.head.removedFrom s₀.head.macs)) ⟨hn, ?_⟩ ?_
    · have hnil : s₀.head.removedFrom s₀.head.macs = [] := by
        rw [Head.removedFrom, List.map_eq_nil_iff, List.filter_eq_nil_iff]
        intro i hi
        rw [List.getD_eq_getElem _ _ (List.mem_range.1 hi)]
        simp
      rw [hnil, Head.recorded, hz]
      exact .refl _
    · rintro s u t ⟨hns, hrs⟩ hc hstep
      cases hstep
      have hu := updateSPInfo_updates u s
      exact ⟨hu.macs_nodup hns, hu.recorded_perm hn hns hc hrs⟩
  exact hinv.2

/-- Two access points right after an update of the matrices. -/
def Shared.pair : Shared :=
  ⟨{ Head.init with slList := [Node.sample 1, Node.sample 2], oldListCount := 2 }, false, false, []⟩

/-- The message that deletes an access point. -/
def Update.del (x : UInt8) : Update :=
  ⟨⟨.spDelOldOne, Mac.sample x⟩, .forceAllSpScan, true, default⟩

/-- Deleted from the end of the list, both are recorded where they stood. -/
theorem delIndexArray_positions_from_end :
    ∃ s, run updateStep Shared.pair [.del 2, .del 1] = some s ∧
      s.head.recorded.Perm (s.head.removedFrom Shared.pair.head.macs) := by
  refine ⟨_, rfl, ?_⟩
  refine delIndexArray_positions Shared.pair _ rfl (by decide) ?_
  refine .tail (.del 1) (.tail (.del 2) .refl ⟨by decide, ?_⟩ rfl) ⟨by decide, ?_⟩ rfl
  · intro _ index hf
    cases hf
    decide
  · intro _ index hf
    cases hf
    decide

/-- Deleted from the head of the list, the second is recorded at position 0 too. -/
theorem delIndexArray_wrong_from_head :
    Shared.pair.head.infoUpdateMatrix = .zero ∧ Shared.pair.head.macs.Nodup ∧
      ∃ s, run updateStep Shared.pair [.del 1, .del 2] = some s ∧ s.head.recorded = [0, 0] ∧
        s.head.removedFrom Shared.pair.head.macs = [0, 1] ∧
        ¬ s.head.recorded.Perm (s.head.removedFrom Shared.pair.head.macs) :=
  ⟨rfl, by decide, _, rfl, by decide, by decide, by decide⟩

end CcodeTest.Dcs
