import CcodeTest.Lib.Standing
import CcodeTest.Dcs.Scan

/-!
# What becomes of a scan result

For every access point of the list the traversal goes through the entries of the scan result, and on
the way it stores each entry for the interference table, the signal strength of the access point's own
entry, and whether an entry counts for the table. `reaches` says which entries one pass gets to: all
of them when the virtual access points are known, else those up to the first one with the same five
bytes. What is stored is then followed entry by entry, first through one pass and then through all of
them; of the marks of an entry the last one stands.
-/

namespace CcodeTest.Dcs
open CcodeTest.Lib

/-- No entry before the `m`-th has the same first five bytes. -/
def firstOfSp (results : List ScanResult) (m : Nat) (x : Mac) : Bool :=
  (results.take m).all fun r => !x.sameSp r.bssid

/-- The pass for the node gets to the `m`-th entry. -/
def reaches (n : Node) (results : List ScanResult) (m : Nat) : Bool :=
  n.vapResolved || firstOfSp results m n.bssid

/-- An entry at which the pass for the node ends. -/
def stopsAt (n : Node) (x : Mac) : Bool := n.bssid.sameSp x && !n.vapResolved

/-- `pScanResult->BSSID[5] - pACPNodeTemp->BSSID[5]`, an `int`. -/
def lastByteDiff (n : Node) (x : Mac) : Int := (x.b5.toNat : Int) - n.bssid.b5.toNat

/-- The channel of the access point at the position is fixed. -/
def Head.fixedAt (h : Head) (col : Nat) : Bool := (h.pAPFixedCh.cell col).1 != 0

/-- Two addresses are the same when they belong to one access point and end alike. -/
lemma eq_iff_sameSp {a b : Mac} : a = b ↔ a.sameSp b = true ∧ a.b5 = b.b5 := by
  obtain ⟨a0, a1, a2, a3, a4, a5⟩ := a
  obtain ⟨b0, b1, b2, b3, b4, b5⟩ := b
  simp [Mac.sameSp, and_assoc]

section Entry

variable {row col : Nat} {n : Node} {r : ScanResult} {m : Nat} {h : Head}

/-- What the pass marks an entry with that it gets to, `none` if it leaves the mark alone. -/
def mark (fixed : Bool) (n : Node) (x : Mac) : Option Bool :=
  if n.bssid.sameSp x then
    if n.vapResolved ∧ lastByteDiff n x ≤ maxNumVap - 1 then some false
    else if n.bssid.b5 = x.b5 then some fixed
    else none
  else none

/-- One turn of the inner loop. -/
def visitEntry (row col : Nat) (n : Node) (r : ScanResult) (m : Nat) (h : Head) : Head :=
  { h with
    rfEvaluate :=
      ⟨Function.update h.rfEvaluate.scanResultRSSI m r.rssi,
        Function.update h.rfEvaluate.chanFreq m (r.channel % 65536)⟩
    pRSSIMatrix :=
      { h.pRSSIMatrix with
        cell :=
          if n.bssid = r.bssid then
            setCell h.pRSSIMatrix.cell row col (storedRssi h row col r.rssi)
          else h.pRSSIMatrix.cell }
    findFlag := Function.update h.findFlag m
      ((mark (h.fixedAt col) n r.bssid).getD (h.findFlag m)) }

/-- The inner loop takes the turn of its first entry and ends, or goes on with the others. -/
lemma traverseNode_cons (rs : List (ScanResult × Nat)) :
    traverseNode row col n ((r, m) :: rs) h =
      if stopsAt n r.bssid then visitEntry row col n r m h
      else traverseNode row col n rs (visitEntry row col n r m h) := by
  have hgo : ¬ (n.bssid.sameSp r.bssid && !true) = true := by simp
  rw [traverseNode, stopsAt]
  dsimp only
  by_cases hs : n.bssid.sameSp r.bssid = true
  · rw [if_pos hs]
    by_cases hb : n.bssid.b5 = r.bssid.b5
    · have heq : n.bssid = r.bssid := eq_iff_sameSp.2 ⟨hs, hb⟩
      have hdiff : lastByteDiff n r.bssid ≤ maxNumVap - 1 := by
        rw [lastByteDiff, hb, Int.sub_self]
        decide
      rw [if_pos hb]
      cases hv : n.vapResolved with
      | false =>
        have hm : mark (h.fixedAt col) n r.bssid = some (h.fixedAt col) := by
          simp [mark, hs, hb, hv]
        rw [if_neg Bool.false_ne_true, if_pos (by rw [hs]; rfl), visitEntry, if_pos heq, hm]
        rfl
      | true =>
        have hm : mark (h.fixedAt col) n r.bssid = some false := by
          simp [mark, hs, hv, hdiff]
        rw [if_pos rfl, if_pos (by exact hdiff), if_neg hgo, visitEntry, if_pos heq, hm]
        simp only [recordManaged, Function.update_idem]
        rfl
    · have hne : ¬ n.bssid = r.bssid := fun he => hb (congrArg Mac.b5 he)
      rw [if_neg hb]
      cases hv : n.vapResolved with
      | false =>
        have hm : mark (h.fixedAt col) n r.bssid = none := by
          simp [mark, hs, hb, hv]
        rw [if_neg Bool.false_ne_true, if_pos (by rw [hs]; rfl), visitEntry, if_neg hne, hm]
        simp only [Option.getD_none, Function.update_eq_self]
      | true =>
        rw [if_pos rfl, if_neg hgo]
        by_cases hd : lastByteDiff n r.bssid ≤ maxNumVap - 1
        · have hm : mark (h.fixedAt col) n r.bssid = some false := by
            simp [mark, hs, hv, hd]
          rw [if_pos (by exact hd), visitEntry, if_neg hne, hm]
          rfl
        · have hm : mark (h.fixedAt col) n r.bssid = none := by
            simp [mark, hs, hb, hv, hd]
          rw [if_neg (by exact hd), visitEntry, if_neg hne, hm]
          simp only [Option.getD_none, Function.update_eq_self]
  · have hne : ¬ n.bssid = r.bssid := fun he => hs (eq_iff_sameSp.1 he).1
    have hm : mark (h.fixedAt col) n r.bssid = none := if_neg hs
    rw [if_neg hs, if_neg (by simp [hs]), visitEntry, if_neg hne, hm]
    simp only [Option.getD_none, Function.update_eq_self]

/-- What is kept of an entry: its strength and frequency, and whether it counts. -/
def Head.entry (h : Head) (m : Nat) : Nat × Nat × Bool :=
  (h.rfEvaluate.scanResultRSSI m, h.rfEvaluate.chanFreq m, h.findFlag m)

/-- The same after the pass for a node has got to the entry. -/
def recorded (fixed : Bool) (n : Node) (r : ScanResult) (old : Nat × Nat × Bool) :
    Nat × Nat × Bool :=
  (r.rssi, r.channel % 65536, (mark fixed n r.bssid).getD old.2.2)

/-- What a visit does to its own entry. -/
lemma visitEntry_entry_self :
    (visitEntry row col n r m h).entry m = recorded (h.fixedAt col) n r (h.entry m) := by
  simp [visitEntry, Head.entry, recorded]

/-- It leaves the other entries alone. -/
lemma visitEntry_entry_ne {x : Nat} (hx : x ≠ m) :
    (visitEntry row col n r m h).entry x = h.entry x := by
  simp [visitEntry, Head.entry, hx]

end Entry

section Pass

variable {row col : Nat} {n : Node} {r : ScanResult} {h : Head} {rs : List ScanResult} {k j : Nat}

/-- The first result is always reached. -/
lemma reaches_zero : reaches n rs 0 = true := by
  simp [reaches, firstOfSp]

/-- Behind its first entry a pass gets to what a pass over the others gets to, unless it ends
there. -/
lemma reaches_succ : reaches n (r :: rs) (j + 1) = (!stopsAt n r.bssid && reaches n rs j) := by
  simp only [reaches, firstOfSp, stopsAt, List.take_succ_cons, List.all_cons]
  cases n.vapResolved <;> cases n.bssid.sameSp r.bssid <;> rfl

/-- A pass leaves the entries before its first one alone. -/
lemma traverseNode_entry_lt {m : Nat} (hm : m < k) :
    (traverseNode row col n (rs.zipIdx k) h).entry m = h.entry m := by
  induction rs generalizing k h with
  | nil => rfl
  | cons r rs ih =>
    rw [List.zipIdx_cons, traverseNode_cons]
    split
    · exact visitEntry_entry_ne (Nat.ne_of_lt hm)
    · rw [ih (by omega), visitEntry_entry_ne (Nat.ne_of_lt hm)]

/-- A pass records the entries it gets to and leaves the others alone. -/
lemma traverseNode_entry (row col : Nat) (n : Node) (h : Head) (k : Nat) (hr : rs[j]? = some r) :
    (traverseNode row col n (rs.zipIdx k) h).entry (k + j) =
      if reaches n rs j then recorded (h.fixedAt col) n r (h.entry (k + j))
      else h.entry (k + j) := by
  induction rs generalizing k j h with
  | nil => cases hr
  | cons x rs ih =>
    rw [List.zipIdx_cons, traverseNode_cons]
    cases j with
    | zero =>
      cases hr
      simp only [Nat.add_zero]
      rw [if_pos reaches_zero]
      split
      · exact visitEntry_entry_self
      · rw [traverseNode_entry_lt (Nat.lt_succ_self k), visitEntry_entry_self]
    | succ j =>
      have hne : k + (j + 1) ≠ k := by omega
      rw [List.getElem?_cons_succ] at hr
      rw [reaches_succ]
      cases stopsAt n x.bssid with
      | true => exact visitEntry_entry_ne hne
      | false =>
        have hrest := ih (visitEntry row col n x k h) (k + 1) hr
        rw [show k + 1 + j = k + (j + 1) by omega, visitEntry_entry_ne hne] at hrest
        exact hrest

/-- A pass writes one cell of the matrix of signal strengths at most. -/
lemma traverseNode_cell_ne {l : List (ScanResult × Nat)} {a b : Nat} (hab : a = row → b ≠ col) :
    (traverseNode row col n l h).rssi a b = h.rssi a b := by
  induction l generalizing h with
  | nil => rfl
  | cons x l ih =>
    have hvisit : (visitEntry row col n x.1 x.2 h).rssi a b = h.rssi a b := by
      unfold visitEntry Head.rssi
      dsimp only
      split
      · exact setCell_of_ne hab
      · rfl
    rw [traverseNode_cons]
    split
    · exact hvisit
    · rw [ih, hvisit]

/-- Without an entry of the node, the cell stays. -/
lemma traverseNode_cell_none (hno : ∀ x ∈ rs, n.bssid ≠ x.bssid) :
    (traverseNode row col n (rs.zipIdx k) h).rssi row col = h.rssi row col := by
  induction rs generalizing k h with
  | nil => rfl
  | cons x rs ih =>
    have hvisit : (visitEntry row col n x k h).rssi = h.rssi := by
      unfold visitEntry Head.rssi
      rw [if_neg (hno x (List.mem_cons_self ..))]
    rw [List.zipIdx_cons, traverseNode_cons]
    split
    · rw [hvisit]
    · rw [ih fun y hy => hno y (List.mem_cons_of_mem _ hy), hvisit]

/-- The value stored depends on the round, the adjacency and the old value only. -/
lemma storedRssi_congr {h h' : Head} {row col v : Nat} (hround : h'.roundOfCalc = h.roundOfCalc)
    (hadj : h'.pAdjacentMatrix = h.pAdjacentMatrix) (hcell : h'.rssi row col = h.rssi row col) :
    storedRssi h' row col v = storedRssi h row col v := by
  rw [storedRssi, storedRssi, hround, hadj, hcell]

/-- A pass stores what the node's own entry comes to if it gets there. -/
lemma traverseNode_cell (hnd : (rs.map (·.bssid)).Nodup) (hr : rs[j]? = some r)
    (hown : n.bssid = r.bssid) :
    (traverseNode row col n (rs.zipIdx k) h).rssi row col =
      if reaches n rs j then storedRssi h row col r.rssi else h.rssi row col := by
  induction rs generalizing k j h with
  | nil => cases hr
  | cons x rs ih =>
    rw [List.map_cons, List.nodup_cons] at hnd
    rw [List.zipIdx_cons, traverseNode_cons]
    cases j with
    | zero =>
      cases hr
      have hvisit : (visitEntry row col n r k h).rssi row col = storedRssi h row col r.rssi := by
        unfold visitEntry Head.rssi
        dsimp only
        rw [if_pos hown, setCell_self]
      rw [if_pos reaches_zero]
      split
      · exact hvisit
      · rw [traverseNode_cell_none, hvisit]
        intro y hy he
        exact hnd.1 (List.mem_map.2 ⟨y, hy, (hown.symm.trans he).symm⟩)
    | succ j =>
      rw [List.getElem?_cons_succ] at hr
      have hx : n.bssid ≠ x.bssid := by
        intro he
        exact hnd.1 (List.mem_map.2 ⟨r, List.mem_of_getElem? hr, hown.symm.trans he⟩)
      have hvisit : (visitEntry row col n x k h).rssi = h.rssi := by
        unfold visitEntry Head.rssi
        rw [if_neg hx]
      rw [reaches_succ]
      cases stopsAt n x.bssid with
      | true => exact congrFun (congrFun hvisit row) col
      | false =>
        have hrest := ih (k := k + 1) (h := visitEntry row col n x k h) hnd.2 hr
        have hstored : storedRssi (visitEntry row col n x k h) row col r.rssi =
            storedRssi h row col r.rssi :=
          storedRssi_congr rfl rfl (congrFun (congrFun hvisit row) col)
        rw [hstored, hvisit] at hrest
        exact hrest

/-- A pass does not change whose channels are fixed, nor the round. -/
lemma traverseNode_fixedAt {l : List (ScanResult × Nat)} :
    (traverseNode row col n l h).fixedAt = h.fixedAt := by
  obtain ⟨cell, flag, rf, heq⟩ := traverseNode_frame row col n l h
  rw [heq]
  rfl

/-- The results of a node do not touch the adjacency. -/
lemma traverseNode_pAdjacentMatrix {l : List (ScanResult × Nat)} :
    (traverseNode row col n l h).pAdjacentMatrix = h.pAdjacentMatrix := by
  obtain ⟨cell, flag, rf, heq⟩ := traverseNode_frame row col n l h
  rw [heq]

/-- Nor the round. -/
lemma traverseNode_roundOfCalc {l : List (ScanResult × Nat)} :
    (traverseNode row col n l h).roundOfCalc = h.roundOfCalc := by
  obtain ⟨cell, flag, rf, heq⟩ := traverseNode_frame row col n l h
  rw [heq]

end Pass

section Traversal

variable {row col m : Nat} {h : Head} {r : ScanResult} {rs : List ScanResult} {ns : List Node}
  {fixed : Nat → Bool}

/-- The pass for the node at the position takes the entry out of the interference table. -/
def takesOut (fixed : Nat → Bool) (rs : List ScanResult) (m : Nat) (x : Mac) (e : Node × Nat) :
    Prop :=
  reaches e.1 rs m = true ∧ mark (fixed e.2) e.1 x = some false

/-- It puts the entry back in. -/
def putsBack (fixed : Nat → Bool) (rs : List ScanResult) (m : Nat) (x : Mac) (e : Node × Nat) :
    Prop :=
  reaches e.1 rs m = true ∧ mark (fixed e.2) e.1 x = some true

/-- What one pass does to a mark. -/
lemma traverseNode_findFlag {n : Node} (hr : rs[m]? = some r) :
    (traverseNode row col n rs.zipIdx h).findFlag m = false ↔
      takesOut h.fixedAt rs m r.bssid (n, col) ∨
        h.findFlag m = false ∧ ¬ putsBack h.fixedAt rs m r.bssid (n, col) := by
  have hentry := traverseNode_entry row col n h 0 hr
  have hflag : (traverseNode row col n rs.zipIdx h).findFlag m =
      if reaches n rs m then (mark (h.fixedAt col) n r.bssid).getD (h.findFlag m)
      else h.findFlag m := by
    rw [Nat.zero_add] at hentry
    refine (congrArg (fun x => x.2.2) hentry).trans ?_
    split <;> rfl
  rw [hflag, takesOut, putsBack]
  cases reaches n rs m with
  | false => simp
  | true =>
    cases hm : mark (h.fixedAt col) n r.bssid with
    | none => simp
    | some b => cases b <;> simp

/-- After the passes an entry is out of the table if the last mark it got says so. -/
lemma traverseNodes_findFlag (hf : h.fixedAt = fixed) (hr : rs[m]? = some r) :
    (traverseNodes row rs.zipIdx ns col h).findFlag m = false ↔
      Standing (takesOut fixed rs m r.bssid) (putsBack fixed rs m r.bssid) (h.findFlag m = false)
        (ns.zipIdx col) := by
  induction ns generalizing col h with
  | nil => exact standing_nil.symm
  | cons n ns ih =>
    rw [traverseNodes, ih (traverseNode_fixedAt.trans hf), List.zipIdx_cons, standing_cons,
      traverseNode_findFlag hr, hf]

/-- After the passes an entry is stored if one of them got to it. -/
lemma traverseNodes_stored (row col : Nat) (ns : List Node) (h : Head) (hr : rs[m]? = some r) :
    let t := traverseNodes row rs.zipIdx ns col h
    (t.rfEvaluate.scanResultRSSI m, t.rfEvaluate.chanFreq m) =
      if ns.any (reaches · rs m) then (r.rssi, r.channel % 65536)
      else (h.rfEvaluate.scanResultRSSI m, h.rfEvaluate.chanFreq m) := by
  induction ns generalizing col h with
  | nil => rfl
  | cons n ns ih =>
    have hentry := traverseNode_entry row col n h 0 hr
    have hstored : ((traverseNode row col n rs.zipIdx h).rfEvaluate.scanResultRSSI m,
        (traverseNode row col n rs.zipIdx h).rfEvaluate.chanFreq m) =
        if reaches n rs m then (r.rssi, r.channel % 65536)
        else (h.rfEvaluate.scanResultRSSI m, h.rfEvaluate.chanFreq m) := by
      rw [Nat.zero_add] at hentry
      refine (congrArg (fun x => (x.1, x.2.1)) hentry).trans ?_
      split <;> rfl
    refine (ih (col + 1) (traverseNode row col n rs.zipIdx h)).trans ?_
    rw [hstored, List.any_cons]
    cases reaches n rs m <;> cases ns.any (reaches · rs m) <;> rfl

/-- The passes after a column leave it alone. -/
lemma traverseNodes_cell_lt {l : List (ScanResult × Nat)} {c : Nat} (hc : c < col) :
    (traverseNodes row l ns col h).rssi row c = h.rssi row c := by
  induction ns generalizing col h with
  | nil => rfl
  | cons n ns ih =>
    rw [traverseNodes, ih (Nat.lt_succ_of_lt hc), traverseNode_cell_ne fun _ => Nat.ne_of_lt hc]

/-- The passes store what a node's own entry comes to if the node's pass gets there. -/
lemma traverseNodes_cell {n : Node} {i : Nat} (row col : Nat) (hnd : (rs.map (·.bssid)).Nodup)
    (hr : rs[m]? = some r) (hn : ns[i]? = some n) (hown : n.bssid = r.bssid) :
    (traverseNodes row rs.zipIdx ns col h).rssi row (col + i) =
      if reaches n rs m then storedRssi h row (col + i) r.rssi else h.rssi row (col + i) := by
  induction ns generalizing col i h with
  | nil => cases hn
  | cons x ns ih =>
    rw [traverseNodes]
    cases i with
    | zero =>
      cases hn
      simp only [Nat.add_zero]
      rw [traverseNodes_cell_lt (Nat.lt_succ_self col)]
      exact traverseNode_cell hnd hr hown
    | succ i =>
      rw [List.getElem?_cons_succ] at hn
      have hrest := ih (h := traverseNode row col x rs.zipIdx h) (col + 1) hn
      have hcell : (traverseNode row col x rs.zipIdx h).rssi row (col + (i + 1)) =
          h.rssi row (col + (i + 1)) := traverseNode_cell_ne fun _ => by omega
      rw [show col + 1 + i = col + (i + 1) by omega,
        storedRssi_congr traverseNode_roundOfCalc traverseNode_pAdjacentMatrix hcell, hcell] at hrest
      exact hrest

end Traversal

section Recorded

variable {row : Nat} {h : Head} {results : List ScanResult}

/-- The signal strengths of the listed access points that were heard stand in the row, and every
entry stands in the table with its strength and its channel. -/
def RecordedAll (h t : Head) (row : Nat) (results : List ScanResult) : Prop :=
  (∀ (col m : Nat) (n : Node) (r : ScanResult), h.slList[col]? = some n → results[m]? = some r →
      n.bssid = r.bssid → t.rssi row col = r.rssi) ∧
    ∀ (m : Nat) (r : ScanResult), results[m]? = some r →
      t.rfEvaluate.scanResultRSSI m = r.rssi ∧ t.rfEvaluate.chanFreq m = r.channel

/-- The first round of the traversal records a scan result completely exactly when the pass of every
access point heard gets to its own entry, and to every entry gets the pass of some access point;
what no pass gets to is right only if it was there before. -/
theorem traverseResults_records_iff (h0 : h.roundOfCalc = 0)
    (hnd : (results.map (·.bssid)).Nodup) :
    RecordedAll h (traverseResults h row results) row results ↔
      (∀ (col m : Nat) (n : Node) (r : ScanResult), h.slList[col]? = some n →
          results[m]? = some r → n.bssid = r.bssid →
          reaches n results m = true ∨ h.rssi row col = r.rssi) ∧
        ∀ (m : Nat) (r : ScanResult), results[m]? = some r →
          if ∃ n ∈ h.slList, reaches n results m = true then r.channel < 65536
          else h.rfEvaluate.scanResultRSSI m = r.rssi ∧ h.rfEvaluate.chanFreq m = r.channel := by
  refine and_congr ?_ ?_
  · refine forall_congr' fun col => forall_congr' fun m => forall_congr' fun n =>
      forall_congr' fun r => forall_congr' fun hn => forall_congr' fun hr =>
      forall_congr' fun hown => ?_
    have hcell := traverseNodes_cell (h := { h with findFlag := fun _ => true }) row 0 hnd hr hn hown
    rw [Nat.zero_add, storedRssi, if_pos (show _ = 0 from h0)] at hcell
    rw [traverseResults, hcell]
    cases reaches n results m with
    | true => simp
    | false => simp [Head.rssi]
  · refine forall_congr' fun m => forall_congr' fun r => forall_congr' fun hr => ?_
    have hstored := traverseNodes_stored row 0 h.slList { h with findFlag := fun _ => true } hr
    rw [← Prod.mk.injEq, traverseResults, hstored]
    simp only [List.any_eq_true]
    split
    · rw [Prod.mk.injEq]
      omega
    · rw [Prod.mk.injEq]

/-- Two access points whose virtual access points are not known. -/
def Head.unresolved : Head :=
  { Head.init with
    slList := [Node.sample 2, Node.sample 1], pRSSIMatrix := ⟨some ⟨2, 2⟩, fun _ _ => 0⟩ }

/-- What the first hears of the second: the access point itself and a virtual one of it. -/
def heardOwn : ScanResult := ⟨(Node.sample 1).bssid, 2412, 40⟩

def heardVap : ScanResult := ⟨{ (Node.sample 1).bssid with b5 := 2 }, 2412, 30⟩

/-- The own entry stands first, then another VAP. -/
theorem traverseResults_records_iff_own_first :
    RecordedAll Head.unresolved (traverseResults Head.unresolved 0 [heardOwn, heardVap]) 0
      [heardOwn, heardVap] := by
  apply (traverseResults_records_iff (h := Head.unresolved) rfl (by decide)).2
  refine ⟨?_, ?_⟩
  · rintro (_ | _ | col) (_ | _ | m) n r hn hr hown
    all_goals cases hn
    all_goals cases hr
    · exact absurd hown (by decide)
    · exact absurd hown (by decide)
    · exact .inl (by decide)
    · exact absurd hown (by decide)
  · rintro (_ | _ | m) r hr
    all_goals cases hr
    · rw [if_pos (by decide)]
      decide
    · rw [if_pos (by decide)]
      decide

/-- When the virtual one comes first, the pass for the second ends there, and the cell for the
access point itself, heard with 40, stays zero. -/
theorem traverseResults_misses_own :
    Head.unresolved.roundOfCalc = 0 ∧ (Head.unresolved.slList.map (·.bssid)).Nodup ∧
      ([heardVap, heardOwn].map (·.bssid)).Nodup ∧
      (traverseResults Head.unresolved 0 [heardVap, heardOwn]).rssi 0 1 = 0 ∧
      ¬ RecordedAll Head.unresolved (traverseResults Head.unresolved 0 [heardVap, heardOwn]) 0
        [heardVap, heardOwn] := by
  have hcell : (traverseResults Head.unresolved 0 [heardVap, heardOwn]).rssi 0 1 = 0 := by decide
  refine ⟨rfl, by decide, by decide, hcell, ?_⟩
  intro hall
  have hown := hall.1 1 1 (Node.sample 1) heardOwn rfl rfl rfl
  rw [hcell] at hown
  cases hown

end Recorded

section Classified

variable {row m c : Nat} {h : Head} {results : List ScanResult} {n : Node} {x : Mac}

/-- The rule for leaving an entry out of the interference table: it is the own entry of a listed
access point whose channel is not fixed, or one of the seven addresses behind a listed access point
whose virtual access points are known. -/
def NotTaken (h : Head) (x : Mac) : Prop :=
  ∃ (c : Nat) (n : Node), h.slList[c]? = some n ∧ n.bssid.sameSp x = true ∧
    (n.bssid.b5 = x.b5 ∧ h.fixedAt c = false ∨
      n.vapResolved = true ∧ 1 ≤ lastByteDiff n x ∧ lastByteDiff n x ≤ 7)

/-- The node's test for virtual access points; addresses before its own pass it too. -/
def Node.eliminates (n : Node) (x : Mac) : Prop :=
  n.bssid.sameSp x = true ∧ n.vapResolved = true ∧ lastByteDiff n x ≤ maxNumVap - 1

/-- The access point at the position finds the entry to be its own, on a fixed channel. -/
def restores (h : Head) (results : List ScanResult) (m : Nat) (x : Mac) (c : Nat) (n : Node) :
    Prop :=
  n.bssid = x ∧ n.vapResolved = false ∧ h.fixedAt c = true ∧ firstOfSp results m x = true

/-- A node differs from itself by nothing. -/
lemma lastByteDiff_self : lastByteDiff n n.bssid = 0 := Int.sub_self _

/-- With its VAPs resolved a node eliminates its own address. -/
lemma Node.eliminates_self (hv : n.vapResolved = true) : n.eliminates n.bssid := by
  refine ⟨(eq_iff_sameSp.1 rfl).1, hv, ?_⟩
  rw [lastByteDiff_self]
  decide

/-- What is marked, and how. -/
lemma mark_eq_some_iff {fixed b : Bool} : mark fixed n x = some b ↔
    n.eliminates x ∧ b = false ∨ n.bssid = x ∧ n.vapResolved = false ∧ b = fixed := by
  constructor
  · intro hmark
    unfold mark at hmark
    split at hmark
    · rename_i hs
      split at hmark
      · rename_i hel
        exact .inl ⟨⟨hs, hel⟩, (Option.some.inj hmark).symm⟩
      · rename_i hel
        split at hmark
        · rename_i hb
          obtain rfl : n.bssid = x := eq_iff_sameSp.2 ⟨hs, hb⟩
          cases hv : n.vapResolved with
          | true => exact absurd (Node.eliminates_self hv).2 hel
          | false => exact .inr ⟨rfl, rfl, (Option.some.inj hmark).symm⟩
        · cases hmark
    · cases hmark
  · rintro (⟨⟨hs, hel⟩, rfl⟩ | ⟨rfl, hv, rfl⟩)
    · rw [mark, if_pos hs, if_pos hel]
    · rw [mark, if_pos (eq_iff_sameSp.1 rfl).1, if_neg (by simp [hv]), if_pos rfl]

/-- The pass gets to every entry that the node eliminates. -/
lemma reaches_of_eliminates (hel : n.eliminates x) : reaches n results m = true := by
  rw [reaches, hel.2.1, Bool.true_or]

/-- Without resolved VAPs it gets as far as the first entry of the access point. -/
lemma reaches_of_unresolved (hv : n.vapResolved = false) :
    reaches n results m = firstOfSp results m n.bssid := by
  rw [reaches, hv, Bool.false_or]

/-- When a node takes an entry out. -/
lemma takesOut_iff : takesOut h.fixedAt results m x (n, c) ↔ n.eliminates x ∨
    n.bssid = x ∧ n.vapResolved = false ∧ h.fixedAt c = false ∧ firstOfSp results m x = true := by
  rw [takesOut, mark_eq_some_iff]
  constructor
  · rintro ⟨hreach, ⟨hel, -⟩ | ⟨rfl, hv, hfix⟩⟩
    · exact .inl hel
    · exact .inr ⟨rfl, hv, hfix.symm, (reaches_of_unresolved hv).symm.trans hreach⟩
  · rintro (hel | ⟨rfl, hv, hfix, hfirst⟩)
    · exact ⟨reaches_of_eliminates hel, .inl ⟨hel, rfl⟩⟩
    · exact ⟨(reaches_of_unresolved hv).trans hfirst, .inr ⟨rfl, hv, hfix.symm⟩⟩

/-- When it puts one back. -/
lemma putsBack_iff :
    putsBack h.fixedAt results m x (n, c) ↔ restores h results m x c n := by
  rw [putsBack, mark_eq_some_iff]
  constructor
  · rintro ⟨hreach, ⟨-, hb⟩ | ⟨rfl, hv, hfix⟩⟩
    · cases hb
    · exact ⟨rfl, hv, hfix.symm, (reaches_of_unresolved hv).symm.trans hreach⟩
  · rintro ⟨rfl, hv, hfix, hfirst⟩
    exact ⟨(reaches_of_unresolved hv).trans hfirst, .inr ⟨rfl, hv, hfix.symm⟩⟩

/-- Some access point leaves the entry out and none behind it in the list puts it back. -/
def LeftOut (h : Head) (results : List ScanResult) (m : Nat) (x : Mac) : Prop :=
  ∃ (c : Nat) (n : Node), h.slList[c]? = some n ∧ takesOut h.fixedAt results m x (n, c) ∧
    ∀ (c' : Nat) (n' : Node), c < c' → h.slList[c']? = some n' → ¬ restores h results m x c' n'

/-- The flag of an entry after all nodes. -/
lemma traverseResults_findFlag {r : ScanResult} (hr : results[m]? = some r) :
    (traverseResults h row results).findFlag m = false ↔ LeftOut h results m r.bssid := by
  have hzip : ∀ (i : Nat) (n : Node) (c : Nat),
      h.slList.zipIdx[i]? = some (n, c) ↔ h.slList[i]? = some n ∧ i = c := by
    intro i n c
    rw [List.getElem?_zipIdx]
    cases h.slList[i]? with
    | none => simp
    | some y => simp
  have hfixed : ({ h with findFlag := fun _ => true } : Head).fixedAt = h.fixedAt := rfl
  rw [traverseResults, traverseNodes_findFlag hfixed hr, standing_iff_getElem?]
  constructor
  · rintro (⟨i, ⟨n, c⟩, he, hin, hout⟩ | ⟨hinit, -⟩)
    · obtain ⟨hn, rfl⟩ := (hzip i n c).1 he
      refine ⟨i, n, hn, hin, ?_⟩
      intro c' n' hc hn' hback
      exact hout c' (n', c') hc ((hzip c' n' c').2 ⟨hn', rfl⟩) (putsBack_iff.2 hback)
    · cases hinit
  · rintro ⟨c, n, hn, hin, hout⟩
    refine .inl ⟨c, (n, c), (hzip c n c).2 ⟨hn, rfl⟩, hin, ?_⟩
    rintro j ⟨n', c'⟩ hj he hback
    obtain ⟨hn', rfl⟩ := (hzip j n' c').1 he
    exact hout j n' hj hn' (putsBack_iff.1 hback)

/-- The access point an entry belongs to stands at one position. -/
lemma own_position_unique {c' : Nat} {n' : Node} (hnd : (h.slList.map (·.bssid)).Nodup)
    (hn : h.slList[c]? = some n) (hn' : h.slList[c']? = some n') (hx : n.bssid = x)
    (hx' : n'.bssid = x) : c = c' := by
  have hc : (h.slList.map (·.bssid))[c]? = some x := by
    rw [List.getElem?_map, hn, Option.map_some, hx]
  have hc' : (h.slList.map (·.bssid))[c']? = some x := by
    rw [List.getElem?_map, hn', Option.map_some, hx']
  obtain ⟨hlt, -⟩ := List.getElem?_eq_some_iff.1 hc
  exact (List.getElem?_inj hlt hnd).1 (hc.trans hc'.symm)

/-- When the marks of an entry come out as the rule says. -/
structure MarkedRight (h : Head) (results : List ScanResult) (m : Nat) (x : Mac) : Prop where
  /-- The own entry of an access point on no fixed channel is marked: it is the first with its five
  bytes, or it passes the test of one whose virtual access points are known. -/
  own : ∀ (c : Nat) (n : Node), h.slList[c]? = some n → n.bssid = x → h.fixedAt c = false →
    firstOfSp results m x = true ∨ ∃ n' ∈ h.slList, n'.eliminates x
  /-- The mark of a virtual access point is not taken back for good. -/
  vap : ∀ n ∈ h.slList, n.eliminates x → 1 ≤ lastByteDiff n x →
    ∀ (c : Nat) (n' : Node), h.slList[c]? = some n' → restores h results m x c n' →
      ∃ (c' : Nat) (n'' : Node), c < c' ∧ h.slList[c']? = some n'' ∧ n''.eliminates x
  /-- No other entry passes for a virtual access point, unless it is put back. -/
  other : ¬ NotTaken h x → ∀ (c : Nat) (n : Node), h.slList[c]? = some n → n.eliminates x →
    ∃ (c' : Nat) (n' : Node), c < c' ∧ h.slList[c']? = some n' ∧ restores h results m x c' n'

/-- The address of a node that is not fixed is not to be taken. -/
lemma notTaken_own (hn : h.slList[c]? = some n) (hx : n.bssid = x) (hfix : h.fixedAt c = false) :
    NotTaken h x := by
  have heq := eq_iff_sameSp.1 hx
  exact ⟨c, n, hn, heq.1, .inl ⟨heq.2, hfix⟩⟩

/-- An entry left out exactly when it is not to be taken is marked right. -/
lemma MarkedRight.of_iff (hnd : (h.slList.map (·.bssid)).Nodup)
    (hiff : LeftOut h results m x ↔ NotTaken h x) : MarkedRight h results m x := by
  refine ⟨?_, ?_, ?_⟩
  · intro c n hn hx hfix
    obtain ⟨c', n', hn', hout, -⟩ := hiff.2 (notTaken_own hn hx hfix)
    rcases takesOut_iff.1 hout with hel | ⟨-, -, -, hfirst⟩
    · exact .inr ⟨n', List.mem_of_getElem? hn', hel⟩
    · exact .inl hfirst
  · intro n hmem hel hdiff c n' hn' hback
    obtain ⟨i, hi⟩ := List.getElem?_of_mem hmem
    obtain ⟨c', n'', hn'', hout, hlast⟩ :=
      hiff.2 ⟨i, n, hi, hel.1, .inr ⟨hel.2.1, hdiff, hel.2.2⟩⟩
    rcases takesOut_iff.1 hout with hel' | ⟨hx, -, hfix, -⟩
    · refine ⟨c', n'', ?_, hn'', hel'⟩
      rcases Nat.lt_trichotomy c c' with hlt | rfl | hgt
      · exact hlt
      · -- the same position would be one of known and of unknown virtual access points
        obtain rfl : n' = n'' := Option.some.inj (hn'.symm.trans hn'')
        cases hback.2.1.symm.trans hel'.2.1
      · exact absurd hback (hlast c n' hgt hn')
    · obtain rfl := own_position_unique hnd hn' hn'' hback.1 hx
      cases hback.2.2.1.symm.trans hfix
  · intro hnot c n hn hel
    by_contra hno
    apply hnot
    apply hiff.1
    refine ⟨c, n, hn, takesOut_iff.2 (.inl hel), ?_⟩
    intro c' n' hc hn' hback
    exact hno ⟨c', n', hc, hn', hback⟩

/-- An entry marked right and left out is not to be taken. -/
lemma MarkedRight.notTaken (hright : MarkedRight h results m x) (hout : LeftOut h results m x) :
    NotTaken h x := by
  obtain ⟨c, n, hn, hout, hlast⟩ := hout
  by_contra hnot
  rcases takesOut_iff.1 hout with hel | ⟨hx, -, hfix, -⟩
  · obtain ⟨c', n', hc, hn', hback⟩ := hright.other hnot c n hn hel
    exact hlast c' n' hc hn' hback
  · exact hnot (notTaken_own hn hx hfix)

/-- One marked right and not to be taken is left out. -/
lemma MarkedRight.leftOut (hright : MarkedRight h results m x)
    (hnd : (h.slList.map (·.bssid)).Nodup) (hnot : NotTaken h x) : LeftOut h results m x := by
  obtain ⟨c, n, hn, hs, ⟨hb, hfix⟩ | ⟨hv, hdiff, hle⟩⟩ := hnot
  · have hx : n.bssid = x := eq_iff_sameSp.2 ⟨hs, hb⟩
    -- the only access point that could put the entry back is the one at `c`
    have hback : ∀ (c' : Nat) (n' : Node), h.slList[c']? = some n' →
        ¬ restores h results m x c' n' := by
      intro c' n' hn' hback
      obtain rfl := own_position_unique hnd hn hn' hx hback.1
      cases hback.2.2.1.symm.trans hfix
    rcases hright.own c n hn hx hfix with hfirst | ⟨n', hmem, hel⟩
    · refine ⟨c, n, hn, takesOut_iff.2 ?_, fun c' n' _ => hback c' n'⟩
      cases hv : n.vapResolved with
      | true =>
        rw [← hx]
        exact .inl (Node.eliminates_self hv)
      | false => exact .inr ⟨hx, rfl, hfix, hfirst⟩
    · obtain ⟨i, hi⟩ := List.getElem?_of_mem hmem
      exact ⟨i, n', hi, takesOut_iff.2 (.inl hel), fun c' n'' _ => hback c' n''⟩
  · have hel : n.eliminates x := ⟨hs, hv, hle⟩
    by_cases hback : ∃ (c' : Nat) (n' : Node), h.slList[c']? = some n' ∧
        restores h results m x c' n'
    · obtain ⟨c', n', hn', hback⟩ := hback
      obtain ⟨i, n'', hlt, hi, hel'⟩ :=
        hright.vap n (List.mem_of_getElem? hn) hel hdiff c' n' hn' hback
      refine ⟨i, n'', hi, takesOut_iff.2 (.inl hel'), ?_⟩
      intro j y hj hy hback'
      have hpos := own_position_unique hnd hn' hy hback.1 hback'.1
      omega
    · refine ⟨c, n, hn, takesOut_iff.2 (.inl hel), ?_⟩
      intro c' n' _ hn' hback'
      exact hback ⟨c', n', hn', hback'⟩

/-- The marks for the interference table are those of the rule exactly when they come out right
entry by entry. -/
theorem traverseResults_notTaken_iff (hnd : (h.slList.map (·.bssid)).Nodup) :
    (∀ (m : Nat) (r : ScanResult), results[m]? = some r →
        ((traverseResults h row results).findFlag m = false ↔ NotTaken h r.bssid)) ↔
      ∀ (m : Nat) (r : ScanResult), results[m]? = some r → MarkedRight h results m r.bssid := by
  refine forall_congr' fun m => forall_congr' fun r => forall_congr' fun hr => ?_
  rw [traverseResults_findFlag hr]
  constructor
  · intro hiff
    exact MarkedRight.of_iff hnd hiff
  · intro hright
    exact ⟨hright.notTaken, hright.leftOut hnd⟩

/-- An access point whose virtual access points are known, on a fixed channel or not. -/
def Head.resolved (fixedCh : Nat) : Head :=
  { Head.init with
    slList := [{ Node.sample 1 with vapResolved := true }]
    pAPFixedCh := ⟨some 1, fun _ => (fixedCh, 0)⟩ }

/-- A node with resolved VAPs puts nothing back. -/
lemma not_restores_resolved {fixedCh : Nat} (hn : (Head.resolved fixedCh).slList[c]? = some n) :
    ¬ restores (Head.resolved fixedCh) results m x c n := by
  intro hback
  cases c with
  | zero =>
    cases hn
    cases hback.2.1
  | succ c => cases hn

/-- The own entry and another VAP of a node that is not fixed. -/
theorem traverseResults_notTaken_iff_own_and_vap :
    ((traverseResults (Head.resolved 0) 0 [heardOwn, heardVap]).findFlag 0 = false ↔
        NotTaken (Head.resolved 0) heardOwn.bssid) ∧
      ((traverseResults (Head.resolved 0) 0 [heardOwn, heardVap]).findFlag 1 = false ↔
        NotTaken (Head.resolved 0) heardVap.bssid) := by
  have hright : ∀ (m : Nat) (r : ScanResult), [heardOwn, heardVap][m]? = some r →
      MarkedRight (Head.resolved 0) [heardOwn, heardVap] m r.bssid := by
    rintro (_ | _ | m) r hr
    all_goals cases hr
    · refine ⟨fun _ _ _ _ _ => .inl (by decide), ?_, ?_⟩
      · intro n _ _ _ c n' hn' hback
        exact absurd hback (not_restores_resolved hn')
      · intro hnot
        exact absurd ⟨0, _, rfl, by decide, .inl ⟨by decide, by decide⟩⟩ hnot
    · refine ⟨?_, ?_, ?_⟩
      · rintro (_ | c) n hn hx
        · cases hn
          exact absurd hx (by decide)
        · cases hn
      · intro n _ _ _ c n' hn' hback
        exact absurd hback (not_restores_resolved hn')
      · intro hnot
        exact absurd ⟨0, _, rfl, by decide, .inr ⟨by decide, by decide, by decide⟩⟩ hnot
  exact ⟨(traverseResults_notTaken_iff (by decide)).2 hright 0 heardOwn rfl,
    (traverseResults_notTaken_iff (by decide)).2 hright 1 heardVap rfl⟩

/-- The address before the access point is nobody's, and the access point itself is on channel 6;
both are left out. -/
theorem traverseResults_leaves_out_foreign_and_fixed :
    let before : ScanResult := ⟨{ (Node.sample 1).bssid with b5 := 0 }, 2412, 40⟩
    ((Head.resolved 6).slList.map (·.bssid)).Nodup ∧
      ([before, heardOwn].map (·.bssid)).Nodup ∧
      (traverseResults (Head.resolved 6) 0 [before, heardOwn]).findFlag 0 = false ∧
      ¬ NotTaken (Head.resolved 6) before.bssid ∧
      (traverseResults (Head.resolved 6) 0 [before, heardOwn]).findFlag 1 = false ∧
      ¬ NotTaken (Head.resolved 6) heardOwn.bssid := by
  refine ⟨by decide, by decide, by decide, ?_, by decide, ?_⟩
  · rintro ⟨_ | c, n, hn, -, ⟨hb, -⟩ | ⟨-, hdiff, -⟩⟩
    · cases hn
      exact absurd hb (by decide)
    · cases hn
      exact absurd hdiff (by decide)
    · cases hn
    · cases hn
  · rintro ⟨_ | c, n, hn, -, ⟨-, hfix⟩ | ⟨-, hdiff, -⟩⟩
    · cases hn
      exact absurd hfix (by decide)
    · cases hn
      exact absurd hdiff (by decide)
    · cases hn
    · cases hn

end Classified

end CcodeTest.Dcs
