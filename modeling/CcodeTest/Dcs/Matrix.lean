import CcodeTest.Lib.Store
import CcodeTest.Dcs.Types

/-!
# The matrices of a calculation

`pAdjacentMatrix` and `pRSSIMatrix` are allocated once and kept, because a scan is only repeated
when it has aged: `updateAdjacentAndRSSIMatrix` moves their content to where the access points stand
in the list now, in place when the list still fits (`moveBackwardMatrix`). Both are walked from the
end, since `slListAdd` inserts at the head of the list.
-/

namespace CcodeTest.Dcs
open CcodeTest.Lib

/-- `setupMatrix`. The `break` on a failed row leaves the row loop only, so the matrix is returned
with the rows allocated so far. -/
def setupMatrix (dimension : Nat) (e : Env) : Mat × Env :=
  let m := e.nextMalloc
  if m.1 then
    let r := m.2.mallocMany dimension
    (⟨some ⟨dimension, r.1⟩, fun _ _ => 0⟩, r.2)
  else (⟨none, fun _ _ => 0⟩, m.2)

/-- The allocation of a matrix whose pointer is NULL. -/
def setupIfNull (p : Mat) (dimension : Nat) (e : Env) : Mat × Env :=
  if p.alloc.isNone then setupMatrix dimension e else (p, e)

/-- The two allocations of `setupAdjacentAndRSSIMatrix`. -/
def setupMatrices (h : Head) (e : Env) : Head × Bool × Env :=
  let a := setupIfNull h.pAdjacentMatrix h.matrixLen e
  let h := { h with pAdjacentMatrix := a.1 }
  if a.1.alloc.isNone then (h, false, a.2)
  else
    let r := setupIfNull h.pRSSIMatrix h.matrixLen a.2
    ({ h with pRSSIMatrix := r.1 }, r.1.alloc.isSome, r.2)

/-- The length of the matrices when there are none yet. -/
def setMatrixLen (h : Head) : Head :=
  if h.matrixLen = 0 then { h with matrixLen := h.count, oldListCount := h.count } else h

/-- The threshold is set back with every set-up. -/
def Head.resetThreshold (h : Head) : Head := { h with rssiCurThreshold := rssiThresholdMini }

/-- `setupAdjacentAndRSSIMatrix`; `true` is `SW_ERR_SUCCESS`. -/
def setupAdjacentAndRSSIMatrix (h : Head) (e : Env) : Head × Bool × Env :=
  let h := h.protect.resetThreshold
  if h.count ≠ 0 then
    let r := setupMatrices (setMatrixLen h) e
    (r.1.release, r.2)
  else (h.release, false, e)

/-- `freeAdjacentAndRSSIMatrix`; `SWFREE` leaves NULL in the pointer. -/
def freeAdjacentAndRSSIMatrix (h : Head) : Head :=
  let h := h.protect
  Head.release
    { h with
      pAdjacentMatrix := { h.pAdjacentMatrix with alloc := none }
      pRSSIMatrix := { h.pRSSIMatrix with alloc := none }
      matrixLen := 0 }

/-- `memsetRSSIMatrix`. -/
def memsetRSSIMatrix (h : Head) : Head :=
  let h := h.protect
  let cell := fun r c => if r < h.matrixLen ∧ c < h.matrixLen then 0 else h.pRSSIMatrix.cell r c
  Head.release { h with pRSSIMatrix := { h.pRSSIMatrix with cell := cell } }

/-- `memset( p[row], 0x00, n )` on a row of bytes. -/
def memsetBytes (n : Nat) (row : Nat) (m : Nat → Nat → Nat) : Nat → Nat → Nat :=
  fun r c => if r = row ∧ c < n then 0 else m r c

/-- `memset( p[row], 0x00, n )` on a row of `unsigned long`: `n` bytes are cleared, not `n` cells. -/
def memsetULongs (p : Platform) (n : Nat) (row : Nat) (m : Nat → Nat → Nat) : Nat → Nat → Nat :=
  fun r c =>
    let k := min p.ulongSize (n - c * p.ulongSize)
    if r = row then
      if p.bigEndian then m r c % 256 ^ (p.ulongSize - k) else m r c / 256 ^ k * 256 ^ k
    else m r c

/-- The inner loop of `moveBackwardMatrix` on one matrix, with `col + 1` and `colNew + 1` columns
still to visit; `old` is the matrix to copy from, `none` when the parameter is NULL. -/
def moveCols (deleted : Nat → Bool) (old : Option (Nat → Nat → Nat)) (row rowNew : Nat) :
    Nat → Nat → (Nat → Nat → Nat) → (Nat → Nat → Nat)
  | 0, _, m => m
  | _ + 1, 0, m => m
  | col + 1, colNew + 1, m =>
    if deleted col then moveCols deleted old row rowNew col (colNew + 1) (setCell m row col 0)
    else
      match old with
      | none =>
        let m := setCell m rowNew colNew (m row col)
        moveCols deleted old row rowNew col colNew (setCell m row col 0)
      | some o => moveCols deleted old row rowNew col colNew (setCell m rowNew colNew (o row col))

/-- The outer loop of `moveBackwardMatrix` on one matrix; `clear` is the `memset` of a deleted
row. -/
def moveRows (clear : Nat → (Nat → Nat → Nat) → (Nat → Nat → Nat)) (deleted : Nat → Bool)
    (old : Option (Nat → Nat → Nat)) (oldLen newLen : Nat) :
    Nat → Nat → (Nat → Nat → Nat) → (Nat → Nat → Nat)
  | 0, _, m => m
  | _ + 1, 0, m => m
  | row + 1, rowNew + 1, m =>
    if deleted row then moveRows clear deleted old oldLen newLen row (rowNew + 1) (clear row m)
    else
      moveRows clear deleted old oldLen newLen row rowNew
        (moveCols deleted old row rowNew oldLen newLen m)

/-- The position is among the recorded deletions. -/
def Head.deleted (h : Head) (i : Nat) : Bool :=
  (List.range h.infoUpdateMatrix.delCount).any fun k => h.infoUpdateMatrix.delIndexArray k == i

/-- `moveBackwardMatrix`. -/
def moveBackwardMatrix (p : Platform) (oldMatrixLen newMatrixLen : Nat)
    (pAdjacent pRSSI : Option (Nat → Nat → Nat)) (h : Head) : Head :=
  if h.count = 0 then h
  else
    { h with
      pAdjacentMatrix :=
        { h.pAdjacentMatrix with
          cell := moveRows (memsetBytes oldMatrixLen) h.deleted pAdjacent oldMatrixLen newMatrixLen
            oldMatrixLen newMatrixLen h.pAdjacentMatrix.cell }
      pRSSIMatrix :=
        { h.pRSSIMatrix with
          cell := moveRows (memsetULongs p oldMatrixLen) h.deleted pRSSI oldMatrixLen newMatrixLen
            oldMatrixLen newMatrixLen h.pRSSIMatrix.cell } }

/-- The end of `updateAdjacentAndRSSIMatrix`: forget the recorded changes. -/
def clearUpdateInfo (h : Head) : Head :=
  { h with infoUpdateMatrix := .zero, oldListCount := h.count }

/-- The pointer's content as a parameter. -/
def Mat.content (p : Mat) : Option (Nat → Nat → Nat) := p.alloc.map fun _ => p.cell

/-- `updateAdjacentAndRSSIMatrix`; `true` is `SW_ERR_SUCCESS`. -/
def updateAdjacentAndRSSIMatrix (p : Platform) (h : Head) (e : Env) : Head × Bool × Env :=
  let h := h.protect
  if h.matrixLen = 0 then
    let s := setupAdjacentAndRSSIMatrix h e
    if s.2.1 then ((clearUpdateInfo s.1).release, true, s.2.2) else (s.1.release, false, s.2.2)
  else if h.count ≤ h.matrixLen then
    ((clearUpdateInfo (moveBackwardMatrix p h.oldListCount h.count none none h)).release, true, e)
  else
    let s := setupAdjacentAndRSSIMatrix
      { h with
        matrixLen := 0
        pAdjacentMatrix := ⟨none, fun _ _ => 0⟩
        pRSSIMatrix := ⟨none, fun _ _ => 0⟩ } e
    if s.2.1 then
      ((clearUpdateInfo (moveBackwardMatrix p h.oldListCount h.count h.pAdjacentMatrix.content
        h.pRSSIMatrix.content s.1)).release, true, s.2.2)
    else (s.1.release, false, s.2.2)

/-! What the operations leave alone. -/

section Frame

variable (p : Platform) (h : Head) (e : Env)

/-- `setupMatrices` changes the two matrices only. -/
lemma setupMatrices_frame : ∃ a r,
    (setupMatrices h e).1 = { h with pAdjacentMatrix := a, pRSSIMatrix := r } := by
  unfold setupMatrices
  dsimp only
  split
  · exact ⟨_, h.pRSSIMatrix, rfl⟩
  · exact ⟨_, _, rfl⟩

/-- The new size and the old one are noted. -/
lemma setMatrixLen_frame : ∃ len old,
    setMatrixLen h = { h with matrixLen := len, oldListCount := old } := by
  unfold setMatrixLen
  split
  · exact ⟨_, _, rfl⟩
  · exact ⟨h.matrixLen, h.oldListCount, rfl⟩

/-- With access points the matrices are set up under the mutex. -/
lemma setupAdjacentAndRSSIMatrix_nonempty (hc : h.count ≠ 0) :
    setupAdjacentAndRSSIMatrix h e =
      ((setupMatrices (setMatrixLen h.protect.resetThreshold) e).1.release,
        (setupMatrices (setMatrixLen h.protect.resetThreshold) e).2) :=
  if_pos hc

/-- Without one nothing is allocated. -/
lemma setupAdjacentAndRSSIMatrix_empty (hc : h.count = 0) :
    setupAdjacentAndRSSIMatrix h e = (h.resetThreshold, false, e) := by
  refine (if_neg (not_not.2 hc)).trans ?_
  exact congrArg (·, false, e) (Head.release_eq h.semMutex _ rfl)

/-- What `setupAdjacentAndRSSIMatrix` changes. -/
lemma setupAdjacentAndRSSIMatrix_frame : ∃ len old a r,
    (setupAdjacentAndRSSIMatrix h e).1 =
      { h with
        rssiCurThreshold := rssiThresholdMini, matrixLen := len, oldListCount := old
        pAdjacentMatrix := a, pRSSIMatrix := r } := by
  by_cases hc : h.count = 0
  · rw [setupAdjacentAndRSSIMatrix_empty h e hc]
    exact ⟨h.matrixLen, h.oldListCount, h.pAdjacentMatrix, h.pRSSIMatrix, rfl⟩
  · obtain ⟨len, old, hl⟩ := setMatrixLen_frame h.protect.resetThreshold
    obtain ⟨a, r, hm⟩ := setupMatrices_frame
      { h.protect.resetThreshold with matrixLen := len, oldListCount := old } e
    rw [setupAdjacentAndRSSIMatrix_nonempty h e hc, hl, hm]
    exact ⟨_, _, _, _, Head.release_eq h.semMutex _ rfl⟩

/-- What freeing the matrices changes. -/
lemma freeAdjacentAndRSSIMatrix_frame :
    freeAdjacentAndRSSIMatrix h =
      { h with
        pAdjacentMatrix := { h.pAdjacentMatrix with alloc := none }
        pRSSIMatrix := { h.pRSSIMatrix with alloc := none }
        matrixLen := 0 } :=
  Head.release_eq h.semMutex _ rfl

/-- Clearing the RSSI matrix changes its cells only. -/
lemma memsetRSSIMatrix_frame : ∃ cell,
    memsetRSSIMatrix h = { h with pRSSIMatrix := { h.pRSSIMatrix with cell := cell } } :=
  ⟨_, Head.release_eq h.semMutex _ rfl⟩

/-- Moving the matrices changes their cells only. -/
lemma moveBackwardMatrix_frame (oldLen newLen : Nat) (a r : Option (Nat → Nat → Nat)) :
    ∃ ca cr, moveBackwardMatrix p oldLen newLen a r h =
      { h with
        pAdjacentMatrix := { h.pAdjacentMatrix with cell := ca }
        pRSSIMatrix := { h.pRSSIMatrix with cell := cr } } := by
  unfold moveBackwardMatrix
  split
  · exact ⟨h.pAdjacentMatrix.cell, h.pRSSIMatrix.cell, rfl⟩
  · exact ⟨_, _, rfl⟩

/-- What `updateAdjacentAndRSSIMatrix` changes. -/
lemma updateAdjacentAndRSSIMatrix_frame : ∃ t len old a r info,
    (updateAdjacentAndRSSIMatrix p h e).1 =
      { h with
        rssiCurThreshold := t, matrixLen := len, oldListCount := old
        pAdjacentMatrix := a, pRSSIMatrix := r, infoUpdateMatrix := info } := by
  unfold updateAdjacentAndRSSIMatrix
  dsimp only
  split
  · obtain ⟨len, old, a, r, hs⟩ := setupAdjacentAndRSSIMatrix_frame h.protect e
    rw [hs]
    split
    · exact ⟨_, _, _, _, _, _, Head.release_eq h.semMutex _ rfl⟩
    · exact ⟨_, _, _, _, _, _, Head.release_eq h.semMutex _ rfl⟩
  · split
    · obtain ⟨ca, cr, hm⟩ := moveBackwardMatrix_frame p h.protect h.oldListCount h.count none none
      refine ⟨h.rssiCurThreshold, h.matrixLen, h.count, { h.pAdjacentMatrix with cell := ca },
        { h.pRSSIMatrix with cell := cr }, .zero, ?_⟩
      refine Eq.trans (congrArg (fun x => (clearUpdateInfo x).release) hm) ?_
      exact Head.release_eq h.semMutex _ rfl
    · obtain ⟨len, old, a, r, hs⟩ := setupAdjacentAndRSSIMatrix_frame
        { h.protect with
          matrixLen := 0
          pAdjacentMatrix := ⟨none, fun _ _ => 0⟩
          pRSSIMatrix := ⟨none, fun _ _ => 0⟩ } e
      rw [hs]
      split
      · dsimp only
        obtain ⟨ca, cr, hm⟩ := moveBackwardMatrix_frame p
          { h.protect with
            rssiCurThreshold := rssiThresholdMini, matrixLen := len, oldListCount := old
            pAdjacentMatrix := a, pRSSIMatrix := r } h.protect.oldListCount h.protect.count
          h.protect.pAdjacentMatrix.content h.protect.pRSSIMatrix.content
        refine ⟨rssiThresholdMini, len, h.count, { a with cell := ca }, { r with cell := cr },
          .zero, ?_⟩
        refine Eq.trans (congrArg (fun x => (clearUpdateInfo x).release) hm) ?_
        exact Head.release_eq h.semMutex _ rfl
      · exact ⟨_, _, _, _, _, _, Head.release_eq h.semMutex _ rfl⟩

end Frame

section Unchanged

variable {clear : Nat → (Nat → Nat → Nat) → (Nat → Nat → Nat)}

/-- Without deletions and between equal lengths, source and destination of every copy coincide, so
the inner loop clears the row. -/
lemma moveCols_same (row n : Nat) (m : Nat → Nat → Nat) :
    moveCols (fun _ => false) none row row n n m =
      fun r c => if r = row ∧ c < n then 0 else m r c := by
  induction n generalizing m with
  | zero =>
    funext r c
    simp [moveCols]
  | succ n ih =>
    simp only [moveCols, Bool.false_eq_true, if_false]
    rw [ih]
    funext r c
    simp only [setCell]
    grind

/-- The same for the outer loop: it clears the rows it visits. -/
lemma moveRows_same (n k : Nat) (m : Nat → Nat → Nat) :
    moveRows clear (fun _ => false) none n n k k m =
      fun r c => if r < k ∧ c < n then 0 else m r c := by
  induction k generalizing m with
  | zero =>
    funext r c
    simp [moveRows]
  | succ k ih =>
    simp only [moveRows, Bool.false_eq_true, if_false]
    rw [ih, moveCols_same]
    funext r c
    grind

end Unchanged

/-- With no deletion recorded, no position counts as deleted. -/
lemma deleted_of_delCount {h : Head} (hd : h.infoUpdateMatrix.delCount = 0) :
    h.deleted = fun _ => false := by
  funext i
  simp [Head.deleted, hd]

/-- An update of an unchanged list erases the whole matrix of signal strengths. -/
lemma updateAdjacentAndRSSIMatrix_erases {p : Platform} {h : Head} {e : Env} (hpos : 0 < h.count)
    (hold : h.count = h.oldListCount) (hlen : h.oldListCount ≤ h.matrixLen)
    (hdel : h.infoUpdateMatrix.delCount = 0) :
    (updateAdjacentAndRSSIMatrix p h e).1.rssi =
      fun r c => if r < h.count ∧ c < h.count then 0 else h.rssi r c := by
  have hm : ¬ h.matrixLen = 0 := by omega
  have hc : ¬ h.count = 0 := by omega
  have hle : h.count ≤ h.matrixLen := by omega
  have hdel' : h.protect.deleted = fun _ => false := deleted_of_delCount hdel
  rw [updateAdjacentAndRSSIMatrix, if_neg (show ¬ h.protect.matrixLen = 0 from hm),
    if_pos (show h.protect.count ≤ h.protect.matrixLen from hle), moveBackwardMatrix,
    if_neg (show ¬ h.protect.count = 0 from hc), hdel']
  change moveRows _ (fun _ => false) none h.oldListCount h.count h.oldListCount h.count h.rssi = _
  rw [← hold, moveRows_same]

/-- The cached signal strengths survive an update of an unchanged list exactly when there were
none: every entry is copied onto itself and then cleared. -/
theorem updateAdjacentAndRSSIMatrix_keeps_iff (p : Platform) (h : Head) (e : Env)
    (hpos : 0 < h.count) (hold : h.count = h.oldListCount) (hlen : h.oldListCount ≤ h.matrixLen)
    (hdel : h.infoUpdateMatrix.delCount = 0) (_hadd : h.infoUpdateMatrix.addCount = 0) :
    (∀ r < h.count, ∀ c < h.count,
        (updateAdjacentAndRSSIMatrix p h e).1.rssi r c = h.rssi r c) ↔
      ∀ r < h.count, ∀ c < h.count, h.rssi r c = 0 := by
  rw [updateAdjacentAndRSSIMatrix_erases hpos hold hlen hdel]
  constructor
  · intro hk r hr c hc
    rw [← hk r hr c hc]
    exact if_pos ⟨hr, hc⟩
  · intro hz r hr c hc
    rw [hz r hr c hc]
    exact if_pos ⟨hr, hc⟩

/-- Two access points, the matrices set up and filled by an earlier calculation. -/
def Head.filled : Head :=
  { Head.init with
    slList := [Node.sample 1, Node.sample 2]
    pAdjacentMatrix := ⟨some ⟨2, 2⟩, fun _ _ => 0⟩
    pRSSIMatrix := ⟨some ⟨2, 2⟩, fun r c => if r = c then 0 else 50⟩
    matrixLen := 2
    oldListCount := 2 }

/-- Two access points stay, and their RSSI values are lost. -/
theorem updateAdjacentAndRSSIMatrix_keeps_iff_filled :
    ¬ ∀ r < Head.filled.count, ∀ c < Head.filled.count,
      (updateAdjacentAndRSSIMatrix .sample Head.filled .sample).1.rssi r c =
        Head.filled.rssi r c := by
  rw [updateAdjacentAndRSSIMatrix_keeps_iff _ _ _ (by decide) (by decide) (by decide) (by decide)
    (by decide)]
  decide

/-- The two hear each other at 50; after an update without any change they no longer do. -/
theorem updateAdjacentAndRSSIMatrix_loses_rssi :
    0 < Head.filled.count ∧ Head.filled.count = Head.filled.oldListCount ∧
      Head.filled.oldListCount ≤ Head.filled.matrixLen ∧
      Head.filled.infoUpdateMatrix.delCount = 0 ∧ Head.filled.infoUpdateMatrix.addCount = 0 ∧
      Head.filled.rssi 0 1 = 50 ∧
      (updateAdjacentAndRSSIMatrix .sample Head.filled .sample).1.rssi 0 1 = 0 := by
  decide

end CcodeTest.Dcs
