import CcodeTest.Dcs.Lock

/-!
# Room in the arrays

The arrays of the colour scheme and the matrices are sized before the calculation takes the mutex
for good. The matrices are looked at once more after that, the colour scheme is not, so an access
point that is added in between is not covered. `Sized` says what the sizes are worth at each point
of the task; with enough memory it can only be broken by such an addition
(`locked_within_capacity`).
-/

namespace CcodeTest.Dcs
open CcodeTest.Lib

/-- With plenty of memory all allocations of a loop succeed. -/
lemma Env.plenty.mallocMany {e : Env} (h : e.plenty) (n : Nat) :
    (e.mallocMany n).1 = n ∧ (e.mallocMany n).2.plenty := by
  induction n generalizing e with
  | zero => exact ⟨rfl, h⟩
  | succ n ih =>
    obtain ⟨h1, h2⟩ := h.nextMalloc
    obtain ⟨h3, h4⟩ := ih h2
    simp only [Env.mallocMany, h1, if_true]
    exact ⟨by rw [h3], h4⟩

/-- The memory of a matrix of the given dimension, NULL for none. -/
def matSize (n : Nat) : Option MatSize := if n = 0 then none else some ⟨n, n⟩

/-- Both matrices have the dimension the head keeps for them. -/
structure MatricesSized (h : Head) : Prop where
  adjacent : h.pAdjacentMatrix.alloc = matSize h.matrixLen
  rssi : h.pRSSIMatrix.alloc = matSize h.matrixLen

/-- The memory of a vector of the given length, NULL for none. -/
def arrSize (n : Nat) : Option Nat := if n = 0 then none else some n

/-- Both vectors of the colour scheme have the length the head keeps for them. -/
structure ColorsSized (h : Head) : Prop where
  vertexColor : h.colorScheme.pVertexColor.alloc = arrSize h.colorScheme.numOfVertex
  apFixedCh : h.pAPFixedCh.alloc = arrSize h.colorScheme.numOfVertex

section Setup

variable {h : Head} {e : Env}

/-- A matrix then has all of its rows. -/
lemma setupMatrix_alloc (he : e.plenty) (n : Nat) :
    (setupMatrix n e).1.alloc = some ⟨n, n⟩ ∧ (setupMatrix n e).2.plenty := by
  obtain ⟨h1, h2⟩ := he.nextMalloc
  obtain ⟨h3, h4⟩ := h2.mallocMany n
  simp only [setupMatrix, h1, if_true]
  exact ⟨by rw [h3], h4⟩

/-- A matrix that is there already is kept. -/
lemma setupIfNull_alloc (he : e.plenty) {p : Mat} {n : Nat}
    (hp : p.alloc = none ∨ p.alloc = some ⟨n, n⟩) :
    (setupIfNull p n e).1.alloc = some ⟨n, n⟩ ∧ (setupIfNull p n e).2.plenty := by
  unfold setupIfNull
  rcases hp with hp | hp
  · rw [hp]
    exact setupMatrix_alloc he n
  · rw [hp]
    exact ⟨hp, he⟩

/-- Both matrices then have the size noted. -/
lemma setupMatrices_alloc (he : e.plenty) {n : Nat} (hn : h.matrixLen = n)
    (ha : h.pAdjacentMatrix.alloc = none ∨ h.pAdjacentMatrix.alloc = some ⟨n, n⟩)
    (hr : h.pRSSIMatrix.alloc = none ∨ h.pRSSIMatrix.alloc = some ⟨n, n⟩) :
    (setupMatrices h e).2.1 = true ∧ (setupMatrices h e).1.matrixLen = n ∧
      (setupMatrices h e).1.pAdjacentMatrix.alloc = some ⟨n, n⟩ ∧
      (setupMatrices h e).1.pRSSIMatrix.alloc = some ⟨n, n⟩ := by
  subst hn
  obtain ⟨h1, h2⟩ := setupIfNull_alloc he ha
  obtain ⟨h3, -⟩ := setupIfNull_alloc h2 hr
  unfold setupMatrices
  dsimp only
  rw [h1, if_neg (by simp)]
  exact ⟨by rw [h3]; rfl, rfl, h1, h3⟩

/-- The size of a matrix that has one. -/
lemma matSize_pos {n : Nat} (hn : n ≠ 0) : matSize n = some ⟨n, n⟩ := if_neg hn

/-- With memory, the set-up succeeds for every list that is not empty. -/
lemma setupAdjacentAndRSSIMatrix_sized (he : e.plenty) (hs : MatricesSized h) (hc : h.count ≠ 0) :
    (setupAdjacentAndRSSIMatrix h e).2.1 = true ∧
      MatricesSized (setupAdjacentAndRSSIMatrix h e).1 ∧
      (setupAdjacentAndRSSIMatrix h e).1.matrixLen =
        if h.matrixLen = 0 then h.count else h.matrixLen := by
  rw [setupAdjacentAndRSSIMatrix_nonempty h e hc]
  by_cases hm : h.matrixLen = 0
  · have h0 : matSize h.matrixLen = none := if_pos hm
    have hl : setMatrixLen h.protect.resetThreshold =
        { h.protect.resetThreshold with matrixLen := h.count, oldListCount := h.count } := if_pos hm
    rw [hl, if_pos hm]
    obtain ⟨h1, h2, h3, h4⟩ := setupMatrices_alloc (n := h.count) (h :=
      { h.protect.resetThreshold with matrixLen := h.count, oldListCount := h.count })
      he rfl (.inl (hs.adjacent.trans h0)) (.inl (hs.rssi.trans h0))
    refine ⟨h1, ⟨h3.trans ?_, h4.trans ?_⟩, h2⟩
    · exact (matSize_pos hc).symm.trans (congrArg matSize h2.symm)
    · exact (matSize_pos hc).symm.trans (congrArg matSize h2.symm)
  · have h0 : matSize h.matrixLen = _ := matSize_pos hm
    have hl : setMatrixLen h.protect.resetThreshold = h.protect.resetThreshold := if_neg hm
    rw [hl, if_neg hm]
    obtain ⟨h1, h2, h3, h4⟩ := setupMatrices_alloc (n := h.matrixLen)
      (h := h.protect.resetThreshold) he rfl (.inr (hs.adjacent.trans h0))
      (.inr (hs.rssi.trans h0))
    refine ⟨h1, ⟨h3.trans ?_, h4.trans ?_⟩, h2⟩
    · exact (matSize_pos hm).symm.trans (congrArg matSize h2.symm)
    · exact (matSize_pos hm).symm.trans (congrArg matSize h2.symm)

/-- Moving the content does not change the sizes. -/
lemma moveBackwardMatrix_sized {p : Platform} (oldLen newLen : Nat)
    (a r : Option (Nat → Nat → Nat)) (hs : MatricesSized h) :
    MatricesSized (clearUpdateInfo (moveBackwardMatrix p oldLen newLen a r h)).release ∧
      (clearUpdateInfo (moveBackwardMatrix p oldLen newLen a r h)).release.matrixLen =
        h.matrixLen := by
  obtain ⟨ca, cr, hm⟩ := moveBackwardMatrix_frame p h oldLen newLen a r
  rw [hm]
  exact ⟨⟨hs.adjacent, hs.rssi⟩, rfl⟩

/-- With memory, the matrices cover the list after an update. -/
lemma updateAdjacentAndRSSIMatrix_sized (p : Platform) (he : e.plenty) (hs : MatricesSized h) :
    MatricesSized (updateAdjacentAndRSSIMatrix p h e).1 ∧
      h.count ≤ (updateAdjacentAndRSSIMatrix p h e).1.matrixLen := by
  have hs' : MatricesSized h.protect := ⟨hs.adjacent, hs.rssi⟩
  unfold updateAdjacentAndRSSIMatrix
  dsimp only
  split
  · rename_i hm
    by_cases hc : h.count = 0
    · rw [setupAdjacentAndRSSIMatrix_empty h.protect e hc]
      exact ⟨⟨hs.adjacent, hs.rssi⟩, Nat.le_trans (Nat.le_of_eq hc) (Nat.zero_le _)⟩
    · obtain ⟨hok, hsz, hlen⟩ := setupAdjacentAndRSSIMatrix_sized he hs' hc
      rw [if_pos hok]
      refine ⟨⟨hsz.adjacent, hsz.rssi⟩, ?_⟩
      rw [if_pos hm] at hlen
      exact Nat.le_of_eq hlen.symm
  · split
    · rename_i hle
      obtain ⟨hsz, hlen⟩ := moveBackwardMatrix_sized (p := p) h.oldListCount h.count none none hs'
      exact ⟨hsz, Nat.le_trans hle (Nat.le_of_eq hlen.symm)⟩
    · rename_i hgt
      have hgt' : ¬ h.count ≤ h.matrixLen := hgt
      have hc : h.count ≠ 0 := by omega
      obtain ⟨hok, hsz, hlen⟩ := setupAdjacentAndRSSIMatrix_sized
        (h := { h.protect with
          matrixLen := 0
          pAdjacentMatrix := ⟨none, fun _ _ => 0⟩
          pRSSIMatrix := ⟨none, fun _ _ => 0⟩ }) he ⟨rfl, rfl⟩ hc
      rw [if_pos hok]
      obtain ⟨hsz', hlen'⟩ := moveBackwardMatrix_sized (p := p) h.protect.oldListCount
        h.protect.count h.protect.pAdjacentMatrix.content h.protect.pRSSIMatrix.content hsz
      refine ⟨hsz', Nat.le_of_eq ?_⟩
      exact (hlen'.trans hlen).symm

/-- The same after taking the mutex. -/
lemma enterHead_sized (p : Platform) (he : e.plenty) (hs : MatricesSized h) :
    MatricesSized (enterHead p h e) ∧ h.count ≤ (enterHead p h e).matrixLen := by
  obtain ⟨hsz, hle⟩ := updateAdjacentAndRSSIMatrix_sized (h := { h.protect with roundOfCalc := 0 })
    p he ⟨hs.adjacent, hs.rssi⟩
  unfold enterHead
  dsimp only
  split
  · obtain ⟨cell, hc⟩ := memsetRSSIMatrix_frame
      (updateAdjacentAndRSSIMatrix p { h.protect with roundOfCalc := 0 } e).1
    rw [hc]
    exact ⟨⟨hsz.adjacent, hsz.rssi⟩, hle⟩
  · exact ⟨hsz, hle⟩

/-- The colour scheme then has the size of the list. -/
lemma allocColorScheme_sized (he : e.plenty) (hc : h.count ≠ 0) :
    (allocColorScheme h e).2.1 = true ∧ ColorsSized (allocColorScheme h e).1 ∧
      (allocColorScheme h e).1.colorScheme.numOfVertex = h.count := by
  obtain ⟨h1, h2⟩ := he.nextMalloc
  obtain ⟨h3, h4⟩ := h2.nextMalloc
  obtain ⟨h5, -⟩ := h4.mallocMany h.count
  have hsz : arrSize h.count = some h.count := if_neg hc
  unfold allocColorScheme
  dsimp only
  rw [if_pos h1, if_pos h3]
  exact ⟨rfl, ⟨hsz.symm, (congrArg some h5).trans hsz.symm⟩, rfl⟩

/-- With memory, the colour scheme covers the list after its set-up. -/
lemma setupColorScheme_sized (he : e.plenty) (hs : ColorsSized h) :
    ColorsSized (setupColorScheme h e).1 ∧
      ((setupColorScheme h e).2.1 = true →
        h.count ≤ (setupColorScheme h e).1.colorScheme.numOfVertex) := by
  have hs' : ColorsSized h.protect := ⟨hs.vertexColor, hs.apFixedCh⟩
  unfold setupColorScheme
  dsimp only
  split
  · exact ⟨⟨hs.vertexColor, hs.apFixedCh⟩, fun h => by cases h⟩
  · rename_i hc
    split
    · have hcount : (freeColorScheme h.protect).count = h.count := by
        rw [freeColorScheme_frame]
        rfl
      obtain ⟨hok, hsz, hn⟩ := allocColorScheme_sized (h := freeColorScheme h.protect) he
        (by rw [hcount]; exact hc)
      refine ⟨⟨hsz.vertexColor, hsz.apFixedCh⟩, fun _ => ?_⟩
      exact Nat.le_of_eq (hn.trans hcount).symm
    · rename_i hlt
      exact ⟨⟨hs.vertexColor, hs.apFixedCh⟩, fun _ => Nat.not_lt.1 hlt⟩

end Setup

/-! The sizes along a run. -/

/-- The window: the colour scheme is sized, the mutex not yet taken for the calculation. -/
def Pc.window : Pc → Bool
  | resetPower | enter => true
  | _ => false

/-- The sizes at each point of the task. -/
structure Sized (s : Sys) : Prop where
  matrices : MatricesSized s.head
  colors : ColorsSized s.head
  window : s.pc.window = true → s.head.count ≤ s.head.colorScheme.numOfVertex
  locked : s.pc.locked = true →
    s.head.count ≤ s.head.colorScheme.numOfVertex ∧ s.head.count ≤ s.head.matrixLen

/-- The two heads agree in the sizes of the list and of the arrays. -/
structure SameSize (h k : Head) : Prop where
  count : k.count = h.count
  numOfVertex : k.colorScheme.numOfVertex = h.colorScheme.numOfVertex
  vertexColor : k.colorScheme.pVertexColor.alloc = h.colorScheme.pVertexColor.alloc
  apFixedCh : k.pAPFixedCh.alloc = h.pAPFixedCh.alloc
  matrixLen : k.matrixLen = h.matrixLen
  adjacent : k.pAdjacentMatrix.alloc = h.pAdjacentMatrix.alloc
  rssi : k.pRSSIMatrix.alloc = h.pRSSIMatrix.alloc

/-- Nothing changed. -/
lemma SameSize.refl (h : Head) : SameSize h h := ⟨rfl, rfl, rfl, rfl, rfl, rfl, rfl⟩

/-- A change of a node changes no size. -/
lemma SameSize.modifyNode (h : Head) (i : Nat) (f : Node → Node) :
    SameSize h (h.modifyNode i f) :=
  ⟨List.length_modify .., rfl, rfl, rfl, rfl, rfl, rfl⟩

/-- Additions in the window find room in the colour scheme. -/
def roomy (s : Sys) (e : Event) : Bool :=
  match e, s.dynPipe with
  | .acpUpdate .., m :: _ =>
    !(s.pc.window && m.msgCmd == .spAddNewOne &&
        (findSpByMAC s.head.slList (idToBssid m.msgMac)).isNone) ||
      decide (s.head.count < s.head.colorScheme.numOfVertex)
  | _, _ => true

section Run

variable {p : Platform} {s t : Sys} {e : Event}

/-- A step that changes no size and does not enter the window or the locked part. -/
lemma Sized.keep (hs : Sized s) (hz : SameSize s.head t.head)
    (hw : t.pc.window = true → s.pc.window = true)
    (hl : t.pc.locked = true → s.pc.locked = true) : Sized t := by
  refine ⟨⟨?_, ?_⟩, ⟨?_, ?_⟩, ?_, ?_⟩
  · rw [hz.adjacent, hz.matrixLen]
    exact hs.matrices.adjacent
  · rw [hz.rssi, hz.matrixLen]
    exact hs.matrices.rssi
  · rw [hz.vertexColor, hz.numOfVertex]
    exact hs.colors.vertexColor
  · rw [hz.apFixedCh, hz.numOfVertex]
    exact hs.colors.apFixedCh
  · intro h
    rw [hz.count, hz.numOfVertex]
    exact hs.window (hw h)
  · intro h
    rw [hz.count, hz.numOfVertex, hz.matrixLen]
    exact hs.locked (hl h)

/-- A message leaves the arrays alone, and only the addition of an access point makes the list
longer. -/
lemma Updates.sizes {u : Update} {s t : Shared} (h : Updates u s t) :
    t.head.pAdjacentMatrix = s.head.pAdjacentMatrix ∧ t.head.pRSSIMatrix = s.head.pRSSIMatrix ∧
      t.head.matrixLen = s.head.matrixLen ∧ t.head.colorScheme = s.head.colorScheme ∧
      t.head.pAPFixedCh = s.head.pAPFixedCh ∧
      (t.head.count ≤ s.head.count ∨ u.msg.msgCmd = .spAddNewOne ∧
        findSpByMAC s.head.slList u.mac = none ∧ t.head.count = s.head.count + 1) := by
  cases h with
  | ignored => exact ⟨rfl, rfl, rfl, rfl, rfl, .inl (Nat.le_refl _)⟩
  | added hc hn => exact ⟨rfl, rfl, rfl, rfl, rfl, .inr ⟨hc, hn, rfl⟩⟩
  | unknown => exact ⟨rfl, rfl, rfl, rfl, rfl, .inl (Nat.le_refl _)⟩
  | deleted => exact ⟨rfl, rfl, rfl, rfl, rfl, .inl (List.length_eraseIdx_le ..)⟩
  | started => exact ⟨rfl, rfl, rfl, rfl, rfl, .inl (Nat.le_refl _)⟩
  | operational => exact ⟨rfl, rfl, rfl, rfl, rfl, .inl (Nat.le_of_eq (List.length_modify ..))⟩

/-- `checkAPOk` runs before the matrices are set up. -/
lemma window_afterApOkWait (cnt : Nat) (wait : Bool) :
    (afterApOkWait cnt wait).window = false := by
  unfold afterApOkWait
  split <;> rfl

/-- Nothing runs in the window or the locked part. -/
lemma Sized.of_outside (hm : MatricesSized t.head) (hc : ColorsSized t.head)
    (hw : t.pc.window = false) (hl : t.pc.locked = false) : Sized t :=
  ⟨hm, hc, fun h => absurd h (by simp [hw]), fun h => absurd h (by simp [hl])⟩

/-- A message handled outside the locked part keeps the sizes if, in the window, there is room for an
access point that it adds. -/
lemma Sized.handle (hs : Sized s) (u : Update) (hl : s.pc.locked = false)
    (hhead : t.head = (s.handle u).head) (hpc : t.pc = s.pc)
    (hroom : s.pc.window = true → u.msg.msgCmd = .spAddNewOne →
      findSpByMAC s.head.slList u.mac = none →
      s.head.count < s.head.colorScheme.numOfVertex) : Sized t := by
  obtain ⟨h1, h2, h3, h4, h5, h6⟩ := (updateSPInfo_updates u s.toShared).sizes
  change t.head = (updateSPInfo u s.toShared).1.head at hhead
  rw [← hhead] at h1 h2 h3 h4 h5 h6
  refine ⟨⟨?_, ?_⟩, ⟨?_, ?_⟩, ?_, fun h => absurd h (by simp [hpc, hl])⟩
  · rw [h1, h3]
    exact hs.matrices.adjacent
  · rw [h2, h3]
    exact hs.matrices.rssi
  · rw [h4]
    exact hs.colors.vertexColor
  · rw [h4, h5]
    exact hs.colors.apFixedCh
  · rw [hpc, h4]
    intro hw
    rcases h6 with h6 | ⟨hcmd, hfind, h6⟩
    · exact Nat.le_trans h6 (hs.window hw)
    · exact Nat.le_trans (Nat.le_of_eq h6) (hroom hw hcmd hfind)

/-- A colour scheme that has been set up covers the list, and the window begins. -/
lemma Sized.setupColor {e : Env} (hs : Sized s) (he : e.plenty) :
    Sized ((s.setHead (setupColorScheme s.head e).1).goto
      (if (setupColorScheme s.head e).2.1 then .resetPower else .freeColor)) := by
  obtain ⟨cs, fc, hf⟩ := setupColorScheme_frame s.head e
  obtain ⟨hc, hle⟩ := setupColorScheme_sized he hs.colors
  have hcount : (setupColorScheme s.head e).1.count = s.head.count := by
    rw [hf]
    rfl
  refine ⟨?_, hc, ?_, ?_⟩
  · simp only [Sys.goto, Sys.setHead]
    rw [hf]
    exact ⟨hs.matrices.adjacent, hs.matrices.rssi⟩
  · simp only [Sys.goto, Sys.setHead]
    split
    · rename_i hok
      intro _
      rw [hcount]
      exact hle hok
    · exact fun h => by cases h
  · simp only [Sys.goto]
    split
    · exact fun h => by cases h
    · exact fun h => by cases h

/-- At the end of the window the matrices are made to cover the list as well. -/
lemma Sized.enter {e : Env} (hs : Sized s) (he : e.plenty) (hpc : s.pc = .enter)
    (hhead : t.head = enterHead p s.head e) (ht : t.pc = .updateSP 0) : Sized t := by
  obtain ⟨th, len, old, a, r, info, hf⟩ := @enterHead_frame p s.head e
  obtain ⟨hm, hle⟩ := enterHead_sized (h := s.head) p he hs.matrices
  have hw := hs.window (by rw [hpc]; rfl)
  have hcount : (enterHead p s.head e).count = s.head.count := by
    rw [hf]
    rfl
  refine ⟨by rw [hhead]; exact hm, ?_, fun h => (by rw [ht] at h; cases h), ?_⟩
  · rw [hhead, hf]
    exact ⟨hs.colors.vertexColor, hs.colors.apFixedCh⟩
  · intro _
    rw [hhead, hcount]
    refine ⟨?_, hle⟩
    rw [hf]
    exact hw

/-- One step keeps the sizes, if its allocations succeed and an addition in the window finds
room. -/
lemma Moves.sized (m : Moves p s e t) (hs : Sized s) (hheld : Held s) (hp : e.plenty)
    (hr : roomy s e = true) : Sized t := by
  cases m with
  | @acpUpdate msg ms mode malloc heap hd _ hm =>
    refine hs.handle ⟨msg, mode, malloc, heap⟩ (hheld.unlocked hm) rfl rfl ?_
    intro hw hcmd hfind
    have hcmd' : msg.msgCmd = .spAddNewOne := hcmd
    have hfind' : findSpByMAC s.head.slList (idToBssid msg.msgMac) = none := hfind
    simpa [roomy, hd, hw, hcmd', hfind'] using hr
  | acpTimeout =>
    obtain ⟨boot, flag, mode, cs, ht, -⟩ := timeout_frame s
    rw [ht]
    exact hs.keep ⟨rfl, rfl, rfl, rfl, rfl, rfl, rfl⟩ id id
  | setupMatrix inp hpc =>
    obtain ⟨len, old, a, r, hf⟩ := setupAdjacentAndRSSIMatrix_frame s.head inp.env
    have hm : MatricesSized (setupAdjacentAndRSSIMatrix s.head inp.env).1 := by
      by_cases hc : s.head.count = 0
      · rw [setupAdjacentAndRSSIMatrix_empty _ _ hc]
        exact ⟨hs.matrices.adjacent, hs.matrices.rssi⟩
      · exact (setupAdjacentAndRSSIMatrix_sized hp hs.matrices hc).2.1
    refine .of_outside hm ?_ ?_ ?_
    · simp only [Sys.goto, Sys.setHead]
      rw [hf]
      exact ⟨hs.colors.vertexColor, hs.colors.apFixedCh⟩
    · simp only [Sys.goto]
      split <;> rfl
    · simp only [Sys.goto]
      split <;> rfl
  | setupColor inp hpc => exact hs.setupColor hp
  | freeColor inp hpc =>
    refine .of_outside ?_ ?_ rfl rfl
    · simp only [Sys.goto, Sys.setHead, freeColorScheme_frame]
      exact ⟨hs.matrices.adjacent, hs.matrices.rssi⟩
    · simp only [Sys.goto, Sys.setHead, freeColorScheme_frame]
      exact ⟨rfl, rfl⟩
  | freeMatrix inp hpc =>
    refine .of_outside ?_ ?_ rfl rfl
    · simp only [Sys.finish, Sys.record, Sys.goto, Sys.setHead, freeAdjacentAndRSSIMatrix_frame]
      exact ⟨rfl, rfl⟩
    · simp only [Sys.finish, Sys.record, Sys.goto, Sys.setHead, freeAdjacentAndRSSIMatrix_frame]
      exact ⟨hs.colors.vertexColor, hs.colors.apFixedCh⟩
  | resetPower inp hpc =>
    have hlen := (setPowers_same s.head.slList s.peers).length_eq
    exact hs.keep ⟨hlen.symm, rfl, rfl, rfl, rfl, rfl, rfl⟩ (fun _ => by rw [hpc]; rfl)
      (fun h => by cases h)
  | enter inp hpc => exact hs.enter hp hpc rfl rfl
  | updateSP inp hpc hi hq =>
    refine hs.keep ⟨?_, rfl, rfl, rfl, rfl, rfl, rfl⟩ (fun h => by cases h)
      (fun _ => by rw [hpc]; rfl)
    exact List.length_modify ..
  | @credit row inp hpc =>
    obtain ⟨cell, flag, rf, hf⟩ := creditHead_frame s.head row inp
    refine hs.keep ?_ (fun h => by cases h) (fun _ => by rw [hpc]; rfl)
    dsimp only
    rw [hf]
    exact ⟨List.length_modify .., rfl, rfl, rfl, rfl, rfl, rfl⟩
  | rfa inp hpc =>
    refine hs.keep ⟨?_, rfl, rfl, rfl, rfl, rfl, rfl⟩ (fun h => by cases h)
      (fun _ => by rw [hpc]; rfl)
    exact List.length_modify ..
  | threshold inp hpc hl =>
    obtain ⟨hk, sl, adj, color, cnt, rf, need, round, th, hf⟩ := thresholdLoop_frame hl
    have hcount := hk.count
    refine hs.keep ?_ (fun h => by cases h) (fun _ => by rw [hpc]; rfl)
    simp only [Sys.goto, Sys.setHead]
    refine ⟨hcount, ?_, ?_, ?_, ?_, ?_, ?_⟩
    all_goals
      rw [hf]
      rfl
  | send inp hpc hd =>
    refine hs.keep ⟨?_, rfl, rfl, rfl, rfl, rfl, rfl⟩ (fun h => by cases h)
      (fun _ => by rw [hpc]; rfl)
    exact List.length_modify ..
  | apOkRead hc hne hpc =>
    exact hs.keep (.refl _) (by simp [window_afterApOkWait]) (by simp)
  | apOkQuiet hpc => exact hs.keep (.refl _) (by simp [window_afterApOkWait]) (by simp)
  | waitQuiet hpc =>
    exact hs.keep (.modifyNode ..) (fun h => by cases h) (fun _ => by rw [hpc]; rfl)
  | operational inp hpc =>
    exact hs.keep (.modifyNode ..) (fun h => by cases h) (fun _ => by rw [hpc]; rfl)
  | notOperational inp hpc =>
    exact hs.keep (.modifyNode ..) (fun h => by cases h) (fun _ => by rw [hpc]; rfl)
  | ssppTimeout inp hpc =>
    exact hs.keep (.modifyNode ..) (fun h => by cases h) (fun _ => by rw [hpc]; rfl)
  | _ =>
    exact hs.keep ⟨rfl, rfl, rfl, rfl, rfl, rfl, rfl⟩ (by simp_all [Pc.window])
      (by simp_all [Pc.locked])

end Run

/-- Every index below `n` is inside the vector. -/
def Arr.Covers {α : Type} (a : Arr α) (n : Nat) : Prop := ∀ i < n, ∃ k, a.alloc = some k ∧ i < k

/-- Every pair of indices below `n` is inside the matrix. -/
def Mat.Covers (m : Mat) (n : Nat) : Prop :=
  ∀ i < n, ∀ j < n, ∃ z, m.alloc = some z ∧ i < z.rows ∧ j < z.dim

/-- An array covers every index below its size. -/
lemma arrSize_covers {α : Type} {a : Arr α} {n k : Nat} (ha : a.alloc = arrSize k) (h : n ≤ k) :
    a.Covers n := by
  intro i hi
  exact ⟨k, ha.trans (if_neg (by omega)), by omega⟩

/-- So does a matrix. -/
lemma matSize_covers {m : Mat} {n k : Nat} (hm : m.alloc = matSize k) (h : n ≤ k) :
    m.Covers n := by
  intro i hi j hj
  exact ⟨⟨k, k⟩, hm.trans (if_neg (by omega)), by dsimp only; omega, by dsimp only; omega⟩

/-- In every run in which the allocations of the calculating task succeed and each addition between
the set-up of the colour scheme and the start of the locked part finds room, the arrays cover the
list throughout the locked part. -/
theorem locked_within_capacity (p : Platform) (s₀ s : Sys) (h₀ : Initial s₀)
    (r : Reach (step p) (fun s e => e.plenty ∧ roomy s e = true) s₀ s)
    (hl : s.pc.locked = true) :
    s.head.count ≤ s.head.colorScheme.numOfVertex ∧ s.head.count ≤ s.head.matrixLen ∧
      s.head.pAPFixedCh.Covers s.head.count ∧
      s.head.colorScheme.pVertexColor.Covers s.head.count ∧
      s.head.pAdjacentMatrix.Covers s.head.count ∧ s.head.pRSSIMatrix.Covers s.head.count := by
  have hinit : Sized s₀ ∧ Held s₀ := by
    refine ⟨?_, held_init h₀⟩
    obtain ⟨peers, heap, rfl⟩ := h₀
    exact .of_outside ⟨rfl, rfl⟩ ⟨rfl, rfl⟩ rfl rfl
  have hs : Sized s ∧ Held s := by
    refine r.invariant (I := fun s => Sized s ∧ Held s) hinit ?_
    rintro s e t ⟨hsz, hh⟩ ⟨hp, hr⟩ hstep
    have hm := step_moves hstep
    exact ⟨hm.sized hsz hh hp hr, hm.lockMove.held hh⟩
  obtain ⟨hn, hm⟩ := hs.1.locked hl
  exact ⟨hn, hm, arrSize_covers hs.1.colors.apFixedCh hn, arrSize_covers hs.1.colors.vertexColor hn,
    matSize_covers hs.1.matrices.adjacent hm, matSize_covers hs.1.matrices.rssi hm⟩

/-- With the colour scheme set up for two access points, one of them is deleted and another one
added. -/
def Event.replaced : List Event :=
  Event.boot ++ Event.handled .spDelOldOne 1 ++ Event.handled .spAddNewOne 3 ++ [.calcRun .sample]

/-- One access point is deleted, and another one added before the mutex is taken. -/
theorem locked_within_capacity_replaced :
    ∃ s, runIf (step .sample) roomy (Sys.init [.sample 1, .sample 2] fun _ => default)
        Event.replaced = some s ∧
      s.pc = .updateSP 0 ∧ s.head.count = 2 ∧ s.head.count ≤ s.head.colorScheme.numOfVertex := by
  have hrun : (runIf (step .sample) roomy (Sys.init [.sample 1, .sample 2] fun _ => default)
      Event.replaced).map (fun s => (s.pc, s.head.count)) = some (.updateSP 0, 2) := by decide
  have hplenty : ∀ e ∈ Event.replaced, e.plenty := by
    simp [Event.replaced, Event.boot, Event.handled, Event.plenty, plenty_sample]
  obtain ⟨s, hs, hpc⟩ := Option.map_eq_some_iff.1 hrun
  simp only [Prod.mk.injEq] at hpc
  have hle := locked_within_capacity .sample _ s ⟨_, _, rfl⟩
    (.of_runIf hs fun s e he hok => ⟨hplenty e he, hok⟩) (by rw [hpc.1]; rfl)
  exact ⟨s, hs, hpc.1, hpc.2, hle.1⟩

/-- An access point is added after the set-up of the colour scheme, when the mutex is not yet taken:
the calculation runs over two access points with a colour scheme for one. -/
theorem locked_beyond_capacity :
    (run (step .sample) (Sys.init [.sample 1] fun _ => default)
      (Event.boot ++ Event.handled .spAddNewOne 2 ++ [.calcRun .sample])).map
        (fun s => (s.pc, s.head.count, s.head.colorScheme.numOfVertex, s.head.pAPFixedCh.alloc)) =
      some (.updateSP 0, 2, 1, some 1) := by
  decide

end CcodeTest.Dcs
