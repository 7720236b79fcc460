import CcodeTest.Dcs.Compaction

/-!
# What an allocation leaves

Three places where the module asks for memory. A new node is made on a block of which only the link
is cleared, so its fields are those of the block (`freshNodes_agree_iff`). When the matrices are to
grow and cannot, the old ones are gone already (`updateAdjacentAndRSSIMatrix_loses_old`). And a row
that cannot be allocated ends the row loop but is no failure of the function around it, so a matrix
or a colour scheme may come back without some of its rows (`allRows_iff`).
-/

namespace CcodeTest.Dcs
open CcodeTest.Lib

/-! The fields of a new node. -/

/-- What a calculation finds in a node besides its scan mode: the outcome and the time of the last
scan, the options, the interference table and the power levels. -/
def Node.found (n : Node) : SsppReturn × Int × List Nat × List Int × List Nat × Nat × Nat :=
  (n.scanReturn, n.scanTime, options n.optionalCh, slice n.rfa.rfScore 0 (numUsingChannel + 1),
    slice n.rfa.rfaCh 0 (numUsingChannel + 1), n.txPowerLvlCurr, n.txPowerLvlPrev)

/-- The same with the scan mode. -/
def Node.fields (n : Node) :
    ScanMode × SsppReturn × Int × List Nat × List Int × List Nat × Nat × Nat :=
  (n.spScanMode, n.found)

/-- The fields of all nodes of a list. -/
def Head.fields (h : Head) :
    List (ScanMode × SsppReturn × Int × List Nat × List Int × List Nat × Nat × Nat) :=
  h.slList.map Node.fields

section Fresh

variable {u : Update} {s : Shared} {peers : List Peer}

lemma updateSPInfo_fresh (hadd : u.msg.msgCmd = .spAddNewOne)
    (hnew : findSpByMAC s.head.slList u.mac = none) : (updateSPInfo u s).1.head.fields =
      if u.malloc then u.heap.fields :: s.head.fields else s.head.fields := by
  unfold updateSPInfo
  rw [hadd]
  dsimp only
  rw [hnew]
  dsimp only
  split <;> rfl

lemma spInfoInit_fresh (heap : Mac → Node) (h : Head) : (spInfoInit peers heap h).fields =
    (peers.map fun p => (ScanMode.thisSpScanBasedOnTime, (heap p.id).found)).reverse := by
  rw [Head.fields, spInfoInit, List.map_reverse, List.map_map]
  rfl

end Fresh

/-- Two runs that find different blocks agree in the fields of the nodes exactly when the blocks do,
or no block is returned: for a message about a new access point in all of them, for the nodes that
are made at the start in all but the scan mode, the one field that is set there. -/
theorem freshNodes_agree_iff (u : Update) (heap' : Node) (s : Shared)
    (hadd : u.msg.msgCmd = .spAddNewOne) (hnew : findSpByMAC s.head.slList u.mac = none)
    (peers : List Peer) (block block' : Mac → Node) (h : Head) :
    ((updateSPInfo u s).1.head.fields = (updateSPInfo { u with heap := heap' } s).1.head.fields ↔
        u.malloc = false ∨ u.heap.fields = heap'.fields) ∧
      ((spInfoInit peers block h).fields = (spInfoInit peers block' h).fields ↔
        ∀ p ∈ peers, (block p.id).found = (block' p.id).found) := by
  constructor
  · rw [updateSPInfo_fresh hadd hnew, updateSPInfo_fresh (by exact hadd) (by exact hnew)]
    cases u.malloc with
    | false => simp
    | true => simp
  · rw [spInfoInit_fresh, spInfoInit_fresh, List.reverse_inj, List.map_inj_left]
    refine forall_congr' fun p => forall_congr' fun _ => ?_
    exact Prod.mk_right_inj

/-- The message that adds an access point, on a block with the given content. -/
def Update.addOn (heap : Node) : Update := ⟨⟨.spAddNewOne, Mac.sample 3⟩, .forceAllSpScan, true, heap⟩

/-- Blocks that differ in a field that is not read. -/
theorem freshNodes_agree_iff_unread :
    (updateSPInfo (.addOn default) .pair).1.head.fields =
        (updateSPInfo { Update.addOn default with heap := { (default : Node) with nEnableDCA := 7 } }
          .pair).1.head.fields ∧
      (spInfoInit [Peer.sample 1] (fun _ => default) Head.init).fields =
        (spInfoInit [Peer.sample 1] (fun _ => { (default : Node) with nEnableDCA := 7 })
          Head.init).fields :=
  have h := freshNodes_agree_iff (.addOn default) { (default : Node) with nEnableDCA := 7 } .pair rfl
    (by decide) [Peer.sample 1] (fun _ => default)
    (fun _ => { (default : Node) with nEnableDCA := 7 }) Head.init
  ⟨h.1.2 (.inr rfl), h.2.2 fun _ _ => rfl⟩

/-- A block in which a former node has left the time of its scan. -/
def Node.stale : Node :=
  { (default : Node) with spScanMode := .thisSpScanBasedOnTime, scanTime := 1000 }

/-- On it the new node is scanned once that time has aged, and not at once. -/
theorem freshNodes_stale :
    findSpByMAC Shared.pair.head.slList (Update.addOn default).mac = none ∧
      (updateSPInfo (.addOn default) .pair).1.head.fields ≠
        (updateSPInfo { Update.addOn default with heap := .stale } .pair).1.head.fields ∧
      (spInfoInit [Peer.sample 1] (fun _ => default) Head.init).fields ≠
        (spInfoInit [Peer.sample 1] (fun _ => .stale) Head.init).fields := by
  refine ⟨by decide, ?_, ?_⟩
  · intro h
    exact absurd (congrArg (List.map fun f => f.2.2.1) h) (by decide)
  · intro h
    exact absurd (congrArg (List.map fun f => f.2.2.1) h) (by decide)

/-! Matrices that are to grow. -/

/-- The matrices with their content, their length and the count they were last arranged for are the
same. -/
def KeepsMatrices (h t : Head) : Prop :=
  t.pAdjacentMatrix = h.pAdjacentMatrix ∧ t.pRSSIMatrix = h.pRSSIMatrix ∧
    t.matrixLen = h.matrixLen ∧ t.oldListCount = h.oldListCount

section Growth

variable {h : Head} {e : Env}

/-- A set-up that fails has no RSSI matrix if there was none. -/
lemma setupMatrices_fails (hnull : h.pRSSIMatrix.alloc = none)
    (hfail : (setupMatrices h e).2.1 = false) :
    (setupMatrices h e).1.pRSSIMatrix.alloc = none ∧
      (setupMatrices h e).1.matrixLen = h.matrixLen := by
  unfold setupMatrices at hfail ⊢
  dsimp only at hfail ⊢
  split at hfail
  · rename_i ha
    rw [if_pos ha]
    exact ⟨hnull, rfl⟩
  · rename_i ha
    rw [if_neg ha]
    exact ⟨Option.isNone_iff_eq_none.1 (Option.isSome_eq_false_iff.1 hfail), rfl⟩

/-- On a list that has outgrown its matrices the set-up sets the length before it can fail. -/
lemma setup_withoutMatrices_fails (hc : h.count ≠ 0)
    (hfail : (setupAdjacentAndRSSIMatrix h.withoutMatrices e).2.1 = false) :
    (setupAdjacentAndRSSIMatrix h.withoutMatrices e).1.pRSSIMatrix.alloc = none ∧
      (setupAdjacentAndRSSIMatrix h.withoutMatrices e).1.matrixLen = h.count := by
  rw [setupAdjacentAndRSSIMatrix_nonempty h.withoutMatrices e hc] at hfail ⊢
  exact setupMatrices_fails rfl hfail

end Growth

/-- Whenever the set-up fails that is to make room for a list that has outgrown the matrices, the
update returns without an RSSI matrix and with the length that the new one was to have: in no such
case are the old matrices kept. -/
theorem updateAdjacentAndRSSIMatrix_loses_old (p : Platform) (h : Head) (e : Env)
    (hpos : 0 < h.matrixLen) (hgrown : h.matrixLen < h.count)
    (hfail : (setupAdjacentAndRSSIMatrix h.protect.withoutMatrices e).2.1 = false) :
    let t := (updateAdjacentAndRSSIMatrix p h e).1
    (updateAdjacentAndRSSIMatrix p h e).2.1 = false ∧ t.pRSSIMatrix.alloc = none ∧
      t.matrixLen = h.count ∧ ¬ KeepsMatrices h t := by
  have hc : h.protect.count ≠ 0 := Nat.ne_of_gt (Nat.lt_of_le_of_lt (Nat.zero_le _) hgrown)
  have hm : ¬ h.protect.matrixLen = 0 := Nat.ne_of_gt hpos
  have hgt : ¬ h.protect.count ≤ h.protect.matrixLen := Nat.not_le.2 hgrown
  obtain ⟨hnull, hlen⟩ := setup_withoutMatrices_fails hc hfail
  have hlen : (setupAdjacentAndRSSIMatrix h.protect.withoutMatrices e).1.matrixLen = h.count := hlen
  have hupdate : updateAdjacentAndRSSIMatrix p h e =
      ((setupAdjacentAndRSSIMatrix h.protect.withoutMatrices e).1.release, false,
        (setupAdjacentAndRSSIMatrix h.protect.withoutMatrices e).2.2) := by
    unfold updateAdjacentAndRSSIMatrix
    dsimp only
    rw [if_neg hm, if_neg hgt]
    exact if_neg fun hok => Bool.false_ne_true (hfail.symm.trans hok)
  intro t
  have ht : t = (setupAdjacentAndRSSIMatrix h.protect.withoutMatrices e).1.release :=
    congrArg Prod.fst hupdate
  rw [hupdate, ht]
  refine ⟨rfl, hnull, hlen, ?_⟩
  rintro ⟨-, -, hkept, -⟩
  have hkept : (setupAdjacentAndRSSIMatrix h.protect.withoutMatrices e).1.matrixLen =
      h.matrixLen := hkept
  omega

/-- Memory has run out. -/
def Env.exhausted : Env := { Env.sample with malloc := fun _ => false }

theorem updateAdjacentAndRSSIMatrix_loses_old_four :
    (updateAdjacentAndRSSIMatrix .sample Head.grown .exhausted).1.pRSSIMatrix.alloc = none ∧
      (updateAdjacentAndRSSIMatrix .sample Head.grown .exhausted).1.matrixLen = 5 :=
  have h := updateAdjacentAndRSSIMatrix_loses_old .sample Head.grown .exhausted (by decide)
    (by decide) (by decide)
  ⟨h.2.1, h.2.2.1⟩

/-- Four access points of which one has gone and two have come, and no memory: the matrices of the
four are lost. -/
theorem updateAdjacentAndRSSIMatrix_exhausted :
    0 < Head.grown.matrixLen ∧ Head.grown.matrixLen < Head.grown.count ∧
      (setupAdjacentAndRSSIMatrix Head.grown.protect.withoutMatrices .exhausted).2.1 = false ∧
      ¬ KeepsMatrices Head.grown
        (updateAdjacentAndRSSIMatrix .sample Head.grown .exhausted).1 := by
  refine ⟨by decide, by decide, by decide, ?_⟩
  rintro ⟨-, -, hlen, -⟩
  exact absurd hlen (by decide)

/-! Rows that cannot be allocated. -/

lemma Env.nextMalloc_ne {e : Env} (h : e.malloc 0 = false) : ¬ e.nextMalloc.1 = true := by
  rw [Env.nextMalloc, h]
  exact Bool.false_ne_true

lemma Env.mallocMany_eq_iff (e : Env) (n : Nat) :
    (e.mallocMany n).1 = n ↔ ∀ i < n, e.malloc i = true := by
  induction n generalizing e with
  | zero => simp [Env.mallocMany]
  | succ n ih =>
    have hsplit : (∀ i < n + 1, e.malloc i = true) ↔
        e.malloc 0 = true ∧ ∀ i < n, e.nextMalloc.2.malloc i = true := by
      constructor
      · intro h
        exact ⟨h 0 (Nat.succ_pos n), fun i hi => h (i + 1) (Nat.succ_lt_succ hi)⟩
      · rintro ⟨h0, hs⟩ (_ | i) hi
        · exact h0
        · exact hs i (Nat.lt_of_succ_lt_succ hi)
    rw [hsplit, ← ih, Env.mallocMany]
    dsimp only
    cases h0 : e.malloc 0 with
    | true =>
      rw [if_pos (show e.nextMalloc.1 = true from h0)]
      simp
    | false =>
      rw [if_neg (Env.nextMalloc_ne h0)]
      simp

/-- `pAPFixedChNDR`, the second array of `setupColorScheme` when the dual-radio model is compiled in:
how many rows it has (`none` for NULL), and whether the pointers could be allocated. -/
def allocFixedChNDR (ndr : Bool) (numOfVertex : Nat) (e : Env) : Option Nat × Bool × Env :=
  if ndr then
    let m := e.nextMalloc
    if m.1 then
      let rows := m.2.mallocMany numOfVertex
      (some rows.1, true, rows.2)
    else (none, false, m.2)
  else (none, true, e)

/-- `setupColorScheme` with `INCLUDE_SONICPOINT_NDR` set or not. The second array is allocated after
everything else; `pAPFixedChNDR` is what it was before. -/
def setupColorSchemeNDR (ndr : Bool) (pAPFixedChNDR : Option Nat) (h : Head) (e : Env) :
    Head × Option Nat × Bool × Env :=
  let s := setupColorScheme h e
  if h.count ≠ 0 ∧ h.colorScheme.numOfVertex < h.count then
    if s.2.1 then
      let n := allocFixedChNDR ndr h.count s.2.2
      (s.1, n.1, n.2.1, n.2.2)
    else (s.1, none, false, s.2.2)
  else (s.1, pAPFixedChNDR, s.2.1, s.2.2)

/-- Without the dual-radio model it is `setupColorScheme`. -/
lemma setupColorSchemeNDR_false (pAPFixedChNDR : Option Nat) (h : Head) (e : Env) :
    ((setupColorSchemeNDR false pAPFixedChNDR h e).1,
      (setupColorSchemeNDR false pAPFixedChNDR h e).2.2) = setupColorScheme h e := by
  unfold setupColorSchemeNDR allocFixedChNDR
  dsimp only
  split
  · cases hok : (setupColorScheme h e).2.1 with
    | true =>
      rw [if_pos rfl, if_neg Bool.false_ne_true]
      exact Prod.ext rfl (Prod.ext hok.symm rfl)
    | false =>
      rw [if_neg Bool.false_ne_true]
      exact Prod.ext rfl (Prod.ext hok.symm rfl)
  · rfl

/-- `setupMatrix` has returned NULL, or a matrix with all its rows, all of them zero. -/
def AllOrNothing (dimension : Nat) (m : Mat) : Prop :=
  m.alloc = none ∨ m.alloc = some ⟨dimension, dimension⟩ ∧ m.cell = fun _ _ => 0

/-- `setupColorScheme` has failed, or has all its arrays for `n` access points. -/
def SchemeOrFailure (ndr : Bool) (n : Nat) (r : Head × Option Nat × Bool × Env) : Prop :=
  r.2.2.1 = true → r.1.colorScheme.pVertexColor.alloc = some n ∧ r.1.pAPFixedCh.alloc = some n ∧
    (ndr = true → r.2.1 = some n)

section Rows

variable {h : Head} {e : Env} {ndr : Bool}

lemma setupMatrix_allOrNothing_iff (dimension : Nat) (e : Env) :
    AllOrNothing dimension (setupMatrix dimension e).1 ↔
      e.malloc 0 = false ∨ ∀ i < dimension, e.malloc (i + 1) = true := by
  have hrows := Env.mallocMany_eq_iff e.nextMalloc.2 dimension
  unfold AllOrNothing setupMatrix
  dsimp only
  cases h0 : e.malloc 0 with
  | false =>
    rw [if_neg (Env.nextMalloc_ne h0)]
    simp
  | true =>
    rw [if_pos (show e.nextMalloc.1 = true from h0)]
    simp only [reduceCtorEq, false_or, Option.some.injEq, MatSize.mk.injEq, true_and, and_true]
    exact hrows

/-- The outcomes of the allocations after the row loop of `pAPFixedCh`, which is left at the first
row that fails. -/
def afterRows (n : Nat) (e : Env) : Env := (e.nextMalloc.2.nextMalloc.2.mallocMany n).2

/-- What the first two allocations decide. -/
lemma setupColorScheme_grows (hgrow : h.colorScheme.numOfVertex < h.count) :
    (setupColorScheme h e).2.1 = (e.malloc 0 && e.malloc 1) ∧
      ((setupColorScheme h e).2.1 = true →
        (setupColorScheme h e).1.colorScheme.pVertexColor.alloc = some h.count ∧
        (setupColorScheme h e).1.pAPFixedCh.alloc =
          some (e.nextMalloc.2.nextMalloc.2.mallocMany h.count).1 ∧
        (setupColorScheme h e).2.2 = afterRows h.count e) := by
  have hc : ¬ h.protect.count = 0 := Nat.ne_of_gt (Nat.lt_of_le_of_lt (Nat.zero_le _) hgrow)
  have hfree : (freeColorScheme h.protect).count = h.count := by
    rw [freeColorScheme_frame]
    rfl
  unfold setupColorScheme
  dsimp only
  rw [if_neg hc, if_pos (show h.protect.colorScheme.numOfVertex < h.protect.count from hgrow)]
  unfold allocColorScheme afterRows
  dsimp only
  cases h0 : e.malloc 0 with
  | false =>
    rw [if_neg (Env.nextMalloc_ne h0)]
    exact ⟨rfl, fun hno => absurd hno Bool.false_ne_true⟩
  | true =>
    rw [if_pos (show e.nextMalloc.1 = true from h0)]
    cases h1 : e.malloc 1 with
    | false =>
      rw [if_neg (@Env.nextMalloc_ne e.nextMalloc.2 h1)]
      exact ⟨rfl, fun hno => absurd hno Bool.false_ne_true⟩
    | true =>
      rw [if_pos (show e.nextMalloc.2.nextMalloc.1 = true from h1)]
      refine ⟨rfl, fun _ => ⟨?_, ?_, ?_⟩⟩
      · exact congrArg some hfree
      · exact congrArg (fun k => some (e.nextMalloc.2.nextMalloc.2.mallocMany k).1) hfree
      · exact congrArg (fun k => (e.nextMalloc.2.nextMalloc.2.mallocMany k).2) hfree

/-- What the second array adds once the first two are there. -/
lemma allocFixedChNDR_iff (ndr : Bool) (n : Nat) (e : Env) :
    ((allocFixedChNDR ndr n e).2.1 = true → ndr = true → (allocFixedChNDR ndr n e).1 = some n) ↔
      (ndr = true ∧ e.malloc 0 = false) ∨ (ndr = true → ∀ i < n, e.malloc (i + 1) = true) := by
  have hrows := Env.mallocMany_eq_iff e.nextMalloc.2 n
  unfold allocFixedChNDR
  cases ndr with
  | false => simp
  | true =>
    dsimp only
    rw [if_pos rfl]
    cases h0 : e.malloc 0 with
    | false =>
      rw [if_neg (Env.nextMalloc_ne h0)]
      simp
    | true =>
      rw [if_pos (show e.nextMalloc.1 = true from h0)]
      simp only [Option.some.injEq, hrows, forall_const, reduceCtorEq, and_false, false_or]
      rfl

/-- It fails when its pointers cannot be allocated. -/
lemma allocFixedChNDR_fails_iff (ndr : Bool) (n : Nat) (e : Env) :
    (allocFixedChNDR ndr n e).2.1 = false ↔ ndr = true ∧ e.malloc 0 = false := by
  unfold allocFixedChNDR
  cases ndr with
  | false => simp
  | true =>
    cases h0 : e.malloc 0 with
    | false => simp [Env.nextMalloc, h0]
    | true => simp [Env.nextMalloc, h0]

lemma setupColorSchemeNDR_iff (ndr : Bool) (pAPFixedChNDR : Option Nat)
    (hgrow : h.colorScheme.numOfVertex < h.count) :
    SchemeOrFailure ndr h.count (setupColorSchemeNDR ndr pAPFixedChNDR h e) ↔
      e.malloc 0 = false ∨ e.malloc 1 = false ∨
        (ndr = true ∧ (afterRows h.count e).malloc 0 = false) ∨
        ((∀ i < h.count, e.malloc (i + 2) = true) ∧
          (ndr = true → ∀ i < h.count, (afterRows h.count e).malloc (i + 1) = true)) := by
  have hc : h.count ≠ 0 := Nat.ne_of_gt (Nat.lt_of_le_of_lt (Nat.zero_le _) hgrow)
  obtain ⟨hok, halloc⟩ := @setupColorScheme_grows h e hgrow
  unfold SchemeOrFailure setupColorSchemeNDR
  dsimp only
  rw [if_pos ⟨hc, hgrow⟩]
  cases h0 : e.malloc 0 with
  | false =>
    rw [hok, h0]
    simp
  | true =>
    cases h1 : e.malloc 1 with
    | false =>
      rw [hok, h0, h1]
      simp
    | true =>
      have htrue : (setupColorScheme h e).2.1 = true := by rw [hok, h0, h1]; rfl
      obtain ⟨hv, hf, henv⟩ := halloc htrue
      have hrows : (e.nextMalloc.2.nextMalloc.2.mallocMany h.count).1 = h.count ↔
          ∀ i < h.count, e.malloc (i + 2) = true := Env.mallocMany_eq_iff ..
      have hndr := allocFixedChNDR_iff ndr h.count (afterRows h.count e)
      have hfails := allocFixedChNDR_fails_iff ndr h.count (afterRows h.count e)
      rw [if_pos htrue, henv, hv, hf, ← hfails]
      rw [← hfails] at hndr
      simp only [Option.some.injEq, hrows, reduceCtorEq, false_or, true_and]
      cases hres : (allocFixedChNDR ndr h.count (afterRows h.count e)).2.1 with
      | false => simp
      | true =>
        rw [hres] at hndr
        simp only [forall_const, reduceCtorEq, false_or] at hndr ⊢
        rw [hndr]

end Rows

/-- For every dimension and every outcome of the allocations: a matrix comes back with all its rows or
not at all exactly when its pointers cannot be allocated or all rows can. The colour scheme, when it
has to grow, succeeds with all its arrays or fails exactly when one of the arrays of pointers cannot
be allocated or all rows can. -/
theorem allRows_iff (dimension : Nat) (e : Env) (ndr : Bool) (pAPFixedChNDR : Option Nat) (h : Head)
    (hgrow : h.colorScheme.numOfVertex < h.count) :
    (AllOrNothing dimension (setupMatrix dimension e).1 ↔
        e.malloc 0 = false ∨ ∀ i < dimension, e.malloc (i + 1) = true) ∧
      (SchemeOrFailure ndr h.count (setupColorSchemeNDR ndr pAPFixedChNDR h e) ↔
        e.malloc 0 = false ∨ e.malloc 1 = false ∨
          (ndr = true ∧ (afterRows h.count e).malloc 0 = false) ∨
          ((∀ i < h.count, e.malloc (i + 2) = true) ∧
            (ndr = true → ∀ i < h.count, (afterRows h.count e).malloc (i + 1) = true))) :=
  ⟨setupMatrix_allOrNothing_iff dimension e, setupColorSchemeNDR_iff ndr pAPFixedChNDR hgrow⟩

/-- With memory everything is there. -/
theorem allRows_iff_plenty :
    AllOrNothing 3 (setupMatrix 3 .sample).1 ∧
      SchemeOrFailure true 2 (setupColorSchemeNDR true none Shared.pair.head .sample) :=
  have h := allRows_iff 3 .sample true none Shared.pair.head (by decide)
  ⟨h.1.2 (.inr fun _ _ => rfl), h.2.2 (.inr (.inr (.inr ⟨fun _ _ => rfl, fun _ _ _ => rfl⟩)))⟩

/-- The third allocation fails and no other. -/
def Env.thirdFails : Env := { Env.sample with malloc := fun i => decide (i ≠ 2) }

/-- The second row of the matrix, and the first of the fixed channels, is missing. -/
theorem allRows_missing :
    ¬ AllOrNothing 3 (setupMatrix 3 .thirdFails).1 ∧
      ¬ SchemeOrFailure false 2 (setupColorSchemeNDR false none Shared.pair.head .thirdFails) := by
  constructor
  · rintro (h | ⟨h, -⟩)
    · exact absurd h (by decide)
    · exact absurd h (by decide)
  · intro h
    exact absurd (h (by decide)).2.1 (by decide)

end CcodeTest.Dcs
