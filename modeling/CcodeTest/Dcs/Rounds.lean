import CcodeTest.Dcs.Classify
import CcodeTest.Dcs.System

/-!
# Repeated scans

The calculation can scan more than once and combine what it hears. The number of rounds is a variable
of the source, one as shipped, and a parameter here; everything else of a round is what the system
does between two ends of the node loop. From the second round on, a strength near the one stored is
averaged, but with the entry of the adjacency matrix; `scanRounds_between_iff` says when the stored
strengths nevertheless stay between the strengths heard.
-/

namespace CcodeTest.Dcs
open CcodeTest.Lib

/-- A turn of the node loop for a node whose scan has returned. -/
def scanTurn (p : Platform) (scanCnt : Nat) (h : Head) (t : Nat × Input) : Head :=
  let h := creditHead h t.1 t.2
  let h := { h with isNeedDoRfa := needDoRfa h t.2.scanGCount }
  let last := decide (scanCnt - 1 = h.roundOfCalc)
  h.modifyNode t.1 fun n => (rfaNode p.toRfaLib h t.2.scanGCount last n t.2.env).1

/-- A round: the turns of the nodes that have scanned, with what they heard. -/
def scanRound (p : Platform) (scanCnt : Nat) (h : Head) (turns : List (Nat × Input)) : Head :=
  let h := turns.foldl (scanTurn p scanCnt) h
  { h with roundOfCalc := (h.roundOfCalc + 1) % 256 }

/-- The first `k` rounds. -/
def scanRounds (p : Platform) (scanCnt : Nat) (h : Head) (rounds : Nat → List (Nat × Input)) :
    Nat → Head
  | 0 => h
  | k + 1 => scanRound p scanCnt (scanRounds p scanCnt h rounds k) (rounds k)

/-- With the number of rounds of the source, a turn is that of the system. -/
lemma scanTurn_eq (p : Platform) (h : Head) (row : Nat) (inp : Input) :
    scanTurn p scanCnt h (row, inp) = rfaRow p (creditHead h row inp) row inp := rfl

/-- The system ends a round the same way. -/
lemma endRound_head (p : Platform) (s : Sys) (turns : List (Nat × Input)) :
    (endRound (s.setHead (turns.foldl (scanTurn p scanCnt) s.head))).head =
      scanRound p scanCnt s.head turns := by
  unfold endRound
  dsimp only
  split <;> rfl

/-- What the traversal reads of a node. -/
def Node.heardAs (n : Node) : Mac × Bool := (n.bssid, n.vapResolved)

/-- In a round the node at `row` has heard the node at `col` with the strength `v`, in an entry that
its pass gets to. -/
def Heard (h : Head) (turns : List (Nat × Input)) (row col v : Nat) : Prop :=
  (turns.map Prod.fst).Nodup ∧
    ∃ (inp : Input) (n : Node) (m : Nat) (r : ScanResult), (row, inp) ∈ turns ∧
      h.slList[col]? = some n ∧ (inp.results.map (·.bssid)).Nodup ∧ inp.results[m]? = some r ∧
      n.bssid = r.bssid ∧ reaches n inp.results m = true ∧ r.rssi = v

section Turn

variable {p : Platform} {scanCnt : Nat} {h h' : Head} {row col : Nat} {inp : Input}

/-- What a turn keeps: the round, the adjacency matrix and who is where. -/
structure SameRound (h h' : Head) : Prop where
  round : h'.roundOfCalc = h.roundOfCalc
  adjacent : h'.pAdjacentMatrix = h.pAdjacentMatrix
  nodes : h'.slList.map Node.heardAs = h.slList.map Node.heardAs

/-- Nothing changed. -/
lemma SameRound.refl (h : Head) : SameRound h h := ⟨rfl, rfl, rfl⟩

/-- One thing after another. -/
lemma SameRound.trans {h'' : Head} (h₁ : SameRound h h') (h₂ : SameRound h' h'') :
    SameRound h h'' :=
  ⟨h₂.round.trans h₁.round, h₂.adjacent.trans h₁.adjacent, h₂.nodes.trans h₁.nodes⟩

/-- A change of a node that is heard as before. -/
lemma SameRound.modifyNode (h : Head) (i : Nat) {f : Node → Node}
    (hf : ∀ n, (f n).heardAs = n.heardAs) : SameRound h (h.modifyNode i f) := by
  refine ⟨rfl, rfl, ?_⟩
  apply List.ext_getElem?
  intro j
  simp only [Head.modifyNode, List.getElem?_map, List.getElem?_modify]
  cases h.slList[j]? with
  | none => rfl
  | some n =>
    by_cases hij : i = j
    · simp [hij, hf]
    · simp [hij]

/-- A node that is listed before is listed after, and heard alike. -/
lemma exists_heardAs (hs : h'.slList.map Node.heardAs = h.slList.map Node.heardAs) {n : Node}
    (hn : h.slList[col]? = some n) : ∃ n', h'.slList[col]? = some n' ∧ n'.heardAs = n.heardAs := by
  have hcol : (h'.slList.map Node.heardAs)[col]? = some n.heardAs := by
    rw [hs, List.getElem?_map, hn]
    rfl
  rw [List.getElem?_map] at hcol
  exact Option.map_eq_some_iff.1 hcol

/-- The results of a scan keep the round. -/
lemma sameRound_traverseResults (h : Head) (row : Nat) (results : List ScanResult) :
    SameRound h (traverseResults h row results) := by
  obtain ⟨cell, flag, rf, heq⟩ := traverseResults_frame h row results
  rw [heq]
  exact ⟨rfl, rfl, rfl⟩

/-- So does crediting an access point. -/
lemma sameRound_creditHead (h : Head) (row : Nat) (inp : Input) :
    SameRound h (creditHead h row inp) := by
  have hmod : SameRound h (h.modifyNode row fun n =>
      { n with scanReturn := .ok, scanTime := inp.now }) := .modifyNode h row fun _ => rfl
  exact hmod.trans (sameRound_traverseResults ..)

/-- The RFA part does not change how a node is heard. -/
lemma rfaNode_heardAs {lib : RfaLib} (h : Head) (cnt : Nat) (last : Bool) (n : Node) (e : Env) :
    (rfaNode lib h cnt last n e).1.heardAs = n.heardAs := by
  unfold rfaNode orderOptions
  split
  · split <;> rfl
  · rfl

/-- A turn of the scan keeps the round. -/
lemma sameRound_scanTurn (h : Head) (t : Nat × Input) : SameRound h (scanTurn p scanCnt h t) := by
  have hneed : SameRound (creditHead h t.1 t.2) { creditHead h t.1 t.2 with
      isNeedDoRfa := needDoRfa (creditHead h t.1 t.2) t.2.scanGCount } := ⟨rfl, rfl, rfl⟩
  refine (sameRound_creditHead h t.1 t.2).trans (hneed.trans ?_)
  exact .modifyNode _ _ fun n => rfaNode_heardAs ..

/-- The RFA part leaves the matrix to the traversal. -/
lemma scanTurn_rssi (t : Nat × Input) :
    (scanTurn p scanCnt h t).rssi = (creditHead h t.1 t.2).rssi := rfl

/-- The results of a row leave the other rows alone. -/
lemma traverseNodes_cell_row {l : List (ScanResult × Nat)} {ns : List Node} {a b : Nat}
    (ha : a ≠ row) : (traverseNodes row l ns col h).rssi a b = h.rssi a b := by
  induction ns generalizing col h with
  | nil => rfl
  | cons n ns ih => rw [traverseNodes, ih, traverseNode_cell_ne fun e => absurd e ha]

/-- A turn writes in its own row. -/
lemma scanTurn_row {t : Nat × Input} (hrow : row ≠ t.1) :
    (scanTurn p scanCnt h t).rssi row col = h.rssi row col := by
  rw [scanTurn_rssi, creditHead, traverseResults, traverseNodes_cell_row hrow]
  rfl

/-- There it stores what the strength comes to. -/
lemma scanTurn_cell {n : Node} {m : Nat} {r : ScanResult} (hn : h.slList[col]? = some n)
    (hnd : (inp.results.map (·.bssid)).Nodup) (hr : inp.results[m]? = some r)
    (hown : n.bssid = r.bssid) (hreach : reaches n inp.results m = true) :
    (scanTurn p scanCnt h (row, inp)).rssi row col = storedRssi h row col r.rssi := by
  have hmod : SameRound h (h.modifyNode row fun n =>
      { n with scanReturn := .ok, scanTime := inp.now }) := .modifyNode h row fun _ => rfl
  obtain ⟨n', hn', hkey⟩ := exists_heardAs hmod.nodes hn
  obtain ⟨hb, hv⟩ := Prod.mk.inj hkey
  have hreach' : reaches n' inp.results m = true := by
    rw [reaches, hb, hv]
    exact hreach
  have hcell := traverseNodes_cell (h := { (h.modifyNode row fun n =>
    { n with scanReturn := .ok, scanTime := inp.now }) with findFlag := fun _ => true }) row 0 hnd hr
    hn' (hb.trans hown)
  rw [Nat.zero_add, if_pos hreach'] at hcell
  rw [scanTurn_rssi, creditHead, traverseResults, hcell]
  exact storedRssi_congr rfl rfl rfl

end Turn

section Round

variable {p : Platform} {scanCnt : Nat} {h h' : Head} {row col v : Nat}
  {turns : List (Nat × Input)}

/-- All turns keep the round. -/
lemma sameRound_foldl (p : Platform) (scanCnt : Nat) (turns : List (Nat × Input)) (h : Head) :
    SameRound h (turns.foldl (scanTurn p scanCnt) h) := by
  induction turns generalizing h with
  | nil => exact .refl h
  | cons t turns ih => exact (sameRound_scanTurn h t).trans (ih _)

/-- The turns of other nodes leave the row alone. -/
lemma foldl_scanTurn_row (hrow : row ∉ turns.map Prod.fst) :
    (turns.foldl (scanTurn p scanCnt) h).rssi row col = h.rssi row col := by
  induction turns generalizing h with
  | nil => rfl
  | cons t turns ih =>
    rw [List.map_cons, List.mem_cons, not_or] at hrow
    rw [List.foldl_cons, ih hrow.2, scanTurn_row hrow.1]

/-- What is heard depends on who is where. -/
lemma Heard.congr (hs : h'.slList.map Node.heardAs = h.slList.map Node.heardAs)
    (hh : Heard h turns row col v) : Heard h' turns row col v := by
  obtain ⟨hrows, inp, n, m, r, hmem, hn, hnd, hr, hown, hreach, hv⟩ := hh
  obtain ⟨n', hn', hkey⟩ := exists_heardAs hs hn
  obtain ⟨hb, hres⟩ := Prod.mk.inj hkey
  refine ⟨hrows, inp, n', m, r, hmem, hn', hnd, hr, hb.trans hown, ?_, hv⟩
  rw [reaches, hb, hres]
  exact hreach

/-- The turns of a round store what the strength comes to. -/
lemma foldl_scanTurn_cell (p : Platform) (scanCnt : Nat) (hh : Heard h turns row col v) :
    (turns.foldl (scanTurn p scanCnt) h).rssi row col = storedRssi h row col v := by
  induction turns generalizing h with
  | nil =>
    obtain ⟨-, inp, n, m, r, hmem, -⟩ := hh
    cases hmem
  | cons t turns ih =>
    obtain ⟨hrows, inp, n, m, r, hmem, hn, hnd, hr, hown, hreach, rfl⟩ := hh
    rw [List.map_cons, List.nodup_cons] at hrows
    rw [List.foldl_cons]
    rcases List.mem_cons.1 hmem with rfl | hmem
    · rw [foldl_scanTurn_row hrows.1, scanTurn_cell hn hnd hr hown hreach]
    · have hrow : row ≠ t.1 := by
        rintro rfl
        exact hrows.1 (List.mem_map.2 ⟨_, hmem, rfl⟩)
      have hs : SameRound h (scanTurn p scanCnt h t) := sameRound_scanTurn h t
      rw [ih (.congr hs.nodes ⟨hrows.2, inp, n, m, r, hmem, hn, hnd, hr, hown, hreach, rfl⟩)]
      exact storedRssi_congr hs.round hs.adjacent (scanTurn_row hrow)

end Round

/-- A value between two of the strengths heard up to round `k`. -/
def BetweenHeard (v : Nat → Nat) (k x : Nat) : Prop := (∃ i ≤ k, v i ≤ x) ∧ ∃ j ≤ k, x ≤ v j

section Rounds

variable {p : Platform} {scanCnt : Nat} {h : Head} {rounds : Nat → List (Nat × Input)}
  {v : Nat → Nat} {row col k x : Nat}

/-- What was heard last is between what was heard. -/
lemma BetweenHeard.self (v : Nat → Nat) (k : Nat) : BetweenHeard v k (v k) :=
  ⟨⟨k, Nat.le_refl k, Nat.le_refl _⟩, k, Nat.le_refl k, Nat.le_refl _⟩

/-- It stays so with one more round. -/
lemma BetweenHeard.succ (hx : BetweenHeard v k x) : BetweenHeard v (k + 1) x := by
  obtain ⟨⟨i, hi, hlo⟩, j, hj, hhi⟩ := hx
  exact ⟨⟨i, Nat.le_succ_of_le hi, hlo⟩, j, Nat.le_succ_of_le hj, hhi⟩

/-- The mean with `a` is between the strengths heard. -/
lemma betweenHeard_mean {a : Nat} : BetweenHeard v k ((v k + a) / 2) ↔
    (∃ i ≤ k, 2 * v i ≤ v k + a) ∧ ∃ j ≤ k, v k + a ≤ 2 * v j + 1 := by
  refine and_congr (exists_congr fun i => and_congr_right fun _ => ?_)
    (exists_congr fun j => and_congr_right fun _ => ?_)
  · omega
  · omega

/-- What the rounds keep, and how many there have been. -/
lemma scanRounds_kept (p : Platform) (scanCnt : Nat) (rounds : Nat → List (Nat × Input))
    (h0 : h.roundOfCalc = 0) (k : Nat) :
    (scanRounds p scanCnt h rounds k).roundOfCalc = k % 256 ∧
      (scanRounds p scanCnt h rounds k).pAdjacentMatrix = h.pAdjacentMatrix ∧
      (scanRounds p scanCnt h rounds k).slList.map Node.heardAs = h.slList.map Node.heardAs := by
  induction k with
  | zero => exact ⟨h0, rfl, rfl⟩
  | succ k ih =>
    obtain ⟨hround, hadj, hnodes⟩ := ih
    have hs := sameRound_foldl p scanCnt (rounds k) (scanRounds p scanCnt h rounds k)
    refine ⟨?_, hs.adjacent.trans hadj, hs.nodes.trans hnodes⟩
    rw [scanRounds, scanRound]
    dsimp only
    rw [hs.round, hround]
    omega

/-- One round. -/
lemma scanRounds_succ (p : Platform) (scanCnt : Nat) (h0 : h.roundOfCalc = 0)
    (hh : Heard h (rounds k) row col (v k)) :
    (scanRounds p scanCnt h rounds (k + 1)).rssi row col =
      if k % 256 = 0 then v k
      else if abs32 ((v k : Int) - (scanRounds p scanCnt h rounds k).rssi row col) <
          rssiAcceptableInterval then (v k + h.pAdjacentMatrix.cell row col) / 2
      else if (scanRounds p scanCnt h rounds k).rssi row col > v k then
        (scanRounds p scanCnt h rounds k).rssi row col
      else v k := by
  obtain ⟨hround, hadj, hnodes⟩ := scanRounds_kept p scanCnt rounds h0 k
  have hcell := foldl_scanTurn_cell p scanCnt (hh.congr hnodes)
  rw [storedRssi, hround, hadj] at hcell
  exact hcell

end Rounds

/-- In every sequence of rounds, and after each of them, the stored strength is between the smallest
and the largest strength heard so far, exactly when in every round in which the mean is taken the
entry of the adjacency matrix leaves it there. The round counter has eight bits; in every 256th round
the strength is stored as in the first. -/
theorem scanRounds_between_iff (p : Platform) (scanCnt : Nat) (h : Head) (h0 : h.roundOfCalc = 0)
    (rounds : Nat → List (Nat × Input)) (row col K : Nat) (v : Nat → Nat)
    (hh : ∀ k < K, Heard h (rounds k) row col (v k)) :
    (∀ k < K, BetweenHeard v k ((scanRounds p scanCnt h rounds (k + 1)).rssi row col)) ↔
      ∀ k < K, k % 256 ≠ 0 →
        abs32 ((v k : Int) - (scanRounds p scanCnt h rounds k).rssi row col) <
          rssiAcceptableInterval →
        (∃ i ≤ k, 2 * v i ≤ v k + h.pAdjacentMatrix.cell row col) ∧
          ∃ j ≤ k, v k + h.pAdjacentMatrix.cell row col ≤ 2 * v j + 1 := by
  constructor
  · intro hbetween k hk hround hnear
    have hx := hbetween k hk
    rw [scanRounds_succ p scanCnt h0 (hh k hk), if_neg hround, if_pos hnear] at hx
    exact betweenHeard_mean.1 hx
  · intro hmean k
    induction k with
    | zero =>
      intro hk
      rw [scanRounds_succ p scanCnt h0 (hh 0 hk), if_pos (Nat.zero_mod 256)]
      exact .self v 0
    | succ k ih =>
      intro hk
      rw [scanRounds_succ p scanCnt h0 (hh (k + 1) hk)]
      split
      · exact .self v (k + 1)
      · rename_i hround
        split
        · rename_i hnear
          exact betweenHeard_mean.2 (hmean (k + 1) hk hround hnear)
        · split
          · exact (ih (Nat.lt_of_succ_lt hk)).succ
          · exact .self v (k + 1)

/-- Two access points, before the first calculation. -/
def Head.twoListed : Head := { Head.init with slList := [Node.sample 1, Node.sample 2] }

/-- In round `k` the first hears the second with the strength `v k`. -/
def hearing (v : Nat → Nat) (k : Nat) : List (Nat × Input) :=
  [(0, { Input.sample with results := [⟨(Node.sample 2).bssid, 2437, v k⟩], scanGCount := 1 })]

/-- What the second access point was heard with. -/
lemma heard_hearing (v : Nat → Nat) (k : Nat) : Heard Head.twoListed (hearing v k) 0 1 (v k) :=
  ⟨List.nodup_singleton 0, _, Node.sample 2, 0, _, List.mem_singleton.2 rfl, rfl,
    List.nodup_singleton _, rfl, rfl, reaches_zero, rfl⟩

/-- Strengths that lie apart: the larger one stays. -/
theorem scanRounds_between_iff_apart :
    BetweenHeard (fun k => 50 - 10 * k) 1
      ((scanRounds Platform.sample 2 Head.twoListed (hearing fun k => 50 - 10 * k) 2).rssi 0 1) := by
  refine (scanRounds_between_iff Platform.sample 2 Head.twoListed rfl (hearing fun k => 50 - 10 * k) 0 1 2
    (fun k => 50 - 10 * k) (fun k _ => heard_hearing _ k)).2 ?_ 1 (by decide)
  rintro (_ | _ | k) hk hround hnear
  · exact absurd rfl hround
  · exact absurd hnear (by decide)
  · omega

/-- The same strength twice: half of it is stored. -/
theorem scanRounds_twice :
    Heard Head.twoListed (hearing (fun _ => 50) 0) 0 1 50 ∧
      Heard Head.twoListed (hearing (fun _ => 50) 1) 0 1 50 ∧
      (scanRounds Platform.sample 2 Head.twoListed (hearing fun _ => 50) 2).rssi 0 1 = 25 ∧
      ¬ BetweenHeard (fun _ => 50) 1
        ((scanRounds Platform.sample 2 Head.twoListed (hearing fun _ => 50) 2).rssi 0 1) := by
  have hcell : (scanRounds Platform.sample 2 Head.twoListed (hearing fun _ => 50) 2).rssi 0 1 = 25 := by
    decide
  refine ⟨heard_hearing _ 0, heard_hearing _ 1, hcell, ?_⟩
  rintro ⟨⟨i, -, hlo⟩, -⟩
  rw [hcell] at hlo
  have hlo : 50 ≤ 25 := hlo
  omega

end CcodeTest.Dcs
