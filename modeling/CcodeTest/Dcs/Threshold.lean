import Mathlib.Data.List.GetD
import CcodeTest.Dcs.Assign
import CcodeTest.Dcs.Symmetric

/-!
# The search for a threshold

The last part of a calculation builds the conflict graph of a threshold, colours it, and moves the
threshold: a probe at 15, one at 100, steps of 20 above 100, and a bisection between 15 and 100.

`probe` is one pass through the graph set-up and the colouring, `adjust` moves the threshold and
the interval, and `thresholdLoop` is the `while(1)` around them. `probe_spec` reduces a pass to
whether the threshold has a valid colouring at all; from there the loop is a walk through five
phases, and `thresholdLoop_terminates` follows it to its exit.
-/

namespace CcodeTest.Dcs
open CcodeTest.Lib

/-- `memsetAdjacentMatrix`. -/
def memsetAdjacentMatrix (h : Head) : Head :=
  let h := h.protect
  let cell := fun r c =>
    if r < h.matrixLen ∧ c < h.matrixLen then 0 else h.pAdjacentMatrix.cell r c
  Head.release { h with pAdjacentMatrix := { h.pAdjacentMatrix with cell := cell } }

/-- `memsetColorScheme`. -/
def memsetColorScheme (h : Head) : Head :=
  let h := h.protect
  let cell := fun i =>
    if i < h.colorScheme.numOfVertex then 0 else h.colorScheme.pVertexColor.cell i
  Head.release
    { h with
      colorScheme :=
        { h.colorScheme with
          pVertexColor := { h.colorScheme.pVertexColor with cell := cell }
          schemeCnt := 0 }
      rfEvaluate := ⟨fun _ => 0, fun _ => 0⟩
      isNeedDoRfa := false }

/-- The two loops that set the adjacency matrix from the RSSI matrix, and its symmetrisation. -/
def setAdjacent (h : Head) : Head :=
  let cell := fun r c =>
    if r < h.count ∧ c < h.count then
      if h.rssi r c > toULong h.rssiCurThreshold then 1 else 0
    else h.pAdjacentMatrix.cell r c
  { h with
    pAdjacentMatrix :=
      { h.pAdjacentMatrix with cell := (tMatrix2Symmetric cell h.count h.count).1 } }

/-- The colouring state the head holds. -/
def Head.search (h : Head) (e : Env) : Search :=
  ⟨h.node, h.vertexColor, h.colorScheme.schemeCnt, e⟩

/-- Store what the search left. -/
def Head.store (h : Head) (s : Search) : Head :=
  { h with
    slList := (List.range h.count).map s.nodes
    colorScheme :=
      { h.colorScheme with
        pVertexColor := { h.colorScheme.pVertexColor with cell := s.pVertexColor }
        schemeCnt := s.schemeCnt } }

/-- One pass: build the graph of the current threshold and colour it from the head of the list. -/
def probe (lib : RfaLib) (h : Head) (e : Env) : Head × Env :=
  let h := memsetColorScheme (setAdjacent (memsetAdjacentMatrix h))
  let s := giveOneAssign lib h.rssi h.pAdjacentMatrix.cell h.count 0 (h.search e)
  (h.store s, s.env)

/-- Move the threshold `t` and the interval from `rssiStart` to `rssiEnd`; `none` leaves the
loop. -/
def adjust (found : Bool) (t rssiStart rssiEnd : Int) : Option (Int × Int × Int) :=
  if found then
    if t = rssiThresholdMini then none
    -- the test reads the interval as it was before this success
    else if rssiEnd - rssiStart < rssiStopInterval then none
    else some ((toInt32 (rssiStart + t)).tdiv 2, rssiStart, t)
  else if t = rssiThresholdMini then some (rssiThresholdMax, rssiStart, rssiEnd)
  else if t ≥ rssiThresholdMax then some (toInt32 (t + rssiThresholdDelta), t, rssiEnd)
  else if t > rssiThresholdMini ∧ t < rssiThresholdMax then
    if rssiStart = t then some (rssiEnd, rssiStart, rssiEnd)
    else some ((toInt32 (t + rssiEnd)).tdiv 2, t, rssiEnd)
  else some (t, rssiStart, rssiEnd)

section Adjust

variable {t s e : Int}

lemma adjust_exit (h : t = 15 ∨ e - s < 5) : adjust true t s e = none := by
  by_cases h15 : t = rssiThresholdMini
  · rw [adjust, if_pos rfl, if_pos h15]
  · rw [adjust, if_pos rfl, if_neg h15,
      if_pos (show e - s < rssiStopInterval from h.resolve_left h15)]

lemma adjust_lower (h15 : t ≠ 15) (h : ¬ e - s < 5) :
    adjust true t s e = some ((toInt32 (s + t)).tdiv 2, s, t) := by
  rw [adjust, if_pos rfl, if_neg (show ¬ t = rssiThresholdMini from h15),
    if_neg (show ¬ e - s < rssiStopInterval from h)]

lemma adjust_escalate (h : 100 ≤ t) :
    adjust false t s e = some (toInt32 (t + 20), t, e) := by
  have h15 : ¬ t = rssiThresholdMini := fun h' => by
    have : t = 15 := h'
    omega
  rw [adjust, if_neg Bool.false_ne_true, if_neg h15, if_pos (show t ≥ rssiThresholdMax from h)]
  rfl

/-- An unsolvable threshold strictly inside the interval of the bisection. -/
lemma adjust_inside (h : 15 < t) (h' : t < 100) :
    adjust false t s e =
      if s = t then some (e, s, e) else some ((toInt32 (t + e)).tdiv 2, t, e) := by
  have h15 : ¬ t = rssiThresholdMini := Int.ne_of_gt h
  rw [adjust, if_neg Bool.false_ne_true, if_neg h15,
    if_neg (show ¬ t ≥ rssiThresholdMax from Int.not_le.2 h'),
    if_pos (show t > rssiThresholdMini ∧ t < rssiThresholdMax from ⟨h, h'⟩)]

/-- Only a success leaves the loop. -/
lemma found_of_adjust {found : Bool} (h : adjust found t s e = none) : found = true := by
  cases found with
  | true => rfl
  | false =>
    unfold adjust at h
    rw [if_neg Bool.false_ne_true] at h
    split at h
    · cases h
    · split at h
      · cases h
      · split at h
        · split at h <;> cases h
        · cases h

end Adjust

/-- The variables of the loop. -/
structure Loop where
  head : Head
  rssiStart : Int
  rssiEnd : Int
  env : Env

/-- The `while(1)` of the calculation; without a bound it may run for ever, so `fuel` bounds the
number of passes. -/
def thresholdLoop (lib : RfaLib) : Nat → Loop → Option Loop
  | 0, _ => none
  | fuel + 1, l =>
    let p := probe lib l.head l.env
    let found := p.1.colorScheme.schemeCnt != 0
    let head := if found then p.1 else { p.1 with roundOfCalc := (p.1.roundOfCalc + 1) % 256 }
    match adjust found head.rssiCurThreshold l.rssiStart l.rssiEnd with
    | none => some ⟨head, l.rssiStart, l.rssiEnd, p.2⟩
    | some (t, s, e) => thresholdLoop lib fuel ⟨{ head with rssiCurThreshold := t }, s, e, p.2⟩

/-- The state the loop is entered in. -/
def Loop.start (h : Head) (e : Env) : Loop :=
  ⟨{ h with rssiCurThreshold := rssiThresholdMini }, rssiThresholdMini, rssiThresholdMax, e⟩

/-- One of the two hears the other above the threshold. -/
def Conflict (h : Head) (t : Int) (u v : Nat) : Prop := t < h.rssi u v ∨ t < h.rssi v u

/-- The same as the code compares it, with the threshold converted to `unsigned long`. -/
def Hears (h : Head) (t : Int) (u v : Nat) : Prop :=
  toULong t < h.rssi u v ∨ toULong t < h.rssi v u

/-- A colouring of the access points that take part, for the conflicts of a threshold. -/
def ValidColoring (h : Head) (t : Int) (f : Nat → Nat) : Prop :=
  (∀ v < h.count, (h.node v).participating → AllowedColor (h.node v) (f v)) ∧
    ∀ u < h.count, ∀ v < h.count, u ≠ v → (h.node u).participating → (h.node v).participating →
      Conflict h t u v → f u ≠ f v

/-- `h` differs from `h₀` in nothing the conflicts and the allowed colours depend on. -/
structure Kept (h₀ h : Head) : Prop where
  count : h.count = h₀.count
  rssi : h.rssi = h₀.rssi
  same : ∀ i, (h₀.node i).SameButOptions (h.node i)

section Probe

variable {lib : RfaLib} {h h₀ : Head} {e : Env}

/-- The state in which a pass starts to colour. -/
def Head.graph (h : Head) : Head := memsetColorScheme (setAdjacent (memsetAdjacentMatrix h))

lemma probe_eq :
    probe lib h e =
      let s := giveOneAssign lib h.rssi h.graph.pAdjacentMatrix.cell h.count 0 (h.graph.search e)
      (h.graph.store s, s.env) := rfl

/-- The edges of the graph: one of the two hears the other above the threshold, which is compared as
an `unsigned long`. -/
lemma graph_adjacent {u v : Nat} (hu : u < h.count) (hv : v < h.count) :
    h.graph.pAdjacentMatrix.cell v u ≠ 0 ↔ Hears h h.rssiCurThreshold v u := by
  refine (tMatrix2Symmetric_nonzero hv hu).trans ?_
  have hcell : ∀ a < h.count, ∀ b < h.count,
      ((if a < (memsetAdjacentMatrix h).count ∧ b < (memsetAdjacentMatrix h).count then
        if (memsetAdjacentMatrix h).rssi a b > toULong (memsetAdjacentMatrix h).rssiCurThreshold
        then 1 else 0
      else (memsetAdjacentMatrix h).pAdjacentMatrix.cell a b) ≠ 0 ↔
        toULong h.rssiCurThreshold < h.rssi a b) := by
    intro a ha b hb
    rw [if_pos (show a < (memsetAdjacentMatrix h).count ∧ b < (memsetAdjacentMatrix h).count from
      ⟨ha, hb⟩)]
    change (if h.rssi a b > toULong h.rssiCurThreshold then 1 else 0) ≠ 0 ↔ _
    split
    · rename_i hgt
      exact ⟨fun _ => hgt, fun _ => Nat.one_ne_zero⟩
    · rename_i hgt
      exact ⟨fun hne => absurd rfl hne, fun hlt => absurd hlt hgt⟩
  rw [hcell v hv u hu, hcell u hu v hv]
  exact Iff.rfl

/-- For a threshold in the range of `int` these are its conflicts. -/
lemma hears_iff_conflict {t : Int} {u v : Nat} (h0 : 0 ≤ t) (h1 : t < 2 ^ 31) :
    Hears h t u v ↔ Conflict h t u v := by
  have ht := toULong_of_range h0 h1
  unfold Hears Conflict
  omega

lemma graph_adjacent_iff {u v : Nat} (h0 : 0 ≤ h.rssiCurThreshold)
    (h1 : h.rssiCurThreshold < 2 ^ 31) (hu : u < h.count) (hv : v < h.count) :
    h.graph.pAdjacentMatrix.cell v u ≠ 0 ↔ Conflict h h.rssiCurThreshold v u :=
  (graph_adjacent hu hv).trans (hears_iff_conflict h0 h1)

lemma node_of_le {i : Nat} (hi : h.count ≤ i) : h.node i = default := by
  rw [Head.node, List.getD_eq_default _ _ hi]

lemma node_store (s : Search) (i : Nat) :
    (h.store s).node i = if i < h.count then s.nodes i else default := by
  unfold Head.node Head.store
  split
  · rename_i hi
    simp [List.getD_eq_getElem?_getD, hi]
  · rename_i hi
    rw [List.getD_eq_default]
    simpa using hi

/-- A pass keeps the matrix of signal strengths, and of the nodes all but the options. -/
lemma probe_kept : Kept h (probe lib h e).1 := by
  refine ⟨?_, rfl, ?_⟩
  · simp [probe_eq, Head.count, Head.store, Head.graph, memsetColorScheme, setAdjacent,
      memsetAdjacentMatrix, Head.protect, Head.release]
  · intro i
    rw [probe_eq]
    dsimp only
    rw [node_store]
    split
    · exact giveOneAssign_same ..
    · rename_i hi
      rw [node_of_le (show h.count ≤ i from Nat.not_lt.1 hi)]
      exact rfl

/-- A property of the nodes that `doRfa` keeps is kept by a pass. -/
lemma probe_nodes {Q : Nat → Node → Prop}
    (hQ : ∀ i n color e, Q i n → Q i (doRfa lib h.rssi color n i e).1)
    (hn : ∀ i, Q i (h.node i)) (i : Nat) : Q i ((probe lib h e).1.node i) := by
  rw [probe_eq]
  dsimp only
  rw [node_store]
  split
  · exact giveOneAssign_nodes hQ _ _ hn i
  · rename_i hi
    rw [← node_of_le (show h.count ≤ i from Nat.not_lt.1 hi)]
    exact hn i

/-- What a pass leaves alone. -/
lemma probe_frame : ∃ l adj color cnt rf, (probe lib h e).1 =
    { h with
      slList := l
      pAdjacentMatrix := { h.pAdjacentMatrix with cell := adj }
      colorScheme :=
        { h.colorScheme with
          pVertexColor := { h.colorScheme.pVertexColor with cell := color }, schemeCnt := cnt }
      rfEvaluate := rf
      isNeedDoRfa := false } := by
  have hg : ∃ adj color, h.graph =
      { h with
        pAdjacentMatrix := { h.pAdjacentMatrix with cell := adj }
        colorScheme :=
          { h.colorScheme with
            pVertexColor := { h.colorScheme.pVertexColor with cell := color }, schemeCnt := 0 }
        rfEvaluate := ⟨fun _ => 0, fun _ => 0⟩
        isNeedDoRfa := false } :=
    ⟨_, _, Head.release_eq h.semMutex _ (by
      simp [Head.protect, setAdjacent, memsetAdjacentMatrix, Head.release])⟩
  obtain ⟨adj, color, hg⟩ := hg
  rw [probe_eq]
  dsimp only
  rw [hg]
  exact ⟨_, _, _, _, _, rfl⟩

lemma probe_threshold : (probe lib h e).1.rssiCurThreshold = h.rssiCurThreshold := rfl

/-- A pass that finds a scheme gives different colours across every edge, whatever the options of
the nodes are. -/
lemma probe_sound (hs : (probe lib h e).1.colorScheme.schemeCnt ≠ 0) :
    (probe lib h e).1.colorScheme.schemeCnt = 1 ∧
      ∀ v < h.count, ((h.node v).participating →
        ((probe lib h e).1.vertexColor v ∈ options ((probe lib h e).1.node v).optionalCh) ∧
        ∀ u < v, Hears h h.rssiCurThreshold v u →
          (probe lib h e).1.vertexColor u ≠ (probe lib h e).1.vertexColor v) ∧
        (¬ (h.node v).participating → (probe lib h e).1.vertexColor v = noColor) := by
  have hsound := @giveOneAssign_sound lib h.rssi h.graph.pAdjacentMatrix.cell h.count 0
    (h.graph.search e) rfl
  rw [Nat.zero_add] at hsound
  have hcnt : (probe lib h e).1.colorScheme.schemeCnt = (giveOneAssign lib h.rssi
    h.graph.pAdjacentMatrix.cell h.count 0 (h.graph.search e)).schemeCnt := rfl
  rcases hsound with hz | ⟨hone, hcol⟩
  · exact absurd (hcnt.trans hz) hs
  · refine ⟨hcnt.trans hone, ?_⟩
    intro v hv
    have hc := hcol v (Nat.zero_le v) hv
    have hnode : (probe lib h e).1.node v = (giveOneAssign lib h.rssi
        h.graph.pAdjacentMatrix.cell h.count 0 (h.graph.search e)).nodes v := by
      rw [probe_eq]
      dsimp only
      rw [node_store, if_pos (show v < h.graph.count from hv)]
    have hpart := ((@probe_kept lib h e).same v).participating
    rw [hnode] at hpart
    refine ⟨?_, ?_⟩
    · intro hp
      obtain ⟨hmem, hne⟩ := hc.1 (hpart.2 hp)
      rw [hnode]
      refine ⟨hmem, ?_⟩
      intro u hu hcf
      exact hne u hu ((graph_adjacent (Nat.lt_trans hu hv) hv).2 hcf)
    · exact fun hp => hc.2 fun hp' => hp (hpart.1 hp')

/-- The valid colourings are the proper colourings of the graph. -/
lemma validColoring_iff {t : Int} {f : Nat → Nat} :
    ValidColoring h t f ↔ Proper (fun i => (h.node i).participating) (Conflict h t)
      (fun v => AllowedColor (h.node v)) h.count f := by
  constructor
  · rintro ⟨ha, hc⟩
    refine ⟨ha, ?_⟩
    intro v hv u hu hpu hpv hcf
    exact hc u (by omega) v hv (by omega) hpu hpv hcf.symm
  · rintro ⟨ha, hc⟩
    refine ⟨ha, ?_⟩
    intro u hu v hv hne hpu hpv hcf
    rcases Nat.lt_or_gt_of_ne hne with hlt | hlt
    · exact hc v hv u hlt hpu hpv hcf.symm
    · exact fun he => hc u hu v hlt hpv hpu hcf he.symm

/-- What a pass finds out: with prepared nodes there is a scheme exactly when the threshold has a
valid colouring, and the scheme is one. -/
lemma probe_spec (h0 : 0 ≤ h.rssiCurThreshold) (h1 : h.rssiCurThreshold < 2 ^ 31)
    (hok : ∀ i, OptionsOk (h.node i)) :
    ((probe lib h e).1.colorScheme.schemeCnt = 0 ↔
        ¬ ∃ f, ValidColoring h h.rssiCurThreshold f) ∧
      ((probe lib h e).1.colorScheme.schemeCnt ≠ 0 →
        ValidColoring h h.rssiCurThreshold (probe lib h e).1.vertexColor) := by
  have hready : Ready h.graph.pAdjacentMatrix.cell h.node 0 (h.graph.search e) :=
    ⟨fun _ => rfl, hok, fun i hi => absurd hi (Nat.not_lt_zero i),
      ⟨fun v hv => absurd hv (Nat.not_lt_zero v), fun v hv => absurd hv (Nat.not_lt_zero v)⟩⟩
  have hcomp := @giveOneAssign_complete lib h.rssi _ _ h.count 0 _ rfl hready
  have hiff : Completable h.graph.pAdjacentMatrix.cell h.node (0 + h.count) 0
      (h.graph.search e).pVertexColor ↔ ∃ f, ValidColoring h h.rssiCurThreshold f := by
    rw [Nat.zero_add, Completable, extendable_zero]
    refine exists_congr fun f => ?_
    rw [validColoring_iff]
    constructor
    · intro hp
      exact hp.mono fun v hv u hu hc =>
        (graph_adjacent_iff h0 h1 (Nat.lt_trans hu hv) hv).2 hc
    · intro hp
      exact hp.mono fun v hv u hu hc =>
        (graph_adjacent_iff h0 h1 (Nat.lt_trans hu hv) hv).1 hc
  rw [hiff] at hcomp
  refine ⟨hcomp, ?_⟩
  intro hne
  obtain ⟨_, hcol⟩ := probe_sound hne
  have hok' : ∀ i, OptionsOk ((probe lib h e).1.node i) := fun i =>
    probe_nodes (Q := fun _ n => OptionsOk n) (fun _ _ _ _ h => doRfa_optionsOk h) hok i
  have hkept := @probe_kept lib h e
  rw [validColoring_iff]
  refine ⟨?_, ?_⟩
  · intro v hv hp
    have hm := ((hcol v hv).1 hp).1
    rw [(hok' v).mem_iff ((hkept.same v).participating.2 hp)] at hm
    unfold AllowedColor at hm ⊢
    rwa [show ((probe lib h e).1.node v).radioInfo = (h.node v).radioInfo by
      rw [hkept.same v]] at hm
  · intro v hv u hu _ hpv hcf
    exact ((hcol v hv).1 hpv).2 u hu ((hears_iff_conflict h0 h1).2 hcf)

end Probe

section Walk

variable {lib : RfaLib} {h h₀ : Head} {t t' s e : Int} {l : Loop}

/-- The threshold has a valid colouring. -/
def Solvable (h : Head) (t : Int) : Prop := ∃ f, ValidColoring h t f

/-- Raising the threshold only takes conflicts away. -/
lemma Solvable.mono (hs : Solvable h t) (ht : t ≤ t') : Solvable h t' := by
  obtain ⟨f, ha, hc⟩ := hs
  refine ⟨f, ha, ?_⟩
  intro u hu v hv hne hpu hpv hcf
  refine hc u hu v hv hne hpu hpv ?_
  rcases hcf with hcf | hcf
  · exact .inl (by omega)
  · exact .inr (by omega)

/-- Without conflicts one colour for all will do. -/
lemma solvable_of_bound (hb : ∀ u < h.count, ∀ v < h.count, (h.rssi u v : Int) ≤ t) :
    Solvable h t := by
  refine ⟨fun v => if (h.node v).radioInfo.chP = 0 then 1 else 0, ?_, ?_⟩
  · intro v _ _
    unfold AllowedColor
    dsimp only
    split
    · exact List.mem_cons_self ..
    · rfl
  · intro u hu v hv _ _ _ hcf
    rcases hcf with hcf | hcf
    · exact absurd (hb u hu v hv) (by omega)
    · exact absurd (hb v hv u hu) (by omega)

lemma Kept.refl (h : Head) : Kept h h := ⟨rfl, rfl, fun _ => rfl⟩

lemma Kept.trans {h₁ h₂ : Head} (k : Kept h₀ h₁) (k' : Kept h₁ h₂) : Kept h₀ h₂ :=
  ⟨k'.count.trans k.count, k'.rssi.trans k.rssi, fun i => (k.same i).trans (k'.same i)⟩

lemma Kept.validColoring (k : Kept h₀ h) {f : Nat → Nat} :
    ValidColoring h t f ↔ ValidColoring h₀ t f := by
  have hal : ∀ v c, AllowedColor (h.node v) c ↔ AllowedColor (h₀.node v) c := by
    intro v c
    unfold AllowedColor
    rw [show (h.node v).radioInfo = (h₀.node v).radioInfo by rw [k.same v]]
  unfold ValidColoring Conflict
  simp only [k.count, k.rssi, hal, fun v => (k.same v).participating]

lemma Kept.solvable (k : Kept h₀ h) : Solvable h t ↔ Solvable h₀ t :=
  exists_congr fun _ => k.validColoring

/-- The loop stands at threshold `t` with the interval from `s` to `e`. -/
structure At (h₀ : Head) (t s e : Int) (l : Loop) : Prop where
  kept : Kept h₀ l.head
  ok : ∀ i, OptionsOk (l.head.node i)
  threshold : l.head.rssiCurThreshold = t
  rssiStart : l.rssiStart = s
  rssiEnd : l.rssiEnd = e

/-- The loop ends, in a state with the given property. -/
def Finishes (lib : RfaLib) (Post : Loop → Prop) (l : Loop) : Prop :=
  ∃ fuel l', thresholdLoop lib fuel l = some l' ∧ Post l'

/-- A pass decides whether its threshold is solvable. -/
lemma At.found (a : At h₀ t s e l) (h0 : 0 ≤ t) (h1 : t < 2 ^ 31) :
    (probe lib l.head l.env).1.colorScheme.schemeCnt ≠ 0 ↔ Solvable h₀ t := by
  have hspec := @probe_spec lib l.head l.env (by rw [a.threshold]; exact h0)
    (by rw [a.threshold]; exact h1) a.ok
  rw [a.threshold] at hspec
  rw [← a.kept.solvable, Solvable, ne_eq, hspec.1, not_not]

/-- After a pass that does not leave the loop, it stands at the adjusted threshold. -/
lemma Finishes.move {Post : Loop → Prop} {found : Bool} {q : Int × Int × Int}
    (a : At h₀ t s e l) (h0 : 0 ≤ t) (h1 : t < 2 ^ 31) (hf : found = true ↔ Solvable h₀ t)
    (ha : adjust found t s e = some q) (next : ∀ l', At h₀ q.1 q.2.1 q.2.2 l' → Finishes lib Post l') :
    Finishes lib Post l := by
  have hb : ((probe lib l.head l.env).1.colorScheme.schemeCnt != 0) = found := by
    rw [Bool.eq_iff_iff, hf, ← @At.found lib _ _ _ _ _ a h0 h1, bne_iff_ne]
  have hkept := a.kept.trans (@probe_kept lib l.head l.env)
  have hok : ∀ i, OptionsOk ((probe lib l.head l.env).1.node i) := fun i =>
    probe_nodes (Q := fun _ n => OptionsOk n) (fun _ _ _ _ h => doRfa_optionsOk h) a.ok i
  obtain ⟨t', s', e'⟩ := q
  have hat : ∀ r, At h₀ t' s' e' ⟨{ (probe lib l.head l.env).1 with
      roundOfCalc := r, rssiCurThreshold := t' }, s', e', (probe lib l.head l.env).2⟩ :=
    fun r => ⟨⟨hkept.count, hkept.rssi, hkept.same⟩, hok, rfl, rfl, rfl⟩
  obtain ⟨fuel, l', hl, hp⟩ := next _ (hat (if found then
    (probe lib l.head l.env).1.roundOfCalc else ((probe lib l.head l.env).1.roundOfCalc + 1) % 256))
  refine ⟨fuel + 1, l', ?_, hp⟩
  rw [thresholdLoop, hb]
  have ht : (if found = true then (probe lib l.head l.env).1 else
      { (probe lib l.head l.env).1 with
        roundOfCalc := ((probe lib l.head l.env).1.roundOfCalc + 1) % 256 }).rssiCurThreshold = t := by
    split <;> exact a.threshold
  simp only [ht, a.rssiStart, a.rssiEnd, ha]
  rw [← hl]
  split <;> rfl

/-- What the whole loop leaves alone. -/
lemma thresholdLoop_frame {fuel : Nat} {l' : Loop} (hl : thresholdLoop lib fuel l = some l') :
    Kept l.head l'.head ∧ ∃ sl adj color cnt rf need round t, l'.head =
      { l.head with
        slList := sl
        pAdjacentMatrix := { l.head.pAdjacentMatrix with cell := adj }
        colorScheme :=
          { l.head.colorScheme with
            pVertexColor := { l.head.colorScheme.pVertexColor with cell := color }
            schemeCnt := cnt }
        rfEvaluate := rf, isNeedDoRfa := need, roundOfCalc := round, rssiCurThreshold := t } := by
  induction fuel generalizing l with
  | zero => cases hl
  | succ fuel ih =>
    have hk := @probe_kept lib l.head l.env
    obtain ⟨sl, adj, color, cnt, rf, hf⟩ := @probe_frame lib l.head l.env
    have hhead : ∀ b : Bool, ∃ r, (if b then (probe lib l.head l.env).1 else
        { (probe lib l.head l.env).1 with
          roundOfCalc := ((probe lib l.head l.env).1.roundOfCalc + 1) % 256 }) =
        { (probe lib l.head l.env).1 with roundOfCalc := r } := by
      intro b
      cases b
      · exact ⟨_, rfl⟩
      · exact ⟨_, rfl⟩
    rw [thresholdLoop] at hl
    dsimp only at hl
    obtain ⟨r, hr⟩ := hhead ((probe lib l.head l.env).1.colorScheme.schemeCnt != 0)
    rw [hr] at hl
    split at hl
    · cases hl
      refine ⟨⟨hk.count, hk.rssi, hk.same⟩, ?_⟩
      dsimp only
      rw [hf]
      exact ⟨_, _, _, _, _, _, _, _, rfl⟩
    · obtain ⟨hk', sl', adj', color', cnt', rf', need', round', t', hf'⟩ := ih hl
      have hround : Kept l.head { (probe lib l.head l.env).1 with roundOfCalc := r } :=
        ⟨hk.count, hk.rssi, hk.same⟩
      refine ⟨hround.trans ⟨hk'.count, hk'.rssi, hk'.same⟩, ?_⟩
      rw [hf', hf]
      exact ⟨_, _, _, _, _, _, _, _, rfl⟩

/-- The loop ends with a pass that finds a scheme; what every pass keeps of the nodes and of the
memory holds before that last one. -/
lemma thresholdLoop_last {Q : Nat → Node → Env → Prop}
    (hQ : ∀ h e, (∀ i, Q i (h.node i) e) → ∀ i, Q i ((probe lib h e).1.node i) (probe lib h e).2)
    {fuel : Nat} {l' : Loop} (hl : thresholdLoop lib fuel l = some l')
    (hq : ∀ i, Q i (l.head.node i) l.env) :
    ∃ h e, Kept l.head h ∧ (∀ i, Q i (h.node i) e) ∧ l'.head = (probe lib h e).1 ∧
      (probe lib h e).1.colorScheme.schemeCnt ≠ 0 := by
  induction fuel generalizing l with
  | zero => cases hl
  | succ fuel ih =>
    have hk := @probe_kept lib l.head l.env
    rw [thresholdLoop] at hl
    dsimp only at hl
    split at hl
    · rename_i ha
      have hf := found_of_adjust ha
      rw [if_pos hf] at hl
      cases hl
      exact ⟨l.head, l.env, .refl _, hq, rfl, bne_iff_ne.1 hf⟩
    · have hnode : ∀ (b : Bool) (r : Nat) (t : Int) (i : Nat), Head.node
          { (if b then (probe lib l.head l.env).1 else
            { (probe lib l.head l.env).1 with roundOfCalc := r }) with rssiCurThreshold := t } i =
          (probe lib l.head l.env).1.node i := by
        intro b r t i
        cases b <;> rfl
      obtain ⟨h, e, hk', hq', hrest⟩ := ih hl (by
        intro i
        rw [hnode]
        exact hQ _ _ hq i)
      refine ⟨h, e, hk.trans ⟨?_, ?_, ?_⟩, hq', hrest⟩
      · rw [hk'.count]
        dsimp only
        split <;> rfl
      · rw [hk'.rssi]
        dsimp only
        split <;> rfl
      · intro i
        have hs := hk'.same i
        rw [hnode] at hs
        exact hs

/-- What the loop leaves behind: a scheme that is a valid colouring of the final threshold, which is
the lowest or close above one without valid colouring. -/
structure Done (h₀ : Head) (l : Loop) : Prop where
  cnt : l.head.colorScheme.schemeCnt > 0
  valid : ValidColoring h₀ l.head.rssiCurThreshold l.head.vertexColor
  close : l.head.rssiCurThreshold = 15 ∨ ∃ t' < l.head.rssiCurThreshold, ¬ Solvable h₀ t' ∧
    (l.head.rssiCurThreshold ≤ 100 → l.head.rssiCurThreshold - t' < 5) ∧
    (l.head.rssiCurThreshold > 100 → l.head.rssiCurThreshold - t' = 20)

/-- A pass that finds a colouring and leaves the loop. -/
lemma Finishes.exit (a : At h₀ t s e l) (h0 : 0 ≤ t) (h1 : t < 2 ^ 31) (hs : Solvable h₀ t)
    (ha : adjust true t s e = none)
    (hc : t = 15 ∨ ∃ t' < t, ¬ Solvable h₀ t' ∧ (t ≤ 100 → t - t' < 5) ∧ (t > 100 → t - t' = 20)) :
    Finishes lib (Done h₀) l := by
  have hne := (@At.found lib _ _ _ _ _ a h0 h1).2 hs
  have hspec := @probe_spec lib l.head l.env (by rw [a.threshold]; exact h0)
    (by rw [a.threshold]; exact h1) a.ok
  refine ⟨1, ⟨(probe lib l.head l.env).1, s, e, (probe lib l.head l.env).2⟩, ?_, ?_⟩
  · have hb : ((probe lib l.head l.env).1.colorScheme.schemeCnt != 0) = true := bne_iff_ne.2 hne
    simp only [thresholdLoop, hb, if_true, probe_threshold, a.threshold, a.rssiStart, a.rssiEnd, ha]
  · have hv := hspec.2 hne
    rw [a.threshold, a.kept.validColoring] at hv
    have ht : (probe lib l.head l.env).1.rssiCurThreshold = t := a.threshold
    refine ⟨Nat.pos_of_ne_zero hne, ?_, ?_⟩
    · rw [ht]
      exact hv
    · rw [ht]
      exact hc

/-- The bisection: the lower end is not solvable, the upper one is, and the interval shrinks. -/
lemma finishes_bisect (n : Nat) (hn : e - s ≤ n) (hs : 15 ≤ s) (hse : s < e) (he : e ≤ 100)
    (hgap : s = 15 → s + 2 ≤ e) (hno : ¬ Solvable h₀ s) (hyes : Solvable h₀ e)
    (a : At h₀ ((s + e) / 2) s e l) : Finishes lib (Done h₀) l := by
  induction n generalizing s e l with
  | zero => omega
  | succ n ih =>
    have hm15 : (s + e) / 2 ≠ 15 := by omega
    by_cases hm : Solvable h₀ ((s + e) / 2)
    · have hsm : s ≠ (s + e) / 2 := fun h => hno (by rw [h]; exact hm)
      by_cases hstop : e - s < 5
      · refine Finishes.exit a (by omega) (by omega) hm ?_ (.inr ⟨s, by omega, hno, ?_⟩)
        · exact adjust_exit (.inr hstop)
        · omega
      · refine Finishes.move (q := ((s + (s + e) / 2) / 2, s, (s + e) / 2)) a (by omega) (by omega)
          (iff_of_true rfl hm) ?_ ?_
        · have hw : toInt32 (s + (s + e) / 2) = s + (s + e) / 2 :=
            toInt32_of_range (by omega) (by omega)
          rw [adjust_lower hm15 hstop, hw,
            Int.tdiv_eq_ediv_of_nonneg (show 0 ≤ s + (s + e) / 2 by omega)]
        · intro l' a'
          exact ih (by omega) hs (by omega) (by omega) (by omega) hno hm a'
    · by_cases hsm : s = (s + e) / 2
      · -- the ends are neighbours: the code probes the lower one again and then takes the upper
        refine Finishes.move (q := (e, s, e)) a (by omega) (by omega)
          (iff_of_false Bool.false_ne_true hm) ?_ ?_
        · rw [adjust_inside (by omega) (by omega), if_pos hsm]
        · intro l' a'
          refine Finishes.exit (t := e) a' (by omega) (by omega) hyes
            (adjust_exit (.inr (by dsimp only; omega))) (.inr ⟨s, hse, hno, ?_⟩)
          omega
      · refine Finishes.move (q := (((s + e) / 2 + e) / 2, (s + e) / 2, e)) a (by omega) (by omega)
          (iff_of_false Bool.false_ne_true hm) ?_ ?_
        · have hw : toInt32 ((s + e) / 2 + e) = (s + e) / 2 + e :=
            toInt32_of_range (by omega) (by omega)
          rw [adjust_inside (by omega) (by omega), if_neg hsm, hw,
            Int.tdiv_eq_ediv_of_nonneg (show 0 ≤ (s + e) / 2 + e by omega)]
        · intro l' a'
          exact ih (by omega) (by omega) (by omega) he (by omega) hm hyes a'

/-- The steps of 20 above 100 end at the latest when the threshold passes every entry. -/
lemma finishes_escalate (hb : ∀ u < h₀.count, ∀ v < h₀.count, (h₀.rssi u v : Int) ≤ 2 ^ 31 - 21)
    (n : Nat) (hn : 2 ^ 31 - t ≤ n) (ht : 100 ≤ t) (hno : ¬ Solvable h₀ t)
    (a : At h₀ (t + 20) t 100 l) : Finishes lib (Done h₀) l := by
  induction n generalizing t l with
  | zero => exact absurd (solvable_of_bound fun u hu v hv => by have := hb u hu v hv; omega) hno
  | succ n ih =>
    have hlt : t < 2 ^ 31 - 21 := by
      by_contra hge
      exact hno (solvable_of_bound fun u hu v hv => by have := hb u hu v hv; omega)
    by_cases hm : Solvable h₀ (t + 20)
    · exact Finishes.exit a (by omega) (by omega) hm (adjust_exit (.inr (by omega)))
        (.inr ⟨t, by omega, hno, by omega, by omega⟩)
    · have hlt' : t + 20 < 2 ^ 31 - 21 := by
        by_contra hge
        exact hm (solvable_of_bound fun u hu v hv => by have := hb u hu v hv; omega)
      refine Finishes.move (q := (t + 20 + 20, t + 20, 100)) a (by omega) (by omega)
        (iff_of_false Bool.false_ne_true hm) ?_ ?_
      · have hw : toInt32 (t + 20 + 20) = t + 20 + 20 := toInt32_of_range (by omega) (by omega)
        rw [adjust_escalate (by omega), hw]
      · intro l' a'
        exact ih (by omega) (by omega) hm a'

/-- From the state it is entered in, with prepared nodes, the loop ends. -/
lemma finishes_start (hb : ∀ u < h₀.count, ∀ v < h₀.count, (h₀.rssi u v : Int) ≤ 2 ^ 31 - 21)
    (a : At h₀ 15 15 100 l) : Finishes lib (Done h₀) l := by
  by_cases h15 : Solvable h₀ 15
  · exact Finishes.exit a (by omega) (by omega) h15 (by decide) (.inl rfl)
  · refine Finishes.move (q := (100, 15, 100)) a (by omega) (by omega)
      (iff_of_false Bool.false_ne_true h15) (by decide) ?_
    intro l' a'
    by_cases h100 : Solvable h₀ 100
    · refine Finishes.move (q := ((15 + 100) / 2, 15, 100)) a' (by omega) (by omega)
        (iff_of_true rfl h100) (by decide) ?_
      intro l'' a''
      exact finishes_bisect 85 (by omega) (by omega) (by omega) (by omega) (by omega) h15 h100 a''
    · refine Finishes.move (q := (100 + 20, 100, 100)) a' (by omega) (by omega)
        (iff_of_false Bool.false_ne_true h100) (by decide) ?_
      intro l'' a''
      exact finishes_escalate hb (2 ^ 31) (by omega) (by omega) h100 a''

end Walk

/-- The threshold search of a calculation ends for every outcome of the random numbers, with a
valid colouring of its final threshold; that threshold is the lowest one or lies close above one
that has no valid colouring. -/
theorem thresholdLoop_terminates (lib : RfaLib) (h : Head) (e : Env)
    (hrssi : ∀ u < h.count, ∀ v < h.count, h.rssi u v ≤ 2 ^ 31 - 21)
    (hok : ∀ i < h.count, OptionsOk (h.node i)) :
    ∃ fuel l, thresholdLoop lib fuel (Loop.start h e) = some l ∧
      l.head.colorScheme.schemeCnt > 0 ∧
      (∀ u < h.count, ∀ v < h.count, u ≠ v → (h.node u).participating →
        (h.node v).participating →
        l.head.rssiCurThreshold < h.rssi u v ∨ l.head.rssiCurThreshold < h.rssi v u →
        l.head.vertexColor u ≠ l.head.vertexColor v) ∧
      (l.head.rssiCurThreshold = 15 ∨
        ∃ t' < l.head.rssiCurThreshold, (¬ ∃ f, ValidColoring h t' f) ∧
          (l.head.rssiCurThreshold ≤ 100 → l.head.rssiCurThreshold - t' < 5) ∧
          (l.head.rssiCurThreshold > 100 → l.head.rssiCurThreshold - t' = 20)) := by
  have hall : ∀ i, OptionsOk (h.node i) := by
    intro i
    by_cases hi : i < h.count
    · exact hok i hi
    · rw [node_of_le (Nat.not_lt.1 hi)]
      exact fun hp => absurd rfl hp.1
  have hb : ∀ u < h.count, ∀ v < h.count, (h.rssi u v : Int) ≤ 2 ^ 31 - 21 := by
    intro u hu v hv
    have := hrssi u hu v hv
    omega
  have hat : At h 15 15 100 (Loop.start h e) :=
    ⟨⟨rfl, rfl, fun _ => rfl⟩, hall, rfl, rfl, rfl⟩
  obtain ⟨fuel, l, hl, hdone⟩ := @finishes_start lib h _ hb hat
  exact ⟨fuel, l, hl, hdone.cnt, hdone.valid.2, hdone.close⟩

/-- Four access points that all hear each other at 50: no threshold below that has a colouring. -/
def Head.crowded : Head :=
  { Head.init with
    slList := [Node.sample 1, Node.sample 2, Node.sample 3, Node.sample 4]
    pRSSIMatrix := ⟨some ⟨4, 4⟩, fun r c => if r = c then 0 else 50⟩ }

theorem thresholdLoop_terminates_crowded :
    ∃ fuel l, thresholdLoop Platform.sample.toRfaLib fuel (Loop.start .crowded .sample) = some l ∧
      l.head.colorScheme.schemeCnt > 0 := by
  have hrssi : ∀ u < Head.crowded.count, ∀ v < Head.crowded.count,
      Head.crowded.rssi u v ≤ 2 ^ 31 - 21 := by
    intro u _ v _
    change (if u = v then 0 else 50) ≤ _
    split <;> decide
  have hok : ∀ i < Head.crowded.count, OptionsOk (Head.crowded.node i) := by
    intro i hi _
    have hi' : i < 4 := hi
    obtain rfl | rfl | rfl | rfl : i = 0 ∨ i = 1 ∨ i = 2 ∨ i = 3 := by omega
    all_goals exact ⟨by decide, by decide⟩
  obtain ⟨fuel, l, hl, hcnt, -⟩ :=
    thresholdLoop_terminates Platform.sample.toRfaLib Head.crowded Env.sample hrssi hok
  exact ⟨fuel, l, hl, hcnt⟩

end CcodeTest.Dcs
