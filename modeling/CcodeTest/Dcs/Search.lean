import CcodeTest.Dcs.Threshold

/-!
# The assignment of a whole list

`giveOneAssign( head, 0 )` on a list of any length: whatever the state of the nodes, a scheme it
ends with is a colouring (`giveOneAssign_scheme`), and with the options that the calculation prepares
it ends with one exactly when there is a colouring (`giveOneAssign_decides`). An access point on a
fixed channel takes part with the colour 0, so that two of them can stand in each other's way
(`giveOneAssign_fixed_iff`).
-/

namespace CcodeTest.Dcs
open CcodeTest.Lib

variable {lib : RfaLib} {rssi adj : Nat → Nat → Nat}

/-- `giveOneAssign( headDCA.slList.slHead.next, 0 )`. -/
def Head.assign (lib : RfaLib) (h : Head) (e : Env) : Search :=
  giveOneAssign lib h.rssi h.pAdjacentMatrix.cell h.count 0 (h.search e)

/-- A position behind the list takes no part. -/
lemma Head.lt_count_of_participating {h : Head} {i : Nat} (hp : (h.node i).participating) :
    i < h.count := by
  by_contra hi
  rw [node_of_le (Nat.not_lt.1 hi)] at hp
  exact hp.1 rfl

/-- A scheme is a colouring: one of its three options for every access point that takes part,
different ones for two that are adjacent, and `0xff` for all others. -/
theorem giveOneAssign_scheme (lib : RfaLib) (h : Head) (e : Env)
    (h0 : h.colorScheme.schemeCnt = 0) (hfound : 0 < (h.assign lib e).schemeCnt) :
    (h.assign lib e).schemeCnt = 1 ∧
      (∀ v < h.count, ¬ (h.node v).participating →
        (h.assign lib e).pVertexColor v = noColor) ∧
      (∀ v < h.count, (h.node v).participating →
        (h.assign lib e).pVertexColor v ∈ options ((h.assign lib e).nodes v).optionalCh) ∧
      ∀ v < h.count, ∀ u < v, (h.node u).participating → (h.node v).participating →
        h.pAdjacentMatrix.cell v u ≠ 0 →
        (h.assign lib e).pVertexColor u ≠ (h.assign lib e).pVertexColor v := by
  have hpart : ∀ v, ((h.assign lib e).nodes v).participating ↔ (h.node v).participating := by
    intro v
    exact (giveOneAssign_same h.count 0 (h.search e) v).participating
  have hsound : Sound h.pAdjacentMatrix.cell 0 (0 + h.count) (h.assign lib e) :=
    giveOneAssign_sound h.count 0 h0
  rcases hsound with hz | ⟨hone, hcol⟩
  · omega
  · rw [Nat.zero_add] at hcol
    refine ⟨hone, ?_, ?_, ?_⟩
    · intro v hv hp
      exact (hcol v (Nat.zero_le v) hv).2 fun hp' => hp ((hpart v).1 hp')
    · intro v hv hp
      exact ((hcol v (Nat.zero_le v) hv).1 ((hpart v).2 hp)).1
    · intro v hv u hu _ hp hadj
      exact ((hcol v (Nat.zero_le v) hv).1 ((hpart v).2 hp)).2 u hu hadj

/-- Two access points that hear each other. -/
def Head.pair : Head :=
  { Head.init with
    slList := [Node.sample 1, Node.sample 2]
    pAdjacentMatrix := ⟨some ⟨2, 2⟩, fun r c => if r = c then 0 else 1⟩ }

theorem giveOneAssign_scheme_pair :
    0 < (Head.pair.assign Platform.sample.toRfaLib .sample).schemeCnt ∧
      (Head.pair.assign Platform.sample.toRfaLib .sample).pVertexColor 0 ≠
        (Head.pair.assign Platform.sample.toRfaLib .sample).pVertexColor 1 := by
  have hfound : 0 < (Head.pair.assign Platform.sample.toRfaLib .sample).schemeCnt := by decide
  refine ⟨hfound, ?_⟩
  exact (giveOneAssign_scheme Platform.sample.toRfaLib Head.pair .sample rfl hfound).2.2.2 1
    (by decide) 0 (by decide) (by decide) (by decide) (by decide)

section Decides

/-- A proper colouring with the three channels, of the graph on the positions with `act`. -/
def ThreeColouring (adj : Nat → Nat → Nat) (act : Nat → Prop) (n : Nat) (f : Nat → Nat) : Prop :=
  (∀ v < n, act v → f v ∈ [1, 6, 11]) ∧
    ∀ u < n, ∀ v < n, u ≠ v → act u → act v → adj u v ≠ 0 → f u ≠ f v

lemma threeColouring_iff {act : Nat → Prop} {n : Nat} {f : Nat → Nat}
    (hsym : ∀ u < n, ∀ v < n, adj u v = adj v u) :
    ThreeColouring adj act n f ↔
      Proper act (fun v u => adj v u ≠ 0) (fun _ c => c ∈ [1, 6, 11]) n f := by
  constructor
  · rintro ⟨ha, hc⟩
    refine ⟨ha, ?_⟩
    intro v hv u hu hau hav hadj he
    exact hc v hv u (by omega) (by omega) hav hau hadj he.symm
  · rintro ⟨ha, hc⟩
    refine ⟨ha, ?_⟩
    intro u hu v hv hne hau hav hadj
    rcases Nat.lt_or_gt_of_ne hne with hlt | hlt
    · rw [hsym u hu v hv] at hadj
      exact hc v hv u hlt hau hav hadj
    · exact fun he => hc u hu v hlt hav hau hadj he.symm

/-- With prepared nodes a search from the head of the list fails exactly when there is no solution
at all. -/
lemma giveOneAssign_unsolvable {s : Search} (n : Nat) (h0 : s.schemeCnt = 0)
    (hok : ∀ i, OptionsOk (s.nodes i)) :
    (giveOneAssign lib rssi adj n 0 s).schemeCnt = 0 ↔
      ¬ ∃ g, Proper (fun i => (s.nodes i).participating) (fun v u => adj v u ≠ 0)
        (fun v => AllowedColor (s.nodes v)) n g := by
  have hready : Ready adj s.nodes 0 s :=
    ⟨fun _ => rfl, hok, fun i hi => absurd hi (Nat.not_lt_zero i),
      ⟨fun v hv => absurd hv (Nat.not_lt_zero v), fun v hv => absurd hv (Nat.not_lt_zero v)⟩⟩
  rw [giveOneAssign_complete n 0 h0 hready, Nat.zero_add, Completable, extendable_zero]

/-- A search that fails counts no scheme, any other one counts one. -/
lemma giveOneAssign_schemeCnt {s : Search} (n : Nat) (h0 : s.schemeCnt = 0) :
    (giveOneAssign lib rssi adj n 0 s).schemeCnt = 0 ∨
      (giveOneAssign lib rssi adj n 0 s).schemeCnt = 1 := by
  have hsound : Sound adj 0 (0 + n) (giveOneAssign lib rssi adj n 0 s) :=
    giveOneAssign_sound n 0 h0
  exact hsound.imp id And.left

/-- With all channels left to the assignment, the search ends with a scheme exactly when the graph
has a colouring. -/
theorem giveOneAssign_decides (lib : RfaLib) (h : Head) (e : Env)
    (h0 : h.colorScheme.schemeCnt = 0)
    (hsym : ∀ u < h.count, ∀ v < h.count,
      h.pAdjacentMatrix.cell u v = h.pAdjacentMatrix.cell v u)
    (hauto : ∀ v < h.count, (h.node v).participating → (h.node v).radioInfo.chP = 0)
    (hopt : ∀ v < h.count, (h.node v).participating →
      (options (h.node v).optionalCh).Perm [1, 6, 11] ∧ (h.node v).rfa.Listed) :
    ((∃ f, ThreeColouring h.pAdjacentMatrix.cell (fun v => (h.node v).participating) h.count f) →
        (h.assign lib e).schemeCnt = 1) ∧
      ((¬ ∃ f, ThreeColouring h.pAdjacentMatrix.cell (fun v => (h.node v).participating)
          h.count f) →
        (h.assign lib e).schemeCnt = 0) := by
  have hok : ∀ i, OptionsOk ((h.search e).nodes i) := by
    intro i hp
    have hi := Head.lt_count_of_participating hp
    have hch : ((h.search e).nodes i).radioInfo.chP = 0 := hauto i hi hp
    rw [if_pos hch]
    exact hopt i hi hp
  have hiff : (∃ g, Proper (fun i => (h.node i).participating)
      (fun v u => h.pAdjacentMatrix.cell v u ≠ 0) (fun v => AllowedColor (h.node v)) h.count g) ↔
      ∃ f, ThreeColouring h.pAdjacentMatrix.cell (fun v => (h.node v).participating) h.count f := by
    refine exists_congr fun f => ?_
    rw [threeColouring_iff hsym]
    refine and_congr ?_ Iff.rfl
    refine forall₃_congr fun v hv hp => ?_
    change AllowedColor (h.node v) (f v) ↔ f v ∈ [1, 6, 11]
    rw [AllowedColor, if_pos (hauto v hv hp)]
  have hun : (h.assign lib e).schemeCnt = 0 ↔ _ := giveOneAssign_unsolvable h.count h0 hok
  have hcnt : (h.assign lib e).schemeCnt = 0 ∨ (h.assign lib e).schemeCnt = 1 :=
    giveOneAssign_schemeCnt h.count h0
  constructor
  · intro hcol
    rcases hcnt with hz | hone
    · exact absurd (hiff.2 hcol) (hun.1 hz)
    · exact hone
  · intro hcol
    exact hun.2 fun hg => hcol (hiff.1 hg)

theorem giveOneAssign_decides_pair :
    (Head.pair.assign Platform.sample.toRfaLib .sample).schemeCnt = 1 := by
  apply (giveOneAssign_decides Platform.sample.toRfaLib Head.pair .sample rfl (by decide)
    (by decide) (by decide)).1
  refine ⟨fun v => if v = 0 then 1 else 6, by decide, ?_⟩
  intro u hu v hv hne _ _ _
  have hu' : u < 2 := hu
  have hv' : v < 2 := hv
  grind

end Decides

section Fixed

/-- What `doRfa` makes of a node on a fixed channel that it is called for, at every position but the
first. -/
def clearFixed (i : Nat) (n : Node) : Node :=
  if 0 < i ∧ n.nEnableDCA ≠ 0 ∧ n.spsWorkState = .operational ∧ n.radioInfo.chP ≠ 0 then
    { n with optionalCh := fun _ => 0 }
  else n

lemma clearFixed_same (i : Nat) (n : Node) : n.SameButOptions (clearFixed i n) := by
  unfold clearFixed
  split <;> rfl

/-- Doing so in advance at all positions. -/
def Search.clearFixed (s : Search) : Search :=
  { s with nodes := fun i => Dcs.clearFixed i (s.nodes i) }

/-- A node whose channel is not fixed is left alone. -/
lemma clearFixed_auto {i : Nat} {n : Node} (h : n.radioInfo.chP = 0) : clearFixed i n = n :=
  if_neg fun hc => hc.2.2.2 h

lemma doRfa_fixed {v : Nat} {n : Node} {color : Nat → Nat} {e : Env} (hv : v ≠ 0)
    (hch : n.radioInfo.chP ≠ 0) :
    doRfa lib rssi color n v e = ({ n with optionalCh := fun _ => 0 }, n.rfa, e) := by
  rw [doRfa, if_neg hv, if_pos hch]

/-- Calling `doRfa` comes to the same for a node that has been cleared, and leaves one that has
been. -/
lemma doRfa_clearFixed {v : Nat} {n : Node} {color : Nat → Nat} {e : Env} (hv : v ≠ 0)
    (hn : n.nEnableDCA ≠ 0 ∧ n.spsWorkState = .operational) :
    doRfa lib rssi color (clearFixed v n) v e = doRfa lib rssi color n v e ∧
      clearFixed v (doRfa lib rssi color n v e).1 = (doRfa lib rssi color n v e).1 := by
  by_cases hch : n.radioInfo.chP = 0
  · rw [clearFixed_auto hch]
    refine ⟨rfl, clearFixed_auto ?_⟩
    rw [doRfa_same color n v e]
    exact hch
  · have hcond : 0 < v ∧ n.nEnableDCA ≠ 0 ∧ n.spsWorkState = .operational ∧
        n.radioInfo.chP ≠ 0 := ⟨Nat.pos_of_ne_zero hv, hn.1, hn.2, hch⟩
    have hc : clearFixed v n = { n with optionalCh := fun _ => 0 } := if_pos hcond
    rw [hc, doRfa_fixed (n := n) hv hch]
    exact ⟨doRfa_fixed hv hch, if_pos hcond⟩

/-- Clearing a node reads nothing of it that `doRfa` changes. -/
lemma clearFixed_update (s : Search) (v : Nat) (n : Node) (e : Env) (hn : clearFixed v n = n) :
    ({ s with nodes := Function.update s.nodes v n, env := e } : Search).clearFixed =
      { s.clearFixed with nodes := Function.update s.clearFixed.nodes v n, env := e } := by
  have hnodes : (fun i => clearFixed i (Function.update s.nodes v n i)) =
      Function.update s.clearFixed.nodes v n := by
    funext i
    by_cases hi : i = v
    · subst hi
      rw [Function.update_self, Function.update_self, hn]
    · rw [Function.update_of_ne hi, Function.update_of_ne hi]
      rfl
  exact congrArg (fun f => (⟨f, s.pVertexColor, s.schemeCnt, e⟩ : Search)) hnodes

/-- The call of `doRfa` for a vertex commutes with clearing, and leaves its node cleared. -/
lemma rfaAt_clearFixed (v : Nat) (s : Search) :
    rfaAt lib rssi v s.clearFixed = (rfaAt lib rssi v s).clearFixed ∧
      clearFixed v ((rfaAt lib rssi v s).nodes v) = (rfaAt lib rssi v s).nodes v := by
  have hiff : (v > 0 ∧ (s.clearFixed.nodes v).nEnableDCA ≠ 0 ∧
      (s.clearFixed.nodes v).spsWorkState = .operational) ↔
      v > 0 ∧ (s.nodes v).nEnableDCA ≠ 0 ∧ (s.nodes v).spsWorkState = .operational := by
    change (v > 0 ∧ (clearFixed v (s.nodes v)).nEnableDCA ≠ 0 ∧
      (clearFixed v (s.nodes v)).spsWorkState = .operational) ↔ _
    rw [clearFixed_same v (s.nodes v)]
  by_cases hcond : v > 0 ∧ (s.nodes v).nEnableDCA ≠ 0 ∧ (s.nodes v).spsWorkState = .operational
  · obtain ⟨hd, hc⟩ := @doRfa_clearFixed lib rssi v (s.nodes v) s.pVertexColor s.env
      (Nat.ne_of_gt hcond.1) hcond.2
    have hr : rfaAt lib rssi v s = { s with
        nodes := Function.update s.nodes v (doRfa lib rssi s.pVertexColor (s.nodes v) v s.env).1
        env := (doRfa lib rssi s.pVertexColor (s.nodes v) v s.env).2.2 } := if_pos hcond
    rw [hr, clearFixed_update s v _ _ hc]
    refine ⟨(if_pos (hiff.2 hcond)).trans ?_, ?_⟩
    · exact congrArg (fun d : Node × AcpRfa × Env => { s.clearFixed with
        nodes := Function.update s.clearFixed.nodes v d.1, env := d.2.2 }) hd
    · dsimp only
      rw [Function.update_self]
      exact hc
  · have hr : rfaAt lib rssi v s = s := if_neg hcond
    rw [hr]
    refine ⟨if_neg fun h => hcond (hiff.1 h), if_neg ?_⟩
    intro h
    exact hcond ⟨h.1, h.2.1, h.2.2.1⟩

/-- So does the loop over the colours, if the rest of the search does. -/
lemma tryColors_clearFixed {next : Search → Search} {vertex : Nat}
    (hn : ∀ s : Search, next s.clearFixed = (next s).clearFixed)
    (hf : ∀ s, (next s).nodes vertex = s.nodes vertex) (is : List Nat) {s : Search}
    (hv : clearFixed vertex (s.nodes vertex) = s.nodes vertex) :
    tryColors adj next vertex is s.clearFixed = (tryColors adj next vertex is s).clearFixed := by
  induction is generalizing s with
  | nil => rfl
  | cons c is ih =>
    have hnode : s.clearFixed.nodes vertex = s.nodes vertex := hv
    have hset : ∀ c, next (s.clearFixed.setColor vertex c) =
        (next (s.setColor vertex c)).clearFixed := fun c => hn (s.setColor vertex c)
    have hnext := ih (s := next (s.setColor vertex ((s.nodes vertex).optionalCh c)))
      (by rw [hf]; exact hv)
    rw [tryColors, tryColors, hnode]
    dsimp only
    rw [hset, hset, hnext, ih hv]
    simp only [apply_ite Search.clearFixed]
    rfl

/-- The search comes to the same when the nodes on a fixed channel are cleared in advance. -/
lemma giveOneAssign_clearFixed (rest vertex : Nat) (s : Search) :
    giveOneAssign lib rssi adj rest vertex s.clearFixed =
      (giveOneAssign lib rssi adj rest vertex s).clearFixed := by
  induction rest generalizing vertex s with
  | zero => rfl
  | succ rest ih =>
    obtain ⟨hcomm, hcleared⟩ := @rfaAt_clearFixed lib rssi vertex s
    rw [giveOneAssign, giveOneAssign, hcomm]
    apply tryColors_clearFixed
    · exact ih (vertex + 1)
    · intro s
      exact (giveOneAssign_frame rest (vertex + 1) s vertex (Nat.lt_succ_self vertex)).2
    · exact hcleared

/-- The nodes are prepared once those on a fixed channel are cleared, if the first one is. -/
lemma clearFixed_optionsOk {h : Head} {e : Env}
    (hopt : ∀ v < h.count, (h.node v).participating → (h.node v).radioInfo.chP = 0 →
      (options (h.node v).optionalCh).Perm [1, 6, 11] ∧ (h.node v).rfa.Listed)
    (hfirst : (h.node 0).participating → (h.node 0).radioInfo.chP ≠ 0 →
      ∀ c ∈ options (h.node 0).optionalCh, c = 0) (i : Nat) :
    OptionsOk ((h.search e).clearFixed.nodes i) := by
  change OptionsOk (clearFixed i (h.node i))
  intro hp
  rw [(clearFixed_same i (h.node i)).participating] at hp
  by_cases hch : (h.node i).radioInfo.chP = 0
  · rw [clearFixed_auto hch, if_pos hch]
    exact hopt i (Head.lt_count_of_participating hp) hp hch
  · rcases Nat.eq_zero_or_pos i with rfl | hi
    · have h0 : clearFixed 0 (h.node 0) = h.node 0 := if_neg fun hc => Nat.lt_irrefl 0 hc.1
      rw [h0, if_neg hch]
      exact hfirst hp hch
    · have hc : clearFixed i (h.node i) = { h.node i with optionalCh := fun _ => 0 } :=
        if_pos ⟨hi, hp.1, hp.2.1, hch⟩
      rw [hc, if_neg (show ¬ ({ h.node i with optionalCh := fun _ => 0 } : Node).radioInfo.chP = 0
        from hch)]
      exact fun c hc => options_zero hc

/-- A colouring of the access points whose channel is left to the assignment extends to those on a
fixed channel, with the colour 0, exactly when no two of these are adjacent. -/
lemma exists_allowed_iff {nd : Nat → Node} {n : Nat}
    (hsym : ∀ u < n, ∀ v < n, adj u v = adj v u)
    (hcol : ∃ f, ThreeColouring adj
      (fun v => (nd v).participating ∧ (nd v).radioInfo.chP = 0) n f) :
    (∃ g, Proper (fun i => (nd i).participating) (fun v u => adj v u ≠ 0)
        (fun v => AllowedColor (nd v)) n g) ↔
      ∀ v < n, ∀ u < v, (nd u).participating → (nd v).participating →
        (nd u).radioInfo.chP ≠ 0 → (nd v).radioInfo.chP ≠ 0 → adj v u = 0 := by
  constructor
  · rintro ⟨g, hg⟩ v hv u hu hpu hpv hfu hfv
    by_contra hadj
    have hgu : AllowedColor (nd u) (g u) := hg.1 u (by omega) hpu
    have hgv : AllowedColor (nd v) (g v) := hg.1 v hv hpv
    rw [AllowedColor, if_neg hfu] at hgu
    rw [AllowedColor, if_neg hfv] at hgv
    exact hg.2 v hv u hu hpu hpv hadj (hgu.trans hgv.symm)
  · intro hapart
    obtain ⟨f, hf⟩ := hcol
    have hne : ∀ w < n, (nd w).participating → (nd w).radioInfo.chP = 0 → f w ≠ 0 := by
      intro w hw hpw hch he
      have hm := hf.1 w hw ⟨hpw, hch⟩
      rw [he] at hm
      exact absurd hm (by decide)
    refine ⟨fun v => if (nd v).radioInfo.chP = 0 then f v else 0, ?_, ?_⟩
    · intro v hv hp
      dsimp only
      unfold AllowedColor
      split
      · rename_i hch
        exact hf.1 v hv ⟨hp, hch⟩
      · rfl
    · intro v hv u hu hpu hpv hadj
      dsimp only
      by_cases hcu : (nd u).radioInfo.chP = 0
      · by_cases hcv : (nd v).radioInfo.chP = 0
        · rw [if_pos hcu, if_pos hcv]
          refine hf.2 u (by omega) v hv (by omega) ⟨hpu, hcu⟩ ⟨hpv, hcv⟩ ?_
          rw [hsym u (by omega) v hv]
          exact hadj
        · rw [if_pos hcu, if_neg hcv]
          exact hne u (by omega) hpu hcu
      · by_cases hcv : (nd v).radioInfo.chP = 0
        · rw [if_neg hcu, if_pos hcv]
          exact (hne v hv hpv hcv).symm
        · exact absurd (hapart v hv u hu hpu hpv hcu hcv) hadj

/-- When the access points whose channel is left to the assignment can be coloured, the search
finds a scheme exactly when no two that take part on a fixed channel are adjacent. -/
theorem giveOneAssign_fixed_iff (lib : RfaLib) (h : Head) (e : Env)
    (h0 : h.colorScheme.schemeCnt = 0)
    (hsym : ∀ u < h.count, ∀ v < h.count,
      h.pAdjacentMatrix.cell u v = h.pAdjacentMatrix.cell v u)
    (hopt : ∀ v < h.count, (h.node v).participating → (h.node v).radioInfo.chP = 0 →
      (options (h.node v).optionalCh).Perm [1, 6, 11] ∧ (h.node v).rfa.Listed)
    (hfirst : (h.node 0).participating → (h.node 0).radioInfo.chP ≠ 0 →
      ∀ c ∈ options (h.node 0).optionalCh, c = 0)
    (hcol : ∃ f, ThreeColouring h.pAdjacentMatrix.cell
      (fun v => (h.node v).participating ∧ (h.node v).radioInfo.chP = 0) h.count f) :
    0 < (h.assign lib e).schemeCnt ↔
      ∀ v < h.count, ∀ u < v, (h.node u).participating → (h.node v).participating →
        (h.node u).radioInfo.chP ≠ 0 → (h.node v).radioInfo.chP ≠ 0 →
        h.pAdjacentMatrix.cell v u = 0 := by
  have hpart : ∀ v, ((h.search e).clearFixed.nodes v).participating ↔
      (h.node v).participating := fun v => (clearFixed_same v (h.node v)).participating
  have hallow : ∀ v, AllowedColor ((h.search e).clearFixed.nodes v) = AllowedColor (h.node v) := by
    intro v
    have hs : clearFixed v (h.node v) = _ := clearFixed_same v (h.node v)
    change AllowedColor (clearFixed v (h.node v)) = _
    rw [hs]
    rfl
  have hun := @giveOneAssign_unsolvable lib h.rssi h.pAdjacentMatrix.cell
    (h.search e).clearFixed h.count h0 (clearFixed_optionsOk hopt hfirst)
  rw [giveOneAssign_clearFixed] at hun
  simp only [hpart, hallow] at hun
  have hcnt : (h.assign lib e).schemeCnt = 0 ↔ _ := hun
  rw [← exists_allowed_iff hsym hcol, Nat.pos_iff_ne_zero, ne_eq, hcnt, not_not]

/-- An access point on the fixed channel 6, as the calculation leaves it. -/
def Node.fixedSample (x : UInt8) : Node :=
  { Node.sample x with
    radioInfo := ⟨.ch24G20MFixed, .gOnly24, .standard, 6, 0⟩, optionalCh := fun _ => 0 }

/-- The two access points that hear each other, the first on a fixed channel. -/
def Head.fixedFirst : Head :=
  { Head.pair with slList := [Node.fixedSample 1, Node.sample 2] }

/-- One on a fixed channel does not keep the other from getting one. -/
theorem giveOneAssign_fixed_iff_first :
    0 < (Head.fixedFirst.assign Platform.sample.toRfaLib .sample).schemeCnt := by
  -- of two positions only the second is not the first
  have hsecond : ∀ v < Head.fixedFirst.count, v ≠ 0 → v = 1 := by
    intro v hv hv0
    have hv2 : v < 2 := hv
    omega
  apply (giveOneAssign_fixed_iff Platform.sample.toRfaLib Head.fixedFirst .sample rfl (by decide)
    (by decide) (by decide) ?_).2
  · intro v hv u hu _ _ _ hfixed
    rw [hsecond v hv (by omega)] at hfixed
    exact absurd rfl hfixed
  · refine ⟨fun _ => 1, fun _ _ _ => by simp, ?_⟩
    intro u hu v hv hne hu' hv'
    have hu0 : u ≠ 0 := by
      rintro rfl
      exact absurd hu'.2 (by decide)
    have hv0 : v ≠ 0 := by
      rintro rfl
      exact absurd hv'.2 (by decide)
    exact absurd ((hsecond u hu hu0).trans (hsecond v hv hv0).symm) hne

/-- Both on a fixed channel. -/
def Head.fixedPair : Head :=
  { Head.pair with slList := [Node.fixedSample 1, Node.fixedSample 2] }

/-- No access point is left to be coloured, and the two fixed ones keep the search from ending. -/
theorem giveOneAssign_fixed_blocked :
    Head.fixedPair.colorScheme.schemeCnt = 0 ∧
      (∀ u < Head.fixedPair.count, ∀ v < Head.fixedPair.count,
        Head.fixedPair.pAdjacentMatrix.cell u v = Head.fixedPair.pAdjacentMatrix.cell v u) ∧
      (∀ v < Head.fixedPair.count, (Head.fixedPair.node v).participating ∧
        (Head.fixedPair.node v).radioInfo.chP ≠ 0) ∧
      (∃ f, ThreeColouring Head.fixedPair.pAdjacentMatrix.cell
        (fun v => (Head.fixedPair.node v).participating ∧
          (Head.fixedPair.node v).radioInfo.chP = 0) Head.fixedPair.count f) ∧
      (Head.fixedPair.assign Platform.sample.toRfaLib .sample).schemeCnt = 0 := by
  have hfixed : ∀ v < Head.fixedPair.count, (Head.fixedPair.node v).participating ∧
      (Head.fixedPair.node v).radioInfo.chP ≠ 0 := by decide
  refine ⟨rfl, by decide, hfixed, ⟨fun _ => 1, ?_, ?_⟩, by decide⟩
  · intro v hv ha
    exact absurd ha.2 (hfixed v hv).2
  · intro u hu _ _ _ ha
    exact absurd ha.2 (hfixed u hu).2

end Fixed

end CcodeTest.Dcs
