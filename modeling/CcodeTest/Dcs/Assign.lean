import CcodeTest.Lib.Coloring
import CcodeTest.Dcs.Sort

/-!
# The backtracking assignment

`giveOneAssign` colours the access points in list order: an access point that takes part tries its
three optional channels, any other one is marked with the colour `0xff` and passed over. Before a
later access point is tried, `doRfa` reorders its options by the interference of the colours already
given, so the search changes the option lists of the nodes while it runs.

The search is followed in three layers. `giveOneAssign_inv` is the rule for what every pass keeps;
`giveOneAssign_nodes` and `giveOneAssign_settled` say with it which node properties the search keeps,
and `giveOneAssign_frame` that it leaves what lies before its start alone. `giveOneAssign_sound` and
`giveOneAssign_complete` say that it ends with a scheme exactly when the colouring can be completed.
-/

namespace CcodeTest.Dcs
open CcodeTest.Lib

/-- What the search reads and writes. -/
structure Search where
  nodes : Nat → Node
  pVertexColor : Nat → Nat
  schemeCnt : Nat
  env : Env

/-- Give the vertex a colour. -/
def Search.setColor (s : Search) (vertex color : Nat) : Search :=
  { s with pVertexColor := Function.update s.pVertexColor vertex color }

/-- `isColorOk`: no earlier neighbour has the colour. -/
def isColorOk (adj : Nat → Nat → Nat) (pVertexColor : Nat → Nat) (vertex color : Nat) : Bool :=
  (List.range vertex).all fun vIndex => !(adj vertex vIndex != 0 && color == pVertexColor vIndex)

/-- One pass of the loop of `doRfa`: what the colour of the position adds to each score. -/
def addAssigned (lib : RfaLib) (rssiRow : Nat → Nat) (pVertexColor : Nat → Nat) (r : AcpRfa)
    (pos : Nat) : AcpRfa :=
  { r with
    rfScore := fun i =>
      if 1 ≤ i ∧ i ≤ 11 ∧ ((pVertexColor pos : Int) - r.rfaCh i).natAbs ≤ 4 then
        lib.overflowCheckAdd (r.rfScore i)
          (rssiRow pos / lib.getInterferenceCoefChan (r.rfaCh i) (pVertexColor pos))
      else r.rfScore i }

/-- `doRfa`: reorder the options of the node at `position` by the interference of the positions
before it. The loop leaves at once when the node's channel is fixed; then, as at position 0, `pos`
is still 0 and nothing is sorted. -/
def doRfa (lib : RfaLib) (rssi : Nat → Nat → Nat) (pVertexColor : Nat → Nat) (n : Node)
    (position : Nat) (e : Env) : Node × AcpRfa × Env :=
  if position = 0 then (n, n.rfa, e)
  else if n.radioInfo.chP ≠ 0 then ({ n with optionalCh := fun _ => 0 }, n.rfa, e)
  else
    decideOptionalChWith n
      ((List.range position).foldl (addAssigned lib (rssi position) pVertexColor) n.rfa) e

/-- The call of `doRfa` in `giveOneAssign`, for the vertices it is made for. -/
def rfaAt (lib : RfaLib) (rssi : Nat → Nat → Nat) (vertex : Nat) (s : Search) : Search :=
  let n := s.nodes vertex
  if vertex > 0 ∧ n.nEnableDCA ≠ 0 ∧ n.spsWorkState = .operational then
    let done := doRfa lib rssi s.pVertexColor n vertex s.env
    { s with nodes := Function.update s.nodes vertex done.1, env := done.2.2 }
  else s

/-- The loop of `giveOneAssign` over the colour indices; `next` is the recursive call for the
rest of the list. -/
def tryColors (adj : Nat → Nat → Nat) (next : Search → Search) (vertex : Nat) :
    List Nat → Search → Search
  | [], s => s
  | colorIndex :: is, s =>
    if s.schemeCnt > 0 then s
    else
      let n := s.nodes vertex
      if n.nEnableDCA ≠ 0 ∧ n.spsWorkState = .operational then
        if n.scanReturn = .ok then
          if isColorOk adj s.pVertexColor vertex (n.optionalCh colorIndex) then
            tryColors adj next vertex is (next (s.setColor vertex (n.optionalCh colorIndex)))
          else tryColors adj next vertex is s
        else next (s.setColor vertex noColor)
      else next (s.setColor vertex noColor)

/-- `giveOneAssign` for the list from the vertex on, which has `rest` nodes: `vertex >= slList.count`
is `rest = 0`, and the node pointer is not NULL otherwise. -/
def giveOneAssign (lib : RfaLib) (rssi adj : Nat → Nat → Nat) : Nat → Nat → Search → Search
  | 0, _, s => { s with schemeCnt := s.schemeCnt + 1 }
  | rest + 1, vertex, s =>
    tryColors adj (giveOneAssign lib rssi adj rest (vertex + 1)) vertex
      (List.range optionalChannelNum) (rfaAt lib rssi vertex s)

section Facts

variable {lib : RfaLib} {rssi adj : Nat → Nat → Nat}

/-- The test of one colour, as a statement. -/
lemma isColorOk_iff {color : Nat → Nat} {v c : Nat} :
    isColorOk adj color v c = true ↔ ∀ u < v, adj v u ≠ 0 → color u ≠ c := by
  simp only [isColorOk, List.all_eq_true, List.mem_range, Bool.not_eq_true', Bool.and_eq_false_iff,
    bne_eq_false_iff_eq, beq_eq_false_iff_ne]
  constructor
  · intro h u hu ha he
    rcases h u hu with h | h
    · exact ha h
    · exact h he.symm
  · intro h u hu
    by_cases ha : adj v u = 0
    · exact .inl ha
    · exact .inr fun he => h u hu ha he.symm

/-- What giving a colour and the rest of the search keep is kept by the loop. -/
lemma tryColors_inv {I : Search → Prop} {next : Search → Search} {vertex : Nat}
    (hcol : ∀ s v c, I s → I (s.setColor v c)) (hn : ∀ s, I s → I (next s)) (is : List Nat)
    {s : Search} (h : I s) : I (tryColors adj next vertex is s) := by
  induction is generalizing s with
  | nil => exact h
  | cons c is ih =>
    simp only [tryColors]
    split
    · exact h
    · split
      · split
        · split
          · exact ih (hn _ (hcol _ _ _ h))
          · exact ih h
        · exact hn _ (hcol _ _ _ h)
      · exact hn _ (hcol _ _ _ h)

/-- What `doRfa`, giving a colour and counting a scheme keep is kept by the whole search. -/
lemma giveOneAssign_inv {I : Search → Prop} (hrfa : ∀ v s, I s → I (rfaAt lib rssi v s))
    (hcol : ∀ s v c, I s → I (s.setColor v c))
    (hcnt : ∀ s : Search, I s → I { s with schemeCnt := s.schemeCnt + 1 }) (rest vertex : Nat)
    {s : Search} (h : I s) : I (giveOneAssign lib rssi adj rest vertex s) := by
  induction rest generalizing vertex s with
  | zero => exact hcnt _ h
  | succ rest ih => exact tryColors_inv hcol (fun s hs => ih (vertex + 1) hs) _ (hrfa _ _ h)

/-- A property of the nodes that `doRfa` keeps is kept by the whole search. -/
lemma giveOneAssign_nodes {Q : Nat → Node → Prop}
    (hQ : ∀ i n color e, Q i n → Q i (doRfa lib rssi color n i e).1) (rest vertex : Nat)
    {s : Search} (h : ∀ i, Q i (s.nodes i)) :
    ∀ i, Q i ((giveOneAssign lib rssi adj rest vertex s).nodes i) := by
  refine giveOneAssign_inv (I := fun s => ∀ i, Q i (s.nodes i)) ?_ (fun _ _ _ h => h)
    (fun _ h => h) rest vertex h
  intro v s h i
  simp only [rfaAt]
  split
  · by_cases hi : i = v
    · subst hi
      simp only [Function.update_self]
      exact hQ _ _ _ _ (h i)
    · simp only [Function.update_of_ne hi]
      exact h i
  · exact h i

/-- Two nodes that differ in their options only. -/
def Node.SameButOptions (n m : Node) : Prop := m = { n with optionalCh := m.optionalCh }

/-- `doRfa` changes nothing of the node but its options. -/
lemma doRfa_same (color : Nat → Nat) (n : Node) (i : Nat) (e : Env) :
    n.SameButOptions (doRfa lib rssi color n i e).1 := by
  unfold doRfa
  split
  · rfl
  · split <;> rfl

/-- Differing in the options only composes. -/
lemma Node.SameButOptions.trans {n m k : Node} (h : n.SameButOptions m) (h' : m.SameButOptions k) :
    n.SameButOptions k := by
  unfold Node.SameButOptions at *
  rw [h'] at *
  rw [h]

/-- Whether a node takes part does not depend on its options. -/
lemma Node.SameButOptions.participating {n m : Node} (h : n.SameButOptions m) :
    m.participating ↔ n.participating := by
  unfold Node.SameButOptions at h
  rw [h]
  exact Iff.rfl

/-- The search changes nothing of the nodes but their options. -/
lemma giveOneAssign_same (rest vertex : Nat) (s : Search) (i : Nat) :
    (s.nodes i).SameButOptions ((giveOneAssign lib rssi adj rest vertex s).nodes i) :=
  giveOneAssign_nodes (Q := fun i n => (s.nodes i).SameButOptions n)
    (fun i n color e h => h.trans (doRfa_same color n i e)) rest vertex (fun _ => rfl) i

/-- The loop leaves alone what lies before its vertex, and the node at the vertex. -/
lemma tryColors_frame {next : Search → Search} {vertex : Nat}
    (hn : ∀ s, ∀ i < vertex + 1, (next s).pVertexColor i = s.pVertexColor i ∧
      (next s).nodes i = s.nodes i) (is : List Nat) (s : Search) :
    (∀ i < vertex, (tryColors adj next vertex is s).pVertexColor i = s.pVertexColor i) ∧
      ∀ i < vertex + 1, (tryColors adj next vertex is s).nodes i = s.nodes i := by
  have hset : ∀ (s : Search) (c i : Nat), i < vertex →
      (next (s.setColor vertex c)).pVertexColor i = s.pVertexColor i := by
    intro s c i hi
    rw [(hn (s.setColor vertex c) i (by omega)).1]
    exact Function.update_of_ne (Nat.ne_of_lt hi) _ _
  induction is generalizing s with
  | nil => exact ⟨fun _ _ => rfl, fun _ _ => rfl⟩
  | cons c is ih =>
    simp only [tryColors]
    split
    · exact ⟨fun _ _ => rfl, fun _ _ => rfl⟩
    · split
      · split
        · split
          · obtain ⟨ihc, ihn⟩ := ih (next (s.setColor vertex ((s.nodes vertex).optionalCh c)))
            refine ⟨?_, ?_⟩
            · intro i hi
              rw [ihc i hi, hset s _ i hi]
            · intro i hi
              rw [ihn i hi, (hn _ i hi).2]
              rfl
          · exact ih s
        · exact ⟨fun i hi => hset s _ i hi, fun i hi => (hn _ i hi).2⟩
      · exact ⟨fun i hi => hset s _ i hi, fun i hi => (hn _ i hi).2⟩

lemma rfaAt_color (vertex : Nat) (s : Search) :
    (rfaAt lib rssi vertex s).pVertexColor = s.pVertexColor := by
  simp only [rfaAt]
  split <;> rfl

lemma rfaAt_schemeCnt (vertex : Nat) (s : Search) :
    (rfaAt lib rssi vertex s).schemeCnt = s.schemeCnt := by
  simp only [rfaAt]
  split <;> rfl

lemma rfaAt_nodes_of_ne {vertex i : Nat} (s : Search) (h : i ≠ vertex) :
    (rfaAt lib rssi vertex s).nodes i = s.nodes i := by
  simp only [rfaAt]
  split
  · exact Function.update_of_ne h _ _
  · rfl

/-- The search leaves alone what lies before its start. -/
lemma giveOneAssign_frame (rest vertex : Nat) (s : Search) :
    ∀ i < vertex, (giveOneAssign lib rssi adj rest vertex s).pVertexColor i = s.pVertexColor i ∧
      (giveOneAssign lib rssi adj rest vertex s).nodes i = s.nodes i := by
  induction rest generalizing vertex s with
  | zero => exact fun _ _ => ⟨rfl, rfl⟩
  | succ rest ih =>
    intro i hi
    obtain ⟨hc, hn⟩ := @tryColors_frame adj _ _ (ih (vertex + 1))
      (List.range optionalChannelNum) (rfaAt lib rssi vertex s)
    rw [giveOneAssign, hc i hi, hn i (by omega), rfaAt_color,
      rfaAt_nodes_of_ne s (Nat.ne_of_lt hi)]
    exact ⟨rfl, rfl⟩

/-- What a finished search has stored for a vertex. -/
def Coloured (adj : Nat → Nat → Nat) (s : Search) (v : Nat) : Prop :=
  ((s.nodes v).participating → s.pVertexColor v ∈ options (s.nodes v).optionalCh ∧
      ∀ u < v, adj v u ≠ 0 → s.pVertexColor u ≠ s.pVertexColor v) ∧
    (¬ (s.nodes v).participating → s.pVertexColor v = noColor)

/-- The specification of a search from `lo` to `n`: none or one scheme, and one only if every
vertex of the range is coloured. -/
def Sound (adj : Nat → Nat → Nat) (lo n : Nat) (s : Search) : Prop :=
  s.schemeCnt = 0 ∨ s.schemeCnt = 1 ∧ ∀ v, lo ≤ v → v < n → Coloured adj s v

/-- A search that starts after a vertex with a good colour is sound from the vertex on. -/
lemma Sound.of_next {next : Search → Search} {vertex n : Nat} {s : Search}
    (hf : ∀ s, ∀ i < vertex + 1, (next s).pVertexColor i = s.pVertexColor i ∧
      (next s).nodes i = s.nodes i)
    (hs : Sound adj (vertex + 1) n (next s)) (hv : Coloured adj s vertex) :
    Sound adj vertex n (next s) := by
  rcases hs with h | ⟨h, hc⟩
  · exact .inl h
  · refine .inr ⟨h, ?_⟩
    intro v hlo hn
    by_cases e : v = vertex
    · subst e
      have hvf := hf s v (by omega)
      unfold Coloured at hv ⊢
      rw [hvf.1, hvf.2]
      refine ⟨?_, hv.2⟩
      intro hp
      refine ⟨(hv.1 hp).1, ?_⟩
      intro u hu hadj
      rw [(hf s u (by omega)).1]
      exact (hv.1 hp).2 u hu hadj
    · exact hc v (by omega) hn

/-- The loop over the colours is sound if the rest of the search is. -/
lemma tryColors_sound {next : Search → Search} {vertex n : Nat}
    (hf : ∀ s, ∀ i < vertex + 1, (next s).pVertexColor i = s.pVertexColor i ∧
      (next s).nodes i = s.nodes i)
    (hs : ∀ s, s.schemeCnt = 0 → Sound adj (vertex + 1) n (next s)) (is : List Nat)
    (hi : ∀ i ∈ is, i < optionalChannelNum) {s : Search} (h : Sound adj vertex n s) :
    Sound adj vertex n (tryColors adj next vertex is s) := by
  induction is generalizing s with
  | nil => exact h
  | cons c is ih =>
    have hrest : ∀ i ∈ is, i < optionalChannelNum := fun i h => hi i (List.mem_cons_of_mem _ h)
    have skip : s.schemeCnt = 0 → ¬ (s.nodes vertex).participating →
        Sound adj vertex n (next (s.setColor vertex noColor)) := by
      intro h0 hp
      refine Sound.of_next hf (hs _ h0) ⟨fun h => absurd h hp, fun _ => ?_⟩
      exact Function.update_self ..
    simp only [tryColors]
    split
    · exact h
    · rename_i h0
      have h0 : s.schemeCnt = 0 := by omega
      split
      · rename_i hop
        split
        · rename_i hok
          split
          · rename_i hcol
            apply ih hrest
            refine Sound.of_next hf (hs _ h0) ⟨fun _ => ⟨?_, ?_⟩, ?_⟩
            · simp only [Search.setColor, Function.update_self]
              exact List.mem_map_of_mem (by simpa using hi c (List.mem_cons_self ..))
            · intro u hu hadj
              simp only [Search.setColor, Function.update_self,
                Function.update_of_ne (Nat.ne_of_lt hu)]
              exact isColorOk_iff.1 hcol u hu hadj
            · exact fun hp => absurd ⟨hop.1, hop.2, hok⟩ hp
          · exact ih hrest h
        · rename_i hok
          exact skip h0 fun hp => hok hp.2.2
      · rename_i hop
        exact skip h0 fun hp => hop ⟨hp.1, hp.2.1⟩

/-- Soundness: the search ends with no scheme, or with one that colours every vertex it covers. -/
lemma giveOneAssign_sound (rest vertex : Nat) {s : Search} (h : s.schemeCnt = 0) :
    Sound adj vertex (vertex + rest) (giveOneAssign lib rssi adj rest vertex s) := by
  induction rest generalizing vertex s with
  | zero =>
    refine .inr ⟨by rw [giveOneAssign, h], ?_⟩
    intro v h₁ h₂
    omega
  | succ rest ih =>
    rw [giveOneAssign]
    apply tryColors_sound
    · exact fun s i hi => giveOneAssign_frame rest (vertex + 1) s i hi
    · intro s h0
      rw [show vertex + (rest + 1) = vertex + 1 + rest from by omega]
      exact ih (vertex + 1) h0
    · exact fun i hi => List.mem_range.1 hi
    · exact .inl (by rw [rfaAt_schemeCnt, h])

lemma tryColors_done {next : Search → Search} {vertex : Nat} {is : List Nat} {s : Search}
    (h : s.schemeCnt ≠ 0) : tryColors adj next vertex is s = s := by
  cases is with
  | nil => rfl
  | cons c is => rw [tryColors, if_pos (Nat.pos_of_ne_zero h)]

/-- When the loop finds a scheme, the last call for the rest of the list found it. -/
lemma tryColors_found {I : Search → Prop} {next : Search → Search} {vertex : Nat}
    (hcol : ∀ s v c, I s → I (s.setColor v c)) (hn : ∀ s, I s → I (next s)) (is : List Nat)
    {s : Search} (h0 : s.schemeCnt = 0) (h : I s)
    (hf : (tryColors adj next vertex is s).schemeCnt ≠ 0) :
    ∃ s', s'.schemeCnt = 0 ∧ I s' ∧ tryColors adj next vertex is s = next s' := by
  induction is generalizing s with
  | nil => exact absurd h0 hf
  | cons c is ih =>
    rw [tryColors, if_neg (by omega)] at hf ⊢
    dsimp only at hf ⊢
    split at hf
    · rename_i hop
      rw [if_pos hop]
      split at hf
      · rename_i hok
        rw [if_pos hok]
        split at hf
        · rename_i hcolor
          rw [if_pos hcolor]
          have hset := hcol s vertex ((s.nodes vertex).optionalCh c) h
          by_cases hnext : (next (s.setColor vertex ((s.nodes vertex).optionalCh c))).schemeCnt = 0
          · exact ih hnext (hn _ hset) hf
          · rw [tryColors_done hnext]
            exact ⟨s.setColor vertex _, h0, hset, rfl⟩
        · rename_i hcolor
          rw [if_neg hcolor]
          exact ih h0 h hf
      · rename_i hok
        rw [if_neg hok]
        exact ⟨s.setColor vertex noColor, h0, hcol _ _ _ h, rfl⟩
    · rename_i hop
      rw [if_neg hop]
      exact ⟨s.setColor vertex noColor, h0, hcol _ _ _ h, rfl⟩

/-- In a found scheme every vertex has been reached: what the call of `doRfa` makes true of its node
holds of all nodes. -/
lemma giveOneAssign_settled {I : Search → Prop} {R : Nat → Node → Prop}
    (hrfa : ∀ v s, I s → I (rfaAt lib rssi v s)) (hcol : ∀ s v c, I s → I (s.setColor v c))
    (hcnt : ∀ s : Search, I s → I { s with schemeCnt := s.schemeCnt + 1 })
    (hR : ∀ v s, I s → R v ((rfaAt lib rssi v s).nodes v)) (rest vertex : Nat) {s : Search}
    (h0 : s.schemeCnt = 0) (h : I s)
    (hf : (giveOneAssign lib rssi adj rest vertex s).schemeCnt ≠ 0) :
    ∀ v, vertex ≤ v → v < vertex + rest →
      R v ((giveOneAssign lib rssi adj rest vertex s).nodes v) := by
  induction rest generalizing vertex s with
  | zero => exact fun v h₁ h₂ => by omega
  | succ rest ih =>
    rw [giveOneAssign] at hf ⊢
    intro v hlo hhi
    have hnext : ∀ s, I s → I (giveOneAssign lib rssi adj rest (vertex + 1) s) :=
      fun s hs => giveOneAssign_inv hrfa hcol hcnt rest (vertex + 1) hs
    obtain ⟨s', h0', hi', he⟩ := tryColors_found hcol hnext _
      ((rfaAt_schemeCnt vertex s).trans h0) (hrfa vertex s h) hf
    by_cases hv : v = vertex
    · subst hv
      have hfr := (@tryColors_frame adj (giveOneAssign lib rssi adj rest (v + 1)) v
        (fun s i hi => giveOneAssign_frame rest (v + 1) s i hi) (List.range optionalChannelNum)
        (rfaAt lib rssi v s)).2 v (Nat.lt_succ_self v)
      rw [hfr]
      exact hR v s h
    · rw [he] at hf ⊢
      exact ih (vertex + 1) h0' hi' hf v (by omega) (by omega)

/-- The colours a node may get: a fixed one keeps the colour 0. -/
def AllowedColor (n : Node) (c : Nat) : Prop :=
  if n.radioInfo.chP = 0 then c ∈ [1, 6, 11] else c = 0

/-- What the calculation prepares for a node that takes part: an order of the three channels and a
table that lists each channel once, or an option list of zeros when the channel is fixed. -/
def OptionsOk (n : Node) : Prop :=
  n.participating →
    if n.radioInfo.chP = 0 then (options n.optionalCh).Perm [1, 6, 11] ∧ n.rfa.Listed
    else ∀ c ∈ options n.optionalCh, c = 0

/-- The options of a prepared node are its allowed colours. -/
lemma OptionsOk.mem_iff {n : Node} {c : Nat} (h : OptionsOk n) (hp : n.participating) :
    c ∈ options n.optionalCh ↔ AllowedColor n c := by
  have ho := h hp
  unfold AllowedColor
  split at ho
  · rename_i h0
    rw [if_pos h0]
    exact ho.1.mem_iff
  · rename_i h0
    rw [if_neg h0]
    refine ⟨ho c, ?_⟩
    rintro rfl
    have hm : n.optionalCh 0 ∈ options n.optionalCh := List.mem_map_of_mem (by decide)
    rw [← ho _ hm]
    exact hm

lemma AllowedColor.ne_noColor {n : Node} {c : Nat} (h : AllowedColor n c) : noColor ≠ c := by
  unfold AllowedColor at h
  rintro rfl
  split at h
  · exact absurd h (by decide)
  · exact absurd h (by decide)

/-- What the assigned positions add leaves the channels of the table alone. -/
lemma foldl_addAssigned_rfaCh (row color : Nat → Nat) (l : List Nat) (r : AcpRfa) :
    (l.foldl (addAssigned lib row color) r).rfaCh = r.rfaCh := by
  induction l generalizing r with
  | nil => rfl
  | cons p ps ih =>
    rw [List.foldl_cons, ih]
    rfl

lemma options_zero {c : Nat} (h : c ∈ options fun _ => 0) : c = 0 := by
  simp only [options, slice, List.mem_map] at h
  obtain ⟨_, _, rfl⟩ := h
  rfl

/-- `doRfa` keeps a node prepared. -/
lemma doRfa_optionsOk {color : Nat → Nat} {n : Node} {i : Nat} {e : Env} (h : OptionsOk n) :
    OptionsOk (doRfa lib rssi color n i e).1 := by
  by_cases hi : i = 0
  · rw [doRfa, if_pos hi]
    exact h
  · by_cases hf : n.radioInfo.chP = 0
    · rw [doRfa, if_neg hi, if_neg (not_not.2 hf)]
      intro hp
      have ho := h hp
      rw [if_pos hf] at ho
      rw [if_pos (show (decideOptionalChWith n _ e).1.radioInfo.chP = 0 from hf)]
      refine ⟨sort_perm ?_ (.inr ho.1), ho.2⟩
      rw [AcpRfa.Listed, foldl_addAssigned_rfaCh]
      exact ho.2
    · rw [doRfa, if_neg hi, if_pos hf]
      intro _
      rw [if_neg hf]
      exact fun c hc => options_zero hc

section Complete

variable {base : Nat → Node}

/-- The colours of the first `k` vertices are given, the nodes are prepared, and only their
options differ from `base`. -/
structure Ready (adj : Nat → Nat → Nat) (base : Nat → Node) (k : Nat) (s : Search) : Prop where
  same : ∀ i, (base i).SameButOptions (s.nodes i)
  ok : ∀ i, OptionsOk (s.nodes i)
  skip : ∀ i < k, ¬ (base i).participating → s.pVertexColor i = noColor
  proper : Proper (fun i => (base i).participating) (fun v u => adj v u ≠ 0)
    (fun v => AllowedColor (base v)) k s.pVertexColor

/-- The colours given so far can be completed. -/
def Completable (adj : Nat → Nat → Nat) (base : Nat → Node) (n k : Nat) (f : Nat → Nat) : Prop :=
  Extendable (fun i => (base i).participating) (fun v u => adj v u ≠ 0)
    (fun v => AllowedColor (base v)) n k f

lemma Ready.mem_options {k v c : Nat} {s : Search} (h : Ready adj base k s)
    (hp : (base v).participating) :
    c ∈ options (s.nodes v).optionalCh ↔ AllowedColor (base v) c := by
  rw [(h.ok v).mem_iff ((h.same v).participating.2 hp)]
  unfold AllowedColor
  rw [show (s.nodes v).radioInfo = (base v).radioInfo by rw [h.same v]]

/-- Giving the next vertex a good colour keeps the search ready. -/
lemma Ready.setColor {k c : Nat} {s : Search} (h : Ready adj base k s)
    (hc : (base k).participating → AllowedColor (base k) c ∧
      ∀ u < k, adj k u ≠ 0 → s.pVertexColor u ≠ c)
    (hn : ¬ (base k).participating → c = noColor) : Ready adj base (k + 1) (s.setColor k c) := by
  refine ⟨h.same, h.ok, ?_, ?_⟩
  · intro i hi hp
    by_cases e : i = k
    · subst e
      exact (Function.update_self ..).trans (hn hp)
    · exact (Function.update_of_ne e ..).trans (h.skip i (by omega) hp)
  · exact h.proper.extend fun hp => ⟨(hc hp).1, fun u hu _ hadj => (hc hp).2 u hu hadj⟩

/-- Readiness only depends on the colours before the vertex. -/
lemma Ready.of_frame {k : Nat} {s t : Search} (h : Ready adj base k s)
    (same : ∀ i, (base i).SameButOptions (t.nodes i)) (ok : ∀ i, OptionsOk (t.nodes i))
    (hf : ∀ i < k, t.pVertexColor i = s.pVertexColor i) : Ready adj base k t := by
  refine ⟨same, ok, ?_, ?_⟩
  · intro i hi hp
    rw [hf i hi]
    exact h.skip i hi hp
  · exact h.proper.congr fun i hi _ => (hf i hi).symm

/-- The loop passes over a vertex that does not take part. -/
lemma tryColors_skip {next : Search → Search} {vertex c : Nat} {is : List Nat} {s : Search}
    (h0 : s.schemeCnt = 0) (hp : ¬ (s.nodes vertex).participating) :
    tryColors adj next vertex (c :: is) s = next (s.setColor vertex noColor) := by
  simp only [tryColors, h0, gt_iff_lt, Nat.lt_irrefl, if_false]
  split
  · rename_i hop
    rw [if_neg fun hok => hp ⟨hop.1, hop.2, hok⟩]
  · rfl

/-- The loop over the colours fails exactly when no colour of the list can be completed. -/
lemma tryColors_complete {next : Search → Search} {vertex n : Nat} {nd : Node} {col : Nat → Nat}
    (hp : (base vertex).participating)
    (hf : ∀ s, ∀ i < vertex + 1, (next s).pVertexColor i = s.pVertexColor i ∧
      (next s).nodes i = s.nodes i)
    (hr : ∀ s, Ready adj base (vertex + 1) s →
      ∀ i, (base i).SameButOptions ((next s).nodes i) ∧ OptionsOk ((next s).nodes i))
    (hs : ∀ s, s.schemeCnt = 0 → Ready adj base (vertex + 1) s →
      ((next s).schemeCnt = 0 ↔ ¬ Completable adj base n (vertex + 1) s.pVertexColor))
    (is : List Nat) (hi : ∀ i ∈ is, i < optionalChannelNum) {s : Search} (h0 : s.schemeCnt = 0)
    (hready : Ready adj base vertex s) (hnd : s.nodes vertex = nd)
    (hcol : ∀ i < vertex, s.pVertexColor i = col i) :
    (tryColors adj next vertex is s).schemeCnt = 0 ↔
      ∀ i ∈ is, (∀ u < vertex, adj vertex u ≠ 0 → col u ≠ nd.optionalCh i) →
        ¬ Completable adj base n (vertex + 1) (Function.update col vertex (nd.optionalCh i)) := by
  induction is generalizing s with
  | nil => simp [tryColors, h0]
  | cons c is ih =>
    have hrest : ∀ i ∈ is, i < optionalChannelNum := fun i h => hi i (List.mem_cons_of_mem _ h)
    have hpv := (hready.same vertex).participating.2 hp
    have hok : isColorOk adj s.pVertexColor vertex (nd.optionalCh c) = true ↔
        ∀ u < vertex, adj vertex u ≠ 0 → col u ≠ nd.optionalCh c := by
      rw [isColorOk_iff]
      refine forall₂_congr fun u hu => ?_
      rw [hcol u hu]
    have hal : AllowedColor (base vertex) (nd.optionalCh c) := by
      rw [← hready.mem_options hp, hnd]
      exact List.mem_map_of_mem (by simpa using hi c (List.mem_cons_self ..))
    simp only [tryColors, hnd, h0, Nat.lt_irrefl, gt_iff_lt, if_false]
    rw [hnd] at hpv
    rw [if_pos ⟨hpv.1, hpv.2.1⟩, if_pos hpv.2.2, List.forall_mem_cons]
    by_cases hc : isColorOk adj s.pVertexColor vertex (nd.optionalCh c) = true
    · rw [if_pos hc]
      have hset := hready.setColor (fun _ => ⟨hal, isColorOk_iff.1 hc⟩) (fun h => absurd hp h)
      have hcong : Completable adj base n (vertex + 1)
            (s.setColor vertex (nd.optionalCh c)).pVertexColor ↔
          Completable adj base n (vertex + 1) (Function.update col vertex (nd.optionalCh c)) := by
        have he : ∀ i < vertex + 1, (s.setColor vertex (nd.optionalCh c)).pVertexColor i =
            Function.update col vertex (nd.optionalCh c) i := by
          intro i hi
          by_cases e : i = vertex
          · subst e
            simp only [Search.setColor, Function.update_self]
          · simp only [Search.setColor, Function.update_of_ne e]
            exact hcol i (by omega)
        exact ⟨fun h => h.congr he, fun h => h.congr fun i hi => (he i hi).symm⟩
      have hnext := hs (s.setColor vertex (nd.optionalCh c)) h0 hset
      rw [hcong] at hnext
      by_cases hz : (next (s.setColor vertex (nd.optionalCh c))).schemeCnt = 0
      · have hback := hready.of_frame (fun i => (hr _ hset i).1) (fun i => (hr _ hset i).2)
          fun i hi => by
            rw [(hf _ i (by omega)).1]
            exact Function.update_of_ne (Nat.ne_of_lt hi) _ _
        rw [ih hrest hz hback ((hf _ vertex (by omega)).2.trans hnd) fun i hi => by
          rw [(hf _ i (by omega)).1]
          exact (Function.update_of_ne (Nat.ne_of_lt hi) _ _).trans (hcol i hi)]
        exact ⟨fun h => ⟨fun _ => hnext.1 hz, h⟩, fun h => h.2⟩
      · rw [tryColors_done hz]
        exact ⟨fun h => absurd h hz, fun h => absurd (hnext.2 (h.1 (hok.1 hc))) hz⟩
    · rw [if_neg hc, ih hrest h0 hready hnd hcol]
      exact ⟨fun h => ⟨fun hh => absurd (hok.2 hh) hc, h⟩, fun h => h.2⟩

/-- The calls of `doRfa` keep a search ready. -/
lemma rfaAt_ready {vertex : Nat} {s : Search} (h : Ready adj base vertex s) :
    Ready adj base vertex (rfaAt lib rssi vertex s) := by
  refine h.of_frame ?_ ?_ fun i _ => by rw [rfaAt_color]
  · intro i
    simp only [rfaAt]
    split
    · by_cases e : i = vertex
      · subst e
        simp only [Function.update_self]
        exact (h.same i).trans (doRfa_same ..)
      · simp only [Function.update_of_ne e]
        exact h.same i
    · exact h.same i
  · intro i
    simp only [rfaAt]
    split
    · by_cases e : i = vertex
      · subst e
        simp only [Function.update_self]
        exact doRfa_optionsOk (h.ok i)
      · simp only [Function.update_of_ne e]
        exact h.ok i
    · exact h.ok i

/-- The search keeps the nodes prepared. -/
lemma giveOneAssign_ready {rest vertex : Nat} {s : Search} (h : Ready adj base vertex s) (i : Nat) :
    (base i).SameButOptions ((giveOneAssign lib rssi adj rest vertex s).nodes i) ∧
      OptionsOk ((giveOneAssign lib rssi adj rest vertex s).nodes i) :=
  ⟨(h.same i).trans (giveOneAssign_same rest vertex s i),
    giveOneAssign_nodes (Q := fun _ n => OptionsOk n) (fun _ _ _ _ h => doRfa_optionsOk h) rest
      vertex h.ok i⟩

/-- Completeness: from a ready state the search fails exactly when the colours given so far cannot
be completed. -/
lemma giveOneAssign_complete (rest vertex : Nat) {s : Search} (h0 : s.schemeCnt = 0)
    (h : Ready adj base vertex s) :
    (giveOneAssign lib rssi adj rest vertex s).schemeCnt = 0 ↔
      ¬ Completable adj base (vertex + rest) vertex s.pVertexColor := by
  induction rest generalizing vertex s with
  | zero =>
    rw [giveOneAssign, h0]
    exact ⟨fun h => absurd h Nat.one_ne_zero, fun hn => absurd (h.proper.extendable _) hn⟩
  | succ rest ih =>
    have hr := @rfaAt_ready lib rssi adj base _ _ h
    have h1 := (@rfaAt_schemeCnt lib rssi vertex s).trans h0
    have hc := @rfaAt_color lib rssi vertex s
    rw [giveOneAssign, show vertex + (rest + 1) = vertex + 1 + rest from by omega]
    by_cases hp : (base vertex).participating
    · rw [tryColors_complete hp (fun s i hi => giveOneAssign_frame rest (vertex + 1) s i hi)
        (fun s hs i => giveOneAssign_ready hs i) (fun s h0 hs => ih (vertex + 1) h0 hs)
        (List.range optionalChannelNum) (fun i hi => List.mem_range.1 hi) h1 hr rfl
        fun i _ => congrFun hc i]
      rw [Completable, extendable_active (by omega) hp]
      constructor
      · rintro h ⟨c, hal, hne, hext⟩
        obtain ⟨i, hi, rfl⟩ : ∃ i ∈ List.range' 0 optionalChannelNum,
            ((rfaAt lib rssi vertex s).nodes vertex).optionalCh i = c :=
          List.mem_map.1 ((hr.mem_options hp).2 hal)
        refine h i (by simpa using hi) ?_ hext
        -- an earlier vertex that does not take part holds 0xff, which is no channel
        intro u hu hadj
        by_cases hpu : (base u).participating
        · exact hne u hu hpu hadj
        · rw [← hc, hr.skip u hu hpu]
          exact hal.ne_noColor
      · rintro h i hi hne hext
        refine h ⟨_, (hr.mem_options hp).1 (List.mem_map_of_mem (by simpa using hi)), ?_, hext⟩
        exact fun u hu _ hadj => hne u hu hadj
    · have hpv : ¬ ((rfaAt lib rssi vertex s).nodes vertex).participating :=
        fun h => hp ((hr.same vertex).participating.1 h)
      have hset := hr.setColor (c := noColor) (fun h => absurd h hp) fun _ => rfl
      have hnext := ih (vertex + 1) (s := (rfaAt lib rssi vertex s).setColor vertex noColor) h1 hset
      rw [show List.range optionalChannelNum = [0, 1, 2] from rfl, tryColors_skip h1 hpv, hnext,
        Completable, Completable, extendable_inactive (f := s.pVertexColor) noColor hp,
        Search.setColor, hc]

end Complete

end Facts

end CcodeTest.Dcs
