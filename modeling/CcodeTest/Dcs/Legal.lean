import CcodeTest.Dcs.Lock

/-!
# Legal channels

The option list and the interference table of an access point, and the result of its last scan, are
kept from one calculation to the next. An access point that is passed over in the scan round, within
its aging time or because its last SSPP command does not end, takes part with what an earlier
calculation left; if its channel was fixed at that time this is a list of zeros. The position in the
list matters: `doRfa` sorts the options again for every access point but the first.

`renewed` is the condition that nobody is passed over with a stale list; in runs that meet it every
channel written for an access point without a fixed channel is 1, 6 or 11
(`assigned_channels_legal`).
-/

namespace CcodeTest.Dcs
open CcodeTest.Lib

/-- The node has legal options, in case the assignment uses them. -/
def Node.Legal (n : Node) : Prop :=
  n.participating → n.radioInfo.chP = 0 → LegalOptions n.optionalCh

/-- The same, or `doRfa` will make them legal. -/
def Node.Settled (i : Nat) (n : Node) : Prop :=
  n.participating → n.radioInfo.chP = 0 → LegalOptions n.optionalCh ∨ 0 < i ∧ n.rfa.Listed

/-- The same, with the memory that `doRfa` needs. -/
def Usable (i : Nat) (n : Node) (e : Env) : Prop :=
  n.participating → n.radioInfo.chP = 0 → LegalOptions n.optionalCh ∨
    0 < i ∧ n.rfa.Listed ∧ e.plenty

section Search

variable {lib : RfaLib} {rssi : Nat → Nat → Nat} {color : Nat → Nat} {n : Node} {i : Nat} {e : Env}

/-- `doRfa` keeps plenty of memory. -/
lemma doRfa_plenty (h : e.plenty) : (doRfa lib rssi color n i e).2.2.plenty := by
  unfold doRfa
  split
  · exact h
  · split
    · exact h
    · exact sort_plenty h

/-- Away from the head of the list, `doRfa` leaves legal options. -/
lemma doRfa_legal (hi : i ≠ 0) (h : Usable i n e) : (doRfa lib rssi color n i e).1.Legal := by
  intro hp hf
  have hsame := @doRfa_same lib rssi color n i e
  have hp' : n.participating := hsame.participating.1 hp
  have hf' : n.radioInfo.chP = 0 := by
    rw [hsame] at hf
    exact hf
  rw [doRfa, if_neg hi, if_neg (not_not.2 hf')]
  rcases h hp' hf' with h | ⟨-, hl, he⟩
  · exact sort_legal _ _ _ h
  · refine .of_perm (sort_perm ?_ (.inl (he 0)))
    rw [AcpRfa.Listed, foldl_addAssigned_rfaCh]
    exact hl

/-- The evaluation of a vertex keeps the options usable. -/
lemma rfaAt_usable {v : Nat} {s : Search} (h : ∀ i, Usable i (s.nodes i) s.env) (i : Nat) :
    Usable i ((rfaAt lib rssi v s).nodes i) (rfaAt lib rssi v s).env := by
  simp only [rfaAt]
  split
  · rename_i hv
    by_cases hi : i = v
    · subst hi
      simp only [Function.update_self]
      exact fun hp hf => .inl (doRfa_legal (Nat.ne_of_gt hv.1) (h i) hp hf)
    · simp only [Function.update_of_ne hi]
      intro hp hf
      rcases h i hp hf with hl | ⟨h0, hl, he⟩
      · exact .inl hl
      · exact .inr ⟨h0, hl, doRfa_plenty he⟩
  · exact h i

/-- The call of `doRfa` leaves the node with legal options; at the head of the list, where it is not
made, they were legal before. -/
lemma rfaAt_legal {v : Nat} {s : Search} (h : ∀ i, Usable i (s.nodes i) s.env) :
    ((rfaAt lib rssi v s).nodes v).Legal := by
  simp only [rfaAt]
  split
  · rename_i hv
    simp only [Function.update_self]
    exact doRfa_legal (Nat.ne_of_gt hv.1) (h v)
  · rename_i hv
    intro hp hf
    refine (h v hp hf).resolve_right ?_
    rintro ⟨h0, -⟩
    exact hv ⟨h0, hp.1, hp.2.1⟩

end Search

section Loop

variable {lib : RfaLib} {h : Head} {e : Env} {l l' : Loop}

/-- So does a whole search. -/
lemma probe_usable (hu : ∀ i, Usable i (h.node i) e) (i : Nat) :
    Usable i ((probe lib h e).1.node i) (probe lib h e).2 := by
  rw [probe_eq]
  dsimp only
  rw [node_store]
  split
  · exact giveOneAssign_inv (I := fun s => ∀ i, Usable i (s.nodes i) s.env)
      (fun _ _ h => rfaAt_usable h) (fun _ _ _ h => h) (fun _ h => h) _ _ hu i
  · exact fun hp => absurd rfl hp.1

/-- In a found scheme all options are legal. -/
lemma probe_legal (hu : ∀ i, Usable i (h.node i) e)
    (hf : (probe lib h e).1.colorScheme.schemeCnt ≠ 0) {v : Nat} (hv : v < h.count) :
    ((probe lib h e).1.node v).Legal := by
  have hs := @giveOneAssign_settled lib h.rssi h.graph.pAdjacentMatrix.cell
    (fun s => ∀ i, Usable i (s.nodes i) s.env) (fun _ n => n.Legal)
    (fun _ _ h => rfaAt_usable h) (fun _ _ _ h => h) (fun _ h => h) (fun _ _ h => rfaAt_legal h)
    h.count 0 (h.graph.search e) rfl hu hf v (Nat.zero_le v) (by omega)
  rw [probe_eq]
  dsimp only
  rw [node_store, if_pos (show v < h.graph.count from hv)]
  exact hs

/-- The colours the loop leaves: legal channels for the access points without a fixed one that take
part, and none for those that do not. -/
lemma thresholdLoop_legal {fuel : Nat} (hl : thresholdLoop lib fuel l = some l')
    (hu : ∀ i, Usable i (l.head.node i) l.env) {v : Nat} (hv : v < l'.head.count) :
    ((l'.head.node v).participating → (l'.head.node v).radioInfo.chP = 0 →
        isOption (l'.head.vertexColor v) = true) ∧
      (¬ (l'.head.node v).participating → l'.head.vertexColor v = noColor) := by
  obtain ⟨h, e, hk, hu', hlast, hf⟩ := thresholdLoop_last (fun _ _ => probe_usable) hl hu
  rw [hlast] at hv ⊢
  have hkept := @probe_kept lib h e
  have hv' : v < h.count := by
    rw [← hkept.count]
    exact hv
  obtain ⟨-, hcol⟩ := probe_sound hf
  have hpart := (hkept.same v).participating
  refine ⟨?_, ?_⟩
  · intro hp hz
    exact probe_legal hu' hf hv' hp hz _ ((hcol v hv').1 (hpart.1 hp)).1
  · exact fun hp => (hcol v hv').2 fun hp' => hp (hpart.2 hp')

end Loop

instance (n : Node) : Decidable n.Legal := inferInstanceAs (Decidable (_ → _ → _))

instance (i : Nat) (n : Node) : Decidable (n.Settled i) :=
  inferInstanceAs (Decidable (_ → _ → _ ∨ _ ∧ _))

/-- Nobody takes part with what an earlier calculation left, unless that is good enough: a radio
mode that the code does not know comes with a consistent radio, and an access point that is passed
over has legal options already, or, within its aging time, a table they will be sorted from. -/
def renewed (s : Sys) (e : Event) : Bool :=
  match e, s.pc with
  | .calcRun _, .updateSP i =>
    match s.head.peer s.peers i with
    | some q => q.nRadio.recognised || decide (s.head.node i).radioInfo.Consistent
    | none => true
  | .calcRun _, .sspp row cnt => decide (ssppTimeoutCnt ≤ cnt → (s.head.node row).Legal)
  | .calcRun inp, .scanDecide row =>
    decide (decideScan s.head.spScanMode (s.head.node row) inp = .skip →
      (s.head.node row).Settled row)
  | _, _ => true

/-- There is memory for ordering the options, or what would be left instead is legal. -/
def supplied (s : Sys) (e : Event) : Prop :=
  match e, s.pc with
  | .calcRun inp, .rfa row =>
    inp.env.plenty ∨ ((s.head.node row).radioInfo.chP = 0 → LegalOptions (s.head.node row).optionalCh)
  | .calcRun inp, .threshold => inp.env.plenty ∨ ∀ i, (s.head.node i).Legal
  | _, _ => True

/-- With plenty of memory a step is supplied. -/
lemma supplied_of_plenty {s : Sys} {e : Event} (h : e.plenty) : supplied s e := by
  unfold supplied
  split
  · exact .inl h
  · exact .inl h
  · trivial

/-- Every radio is consistent, and the access points before `row` are settled. -/
structure Chosen (l : List Node) (row : Nat) : Prop where
  radio : ∀ n ∈ l, n.radioInfo.Consistent
  rows : ∀ i < row, ∀ n, l[i]? = some n → n.Settled i

section Chosen

variable {l : List Node} {row : Nat} {f : Node → Node}

/-- A node of a list in which one was changed. -/
lemma mem_modify {n : Node} (h : n ∈ l.modify row f) : n ∈ l ∨ ∃ m ∈ l, n = f m := by
  obtain ⟨i, hi⟩ := List.mem_iff_getElem?.1 h
  rw [List.getElem?_modify] at hi
  obtain ⟨m, hm, rfl⟩ := Option.map_eq_some_iff.1 hi
  have hmem := List.mem_of_getElem? hm
  split
  · exact .inr ⟨m, hmem, rfl⟩
  · exact .inl hmem

/-- A change of the node at `row` that keeps its radio. -/
lemma Chosen.modify (h : Chosen l row) (hf : ∀ n, (f n).radioInfo = n.radioInfo) :
    Chosen (l.modify row f) row := by
  refine ⟨?_, ?_⟩
  · intro n hn
    rcases mem_modify hn with hn | ⟨m, hm, rfl⟩
    · exact h.radio n hn
    · rw [hf]
      exact h.radio m hm
  · intro i hi n hn
    rw [List.getElem?_modify_ne _ _ (Nat.ne_of_gt hi)] at hn
    exact h.rows i hi n hn

/-- The node at `row` is settled too. -/
lemma Chosen.next (h : Chosen l row) (hs : ∀ n, l[row]? = some n → n.Settled row) :
    Chosen l (row + 1) := by
  refine ⟨h.radio, ?_⟩
  intro i hi n hn
  rcases Nat.lt_succ_iff_lt_or_eq.1 hi with hlt | rfl
  · exact h.rows i hlt n hn
  · exact hs n hn

/-- The node at `row` is settled by a change. -/
lemma Chosen.settle (h : Chosen l row) (hf : ∀ n, (f n).radioInfo = n.radioInfo)
    (hs : ∀ n, l[row]? = some n → (f n).Settled row) : Chosen (l.modify row f) (row + 1) := by
  refine (h.modify hf).next ?_
  intro n hn
  rw [List.getElem?_modify_eq] at hn
  obtain ⟨m, hm, rfl⟩ := Option.map_eq_some_iff.1 hn
  exact hs m hm

end Chosen

/-- What holds at each point of a calculation. -/
def LegalAt (h : Head) : Pc → Prop
  | .updateSP i => ∀ j < i, ∀ n, h.slList[j]? = some n → n.radioInfo.Consistent
  | .scanNode row | .sspp row _ | .ssppPipe row _ | .scanDecide row | .scanWait row | .credit row
  | .rfa row => Chosen h.slList row
  | .threshold => Chosen h.slList h.count
  | .setChannel => ∀ i n, h.slList[i]? = some n → n.radioInfo.Consistent ∧
      (n.participating → n.radioInfo.chP = 0 → isOption (h.vertexColor i) = true) ∧
      (¬ n.participating → h.vertexColor i = noColor)
  | _ => True

/-- The channels written so far are legal. -/
def LegalLog (log : List Entry) : Prop :=
  ∀ a, .assigned a ∈ log → a.modeAndBand.isAuto = true → isOption a.channel = true

section Moves

variable {p : Platform} {s t : Sys} {e : Event}

/-- Outside the locked part there is nothing to show. -/
lemma LegalAt.of_unlocked {h : Head} {pc : Pc} (hl : pc.locked = false) : LegalAt h pc := by
  cases pc with
  | updateSP | scanNode | sspp | ssppPipe | scanDecide | scanWait | credit | rfa | threshold
  | setChannel | calcRestart | fault => cases hl
  | _ => trivial

/-- Of the head only the nodes and the colours matter. -/
lemma LegalAt.congr {h h' : Head} {pc : Pc} (hl : LegalAt h pc) (hn : h'.slList = h.slList)
    (hc : h'.vertexColor = h.vertexColor) : LegalAt h' pc := by
  have hcount : h'.count = h.count := congrArg List.length hn
  cases pc with
  | updateSP | scanNode | sspp | ssppPipe | scanDecide | scanWait | credit | rfa =>
    simp only [LegalAt, hn] at hl ⊢
    exact hl
  | threshold =>
    simp only [LegalAt, hn, hcount] at hl ⊢
    exact hl
  | setChannel =>
    simp only [LegalAt, hn, hc] at hl ⊢
    exact hl
  | _ => trivial

/-- A node of the list by its index. -/
lemma node_of_getElem? {h : Head} {i : Nat} {n : Node} (hn : h.slList[i]? = some n) :
    h.node i = n := by
  rw [Head.node, List.getD_eq_getElem?_getD, hn]
  rfl

/-- The RFA part settles its node. -/
lemma rfaNode_settled {h : Head} {cnt row : Nat} {n : Node} {e : Env} (h0 : h.roundOfCalc = 0)
    (hs : e.plenty ∨ (n.radioInfo.chP = 0 → LegalOptions n.optionalCh)) :
    (rfaNode p.toRfaLib h cnt true n e).1.Settled row := by
  intro _ hf
  refine .inl ?_
  unfold rfaNode orderOptions at hf ⊢
  rw [if_pos rfl] at hf ⊢
  dsimp only at hf ⊢
  split at hf
  · rename_i hne
    exact absurd hf hne
  · rename_i heq
    rw [if_neg heq]
    have heq : n.radioInfo.chP = 0 := not_not.1 heq
    rcases hs with hs | hs
    · exact .of_perm (sort_perm (rfaTable_listed h0 cnt n) (.inl (hs 0)))
    · exact sort_legal _ _ _ (hs heq)

/-- The RFA part keeps the radio. -/
lemma rfaNode_radioInfo {h : Head} {cnt : Nat} {last : Bool} {n : Node} {e : Env} :
    (rfaNode p.toRfaLib h cnt last n e).1.radioInfo = n.radioInfo := by
  unfold rfaNode orderOptions
  split
  · split
    · rfl
    · rfl
  · rfl

/-- The threshold loop, with every access point settled. -/
lemma legalAt_threshold {h : Head} {env : Env} {fuel : Nat} {l : Loop} (hc : Chosen h.slList h.count)
    (hs : env.plenty ∨ ∀ i, (h.node i).Legal)
    (hl : thresholdLoop p.toRfaLib fuel (Loop.start h env) = some l) : LegalAt l.head .setChannel := by
  have hu : ∀ i, Usable i ((Loop.start h env).head.node i) env := by
    intro i hp hf
    rcases hs with hs | hs
    · cases hn : h.slList[i]? with
      | none =>
        have hnode : (Loop.start h env).head.node i = default := by
          refine node_of_le (h := h) ?_
          exact List.getElem?_eq_none_iff.1 hn
        rw [hnode] at hp
        exact absurd rfl hp.1
      | some n =>
        obtain ⟨hlt, -⟩ := List.getElem?_eq_some_iff.1 hn
        have hnode : (Loop.start h env).head.node i = n := node_of_getElem? (h := h) hn
        rw [hnode] at hp hf ⊢
        rcases hc.rows i hlt n hn hp hf with hl | ⟨h0, ht⟩
        · exact .inl hl
        · exact .inr ⟨h0, ht, hs⟩
    · exact .inl (hs i hp hf)
  obtain ⟨hkept, -⟩ := thresholdLoop_frame hl
  intro i n hn
  obtain ⟨hlt, -⟩ := List.getElem?_eq_some_iff.1 hn
  have hnode : l.head.node i = n := node_of_getElem? hn
  have hlegal := thresholdLoop_legal hl hu hlt
  rw [hnode] at hlegal
  refine ⟨?_, hlegal⟩
  have hsame : n.radioInfo = (h.node i).radioInfo := by
    rw [← hnode, hkept.same i]
    rfl
  rw [hsame]
  refine hc.radio _ ?_
  have hlt' : i < h.slList.length := Nat.lt_of_lt_of_eq hlt hkept.count
  rw [Head.node, List.getD_eq_getElem _ _ hlt']
  exact List.getElem_mem hlt'

/-- Every step of a renewed and supplied run. -/
lemma Moves.legalAt (m : Moves p s e t) (h : LegalAt s.head s.pc) (hheld : Held s)
    (hround : FirstRound s) (hr : renewed s e = true) (hs : supplied s e) :
    LegalAt t.head t.pc := by
  cases m with
  | acpUpdate mode malloc heap hd hst hm =>
    exact .of_unlocked (hheld.unlocked hm)
  | acpTimeout =>
    obtain ⟨boot, flag, mode, cs, ht, -⟩ := timeout_frame s
    rw [ht]
    exact h.congr rfl rfl
  | setupMatrix inp hpc => exact .of_unlocked (by simp only [Sys.goto]; split <;> rfl)
  | setupColor inp hpc => exact .of_unlocked (by simp only [Sys.goto]; split <;> rfl)
  | apOkRead => exact .of_unlocked (locked_afterApOkWait ..)
  | apOkQuiet => exact .of_unlocked (locked_afterApOkWait ..)
  | enter => exact fun j hj => absurd hj (Nat.not_lt_zero j)
  | @updateSP i q inp hpc hi hq =>
    rw [hpc] at h
    intro j hj n hn
    have hn : (s.head.slList.modify i (·.update q))[j]? = some n := hn
    rcases Nat.lt_succ_iff_lt_or_eq.1 hj with hlt | rfl
    · rw [List.getElem?_modify_ne _ _ (Nat.ne_of_gt hlt)] at hn
      exact h j hlt n hn
    · rw [List.getElem?_modify_eq] at hn
      obtain ⟨m, hm, rfl⟩ := Option.map_eq_some_iff.1 hn
      simp only [renewed, hpc, hq, Bool.or_eq_true, decide_eq_true_eq, node_of_getElem? hm] at hr
      exact getChNFromPeerList_consistent hr
  | @updated i inp hpc hi =>
    rw [hpc] at h
    refine ⟨?_, fun j hj => absurd hj (Nat.not_lt_zero j)⟩
    intro n hn
    obtain ⟨j, hj⟩ := List.mem_iff_getElem?.1 hn
    obtain ⟨hlt, -⟩ := List.getElem?_eq_some_iff.1 hj
    exact h j (Nat.lt_of_lt_of_le hlt (Nat.not_lt.1 hi)) n hj
  | @disabled row inp hpc hlt hn =>
    rw [hpc] at h
    refine Chosen.next h fun n hn' hp => ?_
    have hnode : s.head.node row = n := node_of_getElem? hn'
    rw [hnode] at hn
    exact absurd hn hp.1
  | @operational row q inp hpc =>
    rw [hpc] at h
    exact Chosen.modify h fun _ => rfl
  | @notOperational row q inp hpc hlt hn hq ho =>
    rw [hpc] at h
    exact Chosen.settle h (fun _ => rfl) fun n _ hp => absurd hp.2.1 ho
  | nextRound inp hpc hlt hm =>
    rw [hround (by rw [hpc]; rfl), scanCnt] at hm
    omega
  | @scanned row inp hpc hlt hm =>
    rw [hpc] at h
    obtain ⟨hradio, hrows⟩ : Chosen s.head.slList row := h
    refine ⟨hradio, ?_⟩
    intro i hi n hn
    exact hrows i (Nat.lt_of_lt_of_le hi (Nat.not_lt.1 hlt)) n hn
  | ssppBusy inp hpc =>
    rw [hpc] at h
    exact h
  | ssppRead hc hne hpc =>
    rw [hpc] at h
    exact h
  | ssppQuiet hpc =>
    rw [hpc] at h
    exact h
  | ssppCompleted inp hpc =>
    rw [hpc] at h
    exact h
  | @ssppTimeout row cnt inp hpc hc =>
    rw [hpc] at h
    simp only [renewed, hpc, decide_eq_true_eq] at hr
    refine Chosen.settle h (fun _ => rfl) fun n hn hp hf => .inl ?_
    have hnode : s.head.node row = n := node_of_getElem? hn
    have hlegal := hr hc
    rw [hnode] at hlegal
    exact hlegal hp hf
  | @send row head node inp hpc hd =>
    rw [hpc] at h
    exact Chosen.modify (f := fun n => { n with spScanMode := node, scanReturn := .invalid }) h
      fun _ => rfl
  | @skip row inp hpc hd =>
    rw [hpc] at h
    refine Chosen.next h fun n hn => ?_
    simp only [renewed, hpc, decide_eq_true_eq] at hr
    exact node_of_getElem? hn ▸ hr hd
  | waitReturn hc hpc =>
    rw [hpc] at h
    exact h
  | waitOther hc hne hne' hpc =>
    rw [hpc] at h
    exact h
  | @waitQuiet row hpc =>
    rw [hpc] at h
    refine Chosen.settle (f := fun n => { n.clearRfa with scanReturn := .timeout }) h
      (fun _ => rfl) ?_
    intro n _ hp
    cases hp.2.2
  | @credit row inp hpc =>
    rw [hpc] at h
    obtain ⟨cell, flag, rf, hf⟩ := creditHead_frame s.head row inp
    dsimp only
    rw [hf]
    exact Chosen.modify (f := fun n => { n with scanReturn := .ok, scanTime := inp.now }) h
      fun _ => rfl
  | @rfa row inp hpc =>
    have h0 := hround (by rw [hpc]; rfl)
    rw [hpc] at h
    refine Chosen.settle h (fun _ => rfaNode_radioInfo) ?_
    intro n hn
    have hnode : s.head.node row = n := node_of_getElem? hn
    simp only [supplied, hpc, hnode] at hs
    have hlast : decide (scanCnt - 1 = s.head.roundOfCalc) = true := by
      rw [h0]
      rfl
    rw [hlast]
    exact rfaNode_settled h0 hs
  | @threshold l inp hpc hl =>
    rw [hpc] at h
    simp only [supplied, hpc] at hs
    exact legalAt_threshold h hs hl
  | setChannel => trivial
  | restart => trivial
  | _ => first | exact h.congr rfl rfl | trivial

/-- A longer log. -/
lemma LegalLog.append {l l' : List Entry} (h : LegalLog l) (hn : LegalLog l') :
    LegalLog (l ++ l') := by
  intro a ha
  rcases List.mem_append.1 ha with ha | ha
  · exact h a ha
  · exact hn a ha

/-- The channels written at the end of a calculation. -/
lemma legalLog_setChannel {h : Head} {peers : List Peer} (hl : LegalAt h .setChannel) :
    LegalLog ((setAllChannels h peers).2.1.map .assigned) := by
  intro a ha hauto
  obtain ⟨b, hb, he⟩ := List.mem_map.1 ha
  cases he
  unfold setAllChannels at hb
  split at hb
  · obtain ⟨k, n, hn, -, hcol, hm, hc⟩ := setChannels_assigned hb hauto
    rw [Nat.zero_add] at hcol hc
    obtain ⟨hradio, hpart, hnot⟩ := hl k n hn
    have hp : n.participating := by
      by_contra hp
      exact hcol (hnot hp)
    rw [hc]
    exact hpart hp (hradio hm)
  · cases hb

/-- Every step logs legal channels. -/
lemma Moves.legalLog (m : Moves p s e t) (h : LegalAt s.head s.pc) (hl : LegalLog s.log) :
    LegalLog t.log := by
  cases m with
  | acpUpdate mode malloc heap hd hst hm =>
    refine hl.append ?_
    cases requestOf _ s.head with
    | none => exact nofun
    | some q => exact fun a ha => by cases List.mem_singleton.1 ha
  | acpTimeout =>
    obtain ⟨boot, flag, mode, cs, ht, -⟩ := timeout_frame s
    rw [ht]
    exact hl
  | setChannel inp hpc =>
    rw [hpc] at h
    exact hl.append (legalLog_setChannel h)
  | _ => first | exact hl | exact hl.append fun a ha => by cases List.mem_singleton.1 ha

end Moves

/-- In every run of renewed and supplied steps, every channel written for an access point in one of
the auto modes is 1, 6 or 11. -/
theorem assigned_channels_legal (p : Platform) (s₀ s : Sys) (h₀ : Initial s₀)
    (r : Reach (step p) (fun s e => renewed s e = true ∧ supplied s e) s₀ s) (a : Assignment)
    (ha : .assigned a ∈ s.log) (hauto : a.modeAndBand.isAuto = true) :
    a.channel = 1 ∨ a.channel = 6 ∨ a.channel = 11 := by
  have hinit : LegalAt s₀.head s₀.pc ∧ LegalLog s₀.log ∧ Held s₀ ∧ FirstRound s₀ := by
    refine ⟨?_, ?_, held_init h₀, firstRound (p := p) h₀ (P := fun _ _ => True) .refl⟩
    · obtain ⟨peers, heap, rfl⟩ := h₀
      trivial
    · obtain ⟨peers, heap, rfl⟩ := h₀
      exact nofun
  have hs : LegalAt s.head s.pc ∧ LegalLog s.log ∧ Held s ∧ FirstRound s := by
    refine r.invariant
      (I := fun s => LegalAt s.head s.pc ∧ LegalLog s.log ∧ Held s ∧ FirstRound s) hinit ?_
    rintro s e t ⟨hat, hlog, hheld, hround⟩ ⟨hr, hsup⟩ hstep
    have m := step_moves hstep
    exact ⟨m.legalAt hat hheld hround hr hsup, m.legalLog hat hlog, m.lockMove.held hheld,
      m.firstRound hround⟩
  have hopt := hs.2.1 a ha hauto
  simpa [isOption, or_assoc] using hopt

/-- One access point is scanned and gets its channel. -/
def Event.scannedCalc : List Event :=
  Event.boot ++ List.replicate 6 (Event.calcRun .sample) ++ [Event.reply 0, .calcRead] ++
    List.replicate 6 (Event.calcRun .sample)

/-- One access point in an auto mode gets its channel. -/
theorem assigned_channels_legal_scanned :
    ∃ s a, runIf (step .sample) renewed (Sys.init [.sample 1] fun _ => default) Event.scannedCalc =
        some s ∧
      .assigned a ∈ s.log ∧ a.modeAndBand = .ch24G20MAuto ∧
      (a.channel = 1 ∨ a.channel = 6 ∨ a.channel = 11) := by
  have hrun : (runIf (step .sample) renewed (Sys.init [.sample 1] fun _ => default)
      Event.scannedCalc).map (·.log) = some [.began 1, .visited 1 0 .requested,
        .assigned ⟨idToBssid (Mac.sample 1), .ch24G20MAuto, 6⟩, .ended 1 .completed] := by
    decide
  have hplenty : ∀ e ∈ Event.scannedCalc, e.plenty := by
    simp [Event.scannedCalc, Event.boot, Event.plenty, plenty_sample]
  obtain ⟨s, hs, hlog⟩ := Option.map_eq_some_iff.1 hrun
  have hmem : .assigned ⟨idToBssid (Mac.sample 1), .ch24G20MAuto, 6⟩ ∈ s.log := by
    rw [hlog]
    simp
  exact ⟨s, _, hs, hmem, rfl, assigned_channels_legal .sample _ s ⟨_, _, rfl⟩
    (.of_runIf hs fun s e he hok => ⟨hok, supplied_of_plenty (hplenty e he)⟩) _ hmem rfl⟩

/-- The channel of the access point is fixed in the first calculation, and left to the assignment in
the second one, which comes within its aging time. -/
def Event.unfixed : List Event :=
  Event.scannedCalc ++
    [Event.peers [.sample 1], .msg ⟨.spStartAutoChannel, Mac.sample 1⟩, .acpStop,
      .acpUpdate .allSpScanBasedOnTime true default, .calcRead, .calcRead] ++
    List.replicate 14 (Event.calcRun .sample)

/-- The access point is passed over in the second scan round, and channel 0 is written for it. -/
theorem assigned_channel_zero :
    (run (step .sample)
      (Sys.init [{ Peer.sample 1 with nRadio := { (Peer.sample 1).nRadio with gChannel := 6 } }]
        fun _ => default) Event.unfixed).map (fun s => s.log.drop 5) =
      some [.began 2, .visited 2 0 .skipped,
        .assigned ⟨idToBssid (Mac.sample 1), .ch24G20MAuto, 0⟩, .ended 2 .completed] := by
  decide

end CcodeTest.Dcs
