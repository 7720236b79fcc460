import CcodeTest.Dcs.Lock

/-!
# Forcing all access points to scan

A calculation that begins in `SCANMOED_FORCE_ALL_SP_SCAN` should ask every access point for a scan,
but the mode is set back as soon as the first one has been asked. The following ones are then
treated like in a calculation based on time, so they are asked only when their own mode or their
aging time says so (`ripe`). Under that condition a scan round passes over nobody
(`forced_scan_reaches_all`).
-/

namespace CcodeTest.Dcs
open CcodeTest.Lib

/-- The visits of a calculation, in order. -/
def visitsOf (no : Nat) (log : List Entry) : List (Nat × Visit) :=
  log.filterMap fun
    | .visited k row v => if k = no then some (row, v) else none
    | _ => none

/-- The visits of the current calculation. -/
def Sys.visits (s : Sys) : List (Nat × Visit) := visitsOf s.calcNo s.log

/-- The positions that were asked for a scan in the current calculation. -/
def Sys.asked (s : Sys) : List Nat :=
  (s.visits.filter fun v => v.2 = .requested).map Prod.fst

/-- Every access point after the first one asked has a mode of its own that forces a scan, or its
last scan has aged. -/
def ripe (s : Sys) (e : Event) : Bool :=
  match e, s.pc with
  | .calcRun inp, .scanDecide row =>
    s.asked.isEmpty || (s.head.node row).spScanMode != .thisSpScanBasedOnTime ||
      (s.head.node row).aged inp
  | _, _ => true

/-- The request written for the node at a position. -/
def Head.scanRequest (h : Head) (i : Nat) : Msg := ⟨.spProvisionScan, bssidToId (h.node i).bssid⟩

/-- The fields of a node that its visit is about. -/
def Node.status (n : Node) : Nat × WorkState × Mac := (n.nEnableDCA, n.spsWorkState, n.bssid)

/-- The node gives the reason for not asking it; an unexpired aging time is none. -/
def Visit.Justified (n : Node) : Visit → Prop
  | disabled => n.nEnableDCA = 0
  | notOperational => n.spsWorkState ≠ .operational
  | skipped => False
  | ssppTimeout | requested => True

/-- What has been visited is right so far: the rows before `row` in order, each for a reason, with
the requests `sent` to those that were asked; as long as nobody has been asked the scan is still
forced. -/
structure Visited (base : List Msg) (s : Sys) (row : Nat) : Prop where
  rows : s.visits.map Prod.fst = List.range row
  why : ∀ v ∈ s.visits, v.2.Justified (s.head.node v.1)
  sent : s.guiPipe = base ++ s.asked.map s.head.scanRequest
  forced : s.asked = [] → s.head.spScanMode = .forceAllSpScan
  le : row ≤ s.head.count

/-- The visits of a longer log. -/
lemma visitsOf_append (no : Nat) (l l' : List Entry) :
    visitsOf no (l ++ l') = visitsOf no l ++ visitsOf no l' :=
  List.filterMap_append ..

/-- A visit that is logged. -/
lemma visitsOf_visited (no row : Nat) (v : Visit) :
    visitsOf no [.visited no row v] = [(row, v)] := by
  simp [visitsOf]

section Visited

variable {base : List Msg} {p : Platform} {s t : Sys} {e : Event} {row : Nat}

/-- What justifies a visit is the status of the node. -/
lemma Visit.Justified.congr {v : Visit} {n m : Node} (h : v.Justified n)
    (hs : m.status = n.status) : v.Justified m := by
  simp only [Node.status, Prod.mk.injEq] at hs
  obtain ⟨he, hw, -⟩ := hs
  cases v with
  | disabled => exact he.trans h
  | notOperational => exact fun hx => h (hw.symm.trans hx)
  | skipped => exact h
  | ssppTimeout | requested => trivial

/-- The request depends on the status of the node only. -/
lemma scanRequest_congr {h h' : Head} {i : Nat} (hs : (h'.node i).status = (h.node i).status) :
    h'.scanRequest i = h.scanRequest i := by
  simp only [Node.status, Prod.mk.injEq] at hs
  rw [Head.scanRequest, hs.2.2, Head.scanRequest]

/-- Only nodes before the row have been visited. -/
lemma Visited.visit_lt (h : Visited base s row) {v : Nat × Visit} (hv : v ∈ s.visits) :
    v.1 < row := by
  have hm := List.mem_map_of_mem (f := Prod.fst) hv
  rw [h.rows] at hm
  exact List.mem_range.1 hm

/-- Only nodes before the row have been asked. -/
lemma Visited.asked_lt (h : Visited base s row) {i : Nat} (hi : i ∈ s.asked) : i < row := by
  obtain ⟨v, hv, rfl⟩ := List.mem_map.1 hi
  exact h.visit_lt (List.mem_of_mem_filter hv)

/-- What `Visited` depends on. -/
lemma Visited.congr (h : Visited base s row) (hn : t.calcNo = s.calcNo) (hl : t.log = s.log)
    (hg : t.guiPipe = s.guiPipe) (hc : t.head.count = s.head.count)
    (hm : t.head.spScanMode = s.head.spScanMode ∨ t.head.spScanMode = .forceAllSpScan)
    (hs : ∀ i < row, (t.head.node i).status = (s.head.node i).status) : Visited base t row := by
  have hv : t.visits = s.visits := by rw [Sys.visits, hn, hl, Sys.visits]
  have ha : t.asked = s.asked := by rw [Sys.asked, hv, Sys.asked]
  refine ⟨hv ▸ h.rows, ?_, ?_, ?_, by rw [hc]; exact h.le⟩
  · rw [hv]
    exact fun v hv => (h.why v hv).congr (hs _ (h.visit_lt hv))
  · rw [hg, h.sent, ha]
    refine congrArg (base ++ ·) (List.map_congr_left ?_)
    exact fun i hi => (scanRequest_congr (hs i (h.asked_lt hi))).symm
  · intro hnone
    rcases hm with hm | hm
    · rw [hm]
      exact h.forced (ha ▸ hnone)
    · exact hm

/-- A step that leaves the list, the history and the messages as they are. -/
lemma Visited.keep (h : Visited base s row) (hn : t.calcNo = s.calcNo) (hl : t.log = s.log)
    (hg : t.guiPipe = s.guiPipe) (hh : t.head.slList = s.head.slList)
    (hm : t.head.spScanMode = s.head.spScanMode ∨ t.head.spScanMode = .forceAllSpScan) :
    Visited base t row := by
  refine h.congr hn hl hg (congrArg List.length hh) hm ?_
  intro i _
  rw [Head.node, hh, Head.node]

/-- One more access point is visited and not asked. -/
lemma Visited.pass {v : Visit} (h : Visited base s row) (hr : v ≠ .requested)
    (hlt : row < s.head.count) (hn : t.calcNo = s.calcNo)
    (hl : t.log = s.log ++ [.visited s.calcNo row v]) (hg : t.guiPipe = s.guiPipe)
    (hm : t.head.spScanMode = s.head.spScanMode) (hc : t.head.count = s.head.count)
    (hs : ∀ i < row, (t.head.node i).status = (s.head.node i).status)
    (hv : v.Justified (t.head.node row)) : Visited base t (row + 1) := by
  have hvis : t.visits = s.visits ++ [(row, v)] := by
    rw [Sys.visits, hn, hl, visitsOf_append, visitsOf_visited, Sys.visits]
  have ha : t.asked = s.asked := by
    rw [Sys.asked, hvis, List.filter_append, Sys.asked]
    simp [hr]
  refine ⟨?_, ?_, ?_, ?_, by omega⟩
  · rw [hvis, List.map_append, h.rows, List.range_succ]
    rfl
  · rw [hvis]
    intro w hw
    rcases List.mem_append.1 hw with hw | hw
    · exact (h.why w hw).congr (hs _ (h.visit_lt hw))
    · rw [List.mem_singleton.1 hw]
      exact hv
  · rw [hg, h.sent, ha]
    refine congrArg (base ++ ·) (List.map_congr_left ?_)
    exact fun i hi => (scanRequest_congr (hs i (h.asked_lt hi))).symm
  · rw [ha, hm]
    exact h.forced

/-- Sending a request keeps the status of every node. -/
lemma status_requestScan {head node : ScanMode} (i : Nat) :
    ((s.requestScan row head node).head.node i).status = (s.head.node i).status :=
  node_modifyNode Node.status (f := fun n => { n with spScanMode := node, scanReturn := .invalid })
    (fun _ => rfl) { s.head with spScanMode := head } row i

/-- The access point is asked. -/
lemma Visited.ask {head node : ScanMode} (h : Visited base s row) (hlt : row < s.head.count) :
    Visited base (s.requestScan row head node) (row + 1) := by
  have hvis : (s.requestScan row head node).visits = s.visits ++ [(row, .requested)] := by
    rw [Sys.visits, Sys.requestScan]
    dsimp only
    rw [visitsOf_append, visitsOf_visited, Sys.visits]
  have ha : (s.requestScan row head node).asked = s.asked ++ [row] := by
    rw [Sys.asked, hvis, List.filter_append, List.map_append, Sys.asked]
    rfl
  refine ⟨?_, ?_, ?_, ?_, ?_⟩
  · rw [hvis, List.map_append, h.rows, List.range_succ]
    rfl
  · rw [hvis]
    intro w hw
    rcases List.mem_append.1 hw with hw | hw
    · exact (h.why w hw).congr (status_requestScan _)
    · rw [List.mem_singleton.1 hw]
      trivial
  · have hsame : ∀ l : List Nat, l.map (s.requestScan row head node).head.scanRequest =
        l.map s.head.scanRequest :=
      fun l => List.map_congr_left fun i _ => scanRequest_congr (status_requestScan i)
    rw [ha, hsame, List.map_append, ← List.append_assoc, ← h.sent]
    rfl
  · rw [ha]
    simp
  · have hcount : (s.requestScan row head node).head.count = s.head.count :=
      List.length_modify ..
    omega

/-- In a forced round the decision is to ask, if the access point is ripe. -/
lemma Visited.asks {inp : Input} (h : Visited base s row) (hpc : s.pc = .scanDecide row)
    (hr : ripe s (.calcRun inp) = true) :
    decideScan s.head.spScanMode (s.head.node row) inp ≠ .skip := by
  by_cases ha : s.asked = []
  · rw [h.forced ha]
    simp [decideScan]
  · simp only [ripe, hpc, Bool.or_eq_true, List.isEmpty_iff, ha, false_or, bne_iff_ne] at hr
    unfold decideScan
    split
    · rcases hr with hr | hr
      · rw [if_neg hr]
        simp
      · rw [if_pos hr]
        split <;> simp
    · simp
    · simp
    · simp

end Visited

/-- The state of a forced round at each point of the task. -/
def ForcedAt (base : List Msg) (s : Sys) : Pc → Prop
  | .updateSP _ => Visited base s 0
  | .scanNode row => Visited base s row
  | .sspp row _ | .ssppPipe row _ | .scanDecide row => Visited base s row ∧ row < s.head.count
  | .scanWait row | .credit row | .rfa row => Visited base s (row + 1)
  | .threshold => Visited base s s.head.count
  | .acpStart | .setChannel | .calcRestart _ | .fault => True
  -- only the next calculation comes here
  | _ => False

def Forced (base : List Msg) (s : Sys) : Prop := ForcedAt base s s.pc

section Forced

variable {base : List Msg} {p : Platform} {s t : Sys} {e : Event} {row : Nat}

/-- The invariant at a program counter that is known. -/
lemma Forced.at_pc (h : Forced base s) {pc : Pc} (hpc : s.pc = pc) : ForcedAt base s pc := hpc ▸ h

/-- A step of the other task or of the surroundings. -/
lemma Forced.stay (h : Forced base s) (hpc : t.pc = s.pc) (hn : t.calcNo = s.calcNo)
    (hl : t.log = s.log) (hg : t.guiPipe = s.guiPipe) (hh : t.head.slList = s.head.slList)
    (hm : t.head.spScanMode = s.head.spScanMode ∨ t.head.spScanMode = .forceAllSpScan) :
    Forced base t := by
  have hc : t.head.count = s.head.count := congrArg List.length hh
  have hv : ∀ row, Visited base s row → Visited base t row :=
    fun _ hv => hv.keep hn hl hg hh hm
  unfold Forced
  rw [hpc]
  cases hs : s.pc with
  | updateSP i => exact hv _ (h.at_pc hs)
  | scanNode row => exact hv _ (h.at_pc hs)
  | sspp row cnt | ssppPipe row cnt | scanDecide row =>
    obtain ⟨h, hlt⟩ := h.at_pc hs
    exact ⟨hv _ h, by omega⟩
  | scanWait row | credit row | rfa row => exact hv _ (h.at_pc hs)
  | threshold =>
    rw [ForcedAt, hc]
    exact hv _ (h.at_pc hs)
  | acpStart | setChannel | calcRestart _ | fault => trivial
  | _ => exact (h.at_pc hs).elim

/-- The RFA part keeps the status. -/
lemma rfaNode_status {lib : RfaLib} (h : Head) (cnt : Nat) (last : Bool) (n : Node) (e : Env) :
    (rfaNode lib h cnt last n e).1.status = n.status := by
  unfold rfaNode orderOptions
  split
  · split
    · rfl
    · rfl
  · rfl

/-- The calculations are numbered upwards. -/
lemma Moves.calcNo_le (m : Moves p s e t) : s.calcNo ≤ t.calcNo := by
  cases m with
  | acpTimeout =>
    obtain ⟨boot, flag, mode, cs, ht, -⟩ := timeout_frame s
    exact Nat.le_of_eq (congrArg Sys.calcNo ht).symm
  | begin => exact Nat.le_succ _
  | _ => exact Nat.le_refl _

/-- The steps of a forced round. -/
lemma Moves.forced (m : Moves p s e t) (h : Forced base s) (hheld : Held s) (hround : FirstRound s)
    (hripe : ripe s e = true) : t.calcNo ≠ s.calcNo ∨ t.calcNo = s.calcNo ∧ Forced base t := by
  cases m with
  | msg m => exact .inr ⟨rfl, h.stay rfl rfl rfl rfl rfl (.inl rfl)⟩
  | peers ps => exact .inr ⟨rfl, h.stay rfl rfl rfl rfl rfl (.inl rfl)⟩
  | reply => exact .inr ⟨rfl, h.stay rfl rfl rfl rfl rfl (.inl rfl)⟩
  | acpStop => exact .inr ⟨rfl, h.stay rfl rfl rfl rfl rfl (.inl rfl)⟩
  | acpTimeout =>
    obtain ⟨boot, flag, mode, cs, ht, hmode, -⟩ := timeout_frame s
    rw [ht]
    exact .inr ⟨rfl, h.stay rfl rfl rfl rfl rfl hmode⟩
  | acpUpdate mode malloc heap hd hs hm =>
    -- the mutex is free, so the calculation is over
    have hl : s.pc.locked = false := hheld.unlocked hm
    refine .inr ⟨rfl, ?_⟩
    change ForcedAt base _ s.pc
    cases hpc : s.pc with
    | acpStart => trivial
    | apOk | apOkPipe | setupMatrix | setupColor | freeColor | freeMatrix | resetPower | enter =>
      exact (h.at_pc hpc).elim
    | _ =>
      rw [hpc] at hl
      cases hl
  | begin hc hpc => exact .inl (Nat.succ_ne_self _)
  | drop hc hne hpc => exact .inr ⟨rfl, h.stay rfl rfl rfl rfl rfl (.inl rfl)⟩
  | idle hpc => exact .inr ⟨rfl, h⟩
  | apOkStop hc hpc => exact (h.at_pc hpc).elim
  | apOkRead hc hne hpc => exact (h.at_pc hpc).elim
  | apOkQuiet hpc => exact (h.at_pc hpc).elim
  | noPeer inp hpc => exact (h.at_pc hpc).elim
  | stable inp hpc => exact (h.at_pc hpc).elim
  | unstable inp wait hpc => exact (h.at_pc hpc).elim
  | setupMatrix inp hpc => exact (h.at_pc hpc).elim
  | setupColor inp hpc => exact (h.at_pc hpc).elim
  | freeColor inp hpc => exact (h.at_pc hpc).elim
  | freeMatrix inp hpc => exact (h.at_pc hpc).elim
  | resetPower inp hpc => exact (h.at_pc hpc).elim
  | enter inp hpc => exact (h.at_pc hpc).elim
  | ssppStop hc hpc => exact .inr ⟨rfl, trivial⟩
  | ssppRead hc hne hpc =>
    obtain ⟨h, hlt⟩ := h.at_pc hpc
    exact .inr ⟨rfl, h.keep rfl rfl rfl rfl (.inl rfl), hlt⟩
  | ssppQuiet hpc =>
    obtain ⟨h, hlt⟩ := h.at_pc hpc
    exact .inr ⟨rfl, h.keep rfl rfl rfl rfl (.inl rfl), hlt⟩
  | waitStop hc hpc => exact .inr ⟨rfl, trivial⟩
  | waitReturn hc hpc =>
    have hv : Visited base s _ := h.at_pc hpc
    exact .inr ⟨rfl, hv.keep rfl rfl rfl rfl (.inl rfl)⟩
  | waitOther hc hne hne' hpc =>
    have hv : Visited base s _ := h.at_pc hpc
    exact .inr ⟨rfl, hv.keep rfl rfl rfl rfl (.inl rfl)⟩
  | @waitQuiet row hpc =>
    have hv : Visited base s (row + 1) := h.at_pc hpc
    refine .inr ⟨rfl, hv.congr rfl rfl rfl (count_modifyNode ..) (.inl rfl) ?_⟩
    exact fun i _ => node_modifyNode Node.status
      (f := fun n => { n.clearRfa with scanReturn := .timeout }) (fun _ => rfl) s.head row i
  | lostPeer inp hpc => exact .inr ⟨rfl, trivial⟩
  | updateSP inp hpc =>
    have hv : Visited base s 0 := h.at_pc hpc
    exact .inr ⟨rfl, hv.congr rfl rfl rfl (count_modifyNode ..) (.inl rfl) fun _ hi => by omega⟩
  | updated inp hpc =>
    have hv : Visited base s 0 := h.at_pc hpc
    exact .inr ⟨rfl, hv.keep rfl rfl rfl rfl (.inl rfl)⟩
  | @disabled row inp hpc hr hn =>
    have hv : Visited base s row := h.at_pc hpc
    exact .inr ⟨rfl, hv.pass (by simp) hr rfl rfl rfl rfl rfl (fun _ _ => rfl) hn⟩
  | scanPeerMissing inp hpc => exact .inr ⟨rfl, trivial⟩
  | @operational row q inp hpc hr hn hq ho =>
    have hv : Visited base s row := h.at_pc hpc
    refine .inr ⟨rfl, hv.congr rfl rfl rfl (count_modifyNode ..) (.inl rfl) ?_, ?_⟩
    · exact fun i hi => congrArg Node.status (node_modifyNode_ne _ (Nat.ne_of_gt hi))
    · exact (count_modifyNode ..).symm ▸ hr
  | @notOperational row q inp hpc hr hn hq ho =>
    have hv : Visited base s row := h.at_pc hpc
    refine .inr ⟨rfl, hv.pass (by simp) hr rfl rfl rfl rfl (count_modifyNode ..) ?_ ?_⟩
    · exact fun i hi => congrArg Node.status (node_modifyNode_ne _ (Nat.ne_of_gt hi))
    · rw [Visit.Justified]
      change ((s.head.modifyNode row _).node row).spsWorkState ≠ _
      rw [node_modifyNode_self _ hr]
      exact ho
  | nextRound inp hpc hr hm =>
    rw [hround (by rw [hpc]; rfl), scanCnt] at hm
    omega
  | @scanned row inp hpc hr hm =>
    have hv : Visited base s row := h.at_pc hpc
    have hrow : row = s.head.count := by
      have := hv.le
      omega
    subst hrow
    exact .inr ⟨rfl, hv.keep rfl rfl rfl rfl (.inl rfl)⟩
  | ssppBusy inp hpc =>
    obtain ⟨h, hlt⟩ := h.at_pc hpc
    exact .inr ⟨rfl, h.keep rfl rfl rfl rfl (.inl rfl), hlt⟩
  | ssppTimeout inp hpc =>
    obtain ⟨hv, hlt⟩ := h.at_pc hpc
    refine .inr ⟨rfl, hv.pass (by simp) hlt rfl rfl rfl rfl (count_modifyNode ..) ?_ trivial⟩
    exact fun i hi => congrArg Node.status (node_modifyNode_ne _ (Nat.ne_of_gt hi))
  | ssppCompleted inp hpc =>
    obtain ⟨h, hlt⟩ := h.at_pc hpc
    exact .inr ⟨rfl, h.keep rfl rfl rfl rfl (.inl rfl), hlt⟩
  | send inp hpc =>
    obtain ⟨hv, hlt⟩ := h.at_pc hpc
    exact .inr ⟨rfl, hv.ask hlt⟩
  | skip inp hpc hd =>
    obtain ⟨hv, -⟩ := h.at_pc hpc
    exact (hv.asks hpc hripe hd).elim
  | badMode inp hpc => exact .inr ⟨rfl, trivial⟩
  | @credit row inp hpc =>
    have hv : Visited base s (row + 1) := h.at_pc hpc
    obtain ⟨cell, flag, rf, hf⟩ := creditHead_frame s.head row inp
    refine .inr ⟨rfl, hv.congr rfl rfl rfl ?_ (.inl ?_) ?_⟩
    · dsimp only
      rw [hf]
      exact count_modifyNode ..
    · dsimp only
      rw [hf]
      rfl
    · intro i _
      dsimp only
      rw [hf]
      exact node_modifyNode Node.status
        (f := fun n => { n with scanReturn := .ok, scanTime := inp.now }) (fun _ => rfl) s.head row i
  | @rfa row inp hpc =>
    have hv : Visited base s (row + 1) := h.at_pc hpc
    refine .inr ⟨rfl, hv.congr rfl rfl rfl (count_modifyNode ..) (.inl rfl) ?_⟩
    intro i _
    exact node_modifyNode Node.status (fun n => rfaNode_status _ _ _ n _) _ row i
  | fault inp hpc => exact .inr ⟨rfl, trivial⟩
  | threshold inp hpc hl => exact .inr ⟨rfl, trivial⟩
  | setChannel inp hpc => exact .inr ⟨rfl, trivial⟩
  | restart inp hpc => exact .inr ⟨rfl, trivial⟩

end Forced

/-- The part of the task between `ACP_START` and the scans. -/
def Pc.preparing : Pc → Bool
  | apOk _ | apOkPipe .. | setupMatrix | setupColor | freeColor | freeMatrix | resetPower | enter
  | updateSP _ => true
  | _ => false

/-- The numbers of the calculations that visited an access point. -/
def visitNos (log : List Entry) : List Nat :=
  log.filterMap fun
    | .visited k _ _ => some k
    | _ => none

/-- A calculation that is still preparing has not visited anybody. -/
structure Fresh (s : Sys) : Prop where
  le : ∀ n ∈ visitNos s.log, n ≤ s.calcNo
  unvisited : s.pc.preparing = true → s.calcNo ∉ visitNos s.log

section Fresh

variable {p : Platform} {s t : Sys} {e : Event}

/-- The numbers in a longer log. -/
@[simp]
lemma visitNos_append (l l' : List Entry) : visitNos (l ++ l') = visitNos l ++ visitNos l' :=
  List.filterMap_append ..

/-- A number that is not in the log has no visits. -/
lemma visits_of_unvisited (h : s.calcNo ∉ visitNos s.log) : s.visits = [] := by
  unfold Sys.visits visitsOf
  rw [List.filterMap_eq_nil_iff]
  intro x hx
  cases x with
  | visited k row v =>
    have hk : k ∈ visitNos s.log := List.mem_filterMap.2 ⟨_, hx, rfl⟩
    have hne : k ≠ s.calcNo := fun he => h (he ▸ hk)
    exact if_neg hne
  | _ => rfl

/-- A step without a visit. -/
lemma Fresh.keep (h : Fresh s) (hn : t.calcNo = s.calcNo) (hl : visitNos t.log = visitNos s.log)
    (hp : t.pc.preparing = true → s.pc.preparing = true) : Fresh t := by
  refine ⟨?_, ?_⟩
  · rw [hn, hl]
    exact h.le
  · rw [hn, hl]
    exact fun ht => h.unvisited (hp ht)

/-- A step with a visit, of the calculation that is running. -/
lemma Fresh.visit {row : Nat} {v : Visit} (h : Fresh s) (hn : t.calcNo = s.calcNo)
    (hl : t.log = s.log ++ [.visited s.calcNo row v]) (hp : t.pc.preparing = false) : Fresh t := by
  refine ⟨?_, fun ht => by rw [hp] at ht; cases ht⟩
  intro n hin
  rw [hl, visitNos_append] at hin
  rcases List.mem_append.1 hin with hin | hin
  · exact hn ▸ h.le n hin
  · rw [hn]
    exact Nat.le_of_eq (List.mem_singleton.1 hin)

/-- Every step keeps the numbers of the visits apart. -/
lemma Moves.fresh (m : Moves p s e t) (h : Fresh s) : Fresh t := by
  cases m with
  | acpUpdate mode malloc heap hd hs hm =>
    refine h.keep rfl ?_ id
    simp only [Sys.handle, visitNos_append]
    cases requestOf _ s.head with
    | none => simp [visitNos]
    | some r => simp [visitNos]
  | acpTimeout =>
    obtain ⟨boot, flag, mode, cs, ht, -⟩ := timeout_frame s
    rw [ht]
    exact h.keep rfl rfl id
  | begin hc hpc =>
    have hlog : visitNos (s.log ++ [.began (s.calcNo + 1)]) = visitNos s.log := by
      simp [visitNos]
    refine ⟨?_, ?_⟩
    · intro n hin
      rw [hlog] at hin
      exact Nat.le_succ_of_le (h.le n hin)
    · intro _ hin
      rw [hlog] at hin
      exact absurd (h.le _ hin) (Nat.not_succ_le_self _)
  | disabled => exact h.visit rfl rfl rfl
  | notOperational => exact h.visit rfl rfl rfl
  | ssppTimeout => exact h.visit rfl rfl rfl
  | send => exact h.visit rfl rfl rfl
  | skip => exact h.visit rfl rfl rfl
  | setChannel inp hpc =>
    refine h.keep rfl ?_ nofun
    have hnone : ∀ l : List Assignment, visitNos (l.map Entry.assigned) = [] := by
      intro l
      simp [visitNos]
    simp [hnone]
  | updated => exact h.keep rfl rfl nofun
  | _ =>
    refine h.keep rfl (by first | rfl | simp [visitNos]) ?_
    intro ht
    first
    | exact Bool.noConfusion ht
    | simp_all only [Pc.preparing]

/-- In every run. -/
lemma fresh {P : Sys → Event → Prop} {s₀ s : Sys} (h₀ : Initial s₀) (r : Reach (step p) P s₀ s) :
    Fresh s := by
  refine r.invariant (I := Fresh) ?_ fun _ _ _ hi _ hs => (step_moves hs).fresh hi
  obtain ⟨peers, heap, rfl⟩ := h₀
  exact ⟨nofun, nofun⟩

end Fresh

/-- In every run that is ripe from the moment on when a calculation has taken the mutex in
`SCANMOED_FORCE_ALL_SP_SCAN`, at the end of the scan round `SP_PROVISION_SCAN` was written, once for
each of `rows`, and these are all positions of access points with DCA enabled, operational and with
their last SSPP command completed in time. -/
theorem forced_scan_reaches_all (p : Platform) (s₀ s₁ s : Sys) (h₀ : Initial s₀)
    (r₀ : Reach (step p) (fun _ _ => True) s₀ s₁) (hpc₁ : s₁.pc = .updateSP 0)
    (hforce : s₁.head.spScanMode = .forceAllSpScan)
    (r : Reach (step p) (fun s e => ripe s e = true) s₁ s) (hno : s.calcNo = s₁.calcNo)
    (hpc : s.pc = .threshold) :
    ∃ rows : List Nat, rows.Nodup ∧ s.guiPipe = s₁.guiPipe ++ rows.map s.head.scanRequest ∧
      ∀ i < s.head.count, (s.head.node i).nEnableDCA ≠ 0 →
        (s.head.node i).spsWorkState = .operational → (i, .ssppTimeout) ∉ s.visits → i ∈ rows := by
  have hstart : Forced s₁.guiPipe s₁ := by
    have hnone := visits_of_unvisited ((fresh h₀ r₀).unvisited (by rw [hpc₁]; rfl))
    have hasked : s₁.asked = [] := by rw [Sys.asked, hnone]; rfl
    rw [Forced, hpc₁]
    refine ⟨by rw [hnone]; rfl, by rw [hnone]; nofun, ?_, fun _ => hforce, Nat.zero_le _⟩
    rw [hasked, List.map_nil, List.append_nil]
  -- up to the next calculation the round stays forced
  have hinv : Held s ∧ FirstRound s ∧ s₁.calcNo ≤ s.calcNo ∧
      (s.calcNo = s₁.calcNo → Forced s₁.guiPipe s) := by
    refine r.invariant (I := fun s => Held s ∧ FirstRound s ∧ s₁.calcNo ≤ s.calcNo ∧
      (s.calcNo = s₁.calcNo → Forced s₁.guiPipe s))
      ⟨held h₀ r₀, firstRound h₀ r₀, Nat.le_refl _, fun _ => hstart⟩ ?_
    rintro t e u ⟨hh, hf, hle, hi⟩ hr hs
    have m := step_moves hs
    have hmono : t.calcNo ≤ u.calcNo := m.calcNo_le
    refine ⟨m.lockMove.held hh, m.firstRound hf, Nat.le_trans hle hmono, ?_⟩
    intro hu
    have ht : t.calcNo = s₁.calcNo := by omega
    rcases m.forced (hi ht) hh hf hr with hne | ⟨-, h⟩
    · omega
    · exact h
  have hv : Visited s₁.guiPipe s s.head.count := (hinv.2.2.2 hno).at_pc hpc
  refine ⟨s.asked, ?_, hv.sent, ?_⟩
  · have hsub := (List.filter_sublist (p := fun v => v.2 = .requested) (l := s.visits)).map Prod.fst
    rw [hv.rows] at hsub
    exact hsub.nodup List.nodup_range
  · intro i hi hen hop hto
    obtain ⟨v, hin, rfl⟩ : ∃ v ∈ s.visits, v.1 = i := by
      rw [← List.mem_map, hv.rows]
      exact List.mem_range.2 hi
    -- the other reasons not to ask it are excluded
    have hwhy := hv.why v hin
    obtain ⟨i, v⟩ := v
    cases v with
    | disabled => exact (hen hwhy).elim
    | notOperational => exact (hwhy hop).elim
    | skipped => exact hwhy.elim
    | ssppTimeout => exact (hto hin).elim
    | requested => exact List.mem_map.2 ⟨_, List.mem_filter.2 ⟨hin, rfl⟩, rfl⟩

/-- Two access points are asked and answer, from the point where the calculation has the mutex to the
end of its scan round. -/
def Event.bothScanned : List Event :=
  List.replicate 6 (Event.calcRun .sample) ++ [Event.reply 0, .calcRead] ++
    List.replicate 5 (Event.calcRun .sample) ++ [Event.reply 1, .calcRead] ++
    List.replicate 3 (Event.calcRun .sample)

/-- Two access points, both asked and both answering. -/
theorem forced_scan_reaches_both :
    ∃ s₁ s, run (step .sample) (Sys.init [.sample 1, .sample 2] fun _ => default)
        (Event.boot ++ [.calcRun .sample]) = some s₁ ∧
      runIf (step .sample) ripe s₁ Event.bothScanned = some s ∧
      ∃ rows : List Nat, rows.Nodup ∧ s.guiPipe = s₁.guiPipe ++ rows.map s.head.scanRequest ∧
        ∀ i < s.head.count, (s.head.node i).nEnableDCA ≠ 0 →
          (s.head.node i).spsWorkState = .operational → (i, .ssppTimeout) ∉ s.visits → i ∈ rows := by
  have h₁ : (run (step .sample) (Sys.init [.sample 1, .sample 2] fun _ => default)
      (Event.boot ++ [.calcRun .sample])).map
        (fun s₁ => (s₁.pc, s₁.head.spScanMode, (runIf (step .sample) ripe s₁ Event.bothScanned).map
          fun s => (s.pc, s.calcNo == s₁.calcNo))) =
      some (.updateSP 0, .forceAllSpScan, some (.threshold, true)) := by decide
  obtain ⟨s₁, hs₁, h₁⟩ := Option.map_eq_some_iff.1 h₁
  simp only [Prod.mk.injEq] at h₁
  obtain ⟨hpc₁, hforce, h⟩ := h₁
  obtain ⟨s, hs, h⟩ := Option.map_eq_some_iff.1 h
  simp only [Prod.mk.injEq, beq_iff_eq] at h
  exact ⟨s₁, s, hs₁, hs, forced_scan_reaches_all .sample _ s₁ s ⟨_, _, rfl⟩ (.of_run hs₁) hpc₁ hforce
    (.of_runIf hs fun _ _ _ h => h) h.2 h.1⟩

/-- The first calculation is completed, then the GUI asks for a calculation in which all access
points are forced to scan. -/
def Event.forcedAgain : List Event :=
  Event.boot ++ [Event.calcRun .sample] ++ Event.bothScanned ++ List.replicate 3 (Event.calcRun .sample) ++
    Event.handled .spStartAutoChannel 1 ++ [Event.calcRead, .calcRead] ++
    List.replicate 5 (Event.calcRun .sample)

/-- The scan round of the second calculation, the first access point answering. -/
def Event.oneScanned : List Event :=
  List.replicate 6 (Event.calcRun .sample) ++ [Event.reply 2, .calcRead] ++
    List.replicate 6 (Event.calcRun .sample)

/-- The second calculation begins in `SCANMOED_FORCE_ALL_SP_SCAN` and passes over its second access
point: it is enabled and operational, and no further request is written. -/
theorem forced_scan_passes_over :
    (run (step .sample) (Sys.init [.sample 1, .sample 2] fun _ => default) Event.forcedAgain).map
        (fun s => (s.pc, s.head.spScanMode, s.calcNo, s.guiPipe.countP (·.msgCmd = .spProvisionScan)))
        = some (.updateSP 0, .forceAllSpScan, 2, 2) ∧
      (run (step .sample) (Sys.init [.sample 1, .sample 2] fun _ => default)
          (Event.forcedAgain ++ Event.oneScanned)).map
        (fun s => (s.pc, s.calcNo, s.guiPipe.countP (·.msgCmd = .spProvisionScan),
          s.head.slList.map fun n => (n.nEnableDCA, n.spsWorkState))) =
        some (.threshold, 2, 3, [(1, .operational), (1, .operational)]) ∧
      (run (step .sample) (Sys.init [.sample 1, .sample 2] fun _ => default)
          (Event.forcedAgain ++ Event.oneScanned)).map (·.visits) =
        some [(0, .requested), (1, .skipped)] := by
  decide +kernel

end CcodeTest.Dcs
