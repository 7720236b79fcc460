import CcodeTest.Dcs.System

/-!
# The locks of a calculation

A calculation holds the mutex of `headDCA` from its `enter` to `CALC_RESTART`, and the SDP semaphore
only inside single steps. `LockMove` sorts the steps of the system by what they do to the two
counters; from it follow that the mutex is held wherever the calculation is in its locked part
(`held`), and that at `ACP_START` everything is given back as long as two things do not happen: a
peer missing in `updateSPRelatedInfo`, and a scan decision in an unexpected scan mode
(`acpStart_balanced`).
-/

namespace CcodeTest.Dcs
open CcodeTest.Lib

/-- The part of the task between `enter` and the end of `CALC_RESTART`. -/
def Pc.locked : Pc → Bool
  | updateSP _ | scanNode _ | sspp .. | ssppPipe .. | scanDecide _ | scanWait _ | credit _ | rfa _
  | threshold | setChannel | calcRestart _ | fault => true
  | _ => false

/-- `checkAPOk` runs without the mutex. -/
@[simp]
lemma locked_afterApOkWait (cnt : Nat) (wait : Bool) :
    (afterApOkWait cnt wait).locked = false := by
  unfold afterApOkWait
  split <;> rfl

/-- The scan modes that the scan decision has a branch for. -/
def ScanMode.expected : ScanMode → Bool
  | .allSpScanBasedOnTime | .forceAllSpScan | .noneInitial => true
  | _ => false

/-- The modes the task expects lead to a decision. -/
lemma decideScan_expected {mode : ScanMode} {n : Node} {inp : Input} (h : mode.expected = true) :
    decideScan mode n inp ≠ .invalid := by
  unfold decideScan
  cases mode with
  | allSpScanBasedOnTime =>
    dsimp only
    split
    · split <;> simp
    · simp
  | forceAllSpScan | noneInitial => simp
  | _ => cases h

/-- What a step does to the two locks and to `m_calcTaskRunning`. -/
inductive LockMove (s : Sys) (e : Event) (t : Sys) : Prop where
  | take (h : s.pc = .enter) (ht : t.pc = .updateSP 0)
    (hm : t.head.semMutex = s.head.semMutex + 1) (hs : t.semSdp = s.semSdp)
  | give {r : EndReason} (h : s.pc = .calcRestart r) (ht : t.pc = .acpStart)
    (hm : t.head.semMutex = s.head.semMutex - 1) (hs : t.semSdp = s.semSdp)
    (hr : t.running = false)
  | leak {row : Nat} {inp : Input} (h : s.pc = .scanDecide row) (he : e = .calcRun inp)
    (hd : s.head.spScanMode.expected = false) (ht : t.pc = .acpStart)
    (hm : t.head.semMutex = s.head.semMutex)
  | lostPeer {i : Nat} {inp : Input} (h : s.pc = .updateSP i) (he : e = .calcRun inp)
    (hi : i < s.head.count) (hq : s.head.peer s.peers i = none)
    (ht : t.pc = .calcRestart .peerMissing) (hm : t.head.semMutex = s.head.semMutex)
  | keep (hl : t.pc.locked = s.pc.locked) (hm : t.head.semMutex = s.head.semMutex)
    (hs : t.semSdp = s.semSdp) (hr : t.running = true → s.running = true)

section LockMove

variable {p : Platform} {s t : Sys} {e : Event}

/-- Taking the mutex and updating the matrices leave the rest of the head alone. -/
lemma enterHead_frame (h : Head) (e : Env) : ∃ th len old a r info, enterHead p h e =
    { h with
      semMutex := h.semMutex + 1, roundOfCalc := 0, rssiCurThreshold := th, matrixLen := len
      oldListCount := old, pAdjacentMatrix := a, pRSSIMatrix := r, infoUpdateMatrix := info } := by
  obtain ⟨th, len, old, a, r, info, hu⟩ :=
    updateAdjacentAndRSSIMatrix_frame p { h.protect with roundOfCalc := 0 } e
  unfold enterHead
  dsimp only
  rw [hu]
  split
  · obtain ⟨cell, hc⟩ := memsetRSSIMatrix_frame
      { h.protect with
        roundOfCalc := 0, rssiCurThreshold := th, matrixLen := len, oldListCount := old
        pAdjacentMatrix := a, pRSSIMatrix := r, infoUpdateMatrix := info }
    exact ⟨_, _, _, _, _, _, hc⟩
  · exact ⟨_, _, _, _, _, _, rfl⟩

/-- A result changes its node, the RSSI values and what the RFA part counts, nothing else. -/
lemma creditHead_frame (h : Head) (row : Nat) (inp : Input) : ∃ cell flag rf,
    creditHead h row inp =
      { h.modifyNode row fun n => { n with scanReturn := .ok, scanTime := inp.now } with
        pRSSIMatrix := { h.pRSSIMatrix with cell := cell }, findFlag := flag, rfEvaluate := rf } :=
  traverseResults_frame ..

/-- A message takes the mutex and gives it back. -/
lemma Updates.semMutex {u : Update} {s t : Shared} (h : Updates u s t) :
    t.head.semMutex = s.head.semMutex := by
  cases h <;> rfl

/-- Every step is one of these. -/
lemma Moves.lockMove (m : Moves p s e t) : LockMove s e t := by
  cases m with
  | enter inp hpc =>
    obtain ⟨th, len, old, a, r, info, he⟩ := @enterHead_frame p s.head inp.env
    refine .take hpc rfl ?_ rfl
    dsimp only
    rw [he]
  | restart inp hpc => exact .give hpc rfl rfl rfl rfl
  | badMode inp hpc hd =>
    refine .leak hpc rfl ?_ rfl rfl
    rw [← Bool.not_eq_true]
    exact fun hx => decideScan_expected hx hd
  | lostPeer inp hpc hi hq => exact .lostPeer hpc rfl hi hq rfl rfl
  | acpUpdate mode malloc heap hd hs hm =>
    exact .keep rfl (updateSPInfo_updates _ _).semMutex rfl id
  | acpTimeout =>
    obtain ⟨boot, flag, mode, cs, hs, -⟩ := timeout_frame s
    rw [hs]
    exact .keep rfl rfl rfl id
  | setupMatrix inp hpc =>
    obtain ⟨len, old, a, r, hf⟩ := setupAdjacentAndRSSIMatrix_frame s.head inp.env
    refine .keep ?_ ?_ rfl id
    · simp only [hpc, Sys.goto]
      split <;> rfl
    · simp only [Sys.goto, Sys.setHead, hf]
  | setupColor inp hpc =>
    obtain ⟨cs, fc, hf⟩ := setupColorScheme_frame s.head inp.env
    refine .keep ?_ ?_ rfl id
    · simp only [hpc, Sys.goto]
      split <;> rfl
    · simp only [Sys.goto, Sys.setHead, hf]
  | freeColor inp hpc =>
    exact .keep (by simp [hpc, Pc.locked]) (by simp [freeColorScheme_frame]) rfl id
  | freeMatrix inp hpc =>
    exact .keep (by simp [hpc, Pc.locked]) (by simp [freeAdjacentAndRSSIMatrix_frame]) rfl id
  | @credit row inp hpc =>
    obtain ⟨cell, flag, rf, hf⟩ := creditHead_frame s.head row inp
    refine .keep (by simp [hpc, Pc.locked]) ?_ rfl id
    dsimp only
    rw [hf]
    rfl
  | threshold inp hpc hl =>
    obtain ⟨-, sl, adj, color, cnt, rf, need, round, t, hf⟩ := thresholdLoop_frame hl
    refine .keep (by simp [hpc, Pc.locked]) ?_ rfl id
    simp only [Sys.goto, Sys.setHead, hf]
    rfl
  | scanned inp hpc => exact .keep (by simp [hpc, Pc.locked]) rfl rfl (fun h => by cases h)
  | apOkRead hc hne hpc =>
    refine .keep ?_ rfl rfl id
    rw [hpc]
    exact locked_afterApOkWait ..
  | apOkQuiet hpc =>
    refine .keep ?_ rfl rfl id
    rw [hpc]
    exact locked_afterApOkWait ..
  | _ => exact .keep (by simp_all [Pc.locked, Sys.requestScan]) rfl rfl id

/-- In its locked part the task holds the mutex. -/
def Held (s : Sys) : Prop :=
  0 ≤ s.head.semMutex ∧ (s.pc.locked = true → 1 ≤ s.head.semMutex)

/-- While the mutex is free, the task is outside that part. -/
lemma Held.unlocked (h : Held s) (hm : s.head.semMutex = 0) : s.pc.locked = false := by
  rw [← Bool.not_eq_true]
  intro hl
  have := h.2 hl
  omega

/-- Every step keeps the mutex with the calculation that took it. -/
lemma LockMove.held (m : LockMove s e t) (h : Held s) : Held t := by
  obtain ⟨h0, h1⟩ := h
  cases m with
  | take hpc ht hm hs => exact ⟨by omega, fun _ => by omega⟩
  | give hpc ht hm hs hr =>
    have := h1 (by rw [hpc]; rfl)
    exact ⟨by omega, fun hl => by rw [ht] at hl; cases hl⟩
  | leak hpc he hd ht hm => exact ⟨by omega, fun hl => by rw [ht] at hl; cases hl⟩
  | lostPeer hpc he hi hq ht hm =>
    have := h1 (by rw [hpc]; rfl)
    exact ⟨by omega, fun _ => by omega⟩
  | keep hl hm hs hr =>
    refine ⟨by omega, ?_⟩
    intro hl'
    have := h1 (hl ▸ hl')
    omega

end LockMove

/-- A system in which the tasks have just been spawned. -/
def Initial (s : Sys) : Prop := ∃ peers heap, s = Sys.init peers heap

/-- In the beginning nobody has it. -/
lemma held_init {s : Sys} (h : Initial s) : Held s := by
  obtain ⟨peers, heap, rfl⟩ := h
  exact ⟨Int.le_refl 0, fun hl => by cases hl⟩

/-- The mutex is held in the locked part of every run. -/
lemma held {p : Platform} {P : Sys → Event → Prop} {s₀ s : Sys} (h₀ : Initial s₀)
    (r : Reach (step p) P s₀ s) : Held s :=
  r.invariant (I := Held) (held_init h₀) fun _ _ _ hi _ hs => (step_moves hs).lockMove.held hi

/-- The part of the task in which the access points are scanned. -/
def Pc.scanning : Pc → Bool
  | updateSP _ | scanNode _ | sspp .. | ssppPipe .. | scanDecide _ | scanWait _ | credit _ | rfa _ =>
    true
  | _ => false

/-- There is one round. -/
def FirstRound (s : Sys) : Prop := s.pc.scanning = true → s.head.roundOfCalc = 0

section FirstRound

variable {p : Platform} {s t : Sys} {e : Event}

/-- `checkAPOk` runs before the scan. -/
@[simp]
lemma scanning_afterApOkWait (cnt : Nat) (wait : Bool) :
    (afterApOkWait cnt wait).scanning = false := by
  unfold afterApOkWait
  split <;> rfl

/-- A message does not touch the round. -/
lemma Updates.roundOfCalc {u : Update} {s t : Shared} (h : Updates u s t) :
    t.head.roundOfCalc = s.head.roundOfCalc := by
  cases h <;> rfl

/-- With one scan round the round is 0 wherever nodes are scanned. -/
lemma Moves.firstRound (m : Moves p s e t) (h : FirstRound s) : FirstRound t := by
  intro ht
  cases m with
  | acpUpdate => exact (updateSPInfo_updates _ _).roundOfCalc.trans (h ht)
  | acpTimeout =>
    obtain ⟨boot, flag, mode, cs, hs, -⟩ := timeout_frame s
    rw [hs] at ht ⊢
    exact h ht
  | apOkRead hc hne hpc => simp at ht
  | apOkQuiet hpc => simp at ht
  | setupMatrix inp hpc =>
    simp only [Sys.goto] at ht
    split at ht <;> cases ht
  | setupColor inp hpc =>
    simp only [Sys.goto] at ht
    split at ht <;> cases ht
  | enter inp hpc =>
    obtain ⟨th, len, old, a, r, info, he⟩ := @enterHead_frame p s.head inp.env
    dsimp only
    rw [he]
  -- the round after the first one is past the last
  | nextRound inp hpc hr hm =>
    have h0 := h (by rw [hpc]; rfl)
    rw [h0, scanCnt] at hm
    omega
  | @credit row inp hpc =>
    obtain ⟨cell, flag, rf, hf⟩ := creditHead_frame s.head row inp
    dsimp only
    rw [hf]
    exact h (by rw [hpc]; rfl)
  | _ =>
    first
      | exact h (by simp_all [Pc.scanning])
      | cases ht

/-- In every run. -/
lemma firstRound {P : Sys → Event → Prop} {s₀ s : Sys} (h₀ : Initial s₀)
    (r : Reach (step p) P s₀ s) : FirstRound s := by
  refine r.invariant (I := FirstRound) ?_ fun _ _ _ hi _ hs => (step_moves hs).firstRound hi
  obtain ⟨peers, heap, rfl⟩ := h₀
  exact fun h => by cases h

end FirstRound

/-- The steps that keep the locks balanced: no peer is missing when `updateSPRelatedInfo` looks for
it, and the scan mode is an expected one when a scan is decided on. -/
def orderly (s : Sys) (e : Event) : Bool :=
  match e, s.pc with
  | .calcRun _, .updateSP i => decide (s.head.count ≤ i) || (s.head.peer s.peers i).isSome
  | .calcRun _, .scanDecide _ => s.head.spScanMode.expected
  | _, _ => true

/-- Everything taken by the calculation is given back outside its locked part. -/
structure Balanced (s : Sys) : Prop where
  mutex : s.head.semMutex = if s.pc.locked then 1 else 0
  sdp : s.semSdp = 0
  running : s.running = true → s.pc.locked = true

/-- An orderly step keeps the books of the mutex and the semaphore. -/
lemma LockMove.balanced {s t : Sys} {e : Event} (m : LockMove s e t) (h : Balanced s)
    (ho : orderly s e = true) : Balanced t := by
  obtain ⟨hmutex, hsdp, hrun⟩ := h
  cases m with
  | take hpc ht hm hs =>
    refine ⟨?_, hs.trans hsdp, fun _ => by rw [ht]; rfl⟩
    rw [ht, hm, hmutex, hpc]
    rfl
  | give hpc ht hm hs hr =>
    refine ⟨?_, hs.trans hsdp, fun h => by rw [hr] at h; cases h⟩
    rw [ht, hm, hmutex, hpc]
    rfl
  -- the two steps that lose a lock do not meet the condition
  | leak hpc he hd ht hm =>
    rw [he] at ho
    simp only [orderly, hpc, hd, Bool.false_eq_true] at ho
  | lostPeer hpc he hi hq ht hm =>
    rw [he] at ho
    simp only [orderly, hpc, hq, Option.isSome_none, Bool.or_false, decide_eq_true_eq] at ho
    omega
  | keep hl hm hs hr =>
    refine ⟨?_, hs.trans hsdp, fun h => by rw [hl]; exact hrun (hr h)⟩
    rw [hl, hm, hmutex]

/-- In every run of orderly steps, each time the calculating task is back at `ACP_START` it has
given back the mutex of `headDCA` and the SDP semaphore as often as it took them, and is marked as
not running. -/
theorem acpStart_balanced (p : Platform) (s₀ s : Sys) (h₀ : Initial s₀)
    (r : Reach (step p) (fun s e => orderly s e = true) s₀ s) (hpc : s.pc = .acpStart) :
    s.head.semMutex = 0 ∧ s.semSdp = 0 ∧ s.running = false := by
  have hinit : Balanced s₀ := by
    obtain ⟨peers, heap, rfl⟩ := h₀
    exact ⟨rfl, rfl, fun h => by cases h⟩
  have hb : Balanced s :=
    r.invariant (I := Balanced) hinit fun _ _ _ hi ho hs => (step_moves hs).lockMove.balanced hi ho
  refine ⟨?_, hb.sdp, ?_⟩
  · rw [hb.mutex, hpc]
    rfl
  · rw [← Bool.not_eq_true]
    intro hr
    have hl := hb.running hr
    rw [hpc] at hl
    cases hl

/-- One access point, the first calculation until its scan request times out and the channel is
set. -/
def Event.wholeCalc : List Event :=
  Event.boot ++ List.replicate 6 (Event.calcRun .sample) ++ [Event.calcQuiet] ++
    List.replicate 4 (Event.calcRun .sample)

/-- A whole calculation with one access point. -/
theorem acpStart_balanced_wholeCalc :
    ∃ s, runIf (step .sample) orderly (Sys.init [.sample 1] fun _ => default) Event.wholeCalc =
        some s ∧
      s.pc = .acpStart ∧ s.head.semMutex = 0 ∧ s.semSdp = 0 ∧ s.running = false := by
  have hpc : (runIf (step .sample) orderly (Sys.init [.sample 1] fun _ => default)
      Event.wholeCalc).map (·.pc) = some .acpStart := by decide
  obtain ⟨s, hs, hpc⟩ := Option.map_eq_some_iff.1 hpc
  exact ⟨s, hs, hpc, acpStart_balanced .sample _ s ⟨_, _, rfl⟩ (.of_runIf hs fun _ _ _ h => h) hpc⟩

/-- The peer is deleted after the calculation has taken the mutex. -/
def Event.peerLost : List Event :=
  Event.boot ++ [Event.calcRun .sample, .peers []] ++ List.replicate 2 (Event.calcRun .sample)

/-- The GUI starts a calculation while an invalid scan mode is configured. -/
def Event.invalidMode : List Event :=
  [Event.msg ⟨.spStartAutoChannel, Mac.sample 1⟩, .acpStop, .acpUpdate .invalid true default, .calcRead,
    .calcRead] ++ List.replicate 10 (Event.calcRun .sample)

/-- The first run comes back to `ACP_START` with the SDP semaphore taken once, the second with the
mutex taken once and the task marked as running. -/
theorem acpStart_unbalanced :
    (run (step .sample) (Sys.init [.sample 1] fun _ => default) Event.peerLost).map
        (fun s => (s.pc, s.head.semMutex, s.semSdp, s.running)) = some (.acpStart, 0, 1, false) ∧
      (run (step .sample) (Sys.init [.sample 1] fun _ => default) Event.invalidMode).map
        (fun s => (s.pc, s.head.semMutex, s.semSdp, s.running)) = some (.acpStart, 1, 0, true) := by
  decide

end CcodeTest.Dcs
