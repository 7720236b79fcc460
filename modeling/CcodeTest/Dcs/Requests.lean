import CcodeTest.Lib.Ledger
import CcodeTest.Dcs.Lock

/-!
# Requests for a calculation

Each message makes the first task send STOP to the calculating task before it is handled, and asks
for a calculation through `m_channelAssignFlag` or by a START. A request can be lost in two ways: a
STOP that is read in the middle of a calculation breaks it off although nothing else is scheduled,
and a message can leave nothing scheduled, most of all the deletion of a listed access point, which
clears the flag. `heeded` is the condition that this does not happen; in runs that meet it no
request is lost (`requests_served`).

The steps are sorted once by what they do to the pipe, the flag and the history (`ReqMove`); the
invariant `Scheduled` is then followed through these.
-/

namespace CcodeTest.Dcs
open CcodeTest.Lib

/-- What an entry of the log says about requests and calculations. -/
def Entry.note : Entry → Option (Note Request)
  | request r => some (.request r)
  | began k => some (.began k)
  | ended k r => some (.ended k (decide (r ≠ .stopped)))
  | _ => none

def notes (log : List Entry) : List (Note Request) := log.filterMap Entry.note

def Sys.ledger (s : Sys) : Ledger Request := .ofNotes (notes s.log)

/-- The request is still to be heeded: an access point that became operational must still be
listed. -/
def Request.stands (macs : List Mac) : Request → Bool
  | operational mac => macs.contains mac
  | _ => true

/-- The requests that were not served and stand, for a list of addresses. -/
def Sys.owed (s : Sys) (macs : List Mac) : List Request :=
  s.ledger.unserved.filter (·.stands macs)

/-- Where a calculation stands. -/
inductive Phase where
  /-- at `ACP_START` -/
  | idle
  | busy
  /-- at `CALC_RESTART`; `false` after a STOP -/
  | ending (ok : Bool)
deriving DecidableEq, Repr

def Pc.phase : Pc → Phase
  | acpStart => .idle
  | calcRestart r => .ending (decide (r ≠ .stopped))
  | _ => .busy

/-- The commands that are read at `ACP_START` whatever the calculation does: all when it is over,
and else those after the next STOP. -/
def Sys.coming (s : Sys) : List CalcCmd :=
  if s.pc.phase = .busy then s.calcPipe.dropWhile (· ≠ .stopCalc) else s.calcPipe

/-- The calculation has not been broken off, and no request that stands came in after its
beginning. -/
def Sys.current (s : Sys) : Bool :=
  (s.pc.phase = .busy || s.pc.phase = .ending true) &&
    (s.ledger.waiting.filter (·.stands s.head.macs)).isEmpty

/-- A calculation for all requests is under way or will begin. -/
def Sys.due (s : Sys) : Bool := s.coming.contains .startCalc || s.current

/-- The message schedules a calculation, or leaves one due if a request is open. -/
def heededUpdate (s : Sys) (u : Update) : Bool :=
  match u.msg.msgCmd, findSpByMAC s.head.slList u.mac with
  | .spAddNewOne, none =>
    u.malloc || s.channelAssignFlag || s.coming.contains .startCalc
  | .spDelOldOne, some index => s.due || (s.owed (s.head.macs.eraseIdx index)).isEmpty
  | .spStartAutoChannel, _ => true
  | .spChangeIntoOperational, some _ => true
  | _, _ => s.channelAssignFlag || s.due || (s.owed s.head.macs).isEmpty

/-- The steps that lose no request: a STOP breaks off a calculation only if another one is
scheduled, its message is still to be handled, or no request is open; and a message is handled as
in `heededUpdate`. -/
def heeded (s : Sys) : Event → Bool
  | .calcRead =>
    match s.calcPipe with
    | .stopCalc :: cs =>
      s.pc.phase != .busy || s.channelAssignFlag || cs.contains .startCalc || s.stopSent ||
        (s.owed s.head.macs).isEmpty
    | _ => true
  | .acpUpdate mode malloc heap =>
    match s.dynPipe with
    | m :: _ => heededUpdate s ⟨m, mode, malloc, heap⟩
    | [] => true
  | _ => true

section Macs

variable {h h' : Head}

/-- The addresses depend on the nodes only. -/
lemma macs_congr (hc : h'.count = h.count) (hb : ∀ i, (h'.node i).bssid = (h.node i).bssid) :
    h'.macs = h.macs := by
  unfold Head.macs
  apply List.ext_getElem?
  intro i
  have hi := hb i
  simp only [Head.node, List.getD_eq_getElem?_getD, Head.count] at hi hc
  rw [List.getElem?_map, List.getElem?_map]
  by_cases hlt : i < h.slList.length
  · have hlt' : i < h'.slList.length := by omega
    rw [List.getElem?_eq_getElem hlt, List.getElem?_eq_getElem hlt'] at hi ⊢
    exact congrArg some hi
  · rw [List.getElem?_eq_none (by omega), List.getElem?_eq_none (by omega)]

/-- A change of a node that keeps its address keeps all of them. -/
lemma macs_modifyNode (i : Nat) {f : Node → Node} (hf : ∀ n, (f n).bssid = n.bssid) :
    (h.modifyNode i f).macs = h.macs :=
  macs_congr (count_modifyNode ..) fun j => node_modifyNode (·.bssid) hf h i j

/-- Resetting the powers does. -/
lemma macs_resetAllPowers (peers : List Peer) : (resetAllPowers h peers).1.macs = h.macs := by
  have hsame : ∀ {l l' : List Node}, List.Forall₂ Node.SameButPower l l' →
      l'.map (·.bssid) = l.map (·.bssid) := by
    intro l l' hl
    induction hl with
    | nil => rfl
    | cons hn _ ih =>
      unfold Node.SameButPower at hn
      rw [List.map_cons, List.map_cons, ih, hn]
  exact hsame (setPowers_same h.slList peers)

/-- What keeps the nodes keeps their addresses. -/
lemma Kept.macs (k : Kept h h') : h'.macs = h.macs :=
  macs_congr k.count fun i => by rw [k.same i]

/-- The RFA part keeps the address. -/
lemma rfaNode_bssid {lib : RfaLib} (cnt : Nat) (last : Bool) (n : Node) (e : Env) :
    (rfaNode lib h cnt last n e).1.bssid = n.bssid := by
  unfold rfaNode orderOptions
  split
  · split
    · rfl
    · rfl
  · rfl

end Macs

/-- What most steps leave alone. -/
structure SameReq (s t : Sys) : Prop where
  flag : t.channelAssignFlag = s.channelAssignFlag
  stopSent : t.stopSent = s.stopSent
  calcNo : t.calcNo = s.calcNo
  macs : t.head.macs = s.head.macs

/-- What a step does to the requests, the pipe and the calculation. -/
inductive ReqMove (s : Sys) (e : Event) (t : Sys) : Prop where
  | handle {m : Msg} {ms : List Msg} {mode : ScanMode} {malloc : Bool} {heap : Node}
    (he : e = .acpUpdate mode malloc heap) (hd : s.dynPipe = m :: ms) (hs : s.stopSent = true)
    (ht : t = { s.handle ⟨m, mode, malloc, heap⟩ with dynPipe := ms, stopSent := false })
  | stop (hd : s.dynPipe ≠ [])
    (ht : t = { s with calcPipe := s.calcPipe ++ [.stopCalc], stopSent := true })
  | timeout (hs : s.stopSent = false) (ht : t = s.timeout)
  | reply (hc : t.calcPipe = s.calcPipe ++ [.ssppScanReturn]) (hp : t.pc = s.pc)
    (hn : t.log = s.log) (hd : t.dynPipe = s.dynPipe) (f : SameReq s t)
  | begin {cs : List CalcCmd} (hc : s.calcPipe = .startCalc :: cs) (hpc : s.pc = .acpStart)
    (ht : t =
      { s with
        calcPipe := cs, calcNo := s.calcNo + 1, log := s.log ++ [.began (s.calcNo + 1)]
        pc := .apOk maxCheckCnt })
  | drop {c : CalcCmd} {cs : List CalcCmd} (hc : s.calcPipe = c :: cs) (hne : c ≠ .startCalc)
    (hp : s.pc = .acpStart) (ht : t = { s with calcPipe := cs })
  | read {c : CalcCmd} {cs : List CalcCmd} (hc : s.calcPipe = c :: cs) (hne : c ≠ .stopCalc)
    (hp : s.pc.phase = .busy) (hp' : t.pc.phase = .busy) (hc' : t.calcPipe = cs)
    (hn : t.log = s.log) (hd : t.dynPipe = s.dynPipe) (f : SameReq s t)
  | stopped {cs : List CalcCmd} (he : e = .calcRead) (hc : s.calcPipe = .stopCalc :: cs)
    (hp : s.pc.phase = .busy) (hc' : t.calcPipe = cs)
    (hn : t.pc.phase = .ending false ∧ notes t.log = notes s.log ∨
      t.pc.phase = .idle ∧ notes t.log = notes s.log ++ [.ended s.calcNo false])
    (hd : t.dynPipe = s.dynPipe) (f : SameReq s t)
  | leave (hp : s.pc.phase = .busy) (hp' : t.pc.phase = .ending true)
    (hc : t.calcPipe = s.calcPipe) (hn : notes t.log = notes s.log) (hd : t.dynPipe = s.dynPipe)
    (f : SameReq s t)
  | finish {b : Bool} (hp : s.pc.phase = .ending b ∨ s.pc.phase = .busy ∧ b = true)
    (hp' : t.pc.phase = .idle) (hc : t.calcPipe = s.calcPipe)
    (hn : notes t.log = notes s.log ++ [.ended s.calcNo b]) (hd : t.dynPipe = s.dynPipe)
    (f : SameReq s t)
  | keep (hp : t.pc.phase = s.pc.phase) (hc : t.calcPipe = s.calcPipe)
    (hn : notes t.log = notes s.log) (hd : s.dynPipe ≠ [] → t.dynPipe ≠ []) (f : SameReq s t)

section ReqMove

variable {p : Platform} {s t : Sys} {e : Event}

/-- The notes of a longer log. -/
lemma notes_append (l l' : List Entry) : notes (l ++ l') = notes l ++ notes l' :=
  List.filterMap_append ..

/-- A visit is not noted. -/
lemma notes_visited (l : List Entry) (no row : Nat) (v : Visit) :
    notes (l ++ [.visited no row v]) = notes l := by
  rw [notes_append]
  exact List.append_nil _

/-- `checkAPOk` is part of the calculation. -/
lemma phase_afterApOkWait (cnt : Nat) (wait : Bool) : (afterApOkWait cnt wait).phase = .busy := by
  unfold afterApOkWait
  split <;> rfl

/-- Every step is one of these. -/
lemma Moves.reqMove (m : Moves p s e t) : ReqMove s e t := by
  cases m with
  | msg m => exact .keep rfl rfl rfl (by simp) ⟨rfl, rfl, rfl, rfl⟩
  | peers ps => exact .keep rfl rfl rfl id ⟨rfl, rfl, rfl, rfl⟩
  | reply hk hr ha => exact .reply rfl rfl rfl rfl ⟨rfl, rfl, rfl, rfl⟩
  | acpStop hs hd => exact .stop hd rfl
  | acpUpdate mode malloc heap hd hs hm => exact .handle rfl hd hs rfl
  | acpTimeout hs hd => exact .timeout hs rfl
  | begin hc hpc => exact .begin hc hpc rfl
  | drop hc hne hpc => exact .drop hc hne hpc rfl
  | idle hpc => exact .keep rfl rfl rfl id ⟨rfl, rfl, rfl, rfl⟩
  | apOkStop hc hpc =>
    refine .stopped rfl hc (by rw [hpc]; rfl) rfl (.inr ⟨rfl, ?_⟩) rfl ⟨rfl, rfl, rfl, rfl⟩
    exact notes_append ..
  | apOkRead hc hne hpc =>
    exact .read hc hne (by rw [hpc]; rfl) (phase_afterApOkWait ..) rfl rfl rfl ⟨rfl, rfl, rfl, rfl⟩
  | apOkQuiet hpc =>
    exact .keep (by rw [hpc]; exact phase_afterApOkWait ..) rfl rfl id ⟨rfl, rfl, rfl, rfl⟩
  | ssppStop hc hpc =>
    exact .stopped rfl hc (by rw [hpc]; rfl) rfl (.inl ⟨rfl, rfl⟩) rfl ⟨rfl, rfl, rfl, rfl⟩
  | ssppRead hc hne hpc =>
    exact .read hc hne (by rw [hpc]; rfl) rfl rfl rfl rfl ⟨rfl, rfl, rfl, rfl⟩
  | waitStop hc hpc =>
    exact .stopped rfl hc (by rw [hpc]; rfl) rfl (.inl ⟨rfl, rfl⟩) rfl ⟨rfl, rfl, rfl, rfl⟩
  | waitReturn hc hpc =>
    exact .read hc (by simp) (by rw [hpc]; rfl) rfl rfl rfl rfl ⟨rfl, rfl, rfl, rfl⟩
  | waitOther hc hne hne' hpc =>
    exact .read hc hne (by rw [hpc]; rfl) rfl rfl rfl rfl ⟨rfl, rfl, rfl, rfl⟩
  | noPeer inp hpc hn =>
    exact .finish (b := true) (.inr ⟨by rw [hpc]; rfl, rfl⟩) rfl rfl (notes_append ..) rfl
      ⟨rfl, rfl, rfl, rfl⟩
  | stable inp hpc => exact .keep (by rw [hpc]; rfl) rfl rfl id ⟨rfl, rfl, rfl, rfl⟩
  | unstable inp wait hpc => exact .keep (by rw [hpc]; rfl) rfl rfl id ⟨rfl, rfl, rfl, rfl⟩
  | setupMatrix inp hpc =>
    obtain ⟨len, old, a, r, hf⟩ := setupAdjacentAndRSSIMatrix_frame s.head inp.env
    refine .keep ?_ rfl rfl id ⟨rfl, rfl, rfl, ?_⟩
    · simp only [hpc, Sys.goto]
      split <;> rfl
    · simp only [Sys.goto, Sys.setHead, hf]
      rfl
  | setupColor inp hpc =>
    obtain ⟨cs, fc, hf⟩ := setupColorScheme_frame s.head inp.env
    refine .keep ?_ rfl rfl id ⟨rfl, rfl, rfl, ?_⟩
    · simp only [hpc, Sys.goto]
      split <;> rfl
    · simp only [Sys.goto, Sys.setHead, hf]
      rfl
  | freeColor inp hpc =>
    refine .keep (by rw [hpc]; rfl) rfl rfl id ⟨rfl, rfl, rfl, ?_⟩
    simp only [Sys.goto, Sys.setHead, freeColorScheme_frame]
    rfl
  | freeMatrix inp hpc =>
    refine .finish (b := true) (.inr ⟨by rw [hpc]; rfl, rfl⟩) rfl rfl (notes_append ..) rfl
      ⟨rfl, rfl, rfl, ?_⟩
    simp only [Sys.finish, Sys.record, Sys.goto, Sys.setHead, freeAdjacentAndRSSIMatrix_frame]
    rfl
  | resetPower inp hpc =>
    exact .keep (by rw [hpc]; rfl) rfl rfl id ⟨rfl, rfl, rfl, macs_resetAllPowers _⟩
  | enter inp hpc =>
    obtain ⟨th, len, old, a, r, info, he⟩ := @enterHead_frame p s.head inp.env
    refine .keep (by rw [hpc]; rfl) rfl rfl id ⟨rfl, rfl, rfl, ?_⟩
    dsimp only
    rw [he]
    rfl
  | lostPeer inp hpc =>
    exact .leave (by rw [hpc]; rfl) rfl rfl rfl rfl ⟨rfl, rfl, rfl, rfl⟩
  | @updateSP i q inp hpc =>
    refine .keep (by rw [hpc]; rfl) rfl rfl id ⟨rfl, rfl, rfl, ?_⟩
    exact macs_modifyNode i fun _ => rfl
  | updated inp hpc => exact .keep (by rw [hpc]; rfl) rfl rfl id ⟨rfl, rfl, rfl, rfl⟩
  | disabled inp hpc =>
    exact .keep (by rw [hpc]; rfl) rfl (notes_visited ..) id ⟨rfl, rfl, rfl, rfl⟩
  | scanPeerMissing inp hpc =>
    exact .leave (by rw [hpc]; rfl) rfl rfl rfl rfl ⟨rfl, rfl, rfl, rfl⟩
  | operational inp hpc =>
    refine .keep (by rw [hpc]; rfl) rfl rfl id ⟨rfl, rfl, rfl, ?_⟩
    exact macs_modifyNode _ fun _ => rfl
  | notOperational inp hpc =>
    refine .keep (by rw [hpc]; rfl) rfl (notes_visited ..) id ⟨rfl, rfl, rfl, ?_⟩
    exact macs_modifyNode _ fun _ => rfl
  | nextRound inp hpc => exact .keep (by rw [hpc]; rfl) rfl rfl id ⟨rfl, rfl, rfl, rfl⟩
  | scanned inp hpc => exact .keep (by rw [hpc]; rfl) rfl rfl id ⟨rfl, rfl, rfl, rfl⟩
  | ssppBusy inp hpc => exact .keep (by rw [hpc]; rfl) rfl rfl id ⟨rfl, rfl, rfl, rfl⟩
  | ssppQuiet hpc => exact .keep (by rw [hpc]; rfl) rfl rfl id ⟨rfl, rfl, rfl, rfl⟩
  | waitQuiet hpc =>
    refine .keep (by rw [hpc]; rfl) rfl rfl id ⟨rfl, rfl, rfl, ?_⟩
    exact macs_modifyNode _ fun _ => rfl
  | ssppTimeout inp hpc =>
    refine .keep (by rw [hpc]; rfl) rfl (notes_visited ..) id ⟨rfl, rfl, rfl, ?_⟩
    exact macs_modifyNode _ fun _ => rfl
  | ssppCompleted inp hpc => exact .keep (by rw [hpc]; rfl) rfl rfl id ⟨rfl, rfl, rfl, rfl⟩
  | @send row head node inp hpc =>
    refine .keep (by rw [hpc]; rfl) rfl (notes_visited ..) id ⟨rfl, rfl, rfl, ?_⟩
    exact macs_modifyNode (h := { s.head with spScanMode := head }) row fun _ => rfl
  | skip inp hpc =>
    exact .keep (by rw [hpc]; rfl) rfl (notes_visited ..) id ⟨rfl, rfl, rfl, rfl⟩
  | badMode inp hpc =>
    exact .finish (b := true) (.inr ⟨by rw [hpc]; rfl, rfl⟩) rfl rfl (notes_append ..) rfl
      ⟨rfl, rfl, rfl, rfl⟩
  | @credit row inp hpc =>
    obtain ⟨cell, flag, rf, hf⟩ := creditHead_frame s.head row inp
    refine .keep (by rw [hpc]; rfl) rfl rfl id ⟨rfl, rfl, rfl, ?_⟩
    dsimp only
    rw [hf]
    exact macs_modifyNode row fun _ => rfl
  | @rfa row inp hpc =>
    refine .keep (by rw [hpc]; rfl) rfl rfl id ⟨rfl, rfl, rfl, ?_⟩
    exact macs_modifyNode
      (h := { s.head with isNeedDoRfa := needDoRfa s.head inp.scanGCount }) row fun n =>
        rfaNode_bssid _ _ n _
  | fault inp hpc => exact .keep (by rw [hpc]; rfl) rfl rfl id ⟨rfl, rfl, rfl, rfl⟩
  | threshold inp hpc hl =>
    exact .keep (by rw [hpc]; rfl) rfl rfl id ⟨rfl, rfl, rfl, (thresholdLoop_frame hl).1.macs⟩
  | setChannel inp hpc =>
    refine .leave (by rw [hpc]; rfl) rfl rfl ?_ rfl ⟨rfl, rfl, rfl, rfl⟩
    have hnone : ∀ l : List Assignment, notes (l.map Entry.assigned) = [] := by
      intro l
      simp [notes, Entry.note]
    rw [notes_append, hnone, List.append_nil]
  | @restart r inp hpc =>
    exact .finish (b := decide (r ≠ .stopped)) (.inl (by rw [hpc]; rfl)) rfl rfl (notes_append ..)
      rfl ⟨rfl, rfl, rfl, rfl⟩

end ReqMove

section Ledger

variable {s t : Sys}

/-- The ledger depends on the notes only. -/
lemma ledger_congr (h : notes t.log = notes s.log) : t.ledger = s.ledger := by
  rw [Sys.ledger, h, Sys.ledger]

/-- One more note. -/
lemma ledger_note {n : Note Request} (h : notes t.log = notes s.log ++ [n]) :
    t.ledger = s.ledger.note n := by
  rw [Sys.ledger, h, Ledger.ofNotes_append, List.foldl_cons, List.foldl_nil, Sys.ledger]

/-- The ledger when a calculation begins. -/
lemma ledger_began (s : Sys) : Sys.ledger { s with log := s.log ++ [.began (s.calcNo + 1)] } =
    s.ledger.note (.began (s.calcNo + 1)) := ledger_note (notes_append ..)

/-- The ledger after a message. -/
lemma ledger_handle (u : Update) : (s.handle u).ledger =
    { s.ledger with waiting := s.ledger.waiting ++ (requestOf u s.head).toList } := by
  cases hr : requestOf u s.head with
  | none =>
    have hlog : (s.handle u).log = s.log := by simp [Sys.handle, hr]
    rw [ledger_congr (s := s) (by rw [hlog])]
    simp
  | some r =>
    refine (ledger_note (s := s) (n := .request r) ?_).trans rfl
    simp only [Sys.handle, hr]
    exact notes_append ..

end Ledger

/-- The STOP of a message that is still to be handled is in the pipe with no START after it, or it
has been read and no calculation has begun since. -/
def StopOk (s : Sys) : Prop :=
  (∃ a b, s.calcPipe = a ++ .stopCalc :: b ∧ .startCalc ∉ b) ∨
    .startCalc ∉ s.calcPipe ∧ s.pc.phase ≠ .busy

/-- The order of things in the pipes. -/
structure Ordered (s : Sys) : Prop where
  cur : s.ledger.cur = s.calcNo
  unhandled : s.stopSent = true → s.dynPipe ≠ []
  stop : s.stopSent = true → StopOk s
  late : s.pc.phase = .busy → s.ledger.waiting ≠ [] → .stopCalc ∈ s.calcPipe

section Ordered

variable {s t : Sys} {e : Event}

/-- The STOP of a message that is being handled, seen from a calculation in progress. -/
lemma StopOk.mem (h : StopOk s) (hb : s.pc.phase = .busy) : .stopCalc ∈ s.calcPipe := by
  rcases h with ⟨a, b, hc, -⟩ | ⟨-, hne⟩
  · rw [hc]
    simp
  · exact absurd hb hne

/-- An answer behind the STOP. -/
lemma StopOk.append (h : StopOk s) (hc : t.calcPipe = s.calcPipe ++ [.ssppScanReturn])
    (hp : t.pc = s.pc) : StopOk t := by
  rcases h with ⟨a, b, hs, hb⟩ | ⟨hs, hne⟩
  · exact .inl ⟨a, b ++ [.ssppScanReturn], by rw [hc, hs]; simp, by simp [hb]⟩
  · exact .inr ⟨by rw [hc]; simp [hs], by rw [hp]; exact hne⟩

/-- The pipe stays, and no calculation begins. -/
lemma StopOk.congr (h : StopOk s) (hc : t.calcPipe = s.calcPipe)
    (hp : t.pc.phase = .busy → s.pc.phase = .busy) : StopOk t := by
  rcases h with ⟨a, b, hs, hb⟩ | ⟨hs, hne⟩
  · exact .inl ⟨a, b, hc.trans hs, hb⟩
  · exact .inr ⟨by rw [hc]; exact hs, fun hb => hne (hp hb)⟩

/-- One command is read. -/
lemma StopOk.tail {c : CalcCmd} {cs : List CalcCmd} (h : StopOk s) (hc : s.calcPipe = c :: cs)
    (ht : t.calcPipe = cs) (hstop : c = .stopCalc → t.pc.phase ≠ .busy)
    (hbusy : t.pc.phase = .busy → s.pc.phase = .busy ∨ c = .startCalc) : StopOk t := by
  rcases h with ⟨a, b, hs, hb⟩ | ⟨hs, hne⟩
  · cases a with
    | nil =>
      rw [hs, List.nil_append, List.cons.injEq] at hc
      obtain ⟨rfl, rfl⟩ := hc
      exact .inr ⟨by rw [ht]; exact hb, hstop rfl⟩
    | cons x a =>
      rw [hs, List.cons_append, List.cons.injEq] at hc
      exact .inl ⟨a, b, by rw [ht, ← hc.2], hb⟩
  · rw [hc, List.mem_cons, not_or] at hs
    refine .inr ⟨by rw [ht]; exact hs.2, ?_⟩
    intro hb
    rcases hbusy hb with h | h
    · exact hne h
    · exact hs.1 h.symm

/-- A step that leaves the flags and the number of the calculation alone. -/
lemma Ordered.of_same (h : Ordered s) (f : SameReq s t) (hcur : t.ledger.cur = s.ledger.cur)
    (hd : s.dynPipe ≠ [] → t.dynPipe ≠ []) (hstop : StopOk s → StopOk t)
    (hlate : t.pc.phase = .busy → t.ledger.waiting ≠ [] → .stopCalc ∈ t.calcPipe) :
    Ordered t where
  cur := by rw [hcur, f.calcNo, h.cur]
  unhandled ht := hd (h.unhandled (f.stopSent ▸ ht))
  stop ht := hstop (h.stop (f.stopSent ▸ ht))
  late := hlate

/-- Every step keeps the order of messages, STOP and calculations. -/
lemma ReqMove.ordered (m : ReqMove s e t) (h : Ordered s) : Ordered t := by
  have ⟨hcur, hun, hstop, hlate⟩ := h
  cases m with
  | @handle m ms mode malloc heap he hd hs ht =>
    subst ht
    have hl := @ledger_handle s ⟨m, mode, malloc, heap⟩
    refine ⟨(congrArg Ledger.cur hl).trans hcur, nofun, nofun, ?_⟩
    -- the STOP that went ahead of the message has not been read
    intro hb _
    have hmem : .stopCalc ∈ s.calcPipe := (hstop hs).mem hb
    obtain ⟨cs, hp, -⟩ := (updateSPInfo_updates ⟨m, mode, malloc, heap⟩ s.toShared).calcPipe
    simp only [Sys.handle]
    rw [hp]
    exact List.mem_append_left _ hmem
  | stop hd ht =>
    subst ht
    refine ⟨hcur, fun _ => hd, fun _ => .inl ⟨_, _, rfl, nofun⟩, ?_⟩
    intro hb hw
    exact List.mem_append_left _ (hlate hb hw)
  | timeout hs ht =>
    obtain ⟨boot, flag, mode, cs, hf, -⟩ := timeout_frame s
    rw [ht, hf]
    have hs' : s.stopSent ≠ true := by
      rw [hs]
      nofun
    refine ⟨hcur, fun h => absurd h hs', fun h => absurd h hs', ?_⟩
    exact fun hb hw => List.mem_append_left _ (hlate hb hw)
  | reply hc hp hn hd f =>
    have hled : t.ledger = s.ledger := ledger_congr (by rw [hn])
    refine h.of_same f (congrArg Ledger.cur hled) (fun hne => hd ▸ hne) (·.append hc hp) ?_
    rw [hp, hled, hc]
    exact fun hb hw => List.mem_append_left _ (h.late hb hw)
  | begin hc hpc ht =>
    subst ht
    have hled := ledger_began s
    refine ⟨congrArg Ledger.cur hled, hun, ?_, ?_⟩
    · exact fun h => (hstop h).tail hc rfl nofun fun _ => .inr rfl
    · exact fun _ hw => absurd (congrArg Ledger.waiting hled) hw
  | drop hc hne hpc ht =>
    subst ht
    have hidle : s.pc.phase ≠ .busy := by
      rw [hpc]
      nofun
    refine ⟨hcur, hun, ?_, fun hb => absurd hb hidle⟩
    exact fun h => (hstop h).tail hc rfl (fun _ => hidle) fun hb => absurd hb hidle
  | read hc hne hp hp' hc' hn hd f =>
    have hled : t.ledger = s.ledger := ledger_congr (by rw [hn])
    refine h.of_same f (congrArg Ledger.cur hled) (fun hne => hd ▸ hne)
      (·.tail hc hc' (fun he => absurd he hne) fun _ => .inl hp) ?_
    rw [hled, hc']
    intro _ hw
    have hmem := h.late hp hw
    rw [hc] at hmem
    exact (List.mem_cons.1 hmem).resolve_left hne.symm
  | stopped he hc hp hc' hn hd f =>
    have hne : t.pc.phase ≠ .busy := by
      rcases hn with ⟨h, -⟩ | ⟨h, -⟩
      · rw [h]
        nofun
      · rw [h]
        nofun
    refine h.of_same f ?_ (fun hne => hd ▸ hne)
      (·.tail hc hc' (fun _ => hne) fun hb => absurd hb hne) fun hb => absurd hb hne
    rcases hn with ⟨-, hn⟩ | ⟨-, hn⟩
    · rw [ledger_congr hn]
    · rw [ledger_note hn, Ledger.note_cur_ended]
  | leave hp hp' hc hn hd f =>
    have hne : t.pc.phase ≠ .busy := by
      rw [hp']
      nofun
    exact h.of_same f (congrArg Ledger.cur (ledger_congr hn)) (fun hne => hd ▸ hne)
      (·.congr hc fun hb => absurd hb hne) fun hb => absurd hb hne
  | finish hp hp' hc hn hd f =>
    have hne : t.pc.phase ≠ .busy := by
      rw [hp']
      nofun
    refine h.of_same f ?_ (fun hne => hd ▸ hne) (·.congr hc fun hb => absurd hb hne)
      fun hb => absurd hb hne
    rw [ledger_note hn, Ledger.note_cur_ended]
  | keep hp hc hn hd f =>
    refine h.of_same f (congrArg Ledger.cur (ledger_congr hn)) hd
      (·.congr hc fun hb => hp ▸ hb) ?_
    rw [hp, hc, ledger_congr hn]
    exact h.late

end Ordered

/-- As long as a request is open, a calculation for it is scheduled, or the message that stopped the
last one is still to be handled. -/
def Scheduled (s : Sys) : Prop :=
  s.stopSent = true ∨ s.channelAssignFlag = true ∨ s.due = true ∨ s.owed s.head.macs = []

section Scheduled

variable {s t : Sys} {e : Event} {macs : List Mac}

/-- A command in front that is no STOP can be taken off. -/
lemma exists_split_tail {c : CalcCmd} {l a b : List CalcCmd} (hne : c ≠ .stopCalc)
    (hl : c :: l = a ++ .stopCalc :: b) : ∃ a', l = a' ++ .stopCalc :: b := by
  cases a with
  | nil =>
    rw [List.nil_append, List.cons.injEq] at hl
    exact absurd hl.1 hne
  | cons x a =>
    rw [List.cons_append, List.cons.injEq] at hl
    exact ⟨a, hl.2⟩

/-- A START after a STOP. -/
lemma mem_dropWhile {l : List CalcCmd} : .startCalc ∈ l.dropWhile (· ≠ .stopCalc) ↔
    ∃ a b, l = a ++ .stopCalc :: b ∧ .startCalc ∈ b := by
  induction l with
  | nil => simp
  | cons c l ih =>
    by_cases hc : c = .stopCalc
    · subst hc
      rw [List.dropWhile_cons_of_neg (by simp)]
      constructor
      · intro h
        exact ⟨[], l, rfl, (List.mem_cons.1 h).resolve_left nofun⟩
      · rintro ⟨a, b, hl, hb⟩
        rw [hl]
        simp [hb]
    · rw [List.dropWhile_cons_of_pos (by simpa using hc), ih]
      constructor
      · rintro ⟨a, b, rfl, hb⟩
        exact ⟨c :: a, b, rfl, hb⟩
      · rintro ⟨a, b, hl, hb⟩
        obtain ⟨a', ha'⟩ := exists_split_tail hc hl
        exact ⟨a', b, ha', hb⟩

/-- What comes up during a calculation stands behind the STOP. -/
lemma coming_busy (hp : s.pc.phase = .busy) : .startCalc ∈ s.coming ↔
    ∃ a b, s.calcPipe = a ++ .stopCalc :: b ∧ .startCalc ∈ b := by
  rw [Sys.coming, if_pos hp, mem_dropWhile]

/-- Outside a calculation it is the whole pipe. -/
lemma coming_over (hp : s.pc.phase ≠ .busy) : s.coming = s.calcPipe := by
  rw [Sys.coming, if_neg hp]

/-- A START that comes up is in the pipe. -/
lemma mem_of_coming (h : .startCalc ∈ s.coming) : .startCalc ∈ s.calcPipe := by
  unfold Sys.coming at h
  split at h
  · exact (List.dropWhile_sublist _).subset h
  · exact h

/-- A START at the end of the pipe will be read at `ACP_START`, unless a calculation is in progress
that no STOP waits for. -/
lemma coming_start (hc : t.calcPipe = s.calcPipe ++ [.startCalc]) (hp : t.pc = s.pc)
    (hs : s.pc.phase = .busy → .stopCalc ∈ s.calcPipe) : .startCalc ∈ t.coming := by
  by_cases hb : s.pc.phase = .busy
  · rw [coming_busy (by rw [hp]; exact hb), hc]
    obtain ⟨a, b, hl⟩ := List.append_of_mem (hs hb)
    exact ⟨a, b ++ [.startCalc], by rw [hl]; simp, by simp⟩
  · rw [coming_over (by rw [hp]; exact hb), hc]
    simp

/-- A calculation is due when a START comes up or the one running counts. -/
lemma due_iff : s.due = true ↔ .startCalc ∈ s.coming ∨ s.current = true := by
  simp [Sys.due]

/-- The one running counts while no request waits that stands. -/
lemma current_iff : s.current = true ↔ (s.pc.phase = .busy ∨ s.pc.phase = .ending true) ∧
    ∀ r ∈ s.ledger.waiting, r.stands s.head.macs = false := by
  simp [Sys.current]

/-- Nothing is owed when no request that stands is open. -/
lemma owed_eq_nil : s.owed macs = [] ↔ ∀ r ∈ s.ledger.unserved, r.stands macs = false := by
  simp [Sys.owed]

/-- A list with fewer addresses stands for less. -/
lemma stands_mono {macs' : List Mac} (hsub : macs'.Sublist macs) {r : Request}
    (h : r.stands macs = false) : r.stands macs' = false := by
  cases r with
  | operational mac =>
    simp only [Request.stands, List.contains_iff_mem, Bool.eq_false_iff, ne_eq] at h ⊢
    exact fun hm => h (hsub.subset hm)
  | _ => exact h

/-- What `Scheduled` depends on. -/
lemma Scheduled.congr (h : Scheduled s) (f : SameReq s t) (hl : t.ledger = s.ledger)
    (hs : .startCalc ∈ s.coming → .startCalc ∈ t.coming)
    (hp : s.pc.phase = .busy ∨ s.pc.phase = .ending true →
      t.pc.phase = .busy ∨ t.pc.phase = .ending true) : Scheduled t := by
  rcases h with h | h | h | h
  · exact .inl (f.stopSent.trans h)
  · exact .inr (.inl (f.flag.trans h))
  · refine .inr (.inr (.inl ?_))
    rcases due_iff.1 h with h | h
    · exact due_iff.2 (.inl (hs h))
    · obtain ⟨hphase, hw⟩ := current_iff.1 h
      refine due_iff.2 (.inr (current_iff.2 ⟨hp hphase, ?_⟩))
      rw [hl, f.macs]
      exact hw
  · refine .inr (.inr (.inr ?_))
    rw [f.macs, Sys.owed, hl]
    exact h

/-- The calculation ends, and with it the requests of its batch if it was not broken off. -/
lemma Scheduled.finish {b : Bool} (h : Scheduled s) (hcur : s.ledger.cur = s.calcNo)
    (hp : s.pc.phase = .ending b ∨ s.pc.phase = .busy ∧ b = true) (hp' : t.pc.phase = .idle)
    (hc : t.calcPipe = s.calcPipe) (hn : notes t.log = notes s.log ++ [.ended s.calcNo b])
    (f : SameReq s t) : Scheduled t := by
  have hled := ledger_note hn
  rw [← hcur] at hled
  rcases h with h | h | h | h
  · exact .inl (f.stopSent.trans h)
  · exact .inr (.inl (f.flag.trans h))
  · rcases due_iff.1 h with h | h
    · refine .inr (.inr (.inl (due_iff.2 (.inl ?_))))
      rw [coming_over (by rw [hp']; nofun), hc]
      exact mem_of_coming h
    · obtain ⟨hphase, hw⟩ := current_iff.1 h
      have hb : b = true := by
        rcases hp with hp | hp
        · rw [hp] at hphase
          simpa using hphase
        · exact hp.2
      subst hb
      refine .inr (.inr (.inr (owed_eq_nil.2 ?_)))
      rw [hled, Ledger.unserved_ended, f.macs]
      exact hw
  · refine .inr (.inr (.inr (owed_eq_nil.2 ?_)))
    rw [f.macs, hled]
    exact fun r hr => owed_eq_nil.1 h r (Ledger.mem_unserved_ended hr)

/-- A STOP is read in the middle of a calculation. -/
lemma scheduled_stopped {cs : List CalcCmd} (hh : heeded s .calcRead = true)
    (hc : s.calcPipe = .stopCalc :: cs) (hp : s.pc.phase = .busy) (hc' : t.calcPipe = cs)
    (hn : t.pc.phase = .ending false ∧ notes t.log = notes s.log ∨
      t.pc.phase = .idle ∧ notes t.log = notes s.log ++ [.ended s.calcNo false])
    (f : SameReq s t) : Scheduled t := by
  have hsub : ∀ r ∈ t.ledger.unserved, r ∈ s.ledger.unserved := by
    rcases hn with ⟨-, hn⟩ | ⟨-, hn⟩
    · rw [ledger_congr hn]
      exact fun _ => id
    · rw [ledger_note hn]
      exact fun _ => Ledger.mem_unserved_ended
  simp only [heeded, hc, hp, bne_self_eq_false, Bool.false_or, Bool.or_eq_true,
    List.contains_iff_mem, List.isEmpty_iff] at hh
  rcases hh with ((h | h) | h) | h
  · exact .inr (.inl (f.flag.trans h))
  · refine .inr (.inr (.inl (due_iff.2 (.inl ?_))))
    rw [coming_over, hc']
    · exact h
    · rcases hn with ⟨h, -⟩ | ⟨h, -⟩
      · rw [h]
        nofun
      · rw [h]
        nofun
  · exact .inl (f.stopSent.trans h)
  · refine .inr (.inr (.inr (owed_eq_nil.2 ?_)))
    rw [f.macs]
    exact fun r hr => owed_eq_nil.1 h r (hsub r hr)

/-- A message that asks for nothing and leaves a calculation due. -/
lemma scheduled_unasked (hp : t.pc = s.pc) (hc : t.calcPipe = s.calcPipe)
    (hl : t.ledger = s.ledger) (hm : t.head.macs.Sublist s.head.macs)
    (h : t.channelAssignFlag = true ∨ s.due = true ∨ s.owed t.head.macs = []) : Scheduled t := by
  have hcom : t.coming = s.coming := by rw [Sys.coming, hp, hc, Sys.coming]
  rcases h with h | h | h
  · exact .inr (.inl h)
  · refine .inr (.inr (.inl (due_iff.2 ?_)))
    rcases due_iff.1 h with h | h
    · exact .inl (hcom ▸ h)
    · obtain ⟨hphase, hw⟩ := current_iff.1 h
      refine .inr (current_iff.2 ⟨hp ▸ hphase, ?_⟩)
      rw [hl]
      exact fun r hr => stands_mono hm (hw r hr)
  · refine .inr (.inr (.inr ?_))
    rw [Sys.owed, hl]
    exact h

/-- A message that asks for nothing is handled. -/
lemma scheduled_handle_unasked {u : Update} {ms : List Msg} (sh : Shared)
    (hu : (updateSPInfo u s.toShared).1 = sh) (hr : requestOf u s.head = none)
    (hc : sh.calcPipe = s.calcPipe) (hm : sh.head.macs.Sublist s.head.macs)
    (h : sh.channelAssignFlag = true ∨ s.due = true ∨ s.owed sh.head.macs = []) :
    Scheduled { s.handle u with dynPipe := ms, stopSent := false } := by
  have hled := @ledger_handle s u
  rw [hr] at hled
  refine scheduled_unasked (s := s) rfl ?_ ?_ ?_ ?_
  · simp only [Sys.handle, hu]
    exact hc
  · exact hled.trans (by simp)
  · simp only [Sys.handle, hu]
    exact hm
  · simp only [Sys.handle, hu]
    exact h

/-- A message is handled. -/
lemma scheduled_handle {u : Update} {ms : List Msg} (ho : Ordered s) (hs : s.stopSent = true)
    (hh : heededUpdate s u = true) :
    Scheduled { s.handle u with dynPipe := ms, stopSent := false } := by
  unfold heededUpdate at hh
  cases hcmd : u.msg.msgCmd with
  | spAddNewOne =>
    cases hf : findSpByMAC s.head.slList u.mac with
    | none =>
      cases hm : u.malloc with
      | true =>
        refine .inr (.inl ?_)
        simp [Sys.handle, updateSPInfo, hcmd, hf, hm, Shared.add]
      | false =>
        simp only [hcmd, hf, hm, Bool.false_or, Bool.or_eq_true, List.contains_iff_mem] at hh
        have hsame : (updateSPInfo u s.toShared).1 = s.toShared := by
          simp [updateSPInfo, hcmd, hf, hm]
        rcases hh with hh | hh
        · refine .inr (.inl ?_)
          simp only [Sys.handle, hsame]
          exact hh
        · refine .inr (.inr (.inl (due_iff.2 (.inl ?_))))
          simp only [Sys.handle, hsame]
          exact hh
    | some i =>
      simp only [hcmd, hf, Bool.or_eq_true, or_assoc, List.isEmpty_iff] at hh
      exact scheduled_handle_unasked s.toShared (by simp only [updateSPInfo, hcmd, hf])
        (by simp only [requestOf, hcmd, hf]) rfl (.refl _) hh
  | spDelOldOne =>
    cases hf : findSpByMAC s.head.slList u.mac with
    | none =>
      simp only [hcmd, hf, Bool.or_eq_true, or_assoc, List.isEmpty_iff] at hh
      exact scheduled_handle_unasked s.skipSlot (by simp only [updateSPInfo, hcmd, hf])
        (by simp only [requestOf, hcmd]) rfl (.refl _) hh
    | some i =>
      simp only [hcmd, hf, Bool.or_eq_true, List.isEmpty_iff] at hh
      have hmacs : (s.toShared.delete i).head.macs = s.head.macs.eraseIdx i := by
        simp only [Shared.delete, Head.macs]
        exact (List.eraseIdx_map ..).symm
      refine scheduled_handle_unasked (s.toShared.delete i) (by simp only [updateSPInfo, hcmd, hf])
        (by simp only [requestOf, hcmd]) rfl ?_ ?_
      · rw [hmacs]
        exact List.eraseIdx_sublist ..
      · rw [hmacs]
        exact .inr hh
  | spStartAutoChannel =>
    refine .inr (.inr (.inl (due_iff.2 (.inl ?_))))
    refine coming_start (s := s) ?_ rfl fun hb => (ho.stop hs).mem hb
    simp [Sys.handle, updateSPInfo, hcmd, Shared.startCalc]
  | spChangeIntoOperational =>
    cases hf : findSpByMAC s.head.slList u.mac with
    | none =>
      simp only [hcmd, hf, Bool.or_eq_true, or_assoc, List.isEmpty_iff] at hh
      exact scheduled_handle_unasked s.toShared (by simp only [updateSPInfo, hcmd, hf])
        (by simp only [requestOf, hcmd, hf]) rfl (.refl _) hh
    | some i =>
      refine .inr (.inl ?_)
      simp [Sys.handle, updateSPInfo, hcmd, hf, Shared.forceScan]
  | _ =>
    simp only [hcmd, Bool.or_eq_true, or_assoc, List.isEmpty_iff] at hh
    exact scheduled_handle_unasked s.toShared (by simp only [updateSPInfo, hcmd])
      (by simp only [requestOf, hcmd]) rfl (.refl _) hh

/-- The dynamic task gives up waiting for a message. -/
lemma scheduled_timeout (h : Scheduled s) (ho : Ordered s) : Scheduled s.timeout := by
  unfold Sys.timeout
  split
  · exact .inr (.inl rfl)
  · split
    · -- the START goes to the end of the pipe
      by_cases hlate : s.pc.phase = .busy → .stopCalc ∈ s.calcPipe
      · refine .inr (.inr (.inl (due_iff.2 (.inl ?_))))
        exact coming_start (s := s) rfl rfl hlate
      · simp only [Classical.not_imp] at hlate
        have hw : s.ledger.waiting = [] := by
          by_contra hw
          exact hlate.2 (ho.late hlate.1 hw)
        refine .inr (.inr (.inl (due_iff.2 (.inr (current_iff.2 ⟨.inl hlate.1, ?_⟩)))))
        exact fun r hr => absurd (hw ▸ hr : r ∈ []) List.not_mem_nil
    · exact h

/-- Every heeded step keeps open requests scheduled. -/
lemma ReqMove.scheduled (m : ReqMove s e t) (h : Scheduled s) (ho : Ordered s)
    (hh : heeded s e = true) : Scheduled t := by
  cases m with
  | handle he hd hs ht =>
    subst he
    subst ht
    refine scheduled_handle ho hs ?_
    simpa only [heeded, hd] using hh
  | stop hd ht =>
    subst ht
    exact .inl rfl
  | timeout hs ht =>
    subst ht
    exact scheduled_timeout h ho
  | reply hc hp hn hd f =>
    refine h.congr f (ledger_congr (by rw [hn])) ?_ (by rw [hp]; exact id)
    intro hin
    by_cases hb : s.pc.phase = .busy
    · obtain ⟨a, b, hl, hin⟩ := (coming_busy hb).1 hin
      rw [coming_busy (by rw [hp]; exact hb), hc, hl]
      exact ⟨a, b ++ [.ssppScanReturn], by simp, List.mem_append_left _ hin⟩
    · rw [coming_over hb] at hin
      rw [coming_over (by rw [hp]; exact hb), hc]
      exact List.mem_append_left _ hin
  | begin hc hpc ht =>
    subst ht
    have hled := ledger_began s
    refine .inr (.inr (.inl (due_iff.2 (.inr (current_iff.2 ⟨.inl rfl, ?_⟩)))))
    have hw : (s.ledger.note (.began (s.calcNo + 1))).waiting = [] := rfl
    rw [← hled] at hw
    exact fun r hr => absurd (hw ▸ hr) (List.not_mem_nil (a := r))
  | @drop c cs hc hne hpc ht =>
    subst ht
    have hidle : s.pc.phase ≠ .busy := by
      rw [hpc]
      nofun
    refine h.congr ⟨rfl, rfl, rfl, rfl⟩ rfl ?_ id
    rw [coming_over hidle, coming_over (s := { s with calcPipe := cs }) hidle, hc]
    exact fun hin => (List.mem_cons.1 hin).resolve_left hne.symm
  | read hc hne hp hp' hc' hn hd f =>
    refine h.congr f (ledger_congr (by rw [hn])) ?_ (fun _ => .inl hp')
    rw [coming_busy hp, coming_busy hp', hc, hc']
    rintro ⟨a, b, hl, hin⟩
    obtain ⟨a', ha'⟩ := exists_split_tail hne hl
    exact ⟨a', b, ha', hin⟩
  | stopped he hc hp hc' hn hd f =>
    subst he
    exact scheduled_stopped hh hc hp hc' hn f
  | leave hp hp' hc hn hd f =>
    refine h.congr f (ledger_congr hn) ?_ (fun _ => .inr hp')
    rw [coming_over (s := t) (by rw [hp']; nofun), hc]
    exact mem_of_coming
  | finish hp hp' hc hn hd f => exact h.finish ho.cur hp hp' hc hn f
  | keep hp hc hn hd f =>
    refine h.congr f (ledger_congr hn) ?_ (by rw [hp]; exact id)
    rw [Sys.coming, Sys.coming, hp, hc]
    exact id

end Scheduled

/-- Nothing is going on and nothing is scheduled: both pipes are empty, the calculating task waits at
`ACP_START`, and the flags are cleared. -/
structure Quiescent (s : Sys) : Prop where
  calcPipe : s.calcPipe = []
  dynPipe : s.dynPipe = []
  pc : s.pc = .acpStart
  justBoot : s.justBoot = false
  flag : s.channelAssignFlag = false

instance (s : Sys) : Decidable (Quiescent s) :=
  decidable_of_iff (s.calcPipe = [] ∧ s.dynPipe = [] ∧ s.pc = .acpStart ∧ s.justBoot = false ∧
    s.channelAssignFlag = false)
    ⟨fun ⟨hc, hd, hp, hj, hf⟩ => ⟨hc, hd, hp, hj, hf⟩, fun ⟨hc, hd, hp, hj, hf⟩ => ⟨hc, hd, hp, hj, hf⟩⟩

/-- A served history of notes comes from a log in which a calculation begins and ends otherwise than
by a STOP. -/
lemma served_notes {log : List Entry} (h : Served (notes log)) :
    ∃ a k b r, log = a ++ .began k :: b ∧ .ended k r ∈ b ∧ r ≠ .stopped := by
  obtain ⟨a, k, b, hlog, hb⟩ := h
  obtain ⟨la, l, rfl, -, hl⟩ := List.filterMap_eq_append_iff.1 hlog
  obtain ⟨pre, x, lb, rfl, hpre, hx, rfl⟩ := List.filterMap_eq_cons_iff.1 hl
  obtain ⟨y, hy, hend⟩ := List.mem_filterMap.1 hb
  cases x with
  | began k' =>
    cases hx
    cases y with
    | ended k'' r =>
      simp only [Entry.note, Option.some.injEq, Note.ended.injEq, decide_eq_true_eq] at hend
      obtain ⟨rfl, hr⟩ := hend
      exact ⟨la ++ pre, k'', lb, r, by simp, hy, hr⟩
    | _ => cases hend
  | _ => cases hx

/-- No request is lost in runs of heeded steps: in every quiescent state reached, each request that
was handled (an access point that became operational still being listed) was followed by a
calculation that began after it and was not ended by a STOP. -/
theorem requests_served (p : Platform) (s₀ s : Sys) (h₀ : Initial s₀)
    (r : Reach (step p) (fun s e => heeded s e = true) s₀ s) (hq : Quiescent s)
    (before after : List Entry) (q : Request) (hlog : s.log = before ++ .request q :: after)
    (hstands : q.stands s.head.macs = true) :
    ∃ a k b r, after = a ++ .began k :: b ∧ .ended k r ∈ b ∧ r ≠ .stopped := by
  have hinit : Ordered s₀ ∧ Scheduled s₀ := by
    obtain ⟨peers, heap, rfl⟩ := h₀
    exact ⟨⟨rfl, nofun, nofun, nofun⟩, .inr (.inr (.inr rfl))⟩
  have hs : Ordered s ∧ Scheduled s := by
    refine r.invariant (I := fun s => Ordered s ∧ Scheduled s) hinit ?_
    rintro s e t ⟨ho, hs⟩ hh hstep
    have m := (step_moves hstep).reqMove
    exact ⟨m.ordered ho, m.scheduled hs ho hh⟩
  -- nothing is scheduled, so nothing is owed
  have howed : s.owed s.head.macs = [] := by
    obtain ⟨ho, h | h | h | h⟩ := hs
    · exact absurd hq.dynPipe (ho.unhandled h)
    · rw [hq.flag] at h
      cases h
    · have hidle : s.pc.phase = .idle := by rw [hq.pc]; rfl
      rcases due_iff.1 h with h | h
      · have hmem := mem_of_coming h
        rw [hq.calcPipe] at hmem
        cases hmem
      · rw [current_iff, hidle] at h
        simp at h
    · exact h
  refine served_notes ((served_or_unserved (notes before) (notes after) q).resolve_right ?_)
  intro hmem
  have hnotes : notes s.log = notes before ++ .request q :: notes after := by
    rw [hlog, notes_append]
    rfl
  have hfalse := owed_eq_nil.1 howed q (by rw [Sys.ledger, hnotes]; exact hmem)
  rw [hstands] at hfalse
  cases hfalse

/-- The GUI asks for a calculation of one access point; its scan request times out. -/
def Event.guiCalc : List Event :=
  Event.handled .spStartAutoChannel 1 ++ [Event.calcRead, .calcRead] ++
    List.replicate 10 (Event.calcRun .sample) ++ [Event.calcQuiet] ++ List.replicate 4 (Event.calcRun .sample)

/-- One request of the user, served by one calculation. -/
theorem requests_served_guiCalc :
    ∃ s, runIf (step .sample) heeded (Sys.init [.sample 1] fun _ => default) Event.guiCalc = some s ∧
      Quiescent s ∧ ∃ after a k b r, s.log = .request .start :: after ∧ after = a ++ .began k :: b ∧
        .ended k r ∈ b ∧ r ≠ .stopped := by
  have hrun : (runIf (step .sample) heeded (Sys.init [.sample 1] fun _ => default)
      Event.guiCalc).map (fun s => (decide (Quiescent s), s.log)) =
      some (true, [.request .start, .began 1, .visited 1 0 .requested, .ended 1 .completed]) := by
    decide
  obtain ⟨s, hs, h⟩ := Option.map_eq_some_iff.1 hrun
  simp only [Prod.mk.injEq, decide_eq_true_eq] at h
  obtain ⟨hq, hlog⟩ := h
  obtain ⟨a, k, b, r, h⟩ := requests_served .sample _ s ⟨_, _, rfl⟩
    (.of_runIf hs fun _ _ _ h => h) hq [] _ .start hlog rfl
  exact ⟨s, hs, hq, _, a, k, b, r, hlog, h⟩

/-- After a completed calculation an access point is added, and then the other one deleted. -/
def Event.addThenDelete : List Event :=
  Event.wholeCalc ++ Event.handled .spAddNewOne 2 ++ Event.handled .spDelOldOne 1 ++
    [Event.calcRead, .calcRead]

/-- The calculation for an access point that became operational waits for its scan when the access
point is reported a second time as added. -/
def Event.addedTwice : List Event :=
  Event.wholeCalc ++ Event.handled .spChangeIntoOperational 1 ++ [Event.acpTimeout, .calcRead, .calcRead] ++
    List.replicate 10 (Event.calcRun .sample) ++
    [Event.msg ⟨.spAddNewOne, Mac.sample 1⟩, .acpStop, .calcRead, .calcRun .sample,
      .acpUpdate .forceAllSpScan true default]

/-- Both runs end in a quiescent state with a request that is not served: in the first no calculation
began after it, in the second the only one was stopped. -/
theorem requests_lost :
    (run (step .sample) (Sys.init [.sample 1] fun _ => default) Event.addThenDelete).map
        (fun s => (decide (Quiescent s), s.log.drop 3)) =
      some (true, [.request (.added (idToBssid (Mac.sample 2)))]) ∧
    (run (step .sample) (Sys.init [.sample 1] fun _ => default) Event.addedTwice).map
        (fun s => (decide (Quiescent s), s.log.drop 3)) =
      some (true, [.request (.operational (idToBssid (Mac.sample 1))), .began 2,
        .visited 2 0 .requested, .ended 2 .stopped]) := by
  decide

end CcodeTest.Dcs
