import CcodeTest.Lib.Transition
import CcodeTest.Dcs.Matrix
import CcodeTest.Dcs.Peers
import CcodeTest.Dcs.Scan
import CcodeTest.Dcs.SpInfo
import CcodeTest.Dcs.Threshold

/-!
# The two tasks

`autoChannelAndPowerTask` takes messages from the SDP task and the GUI and starts and stops
calculations; `calculateChannelTask` runs them. They share `headDCA` under its mutex and talk
through two pipes, of which each read delivers one message. The system is a step function: an event
says which of the two tasks moves, or what the surroundings do (a message, a change of the peer
list, the answer to a scan), and brings what the code reads from elsewhere in that step.

A step of the calculating task is one critical section, or one wait for its pipe. The mutex of
`headDCA` and the SDP semaphore are counted, since both can be taken again by their holder: the
other task can handle a message, and the peer list can change, only while they are at 0. Reading a
message and handling it is one step of the first task. Writes to a pipe do not fail.

`Moves` lists the steps, one constructor each; every invariant of the following modules is proved by
cases on it.
-/

namespace CcodeTest.Dcs
open CcodeTest.Lib

/-- How a calculation ended. -/
inductive EndReason where
  | completed
  /-- a STOP command was read -/
  | stopped
  | noApConnected
  | peerMissing
  /-- memory could not be prepared, or the list was empty -/
  | notPrepared
  /-- `headDCA.enum_spScanMode` had none of the expected values -/
  | badScanMode
deriving DecidableEq, Repr

/-- Where `calculateChannelTask` stands. -/
inductive Pc where
  /-- `ACP_START`, waiting for a command -/
  | acpStart
  /-- `checkAPOk` with the remaining number of checks: looking at the peers -/
  | apOk (cnt : Nat)
  /-- `checkAPOk`: waiting for the pipe; some peer is worth waiting for, or not -/
  | apOkPipe (cnt : Nat) (wait : Bool)
  | setupMatrix
  | setupColor
  | freeColor
  | freeMatrix
  | resetPower
  /-- about to take the mutex of `headDCA` for the calculation -/
  | enter
  /-- `updateSPRelatedInfo` at a node -/
  | updateSP (i : Nat)
  /-- the head of the node loop -/
  | scanNode (row : Nat)
  /-- `checkSSPPCompletion` with its counter -/
  | sspp (row cnt : Nat)
  | ssppPipe (row cnt : Nat)
  | scanDecide (row : Nat)
  | scanWait (row : Nat)
  /-- a scan result came in -/
  | credit (row : Nat)
  /-- the RFA part and the option list -/
  | rfa (row : Nat)
  | threshold
  | setChannel
  /-- `CALC_RESTART` -/
  | calcRestart (r : EndReason)
  /-- the task has used a NULL `pScanResultSet` -/
  | fault
deriving DecidableEq, Repr

/-- A request for a calculation. -/
inductive Request where
  | added (mac : Mac)
  | operational (mac : Mac)
  | start
deriving DecidableEq, Repr

/-- What the node loop did with an access point. -/
inductive Visit where
  | disabled
  | notOperational
  | ssppTimeout
  /-- still inside the aging time -/
  | skipped
  /-- `SP_PROVISION_SCAN` was sent -/
  | requested
deriving DecidableEq, Repr

/-- The history of a run; calculations are numbered. -/
inductive Entry where
  | request (r : Request)
  | began (no : Nat)
  | ended (no : Nat) (r : EndReason)
  | visited (no row : Nat) (v : Visit)
  | assigned (a : Assignment)
deriving DecidableEq, Repr

/-- A scan request on its way: to whom, in which calculation, and whether it was answered. -/
structure ScanReq where
  mac : Mac
  no : Nat
  answered : Bool
deriving DecidableEq, Repr

/-- The state of the system. -/
structure Sys extends Shared where
  peers : List Peer
  /-- the pipe to `autoChannelAndPowerTask` -/
  dynPipe : List Msg
  /-- the STOP command for the next message is written, the message not yet read -/
  stopSent : Bool
  pc : Pc
  /-- `m_calcTaskRunning` -/
  running : Bool
  semSdp : Int
  /-- the number of calculations begun -/
  calcNo : Nat
  /-- the scan requests sent so far -/
  scans : List ScanReq
  /-- `pScanResultSet` is not NULL -/
  resultSet : Bool
  /-- everything written to `gPtToGuiMsgFd` -/
  guiPipe : List Msg
  log : List Entry

/-- The state in which the tasks are spawned. -/
def Sys.init (peers : List Peer) (heap : Mac → Node) : Sys where
  head := spInfoInit peers heap Head.init
  justBoot := true
  channelAssignFlag := false
  calcPipe := []
  peers := peers
  dynPipe := []
  stopSent := false
  pc := .acpStart
  running := false
  semSdp := 0
  calcNo := 0
  scans := []
  resultSet := false
  guiPipe := []
  log := []

/-- What a step of the calculating task reads from elsewhere. -/
structure Input where
  /-- the last SSPP command of the access point is still running -/
  busy : Bool
  /-- `time(NULL)` -/
  now : Int
  /-- `getDCAScanAgingTime()`, in minutes -/
  agingTime : Nat
  /-- the scan results of the peer -/
  results : List ScanResult
  /-- `scanGCount` of the set `pScanResultSet` points to -/
  scanGCount : Nat
  env : Env
  /-- how many passes the threshold loop may take in this step -/
  fuel : Nat

/-- The events. -/
inductive Event where
  | msg (m : Msg)
  | peers (ps : List Peer)
  | reply (k : Nat)
  | acpStop
  | acpUpdate (dcaScanMode : ScanMode) (malloc : Bool) (heap : Node)
  | acpTimeout
  /-- the calculating task reads one command -/
  | calcRead
  /-- its `select` returns without one: timeout or error -/
  | calcQuiet
  | calcRun (inp : Input)

/-- The allocations of a step of the calculating task succeed. -/
def Event.plenty : Event → Prop
  | .calcRun inp => inp.env.plenty
  | _ => True

/-- `scanCnt`, the number of scan rounds. -/
def scanCnt : Nat := 1

/-- The bound on the checks of `checkAPOk`. -/
def maxCheckCnt : Nat := 30

/-- The work states `checkAPOk` waits for. -/
def WorkState.worthWaiting : WorkState → Bool
  | .unprovisioned | .provisioning | .updatingFirmware | .rebooting | .scanning
  | .downloadingFirmware | .writingFirmware => true
  | _ => false

/-! Building blocks of the steps. -/

@[simp]
def Sys.goto (s : Sys) (pc : Pc) : Sys := { s with pc := pc }

@[simp]
def Sys.setHead (s : Sys) (h : Head) : Sys := { s with head := h }

@[simp]
def Sys.record (s : Sys) (e : Entry) : Sys := { s with log := s.log ++ [e] }

/-- Back to `ACP_START`. -/
@[simp]
def Sys.finish (s : Sys) (r : EndReason) : Sys :=
  (s.record (.ended s.calcNo r)).goto .acpStart

/-- `NEXT_NODE`, after something was done about the node at `row`. -/
@[simp]
def Sys.nextNode (s : Sys) (row : Nat) (v : Visit) : Sys :=
  (s.record (.visited s.calcNo row v)).goto (.scanNode (row + 1))

@[simp]
def Sys.onNode (s : Sys) (row : Nat) (f : Node → Node) : Sys := s.setHead (s.head.modifyNode row f)

/-- `memset( &pACPNode->s_rfa, 0x00, sizeof(pACPNode->s_rfa) )`. -/
def Node.clearRfa (n : Node) : Node := { n with rfa := .zero }

/-- The request a message stands for, if it is one. -/
def requestOf (u : Update) (h : Head) : Option Request :=
  match u.msg.msgCmd, findSpByMAC h.slList u.mac with
  | .spAddNewOne, none => some (.added u.mac)
  | .spStartAutoChannel, _ => some .start
  | .spChangeIntoOperational, some _ => some (.operational u.mac)
  | _, _ => none

/-- Handle a message and note the request it stands for. -/
def Sys.handle (s : Sys) (u : Update) : Sys :=
  { s with
    toShared := (updateSPInfo u s.toShared).1
    log := s.log ++ ((requestOf u s.head).map Entry.request).toList }

/-- The branch for a timeout of `select` in `autoChannelAndPowerTask`. -/
def Sys.timeout (s : Sys) : Sys :=
  if s.justBoot then
    { s with
      justBoot := false
      channelAssignFlag := true
      head := { s.head with spScanMode := .forceAllSpScan } }
  else if s.channelAssignFlag then
    { s with channelAssignFlag := false, calcPipe := s.calcPipe ++ [.startCalc] }
  else s

/-- `checkAPOk` goes on after a wait of its pipe without STOP. -/
def afterApOkWait (cnt : Nat) (wait : Bool) : Pc :=
  if wait ∧ cnt - 1 ≠ 0 then .apOk (cnt - 1) else .setupMatrix

/-- The decision about a scan of the node. -/
inductive Decision where
  | send (head : ScanMode) (node : ScanMode)
  | skip
  | invalid
deriving DecidableEq, Repr

/-- The aging time of the node's last scan is over. -/
def Node.aged (n : Node) (inp : Input) : Bool :=
  decide ((abs32 (inp.now - n.scanTime) : Int) > toInt32 (inp.agingTime * 60))

/-- Whether to scan, from the scan modes of the list and of the node; `send` carries what the two
modes are set to. -/
def decideScan (mode : ScanMode) (n : Node) (inp : Input) : Decision :=
  match mode with
  | .allSpScanBasedOnTime =>
    if n.spScanMode = .thisSpScanBasedOnTime then
      if n.aged inp then .send mode n.spScanMode else .skip
    else .send mode .thisSpScanBasedOnTime
  | .forceAllSpScan | .noneInitial => .send .allSpScanBasedOnTime .thisSpScanBasedOnTime
  | _ => .invalid

/-- Write the scan request for the node and wait for its answer. -/
def Sys.requestScan (s : Sys) (row : Nat) (head node : ScanMode) : Sys :=
  let id := bssidToId (s.head.node row).bssid
  let h := { s.head with spScanMode := head }
  { s with
    head := h.modifyNode row fun n => { n with spScanMode := node, scanReturn := .invalid }
    scans := s.scans ++ [⟨id, s.calcNo, false⟩]
    guiPipe := s.guiPipe ++ [⟨.spProvisionScan, id⟩]
    log := s.log ++ [.visited s.calcNo row .requested]
    pc := .scanWait row }

/-- `DCA_DATA_PROTECT` and the update of the matrices at the start of the locked part. -/
def enterHead (p : Platform) (h : Head) (e : Env) : Head :=
  let h := (updateAdjacentAndRSSIMatrix p { h.protect with roundOfCalc := 0 } e).1
  if h.spScanMode = .forceAllSpScan then memsetRSSIMatrix h else h

/-- `SSPP_RETURN_OK` for the node at `row`, and the traversal of its scan results. -/
def creditHead (h : Head) (row : Nat) (inp : Input) : Head :=
  traverseResults (h.modifyNode row fun n => { n with scanReturn := .ok, scanTime := inp.now }) row
    inp.results

/-- The RFA part on the node at `row`. -/
def rfaRow (p : Platform) (h : Head) (row : Nat) (inp : Input) : Head :=
  let h := { h with isNeedDoRfa := needDoRfa h inp.scanGCount }
  let last := decide (scanCnt - 1 = h.roundOfCalc)
  h.modifyNode row fun n => (rfaNode p.toRfaLib h inp.scanGCount last n inp.env).1

/-! The steps of the calculating task. -/

/-- The task reads the command `c`; it is already taken from the pipe. -/
def calcRead (s : Sys) (c : CalcCmd) : Option Sys :=
  match s.pc with
  | .acpStart =>
    if c = .startCalc then
      some ((({ s with calcNo := s.calcNo + 1 } : Sys).record (.began (s.calcNo + 1))).goto
        (.apOk maxCheckCnt))
    else some s
  | .apOkPipe cnt wait =>
    if c = .stopCalc then some (s.finish .stopped) else some (s.goto (afterApOkWait cnt wait))
  | .ssppPipe row cnt =>
    if c = .stopCalc then some (s.goto (.calcRestart .stopped))
    else some (s.goto (.sspp row (cnt + 1)))
  | .scanWait row =>
    if c = .stopCalc then some (s.goto (.calcRestart .stopped))
    else if c = .ssppScanReturn then some (s.goto (.credit row))
    else some (s.goto (.rfa row))
  | _ => none

/-- The task's `select` returns without a command. -/
def calcQuiet (s : Sys) : Option Sys :=
  match s.pc with
  | .acpStart => some s
  | .apOkPipe cnt wait => some (s.goto (afterApOkWait cnt wait))
  | .ssppPipe row cnt => some (s.goto (.sspp row (cnt + 1)))
  | .scanWait row =>
    some ((s.onNode row fun n => { n.clearRfa with scanReturn := .timeout }).goto
      (.scanNode (row + 1)))
  | _ => none

/-- `checkAPOk` looks at the peers. -/
def checkPeers (s : Sys) (cnt : Nat) : Sys :=
  if s.peers = [] then s.finish .noApConnected
  else if s.peers.all fun p => p.spsWorkState = .operational then s.goto .setupMatrix
  else s.goto (.apOkPipe cnt (s.peers.any fun p => p.spsWorkState.worthWaiting))

/-- The head of the node loop for the node at `row`. -/
def visitNode (s : Sys) (row : Nat) : Sys :=
  if (s.head.node row).nEnableDCA = 0 then s.nextNode row .disabled
  else
    match s.head.peer s.peers row with
    | none => s.goto (.calcRestart .peerMissing)
    | some q =>
      let s := s.onNode row fun n => { n with spsWorkState := q.spsWorkState }
      if q.spsWorkState = .operational then s.goto (.sspp row 0)
      else (s.onNode row Node.clearRfa).nextNode row .notOperational

/-- The end of a scan round. -/
def endRound (s : Sys) : Sys :=
  let h := { s.head with roundOfCalc := (s.head.roundOfCalc + 1) % 256 }
  if h.roundOfCalc < scanCnt then (s.setHead h).goto (.scanNode 0)
  else ({ s.setHead h with running := false } : Sys).goto .threshold

/-- A step of the calculating task that does not wait for its pipe. -/
def calcRun (p : Platform) (s : Sys) (inp : Input) : Option Sys :=
  match s.pc with
  | .apOk cnt => some (checkPeers s cnt)
  | .setupMatrix =>
    let r := setupAdjacentAndRSSIMatrix s.head inp.env
    some ((s.setHead r.1).goto (if r.2.1 then .setupColor else .freeColor))
  | .setupColor =>
    let r := setupColorScheme s.head inp.env
    some ((s.setHead r.1).goto (if r.2.1 then .resetPower else .freeColor))
  | .freeColor => some ((s.setHead (freeColorScheme s.head)).goto .freeMatrix)
  | .freeMatrix => some ((s.setHead (freeAdjacentAndRSSIMatrix s.head)).finish .notPrepared)
  | .resetPower =>
    let r := resetAllPowers s.head s.peers
    some (({ s.setHead r.1 with peers := r.2.1, guiPipe := s.guiPipe ++ r.2.2 } : Sys).goto .enter)
  | .enter =>
    some (({ s.setHead (enterHead p s.head inp.env) with running := true } : Sys).goto (.updateSP 0))
  | .updateSP i =>
    if i < s.head.count then
      match s.head.peer s.peers i with
      -- returns 0 without `SDP_RELEASE`
      | none => some (({ s with semSdp := s.semSdp + 1 } : Sys).goto (.calcRestart .peerMissing))
      | some q => some ((s.setHead (updateSPRelatedNode s.head i q)).goto (.updateSP (i + 1)))
    else some (s.goto (.scanNode 0))
  | .scanNode row => some (if row < s.head.count then visitNode s row else endRound s)
  | .sspp row cnt =>
    if inp.busy ∧ cnt < ssppTimeoutCnt then some (s.goto (.ssppPipe row cnt))
    else if cnt ≥ ssppTimeoutCnt then some ((s.onNode row Node.clearRfa).nextNode row .ssppTimeout)
    else some (s.goto (.scanDecide row))
  | .scanDecide row =>
    match decideScan s.head.spScanMode (s.head.node row) inp with
    | .send head node => some (s.requestScan row head node)
    | .skip => some (s.nextNode row .skipped)
    -- `goto ACP_START`, past `CALC_RESTART`
    | .invalid =>
      some ((s.setHead { s.head with spScanMode := .allSpScanBasedOnTime }).finish .badScanMode)
  | .credit row =>
    some (({ s.setHead (creditHead s.head row inp) with resultSet := true } : Sys).goto (.rfa row))
  | .rfa row =>
    if s.resultSet then some ((s.setHead (rfaRow p s.head row inp)).goto (.scanNode (row + 1)))
    else some (s.goto .fault)
  | .threshold =>
    (thresholdLoop p.toRfaLib inp.fuel (Loop.start s.head inp.env)).map fun l =>
      (s.setHead l.head).goto .setChannel
  | .setChannel =>
    let r := setAllChannels s.head s.peers
    some (({ s with
      peers := r.1, guiPipe := s.guiPipe ++ r.2.2, log := s.log ++ r.2.1.map .assigned } : Sys).goto
        (.calcRestart .completed))
  | .calcRestart r => some (({ s.setHead s.head.release with running := false } : Sys).finish r)
  | _ => none

/-- A step of the system. -/
def step (p : Platform) (s : Sys) : Event → Option Sys
  | .msg m => some { s with dynPipe := s.dynPipe ++ [m] }
  | .peers ps => if s.semSdp = 0 then some { s with peers := ps } else none
  | .reply k =>
    match s.scans[k]? with
    | some q =>
      if s.running ∧ q.answered = false then
        some { s with
          scans := s.scans.set k { q with answered := true }
          calcPipe := s.calcPipe ++ [.ssppScanReturn] }
      else none
    | none => none
  | .acpStop =>
    if s.stopSent = false ∧ s.dynPipe ≠ [] then
      some { s with calcPipe := s.calcPipe ++ [.stopCalc], stopSent := true }
    else none
  | .acpUpdate dcaScanMode malloc heap =>
    match s.dynPipe with
    | m :: ms =>
      if s.stopSent ∧ s.head.semMutex = 0 then
        some { s.handle ⟨m, dcaScanMode, malloc, heap⟩ with dynPipe := ms, stopSent := false }
      else none
    | [] => none
  | .acpTimeout => if s.stopSent = false ∧ s.dynPipe = [] then some s.timeout else none
  | .calcRead =>
    match s.calcPipe with
    | c :: cs => calcRead { s with calcPipe := cs } c
    | [] => none
  | .calcQuiet => calcQuiet s
  | .calcRun inp => calcRun p s inp

/-- What can happen, one constructor for each step. -/
inductive Moves (p : Platform) (s : Sys) : Event → Sys → Prop where
  | msg (m : Msg) : Moves p s (.msg m) { s with dynPipe := s.dynPipe ++ [m] }
  | peers (ps : List Peer) (h : s.semSdp = 0) : Moves p s (.peers ps) { s with peers := ps }
  | reply {k : Nat} {q : ScanReq} (hk : s.scans[k]? = some q) (hr : s.running = true)
    (ha : q.answered = false) : Moves p s (.reply k)
      { s with
        scans := s.scans.set k { q with answered := true }
        calcPipe := s.calcPipe ++ [.ssppScanReturn] }
  | acpStop (hs : s.stopSent = false) (hd : s.dynPipe ≠ []) : Moves p s .acpStop
      { s with calcPipe := s.calcPipe ++ [.stopCalc], stopSent := true }
  | acpUpdate {m : Msg} {ms : List Msg} (mode : ScanMode) (malloc : Bool) (heap : Node)
    (hd : s.dynPipe = m :: ms) (hs : s.stopSent = true) (hm : s.head.semMutex = 0) :
    Moves p s (.acpUpdate mode malloc heap)
      { s.handle ⟨m, mode, malloc, heap⟩ with dynPipe := ms, stopSent := false }
  | acpTimeout (hs : s.stopSent = false) (hd : s.dynPipe = []) : Moves p s .acpTimeout s.timeout
  | begin {cs : List CalcCmd} (hc : s.calcPipe = .startCalc :: cs) (hpc : s.pc = .acpStart) :
    Moves p s .calcRead
      { s with
        calcPipe := cs, calcNo := s.calcNo + 1, log := s.log ++ [.began (s.calcNo + 1)]
        pc := .apOk maxCheckCnt }
  | drop {c : CalcCmd} {cs : List CalcCmd} (hc : s.calcPipe = c :: cs) (hne : c ≠ .startCalc)
    (hpc : s.pc = .acpStart) : Moves p s .calcRead { s with calcPipe := cs }
  | idle (hpc : s.pc = .acpStart) : Moves p s .calcQuiet s
  | apOkStop {cs : List CalcCmd} {cnt : Nat} {wait : Bool} (hc : s.calcPipe = .stopCalc :: cs)
    (hpc : s.pc = .apOkPipe cnt wait) :
    Moves p s .calcRead (({ s with calcPipe := cs } : Sys).finish .stopped)
  | apOkRead {c : CalcCmd} {cs : List CalcCmd} {cnt : Nat} {wait : Bool}
    (hc : s.calcPipe = c :: cs) (hne : c ≠ .stopCalc) (hpc : s.pc = .apOkPipe cnt wait) :
    Moves p s .calcRead { s with calcPipe := cs, pc := afterApOkWait cnt wait }
  | apOkQuiet {cnt : Nat} {wait : Bool} (hpc : s.pc = .apOkPipe cnt wait) :
    Moves p s .calcQuiet (s.goto (afterApOkWait cnt wait))
  | ssppStop {cs : List CalcCmd} {row cnt : Nat} (hc : s.calcPipe = .stopCalc :: cs)
    (hpc : s.pc = .ssppPipe row cnt) :
    Moves p s .calcRead { s with calcPipe := cs, pc := .calcRestart .stopped }
  | ssppRead {c : CalcCmd} {cs : List CalcCmd} {row cnt : Nat} (hc : s.calcPipe = c :: cs)
    (hne : c ≠ .stopCalc) (hpc : s.pc = .ssppPipe row cnt) :
    Moves p s .calcRead { s with calcPipe := cs, pc := .sspp row (cnt + 1) }
  | ssppQuiet {row cnt : Nat} (hpc : s.pc = .ssppPipe row cnt) :
    Moves p s .calcQuiet (s.goto (.sspp row (cnt + 1)))
  | waitStop {cs : List CalcCmd} {row : Nat} (hc : s.calcPipe = .stopCalc :: cs)
    (hpc : s.pc = .scanWait row) :
    Moves p s .calcRead { s with calcPipe := cs, pc := .calcRestart .stopped }
  | waitReturn {cs : List CalcCmd} {row : Nat} (hc : s.calcPipe = .ssppScanReturn :: cs)
    (hpc : s.pc = .scanWait row) : Moves p s .calcRead { s with calcPipe := cs, pc := .credit row }
  | waitOther {c : CalcCmd} {cs : List CalcCmd} {row : Nat} (hc : s.calcPipe = c :: cs)
    (hne : c ≠ .stopCalc) (hne' : c ≠ .ssppScanReturn) (hpc : s.pc = .scanWait row) :
    Moves p s .calcRead { s with calcPipe := cs, pc := .rfa row }
  | waitQuiet {row : Nat} (hpc : s.pc = .scanWait row) : Moves p s .calcQuiet
      ((s.onNode row fun n => { n.clearRfa with scanReturn := .timeout }).goto
        (.scanNode (row + 1)))
  | noPeer {cnt : Nat} (inp : Input) (hpc : s.pc = .apOk cnt) (hn : s.peers = []) :
    Moves p s (.calcRun inp) (s.finish .noApConnected)
  | stable {cnt : Nat} (inp : Input) (hpc : s.pc = .apOk cnt) :
    Moves p s (.calcRun inp) (s.goto .setupMatrix)
  | unstable {cnt : Nat} (inp : Input) (wait : Bool) (hpc : s.pc = .apOk cnt) :
    Moves p s (.calcRun inp) (s.goto (.apOkPipe cnt wait))
  | setupMatrix (inp : Input) (hpc : s.pc = .setupMatrix) : Moves p s (.calcRun inp)
      ((s.setHead (setupAdjacentAndRSSIMatrix s.head inp.env).1).goto
        (if (setupAdjacentAndRSSIMatrix s.head inp.env).2.1 then .setupColor else .freeColor))
  | setupColor (inp : Input) (hpc : s.pc = .setupColor) : Moves p s (.calcRun inp)
      ((s.setHead (setupColorScheme s.head inp.env).1).goto
        (if (setupColorScheme s.head inp.env).2.1 then .resetPower else .freeColor))
  | freeColor (inp : Input) (hpc : s.pc = .freeColor) : Moves p s (.calcRun inp)
      ((s.setHead (freeColorScheme s.head)).goto .freeMatrix)
  | freeMatrix (inp : Input) (hpc : s.pc = .freeMatrix) : Moves p s (.calcRun inp)
      ((s.setHead (freeAdjacentAndRSSIMatrix s.head)).finish .notPrepared)
  | resetPower (inp : Input) (hpc : s.pc = .resetPower) : Moves p s (.calcRun inp)
      { s with
        head := (resetAllPowers s.head s.peers).1
        peers := (resetAllPowers s.head s.peers).2.1
        guiPipe := s.guiPipe ++ (resetAllPowers s.head s.peers).2.2
        pc := .enter }
  | enter (inp : Input) (hpc : s.pc = .enter) : Moves p s (.calcRun inp)
      { s with head := enterHead p s.head inp.env, running := true, pc := .updateSP 0 }
  | lostPeer {i : Nat} (inp : Input) (hpc : s.pc = .updateSP i) (hi : i < s.head.count)
    (hq : s.head.peer s.peers i = none) : Moves p s (.calcRun inp)
      { s with semSdp := s.semSdp + 1, pc := .calcRestart .peerMissing }
  | updateSP {i : Nat} {q : Peer} (inp : Input) (hpc : s.pc = .updateSP i) (hi : i < s.head.count)
    (hq : s.head.peer s.peers i = some q) : Moves p s (.calcRun inp)
      ((s.setHead (updateSPRelatedNode s.head i q)).goto (.updateSP (i + 1)))
  | updated {i : Nat} (inp : Input) (hpc : s.pc = .updateSP i) (hi : ¬ i < s.head.count) :
    Moves p s (.calcRun inp) (s.goto (.scanNode 0))
  | disabled {row : Nat} (inp : Input) (hpc : s.pc = .scanNode row) (hr : row < s.head.count)
    (hn : (s.head.node row).nEnableDCA = 0) :
    Moves p s (.calcRun inp) (s.nextNode row .disabled)
  | scanPeerMissing {row : Nat} (inp : Input) (hpc : s.pc = .scanNode row)
    (hr : row < s.head.count) : Moves p s (.calcRun inp) (s.goto (.calcRestart .peerMissing))
  | operational {row : Nat} {q : Peer} (inp : Input) (hpc : s.pc = .scanNode row)
    (hr : row < s.head.count) (hn : (s.head.node row).nEnableDCA ≠ 0)
    (hq : s.head.peer s.peers row = some q) (ho : q.spsWorkState = .operational) :
    Moves p s (.calcRun inp)
      ((s.onNode row fun n => { n with spsWorkState := q.spsWorkState }).goto (.sspp row 0))
  | notOperational {row : Nat} {q : Peer} (inp : Input) (hpc : s.pc = .scanNode row)
    (hr : row < s.head.count) (hn : (s.head.node row).nEnableDCA ≠ 0)
    (hq : s.head.peer s.peers row = some q) (ho : q.spsWorkState ≠ .operational) :
    Moves p s (.calcRun inp)
      ((s.onNode row fun n => { n with spsWorkState := q.spsWorkState, rfa := .zero }).nextNode row
        .notOperational)
  | nextRound {row : Nat} (inp : Input) (hpc : s.pc = .scanNode row) (hr : ¬ row < s.head.count)
    (hm : (s.head.roundOfCalc + 1) % 256 < scanCnt) : Moves p s (.calcRun inp)
      ((s.setHead { s.head with roundOfCalc := (s.head.roundOfCalc + 1) % 256 }).goto (.scanNode 0))
  | scanned {row : Nat} (inp : Input) (hpc : s.pc = .scanNode row) (hr : ¬ row < s.head.count)
    (hm : ¬ (s.head.roundOfCalc + 1) % 256 < scanCnt) : Moves p s (.calcRun inp)
      { s with
        head := { s.head with roundOfCalc := (s.head.roundOfCalc + 1) % 256 }
        running := false, pc := .threshold }
  | ssppBusy {row cnt : Nat} (inp : Input) (hpc : s.pc = .sspp row cnt)
    (hc : cnt < ssppTimeoutCnt) : Moves p s (.calcRun inp) (s.goto (.ssppPipe row cnt))
  | ssppTimeout {row cnt : Nat} (inp : Input) (hpc : s.pc = .sspp row cnt)
    (hc : ssppTimeoutCnt ≤ cnt) :
    Moves p s (.calcRun inp) ((s.onNode row Node.clearRfa).nextNode row .ssppTimeout)
  | ssppCompleted {row cnt : Nat} (inp : Input) (hpc : s.pc = .sspp row cnt)
    (hb : inp.busy = false) : Moves p s (.calcRun inp) (s.goto (.scanDecide row))
  | send {row : Nat} {head node : ScanMode} (inp : Input) (hpc : s.pc = .scanDecide row)
    (hd : decideScan s.head.spScanMode (s.head.node row) inp = .send head node) :
    Moves p s (.calcRun inp) (s.requestScan row head node)
  | skip {row : Nat} (inp : Input) (hpc : s.pc = .scanDecide row)
    (hd : decideScan s.head.spScanMode (s.head.node row) inp = .skip) :
    Moves p s (.calcRun inp) (s.nextNode row .skipped)
  | badMode {row : Nat} (inp : Input) (hpc : s.pc = .scanDecide row)
    (hd : decideScan s.head.spScanMode (s.head.node row) inp = .invalid) :
    Moves p s (.calcRun inp)
      ((s.setHead { s.head with spScanMode := .allSpScanBasedOnTime }).finish .badScanMode)
  | credit {row : Nat} (inp : Input) (hpc : s.pc = .credit row) : Moves p s (.calcRun inp)
      { s with head := creditHead s.head row inp, resultSet := true, pc := .rfa row }
  | rfa {row : Nat} (inp : Input) (hpc : s.pc = .rfa row) : Moves p s (.calcRun inp)
      ((s.setHead (rfaRow p s.head row inp)).goto (.scanNode (row + 1)))
  | fault {row : Nat} (inp : Input) (hpc : s.pc = .rfa row) :
    Moves p s (.calcRun inp) (s.goto .fault)
  | threshold {l : Loop} (inp : Input) (hpc : s.pc = .threshold)
    (hl : thresholdLoop p.toRfaLib inp.fuel (Loop.start s.head inp.env) = some l) :
    Moves p s (.calcRun inp) ((s.setHead l.head).goto .setChannel)
  | setChannel (inp : Input) (hpc : s.pc = .setChannel) : Moves p s (.calcRun inp)
      { s with
        peers := (setAllChannels s.head s.peers).1
        guiPipe := s.guiPipe ++ (setAllChannels s.head s.peers).2.2
        log := s.log ++ (setAllChannels s.head s.peers).2.1.map .assigned
        pc := .calcRestart .completed }
  | restart {r : EndReason} (inp : Input) (hpc : s.pc = .calcRestart r) : Moves p s (.calcRun inp)
      (({ s.setHead s.head.release with running := false } : Sys).finish r)

section StepMoves

variable {p : Platform} {s t : Sys}

/-- The commands that the calculating task reads. -/
lemma calcRead_moves {c : CalcCmd} {cs : List CalcCmd} (hc : s.calcPipe = c :: cs)
    (h : calcRead { s with calcPipe := cs } c = some t) : Moves p s .calcRead t := by
  unfold calcRead at h
  dsimp only at h
  split at h
  · rename_i hpc
    split at h
    · rename_i hs
      cases h
      subst hs
      exact .begin hc hpc
    · rename_i hs
      cases h
      exact .drop hc hs hpc
  · rename_i hpc
    split at h
    · rename_i hs
      cases h
      subst hs
      exact .apOkStop hc hpc
    · rename_i hs
      cases h
      exact .apOkRead hc hs hpc
  · rename_i hpc
    split at h
    · rename_i hs
      cases h
      subst hs
      exact .ssppStop hc hpc
    · rename_i hs
      cases h
      exact .ssppRead hc hs hpc
  · rename_i hpc
    split at h
    · rename_i hs
      cases h
      subst hs
      exact .waitStop hc hpc
    · rename_i hs
      split at h
      · rename_i hr
        cases h
        subst hr
        exact .waitReturn hc hpc
      · rename_i hr
        cases h
        exact .waitOther hc hs hr hpc
  · cases h

/-- Its `select` returns without one. -/
lemma calcQuiet_moves (h : calcQuiet s = some t) : Moves p s .calcQuiet t := by
  unfold calcQuiet at h
  split at h
  · rename_i hpc
    cases h
    exact .idle hpc
  · rename_i hpc
    cases h
    exact .apOkQuiet hpc
  · rename_i hpc
    cases h
    exact .ssppQuiet hpc
  · rename_i hpc
    cases h
    exact .waitQuiet hpc
  · cases h

/-- One check of `checkAPOk`. -/
lemma checkPeers_moves {cnt : Nat} (inp : Input) (hpc : s.pc = .apOk cnt) :
    Moves p s (.calcRun inp) (checkPeers s cnt) := by
  unfold checkPeers
  split
  · rename_i hn
    exact .noPeer inp hpc hn
  · split
    · exact .stable inp hpc
    · exact .unstable inp _ hpc

/-- Two changes of one node are one change. -/
lemma modifyNode_modifyNode (h : Head) (i : Nat) (f g : Node → Node) :
    (h.modifyNode i f).modifyNode i g = h.modifyNode i fun n => g (f n) := by
  unfold Head.modifyNode
  dsimp only
  rw [List.modify_modify_eq]
  rfl

/-- The node loop at a node. -/
lemma visitNode_moves {row : Nat} (inp : Input) (hpc : s.pc = .scanNode row)
    (hr : row < s.head.count) : Moves p s (.calcRun inp) (visitNode s row) := by
  unfold visitNode
  split
  · rename_i hn
    exact .disabled inp hpc hr hn
  · rename_i hn
    split
    · exact .scanPeerMissing inp hpc hr
    · rename_i q hq
      dsimp only
      split
      · rename_i ho
        exact .operational inp hpc hr hn hq ho
      · rename_i ho
        have hm := Moves.notOperational (p := p) inp hpc hr hn hq ho
        rw [Sys.onNode, Sys.onNode, Sys.setHead, Sys.setHead]
        dsimp only
        rw [modifyNode_modifyNode]
        exact hm

/-- The node loop behind the last node. -/
lemma endRound_moves {row : Nat} (inp : Input) (hpc : s.pc = .scanNode row)
    (hr : ¬ row < s.head.count) : Moves p s (.calcRun inp) (endRound s) := by
  unfold endRound
  dsimp only
  split
  · rename_i hm
    exact .nextRound inp hpc hr hm
  · rename_i hm
    exact .scanned inp hpc hr hm

/-- `Moves` covers what the calculating task does between two of its `select`s. -/
lemma calcRun_moves {inp : Input} (h : calcRun p s inp = some t) : Moves p s (.calcRun inp) t := by
  unfold calcRun at h
  dsimp only at h
  cases hpc : s.pc with
  | apOk cnt =>
    simp only [hpc, Option.some.injEq] at h
    subst h
    exact checkPeers_moves inp hpc
  | setupMatrix =>
    simp only [hpc, Option.some.injEq] at h
    subst h
    exact .setupMatrix inp hpc
  | setupColor =>
    simp only [hpc, Option.some.injEq] at h
    subst h
    exact .setupColor inp hpc
  | freeColor =>
    simp only [hpc, Option.some.injEq] at h
    subst h
    exact .freeColor inp hpc
  | freeMatrix =>
    simp only [hpc, Option.some.injEq] at h
    subst h
    exact .freeMatrix inp hpc
  | resetPower =>
    simp only [hpc, Option.some.injEq] at h
    subst h
    exact .resetPower inp hpc
  | enter =>
    simp only [hpc, Option.some.injEq] at h
    subst h
    exact .enter inp hpc
  | updateSP i =>
    simp only [hpc] at h
    split at h
    · rename_i hi
      split at h
      · rename_i hq
        cases h
        exact .lostPeer inp hpc hi hq
      · rename_i hq
        cases h
        exact .updateSP inp hpc hi hq
    · rename_i hi
      cases h
      exact .updated inp hpc hi
  | scanNode row =>
    simp only [hpc, Option.some.injEq] at h
    subst h
    split
    · rename_i hr
      exact visitNode_moves inp hpc hr
    · rename_i hr
      exact endRound_moves inp hpc hr
  | sspp row cnt =>
    simp only [hpc] at h
    split at h
    · rename_i hb
      cases h
      exact .ssppBusy inp hpc hb.2
    · rename_i hb
      split at h
      · rename_i hc
        cases h
        exact .ssppTimeout inp hpc hc
      · rename_i hc
        cases h
        refine .ssppCompleted inp hpc ?_
        have hlt : cnt < ssppTimeoutCnt := Nat.not_le.1 hc
        simpa [hlt] using hb
  | scanDecide row =>
    simp only [hpc] at h
    split at h
    · rename_i hd
      cases h
      exact .send inp hpc hd
    · rename_i hd
      cases h
      exact .skip inp hpc hd
    · rename_i hd
      cases h
      exact .badMode inp hpc hd
  | credit row =>
    simp only [hpc, Option.some.injEq] at h
    subst h
    exact .credit inp hpc
  | rfa row =>
    simp only [hpc] at h
    split at h
    · cases h
      exact .rfa inp hpc
    · cases h
      exact .fault inp hpc
  | threshold =>
    simp only [hpc, Option.map_eq_some_iff] at h
    obtain ⟨l, hl, rfl⟩ := h
    exact .threshold inp hpc hl
  | setChannel =>
    simp only [hpc, Option.some.injEq] at h
    subst h
    exact .setChannel inp hpc
  | calcRestart r =>
    simp only [hpc, Option.some.injEq] at h
    subst h
    exact .restart inp hpc
  | _ =>
    simp only [hpc] at h
    cases h

/-- `Moves` covers every step. -/
lemma step_moves {e : Event} (h : step p s e = some t) : Moves p s e t := by
  cases e with
  | msg m =>
    cases h
    exact .msg m
  | peers ps =>
    simp only [step] at h
    split at h
    · rename_i hs
      cases h
      exact .peers ps hs
    · cases h
  | reply k =>
    simp only [step] at h
    split at h
    · rename_i q hk
      split at h
      · rename_i hr
        cases h
        exact .reply hk hr.1 hr.2
      · cases h
    · cases h
  | acpStop =>
    simp only [step] at h
    split at h
    · rename_i hs
      cases h
      exact .acpStop hs.1 hs.2
    · cases h
  | acpUpdate mode malloc heap =>
    simp only [step] at h
    split at h
    · rename_i hd
      split at h
      · rename_i hs
        cases h
        exact .acpUpdate mode malloc heap hd hs.1 hs.2
      · cases h
    · cases h
  | acpTimeout =>
    simp only [step] at h
    split at h
    · rename_i hs
      cases h
      exact .acpTimeout hs.1 hs.2
    · cases h
  | calcRead =>
    simp only [step] at h
    split at h
    · rename_i hc
      exact calcRead_moves hc h
    · cases h
  | calcQuiet => exact calcQuiet_moves h
  | calcRun inp => exact calcRun_moves h

/-- A timeout changes the two flags and the scan mode of the list, and adds nothing to the pipe
but a START. -/
lemma timeout_frame (s : Sys) : ∃ boot flag mode cs,
    s.timeout =
      { s with
        justBoot := boot, channelAssignFlag := flag, calcPipe := s.calcPipe ++ cs
        head := { s.head with spScanMode := mode } } ∧
    (mode = s.head.spScanMode ∨ mode = .forceAllSpScan) ∧ ∀ c ∈ cs, c = .startCalc := by
  unfold Sys.timeout
  split
  · exact ⟨_, _, _, [], by rw [List.append_nil], .inr rfl, nofun⟩
  · split
    · exact ⟨_, _, _, _, rfl, .inl rfl, fun _ => List.mem_singleton.1⟩
    · exact ⟨_, _, _, [], by rw [List.append_nil], .inl rfl, nofun⟩

end StepMoves

/-! Concrete runs for the witnesses and counterexamples. -/

/-- Nothing is busy, no scan result, an aging time of one minute. -/
def Input.sample : Input := ⟨false, 1000, 1, [], 0, .sample, 1⟩

/-- The sample input never runs out of memory. -/
lemma plenty_sample : Input.sample.env.plenty := fun _ => rfl

/-- Two timeouts after booting start the first calculation; it goes on to the point where it takes
the mutex. -/
def Event.boot : List Event :=
  [Event.acpTimeout, .acpTimeout, .calcRead] ++ List.replicate 4 (Event.calcRun .sample)

/-- A message arrives and is handled. -/
def Event.handled (cmd : MsgCmd) (x : UInt8) : List Event :=
  [Event.msg ⟨cmd, Mac.sample x⟩, .acpStop, .acpUpdate .forceAllSpScan true default]

end CcodeTest.Dcs
