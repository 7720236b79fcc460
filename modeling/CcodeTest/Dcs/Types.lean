import Mathlib.Algebra.Group.Int.Defs
import Mathlib.Algebra.Group.Nat.Defs
import Mathlib.Data.List.Basic
import Mathlib.Logic.Function.Basic

/-!
# Data model of the channel assignment module

The types of `dcs.h` and the parts of the peer list that `dcs.c` reads. Names follow the source
with the prefixes `m_`, `s_` and `enum_` dropped (`m_scanReturn` is `scanReturn`). An `unsigned
char` or `unsigned long` is a natural number, an `int` or `long` an integer; where a conversion or
a wrap-around can show, it is written out. A C array is a map from its index to its content, with
the number of allocated cells beside it where the code keeps track of it.

The second radio of the dual-radio model (`INCLUDE_SONICPOINT_NDR`) and the debug printing
(`DEBUGALL`) are left out; `s_radioInfo` is therefore the radio the assignment works on,
`s_radioInfo[1]`.
-/

namespace CcodeTest.Dcs

/-! The constants of `dcs.h`, under their names there. -/

def rssiThresholdMini : Int := 15
def rssiThresholdMax : Int := 100
def rssiThresholdDelta : Int := 20
def rssiStopInterval : Int := 5
def rssiAcceptableInterval : Nat := 6
def numUsingChannel : Nat := 11
def optionalChannelNum : Nat := 3
def ssppTimeoutCnt : Nat := 15
def maxNumVap : Int := 8

/-- The colour of an access point that gets no channel. -/
def noColor : Nat := 0xff

/-- The value of an integer expression stored in a 32-bit `int`. -/
def toInt32 (x : Int) : Int := x.bmod (2 ^ 32)

/-- `abs` of an `int` expression. -/
def abs32 (x : Int) : Nat := (toInt32 x).natAbs

/-- An integer in the range of `int` is stored as it is. -/
lemma toInt32_of_range {x : Int} (h : -2 ^ 31 ≤ x) (h' : x < 2 ^ 31) : toInt32 x = x := by
  unfold toInt32
  rw [Int.bmod_def]
  omega

/-- The value of an `int` converted to `unsigned long` (of 32 bits or more; no caller passes a
negative one). -/
def toULong (x : Int) : Nat := (x % 2 ^ 32).toNat

/-- A value that is not negative keeps its value as an unsigned one. -/
lemma toULong_of_range {x : Int} (h : 0 ≤ x) (h' : x < 2 ^ 31) : (toULong x : Int) = x := by
  unfold toULong
  omega

/-- A six-byte hardware address. -/
structure Mac where
  b0 : UInt8
  b1 : UInt8
  b2 : UInt8
  b3 : UInt8
  b4 : UInt8
  b5 : UInt8
deriving DecidableEq, Repr, Inhabited

/-- `ID_TO_BSSID`: the last byte goes up by one, modulo 256. -/
def idToBssid (m : Mac) : Mac := { m with b5 := m.b5 + 1 }

/-- `BSSID_TO_ID`. -/
def bssidToId (m : Mac) : Mac := { m with b5 := m.b5 - 1 }

/-- `SCAN_MODE_ENUM`; `other` is any further value that a configuration can store in it. -/
inductive ScanMode where
  | noneInitial
  | forceAllSpScan
  | allSpScanBasedOnTime
  | forceThisSpScan
  | thisSpScanBasedOnTime
  | invalid
  | other (v : Nat)
deriving DecidableEq, Repr, Inhabited

/-- `CHANNEL_STATE_ENUM`. -/
inductive ChannelState where
  | ch24G20MAuto
  | ch24G20MFixed
  | ch24G40MAuto
  | ch24G40MFixed
  | ch5G20MAuto
  | ch5G20MFixed
  | ch5G40MAuto
  | ch5G40MFixed
deriving DecidableEq, Repr, Inhabited

/-- The four `*_AUTO` values. -/
def ChannelState.isAuto : ChannelState → Bool
  | ch24G20MAuto | ch24G40MAuto | ch5G20MAuto | ch5G40MAuto => true
  | _ => false

/-- `SSPP_RETURN_STATE_ENUM`. -/
inductive SsppReturn where
  | invalid
  | ok
  | timeout
deriving DecidableEq, Repr, Inhabited

/-- `SonicPointWorkState`. -/
inductive WorkState where
  | safemode | unprovisioned | provisioning | operational | unresponse | updatingFirmware
  | initializing | overlimit | rebooting | failedProvision | failedFirmware | scanning
  | manufacturing | disable | downloadingFirmware | noFirmware | failedScan | widp | widpTo
  | writingFirmware
deriving DecidableEq, Repr, Inhabited

/-- `SonicPointNMode`; `other` is a mode that `getChNFromPeerList` has no branch for. -/
inductive RadioMode where
  | gOnly24 | aOnly50 | nOnly24 | nMixed24 | nOnly50 | nMixed50 | other
deriving DecidableEq, Repr, Inhabited

/-- `SonicPointNBand`. -/
inductive RadioBand where
  | auto | standard | wide | other
deriving DecidableEq, Repr, Inhabited

/-- `sACPRfa`: score and channel per table position; positions 1 to 11 are used. -/
structure AcpRfa where
  rfScore : Nat → Int
  rfaCh : Nat → Nat

instance : Inhabited AcpRfa := ⟨⟨fun _ => 0, fun _ => 0⟩⟩

/-- The table after `memset( &s_rfa, 0x00, sizeof(s_rfa) )`. -/
def AcpRfa.zero : AcpRfa := ⟨fun _ => 0, fun _ => 0⟩

/-- `sRadioInfo`. -/
structure RadioInfo where
  modeAndBand : ChannelState
  radioMode : RadioMode
  radioBand : RadioBand
  /-- primary channel, `ch[0]` -/
  chP : Nat
  /-- secondary channel, `ch[1]` -/
  chS : Nat
deriving DecidableEq, Repr, Inhabited

/-- `AutoChannelAndPower`: a node of the DCA list. -/
structure Node where
  bssid : Mac
  radioInfo : RadioInfo
  rfa : AcpRfa
  spsWorkState : WorkState
  scanReturn : SsppReturn
  spScanMode : ScanMode
  /-- `vapBssidList.resolved` -/
  vapResolved : Bool
  optionalCh : Nat → Nat
  txPowerLvlCurr : Nat
  txPowerLvlPrev : Nat
  /-- `dynamicChAssign[1]`, primary and secondary channel -/
  dynamicChAssign : Nat × Nat
  nEnableDCA : Nat
  scanTime : Int
deriving Inhabited

/-- A node gets a colour of its own when DCA is enabled, it is operational and its scan returned. -/
def Node.participating (n : Node) : Prop :=
  n.nEnableDCA ≠ 0 ∧ n.spsWorkState = .operational ∧ n.scanReturn = .ok

instance (n : Node) : Decidable n.participating :=
  inferInstanceAs (Decidable (_ ∧ _ ∧ _))

/-- The part of `SonicPointConfiguration.nRadio[1]` that the module reads. -/
structure RadioCfg where
  mainRadioMode : RadioMode
  nRadioBand : RadioBand
  gChannel : Nat
  aChannel : Nat
  n24StandardChannel : Nat
  n24Primary : Nat
  n24Secondary : Nat
  n50StandardChannel : Nat
  n50Primary : Nat
  n50Secondary : Nat
  nEnableACP : Nat
deriving DecidableEq, Repr, Inhabited

/-- The part of `SpPeerList` that the module reads and writes. -/
structure Peer where
  /-- `spPrvCfg.id` -/
  id : Mac
  nRadio : RadioCfg
  spsWorkState : WorkState
  vapResolved : Bool
  /-- `dynamicChAssign[1]`, primary and secondary channel -/
  dynamicChAssign : Nat × Nat
  txPowerLvlCurr : Nat
  txPowerLvlPrev : Nat
deriving DecidableEq, Repr, Inhabited

/-- `searchPeerFromMacSonicPoint`: the first peer with the given id. -/
def searchPeer (peers : List Peer) (id : Mac) : Option Peer :=
  peers.find? fun p => p.id == id

/-- One entry of a scan result set: address, channel frequency and signal strength. -/
structure ScanResult where
  bssid : Mac
  channel : Nat
  rssi : Nat
deriving DecidableEq, Repr, Inhabited

/-- `msgCmd` of `SpPtGuiMsg`; `other` is a command the receiver has no branch for. -/
inductive MsgCmd where
  | spAddNewOne
  | spDelOldOne
  | spStartAutoChannel
  | spChangeIntoOperational
  | spProvisionScan
  | spProvisionChannelSet
  | spProvisionPowerAdjust
  | other (v : Nat)
deriving DecidableEq, Repr, Inhabited

/-- `SpPtGuiMsg`. -/
structure Msg where
  msgCmd : MsgCmd
  msgMac : Mac
deriving DecidableEq, Repr, Inhabited

/-- `CALCTASK_PIPE_CMD_ENUM`. -/
inductive CalcCmd where
  | noCmd
  | stopCalc
  | startCalc
  | ssppScanReturn
  | adjustTxPowerFinish
  | setChannelFinish
  | adjustTxPowerChannelFinish
deriving DecidableEq, Repr, Inhabited

/-- A vector behind a pointer: `alloc` is `none` for NULL, else the number of allocated cells. -/
structure Arr (α : Type) where
  alloc : Option Nat
  cell : Nat → α

/-- The size of a matrix made by `setupMatrix`: `dim` columns, of whose `dim` rows the first `rows`
were allocated. -/
structure MatSize where
  dim : Nat
  rows : Nat
deriving DecidableEq, Repr

/-- A matrix behind a pointer; `alloc` is `none` for NULL. -/
structure Mat where
  alloc : Option MatSize
  cell : Nat → Nat → Nat

/-- `sColorAssignment`. -/
structure ColorAssignment where
  pVertexColor : Arr Nat
  schemeCnt : Nat
  numOfVertex : Nat

/-- `sRFEvaluate`, first column: signal strength and frequency of each scan result. -/
structure RfEvaluate where
  scanResultRSSI : Nat → Nat
  chanFreq : Nat → Nat

/-- `sInfoUpdateMatrix`. -/
structure InfoUpdateMatrix where
  delIndexArray : Nat → Int
  delCount : Nat
  addCount : Nat
  validIndex : Nat

/-- `s_InfoUpdateMatrix` after `memset( ..., 0x00, ...)`. -/
def InfoUpdateMatrix.zero : InfoUpdateMatrix := ⟨fun _ => 0, 0, 0, 0⟩

/-- `AutoChannelAndPowerHeader`. `semMutex` counts how often the mutex is held; it is recursive. -/
structure Head where
  slList : List Node
  semMutex : Int
  pAdjacentMatrix : Mat
  pRSSIMatrix : Mat
  matrixLen : Nat
  oldListCount : Nat
  rssiCurThreshold : Int
  colorScheme : ColorAssignment
  /-- `pAPFixedCh`, primary and secondary channel of each position -/
  pAPFixedCh : Arr (Nat × Nat)
  rfEvaluate : RfEvaluate
  /-- `TAKEN_INTO_RFA` is `true` -/
  findFlag : Nat → Bool
  isNeedDoRfa : Bool
  roundOfCalc : Nat
  spScanMode : ScanMode
  infoUpdateMatrix : InfoUpdateMatrix

/-- `slList.count`. -/
def Head.count (h : Head) : Nat := h.slList.length

/-- `DCA_DATA_PROTECT( headDCA.semMutex )`. -/
def Head.protect (h : Head) : Head := { h with semMutex := h.semMutex + 1 }

/-- `DCA_DATA_RELEASE( headDCA.semMutex )`. -/
def Head.release (h : Head) : Head := { h with semMutex := h.semMutex - 1 }

/-- Giving the mutex back, with its count after that named. -/
lemma Head.release_eq (k : Int) (h : Head) (hk : h.semMutex = k + 1) :
    h.release = { h with semMutex := k } := by
  simp [Head.release, hk]

/-- `pRSSIMatrix[row][col]`. -/
def Head.rssi (h : Head) : Nat → Nat → Nat := h.pRSSIMatrix.cell

/-- `pVertexColor[i]`. -/
def Head.vertexColor (h : Head) : Nat → Nat := h.colorScheme.pVertexColor.cell

/-- The node at a list position. -/
def Head.node (h : Head) (i : Nat) : Node := h.slList.getD i default

/-- `headDCA` after `autoChannelAndPowerInit`: all zero, and every AP forced to scan. -/
def Head.init : Head where
  slList := []
  semMutex := 0
  pAdjacentMatrix := ⟨none, fun _ _ => 0⟩
  pRSSIMatrix := ⟨none, fun _ _ => 0⟩
  matrixLen := 0
  oldListCount := 0
  rssiCurThreshold := 0
  colorScheme := ⟨⟨none, fun _ => 0⟩, 0, 0⟩
  pAPFixedCh := ⟨none, fun _ => (0, 0)⟩
  rfEvaluate := ⟨fun _ => 0, fun _ => 0⟩
  findFlag := fun _ => false
  isNeedDoRfa := false
  roundOfCalc := 0
  spScanMode := .forceAllSpScan
  infoUpdateMatrix := .zero

/-- What the C library and the heap still have to return: the results of `rand()`, of `time(NULL)`
and whether each `SWMALLOC` succeeds. -/
structure Env where
  rand : Nat → Nat
  time : Nat → Nat
  malloc : Nat → Bool

/-- The next result of `rand()`. -/
def Env.nextRand (e : Env) : Nat × Env := (e.rand 0, { e with rand := fun i => e.rand (i + 1) })

/-- Throw away `n` results of `rand()`. -/
def Env.skipRand (e : Env) (n : Nat) : Env := { e with rand := fun i => e.rand (i + n) }

/-- The next result of `time(NULL)`. -/
def Env.nextTime (e : Env) : Nat × Env := (e.time 0, { e with time := fun i => e.time (i + 1) })

/-- Whether the next `SWMALLOC` succeeds. -/
def Env.nextMalloc (e : Env) : Bool × Env :=
  (e.malloc 0, { e with malloc := fun i => e.malloc (i + 1) })

/-- Every allocation succeeds. -/
def Env.plenty (e : Env) : Prop := ∀ i, e.malloc i = true

/-- With plenty of memory the next allocation succeeds, and those after it. -/
lemma Env.plenty.nextMalloc {e : Env} (h : e.plenty) :
    e.nextMalloc.1 = true ∧ e.nextMalloc.2.plenty :=
  ⟨h 0, fun i => h (i + 1)⟩

/-- A loop of allocations that is left at the first failure; how many succeeded. -/
def Env.mallocMany (e : Env) : Nat → Nat × Env
  | 0 => (0, e)
  | n + 1 =>
    let m := e.nextMalloc
    if m.1 then
      let r := m.2.mallocMany n
      (r.1 + 1, r.2)
    else (0, m.2)

/-- The RFA library the module links against: the interference coefficients, which are never
below 1, and the addition that checks for overflow. -/
structure RfaLib where
  getInterferenceCoefChan : Nat → Nat → Nat
  getInterferenceCoefFreq : Nat → Nat → Nat
  overflowCheckAdd : Int → Nat → Int
  coefChan_pos : ∀ a b, 1 ≤ getInterferenceCoefChan a b
  coefFreq_pos : ∀ a b, 1 ≤ getInterferenceCoefFreq a b

/-- What the module depends on besides its own state: the library, and how the machine stores an
`unsigned long`. -/
structure Platform extends RfaLib where
  /-- `sizeof(unsigned long)` -/
  ulongSize : Nat
  bigEndian : Bool
  ulongSize_pos : 0 < ulongSize

/-! Concrete values for the witnesses and counterexamples. -/

/-- A 32-bit machine, and interference that falls with the distance of the channels. -/
def Platform.sample : Platform where
  getInterferenceCoefChan a b := (a - b) + (b - a) + 1
  getInterferenceCoefFreq a b := ((a - b) + (b - a)) / 5 + 1
  overflowCheckAdd s x := min (s + x) (2 ^ 31 - 1)
  coefChan_pos a b := Nat.succ_pos _
  coefFreq_pos a b := Nat.succ_pos _
  ulongSize := 4
  bigEndian := true
  ulongSize_pos := by decide

/-- Memory is there, and `time` and `rand` return 0. -/
def Env.sample : Env := ⟨fun _ => 0, fun _ => 0, fun _ => true⟩

/-- The address `02:00:00:00:x:00` of an access point; its first BSSID ends in 1. -/
def Mac.sample (x : UInt8) : Mac := ⟨2, 0, 0, 0, x, 0⟩

/-- Its peer, operational, with dynamic channels enabled and no channel of its own. -/
def Peer.sample (x : UInt8) : Peer where
  id := Mac.sample x
  nRadio := ⟨.gOnly24, .standard, 0, 0, 0, 0, 0, 0, 0, 0, 1⟩
  spsWorkState := .operational
  vapResolved := false
  dynamicChAssign := (0, 0)
  txPowerLvlCurr := 0
  txPowerLvlPrev := 0

/-- An operational access point after a scan without interference, its channel left to the
assignment. -/
def Node.sample (x : UInt8) : Node where
  bssid := idToBssid (Mac.sample x)
  radioInfo := ⟨.ch24G20MAuto, .gOnly24, .standard, 0, 0⟩
  rfa := ⟨fun _ => 0, fun i => i⟩
  spsWorkState := .operational
  scanReturn := .ok
  spScanMode := .thisSpScanBasedOnTime
  vapResolved := false
  optionalCh i := [1, 6, 11].getD i 0
  txPowerLvlCurr := 0
  txPowerLvlPrev := 0
  dynamicChAssign := (0, 0)
  nEnableDCA := 1
  scanTime := 0

end CcodeTest.Dcs
