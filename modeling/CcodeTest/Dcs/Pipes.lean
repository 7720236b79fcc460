import CcodeTest.Dcs.Messages

/-!
# The length that a read returns

Both tasks divide the return value of `read` by the size of a message to know how often to go round.
The value is an `int` and the size a `size_t`, so the division is unsigned: what a failed read returns
is taken for the largest length there is. `pipeReads_whole_iff` says that this is the only trouble;
messages that are not complete are never counted.
-/

namespace CcodeTest.Dcs
open CcodeTest.Lib

/-- `CALCTASK_PIPE_MAX_MSGS`: the size of `m_calcCmdArray`, and how many bytes are asked for. -/
def calctaskPipeMaxMsgs : Nat := 16

/-- `CALCTASK_PIPE_UNIT`. -/
def calctaskPipeUnit : Nat := 4

/-- The passes of `for( i = 0; i < msgLen/unit; i++ )`, with a `size_t` of `w` bits. The counter is an
`int`; beyond its range there is no telling. -/
def passes (w unit : Nat) (msgLen : Int) : Nat := min ((msgLen % 2 ^ w).toNat / unit) (2 ^ 31)

/-- The messages that were read completely. -/
def wholeMessages (unit : Nat) (msgLen : Int) : Nat := (msgLen / unit).toNat

/-- `s_calcTaskPipeCmdCnt`. -/
structure CmdCnt where
  startCalcCmdCnt : Nat
  stopCalcCmdCnt : Nat
  ssppScanReturn : Nat
deriving DecidableEq, Repr

/-- The three branches of the loop; any other command is passed over. -/
def CmdCnt.add (c : CmdCnt) (cmd : CalcCmd) : CmdCnt :=
  match cmd with
  | .startCalc => { c with startCalcCmdCnt := c.startCalcCmdCnt + 1 }
  | .stopCalc => { c with stopCalcCmdCnt := c.stopCalcCmdCnt + 1 }
  | .ssppScanReturn => { c with ssppScanReturn := c.ssppScanReturn + 1 }
  | _ => c

/-- All commands counted. -/
def CmdCnt.total (c : CmdCnt) : Nat := c.startCalcCmdCnt + c.stopCalcCmdCnt + c.ssppScanReturn

/-- The slots of `m_calcCmdArray` that the loop has looked at, and what it has counted. -/
structure Checked where
  slots : List Nat
  cnt : CmdCnt

/-- The loop of `checkCalcTaskPipe`, with the passes that are left; `cell` is what lies in memory from
`m_calcCmdArray` on. -/
def checkLoop (cell : Nat → CalcCmd) : Nat → Nat → Checked → Checked
  | 0, _, c => c
  | k + 1, i, c => checkLoop cell k (i + 1) ⟨c.slots ++ [i], c.cnt.add (cell i)⟩

/-- The part of `checkCalcTaskPipe` behind `FD_ISSET`, when `read` has returned `msgLen`. -/
def checkCalcTaskPipe (w : Nat) (cell : Nat → CalcCmd) (msgLen : Int) : Checked :=
  checkLoop cell (passes w calctaskPipeUnit msgLen) 0 ⟨[], ⟨0, 0, 0⟩⟩

/-- The loop of `autoChannelAndPowerTask` after its `read`, of which `msg` holds what there is. -/
def handleReturned (w size : Nat) (msg : Msg) (around : Nat → Around) (msgLen : Int) (s : Shared) :
    Handled :=
  handleLoop msg around (passes w size msgLen) 0 ⟨s, []⟩

section Passes

variable {w unit : Nat} {msgLen : Int}

lemma two_pow_le (hw : 32 ≤ w) : (2 : Int) ^ 32 ≤ 2 ^ w := by
  exact_mod_cast Nat.pow_le_pow_right (by decide : 0 < 2) hw

/-- A length is divided as it is. -/
lemma passes_of_nonneg (hw : 32 ≤ w) (h0 : 0 ≤ msgLen) (h31 : msgLen < 2 ^ 31) :
    passes w unit msgLen = wholeMessages unit msgLen := by
  have hpow := two_pow_le hw
  have hdiv : msgLen.toNat / unit ≤ 2 ^ 31 :=
    Nat.le_trans (Nat.div_le_self ..) (by omega)
  rw [passes, wholeMessages, Int.emod_eq_of_lt h0 (by omega), Nat.min_eq_left hdiv]
  obtain ⟨n, rfl⟩ := Int.eq_ofNat_of_zero_le h0
  rfl

/-- An error is divided as the largest length. -/
lemma passes_error (w unit : Nat) : passes w unit (-1) = min ((2 ^ w - 1) / unit) (2 ^ 31) := by
  have hpos : 0 < 2 ^ w := Nat.two_pow_pos w
  have hcast : ((2 : Int) ^ w) = ((2 ^ w : Nat) : Int) := by push_cast; rfl
  have hmod : (-1 : Int) % 2 ^ w = ((2 ^ w - 1 : Nat) : Int) := by
    rw [hcast, ← Int.add_emod_right, Int.emod_eq_of_lt (by omega) (by omega)]
    omega
  rw [passes, hmod]
  rfl

end Passes

section Loops

variable {w : Nat} {cell : Nat → CalcCmd}

lemma CmdCnt.total_add (c : CmdCnt) (cmd : CalcCmd) : (c.add cmd).total ≤ c.total + 1 := by
  cases cmd <;> simp [CmdCnt.add, CmdCnt.total] <;> omega

lemma checkLoop_spec (k i : Nat) (c : Checked) :
    (checkLoop cell k i c).slots = c.slots ++ List.range' i k ∧
      (checkLoop cell k i c).cnt.total ≤ c.cnt.total + k := by
  induction k generalizing i c with
  | zero => simp [checkLoop]
  | succ k ih =>
    obtain ⟨hslots, hcnt⟩ := ih (i + 1) ⟨c.slots ++ [i], c.cnt.add (cell i)⟩
    have hadd := CmdCnt.total_add c.cnt (cell i)
    rw [checkLoop, hslots]
    refine ⟨by simp [List.range'_succ], ?_⟩
    dsimp only at hcnt
    omega

/-- As many calls as passes. -/
lemma length_handleReturned (w size : Nat) (msg : Msg) (around : Nat → Around) (msgLen : Int)
    (s : Shared) : (handleReturned w size msg around msgLen s).calls.length = passes w size msgLen := by
  rw [handleReturned, handleLoop_calls, List.length_append, List.length_replicate]
  exact Nat.zero_add _

/-- For a batch of messages it is the loop of `handleRead`. -/
lemma handleReturned_batch {size : Nat} (hw : 32 ≤ w) (msg : Msg) (ms : List Msg)
    (hlen : size * (ms.length + 1) < 2 ^ 31) (around : Nat → Around) (s : Shared) :
    handleReturned w size msg around (size * (ms.length + 1) : Nat) s =
      handleRead size around (msg :: ms) s := by
  rw [handleReturned, passes_of_nonneg hw (Int.natCast_nonneg _) (by exact_mod_cast hlen)]
  rfl

/-- The calculating task. -/
lemma checkCalcTaskPipe_iff (hw : 32 ≤ w) {msgLen : Int}
    (hlen : -1 ≤ msgLen ∧ msgLen ≤ calctaskPipeMaxMsgs) :
    ((∀ i ∈ (checkCalcTaskPipe w cell msgLen).slots, i < calctaskPipeMaxMsgs) ∧
        (checkCalcTaskPipe w cell msgLen).cnt.total ≤ wholeMessages calctaskPipeUnit msgLen) ↔
      0 ≤ msgLen := by
  obtain ⟨hslots, hcnt⟩ := @checkLoop_spec cell (passes w calctaskPipeUnit msgLen) 0 ⟨[], ⟨0, 0, 0⟩⟩
  have hmem : ∀ i, i ∈ (checkCalcTaskPipe w cell msgLen).slots ↔
      i < passes w calctaskPipeUnit msgLen := by
    intro i
    rw [checkCalcTaskPipe, hslots, List.nil_append, List.mem_range'_1]
    omega
  have htotal : (checkCalcTaskPipe w cell msgLen).cnt.total ≤ passes w calctaskPipeUnit msgLen :=
    Nat.le_trans hcnt (Nat.le_of_eq (Nat.zero_add _))
  simp only [hmem]
  unfold calctaskPipeMaxMsgs at hlen ⊢
  constructor
  · rintro ⟨hin, -⟩
    by_contra hneg
    -- a failed read goes on behind the array
    have herr : msgLen = -1 := by omega
    have hpow : 2 ^ 32 ≤ 2 ^ w := Nat.pow_le_pow_right (by decide) hw
    have hgo : 16 < passes w calctaskPipeUnit msgLen := by
      rw [herr, passes_error, calctaskPipeUnit]
      omega
    exact absurd (hin 16 hgo) (by decide)
  · intro h0
    rw [passes_of_nonneg hw h0 (by omega)] at htotal ⊢
    refine ⟨?_, htotal⟩
    intro i hi
    unfold wholeMessages calctaskPipeUnit at hi
    omega

/-- The task that handles the messages. -/
lemma handleReturned_iff {size : Nat} (hw : 32 ≤ w) (hsize : 0 < size) (hfit : size < 2 ^ w)
    {msgLen : Int} (hlen : -1 ≤ msgLen ∧ msgLen < 2 ^ 31) (msg : Msg) (around : Nat → Around)
    (s : Shared) :
    (handleReturned w size msg around msgLen s).calls.length ≤ wholeMessages size msgLen ↔
      0 ≤ msgLen := by
  rw [length_handleReturned]
  constructor
  · intro hle
    by_contra hneg
    have herr : msgLen = -1 := by omega
    have hone : 1 ≤ (2 ^ w - 1) / size := (Nat.one_le_div_iff hsize).2 (by omega)
    have hnone : (-1 : Int) / size < 0 := Int.ediv_neg_of_neg_of_pos (by decide) (by omega)
    rw [herr, passes_error, wholeMessages] at hle
    omega
  · intro h0
    exact Nat.le_of_eq (passes_of_nonneg hw h0 hlen.2)

end Loops

/-- For every return value of the two reads: the calculating task looks at slots of its array only and
counts no more commands than were read completely, and the other task handles no more messages than
were read completely, exactly when neither read has failed. -/
theorem pipeReads_whole_iff (w size : Nat) (hw : 32 ≤ w) (hsize : 0 < size) (hfit : size < 2 ^ w)
    (calcLen acpLen : Int) (hcalc : -1 ≤ calcLen ∧ calcLen ≤ calctaskPipeMaxMsgs)
    (hacp : -1 ≤ acpLen ∧ acpLen < 2 ^ 31) (cell : Nat → CalcCmd) (msg : Msg)
    (around : Nat → Around) (s : Shared) :
    ((∀ i ∈ (checkCalcTaskPipe w cell calcLen).slots, i < calctaskPipeMaxMsgs) ∧
        (checkCalcTaskPipe w cell calcLen).cnt.total ≤ wholeMessages calctaskPipeUnit calcLen ∧
        (handleReturned w size msg around acpLen s).calls.length ≤ wholeMessages size acpLen) ↔
      0 ≤ calcLen ∧ 0 ≤ acpLen := by
  rw [← and_assoc, checkCalcTaskPipe_iff hw hcalc, handleReturned_iff hw hsize hfit hacp]

/-- A read that returns seven bytes, and one of two messages of twelve. -/
theorem pipeReads_whole_iff_short :
    (checkCalcTaskPipe 32 (fun _ => .startCalc) 7).cnt.total ≤ 1 ∧
      (handleReturned 32 12 (.add 3) (fun _ => .sample) 24 .pair).calls.length ≤ 2 :=
  have h := (pipeReads_whole_iff 32 12 (by decide) (by decide) (by decide) 7 24 (by decide)
    (by decide) (fun _ => .startCalc) (.add 3) (fun _ => .sample) .pair).2 (by decide)
  ⟨h.2.1, h.2.2⟩

/-- A failed read on each pipe, on a machine of 32 bits: the first loop leaves its array, the second
handles what is in its variable 357913941 times. -/
theorem pipeReads_failed :
    (∃ i ∈ (checkCalcTaskPipe 32 (fun _ => .noCmd) (-1)).slots, ¬ i < calctaskPipeMaxMsgs) ∧
      (handleReturned 32 12 (.add 3) (fun _ => .sample) (-1) .pair).calls.length = 357913941 ∧
      ¬ (handleReturned 32 12 (.add 3) (fun _ => .sample) (-1) .pair).calls.length ≤
        wholeMessages 12 (-1) := by
  have hcalls : (handleReturned 32 12 (.add 3) (fun _ => .sample) (-1) .pair).calls.length =
      357913941 := by
    rw [length_handleReturned, passes_error]
    decide
  refine ⟨⟨16, ?_, by decide⟩, hcalls, ?_⟩
  · rw [checkCalcTaskPipe, (checkLoop_spec ..).1, passes_error]
    exact List.mem_append_right _ (List.mem_range'_1.2 (by decide))
  · rw [hcalls]
    decide

end CcodeTest.Dcs
