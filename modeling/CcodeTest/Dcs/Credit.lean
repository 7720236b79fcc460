import CcodeTest.Dcs.Lock

/-!
# Whose scan result is it

The answer to a scan request comes back as a bare `SSPPSCAN_RETURN`. The calculating task credits it
to the access point it is waiting for, which is right as long as no answer arrives after the task
has moved on, and none is left in the pipe when the next request goes out (`timely`). Under that
condition every credit is backed by an answer of the same access point in the same calculation
(`credit_answered`).
-/

namespace CcodeTest.Dcs
open CcodeTest.Lib

/-- The access point and the calculation of a request. -/
def ScanReq.key (q : ScanReq) : Mac × Nat := (q.mac, q.no)

/-- The latest request. -/
def Sys.lastKey (s : Sys) : Option (Mac × Nat) := (s.scans.map ScanReq.key).getLast?

/-- A request of the access point in the calculation has been answered. -/
def Sys.answered (s : Sys) (key : Mac × Nat) : Bool :=
  s.scans.any fun q => q.answered && q.key == key

/-- The access point at a position, in the current calculation. -/
def Sys.keyAt (s : Sys) (row : Nat) : Mac × Nat :=
  (bssidToId (s.head.node row).bssid, s.calcNo)

/-- No answer is late: one arrives while its access point is the latest one asked in this
calculation, or that one has already answered; and a request goes out with an answer still in the
pipe only to an access point that has answered in this calculation. -/
def timely (s : Sys) (e : Event) : Bool :=
  match e with
  | .reply k =>
    match s.scans[k]?, s.lastKey with
    | some q, some l => q.key == l || s.answered l
    | _, _ => true
  | .calcRun inp =>
    match s.pc with
    | .scanDecide row =>
      match decideScan s.head.spScanMode (s.head.node row) inp with
      | .send .. => !(s.calcPipe.contains .ssppScanReturn) || s.answered (s.keyAt row)
      | _ => true
    | _ => true
  | _ => true

/-- The invariant of the requests and their answers. -/
structure Credited (s : Sys) : Prop where
  pipe : .ssppScanReturn ∈ s.calcPipe → ∃ k, s.lastKey = some k ∧ s.answered k = true
  wait : ∀ row, s.pc = .scanWait row → s.lastKey = some (s.keyAt row)
  credit : ∀ row, s.pc = .credit row → s.answered (s.keyAt row) = true

section Moves

variable {p : Platform} {s t : Sys} {e : Event}

/-- A step that leaves the requests alone, adds no answer to the pipe and does not begin to wait for
one or to credit one. -/
lemma Credited.keep (h : Credited s) (hs : t.scans = s.scans)
    (hp : .ssppScanReturn ∈ t.calcPipe → .ssppScanReturn ∈ s.calcPipe)
    (hw : ∀ row, t.pc = .scanWait row → s.pc = .scanWait row ∧ t.keyAt row = s.keyAt row)
    (hc : ∀ row, t.pc = .credit row → s.pc = .credit row ∧ t.keyAt row = s.keyAt row) :
    Credited t := by
  have hlast : t.lastKey = s.lastKey := by rw [Sys.lastKey, hs, Sys.lastKey]
  have hans : ∀ k, t.answered k = s.answered k := fun k => by
    rw [Sys.answered, hs, Sys.answered]
  refine ⟨?_, ?_, ?_⟩
  · intro hin
    obtain ⟨k, hk, ha⟩ := h.pipe (hp hin)
    exact ⟨k, hlast.trans hk, (hans k).trans ha⟩
  · intro row hpc
    obtain ⟨hpc', hk⟩ := hw row hpc
    rw [hlast, hk]
    exact h.wait row hpc'
  · intro row hpc
    obtain ⟨hpc', hk⟩ := hc row hpc
    rw [hans, hk]
    exact h.credit row hpc'

/-- A request was answered. -/
lemma answered_iff {key : Mac × Nat} :
    s.answered key = true ↔
      ∃ (j : Nat) (q : ScanReq), s.scans[j]? = some q ∧ q.answered = true ∧ q.key = key := by
  simp only [Sys.answered, List.any_eq_true, Bool.and_eq_true, beq_iff_eq]
  constructor
  · rintro ⟨q, hq, ha, hk⟩
    obtain ⟨j, hj⟩ := List.mem_iff_getElem?.1 hq
    exact ⟨j, q, hj, ha, hk⟩
  · rintro ⟨j, q, hj, ha, hk⟩
    exact ⟨q, List.mem_of_getElem? hj, ha, hk⟩

/-- The system after the answer to request `k`. -/
def Sys.marked (s : Sys) (k : Nat) (q : ScanReq) : Sys :=
  { s with
    scans := s.scans.set k { q with answered := true }
    calcPipe := s.calcPipe ++ [.ssppScanReturn] }

/-- Marking a request changes no other one. -/
lemma scans_marked {k : Nat} {q : ScanReq} (hk : s.scans[k]? = some q) (j : Nat) :
    (s.marked k q).scans[j]? =
      if j = k then some { q with answered := true } else s.scans[j]? := by
  obtain ⟨hlt, -⟩ := List.getElem?_eq_some_iff.1 hk
  simp only [Sys.marked, List.getElem?_set]
  by_cases hj : j = k
  · subst hj
    simp [hlt]
  · simp [hj, Ne.symm hj]

/-- Nor which one was the latest. -/
lemma lastKey_marked {k : Nat} {q : ScanReq} (hk : s.scans[k]? = some q) :
    (s.marked k q).lastKey = s.lastKey := by
  have hkeys : (s.marked k q).scans.map ScanReq.key = s.scans.map ScanReq.key := by
    apply List.ext_getElem?
    intro j
    rw [List.getElem?_map, List.getElem?_map, scans_marked hk]
    by_cases hj : j = k
    · rw [if_pos hj, hj, hk]
      rfl
    · rw [if_neg hj]
  rw [Sys.lastKey, hkeys, Sys.lastKey]

/-- What was answered stays so, and the request marked is. -/
lemma answered_marked {k : Nat} {q : ScanReq} (hk : s.scans[k]? = some q) {key : Mac × Nat}
    (h : s.answered key = true ∨ q.key = key) : (s.marked k q).answered key = true := by
  rw [answered_iff]
  rcases h with h | h
  · obtain ⟨j, x, hj, ha, hx⟩ := answered_iff.1 h
    by_cases hjk : j = k
    · refine ⟨j, { q with answered := true }, by rw [scans_marked hk, if_pos hjk], rfl, ?_⟩
      have hxq : x = q := by
        rw [hjk, hk] at hj
        exact (Option.some.inj hj).symm
      rw [← hx, hxq]
      rfl
    · exact ⟨j, x, by rw [scans_marked hk, if_neg hjk, hj], ha, hx⟩
  · exact ⟨k, { q with answered := true }, by rw [scans_marked hk, if_pos rfl], rfl, h⟩

/-- An answer that is not late. -/
lemma Credited.marked {k : Nat} {q : ScanReq} (h : Credited s) (hk : s.scans[k]? = some q)
    (ht : timely s (.reply k) = true) : Credited (s.marked k q) := by
  refine ⟨?_, ?_, ?_⟩
  · intro _
    rw [lastKey_marked hk]
    cases hl : s.lastKey with
    | none =>
      have hnil : s.scans = [] := by simpa [Sys.lastKey] using hl
      rw [hnil] at hk
      cases hk
    | some l =>
      refine ⟨l, rfl, answered_marked hk ?_⟩
      simp only [timely, hk, hl, Bool.or_eq_true, beq_iff_eq] at ht
      exact ht.symm
  · intro row hpc
    rw [lastKey_marked hk]
    exact h.wait row hpc
  · intro row hpc
    exact answered_marked hk (.inl (h.credit row hpc))

/-- A request that goes out with no answer of another access point in the pipe. -/
lemma credited_requestScan {row : Nat} {head node : ScanMode}
    (hp : .ssppScanReturn ∈ s.calcPipe → s.answered (s.keyAt row) = true) :
    Credited (s.requestScan row head node) := by
  have hkey : (s.requestScan row head node).keyAt row = s.keyAt row := by
    have hb := node_modifyNode (·.bssid)
      (f := fun n => { n with spScanMode := node, scanReturn := .invalid }) (fun _ => rfl)
      { s.head with spScanMode := head } row row
    exact congrArg (fun b => (bssidToId b, s.calcNo)) hb
  have hlast : (s.requestScan row head node).lastKey = some (s.keyAt row) := by
    simp [Sys.lastKey, Sys.requestScan, ScanReq.key, Sys.keyAt]
  refine ⟨?_, ?_, ?_⟩
  · intro hin
    refine ⟨_, hlast, ?_⟩
    obtain ⟨j, q, hj, ha, hk⟩ := answered_iff.1 (hp hin)
    refine answered_iff.2 ⟨j, q, ?_, ha, hk⟩
    obtain ⟨hlt, -⟩ := List.getElem?_eq_some_iff.1 hj
    exact (List.getElem?_append_left hlt).trans hj
  · intro row' hpc
    cases hpc
    rw [hlast, hkey]
  · intro row' hpc
    cases hpc

/-- `checkAPOk` does not wait for a scan. -/
lemma afterApOkWait_ne (cnt : Nat) (wait : Bool) (row : Nat) :
    afterApOkWait cnt wait ≠ .scanWait row ∧ afterApOkWait cnt wait ≠ .credit row := by
  unfold afterApOkWait
  split
  · exact ⟨by simp, by simp⟩
  · exact ⟨by simp, by simp⟩

/-- One timely step keeps the invariant. -/
lemma Moves.credited (m : Moves p s e t) (h : Credited s) (hheld : Held s)
    (ht : timely s e = true) : Credited t := by
  cases m with
  | reply hk hr ha => exact h.marked hk ht
  | acpStop => exact h.keep rfl (by simp) (fun _ h => ⟨h, rfl⟩) (fun _ h => ⟨h, rfl⟩)
  | @acpUpdate msg ms mode malloc heap hd hs hm =>
    have hnl : s.pc.locked = false := hheld.unlocked hm
    refine h.keep rfl ?_ ?_ ?_
    · intro hin
      obtain ⟨cs, hc, hcs⟩ := (updateSPInfo_updates ⟨msg, mode, malloc, heap⟩ s.toShared).calcPipe
      have hin' : _ ∈ s.calcPipe ++ cs := hc ▸ hin
      exact (List.mem_append.1 hin').resolve_right fun h => nomatch hcs _ h
    · intro row hpc
      have hpc' : s.pc = .scanWait row := hpc
      rw [hpc'] at hnl
      cases hnl
    · intro row hpc
      have hpc' : s.pc = .credit row := hpc
      rw [hpc'] at hnl
      cases hnl
  | acpTimeout =>
    obtain ⟨boot, flag, mode, cs, hs, -, hcs⟩ := timeout_frame s
    rw [hs]
    refine h.keep rfl ?_ (fun _ h => ⟨h, rfl⟩) (fun _ h => ⟨h, rfl⟩)
    exact fun hin => (List.mem_append.1 hin).resolve_right fun h => nomatch hcs _ h
  | @send row head node inp hpc hd =>
    apply credited_requestScan
    intro hin
    simpa [timely, hpc, hd, hin] using ht
  | @waitReturn cs row hc hpc =>
    obtain ⟨k, hk, ha⟩ := h.pipe (by rw [hc]; exact List.mem_cons_self ..)
    rw [h.wait row hpc] at hk
    cases hk
    refine ⟨?_, ?_, ?_⟩
    · intro _
      exact ⟨_, h.wait row hpc, ha⟩
    · intro row' hpc'
      cases hpc'
    · intro row' hpc'
      cases hpc'
      exact ha
  | msg => exact h.keep rfl id (fun _ h => ⟨h, rfl⟩) (fun _ h => ⟨h, rfl⟩)
  | peers => exact h.keep rfl id (fun _ h => ⟨h, rfl⟩) (fun _ h => ⟨h, rfl⟩)
  | @apOkRead c cs cnt wait hc hne hpc =>
    refine h.keep rfl (by simp_all) ?_ ?_
    · exact fun row hw => absurd hw (afterApOkWait_ne cnt wait row).1
    · exact fun row hw => absurd hw (afterApOkWait_ne cnt wait row).2
  | @apOkQuiet cnt wait hpc =>
    refine h.keep rfl id ?_ ?_
    · exact fun row hw => absurd hw (afterApOkWait_ne cnt wait row).1
    · exact fun row hw => absurd hw (afterApOkWait_ne cnt wait row).2
  | setupMatrix inp hpc =>
    refine h.keep rfl id ?_ ?_
    all_goals
      intro row hw
      simp only [Sys.goto] at hw
      split at hw <;> cases hw
  | setupColor inp hpc =>
    refine h.keep rfl id ?_ ?_
    all_goals
      intro row hw
      simp only [Sys.goto] at hw
      split at hw <;> cases hw
  | _ =>
    exact h.keep rfl (by simp_all) (fun row h => absurd h (by simp_all))
      (fun row h => absurd h (by simp_all))

end Moves

/-- In every run of timely steps, an access point is credited with a scan result (`SSPP_RETURN_OK`,
a new `scanTime` and its row of the RSSI matrix) only after a scan requested from it in the current
calculation has been answered. -/
theorem credit_answered (p : Platform) (s₀ s : Sys) (h₀ : Initial s₀)
    (r : Reach (step p) (fun s e => timely s e = true) s₀ s) (row : Nat)
    (hpc : s.pc = .credit row) :
    ∃ q ∈ s.scans, q.mac = bssidToId (s.head.node row).bssid ∧ q.no = s.calcNo ∧
      q.answered = true := by
  have hinit : Credited s₀ ∧ Held s₀ := by
    refine ⟨?_, held_init h₀⟩
    obtain ⟨peers, heap, rfl⟩ := h₀
    exact ⟨nofun, nofun, nofun⟩
  have hs : Credited s ∧ Held s := by
    refine r.invariant (I := fun s => Credited s ∧ Held s) hinit ?_
    rintro s e t ⟨hc, hh⟩ ht hstep
    have hm := step_moves hstep
    exact ⟨hm.credited hc hh ht, hm.lockMove.held hh⟩
  obtain ⟨j, q, hj, ha, hk⟩ := answered_iff.1 (hs.1.credit row hpc)
  have hk' : (q.mac, q.no) = (bssidToId (s.head.node row).bssid, s.calcNo) := hk
  rw [Prod.mk.injEq] at hk'
  exact ⟨q, List.mem_of_getElem? hj, hk'.1, hk'.2, ha⟩

/-- The first calculation, to the point where it waits for the answer of the first of the access
points. -/
def Event.firstWait (n : Nat) : List Event :=
  Event.boot ++ List.replicate (n + 5) (Event.calcRun .sample)

/-- Of two access points, the first has answered and the second answers, both in time. -/
def Event.bothAnswer : List Event :=
  Event.firstWait 2 ++ [.reply 0, .calcRead] ++ List.replicate 5 (.calcRun .sample) ++
    [.reply 1, .calcRead]

/-- Two access points are asked, and both answer in time. -/
theorem credit_answered_in_time :
    ∃ s, runIf (step .sample) timely (Sys.init [.sample 1, .sample 2] fun _ => default)
        Event.bothAnswer = some s ∧
      s.pc = .credit 1 ∧ ∃ q ∈ s.scans, q.mac = Mac.sample 1 ∧ q.answered = true := by
  have hrun : (runIf (step .sample) timely (Sys.init [.sample 1, .sample 2] fun _ => default)
      Event.bothAnswer).map (fun s => (s.pc, (s.head.node 1).bssid)) =
      some (.credit 1, idToBssid (Mac.sample 1)) := by decide
  obtain ⟨s, hs, hpc⟩ := Option.map_eq_some_iff.1 hrun
  rw [Prod.mk.injEq] at hpc
  obtain ⟨q, hq, hm, -, ha⟩ := credit_answered .sample _ s ⟨_, _, rfl⟩
    (.of_runIf hs fun _ _ _ h => h) 1 hpc.1
  rw [hpc.2] at hm
  exact ⟨s, hs, hpc.1, q, hq, hm, ha⟩

/-- Two access points. The first does not answer within 50 s; its answer arrives while the task
waits for the second, which has not answered, and is credited to the second. -/
theorem credit_unanswered :
    (run (step .sample) (Sys.init [.sample 1, .sample 2] fun _ => default)
      (Event.firstWait 2 ++ [.calcQuiet] ++ List.replicate 3 (.calcRun .sample) ++
        [.reply 0, .calcRead])).map
          (fun s => (s.pc, bssidToId (s.head.node 1).bssid, s.calcNo, s.scans)) =
      some (.credit 1, Mac.sample 1, 1,
        [⟨Mac.sample 2, 1, true⟩, ⟨Mac.sample 1, 1, false⟩]) := by
  decide

end CcodeTest.Dcs
