import CcodeTest.Dcs.Lock

/-!
# Channels on the air

The colouring separates access points that hear each other, but only by the colours it stores. An
access point with a fixed channel is stored with the colour 0 and operates on its own channel; it
counts for the order of the others' options, like an access point that is not managed, and for
nothing else. So two access points whose channels are both left to the assignment never share one
when they hear each other at the final threshold (`autos_separated`), while one of them may share the
channel of a fixed one (`fixed_shared`).
-/

namespace CcodeTest.Dcs
open CcodeTest.Lib

/-- The primary channel of an access point on the air. -/
def Head.operatingChannel (h : Head) (i : Nat) : Nat :=
  if (h.node i).radioInfo.chP ≠ 0 then (h.node i).radioInfo.chP else h.vertexColor i

/-- Access points that take part and hear each other at the final threshold have different
colours. -/
def Separated (h : Head) : Prop :=
  ∀ u < h.count, ∀ v < h.count, u ≠ v → (h.node u).participating → (h.node v).participating →
    Hears h h.rssiCurThreshold u v → h.vertexColor u ≠ h.vertexColor v

instance (h : Head) (t : Int) (u v : Nat) : Decidable (Hears h t u v) :=
  inferInstanceAs (Decidable (_ ∨ _))

/-- Hearing goes both ways. -/
lemma Hears.symm {h : Head} {t : Int} {u v : Nat} (hh : Hears h t u v) : Hears h t v u := Or.symm hh

/-- A pass that finds a scheme separates. -/
lemma probe_separated {lib : RfaLib} {h : Head} {e : Env}
    (hf : (probe lib h e).1.colorScheme.schemeCnt ≠ 0) : Separated (probe lib h e).1 := by
  have hkept := @probe_kept lib h e
  obtain ⟨-, hcol⟩ := probe_sound hf
  intro u hu v hv hne hpu hpv hh
  rw [hkept.count] at hu hv
  have hpu := (hkept.same u).participating.1 hpu
  have hpv := (hkept.same v).participating.1 hpv
  have hh : Hears h h.rssiCurThreshold u v := hh
  -- the search compares a vertex with those before it
  rcases Nat.lt_or_gt_of_ne hne with hlt | hlt
  · exact ((hcol v hv).1 hpv).2 u hlt hh.symm
  · exact (((hcol u hu).1 hpu).2 v hlt hh).symm

/-- When the threshold loop ends, the colours are separated. -/
lemma thresholdLoop_separated {lib : RfaLib} {fuel : Nat} {l l' : Loop}
    (hl : thresholdLoop lib fuel l = some l') : Separated l'.head := by
  obtain ⟨h, e, -, -, hlast, hf⟩ :=
    thresholdLoop_last (Q := fun _ _ _ => True) (fun _ _ _ _ => trivial) hl fun _ => trivial
  rw [hlast]
  exact probe_separated hf

section Moves

variable {p : Platform} {s t : Sys} {e : Event}

/-- It depends on the nodes, the RSSI values, the threshold and the colours. -/
lemma Separated.congr {h h' : Head} (hs : Separated h) (hn : h'.slList = h.slList)
    (hr : h'.rssi = h.rssi) (ht : h'.rssiCurThreshold = h.rssiCurThreshold)
    (hc : h'.vertexColor = h.vertexColor) : Separated h' := by
  unfold Separated Hears Head.count Head.node at *
  rw [hn, hr, ht, hc]
  exact hs

/-- The colours are separated when the channels are about to be set. -/
lemma Moves.separated (m : Moves p s e t) (h : s.pc = .setChannel → Separated s.head)
    (hheld : Held s) (hpc' : t.pc = .setChannel) : Separated t.head := by
  cases m with
  | acpUpdate mode malloc heap hd hs hm =>
    have hpc : s.pc = .setChannel := hpc'
    have hnl := hheld.unlocked hm
    rw [hpc] at hnl
    cases hnl
  | acpTimeout =>
    obtain ⟨boot, flag, mode, cs, hs, -⟩ := timeout_frame s
    rw [hs] at hpc' ⊢
    exact (h hpc').congr rfl rfl rfl rfl
  | threshold inp hpc hl => exact thresholdLoop_separated hl
  | setupMatrix inp hpc =>
    simp only [Sys.goto] at hpc'
    split at hpc' <;> cases hpc'
  | setupColor inp hpc =>
    simp only [Sys.goto] at hpc'
    split at hpc' <;> cases hpc'
  | @apOkRead c cs cnt wait =>
    have hl := locked_afterApOkWait cnt wait
    rw [show afterApOkWait cnt wait = .setChannel from hpc'] at hl
    cases hl
  | @apOkQuiet cnt wait =>
    have hl := locked_afterApOkWait cnt wait
    rw [show afterApOkWait cnt wait = .setChannel from hpc'] at hl
    cases hl
  | _ => first | exact h hpc' | cases hpc'

end Moves

/-- In every run, when the channels are about to be set, two access points that take part, whose
channels are both left to the assignment and one of which hears the other above the final threshold,
operate on different primary channels. -/
theorem autos_separated (p : Platform) (s₀ s : Sys) (h₀ : Initial s₀)
    (r : Reach (step p) (fun _ _ => True) s₀ s) (hpc : s.pc = .setChannel) (u v : Nat)
    (hu : u < s.head.count) (hv : v < s.head.count) (hne : u ≠ v)
    (hpu : (s.head.node u).participating) (hpv : (s.head.node v).participating)
    (hau : (s.head.node u).radioInfo.chP = 0) (hav : (s.head.node v).radioInfo.chP = 0)
    (hh : Hears s.head s.head.rssiCurThreshold u v) :
    s.head.operatingChannel u ≠ s.head.operatingChannel v := by
  have hinit : (s₀.pc = .setChannel → Separated s₀.head) ∧ Held s₀ := by
    refine ⟨?_, held_init h₀⟩
    obtain ⟨peers, heap, rfl⟩ := h₀
    exact nofun
  have hs : (s.pc = .setChannel → Separated s.head) ∧ Held s := by
    refine r.invariant (I := fun s => (s.pc = .setChannel → Separated s.head) ∧ Held s) hinit ?_
    rintro s e t ⟨hsep, hheld⟩ _ hstep
    have m := step_moves hstep
    exact ⟨m.separated hsep hheld, m.lockMove.held hheld⟩
  have hcol := hs.1 hpc u hu v hv hne hpu hpv hh
  rw [Head.operatingChannel, if_neg (not_not.2 hau), Head.operatingChannel, if_neg (not_not.2 hav)]
  exact hcol

/-- A peer with the fixed channel 6. -/
def Peer.onSix (x : UInt8) : Peer :=
  { Peer.sample x with nRadio := { (Peer.sample x).nRadio with gChannel := 6 } }

/-- The access point `x` of four hears the other three at 50. -/
def Input.hearing (x : UInt8) : Input :=
  { Input.sample with
    results := ([1, 2, 3, 4].filter (· ≠ x)).map fun y => ⟨idToBssid (Mac.sample y), 2437, 50⟩
    scanGCount := 3 }

/-- One turn of the scan round, for the access point `x` and its request `k`. -/
def Event.scanned (k : Nat) (x : UInt8) : List Event :=
  List.replicate 3 (Event.calcRun .sample) ++ [Event.reply k, .calcRead] ++
    List.replicate 2 (Event.calcRun (.hearing x))

/-- The first calculation of the four, up to the point where the channels are set. -/
def Event.fourScanned : List Event :=
  Event.boot ++ List.replicate 6 (Event.calcRun .sample) ++ Event.scanned 0 4 ++ Event.scanned 1 3 ++
    Event.scanned 2 2 ++ Event.scanned 3 1 ++ List.replicate 2 (Event.calcRun .sample)

/-- The two access points take part and hear each other at the current threshold. -/
def Head.clashing (h : Head) (u v : Nat) : Bool :=
  decide ((h.node u).participating ∧ (h.node v).participating ∧ Hears h h.rssiCurThreshold u v)

/-- Four access points, of which one is fixed by the user. -/
theorem autos_separated_fourScanned :
    ∃ s, run (step .sample) (Sys.init [.onSix 1, .sample 2, .sample 3, .sample 4] fun _ => default)
        Event.fourScanned = some s ∧
      s.pc = .setChannel ∧ s.head.operatingChannel 0 ≠ s.head.operatingChannel 1 := by
  have hrun : (run (step .sample)
      (Sys.init [.onSix 1, .sample 2, .sample 3, .sample 4] fun _ => default)
        Event.fourScanned).map (fun s => (s.pc, s.head.clashing 0 1, s.head.count,
          [(s.head.node 0).radioInfo.chP, (s.head.node 1).radioInfo.chP])) =
      some (.setChannel, true, 4, [0, 0]) := by decide +kernel
  obtain ⟨s, hs, h⟩ := Option.map_eq_some_iff.1 hrun
  simp only [Head.clashing, Prod.mk.injEq, decide_eq_true_eq, List.cons.injEq] at h
  obtain ⟨hpc, ⟨hp0, hp1, hh⟩, hcount, ha0, ha1, -⟩ := h
  exact ⟨s, hs, hpc, autos_separated .sample _ s ⟨_, _, rfl⟩ (.of_run hs) hpc 0 1 (by omega)
    (by omega) (by decide) hp0 hp1 ha0 ha1 hh⟩

/-- The third access point of the list is auto and the last one fixed on channel 6; they take part
and hear each other, and both operate on channel 6. -/
theorem fixed_shared :
    (run (step .sample) (Sys.init [.onSix 1, .sample 2, .sample 3, .sample 4] fun _ => default)
        Event.fourScanned).map
      (fun s => (s.pc, s.head.clashing 2 3, s.head.slList.map (·.radioInfo.chP),
        (List.range 4).map s.head.operatingChannel)) =
    some (.setChannel, true, [0, 0, 0, 6], [1, 11, 6, 6]) := by
  decide +kernel

end CcodeTest.Dcs
