import CcodeTest.Lib.Standing
import CcodeTest.Dcs.SpInfo

/-!
# The messages of the pipe and the list they maintain

Two properties of the task that handles the messages. The first is about reading: one `read` can
return several messages, and the loop after it is meant to hand each of them to `updateSPInfo`;
`handleRead_calls_iff` says for which batches it does. The second is about the list itself, over any
sequence of handled messages: no address is listed twice, the counter is the number of nodes, and an
address is listed exactly while its last message was not a deletion (`slList_integrity`).

The list functions `slListAdd` and `slListDelete` are not part of the sources. `SlLib` states what
is relied on; `SlLib.atHead` is the instance that the rest of the development works with, and
`updateList_atHead` and `initList_atHead` connect the two.
-/

namespace CcodeTest.Dcs
open CcodeTest.Lib

/-! Reading the pipe. -/

/-- What `updateSPInfo` finds besides the message: the configured scan mode, and the outcome of its
`SWMALLOC`. -/
structure Around where
  dcaScanMode : ScanMode
  malloc : Bool
  heap : Node

/-- The message together with what is found. -/
def Around.update (a : Around) (msg : Msg) : Update := ⟨msg, a.dcaScanMode, a.malloc, a.heap⟩

/-- The shared state, and the messages that `updateSPInfo` has been called with. -/
structure Handled where
  shared : Shared
  calls : List Msg

/-- `for( i = 0; i < msgLen/sizeof(SpPtGuiMsg); i++ ) updateSPInfo( &msg );` The first argument is
the number of passes that are left; `msg` is the variable the address is taken of. -/
def handleLoop (msg : Msg) (around : Nat → Around) : Nat → Nat → Handled → Handled
  | 0, _, h => h
  | k + 1, i, h =>
    handleLoop msg around k (i + 1)
      ⟨(updateSPInfo ((around i).update msg) h.shared).1, h.calls ++ [msg]⟩

/-- The read of the pipe, of up to `ACPTASK_PIPE_MAX_MSGS` messages, and the loop after it. `read`
stores the messages it returns one behind the other from `&msg` on, so `msg` is the first of them
(and what follows is written behind the variable); `size` is `sizeof(SpPtGuiMsg)`. -/
def handleRead (size : Nat) (around : Nat → Around) (batch : List Msg) (s : Shared) : Handled :=
  let msgLen := size * batch.length
  match batch with
  | [] => ⟨s, []⟩
  | msg :: _ => handleLoop msg around (msgLen / size) 0 ⟨s, []⟩

section Read

variable {msg : Msg} {around : Nat → Around} {batch : List Msg} {s : Shared} {size : Nat}

/-- Every pass handles the same message. -/
lemma handleLoop_calls (k i : Nat) (h : Handled) :
    (handleLoop msg around k i h).calls = h.calls ++ List.replicate k msg := by
  induction k generalizing i h with
  | zero => simp [handleLoop]
  | succ k ih =>
    rw [handleLoop, ih]
    simp [List.replicate_succ]

/-- As many calls as messages, all with the first one. -/
lemma handleRead_calls (hs : 0 < size) :
    (handleRead size around batch s).calls =
      List.replicate batch.length (batch.headD ⟨.other 0, default⟩) := by
  cases batch with
  | nil => rfl
  | cons m ms =>
    rw [handleRead, handleLoop_calls, Nat.mul_div_cancel_left _ hs]
    rfl

end Read

/-- A batch that one `read` returns is handled message by message, each once and in order, exactly
when all its messages are the same as its first one. -/
theorem handleRead_calls_iff (size : Nat) (hs : 0 < size) (around : Nat → Around)
    (batch : List Msg) (s : Shared) :
    (handleRead size around batch s).calls = batch ↔ ∀ m ∈ batch, batch.head? = some m := by
  rw [handleRead_calls hs]
  cases batch with
  | nil => simp
  | cons m ms =>
    simp only [List.headD_cons, List.head?_cons, Option.some.injEq]
    constructor
    · intro h x hx
      rw [← h] at hx
      exact (List.eq_of_mem_replicate hx).symm
    · intro h
      exact (List.eq_replicate_of_mem fun x hx => (h x hx).symm).symm

/-- Nothing is found but memory. -/
def Around.sample : Around := ⟨.forceAllSpScan, true, default⟩

/-- The message that adds an access point. -/
def Msg.add (x : UInt8) : Msg := ⟨.spAddNewOne, Mac.sample x⟩

/-- Of two messages that are the same, both are handled. -/
theorem handleRead_calls_iff_repeated :
    (handleRead 8 (fun _ => .sample) [.add 3, .add 3] .pair).calls = [.add 3, .add 3] :=
  (handleRead_calls_iff 8 (by decide) (fun _ => .sample) [.add 3, .add 3] .pair).2 (by decide)

/-- Of two new access points announced between two reads, the first is handled twice and the second
not at all. -/
theorem handleRead_repeats_first :
    let h := handleRead 8 (fun _ => .sample) [.add 3, .add 4] .pair
    h.calls = [.add 3, .add 3] ∧ h.calls ≠ [.add 3, .add 4] ∧
      idToBssid (Mac.sample 4) ∉ h.shared.head.macs := by
  decide

/-! The list and its counter. -/

/-- `SlList`: the nodes from the head on, and the counter that is kept with them. -/
structure SlList where
  nodes : List Node
  count : Nat

/-- The list library, with what the module relies on: `slListAdd` inserts the given node and no
other, `slListDelete` removes the node at the place it is given, and both maintain the counter. -/
structure SlLib where
  slListInit : SlList
  slListAdd : SlList → Node → SlList
  slListDelete : SlList → Nat → SlList
  init_nodes : slListInit.nodes = []
  init_count : slListInit.count = 0
  add_nodes : ∀ l n, (slListAdd l n).nodes.Perm (n :: l.nodes)
  add_count : ∀ l n, (slListAdd l n).count = l.count + 1
  delete_nodes : ∀ l i, i < l.nodes.length → (slListDelete l i).nodes.Perm (l.nodes.eraseIdx i)
  delete_count : ∀ l i, i < l.nodes.length → (slListDelete l i).count = l.count - 1

/-- What `updateSPInfo` does to `headDCA.slList`. -/
def updateList (lib : SlLib) (l : SlList) (u : Update) : SlList :=
  let found := findSpByMAC l.nodes u.mac
  match u.msg.msgCmd with
  | .spAddNewOne =>
    match found with
    | none => if u.malloc then lib.slListAdd l u.node else l
    | some _ => l
  | .spDelOldOne =>
    match found with
    | none => l
    | some index => lib.slListDelete l index
  | .spChangeIntoOperational =>
    match found with
    | none => l
    | some index =>
      { l with nodes := l.nodes.modify index fun n => { n with spScanMode := .forceThisSpScan } }
  | _ => l

/-- What `spInfoInit` does to it. -/
def initList (lib : SlLib) (heap : Mac → Node) (peers : List Peer) : SlList :=
  peers.foldl (fun l p => lib.slListAdd l (initNode p (heap p.id))) lib.slListInit

/-- The library that inserts at the head. -/
def SlLib.atHead : SlLib where
  slListInit := ⟨[], 0⟩
  slListAdd l n := ⟨n :: l.nodes, l.count + 1⟩
  slListDelete l i := ⟨l.nodes.eraseIdx i, l.count - 1⟩
  init_nodes := rfl
  init_count := rfl
  add_nodes _ _ := .refl _
  add_count _ _ := rfl
  delete_nodes _ _ _ := .refl _
  delete_count _ _ _ := rfl

/-- `headDCA.slList` with its counter. -/
def Head.sl (h : Head) : SlList := ⟨h.slList, h.count⟩

/-- `updateSPInfo` on the shared state is `updateList` on its list. -/
lemma updateList_atHead (u : Update) (s : Shared) :
    updateList .atHead s.head.sl u = (updateSPInfo u s).1.head.sl := by
  unfold updateList updateSPInfo
  cases u.msg.msgCmd with
  | spAddNewOne =>
    cases hf : findSpByMAC s.head.slList u.mac with
    | none =>
      cases hm : u.malloc with
      | true => simp [Head.sl, hf, SlLib.atHead, Shared.add, Head.count]
      | false => simp [Head.sl, hf]
    | some i => simp [Head.sl, hf]
  | spDelOldOne =>
    cases hf : findSpByMAC s.head.slList u.mac with
    | none => simp [Head.sl, hf, Shared.skipSlot, Head.count]
    | some i =>
      obtain ⟨hi, -⟩ := findSpByMAC_eq_some hf
      simp [Head.sl, hf, SlLib.atHead, Shared.delete, Head.count, List.length_eraseIdx, hi]
  | spChangeIntoOperational =>
    cases hf : findSpByMAC s.head.slList u.mac with
    | none => simp [Head.sl, hf]
    | some i => simp [Head.sl, hf, Shared.forceScan, Head.count]
  | _ => rfl

/-- `spInfoInit` of the shared state is `initList`. -/
lemma initList_atHead (heap : Mac → Node) (peers : List Peer) (h : Head) :
    initList .atHead heap peers = (spInfoInit peers heap h).sl := by
  have hfold : ∀ (ns : List Node) (c : Nat),
      peers.foldl (fun l p => SlLib.atHead.slListAdd l (initNode p (heap p.id))) ⟨ns, c⟩ =
        ⟨(peers.map fun p => initNode p (heap p.id)).reverse ++ ns, peers.length + c⟩ := by
    induction peers with
    | nil => simp
    | cons p ps ih =>
      intro ns c
      rw [List.foldl_cons]
      change List.foldl _ (⟨initNode p (heap p.id) :: ns, c + 1⟩ : SlList) ps = _
      rw [ih]
      simp only [List.map_cons, List.reverse_cons, List.append_assoc, List.singleton_append,
        List.length_cons]
      congr 1
      omega
  change List.foldl _ (⟨[], 0⟩ : SlList) peers = _
  rw [hfold]
  simp [Head.sl, spInfoInit, Head.count]

/-- The addresses in the list. -/
def SlList.macs (l : SlList) : List Mac := l.nodes.map (·.bssid)

/-- No address twice, and the counter is right. -/
structure SlList.Ok (l : SlList) : Prop where
  nodup : l.macs.Nodup
  count : l.count = l.nodes.length

lemma idToBssid_inj {m m' : Mac} : idToBssid m = idToBssid m' ↔ m = m' := by
  obtain ⟨a0, a1, a2, a3, a4, a5⟩ := m
  obtain ⟨b0, b1, b2, b3, b4, b5⟩ := m'
  simp [idToBssid]

/-- The two macros undo each other, also where the last byte wraps around. -/
lemma idToBssid_eq_iff {id b : Mac} : idToBssid id = b ↔ id = bssidToId b := by
  constructor
  · rintro rfl
    simp [idToBssid, bssidToId]
  · rintro rfl
    simp [idToBssid, bssidToId]

section Lists

variable {lib : SlLib} {l : SlList} {u : Update} {i : Nat}

lemma SlList.Ok.add (h : l.Ok) {n : Node} (hn : n.bssid ∉ l.macs) : (lib.slListAdd l n).Ok where
  nodup := by
    rw [SlList.macs, ((lib.add_nodes l n).map _).nodup_iff]
    exact List.nodup_cons.2 ⟨hn, h.nodup⟩
  count := by
    rw [lib.add_count, (lib.add_nodes l n).length_eq, h.count]
    rfl

lemma mem_macs_slListAdd {n : Node} {b : Mac} :
    b ∈ (lib.slListAdd l n).macs ↔ b = n.bssid ∨ b ∈ l.macs := by
  rw [SlList.macs, ((lib.add_nodes l n).map _).mem_iff]
  exact List.mem_cons

lemma SlList.Ok.delete (h : l.Ok) (hi : i < l.nodes.length) : (lib.slListDelete l i).Ok where
  nodup := by
    rw [SlList.macs, ((lib.delete_nodes l i hi).map _).nodup_iff, ← List.eraseIdx_map]
    exact h.nodup.eraseIdx i
  count := by
    rw [lib.delete_count l i hi, (lib.delete_nodes l i hi).length_eq, List.length_eraseIdx_of_lt hi,
      h.count]

lemma mem_macs_slListDelete (h : l.Ok) {mac b : Mac} (hf : findSpByMAC l.nodes mac = some i) :
    b ∈ (lib.slListDelete l i).macs ↔ b ≠ mac ∧ b ∈ l.macs := by
  obtain ⟨hi, -⟩ := findSpByMAC_eq_some hf
  rw [SlList.macs, ((lib.delete_nodes l i hi).map _).mem_iff, ← List.eraseIdx_map]
  exact mem_eraseIdx_found h.nodup hf

/-- What one message does to the list. -/
lemma updateList_spec (hm : u.malloc = true) (h : l.Ok) :
    (updateList lib l u).Ok ∧ ∀ b, b ∈ (updateList lib l u).macs ↔
      (u.msg.msgCmd = .spAddNewOne ∧ u.mac = b) ∨
        b ∈ l.macs ∧ ¬ (u.msg.msgCmd = .spDelOldOne ∧ u.mac = b) := by
  unfold updateList
  cases hc : u.msg.msgCmd with
  | spAddNewOne =>
    cases hf : findSpByMAC l.nodes u.mac with
    | none =>
      simp only [hm, if_true]
      refine ⟨h.add (findSpByMAC_eq_none.1 hf), fun b => ?_⟩
      rw [mem_macs_slListAdd]
      simp [Update.node, eq_comm]
    | some i =>
      refine ⟨h, fun b => ?_⟩
      have hin : u.mac ∈ l.macs := by
        obtain ⟨hi, hb⟩ := findSpByMAC_eq_some hf
        rw [← hb]
        exact List.mem_map_of_mem (List.getElem_mem hi)
      constructor
      · intro hb
        exact .inr ⟨hb, by simp⟩
      · rintro (⟨-, rfl⟩ | ⟨hb, -⟩)
        · exact hin
        · exact hb
  | spDelOldOne =>
    cases hf : findSpByMAC l.nodes u.mac with
    | none =>
      refine ⟨h, fun b => ?_⟩
      have hout : u.mac ∉ l.macs := findSpByMAC_eq_none.1 hf
      simp only [reduceCtorEq, false_and, false_or, true_and]
      constructor
      · intro hb
        exact ⟨hb, fun he => hout (he ▸ hb)⟩
      · exact And.left
    | some i =>
      obtain ⟨hi, -⟩ := findSpByMAC_eq_some hf
      refine ⟨h.delete hi, fun b => ?_⟩
      rw [mem_macs_slListDelete h hf]
      simp [and_comm, eq_comm]
  | spChangeIntoOperational =>
    cases hf : findSpByMAC l.nodes u.mac with
    | none => exact ⟨h, fun b => by simp⟩
    | some i =>
      have hmacs : (l.nodes.modify i fun n => { n with spScanMode := .forceThisSpScan }).map
          (·.bssid) = l.macs := map_bssid_modify fun _ => rfl
      refine ⟨⟨?_, ?_⟩, fun b => ?_⟩
      · rw [SlList.macs, hmacs]
        exact h.nodup
      · rw [List.length_modify]
        exact h.count
      · rw [SlList.macs, hmacs]
        simp
  | _ => exact ⟨h, fun b => by simp⟩

/-- The loop of `spInfoInit` lists the peers' addresses. -/
lemma initList_spec (heap : Mac → Node) {peers : List Peer} (hd : (peers.map (·.id)).Nodup) :
    (initList lib heap peers).Ok ∧
      ∀ b, b ∈ (initList lib heap peers).macs ↔ bssidToId b ∈ peers.map (·.id) := by
  have hfold : ∀ l : SlList, l.Ok → (∀ p ∈ peers, idToBssid p.id ∉ l.macs) →
      (peers.foldl (fun l p => lib.slListAdd l (initNode p (heap p.id))) l).Ok ∧
        ∀ b, b ∈ (peers.foldl (fun l p => lib.slListAdd l (initNode p (heap p.id))) l).macs ↔
          b ∈ l.macs ∨ bssidToId b ∈ peers.map (·.id) := by
    induction peers with
    | nil =>
      intro l hl _
      exact ⟨hl, fun b => by simp⟩
    | cons p ps ih =>
      intro l hl hnew
      obtain ⟨hp, hd⟩ := List.nodup_cons.1 hd
      have hadd : (lib.slListAdd l (initNode p (heap p.id))).Ok :=
        hl.add (hnew p (List.mem_cons_self ..))
      obtain ⟨hok, hmem⟩ := ih hd _ hadd (by
        intro q hq
        rw [mem_macs_slListAdd]
        rintro (he | hin)
        · exact hp (List.mem_map.2 ⟨q, hq, idToBssid_inj.1 he⟩)
        · exact hnew q (List.mem_cons_of_mem _ hq) hin)
      refine ⟨hok, fun b => ?_⟩
      have hb : b = (initNode p (heap p.id)).bssid ↔ bssidToId b = p.id := by
        rw [eq_comm, @eq_comm _ (bssidToId b)]
        exact idToBssid_eq_iff
      rw [List.foldl_cons, hmem, mem_macs_slListAdd, hb, List.map_cons, List.mem_cons]
      tauto
  have hnil : lib.slListInit.macs = [] := by
    rw [SlList.macs, lib.init_nodes]
    rfl
  obtain ⟨hok, hmem⟩ := hfold lib.slListInit
    ⟨by rw [hnil]; exact List.nodup_nil, by rw [lib.init_count, lib.init_nodes]; rfl⟩
    (fun p _ => by rw [hnil]; exact List.not_mem_nil)
  refine ⟨hok, fun b => ?_⟩
  rw [initList, hmem, hnil]
  simp

end Lists

/-- The message adds the peer. -/
def Update.Adds (id : Mac) (u : Update) : Prop := u.msg.msgCmd = .spAddNewOne ∧ u.msg.msgMac = id

/-- The message deletes the peer. -/
def Update.Deletes (id : Mac) (u : Update) : Prop :=
  u.msg.msgCmd = .spDelOldOne ∧ u.msg.msgMac = id

/-- From any list of peers with different ids on, and after any sequence of messages whose
allocations succeed: the addresses in the list are different, the counter is the number of nodes,
and an address is listed exactly when its id was a peer at the start or was added, and was not
deleted afterwards. -/
theorem slList_integrity (lib : SlLib) (heap : Mac → Node) (peers : List Peer)
    (hd : (peers.map (·.id)).Nodup) (us : List Update) (hm : ∀ u ∈ us, u.malloc = true) :
    let l := us.foldl (updateList lib) (initList lib heap peers)
    l.macs.Nodup ∧ l.count = l.nodes.length ∧
      ∀ b, b ∈ l.macs ↔ Standing (Update.Adds (bssidToId b)) (Update.Deletes (bssidToId b))
        (bssidToId b ∈ peers.map (·.id)) us := by
  obtain ⟨hok, hmem⟩ := @initList_spec lib heap peers hd
  have hrun := run_total_function (updateList lib) (initList lib heap peers) us
  have hok' : (us.foldl (updateList lib) (initList lib heap peers)).Ok := by
    have htotal : ∃ l, run (fun l u => some (updateList lib l u)) (initList lib heap peers) us =
        some l ∧ l.Ok :=
      run_total (I := SlList.Ok) hok fun u hu l h => ⟨_, rfl, (updateList_spec (hm u hu) h).1⟩
    obtain ⟨l, hl, hI⟩ := htotal
    rw [hrun] at hl
    cases hl
    exact hI
  refine ⟨hok'.nodup, hok'.count, fun b => ?_⟩
  rw [← propext (hmem b)]
  refine standing_run (M := fun l : SlList => b ∈ l.macs) hrun hok ?_
  intro u hu l l' h hstep
  cases hstep
  obtain ⟨hI, hb⟩ := @updateList_spec lib l u (hm u hu) h
  refine ⟨hI, ?_⟩
  rw [hb b]
  simp only [Update.Adds, Update.Deletes, Update.mac, idToBssid_eq_iff]

/-- Peers 1 and 2; peer 1 is deleted and added again, peer 3 is added twice, and the last byte of
a fourth wraps around. -/
theorem slList_integrity_readded :
    let peers := [Peer.sample 1, Peer.sample 2]
    let us := [Around.sample.update ⟨.spDelOldOne, Mac.sample 1⟩, Around.sample.update (.add 1),
      Around.sample.update (.add 3), Around.sample.update (.add 3),
      Around.sample.update ⟨.spAddNewOne, ⟨2, 0, 0, 0, 4, 255⟩⟩]
    (peers.map (·.id)).Nodup ∧ (∀ u ∈ us, u.malloc = true) ∧
      let l := us.foldl (updateList .atHead) (initList .atHead (fun _ => default) peers)
      l.macs.Nodup ∧ l.count = l.nodes.length ∧
        ∀ b, b ∈ l.macs ↔ Standing (Update.Adds (bssidToId b)) (Update.Deletes (bssidToId b))
          (bssidToId b ∈ peers.map (·.id)) us :=
  ⟨by decide, by decide, slList_integrity .atHead _ _ (by decide) _ (by decide)⟩

end CcodeTest.Dcs
