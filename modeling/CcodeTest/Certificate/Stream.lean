import CcodeTest.Certificate.Decode
import CcodeTest.Certificate.Encode

/-!
# Decoding in blocks

The other direction of `Encode`: a code that comes in blocks, `base64_decode_block` being called for
each with the state of the one before, and its output put behind what is there. Between two calls the
byte under construction is kept in the state and stored again at the beginning of the next, so that
a group may be cut anywhere. What is not of the alphabet has no value and is passed over.

`decodeLoop_copy` is the loop with exactly the room it takes: one cell more than the bytes it
completes. The blocks then give the whole bytes in the bits of the characters
(`decodeBlocks_flatten`), and what was encoded comes back however it was cut and broken into lines.
-/

namespace CcodeTest.Certificate
open CcodeTest.Lib CcodeTest.Base64

/-- The calls for a code that comes in blocks, with the output from `k` on. -/
def decodeBlocksFrom (blocks : List (List UInt8)) (state : DecodeState) (k : Nat)
    (plain : List UInt8) : Option (DecodeState × Nat × List UInt8) :=
  match blocks with
  | [] => some (state, k, plain)
  | code :: blocks => do
    let (n, state, b) ← base64DecodeBlock ⟨code, some (plain.drop k)⟩ code.length state
    decodeBlocksFrom blocks state (k + n) (plain.take k ++ b.out)

/-- They begin with `base64_init_decodestate`. -/
def decodeBlocks (blocks : List (List UInt8)) (plain : List UInt8) :
    Option (DecodeState × Nat × List UInt8) :=
  decodeBlocksFrom blocks base64InitDecodestate 0 plain

/-! The machine behind the loop. -/

/-- A value: the step and the byte under construction after it, and the byte it completes. -/
def advance : DecodeStep × UInt8 → Nat → (DecodeStep × UInt8) × List UInt8
  | (.a, _), v => ((.b, UInt8.ofNat ((v &&& 0x03f) <<< 2)), [])
  | (.b, cell), v => ((.c, UInt8.ofNat ((v &&& 0x00f) <<< 4)),
      [cell ||| UInt8.ofNat ((v &&& 0x030) >>> 4)])
  | (.c, cell), v => ((.d, UInt8.ofNat ((v &&& 0x003) <<< 6)),
      [cell ||| UInt8.ofNat ((v &&& 0x03c) >>> 2)])
  | (.d, cell), v => ((.a, 0), [cell ||| UInt8.ofNat (v &&& 0x03f)])

/-- A character. -/
def decodeChar (S : DecodeStep × UInt8) (c : UInt8) : (DecodeStep × UInt8) × List UInt8 :=
  if base64DecodeValue c.toInt8 < 0 then (S, []) else advance S (base64DecodeValue c.toInt8).toNat

lemma length_advance (S : DecodeStep × UInt8) (v : Nat) : (advance S v).2.length = S.1.begun := by
  obtain ⟨step, cell⟩ := S
  cases step <;> rfl

/-- Between two groups there is no byte under construction; otherwise it is in the cell. -/
def Holds (S : DecodeStep × UInt8) (cell : Option UInt8) : Prop := S.1 ≠ .a → cell = some S.2

/-- The bytes `e` from `p` on, and one cell behind them for the byte under construction. -/
structure Written (plain : List UInt8) (p : Nat) (e o : List UInt8) : Prop where
  length : o.length = plain.length
  take : o.take (p + e.length) = plain.take p ++ e
  drop : o.drop (p + e.length + 1) = plain.drop (p + e.length + 1)

lemma Written.refl (plain : List UInt8) (p : Nat) : Written plain p [] plain :=
  ⟨rfl, (List.append_nil _).symm, rfl⟩

lemma Written.trans {plain e o e' o' : List UInt8} {p : Nat} (h : Written plain p e o)
    (h' : Written o (p + e.length) e' o') : Written plain p (e ++ e') o' := by
  have hlen : p + (e ++ e').length = p + e.length + e'.length := by
    rw [List.length_append, Nat.add_assoc]
  have hsplit : p + (e ++ e').length + 1 = (p + e.length + 1) + e'.length := by omega
  refine ⟨h'.length.trans h.length, ?_, ?_⟩
  · rw [hlen, h'.take, h.take, List.append_assoc]
  · rw [hlen, h'.drop, ← hlen, hsplit, ← List.drop_drop, h.drop, List.drop_drop]

section Step

variable {code plain : List UInt8} {p : Nat} {S : DecodeStep × UInt8}

/-- What a value does to the blocks and to `plainchar`: the byte it completes is stored, and the
byte that is then under construction. -/
structure Stored (code plain : List UInt8) (p : Nat) (S : DecodeStep × UInt8) (v : Nat)
    (o : List UInt8) : Prop extends Written plain p (advance S v).2 o where
  eq : decodeFragment S.1 v p ⟨code, some plain⟩ =
    some ((advance S v).1.1, p + (advance S v).2.length, ⟨code, some o⟩)
  holds : Holds (advance S v).1 o[p + (advance S v).2.length]?

lemma Advances.stored {o : List UInt8} {v : Nat}
    (h : Advances ⟨code, some plain⟩ S.1 S.2 v p (advance S v).1.1 o (advance S v).2)
    (hcell : Holds (advance S v).1 o[p + (advance S v).2.length]?) :
    Stored code plain p S v o := by
  refine ⟨⟨h.length, h.take, ?_⟩, h.eq, hcell⟩
  apply List.ext_getElem?
  intro j
  rw [List.getElem?_drop, List.getElem?_drop]
  refine h.same _ ?_
  rw [length_advance]
  omega

lemma begun_of_ne (h : S.1 ≠ .a) : S.1.begun = 1 := by
  obtain ⟨step, cell⟩ := S
  cases step with
  | a => exact absurd rfl h
  | b | c | d => rfl

lemma room_begun (hp : p < plain.length) (hroom : S.1 ≠ .a → p + 1 < plain.length) :
    p + S.1.begun < plain.length := by
  by_cases h : S.1 = .a
  · rw [h]
    exact hp
  · rw [begun_of_ne h]
    exact hroom h

/-- There is room when the byte under construction and the next one are inside. -/
lemma exists_stored (hp : p < plain.length) (hcell : Holds S plain[p]?) (v : Nat)
    (hroom : S.1 ≠ .a → p + 1 < plain.length) : ∃ o, Stored code plain p S v o := by
  obtain ⟨step, cell⟩ := S
  cases step with
  | a => exact ⟨_, (advances_a hp).stored fun _ => List.getElem?_set_self hp⟩
  | b | c =>
    have hcell' : plain[p]? = some cell := hcell (by simp)
    have hlt : p + 1 < plain.length := hroom (by simp)
    have hset (x : UInt8) : p + 1 < (plain.set p x).length := by rwa [List.length_set]
    refine ⟨_, (advances_middle hlt ?_ rfl rfl fun vs => rfl).stored fun _ =>
      List.getElem?_set_self (hset _)⟩
    simp only [decodeFragment, Bufs.out, Option.getD_some, hcell', Option.bind_eq_bind,
      Option.bind_some]
    rfl
  | d => exact ⟨_, (advances_d (hroom (by simp)) (hcell (by simp))).stored fun h => absurd rfl h⟩

/-- Behind the block there is no outcome. -/
lemma decodeLoop_behind (h : plain.length ≤ p) (k : Nat) (step : DecodeStep) (i : Nat) :
    decodeLoop k step i p ⟨code, some plain⟩ = none := by
  have hread : plain[p]? = none := List.getElem?_eq_none h
  have hput (v : UInt8) : (⟨code, some plain⟩ : Bufs).put p v = none := by
    simp only [Bufs.put, store, if_neg (Nat.not_lt.2 h), Option.map_none]
  induction k generalizing step i with
  | zero =>
    simp only [decodeLoop, Bufs.out, Option.getD_some, hread, Option.bind_eq_bind,
      Option.bind_none]
  | succ k ih =>
    rw [decodeLoop]
    cases code[i]? with
    | none => rfl
    | some c =>
      rw [Option.bind_eq_bind, Option.bind_some]
      dsimp only
      split
      · exact ih step (i + 1)
      · cases step <;>
          simp only [decodeFragment, Bufs.out, Option.getD_some, hread, hput, Option.bind_eq_bind,
            Option.bind_none]

/-- Without room for the next byte a value leads out of the block, if not at once then after it. -/
lemma decodeLoop_full (hp : plain.length = p + 1) (hstep : S.1 ≠ .a) {c : UInt8} {i k : Nat}
    (hc : code[i]? = some c) (hv : ¬ base64DecodeValue c.toInt8 < 0) :
    decodeLoop (k + 1) S.1 i p ⟨code, some plain⟩ = none := by
  have hlt : p < plain.length := by omega
  have hnext (x : UInt8) : (plain.set p x).length ≤ p + 1 := by
    rw [List.length_set]
    exact Nat.le_of_eq hp
  have hput (x : UInt8) : (⟨code, some plain⟩ : Bufs).put p x = some ⟨code, some (plain.set p x)⟩ :=
    put_eq (show p < (⟨code, some plain⟩ : Bufs).out.length from hlt)
  have hput' (x y : UInt8) : (⟨code, some (plain.set p x)⟩ : Bufs).put (p + 1) y = none := by
    simp only [Bufs.put, store, if_neg (Nat.not_lt.2 (hnext x)), Option.map_none]
  simp only [decodeLoop, hc, Option.bind_eq_bind, Option.bind_some, if_neg hv]
  obtain ⟨step, cell⟩ := S
  cases step with
  | a => exact absurd rfl hstep
  | b | c =>
    simp only [decodeFragment, Bufs.out, Option.getD_some, List.getElem?_eq_getElem hlt, hput,
      hput', Option.bind_eq_bind, Option.bind_some, Option.bind_none]
  | d =>
    simp only [decodeFragment, Bufs.out, Option.getD_some, List.getElem?_eq_getElem hlt, hput,
      Option.bind_eq_bind, Option.bind_some]
    exact decodeLoop_behind (hnext _) k .a (i + 1)

/-- The loop in a block of its own, with the room it takes. -/
lemma decodeLoop_copy {i k : Nat} (hi : i + k ≤ code.length) (hp : p < plain.length)
    (hcell : Holds S plain[p]?) :
    let r := feed decodeChar S ((code.drop i).take k)
    (plain.length ≤ p + r.2.length → decodeLoop k S.1 i p ⟨code, some plain⟩ = none) ∧
    (p + r.2.length < plain.length → ∃ state o,
      decodeLoop k S.1 i p ⟨code, some plain⟩ = some (p + r.2.length, state, ⟨code, some o⟩) ∧
      Written plain p r.2 o ∧ state.step = r.1.1 ∧ Holds r.1 (some state.plainchar)) := by
  induction k generalizing i p plain S with
  | zero =>
    rw [List.take_zero]
    refine ⟨fun h => absurd h (Nat.not_le.2 hp), fun _ => ?_⟩
    refine ⟨⟨S.1, plain[p]⟩, plain, ?_, Written.refl plain p, rfl, ?_⟩
    · simp only [decodeLoop, Bufs.out, Option.getD_some, List.getElem?_eq_getElem hp,
        Option.bind_eq_bind, Option.bind_some]
      rfl
    · rwa [List.getElem?_eq_getElem hp] at hcell
  | succ k ih =>
    have hlt : i < code.length := by omega
    have hc : code[i]? = some code[i] := List.getElem?_eq_getElem hlt
    have hread : (code.drop i).take (k + 1) = code[i] :: (code.drop (i + 1)).take k := by
      rw [List.drop_eq_getElem_cons hlt, List.take_succ_cons]
    rw [hread]
    by_cases hv : base64DecodeValue code[i].toInt8 < 0
    · have hloop : decodeLoop (k + 1) S.1 i p ⟨code, some plain⟩ =
          decodeLoop k S.1 (i + 1) p ⟨code, some plain⟩ := by
        simp only [decodeLoop, hc, Option.bind_eq_bind, Option.bind_some, if_pos hv]
      simp only [feed, decodeChar, if_pos hv, List.nil_append, hloop]
      exact ih (by omega) hp hcell
    · simp only [feed, decodeChar, if_neg hv]
      generalize hval : (base64DecodeValue code[i].toInt8).toNat = v
      by_cases hroom : S.1 ≠ .a → p + 1 < plain.length
      · obtain ⟨o, hs⟩ : ∃ o, Stored code plain p S v o := exists_stored hp hcell v hroom
        have hloop : decodeLoop (k + 1) S.1 i p ⟨code, some plain⟩ =
            decodeLoop k (advance S v).1.1 (i + 1) (p + (advance S v).2.length) ⟨code, some o⟩ := by
          simp only [decodeLoop, hc, Option.bind_eq_bind, Option.bind_some, if_neg hv, hval, hs.eq]
        have hlt' : p + (advance S v).2.length < o.length := by
          rw [length_advance, hs.length]
          exact room_begun hp hroom
        obtain ⟨hnone, hsome⟩ := ih (show i + 1 + k ≤ code.length by omega) hlt' hs.holds
        rw [hs.length, Nat.add_assoc, ← List.length_append] at hnone hsome
        rw [hloop]
        refine ⟨hnone, fun hfit => ?_⟩
        obtain ⟨state, o', hrun, hw, hstep, hholds⟩ := hsome hfit
        exact ⟨state, o', hrun, hs.toWritten.trans hw, hstep, hholds⟩
      · obtain ⟨hstep, hfull⟩ := Classical.not_imp.1 hroom
        refine ⟨fun _ => decodeLoop_full (by omega) hstep hc hv, fun hfit => ?_⟩
        have hone := (length_advance S v).trans (begun_of_ne hstep)
        rw [List.length_append] at hfit
        omega

end Step

/-! The blocks. -/

section Blocks

variable {plain : List UInt8} {k : Nat} {S : DecodeStep × UInt8}

/-- The state is stored first, in the cell of the byte under construction. -/
lemma Written.of_set {x : UInt8} {e o : List UInt8} (h : Written (plain.set 0 x) 0 e o) :
    Written plain 0 e o := by
  refine ⟨h.length.trans List.length_set, h.take, ?_⟩
  rw [h.drop, List.drop_set_of_lt (Nat.succ_pos _)]

/-- A call that is given the rest of a block. -/
lemma Written.behind {e o : List UInt8} (h : Written (plain.drop k) 0 e o) (hk : k < plain.length) :
    Written plain k e (plain.take k ++ o) := by
  have hlen : (plain.take k).length = k := by
    rw [List.length_take, Nat.min_eq_left (Nat.le_of_lt hk)]
  have hcut := h.take
  have hrest := h.drop
  rw [Nat.zero_add] at hcut hrest
  refine ⟨?_, ?_, ?_⟩
  · rw [List.length_append, hlen, h.length, List.length_drop]
    omega
  · rw [List.take_append, hlen, Nat.add_sub_cancel_left, hcut, List.take_take,
      Nat.min_eq_right (Nat.le_add_right k _)]
    rfl
  · rw [List.drop_append, hlen, List.drop_of_length_le (by omega), Nat.add_assoc,
      Nat.add_sub_cancel_left, hrest, List.drop_drop]
    rfl

/-- One call, from a state that holds the byte under construction. -/
lemma base64DecodeBlock_copy (code : List UInt8) {state : DecodeState} (hstep : state.step = S.1)
    (hstate : Holds S (some state.plainchar)) :
    let r := feed decodeChar S code
    (plain.length ≤ r.2.length →
      base64DecodeBlock ⟨code, some plain⟩ code.length state = none) ∧
    (r.2.length < plain.length → ∃ state' o,
      base64DecodeBlock ⟨code, some plain⟩ code.length state =
        some (r.2.length, state', ⟨code, some o⟩) ∧
      Written plain 0 r.2 o ∧ state'.step = r.1.1 ∧ Holds r.1 (some state'.plainchar)) := by
  have hneg : ¬ (code.length : Int) < 0 := Int.not_lt.2 (Int.natCast_nonneg _)
  by_cases hpos : 0 < plain.length
  · have hput : (⟨code, some plain⟩ : Bufs).put 0 state.plainchar =
        some ⟨code, some (plain.set 0 state.plainchar)⟩ :=
      put_eq (show 0 < (⟨code, some plain⟩ : Bufs).out.length from hpos)
    have hcell : Holds S (plain.set 0 state.plainchar)[0]? := by
      rwa [List.getElem?_set_self hpos]
    have hcall : base64DecodeBlock ⟨code, some plain⟩ code.length state =
        decodeLoop code.length S.1 0 0 ⟨code, some (plain.set 0 state.plainchar)⟩ := by
      simp only [base64DecodeBlock, hput, Option.bind_eq_bind, Option.bind_some, if_neg hneg, hstep]
      rfl
    have hloop := @decodeLoop_copy code (plain.set 0 state.plainchar) 0 S 0 code.length
      (Nat.le_of_eq (Nat.zero_add _)) (by rwa [List.length_set]) hcell
    rw [List.drop_zero, List.take_length] at hloop
    simp only [Nat.zero_add, List.length_set] at hloop
    rw [hcall]
    refine ⟨hloop.1, fun hfit => ?_⟩
    obtain ⟨state', o, hrun, hw, hrest⟩ := hloop.2 hfit
    exact ⟨state', o, hrun, hw.of_set, hrest⟩
  · -- not even the cell of the byte under construction
    refine ⟨fun _ => ?_, fun hfit => absurd (Nat.zero_lt_of_lt hfit) hpos⟩
    simp only [base64DecodeBlock, Bufs.put, store, if_neg hpos, Option.map_none,
      Option.bind_eq_bind, Option.bind_none]

/-- The blocks from `k` on: whole, with room for one cell more than what they complete. -/
lemma decodeBlocksFrom_eq (blocks : List (List UInt8)) {state : DecodeState}
    (hstep : state.step = S.1) (hstate : Holds S (some state.plainchar)) (hk : k < plain.length) :
    let r := feed decodeChar S blocks.flatten
    (plain.length ≤ k + r.2.length → decodeBlocksFrom blocks state k plain = none) ∧
    (k + r.2.length < plain.length → ∃ state' o,
      decodeBlocksFrom blocks state k plain = some (state', k + r.2.length, o) ∧
      Written plain k r.2 o) := by
  induction blocks generalizing state k plain S with
  | nil =>
    refine ⟨fun h => absurd h (Nat.not_le.2 hk), fun _ => ⟨state, plain, rfl, Written.refl plain k⟩⟩
  | cons code blocks ih =>
    have hcall := @base64DecodeBlock_copy (plain.drop k) S code state hstep hstate
    rw [List.length_drop] at hcall
    rw [List.flatten_cons, feed_append]
    simp only [decodeBlocksFrom, List.length_append]
    by_cases hfit : (feed decodeChar S code).2.length < plain.length - k
    · obtain ⟨state', o, hrun, hw, hstep', hholds⟩ := hcall.2 hfit
      have hw' := hw.behind hk
      have hk' : k + (feed decodeChar S code).2.length < (plain.take k ++ o).length := by
        rw [hw'.length]
        omega
      obtain ⟨hnone, hsome⟩ := ih hstep' hholds hk'
      rw [hw'.length, Nat.add_assoc] at hnone hsome
      simp only [hrun, Option.bind_eq_bind, Option.bind_some, Bufs.out, Option.getD_some]
      refine ⟨hnone, fun h => ?_⟩
      obtain ⟨state'', o', hrun', hw''⟩ := hsome h
      exact ⟨state'', o', hrun', hw'.trans hw''⟩
    · refine ⟨fun _ => ?_, fun h => absurd h (by omega)⟩
      rw [hcall.1 (by omega)]
      rfl

end Blocks

/-! What the characters stand for. -/

section Characters

variable {c0 c1 c2 c3 : UInt8}

/-- The tables of the two decoders agree. -/
lemma pr2six_eq (c : UInt8) : pr2six c =
    if base64DecodeValue c.toInt8 < 0 then 64 else (base64DecodeValue c.toInt8).toNat := by
  have hall : ∀ n < 256, pr2six (UInt8.ofNat n) =
      if base64DecodeValue (UInt8.ofNat n).toInt8 < 0 then 64
      else (base64DecodeValue (UInt8.ofNat n).toInt8).toNat := by
    decide +kernel
  have hc := hall c.toNat c.toNat_lt
  rwa [UInt8.ofNat_toNat] at hc

lemma isPr_eq_false_iff (c : UInt8) : isPr c = false ↔ base64DecodeValue c.toInt8 < 0 := by
  have hlt := base64DecodeValue_lt c.toInt8
  rw [isPr, decide_eq_false_iff_not, pr2six_eq]
  split
  · rename_i hneg
    exact iff_of_true (by decide) hneg
  · rename_i hpos
    exact iff_of_false (by omega) hpos

lemma sextets_eq (cs : List UInt8) : sextets cs = (cs.filter isPr).map pr2six := by
  induction cs with
  | nil => rfl
  | cons c cs ih =>
    have hneg := isPr_eq_false_iff c
    rw [sextets_cons]
    cases hc : isPr c with
    | true =>
      have hpos : ¬ base64DecodeValue c.toInt8 < 0 := by
        rw [← hneg, hc]
        decide
      rw [if_neg hpos, List.filter_cons_of_pos hc, List.map_cons, ih, pr2six_eq, if_neg hpos]
    | false =>
      rw [if_pos (hneg.1 hc), List.filter_cons_of_neg (by simp [hc]), ih]

/-- The machine puts out what `emitted` says. -/
lemma feed_decodeChar (S : DecodeStep × UInt8) (cs : List UInt8) :
    (feed decodeChar S cs).2 = emitted S.1 S.2 (sextets cs) := by
  induction cs generalizing S with
  | nil =>
    obtain ⟨step, cell⟩ := S
    cases step <;> rfl
  | cons c cs ih =>
    rw [sextets_cons]
    by_cases hv : base64DecodeValue c.toInt8 < 0
    · simp only [feed, decodeChar, if_pos hv, List.nil_append, ih]
    · simp only [feed, decodeChar, if_neg hv, ih]
      obtain ⟨step, cell⟩ := S
      cases step <;> rfl

lemma byte_b_eq (h0 : pr2six c0 < 64) (h1 : pr2six c1 < 64) :
    UInt8.ofNat ((pr2six c0 &&& 0x03f) <<< 2) ||| UInt8.ofNat ((pr2six c1 &&& 0x030) >>> 4) =
      byte0 c0 c1 := by
  rw [← UInt8.toNat_inj, toNat_byte_b h0 h1, byte0_eq h1, UInt8.toNat_ofNat']
  omega

lemma byte_c_eq (h2 : pr2six c2 < 64) :
    UInt8.ofNat ((pr2six c1 &&& 0x00f) <<< 4) ||| UInt8.ofNat ((pr2six c2 &&& 0x03c) >>> 2) =
      byte1 c1 c2 := by
  rw [← UInt8.toNat_inj, toNat_byte_c h2, byte1_eq h2, UInt8.toNat_ofNat']
  omega

lemma byte_d_eq (h3 : pr2six c3 < 64) :
    UInt8.ofNat ((pr2six c2 &&& 0x003) <<< 6) ||| UInt8.ofNat (pr2six c3 &&& 0x03f) =
      byte2 c2 c3 := by
  rw [← UInt8.toNat_inj, toNat_byte_d h3, byte2_eq h3, UInt8.toNat_ofNat']
  omega

/-- The values of characters of the alphabet complete the whole bytes in their bits. -/
lemma emitted_run (run : List UInt8) (hpr : ∀ c ∈ run, isPr c = true) :
    emitted .a 0 (run.map pr2six) = sextetBytes run := by
  fun_induction decodeGroups run with
  | case1 c0 c1 c2 c3 cs ih =>
    simp only [List.forall_mem_cons] at hpr
    obtain ⟨h0, h1, h2, h3, hcs⟩ := hpr
    rw [sextetBytes_cons (pr2six_lt h0) (pr2six_lt h1) (pr2six_lt h2) (pr2six_lt h3), ← ih hcs]
    simp only [List.map_cons, emitted, byte_b_eq (pr2six_lt h0) (pr2six_lt h1),
      byte_c_eq (pr2six_lt h2), byte_d_eq (pr2six_lt h3)]
  | case2 run h =>
    rcases run with _ | ⟨c0, _ | ⟨c1, _ | ⟨c2, _ | ⟨c3, cs⟩⟩⟩⟩
    · rfl
    · rw [sextetBytes, cut_of_lt (by simp [bits])]
      rfl
    · simp only [List.forall_mem_cons] at hpr
      obtain ⟨h0, h1, -⟩ := hpr
      rw [sextetBytes_two (pr2six_lt h0) (pr2six_lt h1)]
      simp only [List.map_cons, List.map_nil, emitted, byte_b_eq (pr2six_lt h0) (pr2six_lt h1)]
    · simp only [List.forall_mem_cons] at hpr
      obtain ⟨h0, h1, h2, -⟩ := hpr
      rw [sextetBytes_three (pr2six_lt h0) (pr2six_lt h1) (pr2six_lt h2)]
      simp only [List.map_cons, List.map_nil, emitted, byte_b_eq (pr2six_lt h0) (pr2six_lt h1),
        byte_c_eq (pr2six_lt h2)]
    · exact absurd rfl (h c0 c1 c2 c3 cs)

/-- From the beginning on, the machine completes the whole bytes in the bits of the characters of
the alphabet. -/
lemma feed_decodeChar_init (cs : List UInt8) :
    (feed decodeChar (.a, 0) cs).2 = sextetBytes (cs.filter isPr) := by
  rw [feed_decodeChar, sextets_eq]
  exact emitted_run _ fun c hc => (List.mem_filter.1 hc).2

/-- The characters of an encoding that are of the alphabet hold the bytes. -/
lemma sextetBytes_encoded (d : List UInt8) : sextetBytes ((encoded d).filter isPr) = d := by
  have hpad : ¬ isPr pad64 = true := by decide
  fun_induction encoded d with
  | case1 i0 i1 i2 src o ih =>
    obtain ⟨h0, h1, h2, h3, e0, e1, e2⟩ := group_roundTrip i0 i1 i2
    rw [List.filter_cons_of_pos (isPr_base64 h0), List.filter_cons_of_pos (isPr_base64 h1),
      List.filter_cons_of_pos (isPr_base64 h2), List.filter_cons_of_pos (isPr_base64 h3),
      sextetBytes_cons (pr2six_lt (isPr_base64 h0)) (pr2six_lt (isPr_base64 h1))
        (pr2six_lt (isPr_base64 h2)) (pr2six_lt (isPr_base64 h3)), ih]
    simp only [e0, e1, e2]
  | case2 i0 i1 o =>
    obtain ⟨h0, h1, h2, -, e0, e1, -⟩ := group_roundTrip i0 i1 0
    rw [List.filter_cons_of_pos (isPr_base64 h0), List.filter_cons_of_pos (isPr_base64 h1),
      List.filter_cons_of_pos (isPr_base64 h2), List.filter_cons_of_neg hpad, List.filter_nil,
      sextetBytes_three (pr2six_lt (isPr_base64 h0)) (pr2six_lt (isPr_base64 h1))
        (pr2six_lt (isPr_base64 h2))]
    simp only [e0, e1]
  | case3 i0 o =>
    obtain ⟨h0, h1, -, -, e0, -, -⟩ := group_roundTrip i0 0 0
    rw [List.filter_cons_of_pos (isPr_base64 h0), List.filter_cons_of_pos (isPr_base64 h1),
      List.filter_cons_of_neg hpad, List.filter_cons_of_neg hpad, List.filter_nil,
      sextetBytes_two (pr2six_lt (isPr_base64 h0)) (pr2six_lt (isPr_base64 h1))]
    simp only [e0]
  | case4 => rfl

end Characters

/-- The calls that decode the blocks of a code, the output of each behind that of the one before. -/
lemma decodeBlocks_eq {blocks : List (List UInt8)} (hne : blocks ≠ []) (plain : List UInt8) :
    let e := sextetBytes (blocks.flatten.filter isPr)
    (plain.length ≤ e.length → decodeBlocks blocks plain = none) ∧
    (e.length < plain.length → ∃ state o,
      decodeBlocks blocks plain = some (state, e.length, o) ∧ Written plain 0 e o) := by
  have hinit : Holds (.a, 0) (some base64InitDecodestate.plainchar) := fun h => absurd rfl h
  by_cases hpos : 0 < plain.length
  · have hblocks := @decodeBlocksFrom_eq plain 0 (.a, 0) blocks base64InitDecodestate rfl hinit hpos
    dsimp only at hblocks
    rw [feed_decodeChar_init, Nat.zero_add] at hblocks
    exact hblocks
  · refine ⟨fun _ => ?_, fun hfit => absurd (Nat.zero_lt_of_lt hfit) hpos⟩
    obtain ⟨code, blocks, rfl⟩ := List.exists_cons_of_ne_nil hne
    have hcall := @base64DecodeBlock_copy (plain.drop 0) (.a, 0) code base64InitDecodestate rfl hinit
    simp only [decodeBlocks, decodeBlocksFrom]
    rw [hcall.1 (by rw [List.drop_zero]; omega)]
    rfl

/-- However a code is cut into blocks, also inside a group, and whatever stands between its
characters, the calls complete the whole bytes in the bits of the characters of the alphabet. They
need one cell more than these bytes, and touch none behind it. -/
theorem decodeBlocks_flatten (blocks : List (List UInt8)) (hne : blocks ≠ []) (plain : List UInt8) :
    ((sextetBytes (blocks.flatten.filter isPr)).length < plain.length ↔
      (decodeBlocks blocks plain).isSome) ∧
    ∀ r, decodeBlocks blocks plain = some r →
      let e := sextetBytes (blocks.flatten.filter isPr)
      r.2.1 = e.length ∧ r.2.2.length = plain.length ∧ r.2.2.take e.length = e ∧
      r.2.2.drop (e.length + 1) = plain.drop (e.length + 1) := by
  obtain ⟨hnone, hsome⟩ := decodeBlocks_eq hne plain
  dsimp only
  by_cases hfit : (sextetBytes (blocks.flatten.filter isPr)).length < plain.length
  · obtain ⟨state, o, hrun, hw⟩ := hsome hfit
    have htake := hw.take
    have hdrop := hw.drop
    rw [Nat.zero_add] at htake hdrop
    rw [hrun]
    refine ⟨iff_of_true hfit rfl, ?_⟩
    rintro r ⟨⟩
    exact ⟨rfl, hw.length, htake, hdrop⟩
  · rw [hnone (Nat.not_lt.1 hfit)]
    refine ⟨iff_of_false hfit (by simp), ?_⟩
    rintro r ⟨⟩

/-- `TWE=`, cut in the first group and with a newline in it. -/
theorem decodeBlocks_flatten_lines : [[84, 87], [10, 69, 61]] ≠ ([] : List (List UInt8)) ∧
    ((sextetBytes ([[84, 87], [10, 69, 61]].flatten.filter isPr)).length <
      (List.replicate 3 0).length ↔
      (decodeBlocks [[84, 87], [10, 69, 61]] (List.replicate 3 0)).isSome) ∧
    ∀ r, decodeBlocks [[84, 87], [10, 69, 61]] (List.replicate 3 0) = some r →
      let e := sextetBytes ([[84, 87], [10, 69, 61]].flatten.filter isPr)
      r.2.1 = e.length ∧ r.2.2.length = (List.replicate 3 0).length ∧ r.2.2.take e.length = e ∧
      r.2.2.drop (e.length + 1) = (List.replicate 3 0).drop (e.length + 1) :=
  ⟨by decide, decodeBlocks_flatten [[84, 87], [10, 69, 61]] (by decide) (List.replicate 3 0)⟩

/-- What was encoded in any pieces comes back: whatever is put between the characters of the text or
taken away that is not of the alphabet, and however the result is cut into blocks, they decode to
the data. -/
theorem decodeBlocks_encodePieces (pieces blocks : List (List UInt8)) (out plain : List UInt8)
    (len : Nat) (text : List UInt8) (hencode : encodePieces pieces out = some (len, text))
    (hne : blocks ≠ []) (hblocks : blocks.flatten.filter isPr = (text.take len).filter isPr)
    (hroom : pieces.flatten.length < plain.length) :
    ∃ state o, decodeBlocks blocks plain = some (state, pieces.flatten.length, o) ∧
      o.take pieces.flatten.length = pieces.flatten := by
  have htext : text.take len = encoded pieces.flatten := by
    rw [encodePieces_eq] at hencode
    obtain ⟨o, ho, heq⟩ := Option.map_eq_some_iff.1 hencode
    obtain ⟨-, rfl⟩ := writeRun_eq_some ho
    cases heq
    rw [overwrite, List.take_zero, List.nil_append]
    exact List.take_left' rfl
  have hbytes : sextetBytes (blocks.flatten.filter isPr) = pieces.flatten := by
    rw [hblocks, htext, sextetBytes_encoded]
  obtain ⟨-, hsome⟩ := decodeBlocks_eq hne plain
  rw [hbytes] at hsome
  obtain ⟨state, o, hrun, hw⟩ := hsome hroom
  refine ⟨state, o, hrun, ?_⟩
  have htake := hw.take
  rwa [Nat.zero_add] at htake

/-- `"Ma"`, brought byte by byte, with a newline put into the text `TWE=`. -/
theorem decodeBlocks_encodePieces_lines :
    encodePieces [[77], [97]] [0, 0, 0, 0] = some (4, [84, 87, 69, 61]) ∧
      ∃ state o, decodeBlocks [[84, 87], [10, 69, 61]] [0, 0, 0] =
        some (state, [[77], [97]].flatten.length, o) ∧
        o.take [[77], [97]].flatten.length = [[77], [97]].flatten := by
  have hencode : encodePieces [[77], [97]] [0, 0, 0, 0] = some (4, [84, 87, 69, 61]) := by
    decide +kernel
  exact ⟨hencode, decodeBlocks_encodePieces [[77], [97]] [[84, 87], [10, 69, 61]] [0, 0, 0, 0]
    [0, 0, 0] 4 [84, 87, 69, 61] hencode (by decide) (by decide) (by decide)⟩

end CcodeTest.Certificate
