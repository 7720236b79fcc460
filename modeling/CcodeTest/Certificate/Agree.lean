import CcodeTest.Certificate.Stream

/-!
# Two decoders

`load_ccert` can be compiled with `base64decode` or with `b64decode`, which is the decoder of
`Base64.Codec`. One goes on to the end of the text and passes over what is not of the alphabet; the
other one stops there. A certificate is broken into lines, so that it makes a difference. Here is
which one: `decoders_agree_iff` says for which texts the bytes are the same all the same.
-/

namespace CcodeTest.Certificate
open CcodeTest.Lib CcodeTest.Base64

/-- What stands behind the first run of characters of the alphabet. -/
def behindRun (text : List UInt8) : List UInt8 := (text.dropWhile isBlank).dropWhile isPr

/-- `b64decode` with a copy and `base64_decode_block` have the same bytes. -/
def DecodersAgree (malloc : Malloc) (text rest plain : List UInt8) : Prop :=
  ∃ r state k o, b64decode malloc (text ++ 0 :: rest) false = some (some r) ∧
    decodeBlocks [text] plain = some (state, k, o) ∧ r.outLen = k ∧ r.buf.take k = o.take k

section Run

variable {text rest plain : List UInt8} {malloc : Malloc}

lemma isPr_of_isBlank {c : UInt8} (h : isBlank c = true) : isPr c = false := by
  rw [isBlank, Bool.or_eq_true, beq_iff_eq, beq_iff_eq] at h
  rcases h with rfl | rfl <;> decide

/-- The characters of the alphabet are the run and those behind it. -/
lemma filter_isPr (text : List UInt8) :
    text.filter isPr = prRun text ++ (behindRun text).filter isPr := by
  have hblank : text.filter isPr = (text.dropWhile isBlank).filter isPr := by
    induction text with
    | nil => rfl
    | cons c text ih =>
      cases hc : isBlank c with
      | true =>
        have hpr : ¬ isPr c = true := by simp [isPr_of_isBlank hc]
        rw [List.dropWhile_cons_of_pos hc, List.filter_cons_of_neg hpr, ih]
      | false => rw [List.dropWhile_cons_of_neg (by simp [hc])]
  have hcut : text.dropWhile isBlank = prRun text ++ behindRun text :=
    List.takeWhile_append_dropWhile.symm
  rw [hblank, hcut, List.filter_append]
  congr 1
  exact List.filter_eq_self.2 fun c hc => List.mem_takeWhile_imp hc

lemma length_sextetBytes (run : List UInt8) : (sextetBytes run).length = 3 * run.length / 4 := by
  rw [sextetBytes, List.length_map, cut, List.length_map, List.length_range, length_bits,
    List.length_map]
  omega

/-- A single character behind whole groups does not complete a byte. -/
lemma sextetBytes_append_one (run : List UInt8) (hpr : ∀ c ∈ run, isPr c = true)
    (hmod : run.length % 4 = 0) (c : UInt8) : sextetBytes (run ++ [c]) = sextetBytes run := by
  fun_induction decodeGroups run with
  | case1 c0 c1 c2 c3 cs ih =>
    simp only [List.forall_mem_cons] at hpr
    obtain ⟨h0, h1, h2, h3, hcs⟩ := hpr
    simp only [List.length_cons] at hmod
    simp only [List.cons_append]
    rw [sextetBytes_cons (pr2six_lt h0) (pr2six_lt h1) (pr2six_lt h2) (pr2six_lt h3),
      sextetBytes_cons (pr2six_lt h0) (pr2six_lt h1) (pr2six_lt h2) (pr2six_lt h3),
      ih hcs (by omega)]
  | case2 run h =>
    have hnil : run = [] := by
      rcases run with _ | ⟨c0, _ | ⟨c1, _ | ⟨c2, _ | ⟨c3, cs⟩⟩⟩⟩
      · rfl
      · cases hmod
      · cases hmod
      · cases hmod
      · exact absurd rfl (h c0 c1 c2 c3 cs)
    subst hnil
    apply List.eq_nil_of_length_eq_zero
    rw [length_sextetBytes, List.nil_append, List.length_singleton]

/-- `b64decode` has the whole bytes of the run if it is filled up to a multiple of four. -/
lemma b64decode_run (hm : malloc.Sized) (hmod : (prRun text).length % 4 ≠ 1)
    (hpad : groups (prRun text).length * 4 ≤ (text.dropWhile isBlank).length)
    (hfit : (prRun text).length + 3 < intBound)
    (hplain : malloc (groups (prRun text).length * 3 + 1) = some plain) :
    ∃ r, b64decode malloc (text ++ 0 :: rest) false = some (some r) ∧
      r.outLen = 3 * (prRun text).length / 4 ∧ r.buf.take r.outLen = sextetBytes (prRun text) := by
  have hrun : (text.dropWhile isBlank ++ 0 :: [0, 0]).takeWhile isPr = prRun text :=
    takeWhile_text _ _
  have hcut : text.dropWhile isBlank = prRun text ++ behindRun text :=
    List.takeWhile_append_dropWhile.symm
  have hle : (prRun text).length ≤ (text.dropWhile isBlank).length := by
    rw [hcut, List.length_append]
    exact Nat.le_add_right _ _
  have hlen : ((text.dropWhile isBlank ++ 0 :: [0, 0]).takeWhile isPr).length + 3 ≤
      (text.dropWhile isBlank ++ 0 :: [0, 0]).length := by
    rw [hrun, List.length_append]
    exact Nat.add_le_add_right hle 3
  obtain ⟨x, hx, hpr⟩ := exists_corrected hlen
  rw [hrun] at hx hpr
  have hscan := scanPr_text text rest
  have hc : groups (prRun text).length * 4 ≤ (text.dropWhile isBlank ++ 0 :: rest).length := by
    rw [List.length_append]
    omega
  have ho := hm.room (text.dropWhile isBlank ++ 0 :: rest) hplain
  have hx' : (prRun text).length % 4 ≠ 0 →
      (text.dropWhile isBlank ++ 0 :: rest)[groups (prRun text).length * 4 - 2]? = some x := by
    intro h0
    have hlt : groups (prRun text).length * 4 - 2 < (text.dropWhile isBlank).length := by
      unfold groups at hpad ⊢
      omega
    rw [List.getElem?_append_left hlt, ← hx h0, List.getElem?_append_left hlt]
  have hdec : b64decode malloc (text ++ 0 :: rest) false =
      some (some ⟨corrected (prRun text).length x,
        ((⟨text.dropWhile isBlank ++ 0 :: rest, some plain⟩ : Bufs).decoded
          (prRun text).length).set (corrected (prRun text).length x) 0⟩) := by
    rw [b64decode_copy hscan hfit hplain, dropWhile_text, decodeInto_eq hc ho hx']
    rfl
  have hbytes : 3 * (prRun text).length / 4 ≤ groups (prRun text).length * 3 := by
    unfold groups
    omega
  rw [(corrected_run hpr).2 hmod] at hdec
  refine ⟨_, hdec, rfl, ?_⟩
  have htake := congrArg (List.take (3 * (prRun text).length / 4)) (take_decoded hc ho hbytes)
  rw [List.take_take, Nat.min_eq_left (Nat.le_succ _)] at htake
  refine htake.trans ?_
  have hgroups : (text.dropWhile isBlank ++ 0 :: rest).take (groups (prRun text).length * 4) =
      (prRun text ++ behindRun text).take (groups (prRun text).length * 4) := by
    rw [← hcut, List.take_append_of_le_length hpad]
  have hrunBytes := decodeGroups_run (prRun text) (behindRun text)
    (fun c hc => List.mem_takeWhile_imp hc) (by rw [← hcut]; exact hpad)
  have hcount : (sextetBytes (prRun text)).length = 3 * (prRun text).length / 4 :=
    length_sextetBytes _
  dsimp only
  rw [hgroups, hrunBytes, List.take_append_of_le_length (Nat.le_of_eq hcount.symm), ← hcount,
    List.take_length]

/-- More characters complete more bytes, but for the first one of a group. -/
lemma eq_of_bytes_eq {n m : Nat} (hmod : n % 4 ≠ 1) (h : 3 * n / 4 = 3 * (n + m) / 4) :
    m = 0 ∨ m = 1 ∧ n % 4 = 0 := by
  have hcases : n % 4 = 0 ∨ n % 4 = 2 ∨ n % 4 = 3 := by omega
  rcases hcases with h0 | h2 | h3 <;> omega

/-- For a text whose first run leaves no single character over and is filled up to a whole group, with
memory for both: the decoders have the same bytes exactly if no character of the alphabet comes
behind the run, but for a single one when the run is of whole groups. -/
theorem decoders_agree_iff (hm : malloc.Sized) (hmod : (prRun text).length % 4 ≠ 1)
    (hpad : groups (prRun text).length * 4 ≤ (text.dropWhile isBlank).length)
    (hfit : (prRun text).length + 3 < intBound)
    (hmem : (malloc (groups (prRun text).length * 3 + 1)).isSome = true)
    (hroom : 3 * (text.filter isPr).length / 4 < plain.length) :
    DecodersAgree malloc text rest plain ↔
      (behindRun text).countP isPr = 0 ∨
        (behindRun text).countP isPr = 1 ∧ (prRun text).length % 4 = 0 := by
  obtain ⟨block, hblock⟩ := Option.isSome_iff_exists.1 hmem
  obtain ⟨r, hr, hout, hbuf⟩ : ∃ r, b64decode malloc (text ++ 0 :: rest) false = some (some r) ∧
      r.outLen = 3 * (prRun text).length / 4 ∧ r.buf.take r.outLen = sextetBytes (prRun text) :=
    b64decode_run hm hmod hpad hfit hblock
  have hdec := (decodeBlocks_eq (List.cons_ne_nil text []) plain).2
  simp only [List.flatten_singleton] at hdec
  rw [length_sextetBytes] at hdec
  obtain ⟨state, o, ho, hw⟩ := hdec hroom
  have htake := hw.take
  rw [Nat.zero_add, List.take_zero, List.nil_append] at htake
  have hfilter := filter_isPr text
  have hlen : (text.filter isPr).length = (prRun text).length + (behindRun text).countP isPr := by
    rw [hfilter, List.length_append, List.countP_eq_length_filter]
  constructor
  · rintro ⟨r', state', k, o', hr', ho', hk, -⟩
    cases hr.symm.trans hr'
    cases ho.symm.trans ho'
    rw [hout, hlen] at hk
    exact eq_of_bytes_eq hmod hk
  · intro h
    have hbytes : sextetBytes (text.filter isPr) = sextetBytes (prRun text) := by
      rw [hfilter]
      rcases h with h0 | ⟨h1, h4⟩
      · rw [List.countP_eq_length_filter] at h0
        rw [List.eq_nil_of_length_eq_zero h0, List.append_nil]
      · rw [List.countP_eq_length_filter] at h1
        obtain ⟨c, hc⟩ := List.length_eq_one_iff.1 h1
        rw [hc]
        exact sextetBytes_append_one _ (fun c hc => List.mem_takeWhile_imp hc) h4 c
    have hk : r.outLen = 3 * (text.filter isPr).length / 4 := by
      rw [← length_sextetBytes, hbytes, length_sextetBytes, hout]
    refine ⟨r, state, _, o, hr, ho, hk, ?_⟩
    rw [← hk, hbuf, hk, ← length_sextetBytes, htake, hbytes]

end Run

/-- A certificate broken into lines: `b64decode` has the bytes of the first one. -/
theorem decoders_agree_iff_lines :
    ¬ DecodersAgree Malloc.sample [84, 87, 70, 117, 10, 84, 87, 69, 61, 10] [] (List.replicate 6 0) := by
  rw [decoders_agree_iff Malloc.sample_sized (by decide) (by decide) (by decide) (by decide)
    (by decide)]
  decide

end CcodeTest.Certificate
