import CcodeTest.Lib.Block

/-!
# Machines that read and write

A machine with states in `σ` reads one `α` at a time and puts out any number of `β`. `feed` is what
it does with a list, and `feed_flatten` is the law of the streams: a list that is fed in pieces, the
state being kept from one piece to the next, is a list that is fed at once.

What a machine puts out goes to a block. `writeRun` writes a run of cells, or has no outcome when
the run does not fit, and two runs side by side are one (`writeRun_append`). So a machine that writes
as it goes is known by `feed` alone: `feedInto_flatten` is the law of the streams for it, with
exactly the room that the whole output takes.
-/

namespace CcodeTest.Lib

variable {σ α β : Type*}

/-- The state after a list, and what is put out on the way. -/
def feed (step : σ → α → σ × List β) : σ → List α → σ × List β
  | s, [] => (s, [])
  | s, x :: xs =>
    let r := step s x
    let r' := feed step r.1 xs
    (r'.1, r.2 ++ r'.2)

section Feed

variable (step : σ → α → σ × List β)

/-- A run over two inputs is two runs. -/
lemma feed_append (s : σ) (xs ys : List α) :
    feed step s (xs ++ ys) = ((feed step (feed step s xs).1 ys).1,
      (feed step s xs).2 ++ (feed step (feed step s xs).1 ys).2) := by
  induction xs generalizing s with
  | nil => rfl
  | cons x xs ih =>
    simp only [List.cons_append, feed, ih, List.append_assoc]

end Feed

/-- Write a run of cells from `k` on. -/
def writeRun (out : List β) (k : Nat) (run : List β) : Option (List β) :=
  if k + run.length ≤ out.length then some (overwrite out k run) else none

section Write

variable {out out' : List β} {k : Nat} {run : List β}

/-- There is room for the run. -/
lemma writeRun_of_le (h : k + run.length ≤ out.length) :
    writeRun out k run = some (overwrite out k run) := if_pos h

/-- There is none. -/
lemma writeRun_of_lt (h : out.length < k + run.length) : writeRun out k run = none :=
  if_neg (Nat.not_le.2 h)

/-- An empty run needs no room. -/
lemma writeRun_nil (h : k ≤ out.length) : writeRun out k [] = some out := by
  rw [writeRun_of_le h, overwrite, List.append_nil]
  exact congrArg some (List.take_append_drop k out)

/-- Two runs side by side are one. -/
lemma writeRun_append (out : List β) (k : Nat) (run run' : List β) :
    (writeRun out k run).bind (fun out => writeRun out (k + run.length) run') =
      writeRun out k (run ++ run') := by
  have hlen : k + (run ++ run').length = k + run.length + run'.length := by
    rw [List.length_append, Nat.add_assoc]
  by_cases h : k + run.length ≤ out.length
  · rw [writeRun_of_le h, Option.bind_some]
    unfold writeRun
    rw [length_overwrite h, hlen]
    split
    · -- the second run leaves what stands before it, and of the rest what stands behind it
      apply congrArg some
      have hcut : (overwrite out k run).take (k + run.length) = out.take k ++ run := by
        apply List.take_left'
        rw [List.length_append, List.length_take, Nat.min_eq_left (Nat.le_of_add_right_le h)]
      conv_lhs => rw [overwrite, hcut]
      rw [drop_overwrite_behind (Nat.le_of_add_right_le h) (Nat.le_add_right _ _), overwrite, hlen,
        List.append_assoc (out.take k)]
    · rfl
  · have hlt := Nat.not_le.1 h
    rw [writeRun_of_lt hlt, writeRun_of_lt]
    · rfl
    · rw [hlen]
      exact Nat.lt_add_right _ hlt

/-- One store is a run of length one. -/
lemma store_eq_writeRun (out : List β) (k : Nat) (v : β) : store out k v = writeRun out k [v] := by
  unfold store writeRun
  by_cases h : k < out.length
  · rw [if_pos h, if_pos (show k + [v].length ≤ out.length from h),
      List.set_eq_take_append_cons_drop, if_pos h]
    simp [overwrite]
  · rw [if_neg h, if_neg (show ¬ k + [v].length ≤ out.length from h)]

/-- Two runs side by side, with more to come. -/
lemma writeRun_bind_writeRun {γ : Type*} {n : Nat} (h : k + run.length = n) (run' : List β)
    (f : List β → Option γ) :
    ((writeRun out k run).bind fun out => (writeRun out n run').bind f) =
      (writeRun out k (run ++ run')).bind f := by
  rw [← writeRun_append, Option.bind_assoc, h]

/-- A run that was written had room. -/
lemma writeRun_eq_some (h : writeRun out k run = some out') :
    k + run.length ≤ out.length ∧ out' = overwrite out k run := by
  unfold writeRun at h
  split at h
  · rename_i hle
    cases h
    exact ⟨hle, rfl⟩
  · cases h

/-- What comes behind a run only has to agree on blocks that have the run inside. -/
lemma writeRun_bind_congr {γ : Type*} {f g : List β → Option γ}
    (h : ∀ out', k + run.length ≤ out'.length → f out' = g out') :
    (writeRun out k run).bind f = (writeRun out k run).bind g := by
  cases hw : writeRun out k run with
  | none => rfl
  | some out' =>
    obtain ⟨hle, rfl⟩ := writeRun_eq_some hw
    apply h
    rwa [length_overwrite hle]

end Write

/-- A machine with its output in a block, from `k` on: the state, where the output ends, and the
block. -/
def feedInto (step : σ → α → σ × List β) (s : σ) (xs : List α) (k : Nat) (out : List β) :
    Option (σ × Nat × List β) :=
  (writeRun out k (feed step s xs).2).map fun out =>
    ((feed step s xs).1, k + (feed step s xs).2.length, out)

section Into

variable (step : σ → α → σ × List β) {k : Nat} {out : List β}

/-- No input, no output. -/
lemma feedInto_nil (s : σ) (h : k ≤ out.length) : feedInto step s [] k out = some (s, k, out) := by
  rw [feedInto, feed, writeRun_nil h]
  rfl

/-- What is put out for the first one is written first. -/
lemma feedInto_cons (s : σ) (x : α) (xs : List α) :
    feedInto step s (x :: xs) k out = (writeRun out k (step s x).2).bind fun out =>
      feedInto step (step s x).1 xs (k + (step s x).2.length) out := by
  unfold feedInto
  simp only [feed, ← writeRun_append, Option.map_bind, List.length_append, ← Nat.add_assoc]
  rfl

/-- The pieces of a list, one after the other. -/
lemma feedInto_append (s : σ) (xs ys : List α) :
    (feedInto step s xs k out).bind (fun r => feedInto step r.1 ys r.2.1 r.2.2) =
      feedInto step s (xs ++ ys) k out := by
  unfold feedInto
  rw [feed_append, ← writeRun_append, Option.bind_map, Option.map_bind, List.length_append,
    ← Nat.add_assoc]
  rfl

/-- The place to write to stays in the block. -/
lemma feedInto_le {s : σ} {xs : List α} {r : σ × Nat × List β}
    (h : feedInto step s xs k out = some r) : r.2.1 ≤ r.2.2.length := by
  obtain ⟨out', hout, rfl⟩ := Option.map_eq_some_iff.1 h
  obtain ⟨hle, rfl⟩ := writeRun_eq_some hout
  rwa [length_overwrite hle]

/-- However a list is cut: a procedure that does what the machine does with a piece, called for the
pieces in order, does what the machine does with the list. -/
lemma feedInto_flatten {update : σ → List α → Nat → List β → Option (σ × Nat × List β)}
    (hupdate : ∀ s xs k out, k ≤ out.length → update s xs k out = feedInto step s xs k out)
    (s : σ) (pieces : List (List α)) (h : k ≤ out.length) :
    pieces.foldlM (fun r xs => update r.1 xs r.2.1 r.2.2) (s, k, out) =
      feedInto step s pieces.flatten k out := by
  induction pieces generalizing s k out with
  | nil => exact (feedInto_nil step s h).symm
  | cons xs pieces ih =>
    rw [List.foldlM_cons, List.flatten_cons, ← feedInto_append, hupdate s xs k out h]
    cases hr : feedInto step s xs k out with
    | none => rfl
    | some r => exact ih r.1 (feedInto_le step hr)

end Into

end CcodeTest.Lib
