/-
  Timeline/ReverseExecCheckpoints.lean --- how a `ReplayTimeline` thins out the
  checkpoints it took for reverse execution.

  Source: `replay_timeline.rs`: the comment "Checkpointing strategy",
  `inter_checkpoint_interval`, `next_interval_length`,
  `discard_past_reverse_exec_checkpoints` and the field
  `reverse_exec_checkpoints`; `CheckpointStrategy` and `Progress`.

  THE STRATEGY.  Interval `N` ends at the current progress `now`, and its
  length `interval_length N` grows from `inter_checkpoint_interval`; the comment
  allows at most `N` checkpoints in interval `N`.

  THE LOOP walks the checkpoints from the latest back.  For interval `N` it
  clones the iterator and counts, from its back, the checkpoints at or after
  the interval's start; the `next_back` that ends the count also takes the
  first checkpoint before the start off the clone.  It then deletes from the
  back of the original iterator until the running count is `N`, and goes on
  with the clone.  The checkpoint that ended a count is neither counted nor
  deleted by any later interval, so the bound can fail
  (`discard_keeps_two_checkpoints_in_interval_one`).

  THE MAP.  `reverse_exec_checkpoints` is a `BTreeMap<Mark, Progress>`, kept
  here as its entries in `Mark` order, a mark named by its index in
  `internal_marks`.  A double-ended iterator over it is kept back first: its
  `next_back` is the head of the list.  `Progress` is an `i64` estimate of
  microseconds; the model takes it as an integer, the subtraction `now - len`
  being far from the `i64` bounds.
-/
import RdReplay.Timeline.Checkpoints

set_option autoImplicit false

namespace RdReplay

/-- `CheckpointStrategy`. -/
inductive CheckpointStrategy where
  | LowOverhead
  | ExpectShortReverseExecution
  deriving DecidableEq, Repr

namespace ReverseExec

/-- `LOW_OVERHEAD_INTER_CHECKPOINT_INTERVAL`. -/
def LOW_OVERHEAD_INTER_CHECKPOINT_INTERVAL : Int := 500000

/-- `EXPECTING_REVERSE_EXEC_INTER_CHECKPOINT_INTERVAL`. -/
def EXPECTING_REVERSE_EXEC_INTER_CHECKPOINT_INTERVAL : Int := 100000

/-- `CHECKPOINT_INTERVAL_EXPONENT`. -/
def CHECKPOINT_INTERVAL_EXPONENT : Int := 2

/-- `inter_checkpoint_interval`. -/
def inter_checkpoint_interval (strategy : CheckpointStrategy) : Int :=
  if strategy = .LowOverhead then LOW_OVERHEAD_INTER_CHECKPOINT_INTERVAL
  else EXPECTING_REVERSE_EXEC_INTER_CHECKPOINT_INTERVAL

/-- `next_interval_length`. -/
def next_interval_length (len : Int) : Int :=
  if len ≥ LOW_OVERHEAD_INTER_CHECKPOINT_INTERVAL then CHECKPOINT_INTERVAL_EXPONENT * len
  else len + EXPECTING_REVERSE_EXEC_INTER_CHECKPOINT_INTERVAL

/-- The length of interval `n`: `L_0 = inter_checkpoint_interval(strategy)` and
`L_{n+1} = next_interval_length(L_n)`. -/
def interval_length (strategy : CheckpointStrategy) : Nat → Int
  | 0 => inter_checkpoint_interval strategy
  | n + 1 => next_interval_length (interval_length strategy n)

/-! ## `discard_past_reverse_exec_checkpoints` -/

/-- The inner `while` over `tmp_it`, back first: count the checkpoints at or
after `start`, and take them and the first one before `start` off the window. -/
def count_back (start : Int) : List (Nat × Int) → Nat × List (Nat × Int)
  | [] => (0, [])
  | c :: rest =>
    if c.2 ≥ start then
      let (n, rest) := count_back start rest
      (n + 1, rest)
    else (0, rest)

/-- The second `while`, back first: `n` marks from the back of the window, each
taken by `curr.unwrap()`, which panics on an empty window. -/
def delete_back : Nat → List (Nat × Int) → Option (List Nat)
  | 0, _ => some []
  | _ + 1, [] => none
  | n + 1, c :: rest => (delete_back n rest).map (c.1 :: ·)

/-- The outer `loop`, on fuel: `allowed` and `in_range` are
`checkpoints_allowed` and `checkpoints_in_range`, `it` the window left (back
first), `len` the interval's length, and `acc` the marks to delete so far. -/
def discard_loop (now : Int) : Nat → Nat → Nat → Int → List (Nat × Int) → List Nat → Option (List Nat)
  | 0, _, _, _, _, _ => none
  | fuel + 1, allowed, in_range, len, it, acc =>
    let start := now - len
    let (n, tmp_it) := count_back start it
    let in_range := in_range + n
    match delete_back (in_range - allowed) it with
    | none => none
    | some del =>
      let in_range := min in_range allowed
      let acc := acc ++ del
      let allowed := allowed + 1
      -- `it = tmp_it`, and `it.peek().is_none()` ends the loop
      if tmp_it = [] then some acc
      else discard_loop now fuel allowed in_range (next_interval_length len) tmp_it acc

/-- `checkpoints_to_delete`, from the checkpoints in `Mark` order; the loop
never runs more turns than there are checkpoints, plus one. -/
def checkpoints_to_delete (strategy : CheckpointStrategy) (now : Int) (cps : List (Nat × Int)) :
    Option (List Nat) :=
  discard_loop now (cps.length + 1) 0 0 (inter_checkpoint_interval strategy) cps.reverse []

/-! ## The loop ends, and never panics -/

theorem count_back_fst_le (start : Int) : ∀ it : List (Nat × Int), (count_back start it).1 ≤ it.length
  | [] => le_rfl
  | c :: rest => by
    unfold count_back
    split
    · exact Nat.succ_le_succ (count_back_fst_le start rest)
    · exact Nat.zero_le _

/-- What the count leaves of a window is a part of it, shorter unless the
window was empty. -/
theorem count_back_snd (start : Int) : ∀ it : List (Nat × Int),
    List.Sublist (count_back start it).2 it ∧ (it ≠ [] → (count_back start it).2.length < it.length)
  | [] => ⟨List.Sublist.slnil, fun h => absurd rfl h⟩
  | c :: rest => by
    unfold count_back
    split
    · obtain ⟨hsub, -⟩ := count_back_snd start rest
      exact ⟨hsub.cons c, fun _ => Nat.lt_succ_of_le hsub.length_le⟩
    · exact ⟨List.sublist_cons_self c rest, fun _ => Nat.lt_succ_self _⟩

/-- Deleting no more than the window holds takes that many marks off its back. -/
theorem delete_back_of_le : ∀ (n : Nat) (it : List (Nat × Int)), n ≤ it.length →
    delete_back n it = some ((it.take n).map Prod.fst)
  | 0, _, _ => rfl
  | _ + 1, [], h => absurd h (Nat.not_succ_le_zero _)
  | n + 1, c :: rest, h => by
    rw [delete_back, delete_back_of_le n rest (Nat.le_of_succ_le_succ h)]
    rfl

/-- With no more counted than allowed when a turn starts, and fuel for every
checkpoint of the window, the loop returns: each turn deletes at most what it
counted in its own window, and takes at least one checkpoint off the window. -/
theorem discard_loop_isSome (now : Int) : ∀ (fuel allowed in_range : Nat) (len : Int)
    (it : List (Nat × Int)) (acc : List Nat),
    in_range ≤ allowed → it.length < fuel → (discard_loop now fuel allowed in_range len it acc).isSome
  | 0, _, _, _, _, _, _, h => absurd h (Nat.not_lt_zero _)
  | fuel + 1, allowed, in_range, len, it, acc, hin, hfuel => by
    have hcount := count_back_fst_le (now - len) it
    have hdel : in_range + (count_back (now - len) it).1 - allowed ≤ it.length := by omega
    unfold discard_loop
    dsimp only
    rw [delete_back_of_le _ _ hdel]
    dsimp only
    split
    · rfl
    · rename_i hne
      -- the window left is shorter, and the count is back to at most what was allowed
      have hshort := (count_back_snd (now - len) it).2 (fun h => by simp [h, count_back] at hne)
      exact discard_loop_isSome now fuel (allowed + 1) _ _ _ _ (by omega) (by omega)

/-- `discard_past_reverse_exec_checkpoints` finds its marks to delete on every map:
the loop ends, and no `unwrap` panics. -/
theorem checkpoints_to_delete_isSome (strategy : CheckpointStrategy) (now : Int)
    (cps : List (Nat × Int)) : (checkpoints_to_delete strategy now cps).isSome :=
  discard_loop_isSome now _ 0 0 _ _ [] le_rfl (by simp)

theorem mem_of_delete_back : ∀ {n : Nat} {it : List (Nat × Int)} {del : List Nat},
    delete_back n it = some del → ∀ m ∈ del, ∃ c ∈ it, c.1 = m
  | 0, _, _, h => by cases h; simp
  | _ + 1, [], _, h => by cases h
  | n + 1, c :: rest, del, h => by
    rw [delete_back] at h
    obtain ⟨del', hdel', rfl⟩ := Option.map_eq_some_iff.1 h
    intro m hm
    rcases List.mem_cons.1 hm with rfl | hm
    · exact ⟨c, List.mem_cons_self, rfl⟩
    · obtain ⟨c', hc', rfl⟩ := mem_of_delete_back hdel' m hm
      exact ⟨c', List.mem_cons_of_mem _ hc', rfl⟩

/-- The loop deletes only marks of its window, besides those it had already
chosen. -/
theorem mem_of_discard_loop (now : Int) : ∀ {fuel allowed in_range : Nat} {len : Int}
    {it : List (Nat × Int)} {acc r : List Nat},
    discard_loop now fuel allowed in_range len it acc = some r → ∀ m ∈ r, m ∈ acc ∨ ∃ c ∈ it, c.1 = m
  | 0, _, _, _, _, _, _, h => by cases h
  | fuel + 1, allowed, in_range, len, it, acc, r, h => by
    unfold discard_loop at h
    dsimp only at h
    split at h
    · cases h
    rename_i del hdel
    have hdel' := mem_of_delete_back hdel
    have hsub := (count_back_snd (now - len) it).1
    intro m hm
    split at h
    · -- the last turn: what it deletes comes off its window
      cases h
      rcases List.mem_append.1 hm with hm | hm
      exacts [.inl hm, .inr (hdel' m hm)]
    · -- the window of the next turn is part of this one
      rcases mem_of_discard_loop now h m hm with hm | ⟨c, hc, rfl⟩
      · rcases List.mem_append.1 hm with hm | hm
        exacts [.inl hm, .inr (hdel' _ hm)]
      · exact .inr ⟨c, hsub.subset hc, rfl⟩

/-- Every mark to delete is a checkpoint of the map. -/
theorem mem_of_checkpoints_to_delete {strategy : CheckpointStrategy} {now : Int}
    {cps : List (Nat × Int)} {r : List Nat} (h : checkpoints_to_delete strategy now cps = some r) :
    ∀ m ∈ r, ∃ c ∈ cps, c.1 = m := by
  intro m hm
  rcases mem_of_discard_loop now h m hm with hm | ⟨c, hc, rfl⟩
  · exact absurd hm List.not_mem_nil
  · exact ⟨c, List.mem_reverse.1 hc, rfl⟩

end ReverseExec

/-- The part of a `ReplayTimeline` that reverse-exec checkpointing reads and
writes. -/
structure ReverseExecState where
  checkpoints : CheckpointState
  /-- `reverse_exec_checkpoints`, in `Mark` order. -/
  reverse_exec_checkpoints : List (Nat × Int)
  /-- `estimate_progress()`. -/
  now : Int
  deriving DecidableEq, Repr

namespace ReverseExecState

/-- One turn of the final `for`: `remove_explicit_checkpoint` and
`reverse_exec_checkpoints.remove`. -/
def discard_one (st : ReverseExecState) (m : Nat) : Option ReverseExecState :=
  (st.checkpoints.remove_explicit_checkpoint m).map fun checkpoints =>
    { st with checkpoints, reverse_exec_checkpoints := st.reverse_exec_checkpoints.filter (·.1 ≠ m) }

/-- `discard_past_reverse_exec_checkpoints`. -/
def discard_past_reverse_exec_checkpoints (st : ReverseExecState) (strategy : CheckpointStrategy) :
    Option ReverseExecState := do
  let to_delete ← ReverseExec.checkpoints_to_delete strategy st.now st.reverse_exec_checkpoints
  to_delete.foldlM discard_one st

/-- How many checkpoints lie in interval `n`: progress at or after
`now - interval_length n`. -/
def in_interval (st : ReverseExecState) (strategy : CheckpointStrategy) (n : Nat) : Nat :=
  (st.reverse_exec_checkpoints.filter fun c => decide (st.now - ReverseExec.interval_length strategy n ≤ c.2)).length

/-- A timeline at progress `1000000` whose two reverse-exec checkpoints, marks
`0` and `1`, were taken at `850000` and `860000`. -/
def two_checkpoints_in_interval_one : ReverseExecState :=
  ⟨CheckpointState.init, [(0, 850000), (1, 860000)], 1000000⟩

/-- Both checkpoints lie in interval 1, which allows one, and the thinning keeps
both: the count of interval 0 took the later one off the window without
counting it, and interval 1 counts only the earlier. -/
theorem discard_keeps_two_checkpoints_in_interval_one :
    (two_checkpoints_in_interval_one.discard_past_reverse_exec_checkpoints .ExpectShortReverseExecution).map
      (fun st => st.in_interval .ExpectShortReverseExecution 1) = some 2 := by
  decide

end ReverseExecState

end RdReplay
