/-
  Timeline/Checkpoints.lean --- the reference counts that keep checkpoint
  sessions of a `ReplayTimeline` alive.

  Source: `replay_timeline.rs`: `InternalMark` (`checkpoint`,
  `checkpoint_refcount`), `ReplayTimeline::mark`, `add_explicit_checkpoint`,
  `remove_explicit_checkpoint`, `remove_mark_with_checkpoint` and
  `set_short_checkpoint`.

  THE MARKS.  An `InternalMark` is shared through an `Rc`; here it is named by
  its index in `internal_marks`.  A mark holds a checkpoint session or not, and
  counts the references to that checkpoint in a `u32`; `marks_with_checkpoints`
  counts, per `MarkKey`, the marks of that key with a checkpoint.  `mark()`
  returns the mark of the current state, and makes one when there is none:
  where it goes among the marks of its key, which `mark()` finds by replaying,
  is left out, as are the cloned sessions themselves and the breakpoints
  `add_explicit_checkpoint` unapplies.  A `MarkKey` is a number here.

  WHAT `set_short_checkpoint` DOES.  It takes an explicit checkpoint at the
  current mark and releases the previous short checkpoint, but it never stores
  the new one in `reverse_exec_short_checkpoint`
  (`set_short_checkpoint_short_none`).  So the next call releases nothing, and
  each call leaves one more reference no one will release
  (`set_short_checkpoint_twice_keeps_both_references`).
-/
import RdReplay.Lib.CmpListOrder

set_option autoImplicit false

namespace RdReplay

/-- `InternalMark`, with what the checkpoint accounting reads and writes. -/
structure InternalMark where
  key : Nat
  /-- `checkpoint.is_some()`. -/
  checkpoint : Bool
  checkpoint_refcount : Nat
  deriving DecidableEq, Repr, Inhabited

/-- The checkpoint accounting of a `ReplayTimeline`. -/
structure CheckpointState where
  internal_marks : List InternalMark
  /-- `BTreeMap<MarkKey, u32>`. -/
  marks_with_checkpoints : List (Nat × Nat)
  reverse_exec_short_checkpoint : Option Nat
  /-- `current_mark_key()`. -/
  current_key : Nat
  /-- `current_mark()`: the mark of the current state, if one was made. -/
  current_mark : Option Nat
  /-- `current_session().can_clone()`. -/
  can_clone : Bool
  deriving DecidableEq, Repr

namespace CheckpointState

/-- The mark `m` refers to. -/
def get_mark (st : CheckpointState) (m : Nat) : InternalMark := st.internal_marks.getD m default

/-- Write through the `Rc` of mark `m`. -/
def set_mark (st : CheckpointState) (m : Nat) (im : InternalMark) : CheckpointState :=
  { st with internal_marks := st.internal_marks.set m im }

/-- `mark()`: the current mark, made if there is none. -/
def mark (st : CheckpointState) : CheckpointState × Nat :=
  match st.current_mark with
  | some m => (st, m)
  | none =>
    let m := st.internal_marks.length
    ({ st with internal_marks := st.internal_marks ++ [⟨st.current_key, false, 0⟩],
               current_mark := some m }, m)

/-- `add_explicit_checkpoint`: checkpoint the current mark if it has no
checkpoint, and count one more reference to it. -/
def add_explicit_checkpoint (st : CheckpointState) : CheckpointState × Nat :=
  let (st, m) := st.mark
  let im := st.get_mark m
  let (st, im) :=
    if !im.checkpoint then
      let v := match CmpList.get compare im.key st.marks_with_checkpoints with
        | none => 1
        | some v => (v + 1) % 2 ^ 32
      ({ st with marks_with_checkpoints := CmpList.insert compare im.key v st.marks_with_checkpoints },
        { im with checkpoint := true })
    else (st, im)
  (st.set_mark m { im with checkpoint_refcount := (im.checkpoint_refcount + 1) % 2 ^ 32 }, m)

/-- `remove_mark_with_checkpoint`: `marks_with_checkpoints[&key]` panics when the
key is absent. -/
def remove_mark_with_checkpoint (st : CheckpointState) (key : Nat) : Option CheckpointState :=
  match CmpList.get compare key st.marks_with_checkpoints with
  | none => none
  | some v =>
    let v := (v + 2 ^ 32 - 1) % 2 ^ 32
    let mwc := CmpList.insert compare key v st.marks_with_checkpoints
    some { st with marks_with_checkpoints := if v = 0 then CmpList.remove compare key mwc else mwc }

/-- `remove_explicit_checkpoint`: drop a reference, and the checkpoint with the
last one. -/
def remove_explicit_checkpoint (st : CheckpointState) (m : Nat) : Option CheckpointState :=
  let im := st.get_mark m
  let im := { im with checkpoint_refcount := (im.checkpoint_refcount + 2 ^ 32 - 1) % 2 ^ 32 }
  if im.checkpoint_refcount = 0 then
    (st.set_mark m { im with checkpoint := false }).remove_mark_with_checkpoint im.key
  else some (st.set_mark m im)

/-- `set_short_checkpoint`. -/
def set_short_checkpoint (st : CheckpointState) : Option (CheckpointState × Nat) :=
  if !st.can_clone then some st.mark
  else
    -- add the checkpoint before removing one, in case the mark is the same
    let (st, m) := st.add_explicit_checkpoint
    match st.reverse_exec_short_checkpoint with
    | none => some (st, m)
    | some chkp =>
      ({ st with reverse_exec_short_checkpoint := none }.remove_explicit_checkpoint chkp).map (·, m)

/-- A timeline at key `0` with no marks, whose session can be cloned. -/
def init : CheckpointState :=
  { internal_marks := [], marks_with_checkpoints := [], reverse_exec_short_checkpoint := none,
    current_key := 0, current_mark := none, can_clone := true }

/-! ## `set_short_checkpoint` keeps no short checkpoint -/

variable {st st' : CheckpointState}

theorem mark_short : st.mark.1.reverse_exec_short_checkpoint = st.reverse_exec_short_checkpoint := by
  unfold mark
  split <;> rfl

theorem add_explicit_checkpoint_short :
    st.add_explicit_checkpoint.1.reverse_exec_short_checkpoint = st.reverse_exec_short_checkpoint := by
  unfold add_explicit_checkpoint
  dsimp only
  split <;> simp [set_mark, mark_short]

theorem remove_mark_with_checkpoint_short {key : Nat} (h : st.remove_mark_with_checkpoint key = some st') :
    st'.reverse_exec_short_checkpoint = st.reverse_exec_short_checkpoint := by
  unfold remove_mark_with_checkpoint at h
  split at h
  · cases h
  · cases h
    rfl

theorem remove_explicit_checkpoint_short {m : Nat} (h : st.remove_explicit_checkpoint m = some st') :
    st'.reverse_exec_short_checkpoint = st.reverse_exec_short_checkpoint := by
  unfold remove_explicit_checkpoint at h
  dsimp only at h
  split at h
  · rw [remove_mark_with_checkpoint_short h]
    rfl
  · cases h
    rfl

/-- Whenever the session can be cloned, `set_short_checkpoint` leaves no short
checkpoint, whatever there was before: the mark it checkpoints is returned, and
not stored. -/
theorem set_short_checkpoint_short_none (h : st.can_clone = true) {r : CheckpointState × Nat}
    (hr : st.set_short_checkpoint = some r) : r.1.reverse_exec_short_checkpoint = none := by
  unfold set_short_checkpoint at hr
  simp only [h, Bool.not_true, Bool.false_eq_true, if_false] at hr
  split at hr
  · rename_i hnone
    cases hr
    rw [add_explicit_checkpoint_short] at hnone ⊢
    exact hnone
  · obtain ⟨st', hst', rfl⟩ := Option.map_eq_some_iff.1 hr
    exact remove_explicit_checkpoint_short hst'

/-- Two short checkpoints taken at one state: its mark counts two references,
and none of them is the short checkpoint's, which the second call would
have released. -/
theorem set_short_checkpoint_twice_keeps_both_references :
    (init.set_short_checkpoint.bind fun r => r.1.set_short_checkpoint).map
        (fun r => (r.1.internal_marks, r.1.marks_with_checkpoints, r.1.reverse_exec_short_checkpoint)) =
      some ([⟨0, true, 2⟩], [(0, 1)], none) := by
  decide

end CheckpointState

end RdReplay
