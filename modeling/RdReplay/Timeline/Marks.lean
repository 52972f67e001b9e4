/-
  Timeline/Marks.lean --- where `mark()` puts a new mark among the marks of its
  key, and why the marks of every key stay in execution order.

  Source: `replay_timeline.rs`: `ReplayTimeline::mark`, `current_mark`,
  `add_explicit_checkpoint`, `seek_up_to_mark`, `seek_to_mark`,
  `seek_to_before_key`, `replay_step_forward`, and `Ord for Mark`.

  THE REPLAY.  The timeline is read against an abstract deterministic replay
  (`Replay`): execution positions `0, 1, 2, ...`, the `MarkKey` and the
  registers at each, and the state `ProtoMark::equal_states` compares (the
  registers and the return addresses).  `Replay.Lawful` is what the timeline
  relies on: keys never decrease and every key ends; within one key no state
  comes twice; a `RunSinglestepFastForward` step moves forward without passing a
  state of its key whose registers it was told to stop before; and
  `replay_step_to_mark` moves towards its target without passing it.  A replay
  that is restarted is at position `0`; a restored checkpoint is at the position
  it was taken at.  The replay never exits: the end of the recording is not
  modelled, and a step within a key always completes its singlestep.

  THE TIMELINE.  A mark, the `Rc<RefCell<InternalMark>>`, is named by its index
  in `internal_marks` and holds the position of its state.  `marks` gives the
  vector of each key; a `BTreeMap` entry that was never made is the empty
  vector.  A forward step is the position it reaches: the reverse-exec
  checkpoints it may add are the `add_explicit_checkpoint` of this file, and
  the flag `singlestep_to_next_mark_no_signal` is left out.

  THE INVARIANT.  `MarksInv`: each mark is listed in the vector of its key, each
  vector is in strictly increasing position, `current_at_or_after_mark` names a
  mark at or before the current position, and each key of
  `marks_with_checkpoints` has a mark with a checkpoint.  The hard step is
  `mark()`: its replay loop meets the first mark after the current position, or
  leaves the key before any, because the fast-forward steps never pass a mark's
  registers (`mark_loop_spec`).
-/
import RdReplay.Lib.CmpListOrder

set_option autoImplicit false
set_option linter.unusedSectionVars false

namespace RdReplay

/-! ## The replay -/

/-- An abstract deterministic replay, as the timeline sees it. -/
structure Replay (K Reg S : Type) where
  /-- `session_mark_key` at each position. -/
  key : Nat → K
  /-- The current task's registers. -/
  regs : Nat → Reg
  /-- What `ProtoMark::equal_states` compares besides the key. -/
  state : Nat → S
  /-- `replay_step_with_constraints(RunSinglestepFastForward)` with the given
  `stop_before_states`. -/
  fast_forward : Nat → List Reg → Nat
  /-- One `replay_step_to_mark` towards the mark at a position. -/
  step_to_mark : Nat → Nat → Nat

/-- What the timeline relies on of a replay. -/
structure Replay.Lawful {K Reg S : Type} [LinearOrder K] (R : Replay K Reg S) : Prop where
  key_mono : Monotone R.key
  key_ends : ∀ p, ∃ q, R.key p < R.key q
  /-- The states sharing one key are pairwise distinct. -/
  distinct : ∀ p q, R.key p = R.key q → R.state p = R.state q → p = q
  fast_forward_lt : ∀ p stops, p < R.fast_forward p stops
  /-- A fast-forward step passes no state of its key with registers in `stops`. -/
  fast_forward_stops : ∀ p stops q, p < q → q < R.fast_forward p stops → R.key q = R.key p →
    R.regs q ∉ stops
  step_to_mark_lt : ∀ p target, p < target → p < R.step_to_mark p target
  step_to_mark_le : ∀ p target, p < target → R.step_to_mark p target ≤ target

/-! ## The timeline -/

/-- What the timeline keeps of an `InternalMark`. -/
structure TimelineMark where
  /-- The position of the state the mark was made at: its `ProtoMark`. -/
  pos : Nat
  /-- `checkpoint.is_some()`. -/
  checkpoint : Bool
  checkpoint_refcount : Nat
  deriving DecidableEq, Repr, Inhabited

/-- `InternalMark::new` at position `p`. -/
def new_mark (p : Nat) : TimelineMark := ⟨p, false, 0⟩

/-- The marks of a `ReplayTimeline` and where its session is. -/
structure MarkTimeline (K : Type) where
  /-- `marks: BTreeMap<MarkKey, Vec<InternalMarkSharedPtr>>`. -/
  marks : K → List Nat
  internal_marks : List TimelineMark
  /-- `BTreeMap<MarkKey, u32>`. -/
  marks_with_checkpoints : List (K × Nat)
  /-- The position of `current`. -/
  current : Nat
  current_at_or_after_mark : Option Nat

/-- The operations of a run. -/
inductive MarkOp where
  | mark
  | add_explicit_checkpoint
  | seek_up_to_mark (mark : Nat)
  | seek_to_mark (mark : Nat)
  /-- `replay_step_forward`, as the position it reaches. -/
  | replay_step_forward (pos : Nat)
  deriving DecidableEq, Repr

namespace MarkTimeline

variable {K Reg S : Type} [LinearOrder K] [DecidableEq Reg] [DecidableEq S]

/-- `ReplayTimeline::new`: no marks, at the start of the replay. -/
def init : MarkTimeline K := ⟨fun _ => [], [], [], 0, none⟩

/-- The mark named `id`. -/
def get (t : MarkTimeline K) (id : Nat) : TimelineMark := t.internal_marks.getD id default

variable (R : Replay K Reg S)

/-- `InternalMark::equal_states` against the session at position `p`. -/
def equal_states (t : MarkTimeline K) (id p : Nat) : Bool :=
  R.key (t.get id).pos == R.key p && R.state (t.get id).pos == R.state p

/-- `current_mark`: the mark of the current state. -/
def current_mark (t : MarkTimeline K) : Option Nat :=
  (t.marks (R.key t.current)).find? fun id => t.equal_states R id t.current

/-- The `stop_before_states` of `mark()`: the registers of every mark of `key`. -/
def mark_stops (t : MarkTimeline K) (key : K) : List Reg :=
  (t.marks key).map fun id => R.regs (t.get id).pos

/-- The replay loop of `mark()` on the clone at `tmp`: the index of the first mark
of `key` it meets, or the vector's length once it leaves the key, and the
positions of the intermediate marks. -/
def mark_loop (t : MarkTimeline K) (key : K) : Nat → Nat → List Nat → Option (Nat × List Nat)
  | 0, _, _ => none
  | fuel + 1, tmp, acc =>
    let tmp := R.fast_forward tmp (t.mark_stops R key)
    if R.key tmp ≠ key then some ((t.marks key).length, acc)
    else
      match (t.marks key).findIdx? fun id => t.equal_states R id tmp with
      | some mark_index => some (mark_index, acc)
      | none => mark_loop t key fuel tmp (acc ++ [tmp])

/-- The end of `mark()`: `split_off(mark_index)`, the new marks at the current
position and at `acc`, and the rest of the vector. -/
def with_new_marks (t : MarkTimeline K) (key : K) (mark_index : Nat) (acc : List Nat) :
    MarkTimeline K :=
  let m := t.internal_marks.length
  let v := t.marks key
  { t with
    marks := Function.update t.marks key
      (v.take mark_index ++ List.range' m (acc.length + 1) ++ v.drop mark_index)
    internal_marks := t.internal_marks ++ (t.current :: acc).map new_mark
    current_at_or_after_mark := some m }

/-- `mark()`: the mark of the current state, made if there is none. -/
def mark (fuel : Nat) (t : MarkTimeline K) : Option (MarkTimeline K × Nat) :=
  match t.current_mark R with
  | some m => some (t, m)
  | none =>
    let key := R.key t.current
    let v := t.marks key
    let m := t.internal_marks.length
    if v.length = 0 ∨ (t.current_at_or_after_mark.isSome ∧ t.current_at_or_after_mark = v.getLast?) then
      some ({ t with
        marks := Function.update t.marks key (v ++ [m])
        internal_marks := t.internal_marks ++ [new_mark t.current]
        current_at_or_after_mark := some m }, m)
    else
      (t.mark_loop R key fuel t.current []).map fun (mark_index, acc) =>
        (t.with_new_marks key mark_index acc, m)

/-- `add_explicit_checkpoint`: checkpoint the current mark if it has no
checkpoint, and count one more reference to it. -/
def add_explicit_checkpoint (fuel : Nat) (t : MarkTimeline K) : Option (MarkTimeline K × Nat) :=
  (t.mark R fuel).map fun (t, m) =>
    let im := t.get m
    let t :=
      if !im.checkpoint then
        let key := R.key im.pos
        let v := match CmpList.get compare key t.marks_with_checkpoints with
          | none => 1
          | some v => (v + 1) % 2 ^ 32
        { t with
          marks_with_checkpoints := CmpList.insert compare key v t.marks_with_checkpoints
          internal_marks := t.internal_marks.set m { im with checkpoint := true } }
      else t
    let im := t.get m
    ({ t with
      internal_marks :=
        t.internal_marks.set m { im with checkpoint_refcount := (im.checkpoint_refcount + 1) % 2 ^ 32 } },
      m)

/-- The session restored from the checkpoint of mark `id`. -/
def restore (t : MarkTimeline K) (id : Nat) : MarkTimeline K :=
  { t with current := (t.get id).pos, current_at_or_after_mark := some id }

/-- `seek_to_before_key`: stay, restart the replay, or restore a checkpoint of
the last key before `key` that has one; `none` where the source panics. -/
def seek_to_before_key (key : K) (t : MarkTimeline K) : Option (MarkTimeline K) :=
  let current_key := R.key t.current
  let lb := (t.marks_with_checkpoints.filter fun e => key ≤ e.1).head?.map Prod.fst
  let first := t.marks_with_checkpoints.head?.map Prod.fst
  if lb = first then
    if current_key < key then some t
    else some { t with current := 0, current_at_or_after_mark := none }
  else
    match (t.marks_with_checkpoints.filter fun e => e.1 < key).getLast? with
    | none => none
    | some (it, _) =>
      if it < current_key ∧ current_key < key then some t
      else (((t.marks it).find? fun id => (t.get id).checkpoint).map t.restore)

/-- `Ord for Mark`; `none` where the scan finds neither mark and panics. -/
def mark_cmp (t : MarkTimeline K) (a b : Nat) : Option Ordering :=
  if a = b then some .eq
  else
    let ka := R.key (t.get a).pos
    let kb := R.key (t.get b).pos
    if ka < kb then some .lt
    else if kb < ka then some .gt
    else ((t.marks ka).find? fun m => m = b ∨ m = a).map fun m => if m = b then .gt else .lt

/-- The loop of `seek_up_to_mark`: the last mark of the vector, at or before
`mark`, with a checkpoint; `seek_to_before_key` when there is none. -/
def restore_at_or_before (key : K) (mark : Nat) (t : MarkTimeline K) : Option (MarkTimeline K) :=
  match (((t.marks key).reverse.dropWhile (· ≠ mark)).find? fun id => (t.get id).checkpoint) with
  | some id => some (t.restore id)
  | none => t.seek_to_before_key R key

/-- `seek_up_to_mark`: stay where `mark()` is at or before `mark`, else restore. -/
def seek_up_to_mark (fuel mark : Nat) (t : MarkTimeline K) : Option (MarkTimeline K) :=
  let key := R.key (t.get mark).pos
  if R.key t.current = key then
    match t.mark R fuel with
    | none => none
    | some (t, cm) =>
      match t.mark_cmp R cm mark with
      | none => none
      | some .gt => t.restore_at_or_before R key mark
      | some _ => some t
  else t.restore_at_or_before R key mark

/-- The loop of `seek_to_mark`: `replay_step_to_mark` until at `mark`. -/
def seek_to_mark_loop (mark : Nat) : Nat → MarkTimeline K → Option (MarkTimeline K)
  | 0, _ => none
  | fuel + 1, t =>
    if t.current_mark R = some mark then some t
    else seek_to_mark_loop mark fuel { t with current := R.step_to_mark t.current (t.get mark).pos }

/-- `seek_to_mark`. -/
def seek_to_mark (fuel mark : Nat) (t : MarkTimeline K) : Option (MarkTimeline K) :=
  (t.seek_up_to_mark R fuel mark).bind fun t =>
    (seek_to_mark_loop R mark fuel t).map fun t => { t with current_at_or_after_mark := some mark }

/-- `replay_step_forward`, moving the session to `pos`. -/
def replay_step_forward (pos : Nat) (t : MarkTimeline K) : Option (MarkTimeline K) :=
  if t.current ≤ pos then some { t with current := pos } else none

/-- One operation; a `Mark` is one the timeline made. -/
def step (fuel : Nat) : MarkOp → MarkTimeline K → Option (MarkTimeline K)
  | .mark, t => (t.mark R fuel).map Prod.fst
  | .add_explicit_checkpoint, t => (t.add_explicit_checkpoint R fuel).map Prod.fst
  | .seek_up_to_mark m, t => if m < t.internal_marks.length then t.seek_up_to_mark R fuel m else none
  | .seek_to_mark m, t => if m < t.internal_marks.length then t.seek_to_mark R fuel m else none
  | .replay_step_forward pos, t => t.replay_step_forward pos

/-- The timelines a run of operations reaches from a new one. -/
inductive Reachable : MarkTimeline K → Prop
  | init : Reachable init
  | step {t t' : MarkTimeline K} (fuel : Nat) (op : MarkOp) :
      Reachable t → step R fuel op t = some t' → Reachable t'

/-! ## Marks and states -/

section Get

variable {t : MarkTimeline K}

theorem get_append_left {l : List TimelineMark} {id : Nat} (h : id < t.internal_marks.length) :
    (t.internal_marks ++ l).getD id default = t.get id := by
  simp only [get, List.getD_eq_getElem?_getD, List.getElem?_append_left h]

theorem get_append_right (l : List TimelineMark) (k : Nat) :
    (t.internal_marks ++ l).getD (t.internal_marks.length + k) default = l.getD k default := by
  simp only [List.getD_eq_getElem?_getD, List.getElem?_append_right (Nat.le_add_right _ _),
    Nat.add_sub_cancel_left]

end Get

variable {R}

/-- Within a key, a mark's state is the session's exactly at the mark's position. -/
theorem equal_states_iff (hR : R.Lawful) (t : MarkTimeline K) (id p : Nat) :
    t.equal_states R id p = true ↔ (t.get id).pos = p := by
  unfold equal_states
  simp only [Bool.and_eq_true, beq_iff_eq]
  constructor
  · rintro ⟨hk, hs⟩
    exact hR.distinct _ _ hk hs
  · intro h
    rw [h]
    exact ⟨rfl, rfl⟩

/-- A mark whose position is not `p` has no equal state at `p`. -/
theorem equal_states_eq_false (hR : R.Lawful) {t : MarkTimeline K} {id p : Nat}
    (h : (t.get id).pos ≠ p) : t.equal_states R id p = false :=
  Bool.eq_false_iff.2 fun heq => h ((equal_states_iff hR t id p).1 heq)

theorem current_mark_eq_none_iff (hR : R.Lawful) (t : MarkTimeline K) :
    t.current_mark R = none ↔ ∀ id ∈ t.marks (R.key t.current), (t.get id).pos ≠ t.current := by
  simp only [current_mark, List.find?_eq_none, equal_states_iff hR, ne_eq]

theorem current_mark_eq_some (hR : R.Lawful) {t : MarkTimeline K} {m : Nat}
    (h : t.current_mark R = some m) : m ∈ t.marks (R.key t.current) ∧ (t.get m).pos = t.current := by
  have heq : t.equal_states R m t.current = true := by simpa using List.find?_some h
  exact ⟨List.mem_of_find?_eq_some h, (equal_states_iff hR t m t.current).1 heq⟩

/-- Keys never decrease, so a key that comes back has lasted in between. -/
theorem key_eq_of_between (hR : R.Lawful) {p q r : Nat} (hpq : p ≤ q) (hqr : q ≤ r)
    (h : R.key p = R.key r) : R.key q = R.key p :=
  le_antisymm (h ▸ hR.key_mono hqr) (hR.key_mono hpq)

/-- Keys are in execution order. -/
theorem lt_of_key_lt (hR : R.Lawful) {p q : Nat} (h : R.key p < R.key q) : p < q := by
  by_contra hle
  exact absurd (hR.key_mono (not_lt.1 hle)) (not_le.2 h)

/-! ## The invariant -/

variable (R) in
/-- The representation invariant of the marks. -/
structure MarksInv (t : MarkTimeline K) : Prop where
  /-- A listed mark exists and is listed under its key. -/
  mem_key : ∀ k, ∀ id ∈ t.marks k, id < t.internal_marks.length ∧ R.key (t.get id).pos = k
  /-- Every mark is listed under its key. -/
  listed : ∀ id < t.internal_marks.length, id ∈ t.marks (R.key (t.get id).pos)
  /-- Each vector is in strictly increasing execution position. -/
  sorted : ∀ k, (t.marks k).Pairwise fun a b => (t.get a).pos < (t.get b).pos
  /-- `current_at_or_after_mark` is a mark at or before the current position. -/
  current_at_or_after : ∀ id, t.current_at_or_after_mark = some id →
    id < t.internal_marks.length ∧ (t.get id).pos ≤ t.current
  checkpoints_sorted : CmpList.Sorted t.marks_with_checkpoints
  /-- Each key of `marks_with_checkpoints` has a mark with a checkpoint. -/
  checkpoint_of_key : ∀ e ∈ t.marks_with_checkpoints, ∃ id ∈ t.marks e.1, (t.get id).checkpoint = true

theorem MarksInv.init : MarksInv R (init : MarkTimeline K) where
  mem_key := by simp [MarkTimeline.init]
  listed := by simp [MarkTimeline.init]
  sorted := by simp [MarkTimeline.init]
  current_at_or_after := by simp [MarkTimeline.init]
  checkpoints_sorted := CmpList.Sorted.nil
  checkpoint_of_key := by simp [MarkTimeline.init]

/-! ## The replay loop of `mark()` -/

variable (R) in
/-- What the loop has seen once the clone is at `tmp`: no mark of the key from
`cur` to `tmp`, and the intermediate marks so far. -/
structure LoopInv (t : MarkTimeline K) (key : K) (cur tmp : Nat) (acc : List Nat) : Prop where
  cur_le : cur ≤ tmp
  key_tmp : R.key tmp = key
  no_mark : ∀ id ∈ t.marks key, (t.get id).pos ≤ tmp → (t.get id).pos < cur
  acc_sorted : acc.Pairwise (· < ·)
  acc_range : ∀ q ∈ acc, cur < q ∧ q ≤ tmp ∧ R.key q = key

variable (R) in
/-- Where the loop leaves the new marks: after the marks before `cur`, and
before the others. -/
structure LoopPost (t : MarkTimeline K) (key : K) (cur mark_index : Nat) (acc : List Nat) : Prop where
  before : ∀ id ∈ (t.marks key).take mark_index, (t.get id).pos < cur
  after : ∀ id ∈ (t.marks key).drop mark_index, cur < (t.get id).pos ∧ ∀ q ∈ acc, q < (t.get id).pos
  acc_sorted : acc.Pairwise (· < ·)
  acc_range : ∀ q ∈ acc, cur < q ∧ R.key q = key

/-- A fast-forward step of the loop passes no mark of its key. -/
theorem not_passed (hR : R.Lawful) {t : MarkTimeline K} {key : K} {tmp : Nat} (hk : R.key tmp = key)
    {id : Nat} (hid : id ∈ t.marks key) (hkey : R.key (t.get id).pos = key) :
    ¬ (tmp < (t.get id).pos ∧ (t.get id).pos < R.fast_forward tmp (t.mark_stops R key)) := by
  rintro ⟨h1, h2⟩
  apply hR.fast_forward_stops tmp _ _ h1 h2 (hkey.trans hk.symm)
  exact List.mem_map_of_mem hid

section Loop

/- One turn of the loop: the clone steps from `tmp` to `q`.  It meets a mark of
the key there, goes on with `q` as an intermediate mark, or has left the key. -/

variable {t : MarkTimeline K} {key : K} {cur tmp q : Nat} {acc : List Nat}

/-- A mark of the key at or after `cur` is at or after the position the step
reaches: it is not before `tmp`, and the step passes none. -/
theorem LoopInv.le_of_step (hR : R.Lawful) (hkey : ∀ id ∈ t.marks key, R.key (t.get id).pos = key)
    (hinv : LoopInv R t key cur tmp acc) (hq : R.fast_forward tmp (t.mark_stops R key) = q)
    {id : Nat} (hid : id ∈ t.marks key) (hcur : cur ≤ (t.get id).pos) : q ≤ (t.get id).pos := by
  have hnot := hq ▸ not_passed hR hinv.key_tmp hid (hkey id hid)
  by_contra hlt
  by_cases hle : (t.get id).pos ≤ tmp
  · have := hinv.no_mark id hid hle
    omega
  · exact hnot ⟨by omega, by omega⟩

/-- The loop meets the mark at index `j`, at `q`: the marks before it are
before `cur`, and it and the marks after it are after every intermediate mark. -/
theorem LoopInv.post_found (hsorted : (t.marks key).Pairwise fun a b => (t.get a).pos < (t.get b).pos)
    (hinv : LoopInv R t key cur tmp acc) (hlt : tmp < q)
    (hge : ∀ id ∈ t.marks key, cur ≤ (t.get id).pos → q ≤ (t.get id).pos)
    {j : Nat} (hj : j < (t.marks key).length) (hpos : (t.get (t.marks key)[j]).pos = q) :
    LoopPost R t key cur j acc := by
  have hord := List.pairwise_iff_getElem.1 hsorted
  refine ⟨fun id hid => ?_, fun id hid => ?_, hinv.acc_sorted,
    fun x hx => ⟨(hinv.acc_range x hx).1, (hinv.acc_range x hx).2.2⟩⟩
  · obtain ⟨k, hk, rfl⟩ := List.mem_take_iff_getElem.1 hid
    have hklen : k < (t.marks key).length := by omega
    have hkj := hord k j hklen hj (by omega)
    by_contra hcur
    have := hge (t.marks key)[k] (List.getElem_mem hklen) (by omega)
    omega
  · obtain ⟨k, hk, rfl⟩ := List.mem_drop_iff_getElem.1 hid
    have hle : q ≤ (t.get (t.marks key)[j + k]).pos := by
      rcases Nat.eq_zero_or_pos k with rfl | hk0
      · simp only [Nat.add_zero, hpos, le_refl]
      · exact hpos ▸ (hord j (j + k) hj (by omega) (by omega)).le
    refine ⟨by have := hinv.cur_le; omega, fun x hx => ?_⟩
    have := (hinv.acc_range x hx).2.1
    omega

/-- No mark of the key is at `q`, still in the key: the loop goes on from there,
with `q` an intermediate mark. -/
theorem LoopInv.next (hinv : LoopInv R t key cur tmp acc) (hlt : tmp < q) (hk : R.key q = key)
    (hge : ∀ id ∈ t.marks key, cur ≤ (t.get id).pos → q ≤ (t.get id).pos)
    (hnone : ∀ id ∈ t.marks key, (t.get id).pos ≠ q) :
    LoopInv R t key cur q (acc ++ [q]) := by
  refine ⟨by have := hinv.cur_le; omega, hk, fun id hid hle => ?_, ?_, fun x hx => ?_⟩
  · by_contra hcur
    have := hge id hid (by omega)
    have := hnone id hid
    omega
  · refine List.pairwise_append.2 ⟨hinv.acc_sorted, List.pairwise_singleton _ _, ?_⟩
    intro x hx y hy
    rw [List.mem_singleton] at hy
    have := (hinv.acc_range x hx).2.1
    omega
  · rcases List.mem_append.1 hx with hx | hx
    · have := hinv.acc_range x hx
      exact ⟨this.1, by omega, this.2.2⟩
    · rw [List.mem_singleton] at hx
      subst hx
      exact ⟨by have := hinv.cur_le; omega, le_rfl, hk⟩

/-- The clone left the key at `q`: a mark of the key at or after `cur` would be
at or after `q`, where the key has ended, so every mark is before `cur`. -/
theorem LoopInv.post_left (hR : R.Lawful) (hkey : ∀ id ∈ t.marks key, R.key (t.get id).pos = key)
    (hinv : LoopInv R t key cur tmp acc) (hlt : tmp < q) (hk : R.key q ≠ key)
    (hge : ∀ id ∈ t.marks key, cur ≤ (t.get id).pos → q ≤ (t.get id).pos) :
    LoopPost R t key cur (t.marks key).length acc := by
  refine ⟨fun id hid => ?_, fun id hid => by simp at hid, hinv.acc_sorted,
    fun x hx => ⟨(hinv.acc_range x hx).1, (hinv.acc_range x hx).2.2⟩⟩
  rw [List.take_length] at hid
  by_contra hcur
  have hqle := hge id hid (by omega)
  apply hk
  have := key_eq_of_between hR (le_of_lt hlt) hqle ((hinv.key_tmp).trans (hkey id hid).symm)
  exact this.trans hinv.key_tmp

end Loop

/-- The loop meets the first mark of the key after `cur`, or leaves the key when
there is none: every mark before its index is before `cur`, and every mark from
it on is after `cur` and after every intermediate mark.  By induction on the
fuel, carrying `LoopInv` through each turn. -/
theorem mark_loop_spec (hR : R.Lawful) {t : MarkTimeline K} {key : K} {cur : Nat}
    (hsorted : (t.marks key).Pairwise fun a b => (t.get a).pos < (t.get b).pos)
    (hkey : ∀ id ∈ t.marks key, R.key (t.get id).pos = key) :
    ∀ (fuel tmp : Nat) (acc : List Nat) (i : Nat) (acc' : List Nat), LoopInv R t key cur tmp acc →
      t.mark_loop R key fuel tmp acc = some (i, acc') → LoopPost R t key cur i acc'
  | 0, _, _, _, _, _, h => by simp [mark_loop] at h
  | fuel + 1, tmp, acc, i, acc', hinv, h => by
    simp only [mark_loop] at h
    obtain ⟨q, hq⟩ : ∃ q, R.fast_forward tmp (t.mark_stops R key) = q := ⟨_, rfl⟩
    have hlt : tmp < q := hq ▸ hR.fast_forward_lt _ _
    have hge : ∀ id ∈ t.marks key, cur ≤ (t.get id).pos → q ≤ (t.get id).pos :=
      fun id hid => hinv.le_of_step hR hkey hq hid
    rw [hq] at h
    by_cases hk : R.key q = key
    · rw [if_neg (not_not.2 hk)] at h
      cases hfind : (t.marks key).findIdx? (fun id => t.equal_states R id q) with
      | some j =>
        -- the loop meets the mark at index `j`
        simp only [hfind, Option.some.injEq, Prod.mk.injEq] at h
        obtain ⟨rfl, rfl⟩ := h
        obtain ⟨hj, hjq, -⟩ := List.findIdx?_eq_some_iff_getElem.1 hfind
        exact hinv.post_found hsorted hlt hge hj ((equal_states_iff hR t _ q).1 hjq)
      | none =>
        -- no mark at `q`: the loop goes on from there
        simp only [hfind] at h
        have hnone := List.findIdx?_eq_none_iff.1 hfind
        have hne : ∀ id ∈ t.marks key, (t.get id).pos ≠ q := fun id hid heq =>
          Bool.false_ne_true ((hnone id hid).symm.trans ((equal_states_iff hR t id q).2 heq))
        exact mark_loop_spec hR hsorted hkey fuel q (acc ++ [q]) i acc' (hinv.next hlt hk hge hne) h
    · -- the loop left the key
      rw [if_pos hk] at h
      simp only [Option.some.injEq, Prod.mk.injEq] at h
      obtain ⟨rfl, rfl⟩ := h
      exact hinv.post_left hR hkey hlt hk hge

/-! ## The marks `mark()` inserts -/

section Insert

variable {t : MarkTimeline K} {key : K} {i : Nat} {acc : List Nat}

@[simp] theorem with_new_marks_length :
    (t.with_new_marks key i acc).internal_marks.length = t.internal_marks.length + acc.length + 1 := by
  simp only [with_new_marks, List.length_append, List.length_map, List.length_cons]
  omega

@[simp] theorem with_new_marks_current : (t.with_new_marks key i acc).current = t.current := rfl

@[simp] theorem with_new_marks_checkpoints :
    (t.with_new_marks key i acc).marks_with_checkpoints = t.marks_with_checkpoints := rfl

theorem with_new_marks_marks (k : K) :
    (t.with_new_marks key i acc).marks k =
      if k = key then
        (t.marks key).take i ++ List.range' t.internal_marks.length (acc.length + 1) ++ (t.marks key).drop i
      else t.marks k := by
  simp only [with_new_marks, Function.update_apply]

theorem get_with_new_marks_old {id : Nat} (h : id < t.internal_marks.length) :
    (t.with_new_marks key i acc).get id = t.get id :=
  get_append_left h

/-- The new mark `m + k` is at the `k`-th position of `t.current :: acc`. -/
theorem pos_with_new_marks_new (k : Nat) :
    ((t.with_new_marks key i acc).get (t.internal_marks.length + k)).pos = (t.current :: acc).getD k 0 := by
  show ((t.internal_marks ++ (t.current :: acc).map new_mark).getD _ default).pos = _
  rw [get_append_right, show (default : TimelineMark) = new_mark 0 from rfl, List.getD_map]
  rfl

/-- The positions of the new marks, in the order they are inserted. -/
theorem map_pos_range' :
    (List.range' t.internal_marks.length (acc.length + 1)).map
        (fun id => ((t.with_new_marks key i acc).get id).pos) = t.current :: acc := by
  apply List.ext_getElem
  · simp
  · intro k h1 h2
    simp only [List.getElem_map, List.getElem_range', Nat.one_mul, pos_with_new_marks_new,
      List.getD_eq_getElem?_getD, List.getElem?_eq_getElem h2, Option.getD_some]

theorem mem_with_new_marks (k : K) (id : Nat) :
    id ∈ (t.with_new_marks key i acc).marks k ↔
      id ∈ t.marks k ∨ (k = key ∧ t.internal_marks.length ≤ id ∧
        id < t.internal_marks.length + (acc.length + 1)) := by
  rw [with_new_marks_marks]
  by_cases hk : k = key
  · subst hk
    have hv : id ∈ t.marks k ↔ id ∈ (t.marks k).take i ∨ id ∈ (t.marks k).drop i := by
      rw [← List.mem_append, List.take_append_drop]
    simp only [if_true, List.mem_append, List.mem_range'_1, hv, true_and]
    tauto
  · simp only [hk, if_false, false_and, or_false]

/-- Every new mark is of the key, at or after the current position. -/
theorem with_new_marks_new (hpost : LoopPost R t key t.current i acc) (hkey : R.key t.current = key)
    {id : Nat} (h1 : t.internal_marks.length ≤ id) (h2 : id < t.internal_marks.length + (acc.length + 1)) :
    R.key ((t.with_new_marks key i acc).get id).pos = key ∧
      t.current ≤ ((t.with_new_marks key i acc).get id).pos := by
  obtain ⟨k, rfl⟩ := Nat.exists_eq_add_of_le h1
  rw [pos_with_new_marks_new]
  cases k with
  | zero => exact ⟨hkey, le_rfl⟩
  | succ k =>
    have hk : k < acc.length := by omega
    have hq := hpost.acc_range _ (List.getElem_mem hk)
    simp only [List.getD_eq_getElem?_getD, List.getElem?_cons_succ, List.getElem?_eq_getElem hk,
      Option.getD_some]
    exact ⟨hq.2, hq.1.le⟩

/-- The vector of the key stays in execution order: the marks before the
current position, the new marks, then the rest. -/
theorem with_new_marks_sorted (hI : MarksInv R t) (hpost : LoopPost R t key t.current i acc) :
    ((t.with_new_marks key i acc).marks key).Pairwise fun a b =>
      ((t.with_new_marks key i acc).get a).pos < ((t.with_new_marks key i acc).get b).pos := by
  have hlt : ∀ id ∈ t.marks key, id < t.internal_marks.length := fun id h => (hI.mem_key key id h).1
  rw [with_new_marks_marks, if_pos rfl, ← List.pairwise_map, List.map_append, List.map_append,
    map_pos_range']
  -- the old marks keep their positions
  have htake : ((t.marks key).take i).map (fun id => ((t.with_new_marks key i acc).get id).pos) =
      ((t.marks key).take i).map fun id => (t.get id).pos :=
    List.map_congr_left fun id h => by rw [get_with_new_marks_old (hlt id (List.mem_of_mem_take h))]
  have hdrop : ((t.marks key).drop i).map (fun id => ((t.with_new_marks key i acc).get id).pos) =
      ((t.marks key).drop i).map fun id => (t.get id).pos :=
    List.map_congr_left fun id h => by rw [get_with_new_marks_old (hlt id (List.mem_of_mem_drop h))]
  rw [htake, hdrop]
  have hv := List.pairwise_map.2 (hI.sorted key)
  rw [← List.take_append_drop i (t.marks key), List.map_append, List.pairwise_append] at hv
  obtain ⟨hv1, hv2, hv12⟩ := hv
  refine List.pairwise_append.2 ⟨List.pairwise_append.2 ⟨hv1, ?_, ?_⟩, hv2, ?_⟩
  · exact List.pairwise_cons.2 ⟨fun q hq => (hpost.acc_range q hq).1, hpost.acc_sorted⟩
  · -- the marks before, against the new ones
    intro x hx y hy
    obtain ⟨id, hid, rfl⟩ := List.mem_map.1 hx
    have hbefore := hpost.before id hid
    rcases List.mem_cons.1 hy with rfl | hy
    · exact hbefore
    · have := (hpost.acc_range y hy).1
      omega
  · -- everything before the rest, against the rest
    intro x hx y hy
    obtain ⟨id', hid', rfl⟩ := List.mem_map.1 hy
    rcases List.mem_append.1 hx with hx | hx
    · exact hv12 x hx _ (List.mem_map_of_mem hid')
    · have hafter := hpost.after id' hid'
      rcases List.mem_cons.1 hx with rfl | hx
      · exact hafter.1
      · exact hafter.2 x hx

/-- Inserting the marks the loop made keeps the invariant. -/
theorem MarksInv.with_new_marks (hI : MarksInv R t) (hkey : R.key t.current = key)
    (hpost : LoopPost R t key t.current i acc) : MarksInv R (t.with_new_marks key i acc) where
  mem_key k id hid := by
    rw [with_new_marks_length]
    rcases (mem_with_new_marks k id).1 hid with hid | ⟨rfl, h1, h2⟩
    · have hold := hI.mem_key k id hid
      rw [get_with_new_marks_old hold.1]
      exact ⟨by omega, hold.2⟩
    · exact ⟨by omega, (with_new_marks_new hpost hkey h1 h2).1⟩
  listed id hid := by
    rw [with_new_marks_length] at hid
    by_cases hold : id < t.internal_marks.length
    · rw [get_with_new_marks_old hold]
      exact (mem_with_new_marks _ id).2 (.inl (hI.listed id hold))
    · have hnew := with_new_marks_new hpost hkey (not_lt.1 hold) (by omega)
      rw [hnew.1]
      exact (mem_with_new_marks _ id).2 (.inr ⟨rfl, not_lt.1 hold, by omega⟩)
  sorted k := by
    by_cases hk : k = key
    · subst hk
      exact with_new_marks_sorted hI hpost
    · rw [with_new_marks_marks, if_neg hk]
      refine (hI.sorted k).imp_of_mem fun {a b} ha hb hab => ?_
      rw [get_with_new_marks_old (hI.mem_key k a ha).1, get_with_new_marks_old (hI.mem_key k b hb).1]
      exact hab
  current_at_or_after id h := by
    -- the new current-or-after mark is the one at the current position
    have hid : t.internal_marks.length = id := Option.some.inj h
    subst hid
    have h0 : ((t.with_new_marks key i acc).get t.internal_marks.length).pos = t.current :=
      pos_with_new_marks_new 0
    rw [with_new_marks_length, h0, with_new_marks_current]
    exact ⟨by omega, le_rfl⟩
  checkpoints_sorted := hI.checkpoints_sorted
  checkpoint_of_key e he := by
    obtain ⟨id, hid, hchk⟩ := hI.checkpoint_of_key e he
    refine ⟨id, (mem_with_new_marks _ id).2 (.inl hid), ?_⟩
    rw [get_with_new_marks_old (hI.mem_key _ id hid).1]
    exact hchk

end Insert

/-! ## `mark()` -/

section Mark

variable {t t' : MarkTimeline K} {fuel m : Nat}

/-- The push branch of `mark()` is the insertion at the end of the vector. -/
theorem push_eq_with_new_marks (t : MarkTimeline K) (key : K) :
    { t with
      marks := Function.update t.marks key (t.marks key ++ [t.internal_marks.length])
      internal_marks := t.internal_marks ++ [new_mark t.current]
      current_at_or_after_mark := some t.internal_marks.length } =
      t.with_new_marks key (t.marks key).length [] := by
  simp [with_new_marks]

/-- The loop starts with nothing seen: no mark of the key is at the current
position. -/
theorem loopInv_start (hR : R.Lawful) (hnone : t.current_mark R = none) :
    LoopInv R t (R.key t.current) t.current t.current [] where
  cur_le := le_rfl
  key_tmp := rfl
  no_mark id hid hle := lt_of_le_of_ne hle ((current_mark_eq_none_iff hR t).1 hnone id hid)
  acc_sorted := List.Pairwise.nil
  acc_range := by simp

/-- Where `mark()` pushes, every mark of the key is before the current
position: the key has no mark, or its last is `current_at_or_after_mark`. -/
theorem push_post (hR : R.Lawful) (hI : MarksInv R t) (hnone : t.current_mark R = none)
    (hcond : (t.marks (R.key t.current)).length = 0 ∨
      (t.current_at_or_after_mark.isSome = true ∧
        t.current_at_or_after_mark = (t.marks (R.key t.current)).getLast?)) :
    LoopPost R t (R.key t.current) t.current (t.marks (R.key t.current)).length [] := by
  refine ⟨fun id hid => ?_, fun id hid => by simp at hid, List.Pairwise.nil, by simp⟩
  rw [List.take_length] at hid
  rcases hcond with hlen | ⟨hsome, hlast⟩
  · simp [List.length_eq_zero_iff.1 hlen] at hid
  · obtain ⟨last, hl⟩ := Option.isSome_iff_exists.1 hsome
    obtain ⟨ys, hys⟩ := List.getLast?_eq_some_iff.1 (hlast.symm.trans hl)
    have hmem : last ∈ t.marks (R.key t.current) := by
      rw [hys]
      exact List.mem_append_right _ (List.mem_singleton_self last)
    -- the last mark is at or before the current position, and not at it
    have hle := (hI.current_at_or_after last hl).2
    have hne := (current_mark_eq_none_iff hR t).1 hnone last hmem
    have hs := hI.sorted (R.key t.current)
    rw [hys, List.pairwise_append] at hs
    rw [hys] at hid
    rcases List.mem_append.1 hid with hid | hid
    · have := hs.2.2 id hid last (List.mem_singleton_self last)
      omega
    · rw [List.mem_singleton] at hid
      subst hid
      omega

/-- What `mark()` does: it returns the mark of the current state, or makes one
there and inserts it with the marks its loop made. -/
theorem mark_cases (hR : R.Lawful) (hI : MarksInv R t) (h : t.mark R fuel = some (t', m)) :
    (t.current_mark R = some m ∧ t' = t) ∨
      (t.current_mark R = none ∧ m = t.internal_marks.length ∧
        ∃ i acc, LoopPost R t (R.key t.current) t.current i acc ∧
          t' = t.with_new_marks (R.key t.current) i acc) := by
  unfold mark at h
  cases hc : t.current_mark R with
  | some m₀ =>
    rw [hc] at h
    simp only [Option.some.injEq, Prod.mk.injEq] at h
    obtain ⟨rfl, rfl⟩ := h
    exact .inl ⟨rfl, rfl⟩
  | none =>
    rw [hc] at h
    dsimp only at h
    refine .inr ⟨rfl, ?_⟩
    split at h
    · rename_i hcond
      simp only [Option.some.injEq, Prod.mk.injEq] at h
      obtain ⟨rfl, rfl⟩ := h
      exact ⟨rfl, _, [], push_post hR hI hc hcond, push_eq_with_new_marks t _⟩
    · obtain ⟨⟨i, acc⟩, hloop, hres⟩ := Option.map_eq_some_iff.1 h
      simp only [Prod.mk.injEq] at hres
      obtain ⟨rfl, rfl⟩ := hres
      refine ⟨rfl, i, acc, ?_, rfl⟩
      exact mark_loop_spec hR (hI.sorted _) (fun id hid => (hI.mem_key _ id hid).2) fuel _ [] i acc
        (loopInv_start hR hc) hloop

theorem MarksInv.mark (hR : R.Lawful) (hI : MarksInv R t) (h : t.mark R fuel = some (t', m)) :
    MarksInv R t' := by
  rcases mark_cases hR hI h with ⟨-, rfl⟩ | ⟨-, -, i, acc, hpost, rfl⟩
  · exact hI
  · exact hI.with_new_marks rfl hpost

/-- The loop returns within as many turns as it takes to reach a later key:
it moves forward every turn. -/
theorem mark_loop_isSome (hR : R.Lawful) {t : MarkTimeline K} {key : K} {e : Nat}
    (he : key < R.key e) :
    ∀ (fuel tmp : Nat) (acc : List Nat), R.key tmp = key → e ≤ tmp + fuel →
      (t.mark_loop R key fuel tmp acc).isSome
  | 0, tmp, _, hk, hle => by
    have := hR.key_mono (show e ≤ tmp by omega)
    rw [hk] at this
    exact absurd he (not_lt.2 this)
  | fuel + 1, tmp, acc, _, hle => by
    have hlt := hR.fast_forward_lt tmp (t.mark_stops R key)
    simp only [mark_loop]
    split
    · rfl
    · rename_i hk
      split
      · rfl
      · exact mark_loop_isSome hR he fuel _ _ (not_not.1 hk) (by omega)

/-- `mark()` returns, given enough fuel. -/
theorem mark_isSome (hR : R.Lawful) (t : MarkTimeline K) : ∃ fuel, (t.mark R fuel).isSome := by
  obtain ⟨e, he⟩ := hR.key_ends t.current
  refine ⟨e, ?_⟩
  unfold mark
  split
  · rfl
  · simp only
    split
    · rfl
    · rw [Option.isSome_map]
      exact mark_loop_isSome hR he e t.current [] rfl (by omega)

/-- What `mark()` returns is a mark of the current key, at the current
position, and the session stays where it is. -/
theorem mark_returns (hR : R.Lawful) (hI : MarksInv R t) (h : t.mark R fuel = some (t', m)) :
    (t'.get m).pos = t.current ∧ m ∈ t'.marks (R.key t.current) ∧ t'.current = t.current := by
  rcases mark_cases hR hI h with ⟨hc, rfl⟩ | ⟨-, rfl, i, acc, -, rfl⟩
  · obtain ⟨hmem, hpos⟩ := current_mark_eq_some hR hc
    exact ⟨hpos, hmem, rfl⟩
  · refine ⟨pos_with_new_marks_new 0, (mem_with_new_marks _ _).2 (.inr ⟨rfl, le_rfl, by omega⟩), rfl⟩

theorem mark_lt (hR : R.Lawful) (hI : MarksInv R t) (h : t.mark R fuel = some (t', m)) :
    m < t'.internal_marks.length :=
  ((hI.mark hR h).mem_key _ m (mark_returns hR hI h).2.1).1

end Mark

/-! ## Checkpoints and seeks -/

section Seek

variable {t t' : MarkTimeline K} {fuel m : Nat}

theorem getD_set_default (l : List TimelineMark) (m id : Nat) (x : TimelineMark) :
    (l.set m x).getD id default = if m = id ∧ m < l.length then x else l.getD id default := by
  simp only [List.getD_eq_getElem?_getD, List.getElem?_set]
  by_cases hm : m = id
  · subst hm
    by_cases hlt : m < l.length
    · simp [hlt]
    · simp [hlt]
  · simp [hm]

/-- The same marks at the same positions, with checkpoints only where a mark of
the key has one, keep the invariant. -/
theorem MarksInv.of_checkpoints (hI : MarksInv R t) (hmarks : t'.marks = t.marks)
    (hlen : t'.internal_marks.length = t.internal_marks.length)
    (hpos : ∀ id, (t'.get id).pos = (t.get id).pos) (hcur : t'.current = t.current)
    (hcaoam : t'.current_at_or_after_mark = t.current_at_or_after_mark)
    (hsorted : CmpList.Sorted t'.marks_with_checkpoints)
    (hchk : ∀ e ∈ t'.marks_with_checkpoints, ∃ id ∈ t'.marks e.1, (t'.get id).checkpoint = true) :
    MarksInv R t' where
  mem_key k id hid := by
    rw [hmarks] at hid
    rw [hlen, hpos]
    exact hI.mem_key k id hid
  listed id hid := by
    rw [hlen] at hid
    rw [hmarks, hpos]
    exact hI.listed id hid
  sorted k := by
    rw [hmarks]
    simpa only [hpos] using hI.sorted k
  current_at_or_after id h := by
    rw [hlen, hpos, hcur]
    exact hI.current_at_or_after id (hcaoam ▸ h)
  checkpoints_sorted := hsorted
  checkpoint_of_key := hchk

/-- `add_explicit_checkpoint` checkpointing mark `m` and counting it under its key. -/
theorem MarksInv.set_checkpoint (hI : MarksInv R t) (hm : m < t.internal_marks.length) (v : Nat) :
    MarksInv R { t with
      marks_with_checkpoints := CmpList.insert compare (R.key (t.get m).pos) v t.marks_with_checkpoints
      internal_marks := t.internal_marks.set m { t.get m with checkpoint := true } } := by
  have hget : ∀ id, ({ t with
      marks_with_checkpoints := CmpList.insert compare (R.key (t.get m).pos) v t.marks_with_checkpoints
      internal_marks := t.internal_marks.set m { t.get m with checkpoint := true } } : MarkTimeline K).get id =
        if m = id then { t.get m with checkpoint := true } else t.get id := by
    intro id
    simp only [get, getD_set_default, hm, and_true]
  refine hI.of_checkpoints rfl List.length_set (fun id => ?_) rfl rfl hI.checkpoints_sorted.insert ?_
  · rw [hget]
    split
    · rename_i h
      subst h
      rfl
    · rfl
  · intro e he
    rcases (CmpList.mem_insert_iff hI.checkpoints_sorted).1 he with rfl | ⟨he, -⟩
    · -- the new entry: mark `m` itself, listed under its key
      exact ⟨m, hI.listed m hm, by rw [hget, if_pos rfl]⟩
    · obtain ⟨id, hid, hchk⟩ := hI.checkpoint_of_key e he
      refine ⟨id, hid, ?_⟩
      rw [hget]
      split
      · rfl
      · exact hchk

/-- Counting one more reference to mark `m`. -/
theorem MarksInv.set_refcount (hI : MarksInv R t) (r : Nat) :
    MarksInv R { t with
      internal_marks := t.internal_marks.set m { t.get m with checkpoint_refcount := r } } := by
  have hget : ∀ id, ({ t with
      internal_marks := t.internal_marks.set m { t.get m with checkpoint_refcount := r } } :
        MarkTimeline K).get id = if m = id ∧ m < t.internal_marks.length then
          { t.get m with checkpoint_refcount := r } else t.get id := by
    intro id
    simp only [get, getD_set_default]
  refine hI.of_checkpoints rfl List.length_set (fun id => ?_) rfl rfl hI.checkpoints_sorted ?_
  · rw [hget]
    split
    · rename_i h
      rw [← h.1]
    · rfl
  · intro e he
    obtain ⟨id, hid, hchk⟩ := hI.checkpoint_of_key e he
    refine ⟨id, hid, ?_⟩
    rw [hget]
    split
    · rename_i h
      rw [← hchk, ← h.1]
    · exact hchk

theorem MarksInv.add_explicit_checkpoint (hR : R.Lawful) (hI : MarksInv R t)
    (h : t.add_explicit_checkpoint R fuel = some (t', m)) : MarksInv R t' := by
  unfold MarkTimeline.add_explicit_checkpoint at h
  obtain ⟨⟨t1, m1⟩, hmark, hres⟩ := Option.map_eq_some_iff.1 h
  have hI1 := hI.mark hR hmark
  have hm1 := mark_lt hR hI hmark
  simp only [Prod.mk.injEq] at hres
  obtain ⟨rfl, rfl⟩ := hres
  split
  · exact (hI1.set_checkpoint hm1 _).set_refcount _
  · exact hI1.set_refcount _

/-- Moving the session keeps the invariant when the new current-or-after mark is
a mark at or before the new position: the marks and checkpoints stay. -/
theorem MarksInv.move (hI : MarksInv R t) (c : Nat) (o : Option Nat)
    (ho : ∀ id, o = some id → id < t.internal_marks.length ∧ (t.get id).pos ≤ c) :
    MarksInv R { t with current := c, current_at_or_after_mark := o } where
  mem_key := hI.mem_key
  listed := hI.listed
  sorted := hI.sorted
  current_at_or_after := ho
  checkpoints_sorted := hI.checkpoints_sorted
  checkpoint_of_key := hI.checkpoint_of_key

/-- Restoring the checkpoint of a mark. -/
theorem MarksInv.restore (hI : MarksInv R t) {id : Nat} (hid : id < t.internal_marks.length) :
    MarksInv R (t.restore id) :=
  hI.move _ _ fun id' h => by
    obtain rfl : id = id' := Option.some.inj h
    exact ⟨hid, le_rfl⟩

/-- Restarting the replay. -/
theorem MarksInv.restart (hI : MarksInv R t) :
    MarksInv R { t with current := 0, current_at_or_after_mark := none } :=
  hI.move 0 none fun _ h => nomatch h

/-- Replaying forward. -/
theorem MarksInv.forward (hI : MarksInv R t) {pos : Nat} (hle : t.current ≤ pos) :
    MarksInv R { t with current := pos } :=
  hI.move pos t.current_at_or_after_mark fun id h => by
    have := hI.current_at_or_after id h
    exact ⟨this.1, le_trans this.2 hle⟩

theorem MarksInv.seek_to_before_key (hI : MarksInv R t) {key : K}
    (h : t.seek_to_before_key R key = some t') : MarksInv R t' := by
  unfold MarkTimeline.seek_to_before_key at h
  dsimp only at h
  split at h
  · split at h
    · obtain rfl := Option.some.inj h
      exact hI
    · obtain rfl := Option.some.inj h
      exact hI.restart
  · split at h
    · exact absurd h (by simp)
    · split at h
      · obtain rfl := Option.some.inj h
        exact hI
      · obtain ⟨id, hfind, rfl⟩ := Option.map_eq_some_iff.1 h
        exact hI.restore (hI.mem_key _ id (List.mem_of_find?_eq_some hfind)).1

theorem MarksInv.restore_at_or_before (hI : MarksInv R t) {key : K} {mark : Nat}
    (h : t.restore_at_or_before R key mark = some t') : MarksInv R t' := by
  unfold MarkTimeline.restore_at_or_before at h
  split at h
  · rename_i id hfind
    obtain rfl := Option.some.inj h
    have hmem : id ∈ t.marks key :=
      List.mem_reverse.1 ((List.dropWhile_sublist _).subset (List.mem_of_find?_eq_some hfind))
    exact hI.restore (hI.mem_key _ id hmem).1
  · exact hI.seek_to_before_key h

theorem MarksInv.seek_up_to_mark (hR : R.Lawful) (hI : MarksInv R t) {mark : Nat}
    (h : t.seek_up_to_mark R fuel mark = some t') : MarksInv R t' := by
  unfold MarkTimeline.seek_up_to_mark at h
  dsimp only at h
  split at h
  · split at h
    · exact absurd h (by simp)
    · rename_i t1 cm hmark
      have hI1 := hI.mark hR hmark
      split at h
      · exact absurd h (by simp)
      · exact hI1.restore_at_or_before h
      · obtain rfl := Option.some.inj h
        exact hI1
  · exact hI.restore_at_or_before h

/-- The loop of `seek_to_mark` only moves the session, and ends at the mark. -/
theorem seek_to_mark_loop_eq {mark : Nat} : ∀ {fuel : Nat} {t t' : MarkTimeline K},
    seek_to_mark_loop R mark fuel t = some t' →
      ∃ c, t' = { t with current := c } ∧ ({ t with current := c } : MarkTimeline K).current_mark R = some mark
  | 0, _, _, h => by simp [seek_to_mark_loop] at h
  | fuel + 1, t, t', h => by
    unfold seek_to_mark_loop at h
    split at h
    · rename_i hc
      obtain rfl := Option.some.inj h
      exact ⟨t.current, rfl, hc⟩
    · obtain ⟨c, rfl, hc⟩ := seek_to_mark_loop_eq h
      exact ⟨c, rfl, hc⟩

theorem MarksInv.seek_to_mark (hR : R.Lawful) (hI : MarksInv R t) {mark : Nat}
    (h : t.seek_to_mark R fuel mark = some t') : MarksInv R t' := by
  unfold MarkTimeline.seek_to_mark at h
  obtain ⟨t1, hup, hloop⟩ := Option.bind_eq_some_iff.1 h
  have hI1 := hI.seek_up_to_mark hR hup
  obtain ⟨t2, hloop', rfl⟩ := Option.map_eq_some_iff.1 hloop
  obtain ⟨c, rfl, hc⟩ := seek_to_mark_loop_eq hloop'
  obtain ⟨hmem, hpos⟩ := current_mark_eq_some hR hc
  have hpos' : (t1.get mark).pos = c := hpos
  -- the session ends at the mark: this is the mark's checkpoint restored
  have hres : ({ ({ t1 with current := c } : MarkTimeline K) with current_at_or_after_mark := some mark } :
      MarkTimeline K) = t1.restore mark := by
    rw [MarkTimeline.restore, hpos']
  rw [hres]
  exact hI1.restore (hI1.mem_key _ mark hmem).1

theorem MarksInv.step (hR : R.Lawful) (hI : MarksInv R t) {op : MarkOp}
    (h : step R fuel op t = some t') : MarksInv R t' := by
  cases op with
  | mark =>
    obtain ⟨⟨t1, m⟩, hmark, rfl⟩ := Option.map_eq_some_iff.1 h
    exact hI.mark hR hmark
  | add_explicit_checkpoint =>
    obtain ⟨⟨t1, m⟩, hchk, rfl⟩ := Option.map_eq_some_iff.1 h
    exact hI.add_explicit_checkpoint hR hchk
  | seek_up_to_mark m =>
    simp only [MarkTimeline.step] at h
    split at h
    · exact hI.seek_up_to_mark hR h
    · exact absurd h (by simp)
  | seek_to_mark m =>
    simp only [MarkTimeline.step] at h
    split at h
    · exact hI.seek_to_mark hR h
    · exact absurd h (by simp)
  | replay_step_forward pos =>
    simp only [MarkTimeline.step, replay_step_forward] at h
    split at h
    · obtain rfl := Option.some.inj h
      exact hI.forward ‹_›
    · exact absurd h (by simp)

/-- Every reachable timeline keeps the invariant. -/
theorem Reachable.inv (hR : R.Lawful) (ht : Reachable R t) : MarksInv R t := by
  induction ht with
  | init => exact MarksInv.init
  | step fuel op _ hstep ih => exact ih.step hR hstep

end Seek

/-! ## What the invariant gives -/

section Order

variable {t t' : MarkTimeline K} {fuel m : Nat}

/-- Of two distinct members of a list, `find?` meets first the one the list's
order puts first. -/
theorem find?_either {α : Type} [DecidableEq α] {r : α → α → Prop} :
    ∀ {l : List α} {a b : α}, l.Pairwise r → a ∈ l → b ∈ l → a ≠ b →
      (l.find? (fun x => decide (x = b ∨ x = a)) = some b ∧ r b a) ∨
        (l.find? (fun x => decide (x = b ∨ x = a)) = some a ∧ r a b)
  | [], _, _, _, ha, _, _ => absurd ha List.not_mem_nil
  | x :: l, a, b, hp, ha, hb, hab => by
    rw [List.pairwise_cons] at hp
    by_cases hxb : x = b
    · subst hxb
      have ha' : a ∈ l := (List.mem_cons.1 ha).resolve_left hab
      exact .inl ⟨List.find?_cons_of_pos (by simp), hp.1 a ha'⟩
    · have hb' : b ∈ l := (List.mem_cons.1 hb).resolve_left fun h => hxb h.symm
      by_cases hxa : x = a
      · subst hxa
        exact .inr ⟨List.find?_cons_of_pos (by simp), hp.1 b hb'⟩
      · have ha' : a ∈ l := (List.mem_cons.1 ha).resolve_left fun h => hxa h.symm
        rw [List.find?_cons_of_neg (by simp [hxb, hxa])]
        exact find?_either hp.2 ha' hb' hab

/-- `Ord for Mark` is execution order: it compares the marks' positions, so the
order of two marks never changes as marks are added. -/
theorem mark_cmp_eq (hR : R.Lawful) (hI : MarksInv R t) {a b : Nat}
    (ha : a < t.internal_marks.length) (hb : b < t.internal_marks.length) :
    t.mark_cmp R a b = some (compare (t.get a).pos (t.get b).pos) := by
  unfold mark_cmp
  by_cases hab : a = b
  · subst hab
    rw [if_pos rfl, Nat.compare_eq_eq.2 rfl]
  rw [if_neg hab]
  dsimp only
  by_cases hlt : R.key (t.get a).pos < R.key (t.get b).pos
  · rw [if_pos hlt, Nat.compare_eq_lt.2 (lt_of_key_lt hR hlt)]
  rw [if_neg hlt]
  by_cases hgt : R.key (t.get b).pos < R.key (t.get a).pos
  · rw [if_pos hgt, Nat.compare_eq_gt.2 (lt_of_key_lt hR hgt)]
  rw [if_neg hgt]
  -- one key: the scan of its vector meets the earlier mark first
  have hk : R.key (t.get a).pos = R.key (t.get b).pos := le_antisymm (not_lt.1 hgt) (not_lt.1 hlt)
  have hb' : b ∈ t.marks (R.key (t.get a).pos) := hk ▸ hI.listed b hb
  rcases find?_either (hI.sorted _) (hI.listed a ha) hb' hab with ⟨hfind, hpos⟩ | ⟨hfind, hpos⟩
  · rw [hfind, Option.map_some, if_pos rfl, Nat.compare_eq_gt.2 hpos]
  · rw [hfind, Option.map_some, if_neg hab, Nat.compare_eq_lt.2 hpos]

/-- No two marks of one vector have equal states. -/
theorem MarksInv.no_equal_states (hR : R.Lawful) (hI : MarksInv R t) (k : K) :
    (t.marks k).Pairwise fun a b => t.equal_states R a (t.get b).pos = false :=
  (hI.sorted k).imp fun hab => equal_states_eq_false hR (Nat.ne_of_lt hab)

/-- A mark of the current key at the current position is the current mark. -/
theorem current_mark_of_mem (hR : R.Lawful) (hI : MarksInv R t) {m : Nat}
    (hm : m ∈ t.marks (R.key t.current)) (hpos : (t.get m).pos = t.current) :
    t.current_mark R = some m := by
  unfold current_mark
  rw [List.find?_eq_some_iff_append]
  refine ⟨(equal_states_iff hR t m _).2 hpos, ?_⟩
  obtain ⟨s, u, hsu⟩ := List.append_of_mem hm
  refine ⟨s, u, hsu, fun a ha => ?_⟩
  -- the marks before `m` are before the current position
  have hs := hI.sorted (R.key t.current)
  rw [hsu, List.pairwise_append] at hs
  have hlt := hs.2.2 a ha m List.mem_cons_self
  simpa using equal_states_eq_false hR (hpos ▸ Nat.ne_of_lt hlt)

/-- When the current state has no mark, `mark()` makes one there, keeps every
mark, and inserts the new marks only into the current key, at or after the
current position. -/
theorem mark_inserts (hR : R.Lawful) (hI : MarksInv R t) (hnone : t.current_mark R = none)
    (h : t.mark R fuel = some (t', m)) :
    (t'.get m).pos = t.current ∧ t'.current_mark R = some m ∧
      (∀ id < t.internal_marks.length, t'.get id = t.get id) ∧
      (∀ k, (t.marks k).Sublist (t'.marks k)) ∧
      ∀ k id, id ∈ t'.marks k → id ∉ t.marks k → k = R.key t.current ∧ t.current ≤ (t'.get id).pos := by
  have hret := mark_returns hR hI h
  have hI' := hI.mark hR h
  rcases mark_cases hR hI h with ⟨hc, -⟩ | ⟨-, -, i, acc, hpost, rfl⟩
  · rw [hnone] at hc
    exact absurd hc (by simp)
  refine ⟨hret.1, current_mark_of_mem hR hI' (hret.2.2 ▸ hret.2.1) (hret.1.trans hret.2.2.symm),
    fun id hid => get_with_new_marks_old hid, fun k => ?_, fun k id hid hnot => ?_⟩
  · rw [with_new_marks_marks]
    split
    · rename_i hk
      rw [hk]
      conv_lhs => rw [← List.take_append_drop i (t.marks (R.key t.current))]
      exact (List.sublist_append_left _ _).append (List.Sublist.refl _)
    · exact List.Sublist.refl _
  · rcases (mem_with_new_marks k id).1 hid with hid | ⟨rfl, h1, h2⟩
    · exact absurd hid hnot
    · exact ⟨rfl, (with_new_marks_new hpost rfl h1 h2).2⟩

end Order

/-! ## Marks stay in execution order -/

/-- Along every run of `mark()`, `add_explicit_checkpoint`, `seek_up_to_mark`,
`seek_to_mark` and forward replay steps from a new timeline: (a)
`current_at_or_after_mark` is a listed mark at or before the current position;
(b) each vector of marks is in strictly increasing execution position, no two of
its marks with equal states; `Ord for Mark` is execution order; and (c)
`mark()` returns, with the existing mark of the current state where there is
one, and otherwise with a new mark there, inserted with the marks its loop made
at their execution positions. -/
theorem marks_stay_in_execution_order {R : Replay K Reg S} (hR : R.Lawful) {t : MarkTimeline K}
    (ht : Reachable R t) :
    (∀ id, t.current_at_or_after_mark = some id →
      id ∈ t.marks (R.key (t.get id).pos) ∧ (t.get id).pos ≤ t.current) ∧
    (∀ k, (t.marks k).Pairwise fun a b =>
      (t.get a).pos < (t.get b).pos ∧ t.equal_states R a (t.get b).pos = false) ∧
    (∀ a b, a < t.internal_marks.length → b < t.internal_marks.length →
      t.mark_cmp R a b = some (compare (t.get a).pos (t.get b).pos)) ∧
    (∃ fuel, (t.mark R fuel).isSome) ∧
    ∀ fuel t' m, t.mark R fuel = some (t', m) →
      (∀ m₀, t.current_mark R = some m₀ → t' = t ∧ m = m₀) ∧
      (t.current_mark R = none →
        (t'.get m).pos = t.current ∧ t'.current_mark R = some m ∧
        (∀ id < t.internal_marks.length, t'.get id = t.get id) ∧
        (∀ k, (t.marks k).Sublist (t'.marks k)) ∧
        (∀ k id, id ∈ t'.marks k → id ∉ t.marks k → k = R.key t.current ∧ t.current ≤ (t'.get id).pos) ∧
        ∀ k, (t'.marks k).Pairwise fun a b => (t'.get a).pos < (t'.get b).pos) := by
  have hI := ht.inv hR
  refine ⟨fun id h => ?_, fun k => ?_, fun a b ha hb => mark_cmp_eq hR hI ha hb, mark_isSome hR t,
    fun fuel t' m h => ⟨fun m₀ hc => ?_, fun hnone => ?_⟩⟩
  · have hcur := hI.current_at_or_after id h
    exact ⟨hI.listed id hcur.1, hcur.2⟩
  · exact (hI.sorted k).and (hI.no_equal_states hR k)
  · rcases mark_cases hR hI h with ⟨hc', rfl⟩ | ⟨hc', -⟩
    · rw [hc] at hc'
      exact ⟨rfl, (Option.some.inj hc').symm⟩
    · rw [hc] at hc'
      exact absurd hc' (by simp)
  · obtain ⟨hpos, hcur, hold, hsub, hnew⟩ := mark_inserts hR hI hnone h
    exact ⟨hpos, hcur, hold, hsub, hnew, (hI.mark hR h).sorted⟩

/-- A replay of four positions to a key, each its own state, whose fast-forward
and steps to a mark go one position at a time. -/
def stepwise_replay : Replay Nat Nat Nat :=
  ⟨fun p => p / 4, fun p => p, fun p => p, fun p _ => p + 1, fun p _ => p + 1⟩

theorem stepwise_replay_lawful : stepwise_replay.Lawful where
  key_mono _ _ h := Nat.div_le_div_right h
  key_ends p := ⟨p + 4, by simp only [stepwise_replay]; omega⟩
  distinct _ _ _ h := h
  fast_forward_lt p _ := Nat.lt_succ_self p
  fast_forward_stops _ _ _ h1 h2 _ := absurd h2 (by simp only [stepwise_replay]; omega)
  step_to_mark_lt p _ _ := Nat.lt_succ_self p
  step_to_mark_le _ _ h := h

/-- Marks at positions 0 and 2, a seek back to the first, a step to position
1 and a third mark: its loop meets the mark at 2 and inserts the new one before
it, so key 0 lists the marks at positions 0, 1 and 2, and `mark()` still
returns. -/
theorem marks_ordered_after_mark_between :
    stepwise_replay.Lawful ∧ ∃ t : MarkTimeline Nat, Reachable stepwise_replay t ∧ t.marks 0 = [0, 2, 1] ∧
      (∀ k, (t.marks k).Pairwise fun a b =>
        (t.get a).pos < (t.get b).pos ∧ t.equal_states stepwise_replay a (t.get b).pos = false) ∧
      ∃ fuel, (t.mark stepwise_replay fuel).isSome := by
  obtain ⟨t, hreach, hmarks⟩ : ∃ t : MarkTimeline Nat, Reachable stepwise_replay t ∧ t.marks 0 = [0, 2, 1] :=
    ⟨_, .step 4 .mark
      (.step 4 (.replay_step_forward 1)
        (.step 4 (.seek_to_mark 0)
          (.step 4 .mark
            (.step 4 (.replay_step_forward 2) (.step 4 .mark .init (by rfl)) (by rfl)) (by rfl)) (by rfl))
        (by rfl)) (by rfl), by decide⟩
  have h := marks_stay_in_execution_order stepwise_replay_lawful hreach
  exact ⟨stepwise_replay_lawful, t, hreach, hmarks, h.2.1, h.2.2.2.1⟩

end MarkTimeline

end RdReplay
