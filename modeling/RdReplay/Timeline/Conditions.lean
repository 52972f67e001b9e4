/-
  Timeline/Conditions.lean --- how a replay stop is filtered by the conditions
  of the breakpoints and watchpoints that caused it.

  Source: `replay_timeline.rs`: `ReplayTimeline::evaluate_conditions`;
  `commands/gdb_server.rs`: `GdbBreakpointCondition::evaluate`; `Vec::remove`.

  WHAT THE FUNCTION DOES.  With the stop's task `t` still alive, a breakpoint
  hit stays only if the timeline has a breakpoint at `t`'s address space and
  ip whose condition is absent or holds.  Each watchpoint hit is looked up the
  same way, and the indices of those that fail are collected in increasing
  order (`to_remove_loop`).  Then each collected index is removed with
  `Vec::remove`, which shifts the entries after it, and panics on an index not
  below the length (`vec_remove`).

  WHAT COMES OF IT.  With at most one failing watchpoint hit, the hits left are
  exactly those whose condition holds (`evaluate_conditions_of_one_rejected`).
  With two, the second index points past the entry meant, and when the failing
  hits are the last ones it points past the end
  (`evaluate_conditions_panics_on_two_rejected_watchpoints`).

  A condition that traps (`Gdb/Expression.lean`) stops rd as the panic does;
  both are `none`.
-/
import RdReplay.Timeline.Basic

set_option autoImplicit false

namespace RdReplay

open Gdb

/-- The task a `BreakStatus` names, as `evaluate_conditions` reads it:
`t.vm().uid()`, `t.ip()`, and the memory and registers its conditions read. -/
structure StopTask where
  uid : AddressSpaceUid
  ip : Nat
  task : ExpressionTask

/-- `BreakStatus`, with the fields `evaluate_conditions` reads or writes;
`task` is `None` when `task.upgrade()` finds the task gone. -/
structure BreakStatus where
  task : Option StopTask
  watchpoints_hit : List WatchConfig
  breakpoint_hit : Bool

/-- `Vec::remove(i)`: the entries after `i` move down one; an index not below
the length panics. -/
def vec_remove {α : Type} (l : List α) (i : Nat) : Option (List α) :=
  if i < l.length then some (l.eraseIdx i) else none

namespace ReplayTimeline

/-- `hit` of one lookup: the key is in the map and its condition is `None` or
evaluates to `true`. -/
def hit (t : StopTask) : Option (Option GdbBreakpointCondition) → Except Trap Bool
  | none => .ok false
  | some none => .ok true
  | some (some c) => c.evaluate t.task

/-- The key a watchpoint hit is looked up under. -/
def watch_key (auid : AddressSpaceUid) (w : WatchConfig) : TimelineWatchpoint :=
  { uid := auid, addr := w.addr, size := w.num_bytes, watch_type := w.type_ }

/-- The watchpoint hit of `watchpoints_hit` at index `i`, tested. -/
def watch_hit (tl : ReplayTimeline) (t : StopTask) (w : WatchConfig) : Except Trap Bool :=
  hit t (CmpList.get compare (watch_key t.uid w) tl.watchpoints)

/-- The loop over `watchpoints_hit.iter().enumerate()` that fills `to_remove`,
from index `i`. -/
def to_remove_loop (tl : ReplayTimeline) (t : StopTask) : Nat → List WatchConfig → Except Trap (List Nat)
  | _, [] => .ok []
  | i, w :: ws => do
    let hit ← tl.watch_hit t w
    let rest ← to_remove_loop tl t (i + 1) ws
    pure (if hit then rest else i :: rest)

/-- `evaluate_conditions`: the stop with the hits whose conditions fail cleared. -/
def evaluate_conditions (tl : ReplayTimeline) (bs : BreakStatus) : Option BreakStatus :=
  match bs.task with
  | none => some bs
  | some t => do
    let breakpoint_hit ←
      if bs.breakpoint_hit then
        (hit t (CmpList.get compare { uid := t.uid, addr := t.ip } tl.breakpoints)).toOption
      else some false
    let to_remove ← (tl.to_remove_loop t 0 bs.watchpoints_hit).toOption
    let watchpoints_hit ← to_remove.foldlM vec_remove bs.watchpoints_hit
    some { bs with breakpoint_hit, watchpoints_hit }

/-! ## What the filter keeps -/

variable {tl : ReplayTimeline} {t : StopTask} {keep : WatchConfig → Bool}

theorem to_remove_loop_of_kept {ws : List WatchConfig} (hkeep : ∀ w ∈ ws, tl.watch_hit t w = .ok true)
    (i : Nat) : tl.to_remove_loop t i ws = .ok [] := by
  induction ws generalizing i with
  | nil => rfl
  | cons w ws ih =>
    simp only [to_remove_loop, hkeep w List.mem_cons_self, ih (fun x hx => hkeep x (List.mem_cons_of_mem _ hx))]
    rfl

/-- The removals that follow a loop over `ws` after `pre`, when at most one hit
of `ws` fails: the one index collected is the failing hit's, and removing it
leaves the hits that hold. -/
theorem remove_rejected {ws : List WatchConfig} (hkeep : ∀ w ∈ ws, tl.watch_hit t w = .ok (keep w))
    (hone : (ws.filter (fun w => !keep w)).length ≤ 1) (pre : List WatchConfig) :
    ∃ R, tl.to_remove_loop t pre.length ws = .ok R ∧
      R.foldlM vec_remove (pre ++ ws) = some (pre ++ ws.filter keep) := by
  induction ws generalizing pre with
  | nil => exact ⟨[], rfl, by simp⟩
  | cons w ws ih =>
    have hw := hkeep w List.mem_cons_self
    have hws : ∀ x ∈ ws, tl.watch_hit t x = .ok (keep x) := fun x hx => hkeep x (List.mem_cons_of_mem _ hx)
    cases hk : keep w with
    | true =>
      -- `w` stays: the loop goes on one index further, past `pre ++ [w]`
      have hone' : (ws.filter (fun w => !keep w)).length ≤ 1 := by
        simpa [List.filter_cons, hk] using hone
      obtain ⟨R, hR, hfold⟩ := ih hws hone' (pre ++ [w])
      refine ⟨R, ?_, ?_⟩
      · simp only [to_remove_loop, hw, hk, List.length_append, List.length_singleton] at hR ⊢
        rw [hR]
        rfl
      · simpa [List.filter_cons, hk] using hfold
    | false =>
      -- `w` is the one failing hit, so every later one holds
      have hall : ∀ x ∈ ws, keep x = true := by
        intro x hx
        by_contra hx'
        have : 2 ≤ ((w :: ws).filter (fun w => !keep w)).length := by
          simp only [List.filter_cons, hk, Bool.not_false, if_true, List.length_cons]
          have : 0 < (ws.filter (fun w => !keep w)).length :=
            List.length_pos_of_mem (List.mem_filter.2 ⟨hx, by simpa using hx'⟩)
          omega
        omega
      have hnil : tl.to_remove_loop t (pre.length + 1) ws = .ok [] :=
        to_remove_loop_of_kept (fun x hx => by rw [hws x hx, hall x hx]) _
      refine ⟨[pre.length], ?_, ?_⟩
      · simp only [to_remove_loop, hw, hk, hnil]
        rfl
      · have hf : ws.filter keep = ws := List.filter_eq_self.2 hall
        simp [vec_remove, List.eraseIdx_append_of_length_le, hk, hf]

/-- With at most one failing watchpoint hit and no condition that traps,
`evaluate_conditions` keeps exactly the hits whose conditions hold, in order,
and the breakpoint hit if its condition holds. -/
theorem evaluate_conditions_of_one_rejected {bs : BreakStatus} (ht : bs.task = some t)
    (hkeep : ∀ w ∈ bs.watchpoints_hit, tl.watch_hit t w = .ok (keep w))
    (hone : (bs.watchpoints_hit.filter (fun w => !keep w)).length ≤ 1) {bp : Bool}
    (hbp : hit t (CmpList.get compare { uid := t.uid, addr := t.ip } tl.breakpoints) = .ok bp) :
    tl.evaluate_conditions bs =
      some { bs with breakpoint_hit := bs.breakpoint_hit && bp,
                     watchpoints_hit := bs.watchpoints_hit.filter keep } := by
  obtain ⟨R, hR, hfold⟩ := remove_rejected hkeep hone []
  simp only [List.length_nil, List.nil_append] at hR hfold
  cases hb : bs.breakpoint_hit <;>
    simp [evaluate_conditions, ht, hb, hbp, hR, hfold, Except.toOption]

/-- A stop that hit a write watchpoint on `0x1000`, whose condition evaluates
to zero, and one on `0x2000` with no condition. -/
theorem evaluate_conditions_drops_failing_hit :
    let uid : AddressSpaceUid := ⟨1, 0, 0⟩
    let t : StopTask := ⟨uid, 0x400000, ⟨⟨fun _ => false, fun _ => 0⟩, fun _ => none⟩⟩
    let tl : ReplayTimeline :=
      { breakpoints := [],
        watchpoints := [(⟨uid, 0x1000, 4, .WatchWrite⟩, some ⟨[GdbExpression.new [0x22, 0x00, 0x27]]⟩),
          (⟨uid, 0x2000, 8, .WatchWrite⟩, none)],
        breakpoints_applied := true }
    let bs : BreakStatus :=
      { task := some t, watchpoints_hit := [⟨0x1000, 4, .WatchWrite⟩, ⟨0x2000, 8, .WatchWrite⟩],
        breakpoint_hit := false }
    let keep : WatchConfig → Bool := fun w => w.addr == 0x2000
    (∀ w ∈ bs.watchpoints_hit, tl.watch_hit t w = .ok (keep w)) ∧
      (bs.watchpoints_hit.filter (fun w => !keep w)).length ≤ 1 ∧
      hit t (CmpList.get compare { uid := t.uid, addr := t.ip } tl.breakpoints) = .ok false ∧
      tl.evaluate_conditions bs =
        some { bs with breakpoint_hit := bs.breakpoint_hit && false,
                       watchpoints_hit := bs.watchpoints_hit.filter keep } := by
  intro uid t tl bs keep
  have hkeep : ∀ w ∈ bs.watchpoints_hit, tl.watch_hit t w = .ok (keep w) := by
    intro w hw
    rcases List.mem_pair.1 hw with rfl | rfl <;> rfl
  have hone : (bs.watchpoints_hit.filter (fun w => !keep w)).length ≤ 1 := by decide
  have hbp : hit t (CmpList.get compare { uid := t.uid, addr := t.ip } tl.breakpoints) = .ok false := rfl
  exact ⟨hkeep, hone, hbp, evaluate_conditions_of_one_rejected rfl hkeep hone hbp⟩

/-- The condition `[OP_const8 0, OP_end]`, which evaluates to zero. -/
def never : GdbBreakpointCondition := ⟨[GdbExpression.new [0x22, 0x00, 0x27]]⟩

/-- Two write watchpoints on `0x1000`, of 4 and 8 bytes, both with a condition
that fails, and a stop that hit both: the first removal shifts the second hit
to index 0, and the removal at index 1 panics. -/
theorem evaluate_conditions_panics_on_two_rejected_watchpoints (task : ExpressionTask) :
    let uid : AddressSpaceUid := ⟨1, 0, 0⟩
    ReplayTimeline.evaluate_conditions
        { breakpoints := [],
          watchpoints := [(⟨uid, 0x1000, 4, .WatchWrite⟩, some never),
            (⟨uid, 0x1000, 8, .WatchWrite⟩, some never)],
          breakpoints_applied := true }
        { task := some ⟨uid, 0x400000, task⟩,
          watchpoints_hit := [⟨0x1000, 4, .WatchWrite⟩, ⟨0x1000, 8, .WatchWrite⟩],
          breakpoint_hit := false } = none := by
  rfl

end ReplayTimeline

end RdReplay
