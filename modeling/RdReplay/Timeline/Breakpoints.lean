/-
  Timeline/Breakpoints.lean --- the timeline's breakpoints and watchpoints put
  into the address spaces of the current session, and taken out again.

  Source: `replay_timeline.rs`: `apply_breakpoints_and_watchpoints`,
  `unapply_breakpoints_and_watchpoints`, `apply_breakpoints_internal`,
  `unapply_breakpoints_internal`, `singlestep_with_breakpoints_disabled`;
  `session/address_space.rs`: `Watchpoint` (`new`, `watch`, `unwatch`),
  `access_bits_of`, `range_for_watchpoint`, `AddressSpace::add_watchpoint` and
  `remove_watchpoint`.

  THE ADDRESS SPACES.  Each has its breakpoint map (`BreakpointState`) and its
  watchpoint map, a `BTreeMap<MemoryRange, Watchpoint>` in which each watched
  range counts the exec, read and write references to it, as `u32`s that wrap
  in a release build.  The watched values and the debug registers
  (`update_watchpoint_value`, `allocate_watchpoints`) are left out: they change
  neither the keys nor the counts.  The session finds an address space by its
  uid (`with_vm`), and the single step of `singlestep_with_breakpoints_disabled`
  is taken to leave the maps alone.

  THE LOOPS.  Every loop over the watchpoints treats the exec ones or the
  others (`watch_loop`).  `apply_breakpoints_internal` adds each breakpoint and
  then each exec watchpoint once; `unapply_breakpoints_internal` runs its exec
  watchpoint loop inside its loop over the breakpoints, so it removes each exec
  watchpoint once per breakpoint: never, when there are none
  (`unapply_after_apply_keeps_exec_watchpoint`).
-/
import RdReplay.AddressSpace.DontFork
import RdReplay.Breakpoint.Basic
import RdReplay.Timeline.Basic

set_option autoImplicit false

namespace RdReplay

/-- `RwxBits`, as the three bits a watchpoint counts. -/
structure RwxBits where
  exec : Bool
  read : Bool
  write : Bool
  deriving DecidableEq, Repr

/-- `AddressSpace::access_bits_of`. -/
def access_bits_of : WatchType → RwxBits
  | .WatchExec => ⟨true, false, false⟩
  | .WatchWrite => ⟨false, false, true⟩
  | .WatchReadWrite => ⟨false, true, true⟩

/-- `Watchpoint`: the references to one watched range, by kind. -/
structure Watchpoint where
  exec_count : Nat
  read_count : Nat
  write_count : Nat
  deriving DecidableEq, Repr

namespace Watchpoint

/-- `Watchpoint::new`. -/
def new : Watchpoint := ⟨0, 0, 0⟩

/-- `+= 1` on a `u32` counter, when its bit is set. -/
def inc (bit : Bool) (n : Nat) : Nat := if bit then (n + 1) % 2 ^ 32 else n

/-- `-= 1` on a `u32` counter, when its bit is set. -/
def dec (bit : Bool) (n : Nat) : Nat := if bit then (n + 2 ^ 32 - 1) % 2 ^ 32 else n

/-- `watch`. -/
def watch (w : Watchpoint) (which : RwxBits) : Watchpoint :=
  ⟨inc which.exec w.exec_count, inc which.read w.read_count, inc which.write w.write_count⟩

/-- `unwatch`: the counts left, and their `u32` sum. -/
def unwatch (w : Watchpoint) (which : RwxBits) : Watchpoint × Nat :=
  let w : Watchpoint := ⟨dec which.exec w.exec_count, dec which.read w.read_count,
    dec which.write w.write_count⟩
  (w, (w.exec_count + w.read_count + w.write_count) % 2 ^ 32)

end Watchpoint

/-- `range_for_watchpoint`: the range, cut at the top of the address space. -/
def range_for_watchpoint (addr num_bytes : Nat) : MemoryRange :=
  MemoryRange.new_range addr (min num_bytes (2 ^ 64 - 1 - addr))

/-- The breakpoints and watchpoints of an `AddressSpace`. -/
structure DebugState where
  breakpoints : BreakpointState
  watchpoints : List (MemoryRange × Watchpoint)

namespace DebugState

/-- `AddressSpace::add_watchpoint`: make the range's entry if it has none, and
count the reference. -/
def add_watchpoint (vm : DebugState) (addr num_bytes : Nat) (type_ : WatchType) : DebugState :=
  let range := range_for_watchpoint addr num_bytes
  let wp := (CmpList.get compare range vm.watchpoints).getD Watchpoint.new
  { vm with watchpoints := CmpList.insert compare range (wp.watch (access_bits_of type_)) vm.watchpoints }

/-- `AddressSpace::remove_watchpoint`: drop the reference, and the entry with
the last one. -/
def remove_watchpoint (vm : DebugState) (addr num_bytes : Nat) (type_ : WatchType) : DebugState :=
  let r := range_for_watchpoint addr num_bytes
  match CmpList.get compare r vm.watchpoints with
  | none => vm
  | some wp =>
    let (wp, total) := wp.unwatch (access_bits_of type_)
    if total = 0 then { vm with watchpoints := CmpList.remove compare r vm.watchpoints }
    else { vm with watchpoints := CmpList.insert compare r wp vm.watchpoints }

/-- `AddressSpace::add_breakpoint`, whose result the timeline's loops ignore. -/
def add_breakpoint (vm : DebugState) (addr : Nat) (type_ : BreakpointType) : Option DebugState :=
  (vm.breakpoints.add_breakpoint addr type_).map fun r => { vm with breakpoints := r.2 }

/-- `AddressSpace::remove_breakpoint`. -/
def remove_breakpoint (vm : DebugState) (addr : Nat) (type_ : BreakpointType) : Option DebugState :=
  (vm.breakpoints.remove_breakpoint addr type_).map fun bps => { vm with breakpoints := bps }

end DebugState

/-- The address spaces of the current session, by uid, in uid order. -/
abbrev Session := List (AddressSpaceUid × DebugState)

/-- `match session.find_address_space(uid) { Some(vm) => f(vm), None => () }`. -/
def with_vm (s : Session) (uid : AddressSpaceUid) (f : DebugState → Option DebugState) :
    Option Session :=
  match CmpList.get compare uid s with
  | none => some s
  | some vm => (f vm).map fun vm => CmpList.insert compare uid vm s

namespace ReplayTimeline

/-- A loop over the timeline's watchpoints that treats the exec ones (`exec`)
or the others with `op`. -/
def watch_loop (tl : ReplayTimeline) (exec : Bool)
    (op : DebugState → Nat → Nat → WatchType → DebugState) (s : Session) : Option Session :=
  tl.watchpoints.foldlM (fun s e =>
    if (e.1.watch_type = .WatchExec) = exec then
      with_vm s e.1.uid fun vm => some (op vm e.1.addr e.1.size e.1.watch_type)
    else some s) s

/-- `apply_breakpoints_internal`. -/
def apply_breakpoints_internal (tl : ReplayTimeline) (s : Session) : Option Session := do
  let s ← tl.breakpoints.foldlM (fun s e =>
    with_vm s e.1.uid fun vm => vm.add_breakpoint e.1.addr .BkptUser) s
  tl.watch_loop true DebugState.add_watchpoint s

/-- `unapply_breakpoints_internal`: the exec watchpoints are removed in every
turn of the loop over the breakpoints. -/
def unapply_breakpoints_internal (tl : ReplayTimeline) (s : Session) : Option Session :=
  tl.breakpoints.foldlM (fun s e => do
    let s ← with_vm s e.1.uid fun vm => vm.remove_breakpoint e.1.addr .BkptUser
    tl.watch_loop true DebugState.remove_watchpoint s) s

/-- `apply_breakpoints_and_watchpoints`. -/
def apply_breakpoints_and_watchpoints (tl : ReplayTimeline) (s : Session) :
    Option (ReplayTimeline × Session) :=
  if tl.breakpoints_applied then some (tl, s)
  else do
    let tl := { tl with breakpoints_applied := true }
    let s ← tl.apply_breakpoints_internal s
    let s ← tl.watch_loop false DebugState.add_watchpoint s
    pure (tl, s)

/-- `unapply_breakpoints_and_watchpoints`. -/
def unapply_breakpoints_and_watchpoints (tl : ReplayTimeline) (s : Session) :
    Option (ReplayTimeline × Session) :=
  if !tl.breakpoints_applied then some (tl, s)
  else do
    let tl := { tl with breakpoints_applied := false }
    let s ← tl.unapply_breakpoints_internal s
    let s ← tl.watch_loop false DebugState.remove_watchpoint s
    pure (tl, s)

/-- `singlestep_with_breakpoints_disabled`, around a step that leaves the maps
as they are. -/
def singlestep_with_breakpoints_disabled (tl : ReplayTimeline) (s : Session) :
    Option (ReplayTimeline × Session) := do
  let (tl, s) ← tl.apply_breakpoints_and_watchpoints s
  let s ← tl.unapply_breakpoints_internal s
  let s ← tl.apply_breakpoints_internal s
  pure (tl, s)

end ReplayTimeline

namespace ReplayTimeline

variable {tl : ReplayTimeline} {s : Session}

/-- With no breakpoints, `unapply_breakpoints_internal` does nothing, so the
exec watchpoints `apply_breakpoints_internal` added stay in place. -/
theorem unapply_breakpoints_internal_of_nil (h : tl.breakpoints = []) :
    tl.unapply_breakpoints_internal s = some s := by
  simp [unapply_breakpoints_internal, h]

/-- With no breakpoints, `apply_breakpoints_internal` adds the exec watchpoints. -/
theorem apply_breakpoints_internal_of_nil (h : tl.breakpoints = []) :
    tl.apply_breakpoints_internal s = tl.watch_loop true DebugState.add_watchpoint s := by
  simp [apply_breakpoints_internal, h]

/-- One exec watchpoint of 8 bytes at `0x1000` and no breakpoint, in a session
whose address space has no watchpoint: after applying and unapplying, the
address space still counts one exec reference to `[0x1000, 0x1008)`. -/
theorem unapply_after_apply_keeps_exec_watchpoint :
    let uid : AddressSpaceUid := ⟨1, 0, 0⟩
    let tl : ReplayTimeline :=
      { breakpoints := [], watchpoints := [(⟨uid, 0x1000, 8, .WatchExec⟩, none)],
        breakpoints_applied := false }
    let s : Session := [(uid, ⟨⟨[], ⟨fun _ => true, fun _ => 0⟩⟩, []⟩)]
    ((tl.apply_breakpoints_and_watchpoints s).bind fun r =>
        r.1.unapply_breakpoints_and_watchpoints r.2).map
      (fun r => (CmpList.get compare uid r.2).map DebugState.watchpoints) =
      some (some [(⟨0x1000, 0x1008⟩, ⟨1, 0, 0⟩)]) := by
  decide

end ReplayTimeline

end RdReplay
