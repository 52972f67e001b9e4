/-
  Timeline/Basic.lean --- the breakpoints and watchpoints a `ReplayTimeline`
  keeps, and the keys it keeps them under.

  Source: `replay_timeline.rs`: `TimelineBreakpoint`, `TimelineWatchpoint` and
  the fields `breakpoints`, `watchpoints` and `breakpoints_applied` of
  `ReplayTimeline`; `session/address_space.rs`: `WatchType`, `WatchConfig`;
  `taskish_uid.rs`: `AddressSpaceUid`.

  THE MAPS.  `breakpoints` and `watchpoints` are `BTreeMap`s from a key to the
  condition of a breakpoint, if it has one.  Every key type derives `Ord`, which
  compares field by field, so the maps are `CmpList`s under `compare` of the
  linear orders below.  `RemoteCodePtr` and `RemotePtr` are addresses.
-/
import RdReplay.Lib.CmpListOrder
import RdReplay.Gdb.Expression

set_option autoImplicit false

namespace RdReplay

/-- `AddressSpaceUid`: the `TaskishUid` (tid and serial) of the task that made
the address space, and how many `execve`s it had seen. -/
structure AddressSpaceUid where
  tid : Int
  serial : Nat
  exec_count : Nat
  deriving DecidableEq, Repr

/-- The order `AddressSpaceUid` derives: by tid, serial, then exec count. -/
instance : LinearOrder AddressSpaceUid :=
  LinearOrder.lift' (fun u => toLex (u.tid, toLex (u.serial, u.exec_count))) (by
    intro a b h
    cases a
    cases b
    simp_all)

/-- `WatchType`, with the discriminants the x86 debug registers use. -/
inductive WatchType where
  | WatchExec
  | WatchWrite
  | WatchReadWrite
  deriving DecidableEq, Repr

/-- The `#[repr(usize)]` discriminant. -/
def WatchType.discriminant : WatchType → Nat
  | .WatchExec => 0x00
  | .WatchWrite => 0x01
  | .WatchReadWrite => 0x03

/-- The order `WatchType` derives: by discriminant. -/
instance : LinearOrder WatchType :=
  LinearOrder.lift' WatchType.discriminant (by
    intro a b h
    cases a <;> cases b <;> simp_all [WatchType.discriminant])

/-- `WatchConfig`: a watched range and the accesses watched. -/
structure WatchConfig where
  addr : Nat
  num_bytes : Nat
  type_ : WatchType
  deriving DecidableEq, Repr

/-- `TimelineBreakpoint`. -/
structure TimelineBreakpoint where
  uid : AddressSpaceUid
  addr : Nat
  deriving DecidableEq, Repr

instance : LinearOrder TimelineBreakpoint :=
  LinearOrder.lift' (fun b => toLex (b.uid, b.addr)) (by
    intro a b h
    cases a
    cases b
    simp_all)

/-- `TimelineWatchpoint`. -/
structure TimelineWatchpoint where
  uid : AddressSpaceUid
  addr : Nat
  size : Nat
  watch_type : WatchType
  deriving DecidableEq, Repr

instance : LinearOrder TimelineWatchpoint :=
  LinearOrder.lift' (fun w => toLex (w.uid, toLex (w.addr, toLex (w.size, w.watch_type)))) (by
    intro a b h
    cases a
    cases b
    simp_all)

open Gdb in
/-- The breakpoints and watchpoints of a `ReplayTimeline`, with their
conditions, and whether they are applied to the current session. -/
structure ReplayTimeline where
  breakpoints : List (TimelineBreakpoint × Option GdbBreakpointCondition)
  watchpoints : List (TimelineWatchpoint × Option GdbBreakpointCondition)
  breakpoints_applied : Bool

end RdReplay
