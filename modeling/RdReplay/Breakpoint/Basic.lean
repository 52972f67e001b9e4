/-
  Breakpoint/Basic.lean --- the software breakpoints of an address space, and
  the tracee memory they are written into.

  Source: `session/address_space.rs`: `Breakpoint` (`do_ref`, `do_unref`,
  `counter`, `data_length`), `AddressSpace::add_breakpoint`,
  `remove_breakpoint`, `remove_all_breakpoints`, `destroy_breakpoint_at`,
  `suspend_breakpoint_at`, `restore_breakpoint_at`, `maybe_update_breakpoints`
  and `replace_breakpoints_with_original_values`.

  THE TRACEE.  Its memory is a byte at every address, and a set of mapped
  addresses that none of these functions changes.  A read or a write of an
  unmapped byte fails; `add_breakpoint` then returns `false`, and everywhere
  else the failure is fatal (`none`).  The functions write through the first
  task of the address space, which is assumed to exist.

  THE COUNTERS are `u32`.  `+=`, `-=` and `+` wrap in a release build, written
  here as `% 2 ^ 32`.  Addresses are words, and `addr + len` wraps likewise.
-/
import RdReplay.Lib.CmpListOrder
import RdReplay.Util

set_option autoImplicit false

namespace RdReplay

/-- `AddressSpace::BREAKPOINT_INSN`, `int3`. -/
def BREAKPOINT_INSN : UInt8 := 0xCC

/-- `BreakpointType`. -/
inductive BreakpointType where
  | BkptNone
  | BkptInternal
  | BkptUser
  deriving DecidableEq, Repr

/-- `Breakpoint`: the reference counts of one address, and the byte the
breakpoint instruction replaced. -/
structure Breakpoint where
  internal_count : Nat
  user_count : Nat
  overwritten_data : UInt8
  deriving DecidableEq, Repr

namespace Breakpoint

/-- `Breakpoint::new`. -/
def new (overwritten_data : UInt8) : Breakpoint :=
  { internal_count := 0, user_count := 0, overwritten_data }

/-- `counter`: a user reference counts as user, any other as internal. -/
def counter (bp : Breakpoint) (which : BreakpointType) : Nat :=
  if which = .BkptUser then bp.user_count else bp.internal_count

/-- Store a new value in `counter which`. -/
def set_counter (bp : Breakpoint) (which : BreakpointType) (n : Nat) : Breakpoint :=
  if which = .BkptUser then { bp with user_count := n } else { bp with internal_count := n }

/-- `do_ref`: `*v += 1`. -/
def do_ref (bp : Breakpoint) (which : BreakpointType) : Breakpoint :=
  bp.set_counter which ((bp.counter which + 1) % 2 ^ 32)

/-- `do_unref`: `*v -= 1`, returning the breakpoint and the sum of its counts. -/
def do_unref (bp : Breakpoint) (which : BreakpointType) : Breakpoint × Nat :=
  let bp := bp.set_counter which ((bp.counter which + (2 ^ 32 - 1)) % 2 ^ 32)
  (bp, (bp.internal_count + bp.user_count) % 2 ^ 32)

/-- `data_length`: one byte, `int3`. -/
def data_length (_bp : Breakpoint) : Nat := 1

@[simp] theorem set_counter_overwritten_data (bp : Breakpoint) (which : BreakpointType) (n : Nat) :
    (bp.set_counter which n).overwritten_data = bp.overwritten_data := by
  unfold set_counter; split <;> rfl

end Breakpoint

/-- The tracee memory rd reads and writes the breakpoints through. -/
structure TraceeMemory where
  mapped : Nat → Bool
  bytes : Nat → UInt8

namespace TraceeMemory

/-- A one-byte `read_bytes_fallible`, or `read_val_mem` with an `ok` flag. -/
def read_byte (m : TraceeMemory) (addr : Nat) : Option UInt8 :=
  if m.mapped addr then some (m.bytes addr) else none

/-- `write_val_mem` of one byte; a failed write is fatal. -/
def write_byte (m : TraceeMemory) (addr : Nat) (b : UInt8) : Option TraceeMemory :=
  if m.mapped addr then some { m with bytes := Function.update m.bytes addr b } else none

/-- Read `len` bytes from `addr`; fails if one of them is not mapped. -/
def read_bytes (m : TraceeMemory) (addr : Nat) : Nat → Option (List UInt8)
  | 0 => some []
  | len + 1 =>
    match m.read_byte addr with
    | none => none
    | some b => (m.read_bytes (addr + 1) len).map (b :: ·)

@[simp] theorem read_byte_of_mapped {m : TraceeMemory} {addr : Nat} (h : m.mapped addr = true) :
    m.read_byte addr = some (m.bytes addr) := by
  simp [read_byte, h]

theorem write_byte_of_mapped {m : TraceeMemory} {addr : Nat} (b : UInt8) (h : m.mapped addr = true) :
    m.write_byte addr b = some { m with bytes := Function.update m.bytes addr b } := by
  simp [write_byte, h]

end TraceeMemory

/-- Overwrite `data.length` bytes from `addr` with `data`: what the kernel or
rd writes into the tracee. -/
def write_bytes (bytes : Nat → UInt8) (addr : Nat) (data : List UInt8) : Nat → UInt8 :=
  fun a => if addr ≤ a ∧ a < addr + data.length then data.getD (a - addr) 0 else bytes a

/-- The breakpoint part of an `AddressSpace`, with the memory of its task.
`breakpoints` is a `BTreeMap<RemoteCodePtr, Breakpoint>`, as its entries in
key order. -/
structure BreakpointState where
  breakpoints : List (Nat × Breakpoint)
  mem : TraceeMemory

namespace BreakpointState

/-- The breakpoint at `addr`, if any. -/
def get (s : BreakpointState) (addr : Nat) : Option Breakpoint :=
  CmpList.get compare addr s.breakpoints

/-- `add_breakpoint`: add a reference, or save the byte at `addr` and write
`int3` over it; `false` when that byte cannot be read. -/
def add_breakpoint (s : BreakpointState) (addr : Nat) (type_ : BreakpointType) :
    Option (Bool × BreakpointState) :=
  match s.get addr with
  | some bp =>
    some (true, { s with breakpoints := CmpList.insert compare addr (bp.do_ref type_) s.breakpoints })
  | none =>
    match s.mem.read_byte addr with
    | none => some (false, s)
    | some overwritten_data =>
      match s.mem.write_byte addr BREAKPOINT_INSN with
      | none => none
      | some mem =>
        let bp := (Breakpoint.new overwritten_data).do_ref type_
        some (true, { breakpoints := CmpList.insert compare addr bp s.breakpoints, mem })

/-- `destroy_breakpoint_at`: write the saved byte back and drop the entry. -/
def destroy_breakpoint_at (s : BreakpointState) (addr : Nat) : Option BreakpointState :=
  match s.get addr with
  | none => none
  | some bp =>
    match s.mem.write_byte addr bp.overwritten_data with
    | none => none
    | some mem => some { breakpoints := CmpList.remove compare addr s.breakpoints, mem }

/-- `remove_breakpoint`: drop a reference, and the breakpoint with the last. -/
def remove_breakpoint (s : BreakpointState) (addr : Nat) (type_ : BreakpointType) :
    Option BreakpointState :=
  match s.get addr with
  | none => some s
  | some bp =>
    let (bp, count) := bp.do_unref type_
    let s := { s with breakpoints := CmpList.insert compare addr bp s.breakpoints }
    if count = 0 then s.destroy_breakpoint_at addr else some s

/-- `remove_all_breakpoints`: destroy every breakpoint, whatever its counts. -/
def remove_all_breakpoints (s : BreakpointState) : Option BreakpointState :=
  (s.breakpoints.map Prod.fst).foldlM destroy_breakpoint_at s

/-- `suspend_breakpoint_at`: put the saved byte back for a moment. -/
def suspend_breakpoint_at (s : BreakpointState) (addr : Nat) : Option BreakpointState :=
  match s.get addr with
  | none => some s
  | some bp => (s.mem.write_byte addr bp.overwritten_data).map fun mem => { s with mem }

/-- `restore_breakpoint_at`: write `int3` again. -/
def restore_breakpoint_at (s : BreakpointState) (addr : Nat) : Option BreakpointState :=
  match s.get addr with
  | none => some s
  | some _ => (s.mem.write_byte addr BREAKPOINT_INSN).map fun mem => { s with mem }

/-- One turn of `maybe_update_breakpoints`: a breakpoint in `[addr, addr + len)`
saves the byte now there and writes `int3` over it again. -/
def update_breakpoint (addr len : Nat) (s : BreakpointState) (entry : Nat × Breakpoint) :
    Option BreakpointState :=
  let (bp_addr, bp) := entry
  if addr ≤ bp_addr ∧ bp_addr < wrapping_add addr len then
    match s.mem.read_byte bp_addr with
    | none => none
    | some overwritten_data =>
      match s.mem.write_byte bp_addr BREAKPOINT_INSN with
      | none => none
      | some mem =>
        some { breakpoints := CmpList.insert compare bp_addr { bp with overwritten_data } s.breakpoints,
               mem }
  else some s

/-- `maybe_update_breakpoints`: after `[addr, addr + len)` was overwritten. -/
def maybe_update_breakpoints (s : BreakpointState) (addr len : Nat) : Option BreakpointState :=
  s.breakpoints.foldlM (update_breakpoint addr len) s

/-- One turn of `replace_breakpoints_with_original_values`. -/
def replace_original_value (addr len : Nat) (dest : List UInt8) (entry : Nat × Breakpoint) :
    Option (List UInt8) :=
  let (bkpt_location, bp) := entry
  let start := max addr bkpt_location
  let end_ := min (wrapping_add addr len) (wrapping_add bkpt_location bp.data_length)
  if start < end_ then
    -- `*dest.get_mut(start - addr).unwrap() = v.overwritten_data`
    if start - addr < dest.length then some (dest.set (start - addr) bp.overwritten_data)
    else none
  else some dest

/-- `replace_breakpoints_with_original_values`: in `dest`, read from `addr`, put
back the bytes the breakpoints replaced. -/
def replace_breakpoints_with_original_values (s : BreakpointState) (dest : List UInt8)
    (addr : Nat) : Option (List UInt8) :=
  s.breakpoints.foldlM (replace_original_value addr dest.length) dest

variable {bps : List (Nat × Breakpoint)} {mem : TraceeMemory} {a b : Nat}

@[simp] theorem get_mk : (BreakpointState.mk bps mem).get b = CmpList.get compare b bps := rfl

theorem get_insert (hs : CmpList.Sorted bps) (v : Breakpoint) :
    CmpList.get compare b (CmpList.insert compare a v bps) =
      if b = a then some v else CmpList.get compare b bps := by
  split_ifs with hb
  · rw [hb]; exact CmpList.get_insert_self hs
  · exact CmpList.get_insert_of_ne hs hb

theorem get_remove (hs : CmpList.Sorted bps) :
    CmpList.get compare b (CmpList.remove compare a bps) =
      if b = a then none else CmpList.get compare b bps := by
  split_ifs with hb
  · rw [hb]; exact CmpList.get_remove_self hs
  · exact CmpList.get_remove_of_ne hs hb

/-- The initial state: no breakpoint, over the tracee memory `mem`. -/
def init (mem : TraceeMemory) : BreakpointState := { breakpoints := [], mem }

end BreakpointState

/-! ## The state machine -/

/-- One call into the breakpoint state, with the arguments of the source
function.  `suspend_restore` is a `suspend_breakpoint_at` followed by its
`restore_breakpoint_at`; `write` is a write into the tracee by the kernel or by
rd, followed by the `maybe_update_breakpoints` over what it wrote. -/
inductive BreakpointOp where
  | add_breakpoint (addr : UInt64) (type_ : BreakpointType)
  | remove_breakpoint (addr : UInt64) (type_ : BreakpointType)
  | remove_all_breakpoints
  | suspend_restore (addr : UInt64)
  | write (addr : UInt64) (data : List UInt8)
  deriving Repr

namespace BreakpointState

/-- Run one operation. -/
def step (s : BreakpointState) : BreakpointOp → Option BreakpointState
  | .add_breakpoint addr type_ => (s.add_breakpoint addr.toNat type_).map Prod.snd
  | .remove_breakpoint addr type_ => s.remove_breakpoint addr.toNat type_
  | .remove_all_breakpoints => s.remove_all_breakpoints
  | .suspend_restore addr =>
    (s.suspend_breakpoint_at addr.toNat).bind (·.restore_breakpoint_at addr.toNat)
  | .write addr data =>
    ({ s with mem := { s.mem with bytes := write_bytes s.mem.bytes addr.toNat data } } :
      BreakpointState).maybe_update_breakpoints addr.toNat data.length

/-- Run a sequence of operations; `none` once one of them fails. -/
def run (s : BreakpointState) : List BreakpointOp → Option BreakpointState
  | [] => some s
  | op :: ops =>
    match s.step op with
    | none => none
    | some s' => s'.run ops

end BreakpointState

end RdReplay
