/-
  AddressSpace/Ops.lean --- the operations that change the memory map, and the
  address space as a state machine over them.

  Source: `session/address_space.rs`: `AddressSpace::map`, `unmap`,
  `unmap_internal`, `protect`, `remap`, `brk` and
  `ensure_replay_matches_single_recorded_mapping`.

  WHAT IS LEFT OUT.  `unmap_internal` also `munmap`s rd's local copy of a shared
  mapping, and `ensure_replay_matches_single_recorded_mapping` copies the bytes of
  a file-backed piece into a fresh anonymous mapping of the tracee.  Neither
  changes the memory map.  Watchpoint values, which `unmap_internal` and
  `map_and_coalesce` refresh, belong to the watchpoint state.

  THE STATE MACHINE.  `Op` lists the six operations with their arguments, words
  as `UInt64` as in the source; `step` runs one and `run` a sequence.  A `none`
  is a panic or a fatal assertion: the run stops there.
-/
import RdReplay.AddressSpace.Basic

set_option autoImplicit false

namespace RdReplay

namespace AddressSpace

/-! ## The callbacks -/

/-- The `unmapper` closure of `unmap_internal`: erase `m`, and put back the parts
of it below and above `rem`. -/
def unmapper : RangeCallback Unit := fun m_key rem st =>
  match CmpList.get MemoryRangeKey.cmp m_key st.1.mem with
  | none => none
  | some m =>
    let s := st.1.remove_from_map m.map.mr
    -- If the first segment we unmap underflows the unmap region, remap the
    -- underflow region.
    let s :=
      if m.map.mr.start_ < rem.start_ then
        s.add_to_map
          ((Mapping.new (m.map.subrange m.map.mr.start_ rem.start_)
              (m.recorded_map.subrange m.map.mr.start_ rem.start_) m.emu_file m.mapped_file_stat
              m.local_addr m.monitored_shared_memory).with_flags m.flags)
      else s
    -- If the last segment we unmap overflows the unmap region, remap the
    -- overflow region.  `MonitoredSharedMemory::subrange` panics.
    if rem.end_ < m.map.mr.end_ then
      if m.monitored_shared_memory.isSome then none
      else
        let new_local := m.local_addr.map (fun a => wrapping_add a (wrapping_sub rem.end_ m.map.mr.start_))
        some (s.add_to_map
          ((Mapping.new (m.map.subrange rem.end_ m.map.mr.end_)
              (m.recorded_map.subrange rem.end_ m.map.mr.end_) m.emu_file m.mapped_file_stat
              new_local none).with_flags m.flags), ())
    else some (s, ())

/-- The `protector` closure of `protect`, which also records the last
overlapping piece in `last_overlap`. -/
def protector (prot : Nat) : RangeCallback (Option MemoryRange) := fun m_key rem st =>
  match CmpList.get MemoryRangeKey.cmp m_key st.1.mem with
  | none => none
  | some m =>
    let s := st.1.remove_from_map m.map.mr
    -- PROT_GROWSDOWN extends the change down to the start of a grows-down segment.
    let new_start :=
      if m.map.mr.start_ < rem.start_ ∧ flags_contains prot PROT_GROWSDOWN then m.map.mr.start_
      else rem.start_
    let s :=
      if m.map.mr.start_ < new_start then
        s.add_to_map
          ((Mapping.new (m.map.subrange m.map.mr.start_ rem.start_)
              (m.recorded_map.subrange m.recorded_map.mr.start_ rem.start_) m.emu_file
              m.mapped_file_stat m.local_addr m.monitored_shared_memory).with_flags m.flags)
      else s
    let new_end := min rem.end_ m.map.mr.end_
    let new_prot := prot &&& (PROT_READ ||| PROT_WRITE ||| PROT_EXEC)
    let new_local_addr :=
      m.local_addr.map (fun a => wrapping_add a (wrapping_sub new_start m.map.mr.start_))
    if m.monitored_shared_memory.isSome then none
    else
      let overlap : Mapping :=
        (Mapping.new ((m.map.subrange new_start new_end).set_prot new_prot)
            ((m.recorded_map.subrange new_start new_end).set_prot new_prot) m.emu_file
            m.mapped_file_stat new_local_addr none).with_flags m.flags
      let s := s.add_to_map overlap
      if rem.end_ < m.map.mr.end_ then
        let new_local :=
          m.local_addr.map (fun a => wrapping_add a (wrapping_sub rem.end_ m.map.mr.start_))
        some (s.add_to_map
          ((Mapping.new (m.map.subrange rem.end_ m.map.mr.end_)
              (m.recorded_map.subrange rem.end_ m.map.mr.end_) m.emu_file m.mapped_file_stat
              new_local none).with_flags m.flags), some overlap.map.mr)
      else some (s, some overlap.map.mr)

/-- The `fixer` closure of `ensure_replay_matches_single_recorded_mapping`: turn a
private file-backed piece into an anonymous mapping of the same range.  Its
`range` parameter is the region remaining, which shadows the outer `range`. -/
def fixer : RangeCallback Unit := fun m_key range st =>
  match CmpList.get MemoryRangeKey.cmp m_key st.1.mem with
  | none => none
  | some mapping =>
    if mapping.map.mr = range then some st
    else if !(mapping.mapped_file_stat.isNone && mapping.local_addr.isNone &&
        flags_contains mapping.map.flags_ MAP_PRIVATE && mapping.emu_file.isNone &&
        mapping.monitored_shared_memory.isNone && mapping.flags == 0) then none
    else if !flags_contains mapping.map.flags_ MAP_ANONYMOUS then
      let mem := CmpList.remove MemoryRangeKey.cmp mapping.map.mr st.1.mem
      let anonymous_km := KernelMapping.new_with_opts mapping.map.mr.start_ mapping.map.mr.end_ ""
        KernelMapping.NO_DEVICE KernelMapping.NO_INODE mapping.map.prot_
        (mapping.map.flags_ ||| MAP_ANONYMOUS) 0
      let new_mapping := Mapping.new anonymous_km mapping.recorded_map none none none none
      some ({ st.1 with
        mem := CmpList.insert MemoryRangeKey.cmp
          (MemoryRange.from_range mapping.map.mr.start_ mapping.map.mr.end_) new_mapping mem }, ())
    else some st

/-! ## The operations -/

/-- `unmap_internal`. -/
def unmap_internal (s : AddressSpace) (addr num_bytes : Nat) : Option AddressSpace :=
  (for_each_in_range addr num_bytes unmapper .IterateDefault (s, ())).map Prod.fst

/-- `AddressSpace::map`: returns the new kernel mapping as well. -/
def map (s : AddressSpace) (addr num_bytes prot flags offset_bytes : Nat) (fsname : String)
    (device inode : Nat) (mapped_file_stat : Option Nat) (record_map : Option KernelMapping)
    (emu_file local_addr monitored : Option Nat) : Option (AddressSpace × KernelMapping) :=
  let num_bytes := ceil_page_size num_bytes
  let m := KernelMapping.new_with_opts addr (wrapping_add addr num_bytes) fsname device inode prot
    (flags &&& KernelMapping.MAP_FLAGS_MASK) offset_bytes
  let s := { s with dont_fork := remove_range s.dont_fork (MemoryRange.new_range addr num_bytes) }
  -- An existing mapping "overwritten" by the new one behaves as if unmapped first.
  match s.unmap_internal addr num_bytes with
  | none => none
  | some s =>
    let actual_recorded_map := record_map.getD m
    let s := if actual_recorded_map.is_vdso then { s with vdso_start_addr := addr } else s
    (s.map_and_coalesce m actual_recorded_map emu_file mapped_file_stat local_addr
      monitored).map (fun s => (s, m))

/-- `AddressSpace::unmap`. -/
def unmap (s : AddressSpace) (addr num_bytes : Nat) : Option AddressSpace :=
  let num_bytes := ceil_page_size num_bytes
  if num_bytes = 0 then some s
  else
    let s := { s with dont_fork := remove_range s.dont_fork (MemoryRange.new_range addr num_bytes) }
    s.unmap_internal addr num_bytes

/-- `AddressSpace::protect`: change the protection of the contiguous run of
mapped pages from `addr`, then coalesce around the last piece changed. -/
def protect (s : AddressSpace) (addr num_bytes prot : Nat) : Option AddressSpace :=
  match for_each_in_range addr num_bytes (protector prot) .IterateContiguous (s, none) with
  | none => none
  | some (s, none) => some s
  | some (s, some last_overlap_key) => s.coalesce_around last_overlap_key

/-- The `DONTFORK` bookkeeping of `remap`: mremap fails if some but not all pages
are marked, so the mark moves with the mapping or is dropped from both ranges. -/
def remap_dont_fork (ranges : List (MemoryRange × Unit)) (old_addr old_num_bytes new_addr
    new_num_bytes : Nat) : List (MemoryRange × Unit) :=
  let old_range := MemoryRange.new_range old_addr old_num_bytes
  match CmpList.lowerBound MemoryRange.cmp_lex old_range ranges with
  | (next, ()) :: _ =>
    if next.start_ < wrapping_add old_addr old_num_bytes then
      add_range (remove_range ranges old_range) (MemoryRange.new_range new_addr new_num_bytes)
    else remove_range (remove_range ranges old_range) (MemoryRange.new_range new_addr new_num_bytes)
  | [] => remove_range (remove_range ranges old_range) (MemoryRange.new_range new_addr new_num_bytes)

/-- `AddressSpace::remap`: move the mapping containing `old_addr` to `new_addr`. -/
def remap (s : AddressSpace) (old_addr old_num_bytes new_addr new_num_bytes : Nat) :
    Option AddressSpace :=
  let old_num_bytes := ceil_page_size old_num_bytes
  match s.mapping_of old_addr with
  | none => none
  | some m =>
    let km := m.map.subrange old_addr (min m.map.mr.end_ (wrapping_add old_addr old_num_bytes))
    match s.unmap_internal old_addr old_num_bytes with
    | none => none
    | some s =>
      let new_num_bytes := ceil_page_size new_num_bytes
      let s := { s with
        dont_fork := remap_dont_fork s.dont_fork old_addr old_num_bytes new_addr new_num_bytes }
      match s.unmap_internal new_addr new_num_bytes with
      | none => none
      | some s =>
        let new_end := wrapping_add new_addr new_num_bytes
        s.map_and_coalesce (km.set_range new_addr new_end)
          (m.recorded_map.set_range new_addr new_end) m.emu_file m.mapped_file_stat none none

/-- `AddressSpace::brk`: move the program break, mapping or unmapping the pages
between the old and the new break. -/
def brk (s : AddressSpace) (addr prot : Nat) : Option AddressSpace :=
  let old_brk := ceil_page_size s.brk_end
  let new_brk := ceil_page_size addr
  let s' :=
    if old_brk < new_brk then
      (s.map old_brk (wrapping_sub new_brk old_brk) prot (MAP_ANONYMOUS ||| MAP_PRIVATE) 0
        "[heap]" KernelMapping.NO_DEVICE KernelMapping.NO_INODE none none none none none).map
        Prod.fst
    else s.unmap new_brk (wrapping_sub old_brk new_brk)
  s'.map (fun s => { s with brk_end := addr })

/-- `ensure_replay_matches_single_recorded_mapping`, with `descent` the choice of
`descent_key` for the final `coalesce_around`. -/
def ensure_replay_matches_single_recorded_mapping (s : AddressSpace) (range : MemoryRange)
    (descent : Nat) : Option AddressSpace :=
  if range.start_ ≠ floor_page_size range.start_ ∨ range.end_ ≠ ceil_page_size range.end_ then none
  else
    match for_each_in_range range.start_ range.size fixer .IterateDefault (s, ()) with
    | none => none
    | some (s, ()) => s.coalesce_around (descent_key range descent s.mem)

end AddressSpace

/-! ## The state machine -/

/-- One call into the memory map, with the arguments of the source function. -/
inductive Op where
  | map (addr num_bytes : UInt64) (prot flags : Nat) (offset_bytes : UInt64) (fsname : String)
      (device inode : Nat) (mapped_file_stat : Option Nat) (record_map : Option KernelMapping)
      (emu_file local_addr monitored : Option Nat)
  | unmap (addr num_bytes : UInt64)
  | protect (addr num_bytes : UInt64) (prot : Nat)
  | remap (old_addr old_num_bytes new_addr new_num_bytes : UInt64)
  | brk (addr : UInt64) (prot : Nat)
  | ensure_replay_matches_single_recorded_mapping (start end_ : UInt64) (descent : Nat)
  deriving Repr

namespace AddressSpace

/-- Run one operation. -/
def step (s : AddressSpace) : Op → Option AddressSpace
  | .map addr num_bytes prot flags offset_bytes fsname device inode mapped_file_stat record_map
      emu_file local_addr monitored =>
    (s.map addr.toNat num_bytes.toNat prot flags offset_bytes.toNat fsname device inode
      mapped_file_stat record_map emu_file local_addr monitored).map Prod.fst
  | .unmap addr num_bytes => s.unmap addr.toNat num_bytes.toNat
  | .protect addr num_bytes prot => s.protect addr.toNat num_bytes.toNat prot
  | .remap old_addr old_num_bytes new_addr new_num_bytes =>
    s.remap old_addr.toNat old_num_bytes.toNat new_addr.toNat new_num_bytes.toNat
  | .brk addr prot => s.brk addr.toNat prot
  | .ensure_replay_matches_single_recorded_mapping start end_ descent =>
    s.ensure_replay_matches_single_recorded_mapping
      (MemoryRange.from_range start.toNat end_.toNat) descent

/-- Run a sequence of operations; `none` once one of them panics. -/
def run (s : AddressSpace) : List Op → Option AddressSpace
  | [] => some s
  | op :: ops =>
    match s.step op with
    | none => none
    | some s' => s'.run ops

end AddressSpace

end RdReplay
