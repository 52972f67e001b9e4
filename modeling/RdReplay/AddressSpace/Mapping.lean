/-
  AddressSpace/Mapping.lean --- the entries of the memory map, and when two
  neighbouring entries may be merged.

  Source: `session/address_space.rs` (`Mapping`, `MemoryMap`,
  `is_coalescable`, `is_adjacent_mapping`, `normalized_file_names_equal`,
  `strip_deleted`, `assert_coalesceable`).

  OPAQUE RESOURCES.  An entry points at an `EmuFile`, a `stat` snapshot and a
  `MonitoredSharedMemory` that the memory map never looks inside: it only copies
  them, compares the `EmuFile` pointers, and (for the monitored memory) calls
  `subrange`, which panics.  The model keeps each as an identity number.
  `local_addr` is an address in rd's own memory and is kept as a word.

  THE MAP.  `MemoryMap` is a `BTreeMap<MemoryRangeKey, Mapping>`, modelled by
  its list of entries in key order and searched with `MemoryRangeKey.cmp`
  through `CmpList`.
-/
import RdReplay.Lib.CmpList
import RdReplay.AddressSpace.KernelMapping

set_option autoImplicit false

namespace RdReplay

/-- `MappingFlags`: `IS_SYSCALLBUF`, `IS_THREAD_LOCALS`, `IS_PATCH_STUBS`,
`IS_RD_PAGE`, kept as their bit mask. -/
abbrev MappingFlags := Nat

/-- `Mapping`: one entry of the memory map. -/
structure Mapping where
  map : KernelMapping
  /-- The mapping as it was during recording; equal to `map` while recording. -/
  recorded_map : KernelMapping
  emu_file : Option Nat
  mapped_file_stat : Option Nat
  local_addr : Option Nat
  monitored_shared_memory : Option Nat
  flags : MappingFlags
  deriving DecidableEq, Repr, Inhabited

/-- `Mapping::new`: no `MappingFlags`. -/
def Mapping.new (map recorded_map : KernelMapping) (emu_file mapped_file_stat local_addr
    monitored : Option Nat) : Mapping :=
  { map, recorded_map, emu_file, mapped_file_stat, local_addr,
    monitored_shared_memory := monitored, flags := 0 }

/-- `m` with its `MappingFlags` set: the closures' `piece.flags = m.flags` after
`Mapping::new`. -/
def Mapping.with_flags (m : Mapping) (flags : MappingFlags) : Mapping := { m with flags }

/-- A mapping with none of the resources the memory map's assertions are about:
no emulated file, no local copy, no monitored shared memory. -/
def Mapping.Plain (m : Mapping) : Prop :=
  m.emu_file = none ∧ m.local_addr = none ∧ m.monitored_shared_memory = none

instance (m : Mapping) : Decidable m.Plain := inferInstanceAs (Decidable (_ ∧ _))

@[simp] theorem Mapping.new_fields (map recorded_map : KernelMapping)
    (emu_file mapped_file_stat local_addr monitored : Option Nat) :
    (Mapping.new map recorded_map emu_file mapped_file_stat local_addr monitored).map = map ∧
      (Mapping.new map recorded_map emu_file mapped_file_stat local_addr monitored).recorded_map =
        recorded_map ∧
      (Mapping.new map recorded_map emu_file mapped_file_stat local_addr monitored).emu_file =
        emu_file ∧
      (Mapping.new map recorded_map emu_file mapped_file_stat local_addr monitored).local_addr =
        local_addr ∧
      (Mapping.new map recorded_map emu_file mapped_file_stat local_addr
        monitored).monitored_shared_memory = monitored ∧
      (Mapping.new map recorded_map emu_file mapped_file_stat local_addr monitored).flags = 0 :=
  ⟨rfl, rfl, rfl, rfl, rfl, rfl⟩

@[simp] theorem Mapping.with_flags_fields (m : Mapping) (flags : MappingFlags) :
    (m.with_flags flags).map = m.map ∧ (m.with_flags flags).recorded_map = m.recorded_map ∧
      (m.with_flags flags).emu_file = m.emu_file ∧ (m.with_flags flags).local_addr = m.local_addr ∧
      (m.with_flags flags).monitored_shared_memory = m.monitored_shared_memory ∧
      (m.with_flags flags).flags = flags :=
  ⟨rfl, rfl, rfl, rfl, rfl, rfl⟩

/-- `MemoryMap = BTreeMap<MemoryRangeKey, Mapping>`, as its entries in key order. -/
abbrev MemoryMap := List (MemoryRange × Mapping)

/-! ## Adjacency -/

/-- `HandleHeap`. -/
inductive HandleHeap where
  | TreatHeapAsAnonymous
  | RespectHeap
  deriving DecidableEq, Repr

/-- `strip_deleted`: the name up to a ` (deleted)` suffix the kernel may have
added. -/
def strip_deleted (s : String) : String :=
  match find s.toList " (deleted)".toList with
  | some loc => String.ofList (s.toList.take loc)
  | none => s

/-- `normalized_file_names_equal`. -/
def normalized_file_names_equal (km1 km2 : KernelMapping) (handle_heap : HandleHeap) : Bool :=
  if km1.is_stack || km2.is_stack then true
  else if handle_heap == .TreatHeapAsAnonymous && (km1.is_heap || km2.is_heap) then true
  else strip_deleted km1.fsname_ == strip_deleted km2.fsname_

/-- `is_adjacent_mapping`: `mright` starts where `mleft` ends, with the same
metadata, and maps the next bytes of the same real device. -/
def is_adjacent_mapping (mleft mright : KernelMapping) (handle_heap : HandleHeap)
    (maybe_flags_to_check : Option Nat) : Bool :=
  if mleft.mr.end_ != mright.mr.start_ then false
  else
    -- `MapFlags::all()`.  The flags compared are masked with `MAP_FLAGS_MASK`, whose
    -- bits it includes, so every bit of the 32-bit flag word stands for it here.
    let flags_to_check := maybe_flags_to_check.getD (2 ^ 32 - 1)
    if (mleft.flags_ ^^^ mright.flags_) &&& flags_to_check != 0 || mleft.prot_ != mright.prot_ then
      false
    else if !normalized_file_names_equal mleft mright handle_heap then false
    else if mleft.device_ != mright.device_ || mleft.inode_ != mright.inode_ then false
    else if mleft.is_real_device &&
        wrapping_add mleft.offset mleft.size != mright.offset then false
    else true

/-- `is_coalescable`. -/
def is_coalescable (mleft mright : Mapping) : Bool :=
  if !is_adjacent_mapping mleft.map mright.map .RespectHeap none ||
      !is_adjacent_mapping mleft.recorded_map mright.recorded_map .RespectHeap none then false
  else mleft.flags == mright.flags

/-- `assert_coalesceable`: its `ed_assert!`s are fatal, so a failed one is
`none`. -/
def assert_coalesceable (lower higher : Mapping) : Option Unit :=
  let emu_file_comparison :=
    match lower.emu_file with
    | some lower_emu =>
      match higher.emu_file with
      | some higher_emu => lower_emu == higher_emu
      | none => false
    | none => higher.emu_file.isNone
  let local_addr_comparison :=
    match lower.local_addr with
    | some lower_local =>
      match higher.local_addr with
      | some higher_local => wrapping_add lower_local lower.map.size == higher_local
      | none => false
    | none => higher.local_addr.isNone
  if emu_file_comparison && local_addr_comparison && lower.flags == higher.flags &&
      lower.monitored_shared_memory.isNone && higher.monitored_shared_memory.isNone then
    some ()
  else none

/-- What merging two entries keeps: they are adjacent, and agree on everything
but the name, which may differ only up to the stack and ` (deleted)`
normalisations. -/
theorem is_adjacent_mapping_spec {mleft mright : KernelMapping}
    (h : is_adjacent_mapping mleft mright .RespectHeap none = true) :
    mleft.mr.end_ = mright.mr.start_ ∧ (mleft.flags_ ^^^ mright.flags_) &&& (2 ^ 32 - 1) = 0 ∧
      mleft.prot_ = mright.prot_ ∧
      normalized_file_names_equal mleft mright .RespectHeap = true ∧
      mleft.device_ = mright.device_ ∧ mleft.inode_ = mright.inode_ ∧
      (mleft.is_real_device = true → wrapping_add mleft.offset mleft.size = mright.offset) := by
  unfold is_adjacent_mapping at h
  simp only [bne_iff_ne, ne_eq, Option.getD_none, Bool.or_eq_true, Bool.not_eq_true',
    Bool.and_eq_true] at h
  split at h
  · simp at h
  · rename_i hend
    split at h
    · simp at h
    · rename_i hfl
      split at h
      · simp at h
      · rename_i hname
        split at h
        · simp at h
        · rename_i hdev
          split at h
          · simp at h
          · rename_i hoff
            simp only [not_or, not_not, Bool.not_eq_false] at hend hfl hname hdev hoff
            refine ⟨hend, hfl.1, hfl.2, hname, hdev.1, hdev.2, ?_⟩
            intro hreal
            by_contra hne
            exact hoff ⟨hreal, hne⟩

end RdReplay
