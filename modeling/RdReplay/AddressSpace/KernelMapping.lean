/-
  AddressSpace/KernelMapping.lean --- one line of `/proc/<pid>/maps` as rd keeps
  it, and the constructors the memory map splits and merges mappings with.

  Source: `session/address_space/kernel_mapping.rs`.

  FLAGS.  `ProtFlags` and `MapFlags` are the Linux bit masks, kept as naturals
  with their x86 values; only `&`, `|` and `contains` are applied to them.  Every
  constructor goes through `new_with_opts`, which masks the map flags with
  `MAP_FLAGS_MASK`.  Its `assert_valid` is a `debug_assert!`, so it is not part
  of the release build modelled here.

  OFFSETS.  `subrange` moves the file offset with the start address only for a
  mapping of a real device.  For every other mapping the offset is carried along
  unchanged: rd does not track file offsets of anonymous memory.
-/
import RdReplay.AddressSpace.MemoryRange

set_option autoImplicit false

namespace RdReplay

/-! ## Flags -/

/-- `ProtFlags::PROT_READ`. -/
def PROT_READ : Nat := 0x1
/-- `ProtFlags::PROT_WRITE`. -/
def PROT_WRITE : Nat := 0x2
/-- `ProtFlags::PROT_EXEC`. -/
def PROT_EXEC : Nat := 0x4
/-- `ProtFlags::PROT_GROWSDOWN`. -/
def PROT_GROWSDOWN : Nat := 0x01000000

/-- `MapFlags::MAP_SHARED`. -/
def MAP_SHARED : Nat := 0x01
/-- `MapFlags::MAP_PRIVATE`. -/
def MAP_PRIVATE : Nat := 0x02
/-- `MapFlags::MAP_ANONYMOUS`. -/
def MAP_ANONYMOUS : Nat := 0x20
/-- `MapFlags::MAP_GROWSDOWN`. -/
def MAP_GROWSDOWN : Nat := 0x100
/-- `MapFlags::MAP_NORESERVE`. -/
def MAP_NORESERVE : Nat := 0x4000
/-- `MapFlags::MAP_STACK`. -/
def MAP_STACK : Nat := 0x20000

/-- `bitflags` `contains`: every bit of `other` is set in `flags`. -/
def flags_contains (flags other : Nat) : Bool := flags &&& other == other

/-! ## Kernel mappings -/

/-- `KernelMapping`. -/
structure KernelMapping where
  mr : MemoryRange
  fsname_ : String
  device_ : Nat
  inode_ : Nat
  prot_ : Nat
  flags_ : Nat
  offset : Nat
  deriving DecidableEq, Repr, Inhabited

namespace KernelMapping

/-- `KernelMapping::NO_DEVICE`. -/
def NO_DEVICE : Nat := 0
/-- `KernelMapping::NO_INODE`. -/
def NO_INODE : Nat := 0

/-- `KernelMapping::MAP_FLAGS_MASK`: the flags rd tracks to tell adjacent
segments apart. -/
def MAP_FLAGS_MASK : Nat :=
  MAP_ANONYMOUS ||| MAP_NORESERVE ||| MAP_PRIVATE ||| MAP_SHARED ||| MAP_STACK ||| MAP_GROWSDOWN

/-- `KernelMapping::new_with_opts`. -/
def new_with_opts (start end_ : Nat) (fsname : String) (device inode prot flags offset : Nat) :
    KernelMapping :=
  { mr := MemoryRange.from_range start end_
    fsname_ := fsname
    device_ := device
    inode_ := inode
    prot_ := prot
    flags_ := flags &&& MAP_FLAGS_MASK
    offset := offset }

/-- `KernelMapping::size`. -/
def size (km : KernelMapping) : Nat := km.mr.size

/-- `KernelMapping::is_real_device`. -/
def is_real_device (km : KernelMapping) : Bool := km.device_ > NO_DEVICE

/-- `KernelMapping::is_vdso`. -/
def is_vdso (km : KernelMapping) : Bool := km.fsname_ == "[vdso]"

/-- `KernelMapping::is_heap`. -/
def is_heap (km : KernelMapping) : Bool := km.fsname_ == "[heap]"

/-- `KernelMapping::is_stack`: the name starts with `[stack`. -/
def is_stack (km : KernelMapping) : Bool := find km.fsname_.toList "[stack".toList == some 0

/-- `KernelMapping::extend`: the same mapping up to `end_`. -/
def extend (km : KernelMapping) (end_ : Nat) : KernelMapping :=
  new_with_opts km.mr.start_ end_ km.fsname_ km.device_ km.inode_ km.prot_ km.flags_ km.offset

/-- `KernelMapping::set_range`: the same metadata, offset included, on another
range. -/
def set_range (km : KernelMapping) (start end_ : Nat) : KernelMapping :=
  new_with_opts start end_ km.fsname_ km.device_ km.inode_ km.prot_ km.flags_ km.offset

/-- `KernelMapping::subrange`: the part `[start, end_)`, its file offset moved by
`start - self.start()` for a real device. -/
def subrange (km : KernelMapping) (start end_ : Nat) : KernelMapping :=
  let start_addr := if km.is_real_device then wrapping_sub start km.mr.start_ else 0
  new_with_opts start end_ km.fsname_ km.device_ km.inode_ km.prot_ km.flags_
    (wrapping_add km.offset start_addr)

/-- `KernelMapping::set_prot`. -/
def set_prot (km : KernelMapping) (prot : Nat) : KernelMapping :=
  new_with_opts km.mr.start_ km.mr.end_ km.fsname_ km.device_ km.inode_ prot km.flags_ km.offset

/-! ## What each constructor keeps -/

@[simp] theorem new_with_opts_mr (start end_ : Nat) (fsname : String)
    (device inode prot flags offset : Nat) :
    (new_with_opts start end_ fsname device inode prot flags offset).mr = ⟨start, end_⟩ := rfl

@[simp] theorem extend_mr (km : KernelMapping) (end_ : Nat) :
    (km.extend end_).mr = ⟨km.mr.start_, end_⟩ := rfl

@[simp] theorem set_range_mr (km : KernelMapping) (start end_ : Nat) :
    (km.set_range start end_).mr = ⟨start, end_⟩ := rfl

@[simp] theorem subrange_mr (km : KernelMapping) (start end_ : Nat) :
    (km.subrange start end_).mr = ⟨start, end_⟩ := rfl

@[simp] theorem set_prot_mr (km : KernelMapping) (prot : Nat) : (km.set_prot prot).mr = km.mr := rfl

/-- What `subrange` keeps of the metadata, and where it moves the offset. -/
@[simp] theorem subrange_meta (km : KernelMapping) (start end_ : Nat) :
    (km.subrange start end_).fsname_ = km.fsname_ ∧ (km.subrange start end_).device_ = km.device_ ∧
      (km.subrange start end_).inode_ = km.inode_ ∧ (km.subrange start end_).prot_ = km.prot_ ∧
      (km.subrange start end_).flags_ = km.flags_ &&& MAP_FLAGS_MASK ∧
      (km.subrange start end_).offset =
        wrapping_add km.offset (if km.is_real_device then wrapping_sub start km.mr.start_ else 0) :=
  ⟨rfl, rfl, rfl, rfl, rfl, rfl⟩

/-- What `set_prot` keeps: everything but the protection, the flags masked again. -/
@[simp] theorem set_prot_meta (km : KernelMapping) (prot : Nat) :
    (km.set_prot prot).fsname_ = km.fsname_ ∧ (km.set_prot prot).device_ = km.device_ ∧
      (km.set_prot prot).inode_ = km.inode_ ∧ (km.set_prot prot).prot_ = prot ∧
      (km.set_prot prot).flags_ = km.flags_ &&& MAP_FLAGS_MASK ∧
      (km.set_prot prot).offset = km.offset :=
  ⟨rfl, rfl, rfl, rfl, rfl, rfl⟩

/-- What `extend` and `set_range` keep: all the metadata, the flags masked again. -/
@[simp] theorem extend_meta (km : KernelMapping) (end_ : Nat) :
    (km.extend end_).fsname_ = km.fsname_ ∧ (km.extend end_).device_ = km.device_ ∧
      (km.extend end_).inode_ = km.inode_ ∧ (km.extend end_).prot_ = km.prot_ ∧
      (km.extend end_).flags_ = km.flags_ &&& MAP_FLAGS_MASK ∧ (km.extend end_).offset = km.offset :=
  ⟨rfl, rfl, rfl, rfl, rfl, rfl⟩

@[simp] theorem set_range_meta (km : KernelMapping) (start end_ : Nat) :
    (km.set_range start end_).fsname_ = km.fsname_ ∧ (km.set_range start end_).device_ = km.device_ ∧
      (km.set_range start end_).inode_ = km.inode_ ∧ (km.set_range start end_).prot_ = km.prot_ ∧
      (km.set_range start end_).flags_ = km.flags_ &&& MAP_FLAGS_MASK ∧
      (km.set_range start end_).offset = km.offset :=
  ⟨rfl, rfl, rfl, rfl, rfl, rfl⟩

@[simp] theorem subrange_is_real_device (km : KernelMapping) (start end_ : Nat) :
    (km.subrange start end_).is_real_device = km.is_real_device := rfl

@[simp] theorem set_prot_is_real_device (km : KernelMapping) (prot : Nat) :
    (km.set_prot prot).is_real_device = km.is_real_device := rfl

@[simp] theorem extend_is_real_device (km : KernelMapping) (end_ : Nat) :
    (km.extend end_).is_real_device = km.is_real_device := rfl

@[simp] theorem set_range_is_real_device (km : KernelMapping) (start end_ : Nat) :
    (km.set_range start end_).is_real_device = km.is_real_device := rfl

/-- The flags stay masked: masking twice is masking once. -/
theorem flags_masked_idem (flags : Nat) :
    flags &&& MAP_FLAGS_MASK &&& MAP_FLAGS_MASK = flags &&& MAP_FLAGS_MASK := by
  rw [Nat.and_assoc, Nat.and_self]

end KernelMapping

end RdReplay
