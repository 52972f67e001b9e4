/-
  FileMonitor/MmappedFile.lean --- what a write to a shared-mapped file makes
  rd record.

  Sources: `file_monitor/mmapped_file_monitor.rs` (`MmappedFileMonitor`,
  `did_write`) and `session/address_space/memory_range.rs` (`intersect`,
  `intersects`).

  A write through a file descriptor changes the bytes of every `MAP_SHARED`
  mapping of that file.  While recording, `did_write` records in each address
  space the part of each such mapping that the written bytes land in; during
  replay it grows the emulated file instead.

  ARITHMETIC.  The address of the written bytes is computed in `u64` as
  `km.start() + local_offset - mapping_offset`, and `local_offset` advances by
  `+=`: both wrap in the release build (a debug build panics instead), so they
  are `wrapping_add` and `wrapping_sub` here.

  WHAT IS LEFT OUT.  The write offset (`LazyOffset::retrieve`) is a parameter.
  Which task of an address space records a range, and whether its read
  succeeds, is left out: an effect is the range handed to
  `record_remote_range_fallible` in that address space.  An `EmuFile` is known
  by its identity, and `emu_stat` gives its device and inode.
-/
import RdReplay.AddressSpace.Mapping

set_option autoImplicit false

namespace RdReplay.FileMonitor

/-- `MmappedFileMonitor`: the file it watches, and whether no mapping of it is
left. -/
structure MmappedFileMonitor where
  dead_ : Bool
  device_ : Nat
  inode_ : Nat
  deriving DecidableEq, Repr

/-- What `did_write` does for one written range in one mapping. -/
inductive WriteEffect where
  /-- `record_remote_range_fallible(km.intersect(mr))` by a task of address space `vm`. -/
  | record_remote_range (vm : Nat) (mr : MemoryRange)
  /-- `ensure_size(size)` on the mapping's `EmuFile`. -/
  | ensure_size (emu_file : Nat) (size : Nat)
  deriving DecidableEq, Repr

/-- The tests at the top of the loop body: the mapping is one of the watched
file's, through its `EmuFile` during replay, and `MAP_SHARED` while recording. -/
def is_monitored_mapping (self : MmappedFileMonitor) (is_replay : Bool)
    (emu_stat : Nat → Nat × Nat) (m : Mapping) : Bool :=
  if is_replay then
    match m.emu_file with
    | none => false
    | some f => (emu_stat f).1 == self.device_ && (emu_stat f).2 == self.inode_
  else
    m.map.device_ == self.device_ && m.map.inode_ == self.inode_ &&
      m.map.flags_ &&& MAP_SHARED != 0

/-- The `for r in ranges` loop over one watched mapping, from `local_offset`;
`ranges` are the lengths of the written ranges. -/
def did_write_ranges (is_replay : Bool) (vm : Nat) (m : Mapping) :
    List Nat → Nat → List WriteEffect
  | [], _ => []
  | length :: ranges, local_offset =>
    let km := m.map
    -- `km.start().as_usize() as u64 + local_offset - mapping_offset`
    let start := wrapping_sub (wrapping_add km.mr.start_ local_offset) km.offset
    let mr := MemoryRange.new_range start length
    let effect :=
      if !km.mr.intersects mr then []
      else if is_replay then
        (m.emu_file.map fun f => WriteEffect.ensure_size f (wrapping_add local_offset length)).toList
      else [.record_remote_range vm (km.mr.intersect mr)]
    effect ++ did_write_ranges is_replay vm m ranges (wrapping_add local_offset length)

/-- The state of the loops over the address spaces and their mappings:
`self.dead_`, `realized_offset` and the effects so far. -/
structure DidWriteState where
  dead : Bool
  realized_offset : Nat
  effects : List WriteEffect
  deriving DecidableEq, Repr

/-- The body of the loop over the mappings of the address space `vm`. -/
def did_write_mapping (self : MmappedFileMonitor) (is_replay : Bool) (emu_stat : Nat → Nat × Nat)
    (offset : Nat) (ranges : List Nat) (vm : Nat) (s : DidWriteState) (m : Mapping) :
    DidWriteState :=
  if !is_monitored_mapping self is_replay emu_stat m then s
  else
    -- the first watched mapping realizes the write's offset
    let s := if s.dead then { s with dead := false, realized_offset := offset } else s
    { s with effects := s.effects ++ did_write_ranges is_replay vm m ranges s.realized_offset }

/-- `did_write`, over the session's address spaces, each its `uid` and its memory
map in key order; `offset` is what `offset.retrieve(true)` returns. -/
def did_write (self : MmappedFileMonitor) (is_replay : Bool) (emu_stat : Nat → Nat × Nat)
    (offset : Nat) (vms : List (Nat × MemoryMap)) (ranges : List Nat) :
    MmappedFileMonitor × List WriteEffect :=
  if self.dead_ then (self, [])
  else if ranges = [] then (self, [])
  else
    -- dead until proven otherwise
    let s := vms.foldl (fun s v =>
      v.2.foldl (fun s e => did_write_mapping self is_replay emu_stat offset ranges v.1 s e.2) s)
      ⟨true, 0, []⟩
    ({ self with dead_ := s.dead }, s.effects)

/-! ## What a write should record

The account of a write that `did_write` implements: the file bytes
`[offset, offset + length)` lie at `km.start + offset - F` in a mapping of the
file window `[F, F + size)`, and what is recorded is the part of the mapping
they cover.  It is stated over the naturals, where nothing wraps. -/

/-- The part of the mapping `km` that the file bytes `[offset, offset + length)`
cover, if they overlap its file window. -/
def file_write_range (km : KernelMapping) (offset length : Nat) : Option MemoryRange :=
  let F := km.offset
  let size := km.mr.end_ - km.mr.start_
  if max F offset < min (F + size) (offset + length) then
    some ⟨max km.mr.start_ (km.mr.start_ + offset - F), min km.mr.end_ (km.mr.start_ + offset + length - F)⟩
  else none

/-- What the account says one written range does to the watched mapping `m` of
the address space `vm`: record the part it covers or, during replay, grow the
emulated file to the range's end. -/
def file_write_effect (is_replay : Bool) (vm : Nat) (m : Mapping) (offset length : Nat) :
    List WriteEffect :=
  match file_write_range m.map offset length with
  | none => []
  | some r =>
    if is_replay then (m.emu_file.map fun f => WriteEffect.ensure_size f (offset + length)).toList
    else [.record_remote_range vm r]

/-- The account of consecutive written ranges, the first at `offset`. -/
def file_write_effects (is_replay : Bool) (vm : Nat) (m : Mapping) : List Nat → Nat → List WriteEffect
  | [], _ => []
  | length :: ranges, offset =>
    file_write_effect is_replay vm m offset length ++ file_write_effects is_replay vm m ranges (offset + length)

/-- The account of a whole write: each watched mapping of each address space, in
the order the loops visit them. -/
def file_write_spec (self : MmappedFileMonitor) (is_replay : Bool) (emu_stat : Nat → Nat × Nat)
    (offset : Nat) (vms : List (Nat × MemoryMap)) (ranges : List Nat) : List WriteEffect :=
  vms.flatMap fun v => v.2.flatMap fun e =>
    if is_monitored_mapping self is_replay emu_stat e.2 then file_write_effects is_replay v.1 e.2 ranges offset
    else []

/-! ## rd follows the account where nothing wraps -/

/-- Where `km.start + offset - F` neither underflows nor wraps, rd's range is the
written file range moved into the mapping. -/
theorem new_range_of_no_wrap {km : KernelMapping} {offset length : Nat}
    (hlow : km.offset ≤ km.mr.start_ + offset) (hhigh : km.mr.start_ + offset + length < 2 ^ 64) :
    MemoryRange.new_range (wrapping_sub (wrapping_add km.mr.start_ offset) km.offset) length =
      ⟨km.mr.start_ + offset - km.offset, km.mr.start_ + offset - km.offset + length⟩ := by
  rw [wrapping_add_of_lt (by omega), wrapping_sub_of_le hlow (by omega), MemoryRange.new_range,
    wrapping_add_of_lt (by omega)]

/-- There, the intersection test is the overlap of the file ranges, and the
intersection is the part of the mapping the write covers. -/
theorem intersect_of_no_wrap {km : KernelMapping} {offset length : Nat}
    (hlow : km.offset ≤ km.mr.start_ + offset) (hhigh : km.mr.start_ + offset + length < 2 ^ 64) :
    let mr := MemoryRange.new_range (wrapping_sub (wrapping_add km.mr.start_ offset) km.offset) length
    (if km.mr.intersects mr then some (km.mr.intersect mr) else none) = file_write_range km offset length := by
  simp only [new_range_of_no_wrap hlow hhigh, file_write_range, MemoryRange.intersects,
    MemoryRange.intersect, decide_eq_true_eq]
  -- both tests are the same inequality after moving by `km.start - F`
  by_cases hov : max km.offset offset < min (km.offset + (km.mr.end_ - km.mr.start_)) (offset + length)
  · rw [if_pos (by omega), if_pos hov]
    congr 2
    omega
  · rw [if_neg (by omega), if_neg hov]

/-- Over the written ranges of one watched mapping. -/
theorem did_write_ranges_of_no_wrap (is_replay : Bool) (vm : Nat) (m : Mapping) :
    ∀ (ranges : List Nat) (offset : Nat), m.map.offset ≤ m.map.mr.start_ + offset →
      m.map.mr.start_ + offset + ranges.sum < 2 ^ 64 →
        did_write_ranges is_replay vm m ranges offset = file_write_effects is_replay vm m ranges offset
  | [], _, _, _ => rfl
  | length :: ranges, offset, hlow, hhigh => by
    simp only [List.sum_cons] at hhigh
    have hstep := intersect_of_no_wrap hlow (show m.map.mr.start_ + offset + length < 2 ^ 64 by omega)
    have hrest := did_write_ranges_of_no_wrap is_replay vm m ranges (offset + length) (by omega) (by omega)
    rw [did_write_ranges, file_write_effects, wrapping_add_of_lt (show offset + length < 2 ^ 64 by omega),
      hrest]
    congr 1
    -- the effect of this range: both sides test the same overlap
    simp only at hstep
    unfold file_write_effect
    rw [← hstep]
    by_cases hi : m.map.mr.intersects
        (MemoryRange.new_range (wrapping_sub (wrapping_add m.map.mr.start_ offset) m.map.offset) length)
    · cases is_replay <;> simp [hi]
    · simp [hi]

section Loops

variable (self : MmappedFileMonitor) (is_replay : Bool) (emu_stat : Nat → Nat × Nat)
  (offset : Nat) (ranges : List Nat)

/-- Once a watched mapping is found the realized offset is the write's. -/
def Realized (s : DidWriteState) : Prop := s.dead = false → s.realized_offset = offset

/-- The address arithmetic of a watched mapping neither underflows nor wraps. -/
def NoWrap (m : Mapping) : Prop :=
  is_monitored_mapping self is_replay emu_stat m = true →
    m.map.offset ≤ m.map.mr.start_ + offset ∧ m.map.mr.start_ + offset + ranges.sum < 2 ^ 64

variable {self is_replay emu_stat offset ranges}

theorem did_write_mapping_spec (vm : Nat) {s : DidWriteState} {m : Mapping}
    (hs : Realized offset s) (hm : NoWrap self is_replay emu_stat offset ranges m) :
    Realized offset (did_write_mapping self is_replay emu_stat offset ranges vm s m) ∧
      (did_write_mapping self is_replay emu_stat offset ranges vm s m).effects =
        s.effects ++ (if is_monitored_mapping self is_replay emu_stat m then
          file_write_effects is_replay vm m ranges offset else []) := by
  unfold did_write_mapping
  by_cases hmon : is_monitored_mapping self is_replay emu_stat m = true
  case neg => simp [hmon, hs]
  case pos =>
  obtain ⟨hlow, hhigh⟩ := hm hmon
  -- whichever branch, the offset used is the write's
  have hreal : (if s.dead then { s with dead := false, realized_offset := offset } else s).realized_offset =
      offset := by
    cases hd : s.dead
    · simpa [hd] using hs hd
    · rfl
  simp only [hmon, Bool.not_true, Bool.false_eq_true, if_false]
  refine ⟨fun _ => hreal, ?_⟩
  rw [hreal, did_write_ranges_of_no_wrap is_replay vm m ranges offset hlow hhigh]
  cases s.dead <;> rfl

theorem foldl_did_write_mapping (vm : Nat) :
    ∀ (es : MemoryMap) (s : DidWriteState), Realized offset s →
      (∀ e ∈ es, NoWrap self is_replay emu_stat offset ranges e.2) →
        let s' := es.foldl (fun s e => did_write_mapping self is_replay emu_stat offset ranges vm s e.2) s
        Realized offset s' ∧ s'.effects = s.effects ++ es.flatMap fun e =>
          if is_monitored_mapping self is_replay emu_stat e.2 then
            file_write_effects is_replay vm e.2 ranges offset else []
  | [], s, hs, _ => ⟨hs, by simp⟩
  | e :: es, s, hs, hwin => by
    obtain ⟨hs1, heff1⟩ := did_write_mapping_spec vm hs (hwin e List.mem_cons_self)
    obtain ⟨hs2, heff2⟩ := foldl_did_write_mapping vm es _ hs1 fun e' he' => hwin e' (List.mem_cons_of_mem _ he')
    refine ⟨hs2, ?_⟩
    rw [List.foldl_cons, heff2, heff1, List.flatMap_cons, List.append_assoc]

theorem foldl_did_write_vm :
    ∀ (vms : List (Nat × MemoryMap)) (s : DidWriteState), Realized offset s →
      (∀ v ∈ vms, ∀ e ∈ v.2, NoWrap self is_replay emu_stat offset ranges e.2) →
        let s' := vms.foldl (fun s v =>
          v.2.foldl (fun s e => did_write_mapping self is_replay emu_stat offset ranges v.1 s e.2) s) s
        Realized offset s' ∧ s'.effects = s.effects ++ file_write_spec self is_replay emu_stat offset vms ranges
  | [], s, hs, _ => ⟨hs, by simp [file_write_spec]⟩
  | v :: vms, s, hs, hwin => by
    obtain ⟨hs1, heff1⟩ := foldl_did_write_mapping v.1 v.2 s hs (hwin v List.mem_cons_self)
    obtain ⟨hs2, heff2⟩ := foldl_did_write_vm vms _ hs1 fun v' hv' => hwin v' (List.mem_cons_of_mem _ hv')
    refine ⟨hs2, ?_⟩
    rw [List.foldl_cons, heff2, heff1, file_write_spec, file_write_spec, List.flatMap_cons,
      List.append_assoc]

end Loops

/-- Where no watched mapping's address arithmetic underflows or wraps, a write
has exactly the effects of the account: the part of each watched mapping its
ranges cover is recorded, or the emulated file grown to each range's end. -/
theorem did_write_of_no_wrap {self : MmappedFileMonitor} {is_replay : Bool}
    {emu_stat : Nat → Nat × Nat} {offset : Nat} {vms : List (Nat × MemoryMap)} {ranges : List Nat}
    (hlive : self.dead_ = false) (hne : ranges ≠ [])
    (hwin : ∀ v ∈ vms, ∀ e ∈ v.2, NoWrap self is_replay emu_stat offset ranges e.2) :
    (did_write self is_replay emu_stat offset vms ranges).2 =
      file_write_spec self is_replay emu_stat offset vms ranges := by
  unfold did_write
  simp only [hlive, Bool.false_eq_true, if_false, hne]
  exact (foldl_did_write_vm vms ⟨true, 0, []⟩ (fun h => absurd h (by simp)) hwin).2

/-- A write of `0x200` bytes at offset `0x100` of the file `(1, 1)`, shared at
`[0x1000, 0x2000)` from its start. -/
theorem did_write_of_mapping_from_file_start :
    let km := KernelMapping.new_with_opts 0x1000 0x2000 "" 1 1 3 MAP_SHARED 0
    let vms : List (Nat × MemoryMap) := [(1, [(⟨0x1000, 0x2000⟩, Mapping.new km km none none none none)])]
    (∀ v ∈ vms, ∀ e ∈ v.2, NoWrap ⟨false, 1, 1⟩ false (fun _ => (0, 0)) 0x100 [0x200] e.2) ∧
      (did_write ⟨false, 1, 1⟩ false (fun _ => (0, 0)) 0x100 vms [0x200]).2 =
        file_write_spec ⟨false, 1, 1⟩ false (fun _ => (0, 0)) 0x100 vms [0x200] := by
  intro km vms
  have hwin : ∀ v ∈ vms, ∀ e ∈ v.2, NoWrap ⟨false, 1, 1⟩ false (fun _ => (0, 0)) 0x100 [0x200] e.2 := by
    intro v hv e he
    rw [List.mem_singleton.1 hv] at he
    rw [List.mem_singleton.1 he]
    intro _
    decide
  exact ⟨hwin, did_write_of_no_wrap rfl (List.cons_ne_nil _ _) hwin⟩

/-- A shared mapping of the file `(1, 1)` at `[0x1000, 0x2000)` whose file window
starts at `0x3000`: the mapping lies below its file offset. -/
def mapping_below_its_offset : Mapping :=
  let km := KernelMapping.new_with_opts 0x1000 0x2000 "" 1 1 3 MAP_SHARED 0x3000
  Mapping.new km km none none none none

/-- A write of `0x3000` bytes at file offset `0x1000` covers the whole window
`[0x3000, 0x4000)`, so the whole mapping should be recorded; rd's start address
`0x1000 + 0x1000 - 0x3000` wraps, its range misses the mapping, and nothing is
recorded. -/
theorem did_write_misses_write_below_mapping_window :
    did_write ⟨false, 1, 1⟩ false (fun _ => (0, 0)) 0x1000
        [(1, [(⟨0x1000, 0x2000⟩, mapping_below_its_offset)])] [0x3000] = (⟨false, 1, 1⟩, []) ∧
      file_write_spec ⟨false, 1, 1⟩ false (fun _ => (0, 0)) 0x1000
        [(1, [(⟨0x1000, 0x2000⟩, mapping_below_its_offset)])] [0x3000] =
        [.record_remote_range 1 ⟨0x1000, 0x2000⟩] := by
  decide

end RdReplay.FileMonitor
