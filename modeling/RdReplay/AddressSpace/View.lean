/-
  AddressSpace/View.lean --- what the memory map says about each page, and what
  cutting and merging mappings keep of it.

  THE VIEW.  `view s p` is what `mapping_of` reports for the page at `p`: the
  protection, the map flags, the `MappingFlags`, the name, device and inode of
  the mapping containing `p`, and, for a mapping of a real device, the offset in
  the file of the byte at `p`.  Anonymous mappings keep whatever offset they were
  created with through every split (`subrange` moves the offset of real devices
  only), so no file offset is part of their view.

  WHAT PIECES AND MERGES KEEP.  A piece cut with `subrange` gives each of its
  pages the attributes the mapping gave it (`Mapping.attrs_of_subrange`), and a
  right neighbour that `is_coalescable` accepts gives each of its pages the
  attributes the left one would, the name apart
  (`Mapping.attrs_erase_name_of_coalescable`), its name matching the left one's
  as `normalized_file_names_equal` asks (`names_match`).  A view after
  coalescing is then `CoalescedView` of the view before: every byte keeps its
  attributes, and its name is the name of a byte below it reached through
  mapped bytes whose neighbouring names match.
-/
import RdReplay.AddressSpace.Loop

set_option autoImplicit false

namespace RdReplay

/-- The attributes of a page. -/
structure PageAttrs where
  prot : Nat
  flags : Nat
  mapping_flags : MappingFlags
  fsname : String
  device : Nat
  inode : Nat
  /-- The file offset of the byte at the page, for a mapping of a real device. -/
  offset : Option Nat
  deriving DecidableEq, Repr

/-- The attributes the mapping `m` gives the page at `p`. -/
def Mapping.attrs (m : Mapping) (p : Nat) : PageAttrs :=
  { prot := m.map.prot_
    flags := m.map.flags_
    mapping_flags := m.flags
    fsname := m.map.fsname_
    device := m.map.device_
    inode := m.map.inode_
    offset :=
      if m.map.is_real_device then some (wrapping_add m.map.offset (p - m.map.mr.start_)) else none }

/-- The view of a list of entries: the attributes of the first entry containing
the page. -/
def mem_view (mem : MemoryMap) (p : Nat) : Option PageAttrs :=
  (mem.find? (fun e => e.1.contains_ptr p)).map (fun e => e.2.attrs p)

/-- The view of an address space, read through `mapping_of`. -/
def AddressSpace.view (s : AddressSpace) (p : Nat) : Option PageAttrs :=
  (s.mapping_of p).map (·.attrs p)

/-- The attributes with the name left out: what coalescing keeps. -/
def PageAttrs.erase_name (a : PageAttrs) : PageAttrs := { a with fsname := "" }

/-- The protection `protect` gives a page. -/
def PageAttrs.set_prot (a : PageAttrs) (prot : Nat) : PageAttrs := { a with prot := prot }

/-- What `normalized_file_names_equal` compares of two names with `RespectHeap`:
the name of a stack matches any name, and other names match up to a
` (deleted)` suffix. -/
def names_match (a b : String) : Prop :=
  find a.toList "[stack".toList = some 0 ∨ find b.toList "[stack".toList = some 0 ∨
    strip_deleted a = strip_deleted b

theorem names_match_refl (a : String) : names_match a a := .inr (.inr rfl)

/-- The view `V'` is `V` after coalescing: each byte keeps its attributes but
its name, which is the name of a byte `q` at or below it such that every byte
from `q` up to it is mapped and each neighbouring pair has matching names: the
name of the first mapping of a merged run. -/
def CoalescedView (V' V : Nat → Option PageAttrs) : Prop :=
  ∀ p, (V' p).map PageAttrs.erase_name = (V p).map PageAttrs.erase_name ∧
    ∀ x ∈ V' p, ∃ q ≤ p, (∃ y ∈ V q, y.fsname = x.fsname) ∧
      ∀ r, q ≤ r → r < p → ∃ a ∈ V r, ∃ b ∈ V (r + 1), names_match a.fsname b.fsname

theorem CoalescedView.refl (V : Nat → Option PageAttrs) : CoalescedView V V :=
  fun p => ⟨rfl, fun x hx => ⟨p, le_rfl, ⟨x, hx, rfl⟩, fun _ h₁ h₂ => absurd h₂ (by omega)⟩⟩

/-- The relation read through pointwise equal views. -/
theorem CoalescedView.congr {V' V W' W : Nat → Option PageAttrs} (h : CoalescedView V' V)
    (hV' : ∀ p, V' p = W' p) (hV : ∀ p, V p = W p) : CoalescedView W' W := by
  obtain rfl : V' = W' := funext hV'
  obtain rfl : V = W := funext hV
  exact h

/-- Neither the name nor the protection is part of the offset. -/
@[simp] theorem bind_offset_erase_name (x : Option PageAttrs) :
    (x.map PageAttrs.erase_name).bind PageAttrs.offset = x.bind PageAttrs.offset := by
  cases x <;> rfl

@[simp] theorem bind_offset_set_prot (x : Option PageAttrs) (prot : Nat) :
    (x.map (·.set_prot prot)).bind PageAttrs.offset = x.bind PageAttrs.offset := by
  cases x <;> rfl

/-! ## The attributes of the pieces of a mapping -/

section Pieces

variable {m m' : Mapping} {x y p : Nat}

/-- Where the offset of a piece cut at `x` puts the page `p`. -/
theorem piece_offset (hx : m.map.mr.start_ ≤ x) (hxp : x ≤ p) (hx64 : x < 2 ^ 64) :
    wrapping_add (wrapping_add m.map.offset (wrapping_sub x m.map.mr.start_)) (p - x) =
      wrapping_add m.map.offset (p - m.map.mr.start_) := by
  rw [wrapping_add_wrapping_add, wrapping_sub_of_le hx hx64]
  congr 1
  omega

/-- A piece `[x, y)` that `subrange` cuts from `m` gives each of its pages the
attributes `m` gave it. -/
theorem Mapping.attrs_of_subrange (hmap : m'.map = m.map.subrange x y) (hflags : m'.flags = m.flags)
    (hmask : m.map.flags_ &&& KernelMapping.MAP_FLAGS_MASK = m.map.flags_)
    (hx : m.map.mr.start_ ≤ x) (hxp : x ≤ p) (hx64 : x < 2 ^ 64) : m'.attrs p = m.attrs p := by
  unfold Mapping.attrs
  rw [hmap, hflags]
  simp only [KernelMapping.subrange_meta, KernelMapping.subrange_mr, hmask,
    KernelMapping.subrange_is_real_device]
  cases m.map.is_real_device
  · rfl
  · simp only [if_true, piece_offset hx hxp hx64]

/-- The same for a piece whose protection is then set to `prot`. -/
theorem Mapping.attrs_of_subrange_set_prot {prot : Nat}
    (hmap : m'.map = (m.map.subrange x y).set_prot prot) (hflags : m'.flags = m.flags)
    (hmask : m.map.flags_ &&& KernelMapping.MAP_FLAGS_MASK = m.map.flags_)
    (hx : m.map.mr.start_ ≤ x) (hxp : x ≤ p) (hx64 : x < 2 ^ 64) :
    m'.attrs p = (m.attrs p).set_prot prot := by
  unfold Mapping.attrs PageAttrs.set_prot
  rw [hmap, hflags]
  simp only [KernelMapping.set_prot_meta, KernelMapping.set_prot_mr, KernelMapping.subrange_meta,
    KernelMapping.subrange_mr, hmask, KernelMapping.set_prot_is_real_device, KernelMapping.subrange_is_real_device]
  cases m.map.is_real_device
  · rfl
  · simp only [if_true, piece_offset hx hxp hx64]

end Pieces

/-! ## What coalescing keeps -/

section Coalescable

/-- Masked map flags fit in the 32 bits `is_adjacent_mapping` compares. -/
theorem flags_lt_of_masked {f : Nat} (h : f &&& KernelMapping.MAP_FLAGS_MASK = f) : f < 2 ^ 32 := by
  rw [← h]
  exact Nat.lt_of_le_of_lt Nat.and_le_right (by decide)

/-- Two masked flag words that agree on the low 32 bits are equal. -/
theorem flags_eq_of_masked {f g : Nat} (hf : f &&& KernelMapping.MAP_FLAGS_MASK = f)
    (hg : g &&& KernelMapping.MAP_FLAGS_MASK = g) (h : (f ^^^ g) &&& (2 ^ 32 - 1) = 0) : f = g := by
  rw [Nat.and_two_pow_sub_one_eq_mod,
    Nat.mod_eq_of_lt (Nat.xor_lt_two_pow (flags_lt_of_masked hf) (flags_lt_of_masked hg))] at h
  exact Nat.eq_of_xor_eq_zero h

variable {m₁ m₂ : Mapping} {p : Nat}

/-- What `is_coalescable` checks: the maps are adjacent, and the `MappingFlags`
agree. -/
theorem is_coalescable_spec (h : is_coalescable m₁ m₂ = true) :
    is_adjacent_mapping m₁.map m₂.map .RespectHeap none = true ∧ m₁.flags = m₂.flags := by
  unfold is_coalescable at h
  split at h
  · exact absurd h (by simp)
  · rename_i hadj
    simp only [Bool.or_eq_true, Bool.not_eq_true', not_or, Bool.not_eq_false] at hadj
    exact ⟨hadj.1, by simpa using h⟩

/-- A right neighbour that `is_coalescable` accepts gives each of its pages the
attributes the left mapping would give it, the name apart. -/
theorem Mapping.attrs_erase_name_of_coalescable (h : is_coalescable m₁ m₂ = true)
    (hm₁ : m₁.map.flags_ &&& KernelMapping.MAP_FLAGS_MASK = m₁.map.flags_)
    (hm₂ : m₂.map.flags_ &&& KernelMapping.MAP_FLAGS_MASK = m₂.map.flags_)
    (hle : m₁.map.mr.start_ ≤ m₁.map.mr.end_) (hlt : m₁.map.mr.end_ < 2 ^ 64)
    (hp : m₂.map.mr.start_ ≤ p) : (m₂.attrs p).erase_name = (m₁.attrs p).erase_name := by
  obtain ⟨hadj, hflags⟩ := is_coalescable_spec h
  obtain ⟨hend, hfl, hprot, -, hdev, hino, hoff⟩ := is_adjacent_mapping_spec hadj
  have hreal : m₂.map.is_real_device = m₁.map.is_real_device := by
    simp only [KernelMapping.is_real_device, hdev]
  unfold Mapping.attrs PageAttrs.erase_name
  rw [hreal, ← flags_eq_of_masked hm₁ hm₂ hfl, ← hprot, ← hdev, ← hino, ← hflags]
  cases hr : m₁.map.is_real_device
  · rfl
  · -- the right neighbour's offset continues the left one's
    rw [← hoff hr, ← hend]
    simp only [if_true, KernelMapping.size, MemoryRange.size]
    rw [piece_offset hle (hend ▸ hp) hlt]

/-- The names of coalescable neighbours match. -/
theorem names_match_of_coalescable (h : is_coalescable m₁ m₂ = true) :
    names_match m₁.map.fsname_ m₂.map.fsname_ := by
  have hname := (is_adjacent_mapping_spec (is_coalescable_spec h).1).2.2.2.1
  unfold normalized_file_names_equal at hname
  unfold names_match
  split_ifs at hname with hstack hheap
  · simp only [KernelMapping.is_stack, Bool.or_eq_true, beq_iff_eq] at hstack
    rcases hstack with hs | hs
    · exact .inl hs
    · exact .inr (.inl hs)
  · simp at hheap
  · exact .inr (.inr (by simpa using hname))

end Coalescable

/-! ## The view of a list -/

section MemView

variable {X Y : MemoryMap} {e : MemoryRange × Mapping} {p : Nat}

@[simp] theorem mem_view_nil : mem_view [] p = none := rfl

theorem mem_view_cons :
    mem_view (e :: Y) p = if e.1.contains_ptr p then some (e.2.attrs p) else mem_view Y p := by
  unfold mem_view
  rw [List.find?_cons]
  split <;> simp_all

theorem mem_view_append : mem_view (X ++ Y) p = (mem_view X p).or (mem_view Y p) := by
  unfold mem_view
  rw [List.find?_append]
  cases X.find? (fun e => e.1.contains_ptr p) <;> simp

theorem mem_view_eq_none (h : ∀ e ∈ Y, ¬(e.1.start_ ≤ p ∧ p < e.1.end_)) :
    mem_view Y p = none := by
  unfold mem_view
  rw [List.find?_eq_none.2 (fun e he => by simpa using h e he)]
  rfl

/-- On a well-formed map the view at a page is that of the entry containing it. -/
theorem MapInv.mem_view_of_mem (h : MapInv Y) (he : e ∈ Y) (hp : e.1.contains_ptr p = true) :
    mem_view Y p = some (e.2.attrs p) := by
  unfold mem_view
  rw [h.find?_contains he hp]
  rfl

theorem AddressSpace.view_eq (s : AddressSpace) (h : MapInv s.mem) (p : Nat) :
    s.view p = mem_view s.mem p := by
  unfold AddressSpace.view mem_view
  rw [h.mapping_of_eq s rfl p, Option.map_map]
  rfl

end MemView

end RdReplay
