/-
  AddressSpace/Refinement.lean --- the memory-map operations as updates of the
  page view.

  WHAT THE MEMORY MAP IS FOR.  The map stores intervals, and what a reader of
  it sees is the partial function `AddressSpace.view` from each page to the
  attributes of the mapping containing it, read through `mapping_of`.  Each
  operation is then one update of that function (`PageMap.erase`,
  `PageMap.overlay`, `PageMap.modify`), exactly or up to the names coalescing
  may normalise: a merged page may take the name of the first mapping of its
  run, reached through neighbours whose names match as a stack or up to a
  ` (deleted)` suffix (`CoalescedView`).

  WHICH OFFSETS ARE PART OF THE VIEW.  `KernelMapping::subrange` moves the
  offset of a mapping of a real device only: the piece of an anonymous mapping
  keeps the offset of the whole.  So the view gives an offset for the pages of
  real devices only.  `literal_view`, the view with an offset for every page,
  is not kept by `unmap` (`unmap_moves_literal_offset_of_anonymous_page`).
-/
import RdReplay.Lib.PageMap
import RdReplay.AddressSpace.Protect
import RdReplay.AddressSpace.Map

set_option autoImplicit false

namespace RdReplay

namespace AddressSpace

/-- The view with a file offset for every page: the offset of the mapping
containing the page moved on by the page's distance from the mapping's start,
whatever the mapping maps. -/
def literal_view (s : AddressSpace) (p : Nat) : Option PageAttrs :=
  (s.mapping_of p).map fun m =>
    { m.attrs p with offset := some (wrapping_add m.map.offset (p - m.map.mr.start_)) }

variable {s s' : AddressSpace}

/-- `view` agrees with `mem_view` on a well-formed map, everywhere at once. -/
theorem view_funext (h : MapInv s.mem) : s.view = fun p => mem_view s.mem p :=
  funext (s.view_eq h)

/-- The memory-map operations on a well-formed map, with page-aligned arguments
that do not wrap, update the page view: `unmap` erases its range; `map` puts
the new mapping's attributes over its range, with the offset at `a + k` moved
on by `k` for a real device; `protect` sets the protection of the run of mapped
pages from `a`, from the start of the mapping when `PROT_GROWSDOWN` asks for it,
up to the first hole; and `coalesce_around` a stored key changes nothing.  The
last three hold up to the names coalescing normalises. -/
theorem ops_refine_page_view (h : MapInv s.mem) :
    (∀ (a n : Nat) (s' : AddressSpace), Aligned a → Aligned n → a + n < 2 ^ 64 →
      s.unmap a n = some s' → s'.view = PageMap.erase s.view a (a + n)) ∧
    (∀ (a n prot flags offset_bytes : Nat) (fsname : String) (device inode : Nat)
      (mapped_file_stat : Option Nat) (record_map : Option KernelMapping)
      (emu_file local_addr monitored : Option Nat) (s' : AddressSpace) (km : KernelMapping),
      Aligned a → 0 < ceil_page_size n → a + ceil_page_size n < 2 ^ 64 → offset_bytes < 2 ^ 64 →
      (∀ r ∈ record_map, r.mr = ⟨a, a + ceil_page_size n⟩) →
      s.map a n prot flags offset_bytes fsname device inode mapped_file_stat record_map emu_file
        local_addr monitored = some (s', km) →
      CoalescedView s'.view (PageMap.overlay s.view a (a + ceil_page_size n) fun p =>
          { prot := prot, flags := flags &&& KernelMapping.MAP_FLAGS_MASK, mapping_flags := 0,
            fsname := fsname, device := device, inode := inode,
            offset := if 0 < device then some (wrapping_add offset_bytes (p - a)) else none })) ∧
    (∀ (a n prot : Nat) (s' : AddressSpace), Aligned a → Aligned n → a + n < 2 ^ 64 →
      s.protect a n prot = some s' →
      ∃ r, a ≤ r ∧ r ≤ a + n ∧ (∀ q, a ≤ q → q < r → s.view q ≠ none) ∧
        (r < a + n → s.view r = none) ∧
        CoalescedView s'.view
          (PageMap.modify s.view (if a < r then s.protect_low a prot else a) r
            (·.set_prot (prot &&& (PROT_READ ||| PROT_WRITE ||| PROT_EXEC))))) ∧
    (∀ e ∈ s.mem, ∀ s' : AddressSpace, s.coalesce_around e.1 = some s' →
      CoalescedView s'.view s.view) := by
  refine ⟨?_, ?_, ?_, ?_⟩
  · intro a n s' ha hn hend hs
    have hceil : ceil_page_size n = n := ceil_page_size_of_aligned hn (by omega)
    obtain ⟨hinv, hview⟩ := unmap_aligned h ha (by rw [hceil]; exact hend) hs
    rw [view_funext hinv, view_funext h]
    funext p
    rw [hview p, hceil, PageMap.erase_apply]
  · intro a n prot flags offset_bytes fsname device inode mapped_file_stat record_map emu_file
      local_addr monitored s' km ha hn hend hoff hrec hs
    obtain ⟨hinv, hview⟩ := map_spec h ha hn hend hoff hrec hs
    refine hview.congr (fun p => (s'.view_eq hinv p).symm) fun p => ?_
    rw [PageMap.overlay_apply, s.view_eq h]
  · intro a n prot s' ha hn hend hs
    have hfloor : floor_page_size a = a := floor_page_size_of_aligned ha
    have hceil : ceil_page_size (wrapping_add a n) = a + n := by
      rw [wrapping_add_of_lt hend]
      exact ceil_page_size_of_aligned (by unfold Aligned page_size at *; omega) hend
    obtain ⟨hinv, r, hr₁, hr₂, hmapped, hstop, hview⟩ :=
      protect_spec h (by rw [hfloor, hceil]; omega) hs
    rw [hfloor, hceil] at *
    refine ⟨r, hr₁, hr₂, fun q h₁ h₂ => ?_, fun hr => ?_, ?_⟩
    · rw [s.view_eq h]; exact hmapped q h₁ h₂
    · rw [s.view_eq h]; exact hstop hr
    · refine hview.congr (fun p => (s'.view_eq hinv p).symm) fun p => ?_
      rw [PageMap.modify_apply, s.view_eq h]
      -- with no page protected, the region of `modify` is empty
      by_cases har : a < r
      · rw [if_pos har]
        split_ifs <;> first | rfl | omega
      · rw [if_neg har]
        split_ifs <;> first | rfl | omega
  · intro e he s' hs
    obtain ⟨mem', rfl, hinv', hview⟩ := coalesce_around_view h he hs
    exact hview.congr (fun p => (view_eq { s with mem := mem' } hinv' p).symm) fun p => (s.view_eq h p).symm

/-- Mapping a page of a file at 0x1000 into an empty address space shows that
page, with the mmap's offset. -/
theorem page_view_of_map_into_empty :
    ∃ s' km, (empty 0).map 0x1000 0x1000 PROT_READ MAP_PRIVATE 0x3000 "f" 1 7 none none none
        none none = some (s', km) ∧
      CoalescedView s'.view (PageMap.overlay (empty 0).view 0x1000 (0x1000 + 0x1000)
          fun p =>
            { prot := PROT_READ, flags := MAP_PRIVATE &&& KernelMapping.MAP_FLAGS_MASK,
              mapping_flags := 0, fsname := "f", device := 1, inode := 7,
              offset := if 0 < 1 then some (wrapping_add 0x3000 (p - 0x1000)) else none }) := by
  obtain ⟨⟨s', km⟩, hs⟩ := Option.isSome_iff_exists.1 (by decide : ((empty 0).map 0x1000 0x1000
    PROT_READ MAP_PRIVATE 0x3000 "f" 1 7 none none none none none).isSome)
  have hceil : ceil_page_size 0x1000 = 0x1000 := by decide
  have := (ops_refine_page_view (s := empty 0) MapInv.nil).2.1 0x1000 0x1000 PROT_READ MAP_PRIVATE
    0x3000 "f" 1 7 none none none none none s' km (by decide) (by decide) (by decide) (by decide)
    (by simp) hs
  rw [hceil] at this
  exact ⟨s', km, hs, this⟩

/-- The view with an offset for every page is not kept by `unmap`: unmapping the
first page of a two-page anonymous mapping at 0x1000 changes the offset of the
page at 0x2000, which it does not unmap, from 0x1000 to 0, because the piece
left keeps the offset of the whole. -/
theorem unmap_moves_literal_offset_of_anonymous_page :
    ((empty 0).run [.map 0x1000 0x2000 PROT_READ (MAP_PRIVATE ||| MAP_ANONYMOUS) 0 "" 0 0 none
        none none none none]).map
        (fun s => (decide (MapInv s.mem), literal_view s 0x2000,
          (s.unmap 0x1000 0x1000).map (literal_view · 0x2000))) =
      some (true,
        some
          { prot := PROT_READ, flags := 0x22, mapping_flags := 0, fsname := "", device := 0,
            inode := 0, offset := some 0x1000 },
        some (some
          { prot := PROT_READ, flags := 0x22, mapping_flags := 0, fsname := "", device := 0,
            inode := 0, offset := some 0 })) := by
  decide

end AddressSpace

end RdReplay
