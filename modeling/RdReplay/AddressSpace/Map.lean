/-
  AddressSpace/Map.lean --- `map`, `unmap`, `remap` and `brk` on the page view.

  Source: `session/address_space.rs`: `AddressSpace::map_and_coalesce`, `map`,
  `unmap`, `remap` and `brk`.

  THE SHAPE OF EVERY PROOF.  Each operation first unmaps the pages it is about
  to cover (`unmap_internal_spec`), and then inserts one new mapping into the
  hole this leaves and coalesces around its key (`map_and_coalesce_spec`).  The
  hole is what makes the insertion a splice of no entry (`MapInv.insert_splice`),
  and the key is stored, so coalescing keeps every page's view but its name,
  which may become that of a matching neighbour (`coalesce_around_view`).

  WHAT THE NEW MAPPING GIVES A PAGE.  `map` creates its mapping from the
  arguments, its flags masked with `MAP_FLAGS_MASK`.  `remap` moves the part of
  the mapping at `old_addr` that `subrange` cuts to the new range with
  `set_range`, which keeps the offset: a page of a real device at `new_addr + k`
  has the offset the page at `old_addr + k` had.
-/
import RdReplay.AddressSpace.Unmap
import RdReplay.AddressSpace.Coalesce

set_option autoImplicit false

namespace RdReplay

namespace AddressSpace

variable {s s' : AddressSpace}

/-! ## Inserting a mapping into a hole -/

/-- `map_and_coalesce` of a well-formed mapping into a hole keeps the map well
formed and shows the new mapping's pages over the hole, up to the names
coalescing changes. -/
theorem map_and_coalesce_spec {km recorded_km : KernelMapping}
    {emu_file mapped_file_stat local_addr monitored : Option Nat} (h : MapInv s.mem)
    (hk : EntryWf
      (km.mr, Mapping.new km recorded_km emu_file mapped_file_stat local_addr monitored))
    (hfree : ∀ p, km.mr.start_ ≤ p → p < km.mr.end_ → mem_view s.mem p = none)
    (hs : s.map_and_coalesce km recorded_km emu_file mapped_file_stat local_addr monitored =
      some s') :
    MapInv s'.mem ∧ CoalescedView (mem_view s'.mem) fun p =>
      if km.mr.start_ ≤ p ∧ p < km.mr.end_ then
        some ((Mapping.new km recorded_km emu_file mapped_file_stat local_addr monitored).attrs p)
      else mem_view s.mem p := by
  set N := Mapping.new km recorded_km emu_file mapped_file_stat local_addr monitored
  -- recording the monitored page changes nothing of the map
  obtain ⟨s₁, hmem₁, hs₁⟩ : ∃ s₁ : AddressSpace, s₁.mem = s.mem ∧
      ({ s₁ with mem := CmpList.insert MemoryRangeKey.cmp km.mr N s₁.mem } :
        AddressSpace).coalesce_around km.mr = some s' := by
    unfold map_and_coalesce at hs
    dsimp only at hs
    split at hs
    · exact ⟨{ s with monitored_mem := hashset_insert km.mr.start_ s.monitored_mem }, rfl, hs⟩
    · exact ⟨s, rfl, hs⟩
  rw [hmem₁] at hs₁
  have hsp := h.insert_splice hk hfree
  have he : (km.mr, N) ∈ CmpList.insert MemoryRangeKey.cmp km.mr N s.mem := by
    obtain ⟨X, seg, Y, -, hmem', -⟩ := hsp.split
    simp [hmem']
  obtain ⟨mem', rfl, hinv', hview⟩ :=
    coalesce_around_view (e := (km.mr, N)) (hsp.mapInv h) he hs₁
  refine ⟨hinv', hview.congr (fun _ => rfl) fun p => ?_⟩
  rw [hsp.mem_view_eq p]
  split_ifs with hp
  · rw [mem_view_cons, if_pos ((MemoryRange.contains_ptr_iff _ _).2 hp)]
  · rfl

/-! ## Unmapping an aligned region -/

theorem aligned_add_ceil_page_size {a : Nat} (ha : Aligned a) (n : Nat) :
    Aligned (a + ceil_page_size n) := by
  have := aligned_ceil_page_size n
  unfold Aligned page_size at *
  omega

/-- For an aligned start and a size that does not wrap, the region
`for_each_in_range` walks is the range itself. -/
theorem region_of_aligned {a n : Nat} (ha : Aligned a) (hn : a + ceil_page_size n < 2 ^ 64) :
    floor_page_size a = a ∧
      ceil_page_size (wrapping_add a (ceil_page_size n)) = a + ceil_page_size n :=
  ⟨floor_page_size_of_aligned ha, by
    rw [wrapping_add_of_lt hn, ceil_page_size_of_aligned (aligned_add_ceil_page_size ha n) hn]⟩

/-- `unmap_internal` of an aligned range that does not wrap unmaps exactly its pages. -/
theorem unmap_internal_aligned {a n : Nat} (hs : s.unmap_internal a (ceil_page_size n) = some s')
    (h : MapInv s.mem) (ha : Aligned a) (hn : a + ceil_page_size n < 2 ^ 64) :
    MapInv s'.mem ∧ ∀ p, mem_view s'.mem p =
      if a ≤ p ∧ p < a + ceil_page_size n then none else mem_view s.mem p := by
  obtain ⟨hinv, hview⟩ := unmap_internal_spec h hs
  obtain ⟨hfloor, hceil⟩ := region_of_aligned ha hn
  refine ⟨hinv, fun p => ?_⟩
  rw [hview p, hfloor, hceil]

/-! ## `map` -/

/-- What the mapping `map` creates gives the page at `p`. -/
theorem map_attrs {addr end_ prot flags offset_bytes device inode p : Nat} {fsname : String}
    {recorded_km : KernelMapping} {emu_file mapped_file_stat local_addr monitored : Option Nat} :
    (Mapping.new (KernelMapping.new_with_opts addr end_ fsname device inode prot
        (flags &&& KernelMapping.MAP_FLAGS_MASK) offset_bytes) recorded_km emu_file mapped_file_stat
        local_addr monitored).attrs p =
      { prot := prot, flags := flags &&& KernelMapping.MAP_FLAGS_MASK, mapping_flags := 0,
        fsname := fsname, device := device, inode := inode,
        offset := if 0 < device then some (wrapping_add offset_bytes (p - addr)) else none } := by
  simp [Mapping.attrs, Mapping.new, KernelMapping.new_with_opts, KernelMapping.is_real_device,
    KernelMapping.NO_DEVICE, MemoryRange.from_range]

/-- `map` of an aligned range that does not wrap keeps the map well formed and
shows the new mapping's pages over the range, up to the names coalescing
changes. -/
theorem map_spec {km : KernelMapping} {addr num_bytes prot flags offset_bytes : Nat}
    {fsname : String} {device inode : Nat} {mapped_file_stat : Option Nat}
    {record_map : Option KernelMapping} {emu_file local_addr monitored : Option Nat}
    (h : MapInv s.mem) (haddr : Aligned addr) (hn : 0 < ceil_page_size num_bytes)
    (hend : addr + ceil_page_size num_bytes < 2 ^ 64) (hoff : offset_bytes < 2 ^ 64)
    (hrec : ∀ r ∈ record_map, r.mr = ⟨addr, addr + ceil_page_size num_bytes⟩)
    (hs : s.map addr num_bytes prot flags offset_bytes fsname device inode mapped_file_stat
      record_map emu_file local_addr monitored = some (s', km)) :
    MapInv s'.mem ∧ CoalescedView (mem_view s'.mem) fun p =>
      if addr ≤ p ∧ p < addr + ceil_page_size num_bytes then
        some
          { prot := prot, flags := flags &&& KernelMapping.MAP_FLAGS_MASK, mapping_flags := 0,
            fsname := fsname, device := device, inode := inode,
            offset := if 0 < device then some (wrapping_add offset_bytes (p - addr)) else none }
      else mem_view s.mem p := by
  set n := ceil_page_size num_bytes
  set m := KernelMapping.new_with_opts addr (wrapping_add addr n) fsname device inode prot
    (flags &&& KernelMapping.MAP_FLAGS_MASK) offset_bytes with hm
  have hmr : m.mr = ⟨addr, addr + n⟩ := by simp [hm, wrapping_add_of_lt hend]
  unfold map at hs
  dsimp only at hs
  split at hs
  · cases hs
  · rename_i s₁ hs₁
    obtain ⟨s₂, hs₂, hpair⟩ := Option.map_eq_some_iff.1 hs
    obtain ⟨rfl, -⟩ := Prod.mk.inj hpair
    obtain ⟨hinv₁, hview₁⟩ := unmap_internal_aligned hs₁ h haddr hend
    -- recording the vDSO address changes nothing of the map
    obtain ⟨s₃, hmem₃, hs₃⟩ : ∃ s₃ : AddressSpace, s₃.mem = s₁.mem ∧
        s₃.map_and_coalesce m (record_map.getD m) emu_file mapped_file_stat local_addr monitored =
          some s₂ := by
      split at hs₂
      · exact ⟨{ s₁ with vdso_start_addr := addr }, rfl, hs₂⟩
      · exact ⟨s₁, rfl, hs₂⟩
    have hwf : EntryWf (m.mr, Mapping.new m (record_map.getD m) emu_file mapped_file_stat local_addr
        monitored) := by
      have hal : Aligned (addr + n) := aligned_add_ceil_page_size haddr num_bytes
      refine ⟨?_, ?_, ?_, ?_, rfl, ?_, ?_, hoff⟩
      all_goals simp only [hmr]
      · omega
      · exact haddr
      · exact hal
      · exact hend
      · cases hr : record_map with
        | none => exact hmr
        | some r => exact hrec r hr
      · exact KernelMapping.flags_masked_idem _
    have hfree : ∀ p, m.mr.start_ ≤ p → p < m.mr.end_ → mem_view s₃.mem p = none := by
      intro p h1 h2
      rw [hmem₃, hview₁ p, if_pos (by simpa [hmr] using And.intro h1 h2)]
    obtain ⟨hinv, hview⟩ := map_and_coalesce_spec (hmem₃ ▸ hinv₁) hwf hfree hs₃
    refine ⟨hinv, hview.congr (fun _ => rfl) fun p => ?_⟩
    rw [hmem₃, hview₁ p, hmr, map_attrs]
    split_ifs <;> rfl

/-! ## `unmap` and `brk` -/

/-- `unmap` keeps the map well formed and unmaps the pages of its region, which is
empty when the size rounds to nothing. -/
theorem unmap_spec {addr num_bytes : Nat} (h : MapInv s.mem)
    (hs : s.unmap addr num_bytes = some s') :
    MapInv s'.mem ∧ ∀ p, mem_view s'.mem p =
      if 0 < ceil_page_size num_bytes ∧ floor_page_size addr ≤ p ∧
          p < ceil_page_size (wrapping_add addr (ceil_page_size num_bytes)) then none
      else mem_view s.mem p := by
  unfold unmap at hs
  dsimp only at hs
  split at hs
  · rename_i h0
    cases hs
    exact ⟨h, fun p => by rw [if_neg (by omega)]⟩
  · rename_i h0
    obtain ⟨hinv, hview⟩ := unmap_internal_spec (by exact h) hs
    refine ⟨hinv, fun p => ?_⟩
    rw [hview p]
    split_ifs <;> first | rfl | omega

/-- `unmap` of an aligned range that does not wrap unmaps exactly its pages. -/
theorem unmap_aligned {a n : Nat} (h : MapInv s.mem) (ha : Aligned a)
    (hn : a + ceil_page_size n < 2 ^ 64) (hs : s.unmap a n = some s') :
    MapInv s'.mem ∧ ∀ p, mem_view s'.mem p =
      if a ≤ p ∧ p < a + ceil_page_size n then none else mem_view s.mem p := by
  obtain ⟨hinv, hview⟩ := unmap_spec h hs
  obtain ⟨hfloor, hceil⟩ := region_of_aligned ha hn
  refine ⟨hinv, fun p => ?_⟩
  rw [hview p, hfloor, hceil]
  split_ifs <;> first | rfl | omega

/-- What the heap pages `brk` maps look like. -/
def heap_attrs (prot : Nat) : PageAttrs :=
  { prot := prot, flags := (MAP_ANONYMOUS ||| MAP_PRIVATE) &&& KernelMapping.MAP_FLAGS_MASK,
    mapping_flags := 0, fsname := "[heap]", device := KernelMapping.NO_DEVICE,
    inode := KernelMapping.NO_INODE, offset := none }

/-- `brk` keeps the map well formed; it maps anonymous heap pages between the old
and the new break when the break grows, and unmaps them when it shrinks. -/
theorem brk_spec {addr prot : Nat} (h : MapInv s.mem) (hs : s.brk addr prot = some s') :
    MapInv s'.mem ∧ ∀ p, (mem_view s'.mem p).map PageAttrs.erase_name =
      (if ceil_page_size s.brk_end ≤ p ∧ p < ceil_page_size addr then some (heap_attrs prot)
      else if ceil_page_size addr ≤ p ∧ p < ceil_page_size s.brk_end then none
      else mem_view s.mem p).map PageAttrs.erase_name := by
  unfold brk at hs
  set old_brk := ceil_page_size s.brk_end
  set new_brk := ceil_page_size addr
  have hold : Aligned old_brk := aligned_ceil_page_size _
  have hnew : Aligned new_brk := aligned_ceil_page_size _
  have hold64 : old_brk < 2 ^ 64 := ceil_page_size_lt _
  have hnew64 : new_brk < 2 ^ 64 := ceil_page_size_lt _
  obtain ⟨s₁, hs₁, rfl⟩ := Option.map_eq_some_iff.1 hs
  split at hs₁
  · -- the break grows: map the pages from the old break to the new one
    rename_i hlt
    obtain ⟨⟨s₂, km⟩, hs₂, rfl⟩ := Option.map_eq_some_iff.1 hs₁
    have hsub : wrapping_sub new_brk old_brk = new_brk - old_brk := wrapping_sub_of_le hlt.le hnew64
    have hsize : ceil_page_size (wrapping_sub new_brk old_brk) = new_brk - old_brk := by
      rw [hsub]
      apply ceil_page_size_of_aligned _ (by omega)
      unfold Aligned page_size at *
      omega
    obtain ⟨hinv, hview⟩ := map_spec h hold (by rw [hsize]; omega) (by rw [hsize]; omega)
      (by decide) (by simp) hs₂
    refine ⟨hinv, fun p => ?_⟩
    rw [(hview p).1, hsize]
    simp only [heap_attrs, KernelMapping.NO_DEVICE, KernelMapping.NO_INODE, lt_self_iff_false,
      if_false]
    split_ifs <;> first | rfl | omega
  · -- the break shrinks: unmap the pages from the new break to the old one
    rename_i hle
    have hsub : wrapping_sub old_brk new_brk = old_brk - new_brk :=
      wrapping_sub_of_le (by omega) hold64
    have hsize : ceil_page_size (wrapping_sub old_brk new_brk) = old_brk - new_brk := by
      rw [hsub]
      apply ceil_page_size_of_aligned _ (by omega)
      unfold Aligned page_size at *
      omega
    obtain ⟨hinv, hview⟩ := unmap_aligned h hnew (by omega) hs₁
    refine ⟨hinv, fun p => ?_⟩
    rw [hview p, hsize]
    split_ifs <;> first | rfl | omega

/-! ## `remap` -/

/-- What the mapping `remap` moves from `x` to `[a, b)` gives the page at `p`: the
attributes the page at `x` had, with no `MappingFlags`, the offset moved on by
`p - a`. -/
theorem remap_attrs {m : Mapping} {x y a b p : Nat} {recorded_km : KernelMapping}
    {emu_file mapped_file_stat : Option Nat}
    (hmask : m.map.flags_ &&& KernelMapping.MAP_FLAGS_MASK = m.map.flags_)
    (hx : m.map.mr.start_ ≤ x) (hx64 : x < 2 ^ 64) :
    (Mapping.new ((m.map.subrange x y).set_range a b) recorded_km emu_file mapped_file_stat none
        none).attrs p =
      { m.attrs x with
        mapping_flags := 0
        offset := (m.attrs x).offset.map (fun o => wrapping_add o (p - a)) } := by
  have hoff : wrapping_add (wrapping_add m.map.offset (wrapping_sub x m.map.mr.start_)) (p - a) =
      wrapping_add (wrapping_add m.map.offset (x - m.map.mr.start_)) (p - a) := by
    rw [wrapping_sub_of_le hx hx64]
  simp only [Mapping.attrs, Mapping.new, KernelMapping.set_range_meta,
    KernelMapping.subrange_meta, KernelMapping.set_range_is_real_device,
    KernelMapping.subrange_is_real_device, KernelMapping.set_range_mr, hmask]
  cases m.map.is_real_device <;> simp [hoff]

/-- `remap` to an aligned range that does not wrap keeps the map well formed; the
pages of the new range show the pages from `old_addr` on of the mapping found
there, and the rest of the old region is unmapped. -/
theorem remap_spec {old_addr old_num_bytes new_addr new_num_bytes : Nat} (h : MapInv s.mem)
    (hnew : Aligned new_addr) (hnn : 0 < ceil_page_size new_num_bytes)
    (hne : new_addr + ceil_page_size new_num_bytes < 2 ^ 64)
    (hs : s.remap old_addr old_num_bytes new_addr new_num_bytes = some s') :
    ∃ e ∈ s.mem, e.1.contains_ptr old_addr = true ∧ MapInv s'.mem ∧
      ∀ p, (mem_view s'.mem p).map PageAttrs.erase_name =
        (if new_addr ≤ p ∧ p < new_addr + ceil_page_size new_num_bytes then
          some { e.2.attrs old_addr with
            mapping_flags := 0
            offset := (e.2.attrs old_addr).offset.map (fun o => wrapping_add o (p - new_addr)) }
        else if floor_page_size old_addr ≤ p ∧
            p < ceil_page_size (wrapping_add old_addr (ceil_page_size old_num_bytes)) then none
        else mem_view s.mem p).map PageAttrs.erase_name := by
  unfold remap at hs
  dsimp only at hs
  split at hs
  · cases hs
  rename_i m hm
  obtain ⟨e, he, hc, rfl⟩ := h.entry_of_mapping_of rfl hm
  have hwf := h.wf e he
  have hcp := (MemoryRange.contains_ptr_iff _ _).1 hc
  split at hs
  · cases hs
  rename_i s₁ hs₁
  obtain ⟨hinv₁, hview₁⟩ := unmap_internal_spec h hs₁
  split at hs
  · cases hs
  rename_i s₃ hs₃
  obtain ⟨hinv₃, hview₃⟩ := unmap_internal_aligned hs₃ hinv₁ hnew hne
  set ne := wrapping_add new_addr (ceil_page_size new_num_bytes)
  have hne_eq : ne = new_addr + ceil_page_size new_num_bytes := wrapping_add_of_lt hne
  set km := e.2.map.subrange old_addr
    (min e.2.map.mr.end_ (wrapping_add old_addr (ceil_page_size old_num_bytes)))
  have hkey :
      (km.set_range new_addr ne).mr = ⟨new_addr, new_addr + ceil_page_size new_num_bytes⟩ := by
    simp [hne_eq]
  have hwf' : EntryWf ((km.set_range new_addr ne).mr, Mapping.new (km.set_range new_addr ne)
      (e.2.recorded_map.set_range new_addr ne) e.2.emu_file e.2.mapped_file_stat none none) := by
    refine ⟨?_, ?_, ?_, ?_, rfl, ?_, ?_, ?_⟩
    all_goals simp only [hkey]
    · omega
    · exact hnew
    · exact aligned_add_ceil_page_size hnew _
    · exact hne
    · simp [hne_eq]
    · simp
    · exact wrapping_add_lt _ _
  have hfree : ∀ p, (km.set_range new_addr ne).mr.start_ ≤ p →
      p < (km.set_range new_addr ne).mr.end_ →
      mem_view s₃.mem p = none := by
    intro p h1 h2
    rw [hkey] at h1 h2
    rw [hview₃ p, if_pos ⟨h1, h2⟩]
  obtain ⟨hinv, hview⟩ := map_and_coalesce_spec hinv₃ hwf' hfree hs
  refine ⟨e, he, hc, hinv, fun p => ?_⟩
  have hstart : e.2.map.mr.start_ ≤ old_addr := by rw [hwf.map_mr]; exact hcp.1
  have hold64 : old_addr < 2 ^ 64 := by have := hwf.end_lt; omega
  rw [(hview p).1]
  dsimp only
  rw [hview₃ p, hview₁ p, hkey, remap_attrs hwf.masked hstart hold64]
  split_ifs <;> rfl

end AddressSpace

end RdReplay
