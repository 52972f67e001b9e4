/-
  AddressSpace/Unmap.lean --- `unmap_internal` on a well-formed map.

  ONE TURN.  `unmapper` replaces the entry it is handed by its parts below
  `last` and above the region's end (`unmapper_spec`), so on that entry's pages
  the view becomes `none` inside `[last, region_end)` and stays what it was
  outside.

  THE LOOP.  `UnmapInv` is the loop invariant: the map stays well formed, the
  pages of the region from its start up to `last_f_mapped_end` are unmapped, and
  every other page keeps the view it had when the loop started.  A turn keeps it
  (`UnmapInv.step`), because the pages a turn skips, between `last` and the key
  it finds, were unmapped already; when the loop stops, for whichever reason,
  the rest of the region is unmapped too (`unmap_internal_spec`).
-/
import RdReplay.AddressSpace.Splice

set_option autoImplicit false

namespace RdReplay

namespace AddressSpace


variable {st st' : AddressSpace × Unit} {range : MemoryRange} {v : Mapping} {last re : Nat}

/-- One call of `unmapper`: the entry handed over is replaced by its parts below
`last` and above `re`, so its pages in `[last, re)` become unmapped. -/
theorem unmapper_spec (h : MapInv st.1.mem) (he : (range, v) ∈ st.1.mem)
    (hlast : Aligned last) (hre : Aligned re) (hlr : last < re) (hle : last < range.end_)
    (hsr : range.start_ < re)
    (hf : unmapper range (MemoryRange.from_range last re) st = some st') :
    ∃ ps, Splice st.1.mem st'.1.mem range.start_ range.end_ ps ∧
      (∀ p, range.start_ ≤ p → p < range.end_ →
        mem_view ps p = if last ≤ p ∧ p < re then none else some (v.attrs p)) ∧
      (v.Plain → ∀ q ∈ ps, q.2.Plain) := by
  obtain ⟨X, Y, hmem, hX, hY, hget, hrem⟩ := h.cut he
  have hwf : EntryWf (range, v) := h.wf _ he
  have hmr : v.map.mr = range := hwf.map_mr
  have hend : range.end_ < 2 ^ 64 := hwf.end_lt
  have hne : range.start_ < range.end_ := hwf.nonempty
  unfold unmapper at hf
  simp only [hget, MemoryRange.from_range] at hf
  set U := (Mapping.new (v.map.subrange v.map.mr.start_ last)
    (v.recorded_map.subrange v.map.mr.start_ last) v.emu_file v.mapped_file_stat v.local_addr
    v.monitored_shared_memory).with_flags v.flags with hU
  set O := (Mapping.new (v.map.subrange re v.map.mr.end_) (v.recorded_map.subrange re v.map.mr.end_)
    v.emu_file v.mapped_file_stat
    (Option.map (fun a => wrapping_add a (wrapping_sub re v.map.mr.start_)) v.local_addr)
    none).with_flags v.flags with hO
  set S := if v.map.mr.start_ < last then (st.1.remove_from_map v.map.mr).add_to_map U
    else st.1.remove_from_map v.map.mr with hS
  -- the part below the region and the part above it
  have hUmr : U.map.mr = ⟨range.start_, last⟩ := by simp [hU, hmr]
  have hOmr : O.map.mr = ⟨re, range.end_⟩ := by simp [hO, hmr]
  have hUwf (hu : range.start_ < last) : EntryWf (U.map.mr, U) := by
    rw [hUmr]
    exact hwf.piece hUmr (by simp [hU, hmr]) (by simp [hU]) (by rw [hU]; exact wrapping_add_lt _ _)
      hu hwf.start_aligned hlast hle.le
  have hOwf (ho : re < range.end_) : EntryWf (O.map.mr, O) := by
    rw [hOmr]
    exact hwf.piece hOmr (by simp [hO, hmr]) (by simp [hO]) (by rw [hO]; exact wrapping_add_lt _ _)
      ho hre hwf.end_aligned le_rfl
  have hUattrs (p : Nat) (hp : range.start_ ≤ p) : U.attrs p = v.attrs p :=
    Mapping.attrs_of_subrange (x := v.map.mr.start_) (y := last) (by simp [hU]) (by simp [hU])
      hwf.masked le_rfl (by rw [hmr]; exact hp) (by rw [hmr]; omega)
  have hOattrs (p : Nat) (hp : re ≤ p) (hpe : p < range.end_) : O.attrs p = v.attrs p :=
    Mapping.attrs_of_subrange (x := re) (y := v.map.mr.end_) (by simp [hO]) (by simp [hO])
      hwf.masked (by rw [hmr]; omega) hp (by omega)
  -- the turn ends with the overflow part added to `S`, or with `S` itself
  have hst : st'.1 = if re < v.map.mr.end_ then S.add_to_map O else S := by
    by_cases hco : re < v.map.mr.end_
    · by_cases hmon : v.monitored_shared_memory.isSome = true
      · simp [hco, hmon] at hf
      · simp only [hco, hmon, if_true, Bool.false_eq_true, if_false, Option.some.injEq] at hf
        subst hf
        rw [if_pos hco]
        rfl
    · simp only [hco, if_false, Option.some.injEq] at hf
      subst hf
      rw [if_neg hco]
      rfl
  have h0 : (st.1.remove_from_map range).mem = X ++ Y := by rw [← hmr]; exact hrem
  rw [hmr] at hS hst
  have hmem' := add_to_map_if (add_to_map_if h0 (range.start_ < last) (m := U) fun hu =>
      ⟨by rw [hUmr]; exact hu, by rw [hUmr]; exact hX, fun b hb => by
        have := hY b hb; rw [hUmr]; dsimp only at this ⊢; omega⟩)
    (re < range.end_) (m := O) fun ho => ⟨by rw [hOmr]; exact ho, fun a ha => by
        rw [hOmr]
        rcases List.mem_append.1 ha with ha | ha
        · have := hX a ha; dsimp only at this ⊢; omega
        · split_ifs at ha
          · rw [List.mem_singleton.1 ha, hUmr]; dsimp only; omega
          · simp at ha,
      fun b hb => by rw [hOmr]; exact hY b hb⟩
  rw [← hS, ← hst] at hmem'
  -- each piece is the part below or the part above, under its condition
  have hpiece : ∀ q ∈ (if range.start_ < last then [(U.map.mr, U)] else []) ++
      (if re < range.end_ then [(O.map.mr, O)] else []),
      (range.start_ < last ∧ q = (U.map.mr, U)) ∨ (re < range.end_ ∧ q = (O.map.mr, O)) := by
    intro q hq
    simpa only [List.mem_append, List.mem_ite_nil_right, List.mem_singleton] using hq
  refine ⟨(if range.start_ < last then [(U.map.mr, U)] else []) ++
      (if re < range.end_ then [(O.map.mr, O)] else []),
    ⟨⟨X, [(range, v)], Y, by rw [hmem]; simp, by rw [hmem']; simp, fun a ha => (hX a ha).2, hY,
      by simp⟩, ?_, ?_, ?_⟩, ?_, ?_⟩
  · rw [List.pairwise_append]
    refine ⟨by split_ifs <;> simp, by split_ifs <;> simp, fun a ha b hb => ?_⟩
    split_ifs at ha hb <;> simp only [List.mem_singleton, List.not_mem_nil] at ha hb
    rw [ha, hb, hUmr, hOmr]
    dsimp only
    omega
  · intro q hq
    rcases hpiece q hq with ⟨-, rfl⟩ | ⟨-, rfl⟩
    · rw [hUmr]; dsimp only; omega
    · rw [hOmr]; dsimp only; omega
  · intro q hq
    rcases hpiece q hq with ⟨hu, rfl⟩ | ⟨ho, rfl⟩
    · exact hUwf hu
    · exact hOwf ho
  · intro p hp hpe
    rw [mem_view_append]
    by_cases hlow : p < last
    · -- below the region: the part below `last`, which gives the page its old attributes
      rw [if_neg (show ¬(last ≤ p ∧ p < re) by omega), if_pos (show range.start_ < last by omega),
        mem_view_cons, if_pos (by simp only [hUmr, MemoryRange.contains_ptr_iff]; omega),
        hUattrs p hp, Option.some_or]
    · have hU0 : mem_view (if range.start_ < last then [(U.map.mr, U)] else []) p = none := by
        split_ifs
        · rw [mem_view_cons, if_neg (by simp only [hUmr, MemoryRange.contains_ptr_iff]; omega)]; rfl
        · rfl
      rw [hU0, Option.none_or]
      by_cases hhigh : re ≤ p
      · -- above the region: the part above `re`
        rw [if_neg (show ¬(last ≤ p ∧ p < re) by omega), if_pos (show re < range.end_ by omega),
          mem_view_cons, if_pos (by simp only [hOmr, MemoryRange.contains_ptr_iff]; omega),
          hOattrs p hhigh hpe]
      · rw [if_pos (show last ≤ p ∧ p < re by omega)]
        split_ifs
        · rw [mem_view_cons, if_neg (by simp only [hOmr, MemoryRange.contains_ptr_iff]; omega)]; rfl
        · rfl
  · -- the pieces keep the resources of the entry they are cut from, or drop them
    rintro ⟨hemu, hlocal, hmon⟩ q hq
    rcases hpiece q hq with ⟨-, rfl⟩ | ⟨-, rfl⟩
    · simp [Mapping.Plain, hU, hemu, hlocal, hmon]
    · simp [Mapping.Plain, hO, hemu, hlocal]

/-- What the loop of `unmap_internal` keeps, from the state `s` it started in:
the map stays well formed, the pages of the region `[rs, re)` below `last` are
unmapped, and every other page keeps its view. -/
structure UnmapInv (s : AddressSpace) (rs re last : Nat) (st : AddressSpace × Unit) : Prop where
  inv : MapInv st.1.mem
  start_le : rs ≤ last
  aligned : Aligned last
  view : ∀ p, mem_view st.1.mem p = if rs ≤ p ∧ p < last ∧ p < re then none else mem_view s.mem p

variable {s : AddressSpace} {rs : Nat}

/-- One turn of the loop keeps `UnmapInv`, with `last` moved to the end of the key. -/
theorem UnmapInv.step (hre : Aligned re) (hP : UnmapInv s rs re last st)
    (ht : Turn .IterateDefault rs re last st range)
    (hf : unmapper range (MemoryRange.from_range last re) st = some st') :
    UnmapInv s rs re range.end_ st' := by
  obtain ⟨v, rest, hfound⟩ := ht.found
  obtain ⟨he, hle, -⟩ := hP.inv.lowerBound_point_cons hfound
  dsimp only at hle
  obtain ⟨ps, hsp, hview, -⟩ :=
    unmapper_spec hP.inv he hP.aligned hre ht.last_lt hle ht.start_lt hf
  have hwf := hP.inv.wf _ he
  have hrs := hP.start_le
  refine ⟨hsp.mapInv hP.inv, by omega, hwf.end_aligned, fun p => ?_⟩
  rw [hsp.mem_view_eq p]
  by_cases hp : range.start_ ≤ p ∧ p < range.end_
  · -- a page of the key: mapped before the turn, so not yet unmapped by the loop
    have hst : mem_view st.1.mem p = some (v.attrs p) :=
      hP.inv.mem_view_of_mem he ((MemoryRange.contains_ptr_iff _ _).2 hp)
    rw [hP.view p] at hst
    rw [if_pos hp, hview p hp.1 hp.2]
    split_ifs at hst ⊢ <;> first | omega | simp_all
  · rw [if_neg hp, hP.view p]
    by_cases hgap : last ≤ p ∧ p < range.start_
    · -- a page between `last` and the key: unmapped before the turn
      have hnone := hP.inv.gap_none hfound hgap.1 hgap.2
      rw [hP.view p] at hnone
      split_ifs at hnone ⊢ <;> first | omega | simp_all
    · have : p < last ∨ range.end_ ≤ p := by omega
      split_ifs <;> first | rfl | omega

/-- `unmap_internal` on a well-formed map keeps it well formed and unmaps exactly
the pages of its region. -/
theorem unmap_internal_spec {s' : AddressSpace} {addr num_bytes : Nat} (h : MapInv s.mem)
    (hs : s.unmap_internal addr num_bytes = some s') :
    MapInv s'.mem ∧ ∀ p, mem_view s'.mem p =
      if floor_page_size addr ≤ p ∧ p < ceil_page_size (wrapping_add addr num_bytes) then none
      else mem_view s.mem p := by
  unfold unmap_internal for_each_in_range at hs
  obtain ⟨⟨s₁, u⟩, hloop, rfl⟩ := Option.map_eq_some_iff.1 hs
  have hre : Aligned (ceil_page_size (wrapping_add addr num_bytes)) := aligned_ceil_page_size _
  have h0 : UnmapInv s (floor_page_size addr) (ceil_page_size (wrapping_add addr num_bytes))
      (floor_page_size addr) (s, ()) :=
    ⟨h, le_rfl, aligned_floor_page_size _, fun p => by rw [if_neg (by omega)]⟩
  obtain ⟨last, hP, hstop⟩ := for_each_in_range_loop_induction _
    (fun _ _ _ _ hP ht hf => hP.step hre ht hf) _ _ _ _ h0 hloop
  refine ⟨hP.inv, fun p => ?_⟩
  -- why the loop stopped: the pages of the region from `last` on are unmapped
  have hrest : ∀ p, last ≤ p → p < ceil_page_size (wrapping_add addr num_bytes) →
      mem_view s₁.mem p = none := by
    rcases hstop with hend | hnil | ⟨range, v, rest, hfound, hpast | ⟨hcont, -⟩⟩
    · intro p h1 h2; omega
    · intro p h1 _; exact hP.inv.above_none hnil h1
    · intro p h1 h2; exact hP.inv.gap_none hfound h1 (by omega)
    · exact absurd hcont (by decide)
  have hview := hP.view p
  have hrs := hP.start_le
  by_cases hlp : last ≤ p ∧ p < ceil_page_size (wrapping_add addr num_bytes)
  · have hnone := hrest p hlp.1 hlp.2
    rw [hview] at hnone ⊢
    split_ifs at hnone ⊢ <;> omega
  · rw [hview]
    split_ifs <;> first | rfl | omega

end AddressSpace
end RdReplay
