/-
  AddressSpace/Protect.lean --- `protect` on a well-formed map.

  ONE TURN.  `protector` replaces the entry it is handed by the part below the
  change, the part changed and the part above the region; the change starts at
  `last`, or, for `PROT_GROWSDOWN`, at the start of the entry (`protector_spec`).

  THE LOOP.  The iteration is contiguous, so every key a turn finds starts at or
  below `last`: on the first turn it contains the region's start, and on every
  later one `last` is a boundary between entries (`ProtectInv.boundary`) and the
  key starts there.  `ProtectInv` says what the loop keeps: the pages protected
  so far are those from `protect_low` up to `last`, each mapped before, and all
  other pages keep their view.  When the loop stops, the end `r` of the run is
  the first unmapped page of the region, or its end (`protect_loop_spec`); the
  final `coalesce_around` only renames pages, along matching names
  (`protect_spec`).
-/
import RdReplay.AddressSpace.Coalesce

set_option autoImplicit false

namespace RdReplay

namespace AddressSpace

/-- Where `protect` starts changing pages: at its region's start `addr`, or, for
`PROT_GROWSDOWN`, at the start of the mapping containing it. -/
def protect_low (s : AddressSpace) (addr prot : Nat) : Nat :=
  match s.mapping_of addr with
  | some m =>
    if m.map.mr.start_ < addr ∧ flags_contains prot PROT_GROWSDOWN = true then m.map.mr.start_
    else addr
  | none => addr

theorem protect_low_le (s : AddressSpace) (addr prot : Nat) : protect_low s addr prot ≤ addr := by
  unfold protect_low
  split
  · split_ifs with h
    · exact h.1.le
    · exact le_rfl
  · exact le_rfl

variable {range : MemoryRange} {v : Mapping} {last re : Nat}

/-- One call of `protector` on an entry starting at or below `last`: the pages of
the entry from the start of the change up to `re` get the new protection, the
others keep their attributes, and the piece changed is stored under the key the
closure records. -/
theorem protector_spec {st st' : AddressSpace × Option MemoryRange} {prot : Nat}
    (h : MapInv st.1.mem) (he : (range, v) ∈ st.1.mem)
    (hlast : Aligned last) (hre : Aligned re) (hlr : last < re) (hle : last < range.end_)
    (hsl : range.start_ ≤ last)
    (hf : protector prot range (MemoryRange.from_range last re) st = some st') :
    ∃ ps, Splice st.1.mem st'.1.mem range.start_ range.end_ ps ∧
      (∀ p, range.start_ ≤ p → p < range.end_ →
        mem_view ps p =
          if (if range.start_ < last ∧ flags_contains prot PROT_GROWSDOWN = true then range.start_
              else last) ≤ p ∧ p < re then
            some ((v.attrs p).set_prot (prot &&& (PROT_READ ||| PROT_WRITE ||| PROT_EXEC)))
          else some (v.attrs p)) ∧
      (v.Plain → ∀ q ∈ ps, q.2.Plain) ∧
      ∃ ov ∈ st'.1.mem, st'.2 = some ov.1 := by
  obtain ⟨X, Y, hmem, hX, hY, hget, hrem⟩ := h.cut he
  have hwf : EntryWf (range, v) := h.wf _ he
  have hmr : v.map.mr = range := hwf.map_mr
  have hrec : v.recorded_map.mr = range := hwf.recorded_mr
  have hend : range.end_ < 2 ^ 64 := hwf.end_lt
  have hne : range.start_ < range.end_ := hwf.nonempty
  unfold protector at hf
  simp only [hget, MemoryRange.from_range] at hf
  set ns := if v.map.mr.start_ < last ∧ flags_contains prot PROT_GROWSDOWN = true then v.map.mr.start_
    else last with hns
  set np := prot &&& (PROT_READ ||| PROT_WRITE ||| PROT_EXEC) with hnp
  set U := (Mapping.new (v.map.subrange v.map.mr.start_ last)
    (v.recorded_map.subrange v.recorded_map.mr.start_ last) v.emu_file v.mapped_file_stat
    v.local_addr v.monitored_shared_memory).with_flags v.flags with hU
  set V := (Mapping.new ((v.map.subrange ns (min re v.map.mr.end_)).set_prot np)
    ((v.recorded_map.subrange ns (min re v.map.mr.end_)).set_prot np) v.emu_file
    v.mapped_file_stat (Option.map (fun a => wrapping_add a (wrapping_sub ns v.map.mr.start_))
      v.local_addr) none).with_flags v.flags with hV
  set O := (Mapping.new (v.map.subrange re v.map.mr.end_) (v.recorded_map.subrange re v.map.mr.end_)
    v.emu_file v.mapped_file_stat
    (Option.map (fun a => wrapping_add a (wrapping_sub re v.map.mr.start_)) v.local_addr)
    none).with_flags v.flags with hO
  set S := if v.map.mr.start_ < ns then (st.1.remove_from_map v.map.mr).add_to_map U
    else st.1.remove_from_map v.map.mr with hS
  -- the turn ends with the overlap, and the overflow part if any, added to `S`
  have hst : st' = (if re < v.map.mr.end_ then (S.add_to_map V).add_to_map O else S.add_to_map V,
      some V.map.mr) := by
    by_cases hmon : v.monitored_shared_memory.isSome = true
    · simp [hmon] at hf
    · by_cases hco : re < v.map.mr.end_
      · simp only [hco, hmon, if_true, Bool.false_eq_true, if_false, Option.some.injEq] at hf
        subst hf
        rw [if_pos hco]
        rfl
      · simp only [hco, hmon, Bool.false_eq_true, if_false, Option.some.injEq] at hf
        subst hf
        rw [if_neg hco]
        rfl
  rw [hmr] at hns hS hst
  have hns_le : ns ≤ last := by rw [hns]; split_ifs <;> omega
  have hns_ge : range.start_ ≤ ns := by rw [hns]; split_ifs <;> omega
  -- the part below is cut only when the change starts at `last`
  have hcu : range.start_ < ns → ns = last := by
    rw [hns]; split_ifs <;> intro h <;> omega
  have hns_al : Aligned ns := by rw [hns]; split_ifs; exacts [hwf.start_aligned, hlast]
  have hmin_al : Aligned (min re range.end_) := by
    rcases Nat.le_total re range.end_ with hm | hm
    · rw [Nat.min_eq_left hm]; exact hre
    · rw [Nat.min_eq_right hm]; exact hwf.end_aligned
  have hUmr : U.map.mr = ⟨range.start_, last⟩ := by simp [hU, hmr]
  have hVmr : V.map.mr = ⟨ns, min re range.end_⟩ := by simp [hV, hmr]
  have hOmr : O.map.mr = ⟨re, range.end_⟩ := by simp [hO, hmr]
  have hUwf (hu : range.start_ < last) : EntryWf (U.map.mr, U) := by
    rw [hUmr]
    exact hwf.piece hUmr (by simp [hU, hrec]) (by simp [hU]) (by rw [hU]; exact wrapping_add_lt _ _)
      hu hwf.start_aligned hlast hle.le
  have hVwf : EntryWf (V.map.mr, V) := by
    rw [hVmr]
    exact hwf.piece hVmr (by simp [hV, hmr]) (by simp [hV]) (by rw [hV]; exact wrapping_add_lt _ _)
      (by omega) hns_al hmin_al (Nat.min_le_right _ _)
  have hOwf (ho : re < range.end_) : EntryWf (O.map.mr, O) := by
    rw [hOmr]
    exact hwf.piece hOmr (by simp [hO, hmr]) (by simp [hO]) (by rw [hO]; exact wrapping_add_lt _ _)
      ho hre hwf.end_aligned le_rfl
  have hUattrs (p : Nat) (hp : range.start_ ≤ p) : U.attrs p = v.attrs p :=
    Mapping.attrs_of_subrange (x := v.map.mr.start_) (y := last) (by simp [hU]) (by simp [hU])
      hwf.masked le_rfl (by rw [hmr]; exact hp) (by rw [hmr]; omega)
  have hVattrs (p : Nat) (hp : ns ≤ p) : V.attrs p = (v.attrs p).set_prot np :=
    Mapping.attrs_of_subrange_set_prot (x := ns) (y := min re v.map.mr.end_) (by simp [hV])
      (by simp [hV]) hwf.masked (by rw [hmr]; exact hns_ge) hp (by omega)
  have hOattrs (p : Nat) (hp : re ≤ p) (hpe : p < range.end_) : O.attrs p = v.attrs p :=
    Mapping.attrs_of_subrange (x := re) (y := v.map.mr.end_) (by simp [hO]) (by simp [hO])
      hwf.masked (by rw [hmr]; omega) hp (by omega)
  -- the map after the turn: the pieces, lowest first, between the two parts
  have h0 : (st.1.remove_from_map range).mem = X ++ Y := by rw [← hmr]; exact hrem
  have h1 := add_to_map_if h0 (range.start_ < ns) (m := U) fun hu =>
    ⟨by rw [hUmr]; dsimp only; omega, by rw [hUmr]; exact hX, fun b hb => by
      have := hY b hb; rw [hUmr]; dsimp only at this ⊢; omega⟩
  rw [← hS] at h1
  have h2 := add_to_map_between h1 (m := V) (by rw [hVmr]; dsimp only; omega)
    (fun a ha => by
      rw [hVmr]
      rcases List.mem_append.1 ha with ha | ha
      · have := hX a ha; dsimp only at this ⊢; omega
      · split_ifs at ha with hu
        · rw [List.mem_singleton.1 ha, hUmr]; have := hcu hu; dsimp only; omega
        · simp at ha)
    (fun b hb => by have := hY b hb; rw [hVmr]; dsimp only at this ⊢; omega)
  rw [List.append_cons _ (V.map.mr, V) Y] at h2
  have h3 := add_to_map_if h2 (re < range.end_) (m := O) fun ho =>
    ⟨by rw [hOmr]; exact ho, fun a ha => by
      rw [hOmr]
      rcases List.mem_append.1 ha with ha | ha
      · rcases List.mem_append.1 ha with ha | ha
        · have := hX a ha; dsimp only at this ⊢; omega
        · split_ifs at ha
          · rw [List.mem_singleton.1 ha, hUmr]; dsimp only; omega
          · simp at ha
      · rw [List.mem_singleton.1 ha, hVmr]; dsimp only; omega,
      fun b hb => by rw [hOmr]; exact hY b hb⟩
  have hmem' : st'.1.mem = X ++ ((if range.start_ < ns then [(U.map.mr, U)] else []) ++
      [(V.map.mr, V)] ++ (if re < range.end_ then [(O.map.mr, O)] else [])) ++ Y := by
    rw [hst]
    dsimp only
    rw [h3]
    simp only [List.append_assoc]
  -- each piece is the part below, the overlap or the part above, under its condition
  have hpiece : ∀ q ∈ (if range.start_ < ns then [(U.map.mr, U)] else []) ++ [(V.map.mr, V)] ++
      (if re < range.end_ then [(O.map.mr, O)] else []),
      (range.start_ < ns ∧ q = (U.map.mr, U)) ∨ q = (V.map.mr, V) ∨
        (re < range.end_ ∧ q = (O.map.mr, O)) := by
    intro q hq
    simpa only [List.mem_append, List.mem_ite_nil_right, List.mem_singleton, or_assoc] using hq
  have hUnone (p : Nat) (hp : ns ≤ p) :
      mem_view (if range.start_ < ns then [(U.map.mr, U)] else []) p = none := by
    split_ifs with hu
    · rw [mem_view_cons, if_neg (by simp only [hUmr, MemoryRange.contains_ptr_iff]; have := hcu hu; omega)]
      rfl
    · rfl
  refine ⟨_, ⟨⟨X, [(range, v)], Y, by rw [hmem]; simp, hmem', fun a ha => (hX a ha).2, hY,
      by simp⟩, ?_, ?_, ?_⟩, ?_, ?_, (V.map.mr, V), by rw [hmem']; simp, by rw [hst]⟩
  · split_ifs with hu ho <;> simp [hUmr, hVmr, hOmr] <;> omega
  · intro q hq
    rcases hpiece q hq with ⟨hu, rfl⟩ | rfl | ⟨ho, rfl⟩
    · rw [hUmr]
      dsimp only
      omega
    · rw [hVmr]
      dsimp only
      omega
    · rw [hOmr]
      dsimp only
      omega
  · intro q hq
    rcases hpiece q hq with ⟨hu, rfl⟩ | rfl | ⟨ho, rfl⟩
    · exact hUwf (by have := hcu hu; omega)
    · exact hVwf
    · exact hOwf ho
  · intro p hp hpe
    rw [← hns, mem_view_append, mem_view_append]
    by_cases hlow : p < ns
    · -- below the change: the part below, cut since the change starts at `last`
      have hu : range.start_ < ns := by omega
      rw [if_neg (show ¬(ns ≤ p ∧ p < re) by omega), if_pos hu, mem_view_cons,
        if_pos (by simp only [hUmr, MemoryRange.contains_ptr_iff]; have := hcu hu; omega),
        hUattrs p hp, Option.some_or, Option.some_or]
    · rw [hUnone p (by omega), Option.none_or]
      by_cases hhigh : re ≤ p
      · -- above the region: the part above `re`
        rw [if_neg (show ¬(ns ≤ p ∧ p < re) by omega), mem_view_cons,
          if_neg (by simp only [hVmr, MemoryRange.contains_ptr_iff]; omega), mem_view_nil,
          Option.none_or, if_pos (show re < range.end_ by omega), mem_view_cons,
          if_pos (by simp only [hOmr, MemoryRange.contains_ptr_iff]; omega), hOattrs p hhigh hpe]
      · -- the change itself
        rw [if_pos (show ns ≤ p ∧ p < re by omega), mem_view_cons,
          if_pos (by simp only [hVmr, MemoryRange.contains_ptr_iff]; omega), hVattrs p (by omega),
          Option.some_or]
  · -- the pieces keep the resources of the entry they are cut from, or drop them
    rintro ⟨hemu, hlocal, hmon⟩ q hq
    rcases hpiece q hq with ⟨-, rfl⟩ | rfl | ⟨-, rfl⟩
    · simp [Mapping.Plain, hU, hemu, hlocal, hmon]
    · simp [Mapping.Plain, hV, hemu, hlocal]
    · simp [Mapping.Plain, hO, hemu, hlocal]

/-- What the loop of `protect` keeps, from the state `s` it started in, over the
region `[rs, re)`, with `lo` where the change starts and `np` the protection set. -/
structure ProtectInv (s : AddressSpace) (rs re lo np last : Nat)
    (st : AddressSpace × Option MemoryRange) : Prop where
  inv : MapInv st.1.mem
  start_le : rs ≤ last
  aligned : Aligned last
  /-- Before the first turn nothing has changed. -/
  fresh : st.2 = none → st.1 = s ∧ last = rs
  /-- After it, the loop has moved into the region. -/
  started : st.2.isSome → rs < last ∧ rs < re
  /-- After it, `last` is where one entry ends and the next may start. -/
  boundary : st.2.isSome → ∀ e ∈ st.1.mem, e.1.end_ ≤ last ∨ last ≤ e.1.start_
  /-- The key recorded is that of an entry of the map. -/
  key : ∀ k, st.2 = some k → ∃ ov ∈ st.1.mem, ov.1 = k
  /-- The pages of the region passed so far were mapped. -/
  mapped : ∀ q, rs ≤ q → q < last → q < re → mem_view s.mem q ≠ none
  view : ∀ p, mem_view st.1.mem p =
    if st.2.isSome ∧ lo ≤ p ∧ p < last ∧ p < re then (mem_view s.mem p).map (·.set_prot np)
    else mem_view s.mem p

variable {s : AddressSpace} {rs lo prot : Nat} {st st' : AddressSpace × Option MemoryRange}

/-- One turn of the loop keeps `ProtectInv`, with `last` moved to the end of the key. -/
theorem ProtectInv.step (hre : Aligned re) (hlo : lo = protect_low s rs prot)
    (hP : ProtectInv s rs re lo (prot &&& (PROT_READ ||| PROT_WRITE ||| PROT_EXEC)) last st)
    (ht : Turn .IterateContiguous rs re last st range)
    (hf : protector prot range (MemoryRange.from_range last re) st = some st') :
    ProtectInv s rs re lo (prot &&& (PROT_READ ||| PROT_WRITE ||| PROT_EXEC)) range.end_ st' := by
  obtain ⟨v, rest, hfound⟩ := ht.found
  obtain ⟨he, hle, -⟩ := hP.inv.lowerBound_point_cons hfound
  dsimp only at hle
  have hrs := hP.start_le
  have hlr := ht.last_lt
  have hwf := hP.inv.wf _ he
  -- the key starts at or below `last`: it contains the region's start on the first
  -- turn, and starts at `last` on every later one
  have hkey : (st.2 = none ∧ last = rs ∨ st.2.isSome ∧ range.start_ = last) := by
    cases h2 : st.2 with
    | none => exact .inl ⟨rfl, (hP.fresh h2).2⟩
    | some k =>
      refine .inr ⟨rfl, ?_⟩
      have hb := hP.boundary (by simp [h2]) _ he
      dsimp only at hb
      rcases ht.contiguous rfl with hc | hc <;> omega
  have hsl : range.start_ ≤ last := by
    rcases hkey with ⟨-, hl⟩ | ⟨-, hl⟩
    · rcases ht.contiguous rfl with hc | hc <;> omega
    · omega
  obtain ⟨ps, hsp, hview, -, ov, hov, hst2⟩ :=
    protector_spec hP.inv he hP.aligned hre hlr hle hsl hf
  have hmr : v.map.mr = range := hwf.map_mr
  have hlo_le : lo ≤ rs := hlo ▸ protect_low_le s rs prot
  -- the change starts at `lo` on the first turn and at `last` on the later ones
  have hns : (if range.start_ < last ∧ flags_contains prot PROT_GROWSDOWN = true then range.start_
      else last) = if st.2.isSome then last else lo := by
    rcases hkey with ⟨h2, hl⟩ | ⟨h2, hl⟩
    · have hmap : s.mapping_of rs = some v :=
        hP.inv.mapping_of_mem s (by rw [(hP.fresh h2).1]) he
          ((MemoryRange.contains_ptr_iff _ _).2 ⟨by dsimp only; omega, by dsimp only; omega⟩)
      rw [h2, hlo, hl]
      simp only [protect_low, hmap, hmr, Option.isSome_none, Bool.false_eq_true, if_false]
    · rw [if_neg (by omega), if_pos h2]
  have hst_view : ∀ p, range.start_ ≤ p → p < range.end_ → mem_view st.1.mem p = some (v.attrs p) :=
    fun p h1 h2 => hP.inv.mem_view_of_mem he ((MemoryRange.contains_ptr_iff _ _).2 ⟨h1, h2⟩)
  refine ⟨hsp.mapInv hP.inv, by omega, hwf.end_aligned, fun h => by simp [hst2] at h,
    fun _ => ⟨by omega, by omega⟩, fun _ e he' => ?_, fun k hk => ⟨ov, hov, ?_⟩, ?_, fun p => ?_⟩
  · have := hwf.nonempty
    rcases hsp.mem_cases he' with h | h | h <;> dsimp only at this <;> omega
  · rw [hst2] at hk
    exact Option.some.inj hk
  · -- the pages of the key from `last` on were mapped before the loop
    intro q hq1 hq2 hq3
    by_cases hql : q < last
    · exact hP.mapped q hq1 hql hq3
    · have := hst_view q (by omega) hq2
      rw [hP.view q, if_neg (by omega)] at this
      simp [this]
  · rw [hst2, hsp.mem_view_eq p]
    simp only [Option.isSome_some, true_and]
    by_cases hp : range.start_ ≤ p ∧ p < range.end_
    · have hst := hst_view p hp.1 hp.2
      rw [hP.view p] at hst
      rw [if_pos hp, hview p hp.1 hp.2, hns]
      rcases hkey with ⟨h2, hl⟩ | ⟨h2, hl⟩
      · simp only [h2, Option.isSome_none, Bool.false_eq_true, false_and, if_false] at hst ⊢
        rw [hst]
        split_ifs <;> first | rfl | omega
      · simp only [h2, true_and, if_true] at hst ⊢
        rw [if_neg (by omega)] at hst
        rw [hst]
        split_ifs <;> first | rfl | omega
    · rw [if_neg hp, hP.view p]
      rcases hkey with ⟨h2, hl⟩ | ⟨h2, hl⟩
      · have hlo_ge : range.start_ ≤ lo := by
          have := hns
          rw [h2] at this
          simp only [Option.isSome_none, Bool.false_eq_true, if_false] at this
          rw [← this]
          split_ifs <;> omega
        simp only [h2, Option.isSome_none, Bool.false_eq_true, false_and, if_false]
        rw [if_neg (by omega)]
      · simp only [h2, true_and]
        split_ifs <;> first | rfl | omega

/-- The loop of `protect` on a well-formed map.  `r` is where the run of mapped
pages from the region's start ends: at the first unmapped page, or at the
region's end.  The pages from `protect_low` up to `r` get the new protection,
if the loop made a turn at all, and every other page keeps its view. -/
theorem protect_loop_spec {addr num_bytes : Nat} (h : MapInv s.mem)
    (hrr : floor_page_size addr ≤ ceil_page_size (wrapping_add addr num_bytes))
    (hloop : for_each_in_range addr num_bytes (protector prot) .IterateContiguous (s, none) =
      some st') :
    MapInv st'.1.mem ∧ (∀ k, st'.2 = some k → ∃ ov ∈ st'.1.mem, ov.1 = k) ∧
      (st'.2 = none → st'.1 = s) ∧
      ∃ r, floor_page_size addr ≤ r ∧ r ≤ ceil_page_size (wrapping_add addr num_bytes) ∧
        (∀ q, floor_page_size addr ≤ q → q < r → mem_view s.mem q ≠ none) ∧
        (r < ceil_page_size (wrapping_add addr num_bytes) → mem_view s.mem r = none) ∧
        ∀ p, mem_view st'.1.mem p =
          if floor_page_size addr < r ∧ protect_low s (floor_page_size addr) prot ≤ p ∧ p < r then
            (mem_view s.mem p).map (·.set_prot (prot &&& (PROT_READ ||| PROT_WRITE ||| PROT_EXEC)))
          else mem_view s.mem p := by
  unfold for_each_in_range at hloop
  have hre : Aligned (ceil_page_size (wrapping_add addr num_bytes)) := aligned_ceil_page_size _
  have h0 : ProtectInv s (floor_page_size addr) (ceil_page_size (wrapping_add addr num_bytes))
      (protect_low s (floor_page_size addr) prot) (prot &&& (PROT_READ ||| PROT_WRITE ||| PROT_EXEC))
      (floor_page_size addr) (s, none) :=
    ⟨h, le_rfl, aligned_floor_page_size _, fun _ => ⟨rfl, rfl⟩, fun h => by simp at h,
      fun h => by simp at h, fun k hk => by simp at hk, fun q h1 h2 _ => by omega,
      fun p => by simp⟩
  obtain ⟨last, hP, hstop⟩ := for_each_in_range_loop_induction _
    (fun _ _ _ _ hP ht hf => hP.step hre rfl ht hf) _ _ _ _ h0 hloop
  -- why the loop stopped: the page at `last`, if inside the region, is unmapped
  have hhole : last < ceil_page_size (wrapping_add addr num_bytes) → mem_view s.mem last = none := by
    intro hlr
    have hnone : mem_view st'.1.mem last = none := by
      rcases hstop with hend | hnil | ⟨range, v, rest, hfound, hpast | ⟨-, hcont⟩⟩
      · omega
      · exact hP.inv.above_none hnil le_rfl
      · exact hP.inv.gap_none hfound le_rfl (by omega)
      · -- contiguous iteration met a key starting above `last`
        obtain ⟨he, hle, -⟩ := hP.inv.lowerBound_point_cons hfound
        have hlt : last < range.start_ := by
          cases h2 : st'.2 with
          | none => have := (hP.fresh h2).2; omega
          | some k =>
            have hb := hP.boundary (by simp [h2]) _ he
            dsimp only at hb hle
            omega
        exact hP.inv.gap_none hfound le_rfl hlt
    rw [hP.view last, if_neg (by omega)] at hnone
    exact hnone
  refine ⟨hP.inv, hP.key, fun h2 => (hP.fresh h2).1, ?_⟩
  cases h2 : st'.2 with
  | none =>
    obtain ⟨hs1, hl⟩ := hP.fresh h2
    refine ⟨floor_page_size addr, le_rfl, hrr, fun q h1 h2 => by omega, fun hlt => hl ▸ hhole (by omega),
      fun p => ?_⟩
    rw [hs1, if_neg (by omega)]
  | some k =>
    obtain ⟨hl, hr⟩ := hP.started (by simp [h2])
    refine ⟨min last (ceil_page_size (wrapping_add addr num_bytes)), by omega, by omega,
      fun q h1 h3 => hP.mapped q h1 (by omega) (by omega), fun hlt => ?_, fun p => ?_⟩
    · rw [Nat.min_eq_left (by omega)]
      exact hhole (by omega)
    · rw [hP.view p, h2]
      simp only [Option.isSome_some, true_and]
      split_ifs <;> first | rfl | omega

/-- `protect` on a well-formed map keeps it well formed; the pages from
`protect_low` to the end `r` of the run of mapped pages from the region's start
get the new protection, and every page keeps the rest of its view, up to the
names coalescing changes. -/
theorem protect_spec {s' : AddressSpace} {addr num_bytes : Nat} (h : MapInv s.mem)
    (hrr : floor_page_size addr ≤ ceil_page_size (wrapping_add addr num_bytes))
    (hs : s.protect addr num_bytes prot = some s') :
    MapInv s'.mem ∧
      ∃ r, floor_page_size addr ≤ r ∧ r ≤ ceil_page_size (wrapping_add addr num_bytes) ∧
        (∀ q, floor_page_size addr ≤ q → q < r → mem_view s.mem q ≠ none) ∧
        (r < ceil_page_size (wrapping_add addr num_bytes) → mem_view s.mem r = none) ∧
        CoalescedView (mem_view s'.mem) fun p =>
          if floor_page_size addr < r ∧ protect_low s (floor_page_size addr) prot ≤ p ∧ p < r then
            (mem_view s.mem p).map (·.set_prot (prot &&& (PROT_READ ||| PROT_WRITE ||| PROT_EXEC)))
          else mem_view s.mem p := by
  unfold protect at hs
  cases hloop : for_each_in_range addr num_bytes (protector prot) .IterateContiguous (s, none) with
  | none => rw [hloop] at hs; cases hs
  | some st₁ =>
    obtain ⟨s₁, k⟩ := st₁
    obtain ⟨hinv, hkey, hfresh, r, h1, h2, h3, h4, hview⟩ := protect_loop_spec h hrr hloop
    rw [hloop] at hs
    cases k with
    | none =>
      -- no turn: nothing changed
      obtain rfl : s₁ = s' := Option.some.inj hs
      exact ⟨hinv, r, h1, h2, h3, h4, (CoalescedView.refl _).congr (fun _ => rfl) hview⟩
    | some k =>
      -- the final merge around the last piece changed only renames pages
      obtain ⟨ov, hov, rfl⟩ := hkey k rfl
      obtain ⟨mem', rfl, hinv', hview'⟩ := coalesce_around_view hinv hov hs
      exact ⟨hinv', r, h1, h2, h3, h4, hview'.congr (fun _ => rfl) hview⟩

/-- `protect` of a region that wraps the address space does nothing: its loop
stops before the first turn. -/
theorem protect_of_wrap {s' : AddressSpace} {addr num_bytes : Nat}
    (hrr : ¬floor_page_size addr ≤ ceil_page_size (wrapping_add addr num_bytes))
    (hs : s.protect addr num_bytes prot = some s') : s' = s := by
  have hloop : for_each_in_range addr num_bytes (protector prot) .IterateContiguous (s, none) =
      some (s, none) := by
    unfold for_each_in_range
    dsimp only
    rw [show ceil_page_size (wrapping_add addr num_bytes) - floor_page_size addr + 1 = 0 + 1 by omega]
    simp only [for_each_in_range_loop]
    rw [if_neg (by omega)]
  unfold protect at hs
  rw [hloop] at hs
  cases hs
  rfl

end AddressSpace

end RdReplay
