/-
  AddressSpace/Coalesce.lean --- what `coalesce_around` does to a well-formed
  map.

  THE SHAPE OF A MERGE.  The backward walk starts at the last entry the key does
  not compare `lt` against and the forward walk at the first it does not compare
  `gt` against.  Each walk moves one entry at a time while `is_coalescable` holds
  between neighbours.  When the key is stored both walks start at its entry, so
  every neighbouring pair of the run `first .. last` was checked; when no entry
  compares `eq` to the key the walks start at the entries on either side of it,
  and that one pair is never checked.  In both cases the run is a contiguous
  segment of the list, and the map afterwards is the list with that segment
  replaced by one entry: `coalesce_around_spec`.

  WHAT A MERGE KEEPS.  Along a chain of coalescable neighbours each entry starts
  where the one before ends, continues its offset and has a matching name, so
  the merged entry gives every page of the run the attributes it had, and the
  name of the run's first entry, which the names along the run link to the
  page's own (`coalesce_around_view`).
-/
import RdReplay.AddressSpace.Splice

set_option autoImplicit false

namespace RdReplay

namespace AddressSpace

/-! ## The walks -/

/-- Where the forward walk stops: at its start, or at an entry further on,
every neighbouring pair up to it being coalescable. -/
theorem coalesce_walk_forward_spec {cur last : MemoryRange × Mapping} :
    ∀ {nexts : MemoryMap}, coalesce_walk_forward cur nexts = some last →
      ∃ C D, nexts = C ++ D ∧ (cur :: C).getLast (List.cons_ne_nil _ _) = last ∧
        (cur :: C).IsChain (fun a b => is_coalescable a.2 b.2 = true) := by
  intro nexts
  induction nexts generalizing cur with
  | nil =>
    intro h
    simp only [coalesce_walk_forward, Option.some.injEq] at h
    exact ⟨[], [], rfl, by simp [h], List.isChain_singleton _⟩
  | cons next nexts ih =>
    intro h
    unfold coalesce_walk_forward at h
    split at h
    · simp only [Option.some.injEq] at h
      exact ⟨[], next :: nexts, rfl, by simp [h], List.isChain_singleton _⟩
    · rename_i hco
      split at h
      · cases h
      · obtain ⟨C, D, hnexts, hlast, hchain⟩ := ih h
        refine ⟨next :: C, D, by rw [hnexts, List.cons_append], ?_, ?_⟩
        · rw [List.getLast_cons (List.cons_ne_nil _ _)]
          exact hlast
        · refine List.IsChain.cons hchain ?_
          intro y hy
          simp only [List.head?_cons, Option.mem_def, Option.some.injEq] at hy
          subst hy
          simpa using hco

/-- Where the backward walk stops: at its start, or at an entry further back,
every neighbouring pair down to it being coalescable.  `prevs` lists the entries
before `cur` nearest first, so the run read forward is `(cur :: B).reverse`. -/
theorem coalesce_walk_back_spec {cur first : MemoryRange × Mapping} :
    ∀ {prevs : MemoryMap}, coalesce_walk_back cur prevs = some first →
      ∃ B A, prevs = B ++ A ∧ (cur :: B).getLast (List.cons_ne_nil _ _) = first ∧
        (cur :: B).reverse.IsChain (fun a b => is_coalescable a.2 b.2 = true) := by
  intro prevs
  induction prevs generalizing cur with
  | nil =>
    intro h
    simp only [coalesce_walk_back, Option.some.injEq] at h
    exact ⟨[], [], rfl, by simp [h], List.isChain_singleton _⟩
  | cons prev prevs ih =>
    intro h
    unfold coalesce_walk_back at h
    split at h
    · simp only [Option.some.injEq] at h
      exact ⟨[], prev :: prevs, rfl, by simp [h], List.isChain_singleton _⟩
    · rename_i hco
      split at h
      · cases h
      · obtain ⟨B, A, hprevs, hfirst, hchain⟩ := ih h
        refine ⟨prev :: B, A, by rw [hprevs, List.cons_append], ?_, ?_⟩
        · rw [List.getLast_cons (List.cons_ne_nil _ _)]
          exact hfirst
        · rw [List.reverse_cons, List.reverse_cons]
          rw [List.reverse_cons] at hchain
          refine List.IsChain.append hchain (List.isChain_singleton _) ?_
          intro x hx y hy
          simp only [List.head?_cons, Option.mem_def, Option.some.injEq] at hy
          subst hy
          rw [List.getLast?_append, List.getLast?_singleton] at hx
          simp only [Option.some_or, Option.mem_def, Option.some.injEq] at hx
          subst hx
          simpa using hco

/-- The walks from an entry `e` mark out a run of the map around it: a contiguous
segment from where the backward walk stops to where the forward walk stops, each
neighbouring pair of which is coalescable. -/
theorem walks_segment {mem pre post : MemoryMap} {e first last : MemoryRange × Mapping}
    (hmem : mem = pre ++ e :: post) (hb : coalesce_walk_back e pre.reverse = some first)
    (hf : coalesce_walk_forward e post = some last) :
    ∃ X seg Y, mem = X ++ seg ++ Y ∧ seg.head? = some first ∧ seg.getLast? = some last ∧
      seg.IsChain (fun a b => is_coalescable a.2 b.2 = true) := by
  obtain ⟨B, A, hBA, hfirst, hchainB⟩ := coalesce_walk_back_spec hb
  obtain ⟨C, D, hCD, hlast, hchainC⟩ := coalesce_walk_forward_spec hf
  -- the run is `B.reverse ++ e :: C`, between `A.reverse` and `D`
  have hpre : pre = A.reverse ++ B.reverse := by
    rw [← List.reverse_reverse pre, hBA, List.reverse_append]
  refine ⟨A.reverse, B.reverse ++ e :: C, D, by rw [hmem, hpre, hCD]; simp, ?_, ?_, ?_⟩
  · rw [show B.reverse ++ e :: C = (e :: B).reverse ++ C by simp,
      List.head?_append_of_ne_nil _ (by simp), List.head?_reverse,
      List.getLast?_eq_some_getLast (List.cons_ne_nil _ _), hfirst]
  · rw [List.getLast?_append_of_ne_nil _ (List.cons_ne_nil _ _),
      List.getLast?_eq_some_getLast (List.cons_ne_nil _ _), hlast]
  · have hleft : (B.reverse ++ [e]).IsChain (fun a b => is_coalescable a.2 b.2 = true) := by
      simpa using hchainB
    have hright : ([e] ++ C).IsChain (fun a b => is_coalescable a.2 b.2 = true) := by
      simpa using hchainC
    simpa using hleft.append_overlap hright (List.cons_ne_nil _ _)

end AddressSpace

/-! ## The split a key makes -/

namespace MemoryRangeKey

/-- An entry above one the key does not compare `gt` against is not `gt` either. -/
theorem cmp_ne_gt_of_le {q a e : MemoryRange} (ha : cmp q a ≠ .gt) (hane : a.start_ < a.end_)
    (hae : a.end_ ≤ e.start_) : cmp q e ≠ .gt := by
  intro hgt
  rcases cmp_cases q e with ⟨-, -, hlt⟩ | ⟨hlt, -⟩ | ⟨heq, -⟩
  · rcases cmp_cases q a with ⟨hgt', -⟩ | ⟨-, -, hqa⟩ | ⟨-, hqa⟩
    · exact ha hgt'
    · omega
    · rcases hqa with hqa | hqa
      · rw [MemoryRange.intersects_iff] at hqa; omega
      · omega
  · rw [hgt] at hlt; exact Ordering.noConfusion hlt
  · rw [hgt] at heq; exact Ordering.noConfusion heq

end MemoryRangeKey

namespace MapInv

variable {mem : MemoryMap}

/-- An entry of the left part of a well-formed map ends before one of the right
part starts. -/
theorem end_le_of_append {A B : MemoryMap} (h : MapInv (A ++ B)) {a b : MemoryRange × Mapping}
    (ha : a ∈ A) (hb : b ∈ B) : a.1.end_ ≤ b.1.start_ :=
  (List.pairwise_append.1 h.sorted).2.2 a ha b hb

/-- On a well-formed map, the entries a key compares `gt` against are a prefix. -/
theorem cmp_ne_gt_of_mem_dropWhile (h : MapInv mem) (q : MemoryRange) :
    ∀ e ∈ mem.dropWhile (fun e => MemoryRangeKey.cmp q e.1 == .gt),
      MemoryRangeKey.cmp q e.1 ≠ .gt := by
  induction mem with
  | nil => simp
  | cons a l ih =>
    have hl : MapInv l := h.sublist (List.sublist_cons_self a l)
    by_cases hqa : MemoryRangeKey.cmp q a.1 = .gt
    · simp only [List.dropWhile_cons, hqa, beq_self_eq_true]
      exact ih hl
    · have hne : (MemoryRangeKey.cmp q a.1 == .gt) = false := by simpa using hqa
      simp only [List.dropWhile_cons, hne]
      intro e he
      rcases List.mem_cons.1 he with rfl | he
      · exact hqa
      · exact MemoryRangeKey.cmp_ne_gt_of_le hqa (h.wf a List.mem_cons_self).nonempty
          ((List.pairwise_cons.1 h.sorted).1 e he)

/-- A key splits a well-formed map into the entries it compares `gt` against and
the rest, and both searches read off that split. -/
theorem key_split (h : MapInv mem) (q : MemoryRange) :
    ∃ pre post, mem = pre ++ post ∧ CmpList.Below MemoryRangeKey.cmp q pre ∧
      CmpList.lowerBound MemoryRangeKey.cmp q mem = post ∧
      CmpList.upTo MemoryRangeKey.cmp q mem = pre ++ CmpList.upTo MemoryRangeKey.cmp q post ∧
      ∀ e ∈ post, MemoryRangeKey.cmp q e.1 ≠ .gt := by
  have hsplit := List.takeWhile_append_dropWhile
    (p := fun e => MemoryRangeKey.cmp q e.1 == .gt) (l := mem)
  have hbelow : CmpList.Below MemoryRangeKey.cmp q
      (mem.takeWhile (fun e => MemoryRangeKey.cmp q e.1 == .gt)) := by
    intro e he
    simpa using List.mem_takeWhile_imp he
  have hpost := h.cmp_ne_gt_of_mem_dropWhile q
  refine ⟨_, _, hsplit.symm, hbelow, ?_, ?_, hpost⟩
  · conv_lhs => rw [← hsplit]
    rw [CmpList.lowerBound_append hbelow]
    cases hd : mem.dropWhile (fun e => MemoryRangeKey.cmp q e.1 == .gt) with
    | nil => rfl
    | cons e rest =>
      exact CmpList.lowerBound_cons_of_ne (hpost e (by rw [hd]; exact List.mem_cons_self))
  · conv_lhs => rw [← hsplit]
    rw [CmpList.upTo_append hbelow]

/-! ## Removing a segment -/

/-- Removing, key by key, a contiguous segment of a well-formed map leaves what is
on either side of it. -/
theorem foldl_remove_segment : ∀ {X seg Y : MemoryMap}, MapInv (X ++ seg ++ Y) →
    seg.foldl (fun m k => CmpList.remove MemoryRangeKey.cmp k.1 m) (X ++ seg ++ Y) = X ++ Y := by
  intro X seg
  induction seg with
  | nil => intro Y _; simp
  | cons a seg ih =>
    intro Y h
    have hmem : X ++ a :: seg ++ Y = X ++ a :: (seg ++ Y) := by simp
    have hpre : ∀ b ∈ X, b.1.end_ ≤ a.1.start_ :=
      fun b hb => end_le_of_append (hmem ▸ h) hb List.mem_cons_self
    rw [List.foldl_cons, h.remove_key hmem hpre, ← List.append_assoc]
    apply ih
    apply h.sublist
    rw [hmem, List.append_assoc]
    exact List.Sublist.append (List.Sublist.refl X) (List.sublist_cons_self a _)

/-- A run of a well-formed map lies between its first entry's start and its
last entry's end. -/
theorem bounds {seg : MemoryMap} {first last : MemoryRange × Mapping} (h : MapInv seg)
    (hfirst : seg.head? = some first) (hlast : seg.getLast? = some last) :
    ∀ q ∈ seg, first.1.start_ ≤ q.1.start_ ∧ q.1.end_ ≤ last.1.end_ := by
  obtain ⟨rest, hrest⟩ := List.head?_eq_some_iff.1 hfirst
  have hinit := List.dropLast_append_getLast? _ hlast
  intro q hq
  constructor
  · have hs := h.sorted
    rw [hrest] at hs hq
    rcases List.mem_cons.1 hq with rfl | hq
    · exact le_rfl
    · have := (List.pairwise_cons.1 hs).1 q hq
      have := (h.wf first (by rw [hrest]; exact List.mem_cons_self)).nonempty
      omega
  · have hs := h.sorted
    rw [← hinit] at hs hq
    rcases List.mem_append.1 hq with hq | hq
    · have := (List.pairwise_append.1 hs).2.2 q hq last List.mem_cons_self
      have := (h.wf last (by rw [← hinit]; simp)).nonempty
      omega
    · rw [List.mem_singleton.1 hq]

/-- Walks that stop at entries whose keys `MemoryRangeKey::eq` tells apart stopped
at different entries. -/
theorem ne_of_not_eq (h : MapInv mem) {first last : MemoryRange × Mapping} (hlast : last ∈ mem)
    (heq : ¬MemoryRangeKey.eq first.1 last.1 = true) : first ≠ last := by
  rintro rfl
  exact heq ((MemoryRangeKey.eq_iff_cmp _ _).2 (h.cmp_key_self hlast))

/-- `range(first ..= last)` over a well-formed map is the segment from `first` to
`last`. -/
theorem range_segment {X seg Y : MemoryMap} {first last : MemoryRange × Mapping}
    (h : MapInv (X ++ seg ++ Y)) (hfirst : seg.head? = some first) (hlast : seg.getLast? = some last)
    (hne : first ≠ last) :
    CmpList.range MemoryRangeKey.cmp first.1 last.1 (X ++ seg ++ Y) = some seg := by
  obtain ⟨seg', rfl⟩ : ∃ seg', seg = first :: seg' := by
    cases seg with
    | nil => simp at hfirst
    | cons a seg' =>
      simp only [List.head?_cons, Option.some.injEq] at hfirst
      exact ⟨seg', by rw [hfirst]⟩
  -- The segment is `init ++ [last]`, and `init` starts with `first`.
  obtain ⟨init, hinit⟩ : ∃ init, first :: seg' = init ++ [last] :=
    ⟨(first :: seg').dropLast, (List.dropLast_append_getLast? _ hlast).symm⟩
  have hsplit : X ++ first :: seg' ++ Y = (X ++ init) ++ last :: Y := by
    rw [hinit]; simp
  have hlastwf : last ∈ X ++ first :: seg' ++ Y := by rw [hsplit]; simp
  have hfi : first ∈ init := by
    cases init with
    | nil => simp only [List.nil_append, List.cons.injEq] at hinit; exact absurd hinit.1 hne
    | cons b init => simp only [List.cons_append, List.cons.injEq] at hinit; rw [hinit.1]; simp
  have hlt : MemoryRangeKey.cmp first.1 last.1 = .lt := by
    apply MemoryRangeKey.cmp_eq_lt (h.wf first (by simp)).nonempty
    exact end_le_of_append (hsplit ▸ h) (List.mem_append_right _ hfi) List.mem_cons_self
  unfold CmpList.range
  rw [if_neg (by rw [hlt]; decide)]
  have hfirst' : X ++ first :: seg' ++ Y = X ++ first :: (seg' ++ Y) := by simp
  have hX : ∀ b ∈ X, b.1.end_ ≤ first.1.start_ :=
    fun b hb => end_le_of_append (hfirst' ▸ h) hb List.mem_cons_self
  rw [h.lowerBound_key hfirst' hX]
  -- Every entry of the segment before `last` lies below it.
  have hbelow : CmpList.Below MemoryRangeKey.cmp last.1 init := by
    apply below_of_end_le
    · intro b hb
      exact h.wf b (by rw [hsplit]; simp [hb])
    · intro b hb
      exact end_le_of_append (hsplit ▸ h) (List.mem_append_right _ hb) List.mem_cons_self
  have hseg : first :: (seg' ++ Y) = init ++ last :: Y := by
    rw [← List.cons_append, hinit, List.append_assoc, List.singleton_append]
  rw [hseg, CmpList.upTo_append hbelow, CmpList.upTo_cons_of_eq (h.cmp_key_self hlastwf), hinit]

end MapInv

/-! ## Coalescing around a stored key -/

namespace AddressSpace

variable {s s' : AddressSpace} {e : MemoryRange × Mapping}

/-- Around a stored key both walks start at its entry: the map is left as it is,
or a run of at least two entries, each neighbouring pair of which is
coalescable, is replaced by one entry spanning it. -/
theorem coalesce_around_spec (h : MapInv s.mem) (he : e ∈ s.mem)
    (hs : s.coalesce_around e.1 = some s') :
    s' = s ∨ ∃ X seg Y first last, s.mem = X ++ seg ++ Y ∧ seg.head? = some first ∧
      seg.getLast? = some last ∧ first ≠ last ∧
      seg.IsChain (fun a b => is_coalescable a.2 b.2 = true) ∧
      s' = { s with mem := X ++ (⟨first.1.start_, last.1.end_⟩, coalesced first last) :: Y } := by
  obtain ⟨pre, post, hmem, hpre, -⟩ := h.split he
  unfold coalesce_around at hs
  rw [h.lowerBound_key hmem hpre, h.upTo_key hmem hpre, List.reverse_append,
    List.reverse_singleton, List.singleton_append] at hs
  dsimp only at hs
  cases hb : coalesce_walk_back e pre.reverse with
  | none => rw [hb] at hs; cases hs
  | some first =>
    cases hf : coalesce_walk_forward e post with
    | none => rw [hb, hf] at hs; cases hs
    | some last =>
      rw [hb, hf] at hs
      dsimp only at hs
      obtain ⟨X, seg, Y, hsplit, hhead, hlast, hchain⟩ := walks_segment hmem hb hf
      by_cases heq : MemoryRangeKey.eq first.1 last.1 = true
      · rw [if_pos heq] at hs
        exact .inl (Option.some.inj hs).symm
      · rw [if_neg heq] at hs
        have hinv := hsplit ▸ h
        have hfirst_seg : first ∈ seg := List.mem_of_mem_head? hhead
        have hlast_seg : last ∈ seg := List.mem_of_getLast? hlast
        have hne : first ≠ last := hinv.ne_of_not_eq (by simp [hlast_seg]) heq
        refine .inr ⟨X, seg, Y, first, last, hsplit, hhead, hlast, hne, hchain, ?_⟩
        have hinv' : MapInv (X ++ (seg ++ Y)) := by rwa [← List.append_assoc]
        have hlwf := hinv.wf last (List.mem_append_left _ (List.mem_append_right _ hlast_seg))
        -- the merged entry fits between what is left on either side
        have hX : ∀ a ∈ X, a.1.start_ < a.1.end_ ∧ a.1.end_ ≤ first.1.start_ := fun a ha =>
          ⟨(hinv.wf a (List.mem_append_left _ (List.mem_append_left _ ha))).nonempty,
            MapInv.end_le_of_append hinv' ha (List.mem_append_left _ hfirst_seg)⟩
        have hY : ∀ b ∈ Y, last.1.end_ ≤ b.1.start_ := fun b hb =>
          MapInv.end_le_of_append hinv (List.mem_append_right _ hlast_seg) hb
        have hseginv : MapInv seg :=
          hinv.sublist ((List.sublist_append_right _ _).trans (List.sublist_append_left _ _))
        have hk : first.1.start_ < last.1.end_ := by
          have := (hseginv.bounds hhead hlast last hlast_seg).1
          have := hlwf.nonempty
          omega
        have hkey : (coalesced first last).map.mr = ⟨first.1.start_, last.1.end_⟩ := by
          simp [coalesced, (hseginv.wf first hfirst_seg).map_mr]
        rw [hsplit, MapInv.range_segment hinv hhead hlast hne] at hs
        dsimp only at hs
        rw [MapInv.foldl_remove_segment hinv, hkey,
          insert_between (k := ⟨first.1.start_, last.1.end_⟩) hk hX hY] at hs
        exact (Option.some.inj hs).symm

/-- The mapping that replaces a merged run gives each page the attributes its
first entry gave it. -/
theorem coalesced_attrs {first last : MemoryRange × Mapping} (p : Nat)
    (hmask : first.2.map.flags_ &&& KernelMapping.MAP_FLAGS_MASK = first.2.map.flags_) :
    (coalesced first last).attrs p = first.2.attrs p := by
  unfold coalesced Mapping.attrs
  simp only [Mapping.with_flags_fields, Mapping.new_fields, KernelMapping.extend_meta,
    KernelMapping.extend_mr, KernelMapping.extend_is_real_device, hmask]

/-- Each page of a chain of coalescable neighbours, from the first entry's start
to the last one's end, has the first entry's attributes, the name apart. -/
theorem chain_mem_view : ∀ (a : MemoryRange × Mapping) (rest : MemoryMap),
    (a :: rest).IsChain (fun a b => is_coalescable a.2 b.2 = true) → MapInv (a :: rest) →
    ∀ p, a.1.start_ ≤ p → p < ((a :: rest).getLast (List.cons_ne_nil _ _)).1.end_ →
      (mem_view (a :: rest) p).map PageAttrs.erase_name = some (a.2.attrs p).erase_name
  | a, [], _, _, p, hs, he => by
    rw [mem_view_cons, if_pos ((MemoryRange.contains_ptr_iff _ _).2 ⟨hs, he⟩)]
    rfl
  | a, b :: rest, hchain, h, p, hs, he => by
    rw [List.isChain_cons_cons] at hchain
    have hwa := h.wf a List.mem_cons_self
    have hwb := h.wf b (List.mem_cons_of_mem _ List.mem_cons_self)
    by_cases hpa : p < a.1.end_
    · rw [mem_view_cons, if_pos ((MemoryRange.contains_ptr_iff _ _).2 ⟨hs, hpa⟩)]
      rfl
    · -- past `a`, the page lies in the rest of the chain, which starts where `a` ends
      have hadj : a.1.end_ = b.1.start_ := by
        have := (is_adjacent_mapping_spec (is_coalescable_spec hchain.1).1).1
        rwa [hwa.map_mr, hwb.map_mr] at this
      rw [mem_view_cons, if_neg (by simp only [MemoryRange.contains_ptr_iff]; omega),
        chain_mem_view b rest hchain.2 (h.sublist (List.sublist_cons_self _ _)) p (by omega)
          (by rwa [List.getLast_cons (List.cons_ne_nil _ _)] at he),
        Mapping.attrs_erase_name_of_coalescable hchain.1 hwa.masked hwb.masked]
      · rw [hwa.map_mr]; exact hwa.nonempty.le
      · rw [hwa.map_mr]; exact hwa.end_lt
      · rw [hwb.map_mr]; omega

/-- The neighbouring bytes of a chain of coalescable neighbours are mapped with
matching names: inside an entry the names are equal, and across the boundary
of two entries they are the names `is_coalescable` compared. -/
theorem chain_links : ∀ (a : MemoryRange × Mapping) (rest : MemoryMap),
    (a :: rest).IsChain (fun a b => is_coalescable a.2 b.2 = true) → MapInv (a :: rest) →
    ∀ r, a.1.start_ ≤ r → r + 1 < ((a :: rest).getLast (List.cons_ne_nil _ _)).1.end_ →
      ∃ x ∈ mem_view (a :: rest) r, ∃ y ∈ mem_view (a :: rest) (r + 1), names_match x.fsname y.fsname
  | a, [], _, _, r, hs, he => by
    rw [mem_view_cons, if_pos ((MemoryRange.contains_ptr_iff _ _).2 ⟨hs, by simp at he; omega⟩),
      mem_view_cons, if_pos ((MemoryRange.contains_ptr_iff _ _).2 ⟨by omega, by simpa using he⟩)]
    exact ⟨_, rfl, _, rfl, names_match_refl _⟩
  | a, b :: rest, hchain, h, r, hs, he => by
    rw [List.isChain_cons_cons] at hchain
    have hwa := h.wf a List.mem_cons_self
    have hwb := h.wf b (List.mem_cons_of_mem _ List.mem_cons_self)
    have hadj : a.1.end_ = b.1.start_ := by
      have := (is_adjacent_mapping_spec (is_coalescable_spec hchain.1).1).1
      rwa [hwa.map_mr, hwb.map_mr] at this
    have hrest : MapInv (b :: rest) := h.sublist (List.sublist_cons_self _ _)
    have hlast : ((b :: rest).getLast (List.cons_ne_nil _ _)).1.end_ =
        ((a :: b :: rest).getLast (List.cons_ne_nil _ _)).1.end_ := by
      rw [List.getLast_cons (List.cons_ne_nil _ _)]
    rcases Nat.lt_or_ge (r + 1) a.1.end_ with hin | hout
    · -- both bytes in `a`
      rw [mem_view_cons, if_pos ((MemoryRange.contains_ptr_iff _ _).2 ⟨hs, by omega⟩),
        mem_view_cons, if_pos ((MemoryRange.contains_ptr_iff _ _).2 ⟨by omega, hin⟩)]
      exact ⟨_, rfl, _, rfl, names_match_refl _⟩
    · rcases Nat.lt_or_ge r a.1.end_ with hlt | hge
      · -- the last byte of `a` and the first of `b`: the names `is_coalescable` compared
        have hb : b.1.contains_ptr (r + 1) = true :=
          (MemoryRange.contains_ptr_iff _ _).2 ⟨by omega, by have := hwb.nonempty; omega⟩
        rw [mem_view_cons, if_pos ((MemoryRange.contains_ptr_iff _ _).2 ⟨hs, hlt⟩), mem_view_cons,
          if_neg (by simp only [MemoryRange.contains_ptr_iff]; omega), mem_view_cons, if_pos hb]
        exact ⟨_, rfl, _, rfl, names_match_of_coalescable hchain.1⟩
      · -- both bytes past `a`, in the rest of the chain
        rw [mem_view_cons (p := r), if_neg (by simp only [MemoryRange.contains_ptr_iff]; omega),
          mem_view_cons (p := r + 1), if_neg (by simp only [MemoryRange.contains_ptr_iff]; omega)]
        exact chain_links b rest hchain.2 hrest r (by omega) (by rw [hlast]; exact he)

/-- The entry that replaces a merged run from `first` to `last` is well formed. -/
theorem coalesced_wf {first last : MemoryRange × Mapping} (hf : EntryWf first) (hl : EntryWf last)
    (hlt : first.1.start_ < last.1.end_) :
    EntryWf (⟨first.1.start_, last.1.end_⟩, coalesced first last) where
  nonempty := hlt
  start_aligned := hf.start_aligned
  end_aligned := hl.end_aligned
  end_lt := hl.end_lt
  map_mr := by simp [coalesced, hf.map_mr]
  recorded_mr := by simp [coalesced, hf.recorded_mr]
  masked := by simp [coalesced]
  offset_lt := by simpa [coalesced] using hf.offset_lt

/-- Coalescing around a stored key keeps the map well formed, changes nothing
but the map, and keeps the view of every page but its name, which becomes the
name of the merged run's first entry. -/
theorem coalesce_around_view (h : MapInv s.mem) (he : e ∈ s.mem)
    (hs : s.coalesce_around e.1 = some s') :
    ∃ mem', s' = { s with mem := mem' } ∧ MapInv mem' ∧ CoalescedView (mem_view mem') (mem_view s.mem) := by
  rcases coalesce_around_spec h he hs with rfl | ⟨X, seg, Y, first, last, hsplit, hhead, hlast,
    -, hchain, rfl⟩
  · exact ⟨s'.mem, rfl, h, CoalescedView.refl _⟩
  · have hinv := hsplit ▸ h
    have hinv' : MapInv (X ++ (seg ++ Y)) := by rwa [← List.append_assoc]
    have hseginv : MapInv seg :=
      hinv.sublist ((List.sublist_append_right _ _).trans (List.sublist_append_left _ _))
    have hb := hseginv.bounds hhead hlast
    have hfirst_seg : first ∈ seg := List.mem_of_mem_head? hhead
    have hlast_seg : last ∈ seg := List.mem_of_getLast? hlast
    have hX : ∀ a ∈ X, a.1.end_ ≤ first.1.start_ := fun a ha =>
      MapInv.end_le_of_append hinv' ha (List.mem_append_left _ hfirst_seg)
    have hY : ∀ b ∈ Y, last.1.end_ ≤ b.1.start_ := fun b hb =>
      MapInv.end_le_of_append hinv (List.mem_append_right _ hlast_seg) hb
    have hlt : first.1.start_ < last.1.end_ := by
      have := (hb last hlast_seg).1
      have := (hseginv.wf last hlast_seg).nonempty
      omega
    have hsp : Splice s.mem (X ++ [(⟨first.1.start_, last.1.end_⟩, coalesced first last)] ++ Y)
        first.1.start_ last.1.end_ [(⟨first.1.start_, last.1.end_⟩, coalesced first last)] :=
      ⟨⟨X, seg, Y, hsplit, rfl, hX, hY, hb⟩, List.pairwise_singleton _ _, by simp,
        by simpa using coalesced_wf (hseginv.wf first hfirst_seg) (hseginv.wf last hlast_seg) hlt⟩
    refine ⟨_, by simp, hsp.mapInv h, fun p => ?_⟩
    rw [hsp.mem_view_eq p]
    split_ifs with hp
    · obtain ⟨rest, rfl⟩ := List.head?_eq_some_iff.1 hhead
      have hend : ((first :: rest).getLast (List.cons_ne_nil _ _)).1.end_ = last.1.end_ := by
        rw [List.getLast?_eq_some_getLast (List.cons_ne_nil _ _)] at hlast
        rw [Option.some.inj hlast]
      -- over the run the view before is the view of the run
      have hrun : ∀ r, first.1.start_ ≤ r → r < last.1.end_ → mem_view s.mem r = mem_view (first :: rest) r :=
        fun r h₁ h₂ => by rw [hsplit, mem_view_between hX hY ⟨h₁, h₂⟩]
      have hwf := hseginv.wf first hfirst_seg
      rw [mem_view_cons, if_pos ((MemoryRange.contains_ptr_iff _ _).2 hp),
        coalesced_attrs p hwf.masked]
      refine ⟨?_, fun x hx => ?_⟩
      · rw [hrun p hp.1 hp.2, chain_mem_view first rest hchain hseginv p hp.1 (hend ▸ hp.2)]
        rfl
      · -- the merged entry has the first entry's name, linked to the page along the run
        rw [Option.mem_def, Option.some.injEq] at hx
        subst hx
        refine ⟨first.1.start_, hp.1, ⟨first.2.attrs first.1.start_, ?_, rfl⟩, fun r h₁ h₂ => ?_⟩
        · rw [hrun _ le_rfl (by have := hwf.nonempty; omega), mem_view_cons,
            if_pos ((MemoryRange.contains_ptr_iff _ _).2 ⟨le_rfl, hwf.nonempty⟩)]
          rfl
        · rw [hrun r h₁ (by omega), hrun (r + 1) (by omega) (by omega)]
          exact chain_links first rest hchain hseginv r h₁ (by omega)
    · exact CoalescedView.refl _ p

end AddressSpace

end RdReplay
