/-
  AddressSpace/Invariant.lean --- the representation invariant of the memory
  map, and what the comparator-driven searches do on a map that keeps it.

  THE INVARIANT.  Every key is non-empty, page-aligned, below the top of the
  address space, and is the range of its mapping and of its recorded mapping,
  whose map flags are masked; the keys are in address order and each ends at or
  before the next one starts.

  WHY IT CARRIES THE SEARCHES.  On such a map the entries a query compares `gt`
  against are exactly the entries wholly below it, a prefix of the list, so the
  `CmpList` partition lemmas apply.  This file turns each search the operations
  make into a statement about list membership: a point query finds the first
  entry ending after the point, a stored key finds itself, and a key apart from
  every entry is inserted without replacing anything.  Later files reason about
  membership only.
-/
import RdReplay.AddressSpace.Ops

set_option autoImplicit false

namespace RdReplay

/-- Two key ranges do not overlap. -/
def Apart (a b : MemoryRange) : Prop := a.end_ ≤ b.start_ ∨ b.end_ ≤ a.start_

/-- A well-formed entry of the memory map. -/
structure EntryWf (e : MemoryRange × Mapping) : Prop where
  nonempty : e.1.start_ < e.1.end_
  start_aligned : Aligned e.1.start_
  end_aligned : Aligned e.1.end_
  end_lt : e.1.end_ < 2 ^ 64
  map_mr : e.2.map.mr = e.1
  recorded_mr : e.2.recorded_map.mr = e.1
  /-- The map flags are masked with `MAP_FLAGS_MASK`, as every constructor leaves them. -/
  masked : e.2.map.flags_ &&& KernelMapping.MAP_FLAGS_MASK = e.2.map.flags_
  /-- The file offset is a 64-bit word. -/
  offset_lt : e.2.map.offset < 2 ^ 64

/-- The representation invariant of `AddressSpace.mem`. -/
structure MapInv (mem : MemoryMap) : Prop where
  sorted : mem.Pairwise (fun a b => a.1.end_ ≤ b.1.start_)
  wf : ∀ e ∈ mem, EntryWf e

instance (e : MemoryRange × Mapping) : Decidable (EntryWf e) :=
  decidable_of_iff (e.1.start_ < e.1.end_ ∧ Aligned e.1.start_ ∧ Aligned e.1.end_ ∧
      e.1.end_ < 2 ^ 64 ∧ e.2.map.mr = e.1 ∧ e.2.recorded_map.mr = e.1 ∧
      e.2.map.flags_ &&& KernelMapping.MAP_FLAGS_MASK = e.2.map.flags_ ∧ e.2.map.offset < 2 ^ 64)
    ⟨fun ⟨h1, h2, h3, h4, h5, h6, h7, h8⟩ => ⟨h1, h2, h3, h4, h5, h6, h7, h8⟩,
      fun ⟨h1, h2, h3, h4, h5, h6, h7, h8⟩ => ⟨h1, h2, h3, h4, h5, h6, h7, h8⟩⟩

instance (mem : MemoryMap) : Decidable (MapInv mem) :=
  decidable_of_iff (mem.Pairwise (fun a b => a.1.end_ ≤ b.1.start_) ∧ ∀ e ∈ mem, EntryWf e)
    ⟨fun ⟨h1, h2⟩ => ⟨h1, h2⟩, fun ⟨h1, h2⟩ => ⟨h1, h2⟩⟩

namespace MapInv

variable {mem : MemoryMap}

theorem nil : MapInv [] := ⟨List.Pairwise.nil, by simp⟩

theorem sublist {l : MemoryMap} (hl : l.Sublist mem) (h : MapInv mem) : MapInv l :=
  ⟨h.sorted.sublist hl, fun e he => h.wf e (hl.subset he)⟩

/-- A member splits the map into the entries below it and those above it. -/
theorem split {e : MemoryRange × Mapping} (h : MapInv mem) (he : e ∈ mem) :
    ∃ pre post, mem = pre ++ e :: post ∧ (∀ a ∈ pre, a.1.end_ ≤ e.1.start_) ∧
      (∀ b ∈ post, e.1.end_ ≤ b.1.start_) := by
  obtain ⟨pre, post, rfl⟩ := List.append_of_mem he
  have hs := h.sorted
  rw [List.pairwise_append] at hs
  obtain ⟨-, hpost, hcross⟩ := hs
  refine ⟨pre, post, rfl, fun a ha => hcross a ha e List.mem_cons_self, ?_⟩
  exact fun b hb => (List.pairwise_cons.1 hpost).1 b hb

/-- Distinct members are apart. -/
theorem apart {a b : MemoryRange × Mapping} (h : MapInv mem) (ha : a ∈ mem) (hb : b ∈ mem)
    (hne : a ≠ b) : Apart a.1 b.1 := by
  obtain ⟨pre, post, rfl, hpre, hpost⟩ := h.split ha
  rcases List.mem_append.1 hb with hb | hb
  · exact .inr (hpre b hb)
  · rcases List.mem_cons.1 hb with rfl | hb
    · exact absurd rfl hne
    · exact .inl (hpost b hb)

/-- Two members containing the same address are the same entry. -/
theorem eq_of_contains {a b : MemoryRange × Mapping} {p : Nat} (h : MapInv mem) (ha : a ∈ mem)
    (hb : b ∈ mem) (hpa : a.1.start_ ≤ p ∧ p < a.1.end_) (hpb : b.1.start_ ≤ p ∧ p < b.1.end_) :
    a = b := by
  by_contra hne
  rcases h.apart ha hb hne with hab | hab <;> omega

/-- Two members with the same key are the same entry. -/
theorem eq_of_key {a b : MemoryRange × Mapping} (h : MapInv mem) (ha : a ∈ mem) (hb : b ∈ mem)
    (hk : a.1 = b.1) : a = b := by
  have hne := (h.wf a ha).nonempty
  have hb' : b.1.start_ ≤ a.1.start_ ∧ a.1.start_ < b.1.end_ := by rw [hk]; exact ⟨Nat.le_refl _, hk ▸ hne⟩
  exact h.eq_of_contains ha hb ⟨Nat.le_refl _, hne⟩ hb'

end MapInv

/-! ## The comparator on a well-formed map -/

namespace MemoryRangeKey

theorem cmp_self {a : MemoryRange} (h : a.start_ < a.end_) : cmp a a = .eq :=
  cmp_eq_eq ((MemoryRange.intersects_iff a a).2 ⟨h, h, h, h⟩)

/-- A query apart from a non-empty key and starting above it compares `gt`. -/
theorem cmp_gt_of_apart {q k : MemoryRange} (hk : k.start_ < k.end_) (hq : q.start_ < q.end_)
    (hap : Apart q k) (hlt : k.start_ < q.start_) : cmp q k = .gt := by
  rcases hap with h | h
  · omega
  · exact cmp_eq_gt hk h

/-- A non-empty query apart from a key and starting below it compares `lt`. -/
theorem cmp_lt_of_apart {q k : MemoryRange} (hk : k.start_ < k.end_) (hq : q.start_ < q.end_)
    (hap : Apart q k) (hlt : q.start_ < k.start_) : cmp q k = .lt := by
  rcases hap with h | h
  · exact cmp_eq_lt hq h
  · omega

end MemoryRangeKey

namespace MapInv

variable {mem : MemoryMap}

/-- The entries a key compares `gt` against when they all end at or before its
start. -/
theorem below_of_end_le {q : MemoryRange} {pre : MemoryMap} (h : ∀ e ∈ pre, EntryWf e)
    (hpre : ∀ e ∈ pre, e.1.end_ ≤ q.start_) : CmpList.Below MemoryRangeKey.cmp q pre := by
  intro e he
  exact MemoryRangeKey.cmp_eq_gt (h e he).nonempty (hpre e he)

/-! ### A stored key finds itself -/

section Stored

variable {e : MemoryRange × Mapping} {pre post : MemoryMap}

theorem below_pre (h : MapInv mem) (hmem : mem = pre ++ e :: post)
    (hpre : ∀ a ∈ pre, a.1.end_ ≤ e.1.start_) : CmpList.Below MemoryRangeKey.cmp e.1 pre :=
  below_of_end_le (fun a ha => h.wf a (by rw [hmem]; exact List.mem_append_left _ ha)) hpre

theorem cmp_key_self (h : MapInv mem) (he : e ∈ mem) : MemoryRangeKey.cmp e.1 e.1 = .eq :=
  MemoryRangeKey.cmp_self (h.wf e he).nonempty

/-- `get` of a stored key returns its mapping. -/
theorem get_key (h : MapInv mem) (he : e ∈ mem) : CmpList.get MemoryRangeKey.cmp e.1 mem = some e.2 := by
  obtain ⟨pre, post, hmem, hpre, -⟩ := h.split he
  rw [hmem, CmpList.get_append (h.below_pre hmem hpre)]
  exact CmpList.get_cons_of_eq (h.cmp_key_self he)

/-- `remove` of a stored key drops exactly that entry. -/
theorem remove_key (h : MapInv mem) (hmem : mem = pre ++ e :: post)
    (hpre : ∀ a ∈ pre, a.1.end_ ≤ e.1.start_) :
    CmpList.remove MemoryRangeKey.cmp e.1 mem = pre ++ post := by
  have he : e ∈ mem := by rw [hmem]; exact List.mem_append_right _ List.mem_cons_self
  rw [hmem, CmpList.remove_append (h.below_pre hmem hpre)]
  rw [CmpList.remove_cons_of_eq (h.cmp_key_self he)]

/-- A forward search from a stored key starts at it. -/
theorem lowerBound_key (h : MapInv mem) (hmem : mem = pre ++ e :: post)
    (hpre : ∀ a ∈ pre, a.1.end_ ≤ e.1.start_) :
    CmpList.lowerBound MemoryRangeKey.cmp e.1 mem = e :: post := by
  have he : e ∈ mem := by rw [hmem]; exact List.mem_append_right _ List.mem_cons_self
  rw [hmem, CmpList.lowerBound_append (h.below_pre hmem hpre)]
  apply CmpList.lowerBound_cons_of_ne
  rw [h.cmp_key_self he]
  decide

/-- A backward search from a stored key ends at it. -/
theorem upTo_key (h : MapInv mem) (hmem : mem = pre ++ e :: post)
    (hpre : ∀ a ∈ pre, a.1.end_ ≤ e.1.start_) :
    CmpList.upTo MemoryRangeKey.cmp e.1 mem = pre ++ [e] := by
  have he : e ∈ mem := by rw [hmem]; exact List.mem_append_right _ List.mem_cons_self
  rw [hmem, CmpList.upTo_append (h.below_pre hmem hpre)]
  rw [CmpList.upTo_cons_of_eq (h.cmp_key_self he)]

/-- Removing a stored key keeps the invariant and every other entry. -/
theorem remove_mem (h : MapInv mem) (he : e ∈ mem) :
    MapInv (CmpList.remove MemoryRangeKey.cmp e.1 mem) ∧
      ∀ x, x ∈ CmpList.remove MemoryRangeKey.cmp e.1 mem ↔ x ∈ mem ∧ x ≠ e := by
  obtain ⟨pre, post, hmem, hpre, hpost⟩ := h.split he
  rw [h.remove_key hmem hpre]
  have hsub : (pre ++ post).Sublist mem := by
    rw [hmem]
    exact List.Sublist.append (List.Sublist.refl pre) (List.sublist_cons_self e post)
  refine ⟨h.sublist hsub, fun x => ⟨fun hx => ⟨hsub.subset hx, ?_⟩, fun ⟨hx, hne⟩ => ?_⟩⟩
  · rintro rfl
    have hwf := (h.wf x he).nonempty
    rcases List.mem_append.1 hx with hx | hx
    · have := hpre x hx; omega
    · have := hpost x hx; omega
  · rw [hmem] at hx
    rcases List.mem_append.1 hx with hx | hx
    · exact List.mem_append_left _ hx
    · rcases List.mem_cons.1 hx with rfl | hx
      · exact absurd rfl hne
      · exact List.mem_append_right _ hx

end Stored

/-! ### A point query finds the first entry ending after the point -/

/-- The entries ending after `x` are the ones left once those ending at or
before it are dropped. -/
theorem lt_end_of_mem_dropWhile (h : MapInv mem) (x : Nat) :
    ∀ e ∈ mem.dropWhile (fun e => decide (e.1.end_ ≤ x)), x < e.1.end_ := by
  induction mem with
  | nil => simp
  | cons a l ih =>
    have hl : MapInv l := h.sublist (List.sublist_cons_self a l)
    by_cases hax : a.1.end_ ≤ x
    · simp only [List.dropWhile_cons, hax, decide_true]
      exact ih hl
    · simp only [List.dropWhile_cons, hax, decide_false]
      intro e he
      rcases List.mem_cons.1 he with rfl | he
      · omega
      · have h1 := (List.pairwise_cons.1 h.sorted).1 e he
        have h2 := (h.wf e (List.mem_cons_of_mem _ he)).nonempty
        omega

/-- `lowerBound` for the point query `[x, x + 1)` drops exactly the entries
ending at or before `x`. -/
theorem lowerBound_point (h : MapInv mem) (x : Nat) :
    CmpList.lowerBound MemoryRangeKey.cmp (MemoryRange.new_range x 1) mem =
      mem.dropWhile (fun e => decide (e.1.end_ ≤ x)) := by
  have hsplit := (List.takeWhile_append_dropWhile (p := fun e => decide (e.1.end_ ≤ x)) (l := mem))
  have hbelow : CmpList.Below MemoryRangeKey.cmp (MemoryRange.new_range x 1)
      (mem.takeWhile (fun e => decide (e.1.end_ ≤ x))) := by
    apply below_of_end_le
    · exact fun e he => h.wf e ((List.takeWhile_sublist _).subset he)
    · intro e he
      simpa [MemoryRange.new_range] using List.mem_takeWhile_imp he
  conv_lhs => rw [← hsplit]
  rw [CmpList.lowerBound_append hbelow]
  have hpost := h.lt_end_of_mem_dropWhile x
  cases hd : mem.dropWhile (fun e => decide (e.1.end_ ≤ x)) with
  | nil => rfl
  | cons e rest =>
    have hex : x < e.1.end_ := hpost e (by rw [hd]; exact List.mem_cons_self)
    have hwf : EntryWf e := h.wf e ((List.dropWhile_sublist _).subset (by rw [hd]; exact List.mem_cons_self))
    apply CmpList.lowerBound_cons_of_ne
    intro hgt
    rcases MemoryRangeKey.cmp_cases (MemoryRange.new_range x 1) e.1 with
      ⟨-, hni, hlt⟩ | ⟨hlt, -⟩ | ⟨heq, -⟩
    · have hx1 : x + 1 < 2 ^ 64 := by have := hwf.end_lt; omega
      have hint : (MemoryRange.new_range x 1).intersects e.1 = true := by
        rw [MemoryRange.intersects_iff]
        simp only [MemoryRange.new_range, wrapping_add_of_lt hx1] at hlt ⊢
        have := hwf.nonempty
        omega
      rw [hint] at hni
      exact Bool.noConfusion hni
    · rw [hgt] at hlt; exact Ordering.noConfusion hlt
    · rw [hgt] at heq; exact Ordering.noConfusion heq

/-- What the point query finds: the first entry ending after `x`, which starts at or
below every other entry ending after `x`. -/
theorem lowerBound_point_cons (h : MapInv mem) {x : Nat} {e : MemoryRange × Mapping}
    {rest : MemoryMap}
    (hfound : CmpList.lowerBound MemoryRangeKey.cmp (MemoryRange.new_range x 1) mem = e :: rest) :
    e ∈ mem ∧ x < e.1.end_ ∧ ∀ a ∈ mem, x < a.1.end_ → a ≠ e → e.1.end_ ≤ a.1.start_ := by
  rw [h.lowerBound_point x] at hfound
  have hsub := List.dropWhile_sublist (p := fun e => decide (e.1.end_ ≤ x)) (l := mem)
  have he : e ∈ mem := hsub.subset (by rw [hfound]; exact List.mem_cons_self)
  have hex : x < e.1.end_ := h.lt_end_of_mem_dropWhile x e (by rw [hfound]; exact List.mem_cons_self)
  refine ⟨he, hex, fun a ha hxa hne => ?_⟩
  rcases h.apart he ha hne.symm with hap | hap
  · exact hap
  · -- `a` ends at or before `e` starts, yet after `x`: it would not have been dropped.
    have hdrop := List.takeWhile_append_dropWhile (p := fun e => decide (e.1.end_ ≤ x)) (l := mem)
    rw [hfound] at hdrop
    have hs := h.sorted
    rw [← hdrop, List.pairwise_append] at hs
    rw [← hdrop] at ha
    rcases List.mem_append.1 ha with ha | ha
    · have := List.mem_takeWhile_imp ha
      simp only [decide_eq_true_eq] at this
      omega
    · rcases List.mem_cons.1 ha with rfl | ha
      · exact absurd rfl hne
      · have := (List.pairwise_cons.1 hs.2.1).1 a ha
        have := (h.wf a (hsub.subset (by rw [hfound]; exact List.mem_cons_of_mem _ ha))).nonempty
        have := (h.wf e he).nonempty
        omega

/-- When the point query finds nothing, every entry ends at or before `x`. -/
theorem lowerBound_point_nil (h : MapInv mem) {x : Nat}
    (hfound : CmpList.lowerBound MemoryRangeKey.cmp (MemoryRange.new_range x 1) mem = []) :
    ∀ a ∈ mem, a.1.end_ ≤ x := by
  rw [h.lowerBound_point x, List.dropWhile_eq_nil_iff] at hfound
  intro a ha
  simpa using hfound a ha

/-! ### A key apart from every entry is inserted in place -/

/-- `insert` of a key apart from every entry adds it between the entries below
and above it, replacing nothing. -/
theorem insert_apart (h : MapInv mem) {k : MemoryRange} {v : Mapping} (hk : EntryWf (k, v))
    (hap : ∀ e ∈ mem, Apart k e.1) :
    CmpList.insert MemoryRangeKey.cmp k v mem =
      mem.takeWhile (fun e => decide (e.1.end_ ≤ k.start_)) ++
        (k, v) :: mem.dropWhile (fun e => decide (e.1.end_ ≤ k.start_)) := by
  have hsplit := List.takeWhile_append_dropWhile (p := fun e => decide (e.1.end_ ≤ k.start_)) (l := mem)
  have hbelow : CmpList.Below MemoryRangeKey.cmp k
      (mem.takeWhile (fun e => decide (e.1.end_ ≤ k.start_))) := by
    apply below_of_end_le
    · exact fun e he => h.wf e ((List.takeWhile_sublist _).subset he)
    · intro e he
      simpa using List.mem_takeWhile_imp he
  conv_lhs => rw [← hsplit]
  rw [CmpList.insert_append hbelow]
  congr 1
  cases hd : mem.dropWhile (fun e => decide (e.1.end_ ≤ k.start_)) with
  | nil => rfl
  | cons e rest =>
    have hmem : e ∈ mem := (List.dropWhile_sublist _).subset (by rw [hd]; exact List.mem_cons_self)
    have hke : k.start_ < e.1.end_ :=
      h.lt_end_of_mem_dropWhile k.start_ e (by rw [hd]; exact List.mem_cons_self)
    have hwf := h.wf e hmem
    have hkne : k.start_ < k.end_ := hk.nonempty
    have hlt : MemoryRangeKey.cmp k e.1 = .lt := by
      apply MemoryRangeKey.cmp_lt_of_apart hwf.nonempty hkne (hap e hmem)
      rcases hap e hmem with hap | hap <;> omega
    exact CmpList.insert_cons_of_lt hlt

/-- Inserting a well-formed key apart from every entry keeps the invariant and
adds exactly that entry. -/
theorem insert_mem (h : MapInv mem) {k : MemoryRange} {v : Mapping} (hk : EntryWf (k, v))
    (hap : ∀ e ∈ mem, Apart k e.1) :
    MapInv (CmpList.insert MemoryRangeKey.cmp k v mem) ∧
      ∀ x, x ∈ CmpList.insert MemoryRangeKey.cmp k v mem ↔ x = (k, v) ∨ x ∈ mem := by
  rw [h.insert_apart hk hap]
  have hsplit := List.takeWhile_append_dropWhile (p := fun e => decide (e.1.end_ ≤ k.start_)) (l := mem)
  have hpre : ∀ e ∈ mem.takeWhile (fun e => decide (e.1.end_ ≤ k.start_)), e.1.end_ ≤ k.start_ :=
    fun e he => by simpa using List.mem_takeWhile_imp he
  have hpost : ∀ e ∈ mem.dropWhile (fun e => decide (e.1.end_ ≤ k.start_)), k.end_ ≤ e.1.start_ := by
    intro e he
    have hmem : e ∈ mem := (List.dropWhile_sublist _).subset he
    have := h.lt_end_of_mem_dropWhile k.start_ e he
    rcases hap e hmem with hap | hap
    · exact hap
    · omega
  have hs := h.sorted
  rw [← hsplit, List.pairwise_append] at hs
  obtain ⟨hs1, hs2, hs12⟩ := hs
  refine ⟨⟨?_, ?_⟩, fun x => ?_⟩
  · rw [List.pairwise_append]
    refine ⟨hs1, List.pairwise_cons.2 ⟨hpost, hs2⟩, fun a ha b hb => ?_⟩
    rcases List.mem_cons.1 hb with rfl | hb
    · exact hpre a ha
    · exact hs12 a ha b hb
  · intro e he
    rcases List.mem_append.1 he with he | he
    · exact h.wf e ((List.takeWhile_sublist _).subset he)
    · rcases List.mem_cons.1 he with rfl | he
      · exact hk
      · exact h.wf e ((List.dropWhile_sublist _).subset he)
  · conv_rhs => rw [← hsplit]
    simp only [List.mem_append, List.mem_cons]
    tauto

/-! ### `mapping_of` -/

/-- The entry containing an address is the first entry that does. -/
theorem find?_contains (h : MapInv mem) {e : MemoryRange × Mapping} (he : e ∈ mem) {x : Nat}
    (hc : e.1.contains_ptr x = true) : mem.find? (fun e => e.1.contains_ptr x) = some e := by
  rw [List.find?_eq_some_iff_append]
  refine ⟨hc, ?_⟩
  obtain ⟨pre, post, hmem, hpre, -⟩ := h.split he
  refine ⟨pre, post, hmem, fun a ha => ?_⟩
  have := hpre a ha
  simp only [MemoryRange.contains_ptr_iff] at hc
  simp only [Bool.not_eq_true', Bool.eq_false_iff, ne_eq, MemoryRange.contains_ptr_iff]
  omega

/-- `mapping_of` returns the mapping of the entry containing the address, and
nothing when no entry does. -/
theorem mapping_of_eq (h : MapInv mem) (s : AddressSpace) (hs : s.mem = mem) (x : Nat) :
    s.mapping_of x = (mem.find? (fun e => e.1.contains_ptr x)).map Prod.snd := by
  unfold AddressSpace.mapping_of
  rw [hs]
  cases hfound : CmpList.lowerBound MemoryRangeKey.cmp (MemoryRange.new_range x 1) mem with
  | nil =>
    have hall := h.lowerBound_point_nil hfound
    have : mem.find? (fun e => e.1.contains_ptr x) = none := by
      rw [List.find?_eq_none]
      intro e he
      have := hall e he
      simp only [MemoryRange.contains_ptr_iff, not_and, not_lt]
      omega
    rw [this]
    rfl
  | cons e rest =>
    obtain ⟨he, hxe, hfirst⟩ := h.lowerBound_point_cons hfound
    have hwf := h.wf e he
    simp only [hwf.map_mr]
    by_cases hc : e.1.contains_ptr x = true
    · -- The found entry contains `x`, and it is the only one that does.
      rw [h.find?_contains he hc, if_pos hc]
      rfl
    · -- The found entry starts above `x`: no entry contains it.
      have : mem.find? (fun e => e.1.contains_ptr x) = none := by
        rw [List.find?_eq_none]
        intro a ha
        simp only [MemoryRange.contains_ptr_iff, not_and, not_lt] at hc ⊢
        intro hax
        by_cases hae : a = e
        · subst hae; exact hc hax
        · have hxs : x < e.1.start_ := by
            by_contra hle
            have := hc (by omega)
            omega
          by_contra hxa
          have := hfirst a ha (by omega) hae
          have := (h.wf e he).nonempty
          omega
      rw [this, if_neg hc]
      rfl

/-- `mapping_of` an address a member contains is that member's mapping. -/
theorem mapping_of_mem (h : MapInv mem) (s : AddressSpace) (hs : s.mem = mem)
    {e : MemoryRange × Mapping} (he : e ∈ mem) {x : Nat} (hc : e.1.contains_ptr x = true) :
    s.mapping_of x = some e.2 := by
  rw [h.mapping_of_eq s hs x, h.find?_contains he hc]
  rfl

/-- What `mapping_of` returns is the mapping of an entry containing the address. -/
theorem entry_of_mapping_of (h : MapInv mem) {s : AddressSpace} (hs : s.mem = mem) {x : Nat}
    {m : Mapping} (hm : s.mapping_of x = some m) :
    ∃ e ∈ mem, e.1.contains_ptr x = true ∧ e.2 = m := by
  rw [h.mapping_of_eq s hs x] at hm
  obtain ⟨e, he, rfl⟩ := Option.map_eq_some_iff.1 hm
  have hc : e.1.contains_ptr x = true := by simpa using List.find?_some he
  exact ⟨e, List.mem_of_find?_eq_some he, hc, rfl⟩

end MapInv

end RdReplay
