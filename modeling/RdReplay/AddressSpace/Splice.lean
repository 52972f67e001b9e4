/-
  AddressSpace/Splice.lean --- what one turn of `for_each_in_range` does to a
  well-formed memory map: the entry the callback is handed is replaced, in
  place, by pieces of it.

  THE TURN.  A callback looks up the key it is handed (`get`), erases it
  (`remove_from_map`), and inserts pieces cut from the mapping with
  `add_to_map`, lowest first.  On a well-formed map the key cuts the list into
  the entries below it and those above it (`MapInv.cut`), the erase leaves
  exactly the two parts, and each piece, lying between them, is inserted
  between them (`insert_between`).

  THE SPLICE.  `Splice mem mem' lo hi ps` says that `mem'` is `mem` with the
  run of entries lying in `[lo, hi)` replaced by the pieces `ps`, which are in
  order, well formed and lie there too.  A callback's turn is a splice of one
  entry, inserting a new mapping into a hole is a splice of no entry, and
  coalescing is a splice of a run by one entry.  A splice keeps the invariant
  and changes the view on the pages of `[lo, hi)` only, where it becomes the
  view of the pieces.
-/
import RdReplay.AddressSpace.View

set_option autoImplicit false

namespace RdReplay

/-! ## Inserting between two parts of the map -/

/-- A non-empty key lying between the entries of `X` and those of `Y` is
inserted between them. -/
theorem insert_between {X Y : MemoryMap} {k : MemoryRange} {v : Mapping} (hk : k.start_ < k.end_)
    (hX : ∀ a ∈ X, a.1.start_ < a.1.end_ ∧ a.1.end_ ≤ k.start_) (hY : ∀ b ∈ Y, k.end_ ≤ b.1.start_) :
    CmpList.insert MemoryRangeKey.cmp k v (X ++ Y) = X ++ (k, v) :: Y := by
  have hbelow : CmpList.Below MemoryRangeKey.cmp k X := fun a ha =>
    MemoryRangeKey.cmp_eq_gt (hX a ha).1 (hX a ha).2
  rw [CmpList.insert_append hbelow]
  cases Y with
  | nil => rfl
  | cons b Y =>
    have hlt : MemoryRangeKey.cmp k b.1 = .lt :=
      MemoryRangeKey.cmp_eq_lt hk (hY b List.mem_cons_self)
    rw [CmpList.insert_cons_of_lt hlt]

@[simp] theorem AddressSpace.add_to_map_mem (s : AddressSpace) (m : Mapping) :
    (s.add_to_map m).mem = CmpList.insert MemoryRangeKey.cmp m.map.mr m s.mem := rfl

@[simp] theorem AddressSpace.remove_from_map_mem (s : AddressSpace) (r : MemoryRange) :
    (s.remove_from_map r).mem = CmpList.remove MemoryRangeKey.cmp r s.mem := rfl

namespace MapInv

variable {mem : MemoryMap} {e : MemoryRange × Mapping}

/-- A member cuts the map in two: `get` of its key finds its mapping, and
`remove_from_map` of its mapping's range leaves the entries below it and those
above it. -/
theorem cut (h : MapInv mem) (he : e ∈ mem) :
    ∃ X Y, mem = X ++ e :: Y ∧ (∀ a ∈ X, a.1.start_ < a.1.end_ ∧ a.1.end_ ≤ e.1.start_) ∧
      (∀ b ∈ Y, e.1.end_ ≤ b.1.start_) ∧
      CmpList.get MemoryRangeKey.cmp e.1 mem = some e.2 ∧
      CmpList.remove MemoryRangeKey.cmp e.2.map.mr mem = X ++ Y := by
  obtain ⟨X, Y, hmem, hX, hY⟩ := h.split he
  have hXwf : ∀ a ∈ X, a.1.start_ < a.1.end_ := fun a ha =>
    (h.wf a (by rw [hmem]; exact List.mem_append_left _ ha)).nonempty
  refine ⟨X, Y, hmem, fun a ha => ⟨hXwf a ha, hX a ha⟩, hY, h.get_key he, ?_⟩
  rw [(h.wf e he).map_mr]
  exact h.remove_key hmem hX

/-- The pages between `last` and the first entry ending after it are unmapped. -/
theorem gap_none (h : MapInv mem) {last : Nat} {range : MemoryRange} {v : Mapping}
    {rest : MemoryMap}
    (hfound : CmpList.lowerBound MemoryRangeKey.cmp (MemoryRange.new_range last 1) mem =
      (range, v) :: rest)
    {p : Nat} (hlp : last ≤ p) (hpr : p < range.start_) : mem_view mem p = none := by
  obtain ⟨he, -, hfirst⟩ := h.lowerBound_point_cons hfound
  apply mem_view_eq_none
  rintro a ha ⟨hap, hpa⟩
  by_cases hae : a = (range, v)
  · subst hae
    dsimp only at hap
    omega
  · have hra : range.end_ ≤ a.1.start_ := hfirst a ha (by omega) hae
    have hne : range.start_ < range.end_ := (h.wf _ he).nonempty
    omega

/-- When the point query at `last` finds nothing, the pages from `last` on are
unmapped. -/
theorem above_none (h : MapInv mem) {last : Nat}
    (hfound : CmpList.lowerBound MemoryRangeKey.cmp (MemoryRange.new_range last 1) mem = [])
    {p : Nat} (hlp : last ≤ p) : mem_view mem p = none := by
  have hall := h.lowerBound_point_nil hfound
  apply mem_view_eq_none
  rintro a ha ⟨-, hpa⟩
  have := hall a ha
  omega

end MapInv

/-! ## Pieces -/

/-- A piece `[a, b)` cut from a well-formed entry the way the closures cut one is
well formed. -/
theorem EntryWf.piece {e : MemoryRange × Mapping} (he : EntryWf e) {m : Mapping} {a b : Nat}
    (hmr : m.map.mr = ⟨a, b⟩) (hrec : m.recorded_map.mr = ⟨a, b⟩)
    (hfl : m.map.flags_ = e.2.map.flags_ &&& KernelMapping.MAP_FLAGS_MASK)
    (hoff : m.map.offset < 2 ^ 64) (hab : a < b) (ha : Aligned a) (hb : Aligned b) (hbe : b ≤ e.1.end_) : EntryWf (⟨a, b⟩, m) where
  nonempty := hab
  start_aligned := ha
  end_aligned := hb
  end_lt := Nat.lt_of_le_of_lt hbe he.end_lt
  map_mr := hmr
  recorded_mr := hrec
  masked := by rw [hfl, KernelMapping.flags_masked_idem]
  offset_lt := hoff

/-- Adding a piece that lies between the two parts of the map puts it there. -/
theorem AddressSpace.add_to_map_between {s : AddressSpace} {X Y : MemoryMap} (hs : s.mem = X ++ Y)
    {m : Mapping} (hk : m.map.mr.start_ < m.map.mr.end_)
    (hX : ∀ a ∈ X, a.1.start_ < a.1.end_ ∧ a.1.end_ ≤ m.map.mr.start_)
    (hY : ∀ b ∈ Y, m.map.mr.end_ ≤ b.1.start_) :
    (s.add_to_map m).mem = X ++ (m.map.mr, m) :: Y := by
  rw [AddressSpace.add_to_map_mem, hs, insert_between hk hX hY]

/-- The closures add each piece under its own condition: adding it or not, the
map is the two parts with the piece between them or without it. -/
theorem AddressSpace.add_to_map_if {s : AddressSpace} {X Y : MemoryMap} (hs : s.mem = X ++ Y)
    (c : Prop) [Decidable c] {m : Mapping}
    (hfit : c → m.map.mr.start_ < m.map.mr.end_ ∧
      (∀ a ∈ X, a.1.start_ < a.1.end_ ∧ a.1.end_ ≤ m.map.mr.start_) ∧
      ∀ b ∈ Y, m.map.mr.end_ ≤ b.1.start_) :
    (if c then s.add_to_map m else s).mem = X ++ (if c then [(m.map.mr, m)] else []) ++ Y := by
  split_ifs with hc
  · obtain ⟨hk, hX, hY⟩ := hfit hc
    rw [add_to_map_between hs hk hX hY]
    simp
  · simpa using hs

/-! ## Splices -/

/-- On the pages of `[lo, hi)` only the entries between the parts below and
above it are seen. -/
theorem mem_view_between {X seg Y : MemoryMap} {lo hi p : Nat} (hX : ∀ a ∈ X, a.1.end_ ≤ lo)
    (hY : ∀ b ∈ Y, hi ≤ b.1.start_) (hp : lo ≤ p ∧ p < hi) :
    mem_view (X ++ seg ++ Y) p = mem_view seg p := by
  have hXp : mem_view X p = none := mem_view_eq_none fun a ha => by
    have := hX a ha
    omega
  have hYp : mem_view Y p = none := mem_view_eq_none fun b hb => by
    have := hY b hb
    omega
  simp [mem_view_append, hXp, hYp]

/-- `mem'` is `mem` with the run of entries lying in `[lo, hi)` replaced by the
pieces `ps`, which lie there too. -/
structure Splice (mem mem' : MemoryMap) (lo hi : Nat) (ps : MemoryMap) : Prop where
  split : ∃ X seg Y, mem = X ++ seg ++ Y ∧ mem' = X ++ ps ++ Y ∧ (∀ a ∈ X, a.1.end_ ≤ lo) ∧
    (∀ b ∈ Y, hi ≤ b.1.start_) ∧ ∀ q ∈ seg, lo ≤ q.1.start_ ∧ q.1.end_ ≤ hi
  sorted : ps.Pairwise (fun a b => a.1.end_ ≤ b.1.start_)
  inside : ∀ q ∈ ps, lo ≤ q.1.start_ ∧ q.1.end_ ≤ hi
  wf : ∀ q ∈ ps, EntryWf q

namespace Splice

variable {mem mem' ps : MemoryMap} {lo hi : Nat}

theorem mapInv (h : MapInv mem) (hs : Splice mem mem' lo hi ps) : MapInv mem' := by
  obtain ⟨X, seg, Y, rfl, rfl, hX, hY, -⟩ := hs.split
  -- what is kept on either side is still in order
  have hXY : MapInv (X ++ Y) :=
    h.sublist (List.Sublist.append (List.sublist_append_left X seg) (List.Sublist.refl Y))
  have hsorted := hXY.sorted
  rw [List.pairwise_append] at hsorted
  obtain ⟨hXs, hYs, hXYs⟩ := hsorted
  refine ⟨?_, fun a ha => ?_⟩
  · rw [List.pairwise_append, List.pairwise_append]
    refine ⟨⟨hXs, hs.sorted, fun a ha q hq => ?_⟩, hYs, fun a ha b hb => ?_⟩
    · have := hX a ha
      have := (hs.inside q hq).1
      omega
    · rcases List.mem_append.1 ha with ha | hq
      · exact hXYs a ha b hb
      · have := hY b hb
        have := (hs.inside a hq).2
        omega
  · rcases List.mem_append.1 ha with ha | ha
    · rcases List.mem_append.1 ha with ha | hq
      · exact hXY.wf a (List.mem_append_left _ ha)
      · exact hs.wf a hq
    · exact hXY.wf a (List.mem_append_right _ ha)

/-- What holds of every entry of the map and of every piece holds of every entry
after the splice. -/
theorem forall_mem {P : MemoryRange × Mapping → Prop} (hs : Splice mem mem' lo hi ps)
    (h : ∀ e ∈ mem, P e) (hps : ∀ q ∈ ps, P q) : ∀ e ∈ mem', P e := by
  obtain ⟨X, seg, Y, rfl, rfl, -⟩ := hs.split
  intro e he
  rcases List.mem_append.1 he with he | he
  · rcases List.mem_append.1 he with he | he
    · exact h e (List.mem_append_left _ (List.mem_append_left _ he))
    · exact hps e he
  · exact h e (List.mem_append_right _ he)

/-- Every entry after a splice lies below `lo`, above `hi`, or between them. -/
theorem mem_cases (hs : Splice mem mem' lo hi ps) {e : MemoryRange × Mapping} (he : e ∈ mem') :
    e.1.end_ ≤ lo ∨ hi ≤ e.1.start_ ∨ (lo ≤ e.1.start_ ∧ e.1.end_ ≤ hi) := by
  obtain ⟨X, seg, Y, -, rfl, hX, hY, -⟩ := hs.split
  rcases List.mem_append.1 he with he | he
  · rcases List.mem_append.1 he with he | he
    · exact .inl (hX e he)
    · exact .inr (.inr (hs.inside e he))
  · exact .inr (.inl (hY e he))

/-- A splice changes the view on the pages of `[lo, hi)` only, where it becomes
the view of the pieces. -/
theorem mem_view_eq (hs : Splice mem mem' lo hi ps) (p : Nat) :
    mem_view mem' p = if lo ≤ p ∧ p < hi then mem_view ps p else mem_view mem p := by
  obtain ⟨X, seg, Y, rfl, rfl, hX, hY, hseg⟩ := hs.split
  split_ifs with hp
  · exact mem_view_between hX hY hp
  · -- the pieces and the run they replace lie inside `[lo, hi)`
    have hpsp : mem_view ps p = none := mem_view_eq_none fun q hq => by
      have := hs.inside q hq
      omega
    have hsegp : mem_view seg p = none := mem_view_eq_none fun q hq => by
      have := hseg q hq
      omega
    simp [mem_view_append, hpsp, hsegp]

end Splice

/-! ## Inserting into a hole -/

namespace MapInv

variable {mem : MemoryMap}

/-- A nonempty key none of whose pages is mapped is apart from every entry. -/
theorem apart_of_unmapped (h : MapInv mem) {k : MemoryRange} (hk : k.start_ < k.end_)
    (hfree : ∀ p, k.start_ ≤ p → p < k.end_ → mem_view mem p = none) :
    ∀ e ∈ mem, Apart k e.1 := by
  intro e he
  by_contra hap
  unfold Apart at hap
  have := (h.wf e he).nonempty
  -- the higher of the two starts is a page of both
  have hin : e.1.contains_ptr (max k.start_ e.1.start_) = true := by
    rw [MemoryRange.contains_ptr_iff]; omega
  have := hfree (max k.start_ e.1.start_) (by omega) (by omega)
  rw [h.mem_view_of_mem he hin] at this
  cases this

/-- Inserting a well-formed key into a hole is a splice of no entry. -/
theorem insert_splice (h : MapInv mem) {k : MemoryRange} {v : Mapping} (hk : EntryWf (k, v))
    (hfree : ∀ p, k.start_ ≤ p → p < k.end_ → mem_view mem p = none) :
    Splice mem (CmpList.insert MemoryRangeKey.cmp k v mem) k.start_ k.end_ [(k, v)] := by
  have hkne : k.start_ < k.end_ := hk.nonempty
  have hap := h.apart_of_unmapped hkne hfree
  refine ⟨⟨mem.takeWhile (fun e => decide (e.1.end_ ≤ k.start_)), [],
    mem.dropWhile (fun e => decide (e.1.end_ ≤ k.start_)), by simp, ?_, ?_, ?_, by simp⟩,
    List.pairwise_singleton _ _, by simp, by simpa using hk⟩
  · rw [h.insert_apart hk hap]
    simp
  · intro e he
    simpa using List.mem_takeWhile_imp he
  · intro e he
    have hmem : e ∈ mem := (List.dropWhile_sublist _).subset he
    have := h.lt_end_of_mem_dropWhile k.start_ e he
    rcases hap e hmem with hap | hap
    · exact hap
    · omega

end MapInv

end RdReplay
