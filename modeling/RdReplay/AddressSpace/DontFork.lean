/-
  AddressSpace/DontFork.lean --- the `DONTFORK` range set.

  Source: `session/address_space.rs`: `remove_range`, `add_range`,
  `AddressSpace::advise` and `AddressSpace::did_fork_into`.

  THE ORDER THE SET IS KEPT IN.  `dont_fork` is a `BTreeSet<MemoryRange>`, and
  `MemoryRange` derives `Ord`: ranges compare by start and then by end
  (`MemoryRange.cmp_lex`).  That is a linear order on ranges, made an instance
  here, so the set is a `CmpList` with increasing keys and its scans are the
  lookup, insertion and removal of one range.

  WHAT `remove_range` REMOVES.  Its loop runs while `ranges.get(&range)` finds
  something, and under the derived order `get` finds only `range` itself.  So
  the loop removes `range` if the set holds it and nothing else, and its two
  split branches never run (`remove_range_eq_remove`).  The addresses the set
  covers after `add_range` are those it covered and the new range's
  (`covered_add_range`); after `remove_range` they are those every other range
  of the set covers (`mem_covered_remove_range`), which keeps the part of a
  marked range that a smaller `MADV_DOFORK` was meant to clear.
-/
import RdReplay.Lib.CmpListOrder
import RdReplay.AddressSpace.Ops

set_option autoImplicit false

namespace RdReplay

/-- The order `MemoryRange` derives: by start, and then by end. -/
instance : LinearOrder MemoryRange :=
  LinearOrder.lift' (fun r => toLex (r.start_, r.end_)) (by
    intro a b h
    cases a
    cases b
    simp_all)

/-- `remove_range` and `add_range` search the set with the derived order. -/
theorem MemoryRange.cmp_lex_eq_compare : MemoryRange.cmp_lex = compare := rfl

/-! ## `remove_range` and `add_range` on a set kept in order -/

variable {ranges : List (MemoryRange × Unit)} {range : MemoryRange}

/-- `remove_range`'s loop stops at once when `get` does not find `range`. -/
theorem remove_range_loop_of_get_none (h : CmpList.get compare range ranges = none) :
    ∀ fuel, remove_range_loop range fuel ranges = ranges
  | 0 => rfl
  | fuel + 1 => by
    cases hlb : CmpList.lowerBound MemoryRange.cmp_lex range ranges with
    | nil => simp only [remove_range_loop, hlb]
    | cons e rest =>
      obtain ⟨matched, ⟨⟩⟩ := e
      -- the range the search stops at is not `range`, or `get` would find it
      have hne : MemoryRange.cmp_lex range matched ≠ .eq := by
        intro heq
        have h' : CmpList.get MemoryRange.cmp_lex range ranges = none := h
        simp [CmpList.get, hlb, heq] at h'
      simp only [remove_range_loop, hlb, if_neg hne]

/-- A turn of `remove_range`'s loop at a range the set holds removes it and adds
nothing back: the range `get` finds is `range` itself. -/
theorem remove_range_loop_of_mem (hs : CmpList.Sorted ranges) (hm : (range, ()) ∈ ranges)
    (fuel : Nat) :
    remove_range_loop range (fuel + 1) ranges =
      remove_range_loop range fuel (CmpList.remove compare range ranges) := by
  have hget : CmpList.get MemoryRange.cmp_lex range ranges = some () :=
    (CmpList.get_eq_some_iff hs).2 hm
  cases hlb : CmpList.lowerBound MemoryRange.cmp_lex range ranges with
  | nil => simp [CmpList.get, hlb] at hget
  | cons e rest =>
    obtain ⟨matched, ⟨⟩⟩ := e
    have heq : MemoryRange.cmp_lex range matched = .eq := by
      by_contra hne
      simp [CmpList.get, hlb, hne] at hget
    have hmatched : matched = range := (compare_eq_iff_eq.1 heq).symm
    subst hmatched
    simp only [remove_range_loop, hlb, if_pos heq, lt_irrefl, if_false]
    rfl

/-- `remove_range` removes `range` from the set if it is there, and nothing else. -/
theorem remove_range_eq_remove (hs : CmpList.Sorted ranges) (range : MemoryRange) :
    remove_range ranges range = CmpList.remove compare range ranges := by
  unfold remove_range
  by_cases hm : (range, ()) ∈ ranges
  · rw [remove_range_loop_of_mem hs hm]
    exact remove_range_loop_of_get_none (CmpList.get_remove_self hs) _
  · have hg : CmpList.get compare range ranges = none :=
      (CmpList.get_eq_none_iff hs).2 fun v => by cases v; exact hm
    rw [remove_range_loop_of_get_none hg, CmpList.remove_of_get_none hg]

theorem sorted_remove_range (hs : CmpList.Sorted ranges) :
    CmpList.Sorted (remove_range ranges range) := by
  rw [remove_range_eq_remove hs]
  exact hs.remove

/-- `add_range` inserts the range after removing the one equal to it. -/
theorem add_range_eq_insert (hs : CmpList.Sorted ranges) :
    add_range ranges range = CmpList.insert compare range () (CmpList.remove compare range ranges) := by
  rw [add_range, remove_range_eq_remove hs]
  rfl

theorem sorted_add_range (hs : CmpList.Sorted ranges) : CmpList.Sorted (add_range ranges range) := by
  rw [add_range_eq_insert hs]
  exact hs.remove.insert

theorem mem_remove_range_iff (hs : CmpList.Sorted ranges) {x : MemoryRange × Unit} :
    x ∈ remove_range ranges range ↔ x ∈ ranges ∧ x.1 ≠ range := by
  rw [remove_range_eq_remove hs, CmpList.mem_remove_iff hs]

theorem mem_add_range_iff (hs : CmpList.Sorted ranges) {x : MemoryRange × Unit} :
    x ∈ add_range ranges range ↔ x = (range, ()) ∨ x ∈ ranges := by
  rw [add_range_eq_insert hs, CmpList.mem_insert_iff hs.remove, CmpList.mem_remove_iff hs]
  obtain ⟨r, ⟨⟩⟩ := x
  constructor
  · rintro (h | ⟨⟨h, -⟩, -⟩)
    · exact .inl h
    · exact .inr h
  · rintro (h | h)
    · exact .inl h
    · by_cases hr : r = range
      · exact .inl (by rw [hr])
      · exact .inr ⟨⟨h, hr⟩, hr⟩

/-! ## The addresses the set covers -/

/-- The addresses some range of the set contains. -/
def covered (ranges : List (MemoryRange × Unit)) : Set Nat :=
  {p | ∃ e ∈ ranges, e.1.contains_ptr p = true}

/-- After `add_range` the set covers what it covered and the new range. -/
theorem covered_add_range (hs : CmpList.Sorted ranges) :
    covered (add_range ranges range) = covered ranges ∪ {p | range.contains_ptr p = true} := by
  ext p
  simp only [covered, Set.mem_ofPred_eq, Set.mem_union, mem_add_range_iff hs]
  constructor
  · rintro ⟨e, rfl | he, hp⟩
    · exact .inr hp
    · exact .inl ⟨e, he, hp⟩
  · rintro (⟨e, he, hp⟩ | hp)
    · exact ⟨e, .inr he, hp⟩
    · exact ⟨(range, ()), .inl rfl, hp⟩

/-- After `remove_range` the set covers what its other ranges cover: a range
that only overlaps `range` stays whole. -/
theorem mem_covered_remove_range (hs : CmpList.Sorted ranges) (p : Nat) :
    p ∈ covered (remove_range ranges range) ↔
      ∃ e ∈ ranges, e.1 ≠ range ∧ e.1.contains_ptr p = true := by
  simp only [covered, Set.mem_ofPred_eq, mem_remove_range_iff hs]
  constructor
  · rintro ⟨e, ⟨he, hne⟩, hp⟩
    exact ⟨e, he, hne, hp⟩
  · rintro ⟨e, he, hne, hp⟩
    exact ⟨e, ⟨he, hne⟩, hp⟩

/-! ## `advise` and `did_fork_into` -/

/-- `MADV_DONTFORK`. -/
def MADV_DONTFORK : Nat := 10

/-- `MADV_DOFORK`. -/
def MADV_DOFORK : Nat := 11

namespace AddressSpace

/-- `AddressSpace::advise`: `MADV_DONTFORK` marks the pages of the range and
`MADV_DOFORK` clears them; other advice changes nothing here. -/
def advise (s : AddressSpace) (addr num_bytes advice : Nat) : AddressSpace :=
  let num_bytes := ceil_page_size num_bytes
  if advice = MADV_DONTFORK then
    { s with dont_fork := add_range s.dont_fork (MemoryRange.new_range addr num_bytes) }
  else if advice = MADV_DOFORK then
    { s with dont_fork := remove_range s.dont_fork (MemoryRange.new_range addr num_bytes) }
  else s

/-- `did_fork_into`: the child's address space `child` unmaps each range of
`dont_fork`, in order, as the remote `munmap` before it did in the tracee. -/
def did_fork_into (s child : AddressSpace) : Option AddressSpace :=
  s.dont_fork.foldlM (fun c range => c.unmap range.1.start_ range.1.size) child

/-- Marking `[0x1000, 0x3000)` with `MADV_DONTFORK` and clearing its first page
with `MADV_DOFORK` leaves the whole range marked, so a fork unmaps that page in
the child, where it is mapped. -/
theorem did_fork_into_unmaps_page_cleared_by_dofork :
    (((empty 0).advise 0x1000 0x2000 MADV_DONTFORK).advise 0x1000 0x1000 MADV_DOFORK).dont_fork =
        [(⟨0x1000, 0x3000⟩, ())] ∧
      (((empty 0).run [.map 0x1000 0x2000 PROT_READ (MAP_PRIVATE ||| MAP_ANONYMOUS) 0 "" 0 0 none
          none none none none]).bind
        (((empty 0).advise 0x1000 0x2000 MADV_DONTFORK).advise 0x1000 0x1000
          MADV_DOFORK).did_fork_into).map (fun c => (c.mapping_of 0x1000).isSome) = some false := by
  decide

end AddressSpace

end RdReplay
