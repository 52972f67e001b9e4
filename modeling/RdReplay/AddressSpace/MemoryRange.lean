/-
  AddressSpace/MemoryRange.lean --- address ranges, and the key order the
  address space's memory map is searched under.

  Source: `session/address_space/memory_range.rs`.

  THE KEY ORDER.  `MemoryRangeKey` compares two ranges by start address unless
  they intersect, and calls intersecting ranges `Equal`.  That is a strict total
  order on pairwise-disjoint non-empty ranges and nothing more: `Equal` is not
  transitive.  The lemmas at the end of this file are the only facts about it
  the memory-map proofs use.
-/
import RdReplay.Util

set_option autoImplicit false

namespace RdReplay

/-! ## Address ranges -/

/-- `MemoryRange`: the half-open range `[start_, end_)` of tracee addresses. -/
structure MemoryRange where
  start_ : Nat
  end_ : Nat
  deriving DecidableEq, Repr, Inhabited

namespace MemoryRange

/-- `MemoryRange::new_range`: `[addr, addr + num_bytes)`, the end wrapping. -/
def new_range (addr num_bytes : Nat) : MemoryRange := ⟨addr, wrapping_add addr num_bytes⟩

/-- `MemoryRange::from_range`. -/
def from_range (addr end_ : Nat) : MemoryRange := ⟨addr, end_⟩

/-- `MemoryRange::contains`: `other` lies inside `self`. -/
def contains (self other : MemoryRange) : Bool :=
  self.start_ ≤ other.start_ && other.end_ ≤ self.end_

/-- `MemoryRange::contains_ptr`. -/
def contains_ptr (self : MemoryRange) (p : Nat) : Bool := self.start_ ≤ p && p < self.end_

/-- `MemoryRange::intersects`. -/
def intersects (self other : MemoryRange) : Bool :=
  max self.start_ other.start_ < min self.end_ other.end_

/-- `MemoryRange::intersect`. -/
def intersect (self other : MemoryRange) : MemoryRange :=
  let s := max self.start_ other.start_
  let e := min self.end_ other.end_
  ⟨s, max s e⟩

/-- `MemoryRange::size`: `end_ - start_` through `Wrapping<usize>`. -/
def size (self : MemoryRange) : Nat := wrapping_sub self.end_ self.start_

@[simp] theorem contains_ptr_iff (r : MemoryRange) (p : Nat) :
    r.contains_ptr p = true ↔ r.start_ ≤ p ∧ p < r.end_ := by
  simp [contains_ptr]

@[simp] theorem intersects_iff (r o : MemoryRange) :
    r.intersects o = true ↔
      r.start_ < r.end_ ∧ o.start_ < o.end_ ∧ r.start_ < o.end_ ∧ o.start_ < r.end_ := by
  simp only [intersects, decide_eq_true_eq]
  omega

theorem intersects_comm (r o : MemoryRange) : r.intersects o = o.intersects r := by
  simp only [intersects, Nat.max_comm, Nat.min_comm]

end MemoryRange

/-! ## The key order -/

/-- `Ord for MemoryRangeKey`: by start address, except that intersecting ranges
compare `Equal`. -/
def MemoryRangeKey.cmp (a b : MemoryRange) : Ordering :=
  if !a.intersects b then compare a.start_ b.start_ else .eq

namespace MemoryRangeKey

/-- `PartialEq for MemoryRangeKey`: intersecting ranges are equal, others when
they start at the same address. -/
def eq (a b : MemoryRange) : Bool :=
  if !a.intersects b then a.start_ == b.start_ else true

theorem eq_iff_cmp (a b : MemoryRange) : eq a b = true ↔ cmp a b = .eq := by
  unfold eq cmp
  cases a.intersects b
  · simp
  · simp

/-- A range wholly above a non-empty key compares `gt` against it. -/
theorem cmp_eq_gt {a b : MemoryRange} (hb : b.start_ < b.end_) (h : b.end_ ≤ a.start_) :
    cmp a b = .gt := by
  have hni : a.intersects b = false := by
    cases hi : a.intersects b
    · rfl
    · rw [MemoryRange.intersects_iff] at hi; omega
  simp only [cmp, hni, Bool.not_false, if_true]
  exact Nat.compare_eq_gt.2 (by omega)

/-- A non-empty range wholly below a key compares `lt` against it. -/
theorem cmp_eq_lt {a b : MemoryRange} (ha : a.start_ < a.end_) (h : a.end_ ≤ b.start_) :
    cmp a b = .lt := by
  have hni : a.intersects b = false := by
    cases hi : a.intersects b
    · rfl
    · rw [MemoryRange.intersects_iff] at hi; omega
  simp only [cmp, hni, Bool.not_false, if_true]
  exact Nat.compare_eq_lt.2 (by omega)

/-- Intersecting ranges compare `eq`. -/
theorem cmp_eq_eq {a b : MemoryRange} (h : a.intersects b = true) : cmp a b = .eq := by
  simp [cmp, h]

/-- Every outcome of the comparison, read back as a fact about the ranges. -/
theorem cmp_cases (a b : MemoryRange) :
    (cmp a b = .gt ∧ a.intersects b = false ∧ b.start_ < a.start_) ∨
    (cmp a b = .lt ∧ a.intersects b = false ∧ a.start_ < b.start_) ∨
    (cmp a b = .eq ∧ (a.intersects b = true ∨ a.start_ = b.start_)) := by
  unfold cmp
  cases hi : a.intersects b
  · simp only [Bool.not_false, if_true]
    rcases Nat.lt_trichotomy a.start_ b.start_ with h | h | h
    · exact .inr (.inl ⟨Nat.compare_eq_lt.2 h, trivial, h⟩)
    · exact .inr (.inr ⟨Nat.compare_eq_eq.2 h, .inr h⟩)
    · exact .inl ⟨Nat.compare_eq_gt.2 h, trivial, h⟩
  · simp

end MemoryRangeKey

end RdReplay
