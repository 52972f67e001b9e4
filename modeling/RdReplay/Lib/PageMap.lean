/-
  Lib/PageMap.lean --- partial maps from page addresses, and the updates a
  memory map makes to them.

  WHAT THIS FILE IS FOR.  A memory map stores intervals, but what it is for is
  the partial function it describes from each address to what is mapped there.
  The operations on it are then three updates of that function over a region
  `[lo, hi)`: unmap the region (`erase`), map something new over it
  (`overlay`), or change what is mapped there (`modify`); and `map` applies a
  function to every value, for a statement that holds up to some part of the
  values.
-/
import Mathlib

set_option autoImplicit false

/-- A partial map from addresses. -/
abbrev PageMap (α : Type) := Nat → Option α

namespace PageMap

variable {α β : Type}

/-- `v` with the region `[lo, hi)` unmapped. -/
def erase (v : PageMap α) (lo hi : Nat) : PageMap α :=
  fun p => if lo ≤ p ∧ p < hi then none else v p

/-- `v` with the region `[lo, hi)` mapped to `f`. -/
def overlay (v : PageMap α) (lo hi : Nat) (f : Nat → α) : PageMap α :=
  fun p => if lo ≤ p ∧ p < hi then some (f p) else v p

/-- `v` with `g` applied to what is mapped in the region `[lo, hi)`. -/
def modify (v : PageMap α) (lo hi : Nat) (g : α → α) : PageMap α :=
  fun p => if lo ≤ p ∧ p < hi then (v p).map g else v p

/-- `v` with `g` applied to every value. -/
def map (g : α → β) (v : PageMap α) : PageMap β := fun p => (v p).map g

variable {v : PageMap α} {lo hi p : Nat}

@[simp] theorem erase_apply : erase v lo hi p = if lo ≤ p ∧ p < hi then none else v p := rfl

@[simp] theorem overlay_apply {f : Nat → α} :
    overlay v lo hi f p = if lo ≤ p ∧ p < hi then some (f p) else v p := rfl

@[simp] theorem modify_apply {g : α → α} :
    modify v lo hi g p = if lo ≤ p ∧ p < hi then (v p).map g else v p := rfl

@[simp] theorem map_apply {g : α → β} : map g v p = (v p).map g := rfl

end PageMap
