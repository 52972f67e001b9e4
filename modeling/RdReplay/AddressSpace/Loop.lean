/-
  AddressSpace/Loop.lean --- the induction and termination rules of
  `for_each_in_range`.

  WHAT THIS FILE IS FOR.  Every operation that walks a region calls the loop with
  a different callback, and every proof about one of them is an invariant of the
  loop.  The two rules below are proved once: an invariant `P last st` that each
  turn of the loop preserves holds when the loop stops, together with the reason
  it stopped (`Stop`); and a loop whose turns all succeed and move
  `last_f_mapped_end` forward returns within the fuel `for_each_in_range` gives
  it.  What a turn may assume about the key it hands the callback is `Turn`.
-/
import RdReplay.AddressSpace.Invariant

set_option autoImplicit false

namespace RdReplay

namespace AddressSpace

variable {β : Type}

/-- What a turn of the loop knows about the key `range` it calls the callback on,
with `last` the value of `last_f_mapped_end`. -/
structure Turn (how : IterateHow) (region_start region_end last : Nat)
    (st : AddressSpace × β) (range : MemoryRange) : Prop where
  last_lt : last < region_end
  found : ∃ v rest, CmpList.lowerBound MemoryRangeKey.cmp (MemoryRange.new_range last 1) st.1.mem =
    (range, v) :: rest
  start_lt : range.start_ < region_end
  contiguous : how = .IterateContiguous → range.start_ < region_start ∨ last = range.start_

/-- Why the loop stopped at `last`: the region is done, no key lies at or after
`last`, the next key starts past the region, or (contiguous iteration) the next
key does not continue the run. -/
def Stop (how : IterateHow) (region_start region_end last : Nat) (st : AddressSpace × β) : Prop :=
  region_end ≤ last ∨
    CmpList.lowerBound MemoryRangeKey.cmp (MemoryRange.new_range last 1) st.1.mem = [] ∨
    ∃ range v rest,
      CmpList.lowerBound MemoryRangeKey.cmp (MemoryRange.new_range last 1) st.1.mem =
        (range, v) :: rest ∧
      (region_end ≤ range.start_ ∨
        (how = .IterateContiguous ∧ ¬(range.start_ < region_start ∨ last = range.start_)))

variable {f : RangeCallback β} {how : IterateHow} {region_start region_end : Nat}

/-- The loop's induction rule: an invariant every turn preserves holds at the end,
with the reason the loop stopped. -/
theorem for_each_in_range_loop_induction (P : Nat → AddressSpace × β → Prop)
    (hstep : ∀ last st range st', P last st → Turn how region_start region_end last st range →
      f range (MemoryRange.from_range last region_end) st = some st' → P range.end_ st') :
    ∀ fuel last st st', P last st →
      for_each_in_range_loop f how region_start region_end fuel last st = some st' →
      ∃ last', P last' st' ∧ Stop how region_start region_end last' st' := by
  intro fuel
  induction fuel with
  | zero => intro last st st' _ h; simp [for_each_in_range_loop] at h
  | succ fuel ih =>
    intro last st st' hP h
    unfold for_each_in_range_loop at h
    split at h
    · rename_i hlt
      dsimp only [MemoryRange.from_range] at h
      split at h
      · -- No key at or after `last`.
        rename_i hfound
        cases h
        exact ⟨last, hP, .inr (.inl hfound)⟩
      · rename_i range v rest hfound
        split at h
        · -- The next key starts past the region.
          rename_i hend
          cases h
          exact ⟨last, hP, .inr (.inr ⟨range, v, rest, hfound, .inl hend⟩)⟩
        · rename_i hend
          split at h
          · -- Contiguous iteration met a gap.
            rename_i hcont
            cases h
            exact ⟨last, hP, .inr (.inr ⟨range, v, rest, hfound, .inr hcont⟩)⟩
          · rename_i hcont
            split at h
            · cases h
            · rename_i st'' hf
              have hturn : Turn how region_start region_end last st range :=
                ⟨hlt, ⟨v, rest, hfound⟩, by omega,
                  fun hc => by
                    by_contra hn
                    exact hcont ⟨hc, hn⟩⟩
              exact ih range.end_ st'' st' (hstep last st range st'' hP hturn hf) h
    · rename_i hlt
      cases h
      exact ⟨last, hP, .inl (by omega)⟩

/-- The loop's termination rule: if every turn succeeds, keeps the invariant and
moves `last_f_mapped_end` forward, fuel above the length of what is left of the
region is enough. -/
theorem for_each_in_range_loop_isSome (P : Nat → AddressSpace × β → Prop)
    (hstep : ∀ last st range, P last st → Turn how region_start region_end last st range →
      last < range.end_ ∧
        ∃ st', f range (MemoryRange.from_range last region_end) st = some st' ∧ P range.end_ st') :
    ∀ fuel last st, P last st → region_end - last < fuel →
      ∃ st', for_each_in_range_loop f how region_start region_end fuel last st = some st' := by
  intro fuel
  induction fuel with
  | zero => intro last st _ h; omega
  | succ fuel ih =>
    intro last st hP hfuel
    unfold for_each_in_range_loop
    split
    · rename_i hlt
      dsimp only [MemoryRange.from_range]
      split
      · exact ⟨st, rfl⟩
      · rename_i range v rest hfound
        split
        · exact ⟨st, rfl⟩
        · rename_i hend
          split
          · exact ⟨st, rfl⟩
          · rename_i hcont
            have hturn : Turn how region_start region_end last st range :=
              ⟨hlt, ⟨v, rest, hfound⟩, by omega,
                fun hc => by
                  by_contra hn
                  exact hcont ⟨hc, hn⟩⟩
            obtain ⟨hprog, st'', hf, hP''⟩ := hstep last st range hP hturn
            simp only [MemoryRange.from_range] at hf
            rw [hf]
            exact ih range.end_ st'' hP'' (by omega)
    · exact ⟨st, rfl⟩

/-- The fuel `for_each_in_range` starts the loop with is enough. -/
theorem for_each_in_range_isSome {addr num_bytes : Nat} {st : AddressSpace × β}
    (P : Nat → AddressSpace × β → Prop)
    (hstep : ∀ last st range, P last st →
      Turn how (floor_page_size addr) (ceil_page_size (wrapping_add addr num_bytes)) last st range →
      last < range.end_ ∧
        ∃ st', f range (MemoryRange.from_range last (ceil_page_size (wrapping_add addr num_bytes))) st =
          some st' ∧ P range.end_ st')
    (h0 : P (floor_page_size addr) st) :
    ∃ st', for_each_in_range addr num_bytes f how st = some st' :=
  for_each_in_range_loop_isSome P hstep _ _ st h0 (by omega)

/-- On a well-formed map the key a turn finds ends after `last`: every turn moves
the loop forward. -/
theorem Turn.last_lt_end {last : Nat} {st : AddressSpace × β} {range : MemoryRange}
    (h : MapInv st.1.mem) (ht : Turn how region_start region_end last st range) :
    last < range.end_ := by
  obtain ⟨v, rest, hfound⟩ := ht.found
  exact (h.lowerBound_point_cons hfound).2.1

end AddressSpace

end RdReplay
