/-
  AddressSpace/LocalUnmap.lean --- the `munmap` of rd's local copy that ends each
  turn of `unmap_internal`.

  Source: `session/address_space.rs`: the `unmapper` closure of
  `unmap_internal`, its last `match m.local_addr`; `remote_ptr.rs`:
  `Sub<RemotePtr>`, which subtracts through `Wrapping<usize>`.

  WHAT A TURN RELEASES.  A mapping rd also maps into its own memory keeps the
  copy's address in `local_addr`.  Once the closure has cut the mapping, it
  unmaps `min(rem.size(), m.map.size() - (rem.start() - m.map.start()))` bytes
  of the copy from `local_addr + (rem.start() - m.map.start())`, in wrapping
  `usize` arithmetic (`local_munmap`).  The `munmap`s change no part of the
  memory map, so the closure that also records them (`unmapper_local`) drives
  the loop exactly as `unmapper` does (`unmap_internal_local_fst`).

  WHERE IT GOES WRONG.  `rem` is what is left of the region,
  `[last_f_mapped_end, region_end)`, not its intersection with the mapping.
  When `rem` starts inside the mapping, the turn releases the local image of
  their intersection (`local_munmap_of_start_le`).  When the mapping starts
  after a hole, `rem.start()` is below `m.map.start()`, the offset wraps, and
  the range released starts before the copy
  (`local_munmap_before_local_copy`).
-/
import RdReplay.AddressSpace.Ops

set_option autoImplicit false

namespace RdReplay

namespace AddressSpace

/-- The `munmap` the `unmapper` closure makes of rd's local copy of `m`, if it
has one, when the region left is `rem`: its address and its size. -/
def local_munmap (m : Mapping) (rem : MemoryRange) : Option (Nat × Nat) :=
  m.local_addr.map fun local_addr =>
    let offset := wrapping_sub rem.start_ m.map.mr.start_
    (wrapping_add local_addr offset, min rem.size (wrapping_sub m.map.size offset))

/-- The `unmapper` closure together with the `munmap`s of local copies it makes,
which are what it captures here. -/
def unmapper_local : RangeCallback (List (Nat × Nat)) := fun m_key rem st =>
  match CmpList.get MemoryRangeKey.cmp m_key st.1.mem with
  | none => none
  | some m =>
    (unmapper m_key rem (st.1, ())).map fun r => (r.1, st.2 ++ (local_munmap m rem).toList)

/-- The `munmap`s of local copies `unmap_internal` makes, in order. -/
def unmap_internal_local_munmaps (s : AddressSpace) (addr num_bytes : Nat) :
    Option (List (Nat × Nat)) :=
  (for_each_in_range addr num_bytes unmapper_local .IterateDefault (s, [])).map Prod.snd

/-! ## The `munmap`s change nothing of the memory map -/

section Agree

variable {β γ : Type} {f : RangeCallback β} {g : RangeCallback γ} {how : IterateHow}
  {region_start region_end : Nat}

/-- Two callbacks that do the same to the address space, whatever else each
captures, make loops that do the same to it: the loop's own decisions read the
address space only. -/
theorem for_each_in_range_loop_fst
    (hfg : ∀ range rem (s : AddressSpace) (b : β) (c : γ),
      (f range rem (s, b)).map Prod.fst = (g range rem (s, c)).map Prod.fst) :
    ∀ fuel last (s : AddressSpace) (b : β) (c : γ),
      (for_each_in_range_loop f how region_start region_end fuel last (s, b)).map Prod.fst =
        (for_each_in_range_loop g how region_start region_end fuel last (s, c)).map Prod.fst := by
  intro fuel
  induction fuel with
  | zero => intro last s b c; rfl
  | succ fuel ih =>
    intro last s b c
    unfold for_each_in_range_loop
    split
    · dsimp only
      split
      · rfl
      · rename_i range v rest hfound
        split
        · rfl
        · split
          · rfl
          · -- the turn: both callbacks fail, or both leave the same address space
            have hturn := hfg range (MemoryRange.from_range last region_end) s b c
            cases hf : f range (MemoryRange.from_range last region_end) (s, b) with
            | none =>
              rw [hf] at hturn
              cases hg : g range (MemoryRange.from_range last region_end) (s, c) with
              | none => rfl
              | some st => rw [hg] at hturn; cases hturn
            | some st =>
              rw [hf] at hturn
              cases hg : g range (MemoryRange.from_range last region_end) (s, c) with
              | none => rw [hg] at hturn; cases hturn
              | some st' =>
                rw [hg] at hturn
                obtain ⟨s₁, b₁⟩ := st
                obtain ⟨s₂, c₂⟩ := st'
                obtain rfl : s₁ = s₂ := Option.some.inj hturn
                exact ih range.end_ s₁ b₁ c₂
    · rfl

end Agree

/-- The closure that records the `munmap`s leaves the address space as
`unmapper` does. -/
theorem unmapper_local_fst (range rem : MemoryRange) (s : AddressSpace) (l : List (Nat × Nat))
    (u : Unit) :
    (unmapper_local range rem (s, l)).map Prod.fst = (unmapper range rem (s, u)).map Prod.fst := by
  unfold unmapper_local
  cases hget : CmpList.get MemoryRangeKey.cmp range s.mem with
  | none => simp [unmapper, hget]
  | some m => cases u; simp [Option.map_map, Function.comp_def]

/-- `unmap_internal` with its `munmap`s recorded leaves the address space that
`unmap_internal` leaves. -/
theorem unmap_internal_local_fst (s : AddressSpace) (addr num_bytes : Nat) :
    (for_each_in_range addr num_bytes unmapper_local .IterateDefault (s, [])).map Prod.fst =
      s.unmap_internal addr num_bytes :=
  for_each_in_range_loop_fst (fun range rem s b c => unmapper_local_fst range rem s b c) _ _ s
    [] ()

/-! ## What a turn releases -/

/-- When the region left starts inside the mapping, the turn releases the local
image of their intersection: from the copy's address moved on by the distance
into the mapping, up to the end of the region or of the mapping. -/
theorem local_munmap_of_start_le {m : Mapping} {l : Nat} {rem : MemoryRange}
    (hl : m.local_addr = some l) (hle : m.map.mr.start_ ≤ rem.start_)
    (hlt : rem.start_ < m.map.mr.end_) (hrem : rem.start_ ≤ rem.end_) (hend : rem.end_ < 2 ^ 64)
    (hmend : m.map.mr.end_ < 2 ^ 64) :
    local_munmap m rem = some (wrapping_add l (rem.start_ - m.map.mr.start_),
      min rem.end_ m.map.mr.end_ - rem.start_) := by
  have hoff : wrapping_sub rem.start_ m.map.mr.start_ = rem.start_ - m.map.mr.start_ :=
    wrapping_sub_of_le hle (by omega)
  have hsize : wrapping_sub m.map.size (rem.start_ - m.map.mr.start_) =
      m.map.mr.end_ - rem.start_ := by
    unfold KernelMapping.size MemoryRange.size
    rw [wrapping_sub_of_le (by omega) hmend, wrapping_sub_of_le (by omega) (by omega)]
    omega
  have hrsize : rem.size = rem.end_ - rem.start_ := wrapping_sub_of_le hrem hend
  simp only [local_munmap, hl, Option.map_some, hoff, hsize, hrsize]
  congr 2
  omega

/-- A mapping at `[0x2000, 0x3000)` with a local copy at `0x7f0000000000`, unmapped
from `0x1000`, where its region starts in the hole before it: the one `munmap`
made starts `0x1000` bytes before the copy. -/
theorem local_munmap_before_local_copy :
    ((empty 0).run [.map 0x2000 0x1000 (PROT_READ ||| PROT_WRITE) MAP_SHARED 0 "" 0 0 none none
        none (some 0x7f0000000000) none]).bind
      (fun s => s.unmap_internal_local_munmaps 0x1000 0x2000) =
      some [(0x7efffffff000, 0x2000)] := by
  decide

end AddressSpace

end RdReplay
