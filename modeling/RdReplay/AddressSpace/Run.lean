/-
  AddressSpace/Run.lean --- the representation invariant of the memory map over
  every run of its operations.

  THE INVARIANT.  `RunInv o s` is `MapInv` (keys non-empty, page-aligned,
  disjoint and in order; each mapping's range, and its recorded range, its key;
  flags masked; offsets 64-bit words) together with what the page view says of
  file offsets: every page of a real device shows the offset `o` gives it.

  THE GHOST STATE.  `o` is the offset the mmap that made each page gave it,
  carried along by mremap: `origin_step` updates it on `map` and `remap` and
  leaves it alone on every other operation.  It is computed from the operations
  alone, so it is a ghost: no function of the source reads it.

  WHAT A RUN MAY ASK.  `Op.Sane` is what the source asserts or its callers
  promise: `map` and `remap` to a page-aligned, non-empty range that does not
  wrap (`debug_assert!(num_bytes > 0)` and `new_num_bytes != 0`), a recorded
  mapping of the range mapped, and a range for
  `ensure_replay_matches_single_recorded_mapping` that meets a mapping ("the
  caller guarantees that all the mappings in the range can be coalesced").
  `unmap`, `protect` and `brk` need nothing.  `process_mremap` does not keep
  the last promise: an mremap of old size 0 is replayed with the empty range at
  `old_addr`, which meets no mapping, and the final merge then joins the
  mappings on either side of it across a hole
  (`replay_of_empty_mremap_merges_across_hole`).

  THE PROOF.  One step lemma per operation, each from the operation's page-view
  spec, and `RunInv.run` by induction on the operations.
-/
import RdReplay.AddressSpace.Protect
import RdReplay.AddressSpace.Map
import RdReplay.AddressSpace.EnsureReplay

set_option autoImplicit false

namespace RdReplay

/-! ## The offsets the mmaps gave -/

/-- The offset the mmap that made each page gave it, after one more operation:
`map` gives its pages the offsets from `offset_bytes` on, `remap` gives the new
range the offsets from the one at `old_addr` on. -/
def origin_step (o : Nat → Nat) : Op → Nat → Nat
  | .map addr num_bytes _ _ offset_bytes _ _ _ _ _ _ _ _ => fun p =>
    if addr.toNat ≤ p ∧ p < addr.toNat + ceil_page_size num_bytes.toNat then
      wrapping_add offset_bytes.toNat (p - addr.toNat)
    else o p
  | .remap old_addr _ new_addr new_num_bytes => fun p =>
    if new_addr.toNat ≤ p ∧ p < new_addr.toNat + ceil_page_size new_num_bytes.toNat then
      wrapping_add (o old_addr.toNat) (p - new_addr.toNat)
    else o p
  | _ => o

/-- The offset the mmap that made each page gave it, after a run. -/
def origin (ops : List Op) : Nat → Nat := ops.foldl origin_step (fun _ => 0)

/-! ## What a run may ask -/

/-- What the source asserts, or its callers promise, of the arguments of an
operation on the address space `s`. -/
def Op.Sane (op : Op) (s : AddressSpace) : Prop :=
  match op with
  | .map addr num_bytes _ _ _ _ _ _ _ record_map _ _ _ =>
    Aligned addr.toNat ∧ 0 < ceil_page_size num_bytes.toNat ∧
      addr.toNat + ceil_page_size num_bytes.toNat < 2 ^ 64 ∧
      ∀ r ∈ record_map, r.mr = ⟨addr.toNat, addr.toNat + ceil_page_size num_bytes.toNat⟩
  | .remap _ _ new_addr new_num_bytes =>
    Aligned new_addr.toNat ∧ 0 < ceil_page_size new_num_bytes.toNat ∧
      new_addr.toNat + ceil_page_size new_num_bytes.toNat < 2 ^ 64
  | .ensure_replay_matches_single_recorded_mapping start end_ _ =>
    ∃ e ∈ s.mem, (MemoryRange.from_range start.toNat end_.toNat).intersects e.1 = true
  | .unmap _ _ | .protect _ _ _ | .brk _ _ => True

instance (op : Op) (s : AddressSpace) : Decidable (op.Sane s) :=
  match op with
  | .map _ _ _ _ _ _ _ _ _ _ _ _ _ => inferInstanceAs (Decidable (_ ∧ _))
  | .remap _ _ _ _ => inferInstanceAs (Decidable (_ ∧ _))
  | .ensure_replay_matches_single_recorded_mapping _ _ _ =>
    inferInstanceAs (Decidable (∃ _ ∈ _, _))
  | .unmap _ _ | .protect _ _ _ | .brk _ _ => inferInstanceAs (Decidable True)

namespace AddressSpace

/-- Every operation of a run is sane where it is run. -/
def SaneRun (s : AddressSpace) : List Op → Prop
  | [] => True
  | op :: ops =>
    op.Sane s ∧
      match s.step op with
      | some s' => SaneRun s' ops
      | none => True

instance decSaneRun : ∀ (s : AddressSpace) (ops : List Op), Decidable (s.SaneRun ops)
  | _, [] => inferInstanceAs (Decidable True)
  | s, op :: ops =>
    match h : s.step op with
    | some s' =>
      have := decSaneRun s' ops
      decidable_of_iff (op.Sane s ∧ s'.SaneRun ops) (by simp [SaneRun, h])
    | none => decidable_of_iff (op.Sane s) (by simp [SaneRun, h])

/-! ## The invariant -/

/-- The representation invariant, with the offset every page of a real device
shows read against the ghost `o`. -/
structure RunInv (o : Nat → Nat) (s : AddressSpace) : Prop where
  inv : MapInv s.mem
  offset : ∀ p off, (mem_view s.mem p).bind PageAttrs.offset = some off → off = o p

theorem RunInv.empty (b : Nat) (o : Nat → Nat) : RunInv o (empty b) :=
  ⟨MapInv.nil, fun _ _ h => nomatch h⟩

/-- The offsets a page shows are those of a view it agrees with up to names. -/
theorem bind_offset_of_erase_name {x y : Option PageAttrs}
    (h : x.map PageAttrs.erase_name = y.map PageAttrs.erase_name) :
    x.bind PageAttrs.offset = y.bind PageAttrs.offset := by
  rw [← bind_offset_erase_name x, h, bind_offset_erase_name]

variable {o : Nat → Nat} {s s' : AddressSpace}

theorem RunInv.step_map {addr num_bytes : UInt64} {prot flags : Nat} {offset_bytes : UInt64}
    {fsname : String} {device inode : Nat} {mapped_file_stat : Option Nat}
    {record_map : Option KernelMapping} {emu_file local_addr monitored : Option Nat}
    (hI : RunInv o s)
    (hsane : (Op.map addr num_bytes prot flags offset_bytes fsname device inode mapped_file_stat
      record_map emu_file local_addr monitored).Sane s)
    (hs : s.step (.map addr num_bytes prot flags offset_bytes fsname device inode mapped_file_stat
      record_map emu_file local_addr monitored) = some s') :
    RunInv (origin_step o (.map addr num_bytes prot flags offset_bytes fsname device inode
      mapped_file_stat record_map emu_file local_addr monitored)) s' := by
  obtain ⟨haddr, hn, hend, hrec⟩ := hsane
  obtain ⟨⟨s₁, km⟩, hmap, rfl⟩ := Option.map_eq_some_iff.1 hs
  obtain ⟨hinv, hview⟩ := map_spec hI.inv haddr hn hend offset_bytes.toNat_lt hrec hmap
  refine ⟨hinv, fun p off hoff => ?_⟩
  rw [bind_offset_of_erase_name (hview p).1] at hoff
  dsimp only at hoff
  simp only [origin_step]
  by_cases hp : addr.toNat ≤ p ∧ p < addr.toNat + ceil_page_size num_bytes.toNat
  · -- a page of the new mapping: the offset the mmap gives it
    rw [if_pos hp, Option.bind_some] at hoff
    rw [if_pos hp]
    by_cases hdev : 0 < device
    · rw [if_pos hdev] at hoff
      exact (Option.some.inj hoff).symm
    · rw [if_neg hdev] at hoff
      cases hoff
  · rw [if_neg hp] at hoff
    rw [if_neg hp]
    exact hI.offset p off hoff

theorem RunInv.step_unmap {addr num_bytes : UInt64} (hI : RunInv o s)
    (hs : s.step (.unmap addr num_bytes) = some s') :
    RunInv (origin_step o (.unmap addr num_bytes)) s' := by
  obtain ⟨hinv, hview⟩ := unmap_spec hI.inv hs
  refine ⟨hinv, fun p off hoff => ?_⟩
  rw [hview p] at hoff
  split_ifs at hoff with hp
  · cases hoff
  · exact hI.offset p off hoff

theorem RunInv.step_protect {addr num_bytes : UInt64} {prot : Nat} (hI : RunInv o s)
    (hs : s.step (.protect addr num_bytes prot) = some s') :
    RunInv (origin_step o (.protect addr num_bytes prot)) s' := by
  by_cases hrr :
      floor_page_size addr.toNat ≤ ceil_page_size (wrapping_add addr.toNat num_bytes.toNat)
  · obtain ⟨hinv, r, -, -, -, -, hview⟩ := protect_spec hI.inv hrr hs
    refine ⟨hinv, fun p off hoff => ?_⟩
    rw [bind_offset_of_erase_name (hview p).1] at hoff
    dsimp only at hoff
    split_ifs at hoff with hp
    · -- a page protected: the protection is not part of the offset
      rw [bind_offset_set_prot] at hoff
      exact hI.offset p off hoff
    · exact hI.offset p off hoff
  · rw [protect_of_wrap hrr hs]
    exact hI

theorem RunInv.step_remap {old_addr old_num_bytes new_addr new_num_bytes : UInt64}
    (hI : RunInv o s) (hsane : (Op.remap old_addr old_num_bytes new_addr new_num_bytes).Sane s)
    (hs : s.step (.remap old_addr old_num_bytes new_addr new_num_bytes) = some s') :
    RunInv (origin_step o (.remap old_addr old_num_bytes new_addr new_num_bytes)) s' := by
  obtain ⟨hnew, hnn, hne⟩ := hsane
  obtain ⟨e, he, hc, hinv, hview⟩ := remap_spec hI.inv hnew hnn hne hs
  refine ⟨hinv, fun p off hoff => ?_⟩
  rw [bind_offset_of_erase_name (hview p)] at hoff
  simp only [origin_step]
  by_cases hp : new_addr.toNat ≤ p ∧ p < new_addr.toNat + ceil_page_size new_num_bytes.toNat
  · -- a page of the moved mapping: the offset the page at `old_addr` showed, moved on
    rw [if_pos hp, Option.bind_some] at hoff
    rw [if_pos hp]
    obtain ⟨o₀, ho₀, rfl⟩ := Option.map_eq_some_iff.1 hoff
    have hold : (mem_view s.mem old_addr.toNat).bind PageAttrs.offset = some o₀ := by
      rw [hI.inv.mem_view_of_mem he hc]
      exact ho₀
    rw [hI.offset _ _ hold]
  · rw [if_neg hp] at hoff
    rw [if_neg hp]
    split_ifs at hoff with hold
    · cases hoff
    · exact hI.offset p off hoff

theorem RunInv.step_brk {addr : UInt64} {prot : Nat} (hI : RunInv o s)
    (hs : s.step (.brk addr prot) = some s') : RunInv (origin_step o (.brk addr prot)) s' := by
  obtain ⟨hinv, hview⟩ := brk_spec hI.inv hs
  refine ⟨hinv, fun p off hoff => ?_⟩
  rw [bind_offset_of_erase_name (hview p)] at hoff
  -- heap pages have no offset, and unmapped pages none at all
  split_ifs at hoff with hgrow hshrink
  · cases hoff
  · cases hoff
  · exact hI.offset p off hoff

theorem RunInv.step_ensure_replay {start end_ : UInt64} {descent : Nat} (hI : RunInv o s)
    (hsane : (Op.ensure_replay_matches_single_recorded_mapping start end_ descent).Sane s)
    (hs : s.step (.ensure_replay_matches_single_recorded_mapping start end_ descent) = some s') :
    RunInv (origin_step o (.ensure_replay_matches_single_recorded_mapping start end_ descent))
      s' := by
  obtain ⟨hinv, hview⟩ := ensure_replay_spec hI.inv hsane hs
  refine ⟨hinv, fun p off hoff => ?_⟩
  rcases hview p with hsame | ⟨e, -, -, -, hanon⟩
  · rw [bind_offset_of_erase_name hsame] at hoff
    exact hI.offset p off hoff
  · -- an anonymized page has no offset
    rw [← bind_offset_erase_name, hanon] at hoff
    cases hoff

/-- One sane operation keeps the invariant, the ghost moved on with it. -/
theorem RunInv.step {op : Op} (hI : RunInv o s) (hsane : op.Sane s) (hs : s.step op = some s') :
    RunInv (origin_step o op) s' := by
  cases op with
  | map => exact hI.step_map hsane hs
  | unmap => exact hI.step_unmap hs
  | protect => exact hI.step_protect hs
  | remap => exact hI.step_remap hsane hs
  | brk => exact hI.step_brk hs
  | ensure_replay_matches_single_recorded_mapping => exact hI.step_ensure_replay hsane hs

/-- A sane run keeps the invariant, the ghost moved on over the run. -/
theorem RunInv.run {ops : List Op} (hI : RunInv o s) (hsane : s.SaneRun ops)
    (hs : s.run ops = some s') : RunInv (ops.foldl origin_step o) s' := by
  induction ops generalizing o s with
  | nil =>
    cases hs
    exact hI
  | cons op ops ih =>
    obtain ⟨hop, hrest⟩ := hsane
    unfold run at hs
    cases hstep : s.step op with
    | none =>
      rw [hstep] at hs
      cases hs
    | some s₁ =>
      rw [hstep] at hs hrest
      exact ih (hI.step hop hstep) hrest hs

/-! ## The representation invariant of every reachable state -/

/-- The offset of a mapping of a real device is the offset its first page shows. -/
theorem RunInv.offset_of_mem (hI : RunInv o s) {e : MemoryRange × Mapping} (he : e ∈ s.mem)
    (hreal : e.2.map.is_real_device = true) : e.2.map.offset = o e.1.start_ := by
  have hwf := hI.inv.wf e he
  have hc : e.1.contains_ptr e.1.start_ = true := by
    rw [MemoryRange.contains_ptr_iff]
    exact ⟨le_rfl, hwf.nonempty⟩
  apply hI.offset e.1.start_
  rw [hI.inv.mem_view_of_mem he hc]
  simp only [Mapping.attrs, hreal, ↓reduceIte, wrapping_add, hwf.map_mr, Nat.sub_self, add_zero,
    Option.bind_some]
  exact congrArg some (Nat.mod_eq_of_lt hwf.offset_lt)

/-- Every state a sane run reaches from an empty map has non-empty, page-aligned
keys, in order of `MemoryRangeKey::cmp` and disjoint; each mapping's range, and
its recorded range, is its key; and each mapping of a real device has the offset
the mmap that made its first page gave that page. -/
theorem reachable_memory_map_wf {b : Nat} {ops : List Op}
    (hsane : (empty b).SaneRun ops) (hrun : (empty b).run ops = some s) :
    (∀ e ∈ s.mem, e.1.start_ < e.1.end_ ∧ Aligned e.1.start_ ∧ Aligned e.1.end_) ∧
      s.mem.Pairwise (fun a c => a.1.end_ ≤ c.1.start_ ∧ MemoryRangeKey.cmp a.1 c.1 = .lt) ∧
      (∀ e ∈ s.mem, e.2.map.mr = e.1 ∧ e.2.recorded_map.mr.start_ = e.2.map.mr.start_ ∧
        e.2.recorded_map.mr.end_ = e.2.map.mr.end_) ∧
      (∀ e ∈ s.mem, e.2.map.is_real_device = true →
        e.2.map.offset = origin ops e.1.start_) := by
  have hI : RunInv (origin ops) s := (RunInv.empty b _).run hsane hrun
  have hwf := hI.inv.wf
  refine ⟨fun e he => ⟨(hwf e he).nonempty, (hwf e he).start_aligned, (hwf e he).end_aligned⟩,
    ?_, fun e he => ?_, fun e he hreal => hI.offset_of_mem he hreal⟩
  · refine hI.inv.sorted.imp_of_mem fun {a c} ha _ hac => ⟨hac, ?_⟩
    exact MemoryRangeKey.cmp_eq_lt (hwf a ha).nonempty hac
  · rw [(hwf e he).map_mr, (hwf e he).recorded_mr]
    exact ⟨rfl, rfl, rfl⟩

/-- A file mapped over three pages at 0x1000 with offset 0x5000, its middle page
made read-only and moved to 0x10000, and the replay check run on its first page:
every mapping of the file left has the offset its mmap gave its first page. -/
theorem memory_map_wf_after_protect_and_remap :
    ∃ s, (empty 0).run
        [.map 0x1000 0x3000 (PROT_READ ||| PROT_WRITE) MAP_PRIVATE 0x5000 "f" 1 7 none none none
          none none,
          .protect 0x2000 0x1000 PROT_READ, .remap 0x2000 0x1000 0x10000 0x1000,
          .ensure_replay_matches_single_recorded_mapping 0x1000 0x2000 0] = some s ∧
      ∀ e ∈ s.mem, e.2.map.is_real_device = true → e.2.map.offset = origin
        [.map 0x1000 0x3000 (PROT_READ ||| PROT_WRITE) MAP_PRIVATE 0x5000 "f" 1 7 none none none
          none none,
          .protect 0x2000 0x1000 PROT_READ, .remap 0x2000 0x1000 0x10000 0x1000,
          .ensure_replay_matches_single_recorded_mapping 0x1000 0x2000 0] e.1.start_ := by
  obtain ⟨s, hs⟩ := Option.isSome_iff_exists.1 (by decide : ((empty 0).run
    [.map 0x1000 0x3000 (PROT_READ ||| PROT_WRITE) MAP_PRIVATE 0x5000 "f" 1 7 none none none
      none none,
      .protect 0x2000 0x1000 PROT_READ, .remap 0x2000 0x1000 0x10000 0x1000,
      .ensure_replay_matches_single_recorded_mapping 0x1000 0x2000 0]).isSome)
  exact ⟨s, hs, (reachable_memory_map_wf (by decide) hs).2.2.2⟩

/-- `process_mremap` replays an mremap of old size 0, which the kernel accepts
on a shared mapping, with `ensure_replay_matches_single_recorded_mapping` of
the empty range `[old_addr, old_addr)`.  Inside a shared file mapping
[0x3000, 0x5000), at 0x4000, that range meets no mapping: it compares after the
file mapping and before an anonymous one at [0x7000, 0x8000), so
`coalesce_around` merges the two, never compared, into one file mapping over
the hole.  Once [0x3000, 0x7000) is unmapped, the page at 0x7000, which an
anonymous mmap made, shows the file's offset 0x4000. -/
theorem replay_of_empty_mremap_merges_across_hole :
    ((empty 0).run
        [.map 0x3000 0x2000 PROT_READ MAP_SHARED 0 "f" 1 1 none none none none none,
          .map 0x7000 0x1000 (PROT_READ ||| PROT_WRITE) (MAP_PRIVATE ||| MAP_ANONYMOUS) 0 "" 0 0 none
            none none none none]).map (fun s => s.mem.map Prod.fst) =
        some [⟨0x3000, 0x5000⟩, ⟨0x7000, 0x8000⟩] ∧
      ((empty 0).run
        [.map 0x3000 0x2000 PROT_READ MAP_SHARED 0 "f" 1 1 none none none none none,
          .map 0x7000 0x1000 (PROT_READ ||| PROT_WRITE) (MAP_PRIVATE ||| MAP_ANONYMOUS) 0 "" 0 0 none
            none none none none,
          .ensure_replay_matches_single_recorded_mapping 0x4000 (0x4000 + 0) 0]).map
          (fun s => s.mem.map fun e => (e.1, e.2.map.device_, e.2.map.offset)) =
        some [(⟨0x3000, 0x8000⟩, 1, 0)] ∧
      ((empty 0).run
        [.map 0x3000 0x2000 PROT_READ MAP_SHARED 0 "f" 1 1 none none none none none,
          .map 0x7000 0x1000 (PROT_READ ||| PROT_WRITE) (MAP_PRIVATE ||| MAP_ANONYMOUS) 0 "" 0 0 none
            none none none none,
          .ensure_replay_matches_single_recorded_mapping 0x4000 (0x4000 + 0) 0,
          .unmap 0x3000 0x4000]).map
          (fun s => s.mem.map fun e => (e.1, e.2.map.device_, e.2.map.offset)) =
        some [(⟨0x7000, 0x8000⟩, 1, 0x4000)] ∧
      origin
        [.map 0x3000 0x2000 PROT_READ MAP_SHARED 0 "f" 1 1 none none none none none,
          .map 0x7000 0x1000 (PROT_READ ||| PROT_WRITE) (MAP_PRIVATE ||| MAP_ANONYMOUS) 0 "" 0 0 none
            none none none none,
          .ensure_replay_matches_single_recorded_mapping 0x4000 (0x4000 + 0) 0,
          .unmap 0x3000 0x4000] 0x7000 = 0 := by
  decide

end AddressSpace

end RdReplay
