/-
  AddressSpace/EnsureReplay.lean --- `ensure_replay_matches_single_recorded_mapping`
  on the page view.

  Source: `session/address_space.rs`,
  `AddressSpace::ensure_replay_matches_single_recorded_mapping` and its `fixer`.

  WHAT THE FIXER DOES.  Each turn of the loop either leaves the map alone or
  replaces one private file-backed entry by an anonymous mapping of the same
  range (`anonymized`).  So the map after the loop has the keys of the map
  before it, entry by entry, each entry the old one or its anonymous copy: the
  relation `Fixed` between the two lists.  A second turn on an entry already made
  anonymous leaves it alone, which is why the relation composes.

  THE FINAL MERGE.  `coalesce_around` is called on the key the B-tree descent
  for the range stops at (`descent_key`).  When the range meets a mapping, that
  key is a stored one (`descent_key_mem`), and the merge keeps every page's view
  up to the name.  When it meets none, the descent stops at the range itself,
  between two entries, and the merge joins neighbours it never compared.
-/
import RdReplay.AddressSpace.Coalesce

set_option autoImplicit false

namespace RdReplay

namespace AddressSpace

/-- The anonymous mapping `fixer` puts in place of the private file-backed
mapping `m`: the same range, protection and flags, no file. -/
def anonymized (m : Mapping) : Mapping :=
  Mapping.new
    (KernelMapping.new_with_opts m.map.mr.start_ m.map.mr.end_ "" KernelMapping.NO_DEVICE
      KernelMapping.NO_INODE m.map.prot_ (m.map.flags_ ||| MAP_ANONYMOUS) 0)
    m.recorded_map none none none none

/-- What the page of an anonymized mapping shows: no name, no device, no offset. -/
@[simp] theorem anonymized_attrs (m : Mapping) (p : Nat) :
    (anonymized m).attrs p =
      { prot := m.map.prot_
        flags := (m.map.flags_ ||| MAP_ANONYMOUS) &&& KernelMapping.MAP_FLAGS_MASK
        mapping_flags := 0, fsname := "", device := 0, inode := 0, offset := none } := by
  simp [anonymized, Mapping.attrs, Mapping.new, KernelMapping.new_with_opts,
    KernelMapping.is_real_device, KernelMapping.NO_DEVICE, KernelMapping.NO_INODE]

/-- An anonymized mapping is anonymous: the fixer leaves it alone. -/
theorem anonymized_anonymous (m : Mapping) :
    flags_contains (anonymized m).map.flags_ MAP_ANONYMOUS = true := by
  simp only [anonymized, Mapping.new_fields, KernelMapping.new_with_opts, flags_contains]
  have hm : KernelMapping.MAP_FLAGS_MASK &&& MAP_ANONYMOUS = MAP_ANONYMOUS := by decide
  rw [Nat.and_assoc, hm, Nat.and_comm, Nat.and_or_distrib_left, Nat.and_self, beq_iff_eq]
  apply Nat.eq_of_testBit_eq
  intro i
  rw [Nat.testBit_or, Nat.testBit_and]
  cases MAP_ANONYMOUS.testBit i <;> simp

/-- An entry the fixer may leave of the entry `a` of the map before the loop:
`a` itself, or, when `a` meets the region `[lo, hi)` and is not anonymous, its
anonymous copy. -/
def Fixed (lo hi : Nat) (a b : MemoryRange × Mapping) : Prop :=
  b = a ∨ (a.1.start_ < hi ∧ lo < a.1.end_ ∧
    flags_contains a.2.map.flags_ MAP_ANONYMOUS = false ∧ b = (a.1, anonymized a.2))

namespace Fixed

variable {lo hi : Nat} {a b c : MemoryRange × Mapping}

theorem key_eq (h : Fixed lo hi a b) : b.1 = a.1 := by
  rcases h with rfl | ⟨-, -, -, rfl⟩ <;> rfl

/-- A second turn on an entry leaves what a first one may leave. -/
theorem trans (hab : Fixed lo hi a b) (hbc : Fixed lo hi b c) : Fixed lo hi a c := by
  rcases hbc with rfl | ⟨hhi, hlo, hanon, rfl⟩
  · exact hab
  · rcases hab with rfl | ⟨-, -, -, rfl⟩
    · exact .inr ⟨hhi, hlo, hanon, rfl⟩
    · -- an anonymized entry is anonymous, so the fixer does not touch it again
      rw [anonymized_anonymous] at hanon
      cases hanon

theorem wf (hab : Fixed lo hi a b) (ha : EntryWf a) : EntryWf b := by
  rcases hab with rfl | ⟨-, -, -, rfl⟩
  · exact ha
  · refine ⟨ha.nonempty, ha.start_aligned, ha.end_aligned, ha.end_lt, ?_, ?_, ?_, ?_⟩
    · simp [anonymized, KernelMapping.new_with_opts, MemoryRange.from_range, ha.map_mr]
    · simpa [anonymized] using ha.recorded_mr
    · simp [anonymized, KernelMapping.new_with_opts]
    · simp [anonymized, KernelMapping.new_with_opts]

end Fixed

/-! ## The map after the loop -/

section Lists

variable {lo hi : Nat} {l₁ l₂ l₃ : MemoryMap}

theorem forall₂_fixed_trans (h₁₂ : List.Forall₂ (Fixed lo hi) l₁ l₂)
    (h₂₃ : List.Forall₂ (Fixed lo hi) l₂ l₃) : List.Forall₂ (Fixed lo hi) l₁ l₃ := by
  induction h₁₂ generalizing l₃ with
  | nil => exact h₂₃
  | cons hab _ ih =>
    cases h₂₃ with
    | cons hbc hrest => exact .cons (hab.trans hbc) (ih hrest)

theorem forall₂_fixed_keys (h : List.Forall₂ (Fixed lo hi) l₁ l₂) :
    l₂.map Prod.fst = l₁.map Prod.fst := by
  induction h with
  | nil => rfl
  | cons hab _ ih => rw [List.map_cons, List.map_cons, hab.key_eq, ih]

theorem forall₂_fixed_mem_right (h : List.Forall₂ (Fixed lo hi) l₁ l₂) :
    ∀ b ∈ l₂, ∃ a ∈ l₁, Fixed lo hi a b := by
  induction h with
  | nil => simp
  | cons hab _ ih =>
    intro b hb
    rcases List.mem_cons.1 hb with rfl | hb
    · exact ⟨_, List.mem_cons_self, hab⟩
    · obtain ⟨a, ha, hfix⟩ := ih b hb
      exact ⟨a, List.mem_cons_of_mem _ ha, hfix⟩

theorem forall₂_fixed_mem_left (h : List.Forall₂ (Fixed lo hi) l₁ l₂) :
    ∀ a ∈ l₁, ∃ b ∈ l₂, b.1 = a.1 := by
  induction h with
  | nil => simp
  | cons hab _ ih =>
    intro a ha
    rcases List.mem_cons.1 ha with rfl | ha
    · exact ⟨_, List.mem_cons_self, hab.key_eq⟩
    · obtain ⟨b, hb, hkey⟩ := ih a ha
      exact ⟨b, List.mem_cons_of_mem _ hb, hkey⟩

/-- Entries related by `Fixed` form a well-formed map when the first ones do. -/
theorem mapInv_of_fixed (h : MapInv l₁) (hfix : List.Forall₂ (Fixed lo hi) l₁ l₂) :
    MapInv l₂ := by
  refine ⟨?_, fun b hb => ?_⟩
  · have hsorted := h.sorted
    rw [← List.pairwise_map (R := fun x y : MemoryRange => x.end_ ≤ y.start_)] at hsorted ⊢
    rwa [forall₂_fixed_keys hfix]
  · obtain ⟨a, ha, hab⟩ := forall₂_fixed_mem_right hfix b hb
    exact hab.wf (h.wf a ha)

/-- Each page of a map related by `Fixed` shows what it showed, or what the
anonymous copy of an entry meeting the region shows. -/
theorem mem_view_of_fixed (hfix : List.Forall₂ (Fixed lo hi) l₁ l₂) (p : Nat) :
    mem_view l₂ p = mem_view l₁ p ∨ ∃ a ∈ l₁, a.1.contains_ptr p = true ∧ a.1.start_ < hi ∧
      lo < a.1.end_ ∧ mem_view l₂ p = some ((anonymized a.2).attrs p) := by
  induction hfix with
  | nil => exact .inl rfl
  | @cons a b l₁ l₂ hab _ ih =>
    rw [mem_view_cons, mem_view_cons, hab.key_eq]
    by_cases hc : a.1.contains_ptr p = true
    · rw [if_pos hc, if_pos hc]
      rcases hab with rfl | ⟨hlo, hhi, -, rfl⟩
      · exact .inl rfl
      · exact .inr ⟨a, List.mem_cons_self, hc, hlo, hhi, rfl⟩
    · rw [if_neg hc, if_neg hc]
      rcases ih with ih | ⟨a', ha', hc', hlo, hhi, hview⟩
      · exact .inl ih
      · exact .inr ⟨a', List.mem_cons_of_mem _ ha', hc', hlo, hhi, hview⟩

end Lists

/-! ## One turn of the fixer -/

section Fixer

variable {range rem : MemoryRange} {v : Mapping} {st st' : AddressSpace × Unit} {lo hi : Nat}

/-- A turn of the fixer on a stored key meeting the region leaves, entry by
entry, what `Fixed` allows. -/
theorem fixer_spec (h : MapInv st.1.mem) (he : (range, v) ∈ st.1.mem) (hlo : lo < range.end_)
    (hhi : range.start_ < hi) (hf : fixer range rem st = some st') :
    List.Forall₂ (Fixed lo hi) st.1.mem st'.1.mem := by
  have hsame : List.Forall₂ (Fixed lo hi) st.1.mem st.1.mem :=
    List.forall₂_same.2 fun _ _ => .inl rfl
  obtain ⟨X, Y, hmem, hX, hY, hget, hrem⟩ := h.cut he
  have hwf := h.wf _ he
  unfold fixer at hf
  rw [hget] at hf
  dsimp only at hf
  split_ifs at hf with hrange hasserts hanon
  · cases hf; exact hsame
  · -- a private file-backed piece: replaced by its anonymous copy in place
    cases hf
    have hkey : MemoryRange.from_range v.map.mr.start_ v.map.mr.end_ = range := by
      rw [hwf.map_mr]; rfl
    dsimp only
    rw [hrem, hkey, insert_between hwf.nonempty hX hY, hmem]
    refine List.rel_append (List.forall₂_same.2 fun _ _ => .inl rfl)
      (.cons (.inr ⟨hhi, hlo, by simpa using hanon, rfl⟩) (List.forall₂_same.2 fun _ _ => .inl rfl))
  · cases hf; exact hsame

end Fixer

/-! ## The descent key -/

/-- A range that meets a stored key leads the descent to a stored key. -/
theorem descent_key_mem {mem : MemoryMap} (h : MapInv mem) {q : MemoryRange} (n : Nat)
    (hq : ∃ e ∈ mem, q.intersects e.1 = true) : ∃ e ∈ mem, descent_key q n mem = e.1 := by
  obtain ⟨e, he, hqe⟩ := hq
  obtain ⟨pre, post, hmem, hbelow, hlb, -, hpost⟩ := h.key_split q
  have hqe' := (MemoryRange.intersects_iff _ _).1 hqe
  -- the entry met is not among those `q` compares `gt` against
  have hepost : e ∈ post := by
    rcases List.mem_append.1 (hmem ▸ he) with hpre | hpost'
    · have := hbelow e hpre
      rw [MemoryRangeKey.cmp_eq_eq hqe] at this
      cases this
    · exact hpost'
  obtain ⟨a, rest, rfl⟩ := List.exists_cons_of_ne_nil (List.ne_nil_of_mem hepost)
  have hinv : MapInv (a :: rest) := h.sublist (hmem ▸ List.sublist_append_right _ _)
  -- the first entry of the search is one `q` compares `eq` against
  have ha : MemoryRangeKey.cmp q a.1 = .eq := by
    rcases MemoryRangeKey.cmp_cases q a.1 with ⟨hgt, -⟩ | ⟨-, hni, hlt⟩ | ⟨heq, -⟩
    · exact absurd hgt (hpost a List.mem_cons_self)
    · -- `q` lies wholly below `a`, and so below every later entry, `e` among them
      exfalso
      have hane := (hinv.wf a List.mem_cons_self).nonempty
      have hqa : q.end_ ≤ a.1.start_ := by
        by_contra hlt'
        have : q.intersects a.1 = true := by
          rw [MemoryRange.intersects_iff]; omega
        rw [hni] at this
        cases this
      rcases List.mem_cons.1 hepost with rfl | hrest
      · rw [hni] at hqe; cases hqe
      · have := (List.pairwise_cons.1 hinv.sorted).1 e hrest
        omega
    · exact heq
  unfold descent_key
  dsimp only
  rw [hlb, List.takeWhile_cons_of_pos (by simp [ha])]
  set equal := a :: rest.takeWhile (fun e => MemoryRangeKey.cmp q e.1 == .eq)
  have hlt : min n (equal.length - 1) < equal.length := by
    have : 0 < equal.length := List.length_pos_of_ne_nil (List.cons_ne_nil _ _)
    omega
  rw [List.getElem?_eq_getElem hlt]
  refine ⟨_, ?_, rfl⟩
  have hsub : equal.Sublist (a :: rest) := (List.takeWhile_sublist _).cons_cons a
  rw [hmem]
  exact List.mem_append_right _ (hsub.subset (List.getElem_mem hlt))

/-! ## The whole operation -/

section Ensure

variable {s s' : AddressSpace} {range : MemoryRange} {descent : Nat}

/-- What the loop of `ensure_replay_matches_single_recorded_mapping` keeps, from
the state `s` it started in. -/
structure FixInv (s : AddressSpace) (lo hi last : Nat) (st : AddressSpace × Unit) : Prop where
  start_le : lo ≤ last
  fixed : List.Forall₂ (Fixed lo hi) s.mem st.1.mem

/-- One turn of the loop keeps `FixInv`. -/
theorem FixInv.step {lo hi last : Nat} {st st' : AddressSpace × Unit} {key : MemoryRange}
    (h : MapInv s.mem) (hP : FixInv s lo hi last st) (ht : Turn .IterateDefault lo hi last st key)
    (hf : fixer key (MemoryRange.from_range last hi) st = some st') :
    FixInv s lo hi key.end_ st' := by
  have hinv := mapInv_of_fixed h hP.fixed
  obtain ⟨v, rest, hfound⟩ := ht.found
  obtain ⟨he, hle, -⟩ := hinv.lowerBound_point_cons hfound
  have hlo := hP.start_le
  dsimp only at hle
  exact ⟨by omega, forall₂_fixed_trans hP.fixed (fixer_spec hinv he (by omega) ht.start_lt hf)⟩

/-- The region the loop walks for a range the source's checks accept. -/
theorem ensure_region {range : MemoryRange} (hs : range.start_ = floor_page_size range.start_)
    (he : range.end_ = ceil_page_size range.end_) (hlt : range.start_ < 2 ^ 64) :
    ceil_page_size (wrapping_add range.start_ range.size) = range.end_ := by
  have hend : range.end_ < 2 ^ 64 := he ▸ ceil_page_size_lt _
  have hwrap : wrapping_add range.start_ range.size = range.end_ := by
    unfold MemoryRange.size wrapping_sub wrapping_add
    omega
  rw [hwrap, ← he]

/-- On a well-formed map and a range that meets a mapping,
`ensure_replay_matches_single_recorded_mapping` keeps the map well formed, and
each page shows what it showed, or, for a page of a mapping meeting the range,
what the mapping's anonymous copy shows; the names apart. -/
theorem ensure_replay_spec (h : MapInv s.mem) (hmeet : ∃ e ∈ s.mem, range.intersects e.1 = true)
    (hs : s.ensure_replay_matches_single_recorded_mapping range descent = some s') :
    MapInv s'.mem ∧ ∀ p, (mem_view s'.mem p).map PageAttrs.erase_name =
        (mem_view s.mem p).map PageAttrs.erase_name ∨
      ∃ e ∈ s.mem, e.1.contains_ptr p = true ∧ range.intersects e.1 = true ∧
        (mem_view s'.mem p).map PageAttrs.erase_name = some ((anonymized e.2).attrs p).erase_name := by
  obtain ⟨e, he, hre⟩ := hmeet
  have hre' := (MemoryRange.intersects_iff _ _).1 hre
  have hlt : range.start_ < 2 ^ 64 := by have := (h.wf e he).end_lt; omega
  unfold ensure_replay_matches_single_recorded_mapping at hs
  split_ifs at hs with hchk
  simp only [ne_eq, not_or, not_not] at hchk
  split at hs
  · cases hs
  rename_i s₁ hloop
  have hregion := ensure_region hchk.1 hchk.2 hlt
  rw [for_each_in_range, hregion, ← hchk.1] at hloop
  obtain ⟨last, hP, -⟩ := for_each_in_range_loop_induction _
    (fun _ _ _ _ hP ht hf => FixInv.step h hP ht hf) _ _ _ _
    (⟨le_rfl, List.forall₂_same.2 fun _ _ => .inl rfl⟩ : FixInv s range.start_ range.end_ _ (s, ()))
    hloop
  have hinv₁ := mapInv_of_fixed h hP.fixed
  -- the entry met is still there under its key, so the descent stops at a stored key
  obtain ⟨e₁, he₁, hkey₁⟩ := forall₂_fixed_mem_left hP.fixed e he
  obtain ⟨k, hk, hdesc⟩ := descent_key_mem hinv₁ descent ⟨e₁, he₁, hkey₁ ▸ hre⟩
  rw [hdesc] at hs
  obtain ⟨mem', rfl, hinv', hview⟩ := coalesce_around_view hinv₁ hk hs
  refine ⟨hinv', fun p => ?_⟩
  rw [(hview p).1]
  rcases mem_view_of_fixed hP.fixed p with hsame | ⟨a, ha, hc, hlo, hhi, hanon⟩
  · exact .inl (by rw [hsame])
  · have hwa := (h.wf a ha).nonempty
    refine .inr ⟨a, ha, hc, ?_, by rw [hanon]; rfl⟩
    rw [MemoryRange.intersects_iff]
    omega

end Ensure

end AddressSpace

end RdReplay
