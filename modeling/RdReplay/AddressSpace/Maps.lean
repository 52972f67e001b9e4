/-
  AddressSpace/Maps.lean --- the range searches of the memory map, on any map
  whose keys are disjoint.

  Source: `session/address_space.rs` (`Maps::starting_at`,
  `Maps::containing_or_after`, `Maps::from_range`, `AddressSpace::mapping_of`,
  `AddressSpace::find_free_memory`) and `session/address_space/memory_range.rs`
  (`MemoryRangeKey::cmp`).

  THE PROBES.  Each `Maps` is `range((Included(probe), Unbounded))` of the tree.
  `starting_at` probes with the empty range `[p, p)`, which meets no key, so
  every key is compared by its start; `containing_or_after` and `from_range`
  probe with the byte `[p, p + 1)`, which compares `eq` against the one key
  containing `p`.  On keys in key order, disjoint and non-empty (`KeyOrdered`),
  the keys either probe compares `gt` against come first, and `lowerBound_eq_filter`
  turns each search into a filter of the entries by their key.

  THE VALUES.  Nothing here looks at the values but `mapping_of`, and it tests
  the range of the mapping it finds, not the key it found it under.  What it
  returns is read through the keys where each mapping's range is its key, as
  `add_to_map` keys it; `mapping_of_misses_key_not_its_mapping_range` is a map
  where it is not.

  THE FREE GAP.  `find_free_memory` walks what `starting_at` lists with a
  one-mapping lookahead and returns the first end whose gap to the next start,
  or to the top of the address space after the last, holds `required_space`.
  Both tests add to the end with a wrapping add.  Where no end plus
  `required_space` wraps, the end returned is the first of a genuine gap
  (`find_free_memory_of_no_wrap`); where one does, the lookahead test can pass on
  a wrapped sum (`find_free_memory_returns_wrapping_gap`).
-/
import RdReplay.AddressSpace.Run

set_option autoImplicit false

namespace RdReplay

/-! ## Maps whose keys are disjoint -/

/-- A `BTreeMap<MemoryRangeKey, _>` whose keys are pairwise disjoint and
non-empty, as its entries in key order. -/
structure KeyOrdered {ν : Type} (mem : List (MemoryRange × ν)) : Prop where
  sorted : mem.Pairwise (fun a b => MemoryRangeKey.cmp a.1 b.1 = .lt)
  disjoint : mem.Pairwise (fun a b => a.1.intersects b.1 = false)
  nonempty : ∀ e ∈ mem, e.1.start_ < e.1.end_
  /-- The ends are `RemotePtr`s, 64-bit words. -/
  end_lt : ∀ e ∈ mem, e.1.end_ < 2 ^ 64

instance {ν : Type} (mem : List (MemoryRange × ν)) : Decidable (KeyOrdered mem) :=
  decidable_of_iff (mem.Pairwise (fun a b => MemoryRangeKey.cmp a.1 b.1 = .lt) ∧
      mem.Pairwise (fun a b => a.1.intersects b.1 = false) ∧
      (∀ e ∈ mem, e.1.start_ < e.1.end_) ∧ ∀ e ∈ mem, e.1.end_ < 2 ^ 64)
    ⟨fun ⟨h1, h2, h3, h4⟩ => ⟨h1, h2, h3, h4⟩, fun ⟨h1, h2, h3, h4⟩ => ⟨h1, h2, h3, h4⟩⟩

/-! ## The two probes -/

/-- The empty probe `[p, p)` meets no key, so it compares `gt` exactly against
the keys starting below `p`. -/
theorem cmp_empty_probe_ne_gt_iff (p : Nat) (k : MemoryRange) :
    MemoryRangeKey.cmp (MemoryRange.from_range p p) k ≠ .gt ↔ p ≤ k.start_ := by
  have hni : (MemoryRange.from_range p p).intersects k = false := by
    simp [MemoryRange.intersects, MemoryRange.from_range]
  unfold MemoryRangeKey.cmp
  rw [hni]
  simp only [Bool.not_false, ↓reduceIte, MemoryRange.from_range]
  exact Nat.compare_ne_gt

/-- The byte probe `[p, p + 1)` compares `gt` exactly against the keys ending at
or before `p`.  At `p = 2^64 - 1` the probe's end wraps to `0` and it meets
nothing, but then no key of 64-bit addresses ends after `p` either. -/
theorem cmp_byte_probe_ne_gt_iff (p : Nat) {k : MemoryRange} (hk : k.start_ < k.end_)
    (hend : k.end_ < 2 ^ 64) :
    MemoryRangeKey.cmp (MemoryRange.new_range p 1) k ≠ .gt ↔ p < k.end_ := by
  rcases MemoryRangeKey.cmp_cases (MemoryRange.new_range p 1) k with
    ⟨hgt, hni, hlt⟩ | ⟨hlt, -, hst⟩ | ⟨heq, hint | hst⟩
  · -- `k` starts below `p` and misses the probe: it ends at or before `p`
    rw [hgt]
    simp only [ne_eq, not_true_eq_false, false_iff, not_lt]
    simp only [MemoryRange.new_range] at hlt
    rw [← Bool.not_eq_true, MemoryRange.intersects_iff] at hni
    simp only [MemoryRange.new_range] at hni
    by_cases hp : p + 1 < 2 ^ 64
    · rw [wrapping_add_of_lt hp] at hni
      omega
    · omega
  · rw [hlt]
    simp only [MemoryRange.new_range] at hst
    simp only [ne_eq, reduceCtorEq, not_false_eq_true, true_iff]
    omega
  · rw [heq]
    rw [MemoryRange.intersects_iff] at hint
    simp only [MemoryRange.new_range] at hint
    simp only [ne_eq, reduceCtorEq, not_false_eq_true, true_iff]
    omega
  · rw [heq]
    simp only [MemoryRange.new_range] at hst
    simp only [ne_eq, reduceCtorEq, not_false_eq_true, true_iff]
    omega

namespace KeyOrdered

variable {ν : Type} {mem : List (MemoryRange × ν)}

/-- In key order, disjoint non-empty keys follow one another: each ends at or
before every later one starts. -/
theorem chain (h : KeyOrdered mem) : mem.Pairwise (fun a b => a.1.end_ ≤ b.1.start_) := by
  refine (h.sorted.and h.disjoint).imp_of_mem fun {a b} ha hb hab => ?_
  obtain ⟨hlt, hdis⟩ := hab
  have hna := h.nonempty a ha
  have hnb := h.nonempty b hb
  rw [← Bool.not_eq_true, MemoryRange.intersects_iff] at hdis
  rcases MemoryRangeKey.cmp_cases a.1 b.1 with ⟨hgt, -⟩ | ⟨-, -, hst⟩ | ⟨heq, -⟩
  · rw [hlt] at hgt; exact absurd hgt (by decide)
  · omega
  · rw [hlt] at heq; exact absurd heq (by decide)

/-- `starting_at`'s search keeps the entries starting at or above `p`. -/
theorem lowerBound_empty_probe (h : KeyOrdered mem) (p : Nat) :
    CmpList.lowerBound MemoryRangeKey.cmp (MemoryRange.from_range p p) mem =
      mem.filter (fun e => p ≤ e.1.start_) := by
  have hprefix : mem.Pairwise (fun a b => MemoryRangeKey.cmp (MemoryRange.from_range p p) b.1 = .gt →
      MemoryRangeKey.cmp (MemoryRange.from_range p p) a.1 = .gt) := by
    refine h.chain.imp_of_mem fun {a b} ha _ hab hb => ?_
    have hb' := (not_congr (cmp_empty_probe_ne_gt_iff p b.1)).1 (not_not.2 hb)
    have ha' : ¬ p ≤ a.1.start_ := by have := h.nonempty a ha; omega
    exact not_not.1 ((not_congr (cmp_empty_probe_ne_gt_iff p a.1)).2 ha')
  rw [CmpList.lowerBound_eq_filter hprefix]
  exact List.filter_congr fun e _ => by simp only [cmp_empty_probe_ne_gt_iff]

/-- `containing_or_after`'s search keeps the entries ending above `p`. -/
theorem lowerBound_byte_probe (h : KeyOrdered mem) (p : Nat) :
    CmpList.lowerBound MemoryRangeKey.cmp (MemoryRange.new_range p 1) mem =
      mem.filter (fun e => p < e.1.end_) := by
  have hiff : ∀ e ∈ mem, MemoryRangeKey.cmp (MemoryRange.new_range p 1) e.1 ≠ .gt ↔ p < e.1.end_ :=
    fun e he => cmp_byte_probe_ne_gt_iff p (h.nonempty e he) (h.end_lt e he)
  have hprefix : mem.Pairwise (fun a b => MemoryRangeKey.cmp (MemoryRange.new_range p 1) b.1 = .gt →
      MemoryRangeKey.cmp (MemoryRange.new_range p 1) a.1 = .gt) := by
    refine h.chain.imp_of_mem fun {a b} ha hb hab hgt => ?_
    have hb' : ¬ p < b.1.end_ := fun hp => (hiff b hb).2 hp hgt
    have ha' : ¬ p < a.1.end_ := by have := h.nonempty b hb; omega
    exact not_not.1 (fun hne => ha' ((hiff a ha).1 hne))
  rw [CmpList.lowerBound_eq_filter hprefix]
  exact List.filter_congr fun e he => by simp only [hiff e he]

end KeyOrdered

/-- The entries ending above `p`: the one containing `p`, if any, then those
starting above `p`.  By induction along the keys, which follow one another. -/
theorem filter_lt_end_of_chain {ν : Type} (p : Nat) : ∀ {mem : List (MemoryRange × ν)},
    mem.Pairwise (fun a b => a.1.end_ ≤ b.1.start_) → (∀ e ∈ mem, e.1.start_ < e.1.end_) →
      mem.filter (fun e => p < e.1.end_) =
        (mem.find? (fun e => e.1.contains_ptr p)).toList ++ mem.filter (fun e => p < e.1.start_)
  | [], _, _ => rfl
  | a :: t, hc, hne => by
    have ih := filter_lt_end_of_chain p (List.Pairwise.of_cons hc)
      (fun e he => hne e (List.mem_cons_of_mem _ he))
    have hna := hne a List.mem_cons_self
    by_cases hend : p < a.1.end_
    · -- every later key starts at or after `a` ends, above `p`: none contains `p`
      have hnone : t.find? (fun e => e.1.contains_ptr p) = none := by
        rw [List.find?_eq_none]
        intro b hb
        have := List.rel_of_pairwise_cons hc hb
        simp only [MemoryRange.contains_ptr_iff, not_and, not_lt]
        omega
      have hrest : t.filter (fun e => p < e.1.end_) = t.filter (fun e => p < e.1.start_) := by
        rw [ih, hnone]
        rfl
      by_cases hstart : a.1.start_ ≤ p
      · -- `a` contains `p`
        rw [List.filter_cons_of_pos (by simpa using hend),
          List.find?_cons_of_pos (by simp [MemoryRange.contains_ptr_iff, hstart, hend]),
          List.filter_cons_of_neg (by simpa using hstart), hrest]
        rfl
      · -- `a` starts above `p`
        rw [List.filter_cons_of_pos (by simpa using hend),
          List.find?_cons_of_neg (by simp [MemoryRange.contains_ptr_iff]; omega), hnone,
          List.filter_cons_of_pos (by simp; omega), hrest]
        rfl
    · -- `a` ends at or before `p`
      rw [List.filter_cons_of_neg (by simpa using hend),
        List.find?_cons_of_neg (by simp [MemoryRange.contains_ptr_iff]; omega),
        List.filter_cons_of_neg (by simp; omega), ih]

/-- Along keys that follow one another, the first key containing `p` is the
one that does. -/
theorem find?_contains_of_chain {ν : Type} {p : Nat} {e : MemoryRange × ν}
    (hc : e.1.contains_ptr p = true) : ∀ {mem : List (MemoryRange × ν)},
      mem.Pairwise (fun a b => a.1.end_ ≤ b.1.start_) → e ∈ mem →
        mem.find? (fun e => e.1.contains_ptr p) = some e
  | a :: t, hch, he => by
    rcases List.mem_cons.1 he with rfl | he
    · exact List.find?_cons_of_pos hc
    · -- `a` ends before `e` starts, at or below `p`
      have hae := List.rel_of_pairwise_cons hch he
      have hna : a.1.contains_ptr p = false := by
        rw [← Bool.not_eq_true, MemoryRange.contains_ptr_iff]
        rw [MemoryRange.contains_ptr_iff] at hc
        omega
      simp only [List.find?_cons, hna]
      exact find?_contains_of_chain hc (List.Pairwise.of_cons hch) he

/-! ## `Maps` -/

namespace Maps

/-- `Maps::starting_at`: from the empty range `[start, start)`. -/
def starting_at (outer : AddressSpace) (start : Nat) : MemoryMap :=
  CmpList.lowerBound MemoryRangeKey.cmp (MemoryRange.from_range start start) outer.mem

/-- `Maps::containing_or_after`: from the byte `[start, start + 1)`. -/
def containing_or_after (outer : AddressSpace) (start : Nat) : MemoryMap :=
  CmpList.lowerBound MemoryRangeKey.cmp (MemoryRange.new_range start 1) outer.mem

/-- `Maps::from_range`: from the first byte of `range`; its end is ignored. -/
def from_range (outer : AddressSpace) (range : MemoryRange) : MemoryMap :=
  CmpList.lowerBound MemoryRangeKey.cmp (MemoryRange.new_range range.start_ 1) outer.mem

variable {s : AddressSpace}

/-- `starting_at` lists the entries starting at or above `p`, in key order. -/
theorem starting_at_eq (h : KeyOrdered s.mem) (p : Nat) :
    starting_at s p = s.mem.filter (fun e => p ≤ e.1.start_) :=
  h.lowerBound_empty_probe p

/-- `containing_or_after` lists the entry containing `p`, if any, then the
entries starting above `p`. -/
theorem containing_or_after_eq (h : KeyOrdered s.mem) (p : Nat) :
    containing_or_after s p =
      (s.mem.find? (fun e => e.1.contains_ptr p)).toList ++ s.mem.filter (fun e => p < e.1.start_) := by
  rw [containing_or_after, h.lowerBound_byte_probe p]
  exact filter_lt_end_of_chain p h.chain h.nonempty

end Maps

/-! ## `mapping_of` -/

namespace KeyOrdered

variable {s : AddressSpace}

/-- Where each mapping's range is its key, `mapping_of` returns the mapping of
the entry containing the address, and nothing when no entry does. -/
theorem mapping_of_eq (h : KeyOrdered s.mem) (hmr : ∀ e ∈ s.mem, e.2.map.mr = e.1) (p : Nat) :
    s.mapping_of p = (s.mem.find? (fun e => e.1.contains_ptr p)).map Prod.snd := by
  have hsearch := Maps.containing_or_after_eq h p
  unfold Maps.containing_or_after at hsearch
  unfold AddressSpace.mapping_of
  rw [hsearch]
  cases hfind : s.mem.find? (fun e => e.1.contains_ptr p) with
  | some e =>
    -- the search stops at the entry containing `p`
    have he := List.mem_of_find?_eq_some hfind
    have hc : e.1.contains_ptr p = true := by simpa using List.find?_some hfind
    simp only [Option.toList_some, List.cons_append, hmr e he, hc, if_true, Option.map_some]
  | none =>
    -- the search stops above `p`, or at the end
    cases hrest : s.mem.filter (fun e => p < e.1.start_) with
    | nil => rfl
    | cons a t =>
      have ha := List.mem_filter.1 (hrest ▸ List.mem_cons_self : a ∈ s.mem.filter _)
      have hnc : a.2.map.mr.contains_ptr p = false := by
        rw [hmr a ha.1]
        have := ha.2
        simp only [decide_eq_true_eq] at this
        simp only [MemoryRange.contains_ptr, Bool.and_eq_false_iff, decide_eq_false_iff_not, not_le,
          not_lt]
        omega
      simp only [Option.toList_none, List.nil_append, hnc, Option.map_none]
      rfl

/-- `mapping_of` returns `m` exactly when an entry containing the address has
mapping `m`. -/
theorem mapping_of_eq_some_iff (h : KeyOrdered s.mem) (hmr : ∀ e ∈ s.mem, e.2.map.mr = e.1)
    (p : Nat) (m : Mapping) :
    s.mapping_of p = some m ↔ ∃ e ∈ s.mem, e.1.contains_ptr p = true ∧ e.2 = m := by
  rw [h.mapping_of_eq hmr p, Option.map_eq_some_iff]
  constructor
  · rintro ⟨e, hfind, rfl⟩
    exact ⟨e, List.mem_of_find?_eq_some hfind, by simpa using List.find?_some hfind, rfl⟩
  · rintro ⟨e, he, hc, rfl⟩
    exact ⟨e, find?_contains_of_chain hc h.chain he, rfl⟩

end KeyOrdered

/-- The memory map of the representation invariant is one of these, with each
mapping's range its key. -/
theorem MapInv.keyOrdered {mem : MemoryMap} (h : MapInv mem) :
    KeyOrdered mem ∧ ∀ e ∈ mem, e.2.map.mr = e.1 := by
  have hwf := h.wf
  refine ⟨⟨?_, ?_, fun e he => (hwf e he).nonempty, fun e he => (hwf e he).end_lt⟩,
    fun e he => (hwf e he).map_mr⟩
  · exact h.sorted.imp_of_mem fun {a _} ha _ hab => MemoryRangeKey.cmp_eq_lt (hwf a ha).nonempty hab
  · refine h.sorted.imp_of_mem fun {a _} _ _ hab => ?_
    rw [← Bool.not_eq_true, MemoryRange.intersects_iff]
    omega

/-- Every state a sane run reaches from an empty map is one of these. -/
theorem AddressSpace.reachable_keyOrdered {b : Nat} {ops : List Op} {s : AddressSpace}
    (hsane : (AddressSpace.empty b).SaneRun ops) (hrun : (AddressSpace.empty b).run ops = some s) :
    KeyOrdered s.mem ∧ ∀ e ∈ s.mem, e.2.map.mr = e.1 :=
  ((AddressSpace.RunInv.empty b id).run hsane hrun).inv.keyOrdered

/-! ## The searches, together -/

/-- A private read-only anonymous mapping of `[start, end_)`. -/
def plain_mapping (start end_ : Nat) : Mapping :=
  Mapping.new (KernelMapping.new_with_opts start end_ "" 0 0 PROT_READ MAP_PRIVATE 0)
    (KernelMapping.new_with_opts start end_ "" 0 0 PROT_READ MAP_PRIVATE 0) none none none none

/-- Two mappings, `[0x1000, 0x2000)` and `[0x3000, 0x5000)`, each under its range. -/
def two_mappings : AddressSpace :=
  ⟨[(⟨0x1000, 0x2000⟩, plain_mapping 0x1000 0x2000), (⟨0x3000, 0x5000⟩, plain_mapping 0x3000 0x5000)],
    [], [], 0, 0⟩

/-- The loop of `find_free_memory`: the current mapping and those after it. -/
def find_free_memory_loop (required_space : Nat) : Mapping → List Mapping → Option Nat
  | current, [] =>
    -- the last mapping: break unless the end wraps, else `maybe_next.unwrap()` panics
    if wrapping_add current.map.mr.end_ required_space ≥ current.map.mr.end_ then
      some current.map.mr.end_
    else none
  | current, found_next :: rest =>
    if wrapping_add current.map.mr.end_ required_space ≤ found_next.map.mr.start_ then
      some current.map.mr.end_
    else find_free_memory_loop required_space found_next rest

/-- `AddressSpace::find_free_memory`, `none` where it panics: `iter.next().unwrap()`
on an empty `maps_starting_at(after)`. -/
def AddressSpace.find_free_memory (s : AddressSpace) (required_space : Nat)
    (maybe_after : Option Nat) : Option Nat :=
  match (Maps.starting_at s (maybe_after.getD 0)).map Prod.snd with
  | [] => none
  | current :: rest => find_free_memory_loop required_space current rest

/-- `[p, p + n)` is a range of words that no key of `es` meets. -/
def GapFree {ν : Type} (es : List (MemoryRange × ν)) (p n : Nat) : Prop :=
  p + n < 2 ^ 64 ∧ ∀ f ∈ es, f.1.end_ ≤ p ∨ p + n ≤ f.1.start_

theorem GapFree.mono {ν : Type} {es es' : List (MemoryRange × ν)} {p n : Nat}
    (h : GapFree es' p n) (hsub : ∀ f ∈ es, f ∈ es') : GapFree es p n :=
  ⟨h.1, fun f hf => h.2 f (hsub f hf)⟩

/-- Of two keys of a map in key order, the one starting first ends before the
other starts. -/
theorem KeyOrdered.end_le_of_start_lt {ν : Type} {mem : List (MemoryRange × ν)} (h : KeyOrdered mem)
    {a b : MemoryRange × ν} (ha : a ∈ mem) (hb : b ∈ mem) (hlt : a.1.start_ < b.1.start_) :
    a.1.end_ ≤ b.1.start_ := by
  obtain ⟨i, hi, rfl⟩ := List.getElem_of_mem ha
  obtain ⟨j, hj, rfl⟩ := List.getElem_of_mem hb
  rcases Nat.lt_trichotomy i j with hij | rfl | hji
  · exact List.pairwise_iff_getElem.1 h.chain i j hi hj hij
  · omega
  · -- the later key would start after the earlier one ends
    have := List.pairwise_iff_getElem.1 h.chain j i hj hi hji
    have := h.nonempty _ (List.getElem_mem hj)
    omega

section FindFreeMemory

variable {req : Nat}

/-- The loop returns the end of the first entry, in address order, whose gap to
the next holds `req` bytes, where no end plus `req` wraps. -/
theorem find_free_memory_loop_spec (c : MemoryRange × Mapping) (es : List (MemoryRange × Mapping))
    (hchain : (c :: es).Pairwise (fun a b => a.1.end_ ≤ b.1.start_))
    (hne : ∀ e ∈ c :: es, e.1.start_ < e.1.end_) (hmr : ∀ e ∈ c :: es, e.2.map.mr = e.1)
    (hwrap : ∀ e ∈ c :: es, e.1.end_ + req < 2 ^ 64) :
    ∃ e ∈ c :: es, find_free_memory_loop req c.2 (es.map Prod.snd) = some e.1.end_ ∧
      GapFree (c :: es) e.1.end_ req ∧
      ∀ e' ∈ c :: es, e'.1.end_ < e.1.end_ → ¬ GapFree (c :: es) e'.1.end_ req := by
  induction es generalizing c with
  | nil =>
    -- the last entry: its gap reaches the top of the address space
    have hc := hwrap c List.mem_cons_self
    refine ⟨c, List.mem_cons_self, ?_, ⟨hc, ?_⟩, ?_⟩
    · rw [List.map_nil, find_free_memory_loop, hmr c List.mem_cons_self,
        wrapping_add_of_lt hc, if_pos (Nat.le_add_right _ _)]
    · simp
    · simp
  | cons n rest ih =>
    have hcn := List.rel_of_pairwise_cons hchain List.mem_cons_self
    have hafter : ∀ f ∈ n :: rest, n.1.start_ ≤ f.1.start_ := by
      intro f hf
      rcases List.mem_cons.1 hf with rfl | hf
      · exact le_refl _
      · have := List.rel_of_pairwise_cons (List.pairwise_cons.1 hchain).2 hf
        have := hne n (List.mem_cons_of_mem _ List.mem_cons_self)
        omega
    have hc := hwrap c List.mem_cons_self
    rw [List.map_cons, find_free_memory_loop, hmr c List.mem_cons_self,
      hmr n (List.mem_cons_of_mem _ List.mem_cons_self), wrapping_add_of_lt hc]
    by_cases hfit : c.1.end_ + req ≤ n.1.start_
    · -- the gap before `n` holds the space: every later entry starts past it
      rw [if_pos hfit]
      refine ⟨c, List.mem_cons_self, rfl, ⟨hc, ?_⟩, ?_⟩
      · intro f hf
        rcases List.mem_cons.1 hf with rfl | hf
        · exact .inl (le_refl _)
        · exact .inr (Nat.le_trans hfit (hafter f hf))
      · intro e' he' hlt
        rcases List.mem_cons.1 he' with rfl | he'
        · exact absurd hlt (lt_irrefl _)
        · have := List.rel_of_pairwise_cons hchain he'
          have := hne e' (List.mem_cons_of_mem _ he')
          omega
    · -- `c`'s gap is too small; the rest of the walk starts at `n`
      rw [if_neg hfit]
      have hsub : ∀ f ∈ n :: rest, f ∈ c :: n :: rest := fun f hf => List.mem_cons_of_mem _ hf
      obtain ⟨e, he, hrun, hfree, hfirst⟩ := ih n (List.pairwise_cons.1 hchain).2
        (fun f hf => hne f (hsub f hf)) (fun f hf => hmr f (hsub f hf)) (fun f hf => hwrap f (hsub f hf))
      have hce : c.1.end_ ≤ e.1.end_ := by
        have := List.rel_of_pairwise_cons hchain he
        have := hne e (hsub e he)
        omega
      refine ⟨e, hsub e he, hrun, ⟨hfree.1, ?_⟩, ?_⟩
      · intro f hf
        rcases List.mem_cons.1 hf with rfl | hf
        · exact .inl hce
        · exact hfree.2 f hf
      · intro e' he' hlt hgap
        rcases List.mem_cons.1 he' with rfl | he'
        · -- `n` meets the space after `c`
          have := hne n (hsub n List.mem_cons_self)
          rcases hgap.2 n (hsub n List.mem_cons_self) with h | h <;> omega
        · exact hfirst e' he' hlt (hgap.mono hsub)

/-- Where no end at or after `after` plus `required_space` wraps,
`find_free_memory` returns the end of a mapping starting at or after `after`
whose following `required_space` bytes no mapping meets, and no mapping starting
at or after `after` ends earlier with such a gap. -/
theorem find_free_memory_of_no_wrap {s : AddressSpace} (h : MapInv s.mem) {after : Nat}
    (hsome : ∃ e ∈ s.mem, after ≤ e.1.start_)
    (hwrap : ∀ e ∈ s.mem, after ≤ e.1.start_ → e.1.end_ + req < 2 ^ 64) :
    ∃ p, s.find_free_memory req (some after) = some p ∧ after ≤ p ∧
      (∃ e ∈ s.mem, after ≤ e.1.start_ ∧ e.1.end_ = p) ∧ GapFree s.mem p req ∧
      ∀ e ∈ s.mem, after ≤ e.1.start_ → e.1.end_ < p → ¬ GapFree s.mem e.1.end_ req := by
  obtain ⟨hko, hmr⟩ := h.keyOrdered
  have hL := Maps.starting_at_eq hko after
  have hmemL : ∀ f, f ∈ Maps.starting_at s after ↔ f ∈ s.mem ∧ after ≤ f.1.start_ := by
    intro f
    rw [hL, List.mem_filter, decide_eq_true_eq]
  -- what `starting_at` lists is not empty
  obtain ⟨c, es, hces⟩ : ∃ c es, Maps.starting_at s after = c :: es := by
    obtain ⟨e, he, hae⟩ := hsome
    cases hcur : Maps.starting_at s after with
    | nil => exact absurd ((hmemL e).2 ⟨he, hae⟩) (by rw [hcur]; exact List.not_mem_nil)
    | cons c es => exact ⟨c, es, rfl⟩
  have hmem : ∀ f ∈ c :: es, f ∈ s.mem ∧ after ≤ f.1.start_ := fun f hf => (hmemL f).1 (hces ▸ hf)
  have hchain : (c :: es).Pairwise (fun a b => a.1.end_ ≤ b.1.start_) := by
    rw [← hces, hL]
    exact hko.chain.filter _
  obtain ⟨e, he, hrun, hfree, hfirst⟩ := find_free_memory_loop_spec c es hchain
    (fun f hf => hko.nonempty f (hmem f hf).1) (fun f hf => hmr f (hmem f hf).1)
    (fun f hf => hwrap f (hmem f hf).1 (hmem f hf).2)
  obtain ⟨heL, hae⟩ := hmem e he
  have hne := hko.nonempty e heL
  -- every mapping starting below `after` ends before `e` starts
  have hgap : GapFree s.mem e.1.end_ req := by
    refine ⟨hfree.1, fun f hf => ?_⟩
    by_cases haf : after ≤ f.1.start_
    · exact hfree.2 f (hces ▸ (hmemL f).2 ⟨hf, haf⟩)
    · have := hko.end_le_of_start_lt hf heL (by omega)
      exact .inl (by omega)
  refine ⟨e.1.end_, ?_, by omega, ⟨e, heL, hae, rfl⟩, hgap, ?_⟩
  · simp only [AddressSpace.find_free_memory, Option.getD_some, hces, List.map_cons]
    exact hrun
  · intro e' he' hae' hlt hgap'
    exact hfirst e' (hces ▸ (hmemL e').2 ⟨he', hae'⟩) hlt
      (hgap'.mono fun f hf => (hmem f hf).1)

end FindFreeMemory

/-- Two mappings `[0x1000, 0x2000)` and `[0x3000, 0x5000)`, searched from `0`
for `2^64 - 0x800` bytes: the first end plus the size wraps to `0x1800`, which
lies below the next start, so `0x2000` is returned, though
`[0x2000, 0x2000 + (2^64 - 0x800))` does not fit below the top of the address
space. -/
theorem find_free_memory_returns_wrapping_gap :
    MapInv two_mappings.mem ∧
      two_mappings.find_free_memory (2 ^ 64 - 0x800) (some 0) = some 0x2000 ∧
      2 ^ 64 ≤ 0x2000 + (2 ^ 64 - 0x800) :=
  ⟨by decide, by decide, by decide⟩

end RdReplay
