/-
  Gdb/SearchMemory.lean --- gdb's `find`: searching tracee memory for a byte
  string.

  Source: `commands/gdb_server.rs`: `search_memory`; `util.rs`: `find`;
  `task_common.rs`: `read_bytes_fallible_common`;
  `memory_range.rs`: `MemoryRange::intersect`.

  THE SEARCH.  For each mapping in address order, `search_memory` searches the
  mapping extended by `|s| - 1` bytes, so that a match may run into what
  follows it, cut to the range `where_` gdb asked about.  It reads windows of
  `page_size + |s| - 1` bytes: the first at the start of that range, which may
  be mid-page, and each next one at the following page boundary, and looks for
  `s` in the bytes each read gave.

  THE MODEL.  Tracee memory is a partial byte map, and `read_bytes_fallible`
  gives the bytes it can read from the start of what was asked for, `Err` when
  it can read none.  Pointer sums wrap at 2^64, as `RemotePtr`'s do.  The
  `while` loop runs on 2^64 turns of fuel: its range's start decides the rest
  of a run, and starts are below 2^64, so a run that ends ends within them, and
  running out is a loop that never ends.  The `assert_ne!` on an empty needle is
  `none` too.

  THE RESULTS.  A match the search returns lies in `where_` and in a mapping,
  and its bytes are readable and equal `s`; the search ends on every
  well-formed map (`search_memory_spec`).  When every mapping that meets
  `where_` is readable throughout and its end plus `|s| - 1` does not wrap, the
  search returns the least match, and nothing only when there is none.  The
  second condition holds of every tracee: user space ends at 2^63 and a needle
  is shorter than 2^63 bytes (`search_memory_finds_least_match`).
-/
import RdReplay.AddressSpace.Invariant

set_option autoImplicit false

namespace RdReplay.Gdb

/-! ## Reading memory -/

/-- The readable bytes from `addr` on, at most `len` of them. -/
def readable_span (mem : Nat → Option UInt8) (addr : Nat) : Nat → List UInt8
  | 0 => []
  | len + 1 =>
    match mem addr with
    | none => []
    | some b => b :: readable_span mem (addr + 1) len

/-- `read_bytes_fallible` into a buffer of `len` bytes: the bytes read from
its start; `Err(())` when none could be. -/
def read_bytes_fallible (mem : Nat → Option UInt8) (addr len : Nat) : Except Unit (List UInt8) :=
  if len = 0 then .ok []
  else if readable_span mem addr len = [] then .error ()
  else .ok (readable_span mem addr len)

/-- `s` is in memory at `p`: the bytes `[p, p + |s|)` are readable and are `s`. -/
def MatchAt (mem : Nat → Option UInt8) (s : List UInt8) (p : Nat) : Prop :=
  readable_span mem p s.length = s

instance (mem : Nat → Option UInt8) (s : List UInt8) (p : Nat) : Decidable (MatchAt mem s p) :=
  inferInstanceAs (Decidable (_ = _))

section Read

variable (mem : Nat → Option UInt8)

theorem readable_span_zero (addr : Nat) : readable_span mem addr 0 = [] := rfl

theorem readable_span_succ (addr len : Nat) :
    readable_span mem addr (len + 1) =
      match mem addr with
      | none => []
      | some b => b :: readable_span mem (addr + 1) len :=
  rfl

theorem readable_span_succ_of_some {addr : Nat} {b : UInt8} (hb : mem addr = some b) (len : Nat) :
    readable_span mem addr (len + 1) = b :: readable_span mem (addr + 1) len := by
  rw [readable_span_succ, hb]

theorem readable_span_succ_of_none {addr : Nat} (hb : mem addr = none) (len : Nat) :
    readable_span mem addr (len + 1) = [] := by
  rw [readable_span_succ, hb]

theorem length_readable_span_le : ∀ (addr len : Nat), (readable_span mem addr len).length ≤ len
  | _, 0 => by simp [readable_span_zero]
  | addr, len + 1 => by
    cases hb : mem addr with
    | none => simp [readable_span_succ_of_none mem hb]
    | some b => simpa [readable_span_succ_of_some mem hb] using length_readable_span_le (addr + 1) len

theorem take_readable_span : ∀ (n len addr : Nat),
    (readable_span mem addr len).take n = readable_span mem addr (min n len)
  | n, 0, addr => by simp [readable_span_zero]
  | 0, len + 1, addr => by simp [readable_span_zero]
  | n + 1, len + 1, addr => by
    rw [Nat.add_min_add_right]
    cases hb : mem addr with
    | none => simp [readable_span_succ_of_none mem hb]
    | some b => simp [readable_span_succ_of_some mem hb, take_readable_span n len (addr + 1)]

/-- Past readable bytes, a read goes on as a read from further on. -/
theorem drop_readable_span : ∀ (j addr len : Nat), j ≤ (readable_span mem addr len).length →
    (readable_span mem addr len).drop j = readable_span mem (addr + j) (len - j)
  | 0, addr, len, _ => by simp
  | j + 1, addr, 0, hj => by simp [readable_span_zero] at hj
  | j + 1, addr, len + 1, hj => by
    cases hb : mem addr with
    | none => simp [readable_span_succ_of_none mem hb] at hj
    | some b =>
      rw [readable_span_succ_of_some mem hb] at hj ⊢
      simp only [List.length_cons, Nat.add_le_add_iff_right, List.drop_succ_cons] at hj ⊢
      rw [drop_readable_span j (addr + 1) len hj, Nat.add_right_comm, Nat.add_assoc, Nat.add_sub_add_right]

/-- A read of `len` bytes at `addr` starts with `s` exactly when `s` fits in
it and is in memory at `addr`. -/
theorem prefix_readable_span_iff (s : List UInt8) (addr len : Nat) :
    s <+: readable_span mem addr len ↔ s.length ≤ len ∧ MatchAt mem s addr := by
  rw [List.prefix_iff_eq_take, take_readable_span]
  constructor
  · intro h
    have hlen : s.length ≤ len := by
      have := length_readable_span_le mem addr (min s.length len)
      rw [← h] at this
      omega
    rw [Nat.min_eq_left hlen] at h
    exact ⟨hlen, h.symm⟩
  · rintro ⟨hlen, hmatch⟩
    rw [Nat.min_eq_left hlen]
    exact hmatch.symm

/-- Readable bytes are read. -/
theorem le_length_readable_span : ∀ (k addr len : Nat), (∀ i < k, (mem (addr + i)).isSome) → k ≤ len →
    k ≤ (readable_span mem addr len).length
  | 0, _, _, _, _ => Nat.zero_le _
  | k + 1, addr, 0, _, hk => absurd hk (by omega)
  | k + 1, addr, len + 1, hread, hk => by
    obtain ⟨b, hb⟩ := Option.isSome_iff_exists.1 (hread 0 (by omega))
    rw [Nat.add_zero] at hb
    rw [readable_span_succ_of_some mem hb, List.length_cons]
    have := le_length_readable_span k (addr + 1) len
      (fun i hi => by simpa [Nat.add_assoc, Nat.add_comm 1 i] using hread (i + 1) (by omega)) (by omega)
    omega

/-- What is read is readable. -/
theorem isSome_of_lt_length_readable_span : ∀ (i addr len : Nat), i < (readable_span mem addr len).length →
    (mem (addr + i)).isSome
  | i, addr, 0, hi => by simp [readable_span_zero] at hi
  | i, addr, len + 1, hi => by
    cases hb : mem addr with
    | none => simp [readable_span_succ_of_none mem hb] at hi
    | some b =>
      rw [readable_span_succ_of_some mem hb, List.length_cons] at hi
      cases i with
      | zero => simp [hb]
      | succ i =>
        have := isSome_of_lt_length_readable_span i (addr + 1) len (by omega)
        rwa [Nat.add_right_comm, Nat.add_assoc] at this

theorem MatchAt.isSome {s : List UInt8} {p : Nat} (h : MatchAt mem s p) {i : Nat} (hi : i < s.length) :
    (mem (p + i)).isSome := by
  refine isSome_of_lt_length_readable_span mem i p s.length ?_
  rw [h]
  exact hi

end Read

/-! ## `find` -/

section Find

variable {α : Type} [DecidableEq α] (haystack needle : List α)

/-- The loop of `find` from the index `i`, with no occurrence before it: it
returns the first occurrence, and `none` only when there is none. -/
theorem find_go_spec (hne : needle ≠ []) (rest : List α) (i : Nat) (hrest : rest = haystack.drop i)
    (hbefore : ∀ k < i, ¬needle <+: haystack.drop k) :
    (∀ j, find.go haystack needle rest i = some j → needle <+: haystack.drop j ∧ ∀ k < j, ¬needle <+: haystack.drop k) ∧
      (find.go haystack needle rest i = none → ∀ k, ¬needle <+: haystack.drop k) := by
  fun_induction find.go haystack needle rest i with
  | case1 rest i hlong =>
    -- fewer than `needle.len()` bytes are left from `i` on
    refine ⟨fun j h => (by cases h), fun _ k hk => ?_⟩
    by_cases hki : k < i
    · exact hbefore k hki hk
    · have hlen := hk.length_le
      have hpos := List.length_pos_iff.2 hne
      simp only [List.length_drop] at hlen
      omega
  | case2 rest i _ hpre =>
    subst hrest
    refine ⟨fun j h => ?_, fun h => (by cases h)⟩
    cases h
    exact ⟨List.isPrefixOf_iff_prefix.1 hpre, hbefore⟩
  | case3 i _ _ =>
    refine ⟨fun j h => (by cases h), fun _ k hk => ?_⟩
    by_cases hki : k < i
    · exact hbefore k hki hk
    · have hnil : haystack.drop k = [] := by
        rw [← Nat.add_sub_cancel' (Nat.le_of_not_lt hki), ← List.drop_drop, ← hrest, List.drop_nil]
      exact hne (List.prefix_nil.1 (hnil ▸ hk))
  | case4 i _ x rest' hpre ih =>
    -- no occurrence at `i`: the loop moves on
    have hnext : rest' = haystack.drop (i + 1) := by
      rw [← List.drop_drop, ← hrest, List.drop_one, List.tail_cons]
    refine ih hnext fun k hk => ?_
    rcases Nat.lt_succ_iff_lt_or_eq.1 hk with hk | rfl
    · exact hbefore k hk
    · rw [← hrest]
      exact fun h => hpre (List.isPrefixOf_iff_prefix.2 h)

/-- `find` returns the first occurrence. -/
theorem find_eq_some (hne : needle ≠ []) {j : Nat} (h : find haystack needle = some j) :
    needle <+: haystack.drop j ∧ ∀ k < j, ¬needle <+: haystack.drop k :=
  (find_go_spec haystack needle hne haystack 0 rfl (fun _ hk => absurd hk (Nat.not_lt_zero _))).1 j h

/-- `find` returns `none` only when there is no occurrence. -/
theorem find_eq_none (hne : needle ≠ []) (h : find haystack needle = none) :
    ∀ k, ¬needle <+: haystack.drop k :=
  (find_go_spec haystack needle hne haystack 0 rfl (fun _ hk => absurd hk (Nat.not_lt_zero _))).2 h

end Find

/-! ## `search_memory` -/

section Search

variable (mem : Nat → Option UInt8) (find_s : List UInt8)

/-- One window: where in the `l` bytes read at `addr` `find` finds `find_s`,
if the read gave at least `find_s.len()` bytes. -/
def window_match (addr l : Nat) : Option Nat :=
  match read_bytes_fallible mem addr l with
  | .ok buf => if find_s.length ≤ buf.length then find buf find_s else none
  | .error () => none

/-- The `while` loop of `search_memory` over the range `r`. -/
def search_range : Nat → MemoryRange → Option (Option Nat)
  | 0, _ => none
  | fuel + 1, r =>
    if find_s.length ≤ r.size then
      match window_match mem find_s r.start_ (min (page_size + find_s.length - 1) r.size) with
      | some off => some (some (wrapping_add r.start_ off))
      | none =>
        search_range fuel
          (MemoryRange.from_range (min r.end_ (wrapping_add (floor_page_size r.start_) page_size)) r.end_)
    else some none

/-- The range searched for one mapping: the mapping and the `find_s.len() - 1`
bytes after it, cut to `where_`. -/
def mapping_search_range (m : Mapping) (where_ : MemoryRange) : MemoryRange :=
  (MemoryRange.from_range m.map.mr.start_ (wrapping_add m.map.mr.end_ (find_s.length - 1))).intersect where_

/-- The `for` loop over the mappings. -/
def search_maps (where_ : MemoryRange) : List (MemoryRange × Mapping) → Option (Option Nat)
  | [] => some none
  | (_, m) :: rest =>
    match search_range mem find_s (2 ^ 64) (mapping_search_range find_s m where_) with
    | none => none
    | some (some p) => some (some p)
    | some none => search_maps where_ rest

/-- `search_memory` over the memory map `maps`. -/
def search_memory (maps : MemoryMap) (where_ : MemoryRange) : Option (Option Nat) :=
  if find_s.length = 0 then none else search_maps mem find_s where_ maps

end Search

/-! ## One window -/

section Window

variable (mem : Nat → Option UInt8) (find_s : List UInt8) (hs : find_s ≠ [])
include hs

theorem window_match_eq (addr l : Nat) :
    window_match mem find_s addr l =
      if find_s.length ≤ (readable_span mem addr l).length then find (readable_span mem addr l) find_s
      else none := by
  have hpos := List.length_pos_iff.2 hs
  unfold window_match read_bytes_fallible
  by_cases hl : l = 0
  · subst hl
    simp [readable_span_zero]
  · by_cases hnil : readable_span mem addr l = []
    -- nothing readable: the read fails, and no match fits in nothing
    · rw [if_neg hl, if_pos hnil, hnil, List.length_nil, if_neg (by omega)]
    · rw [if_neg hl, if_neg hnil]

/-- A window that finds `s` finds its first match in the window. -/
theorem window_match_some {addr l j : Nat} (h : window_match mem find_s addr l = some j) :
    MatchAt mem find_s (addr + j) ∧ j + find_s.length ≤ l ∧
      ∀ k < j, k + find_s.length ≤ l → ¬MatchAt mem find_s (addr + k) := by
  rw [window_match_eq mem find_s hs] at h
  split_ifs at h with hfit
  obtain ⟨hpre, hfirst⟩ := find_eq_some _ _ hs h
  have hpos := List.length_pos_iff.2 hs
  have hj : j < (readable_span mem addr l).length := by
    have := hpre.length_le
    rw [List.length_drop] at this
    omega
  have hl := length_readable_span_le mem addr l
  rw [drop_readable_span mem j addr l hj.le, prefix_readable_span_iff] at hpre
  refine ⟨hpre.2, by omega, fun k hk hkl hmatch => hfirst k hk ?_⟩
  rw [drop_readable_span mem k addr l (by omega), prefix_readable_span_iff]
  exact ⟨by omega, hmatch⟩

/-- A window that finds nothing has no match that fits in it and has only
readable bytes before it. -/
theorem window_match_none {addr l : Nat} (h : window_match mem find_s addr l = none) {k : Nat}
    (hk : k + find_s.length ≤ l) (hread : ∀ i < k, (mem (addr + i)).isSome) : ¬MatchAt mem find_s (addr + k) := by
  intro hmatch
  have hall : ∀ i < k + find_s.length, (mem (addr + i)).isSome := by
    intro i hi
    by_cases hik : i < k
    · exact hread i hik
    · have := hmatch.isSome mem (i := i - k) (by omega)
      rwa [Nat.add_assoc, Nat.add_sub_cancel' (by omega)] at this
  have hlen := le_length_readable_span mem (k + find_s.length) addr l hall hk
  rw [window_match_eq mem find_s hs, if_pos (by omega)] at h
  refine find_eq_none _ _ hs h k ?_
  rw [drop_readable_span mem k addr l (by omega), prefix_readable_span_iff]
  exact ⟨by omega, hmatch⟩

end Window

/-! ## The loop over one range -/

/-- `res` is the first match of `s` that starts at or after `lo` and ends by
`hi`, or `none` when there is no such match. -/
def FirstMatch (mem : Nat → Option UInt8) (s : List UInt8) (lo hi : Nat) : Option Nat → Prop
  | some p => lo ≤ p ∧ p + s.length ≤ hi ∧ MatchAt mem s p ∧ ∀ q, lo ≤ q → q < p → ¬MatchAt mem s q
  | none => ∀ q, lo ≤ q → q + s.length ≤ hi → ¬MatchAt mem s q

/-- No match starting in `[lo, lo')` moves the first match's lower end to `lo'`. -/
theorem FirstMatch.extend {mem : Nat → Option UInt8} {s : List UInt8} {lo lo' hi : Nat} {res : Option Nat}
    (hle : lo ≤ lo') (hnone : ∀ q, lo ≤ q → q < lo' → q + s.length ≤ hi → ¬MatchAt mem s q)
    (h : FirstMatch mem s lo' hi res) : FirstMatch mem s lo hi res := by
  cases res with
  | none =>
    intro q hq hfit
    by_cases hq' : q < lo'
    · exact hnone q hq hq' hfit
    · exact h q (by omega) hfit
  | some p =>
    obtain ⟨hp, hfit, hmatch, hfirst⟩ := h
    refine ⟨by omega, hfit, hmatch, fun q hq hqp => ?_⟩
    by_cases hq' : q < lo'
    · exact hnone q hq hq' (by omega)
    · exact hfirst q (by omega) hqp

/-- Every byte before a match in `[lo, hi)` is readable, from `lo` on: what
makes each window read far enough to see the match. -/
def Dense (mem : Nat → Option UInt8) (s : List UInt8) (lo hi : Nat) : Prop :=
  ∀ p, lo ≤ p → p + s.length ≤ hi → MatchAt mem s p → ∀ a, lo ≤ a → a < p → (mem a).isSome

/-- A range the loop can search: its ends are in order and below 2^64, and
every start of a match that fits lies below the last page, so stepping to the
next page does not wrap. -/
structure Searchable (s : List UInt8) (r : MemoryRange) : Prop where
  le : r.start_ ≤ r.end_
  end_lt : r.end_ < 2 ^ 64
  below_last_page : ∀ x, r.start_ ≤ x → x + s.length ≤ r.end_ → x + page_size < 2 ^ 64

theorem Searchable.size_eq {s : List UInt8} {r : MemoryRange} (h : Searchable s r) : r.size = r.end_ - r.start_ :=
  wrapping_sub_of_le h.le h.end_lt

/-- A range too small for the needle ends the loop at once. -/
theorem search_range_of_size_lt (mem : Nat → Option UInt8) (find_s : List UInt8) {r : MemoryRange}
    (h : r.size < find_s.length) {fuel : Nat} (hfuel : 0 < fuel) : search_range mem find_s fuel r = some none := by
  obtain ⟨fuel, rfl⟩ := Nat.exists_eq_succ_of_ne_zero hfuel.ne'
  rw [search_range, if_neg (by omega)]

section Loop

variable (mem : Nat → Option UInt8) (find_s : List UInt8) (hs : find_s ≠ [])
include hs

/-- The loop over a searchable range returns; what it returns is a match in
the range, and the first one when the range is dense. -/
theorem search_range_spec : ∀ (fuel : Nat) (r : MemoryRange), Searchable find_s r → r.end_ - r.start_ < fuel →
    ∃ res, search_range mem find_s fuel r = some res ∧
      (∀ p, res = some p → r.start_ ≤ p ∧ p + find_s.length ≤ r.end_ ∧ MatchAt mem find_s p) ∧
      (Dense mem find_s r.start_ r.end_ → FirstMatch mem find_s r.start_ r.end_ res)
  | 0, _, _, hfuel => absurd hfuel (Nat.not_lt_zero _)
  | fuel + 1, r, hr, hfuel => by
    have hpos := List.length_pos_iff.2 hs
    have hsize := hr.size_eq
    have hend := hr.end_lt
    rw [search_range]
    by_cases hfit : find_s.length ≤ r.size
    · rw [if_pos hfit]
      cases hw : window_match mem find_s r.start_ (min (page_size + find_s.length - 1) r.size) with
      | some off =>
        -- the window finds the first match at or after its start
        obtain ⟨hmatch, hoff, hfirst⟩ := window_match_some mem find_s hs hw
        have hp : wrapping_add r.start_ off = r.start_ + off := wrapping_add_of_lt (by omega)
        refine ⟨some (r.start_ + off), by simp only [hp], ?_, fun _ => ?_⟩
        · rintro p ⟨⟩
          exact ⟨by omega, by omega, hmatch⟩
        · refine ⟨by omega, by omega, hmatch, fun q hq hqp => ?_⟩
          have := hfirst (q - r.start_) (by omega) (by omega)
          rwa [Nat.add_sub_cancel' hq] at this
      | none =>
        -- nothing in the window: on from the next page boundary
        have hstart := hr.below_last_page r.start_ le_rfl (by omega)
        have hfloor := floor_page_size_le r.start_
        have hstep : wrapping_add (floor_page_size r.start_) page_size = floor_page_size r.start_ + page_size :=
          wrapping_add_of_lt (by omega)
        have hnext : r.start_ < floor_page_size r.start_ + page_size := by
          have := Nat.lt_div_mul_add (a := r.start_) (b := page_size) (by decide)
          unfold floor_page_size
          omega
        have hlo' : (MemoryRange.from_range (min r.end_ (floor_page_size r.start_ + page_size)) r.end_).start_ =
            min r.end_ (floor_page_size r.start_ + page_size) := rfl
        have hsearch' : Searchable find_s (MemoryRange.from_range (min r.end_ (floor_page_size r.start_ + page_size)) r.end_) :=
          ⟨by rw [hlo']; exact min_le_left _ _, hr.end_lt, fun x hx hxe => hr.below_last_page x (by omega) hxe⟩
        obtain ⟨res, hres, hsound, hfirst⟩ :=
          search_range_spec fuel _ hsearch' (by simp only [MemoryRange.from_range]; omega)
        simp only [hstep]
        refine ⟨res, hres, fun p hp => ?_, fun hdense => ?_⟩
        · obtain ⟨h1, h2, h3⟩ := hsound p hp
          exact ⟨by rw [hlo'] at h1; omega, h2, h3⟩
        -- the window saw every match that starts before the next page boundary
        · refine FirstMatch.extend (by rw [hlo']; omega) (fun q hq hq' hqe hmatch => ?_)
            (hfirst fun p hp hpe hm a ha hap => hdense p (by omega) hpe hm a (by omega) hap)
          rw [hlo'] at hq'
          have hnone := window_match_none mem find_s hs hw (k := q - r.start_) (by omega)
            (fun i hi => hdense q hq hqe hmatch _ (by omega) (by omega))
          rw [Nat.add_sub_cancel' hq] at hnone
          exact hnone hmatch
    · rw [if_neg hfit]
      refine ⟨none, rfl, fun p h => (by cases h), fun _ q hq hqe => ?_⟩
      omega

end Loop

/-! ## The mappings -/

/-- A match `search_memory` is to find: in `where_`, starting in a mapping,
with readable bytes equal to `s`. -/
def Found (maps : MemoryMap) (mem : Nat → Option UInt8) (where_ : MemoryRange) (s : List UInt8) (p : Nat) :
    Prop :=
  where_.start_ ≤ p ∧ p + s.length ≤ where_.end_ ∧ (∃ e ∈ maps, e.1.contains_ptr p = true) ∧ MatchAt mem s p

/-- What finding every match needs of the mappings that meet `where_`: all
their bytes are readable, and their end plus `|s| - 1` does not wrap. -/
def Complete (maps : MemoryMap) (mem : Nat → Option UInt8) (where_ : MemoryRange) (s : List UInt8) : Prop :=
  ∀ e ∈ maps, e.1.intersects where_ = true →
    (∀ a, e.1.contains_ptr a = true → (mem a).isSome) ∧ e.1.end_ + (s.length - 1) < 2 ^ 64

section Maps

variable (mem : Nat → Option UInt8) (find_s : List UInt8) (hs : find_s ≠ []) (where_ : MemoryRange)
include hs

omit hs in
theorem mapping_search_range_eq (m : Mapping) :
    mapping_search_range find_s m where_ =
      (MemoryRange.from_range m.map.mr.start_ (wrapping_add m.map.mr.end_ (find_s.length - 1))).intersect where_ :=
  rfl

/-- A start the search of a mapping looks at lies in the mapping and in
`where_`. -/
theorem mem_of_mapping_search_range {e : MemoryRange × Mapping} (hwf : EntryWf e) {x : Nat}
    (hx : (mapping_search_range find_s e.2 where_).start_ ≤ x)
    (hxe : x + find_s.length ≤ (mapping_search_range find_s e.2 where_).end_) :
    where_.start_ ≤ x ∧ x + find_s.length ≤ where_.end_ ∧ e.1.start_ ≤ x ∧ x < e.1.end_ := by
  have hpos := List.length_pos_iff.2 hs
  have hlt := hwf.end_lt
  simp only [mapping_search_range_eq, MemoryRange.from_range, MemoryRange.intersect, hwf.map_mr, wrapping_add]
    at hx hxe
  omega

/-- Unless its end wraps, the search of a mapping looks at every start in the
mapping and in `where_`. -/
theorem mapping_search_range_of_mem {e : MemoryRange × Mapping} (hwf : EntryWf e)
    (hwrap : e.1.end_ + (find_s.length - 1) < 2 ^ 64) {x : Nat} (hws : where_.start_ ≤ x)
    (hwe : x + find_s.length ≤ where_.end_) (ha : e.1.start_ ≤ x) (hb : x < e.1.end_) :
    (mapping_search_range find_s e.2 where_).start_ ≤ x ∧
      x + find_s.length ≤ (mapping_search_range find_s e.2 where_).end_ := by
  have hpos := List.length_pos_iff.2 hs
  simp only [mapping_search_range_eq, MemoryRange.from_range, MemoryRange.intersect, hwf.map_mr, wrapping_add]
  omega

theorem mapping_search_range_searchable (hwhere : where_.start_ ≤ where_.end_) (hend : where_.end_ < 2 ^ 64)
    {e : MemoryRange × Mapping} (hwf : EntryWf e) : Searchable find_s (mapping_search_range find_s e.2 where_) := by
  have hlt := hwf.end_lt
  have hne := hwf.nonempty
  have haligned := hwf.end_aligned
  unfold Aligned page_size at haligned
  refine ⟨?_, ?_, fun x hx hxe => ?_⟩
  · simp only [mapping_search_range_eq, MemoryRange.from_range, MemoryRange.intersect]
    omega
  · have := wrapping_add_lt e.2.map.mr.end_ (find_s.length - 1)
    simp only [mapping_search_range_eq, MemoryRange.from_range, MemoryRange.intersect, hwf.map_mr] at this ⊢
    omega
  -- a start in the mapping lies below its page-aligned end, so below the last page
  · have := (mem_of_mapping_search_range find_s hs where_ hwf hx hxe).2.2.2
    unfold page_size
    omega

omit hs in
theorem search_maps_cons (e : MemoryRange × Mapping) (rest : List (MemoryRange × Mapping)) :
    search_maps mem find_s where_ (e :: rest) =
      match search_range mem find_s (2 ^ 64) (mapping_search_range find_s e.2 where_) with
      | none => none
      | some (some p) => some (some p)
      | some none => search_maps mem find_s where_ rest :=
  rfl

omit hs in
theorem start_le_mapping_search_range (e : Mapping) :
    e.map.mr.start_ ≤ (mapping_search_range find_s e where_).start_ ∧
      where_.start_ ≤ (mapping_search_range find_s e where_).start_ := by
  simp [mapping_search_range_eq, MemoryRange.from_range, MemoryRange.intersect]

/-- Under `Complete`, the range searched for a mapping is dense. -/
theorem mapping_search_range_dense {maps : MemoryMap} (hc : Complete maps mem where_ find_s)
    {e : MemoryRange × Mapping} (he : e ∈ maps) (hwf : EntryWf e) :
    Dense mem find_s (mapping_search_range find_s e.2 where_).start_ (mapping_search_range find_s e.2 where_).end_ := by
  intro p hp hpe _ a ha hap
  have hpos := List.length_pos_iff.2 hs
  obtain ⟨hws, hwe, hstart, hlt⟩ := mem_of_mapping_search_range find_s hs where_ hwf hp hpe
  have hlo := start_le_mapping_search_range find_s where_ e.2
  rw [hwf.map_mr] at hlo
  have hmeets : e.1.intersects where_ = true := by
    rw [MemoryRange.intersects_iff]
    omega
  exact (hc e he hmeets).1 a (by rw [MemoryRange.contains_ptr_iff]; omega)

/-- Under `Complete`, a match in a mapping is among the starts its search
looks at. -/
theorem found_in_mapping_search_range {maps : MemoryMap} (hc : Complete maps mem where_ find_s)
    {e : MemoryRange × Mapping} (he : e ∈ maps) (hwf : EntryWf e) {q : Nat} (hq : Found maps mem where_ find_s q)
    (hcont : e.1.contains_ptr q = true) :
    (mapping_search_range find_s e.2 where_).start_ ≤ q ∧
      q + find_s.length ≤ (mapping_search_range find_s e.2 where_).end_ := by
  have hpos := List.length_pos_iff.2 hs
  obtain ⟨hws, hwe, -, -⟩ := hq
  rw [MemoryRange.contains_ptr_iff] at hcont
  have hmeets : e.1.intersects where_ = true := by
    rw [MemoryRange.intersects_iff]
    omega
  exact mapping_search_range_of_mem find_s hs where_ hwf (hc e he hmeets).2 hws hwe hcont.1 hcont.2

/-- The loop over the mappings, in address order, returns; what it returns
is found; and under `Complete` it is the least match, and nothing only when
there is none. -/
theorem search_maps_spec (hwhere : where_.start_ ≤ where_.end_) (hend : where_.end_ < 2 ^ 64) :
    ∀ (maps : MemoryMap), maps.Pairwise (fun a b => a.1.end_ ≤ b.1.start_) → (∀ e ∈ maps, EntryWf e) →
      ∃ res, search_maps mem find_s where_ maps = some res ∧
        (∀ p, res = some p → Found maps mem where_ find_s p) ∧
        (Complete maps mem where_ find_s →
          (∀ p, res = some p → ∀ q, Found maps mem where_ find_s q → p ≤ q) ∧
          (res = none → ∀ p, ¬Found maps mem where_ find_s p)) := by
  have hpos := List.length_pos_iff.2 hs
  intro maps
  induction maps with
  | nil =>
    intro _ _
    refine ⟨none, rfl, fun p h => (by cases h), fun _ => ⟨fun p h => (by cases h), fun _ p hp => ?_⟩⟩
    obtain ⟨-, -, ⟨e, he, -⟩, -⟩ := hp
    cases he
  | cons e rest ih =>
    intro hsorted hwf
    rw [List.pairwise_cons] at hsorted
    have hwf_e := hwf e (List.mem_cons_self ..)
    have hr := mapping_search_range_searchable find_s hs where_ hwhere hend hwf_e
    obtain ⟨res_e, hres_e, hsound_e, hfirst_e⟩ :=
      search_range_spec mem find_s hs (2 ^ 64) _ hr (by have := hr.end_lt; omega)
    cases res_e with
    | some p =>
      -- the search of the first mapping found a match
      obtain ⟨hlo, hhi, hmatch⟩ := hsound_e p rfl
      obtain ⟨hws, hwe, hstart, hlt⟩ := mem_of_mapping_search_range find_s hs where_ hwf_e hlo hhi
      have hfound : Found (e :: rest) mem where_ find_s p :=
        ⟨hws, hwe, ⟨e, List.mem_cons_self .., by simp only [MemoryRange.contains_ptr_iff]; omega⟩, hmatch⟩
      refine ⟨some p, by rw [search_maps_cons, hres_e], fun q hq => ?_, fun hc => ⟨fun q hq q' hq' => ?_, fun h => (by cases h)⟩⟩
      · cases hq
        exact hfound
      · cases hq
        obtain ⟨e', he', hcont⟩ := hq'.2.2.1
        rcases List.mem_cons.1 he' with rfl | hrest
        · obtain ⟨hq'lo, hq'hi⟩ := found_in_mapping_search_range mem find_s hs where_ hc he' hwf_e hq' hcont
          have hfirst := hfirst_e (mapping_search_range_dense mem find_s hs where_ hc he' hwf_e)
          by_contra hlt'
          exact hfirst.2.2.2 q' hq'lo (by omega) hq'.2.2.2
        · -- a later mapping starts after the first one ends
          have := hsorted.1 e' hrest
          rw [MemoryRange.contains_ptr_iff] at hcont
          omega
    | none =>
      -- nothing in the first mapping: the search goes on with the others
      obtain ⟨res, hres, hsound, hcomplete⟩ := ih hsorted.2 fun e' he' => hwf e' (List.mem_cons_of_mem _ he')
      have hskip : Complete (e :: rest) mem where_ find_s →
          ∀ q, Found (e :: rest) mem where_ find_s q → Found rest mem where_ find_s q := by
        intro hc q hq
        obtain ⟨hws, hwe, ⟨e', he', hcont⟩, hmatch⟩ := hq
        rcases List.mem_cons.1 he' with rfl | hrest
        · obtain ⟨hq'lo, hq'hi⟩ := found_in_mapping_search_range mem find_s hs where_ hc he' hwf_e
            ⟨hws, hwe, ⟨_, he', hcont⟩, hmatch⟩ hcont
          exact absurd hmatch (hfirst_e (mapping_search_range_dense mem find_s hs where_ hc he' hwf_e) q hq'lo hq'hi)
        · exact ⟨hws, hwe, ⟨e', hrest, hcont⟩, hmatch⟩
      refine ⟨res, by rw [search_maps_cons, hres_e, hres], fun p hp => ?_, fun hc => ?_⟩
      · obtain ⟨hws, hwe, ⟨e', he', hcont⟩, hmatch⟩ := hsound p hp
        exact ⟨hws, hwe, ⟨e', List.mem_cons_of_mem _ he', hcont⟩, hmatch⟩
      · have hc' : Complete rest mem where_ find_s := fun e' he' => hc e' (List.mem_cons_of_mem _ he')
        exact ⟨fun p hp q hq => (hcomplete hc').1 p hp q (hskip hc q hq),
          fun hnone p hp => (hcomplete hc').2 hnone p (hskip hc p hp)⟩

end Maps

/-- `search_memory` on a well-formed memory map, a range that does not wrap
and a non-empty needle returns.  A match it returns lies in `where_` and in a
mapping, and is there in memory; and under `Complete` it returns the least
match, and nothing exactly when there is none. -/
theorem search_memory_spec (mem : Nat → Option UInt8) (find_s : List UInt8) (hs : find_s ≠ [])
    {maps : MemoryMap} (hmaps : MapInv maps) {where_ : MemoryRange} (hwhere : where_.start_ ≤ where_.end_)
    (hend : where_.end_ < 2 ^ 64) :
    ∃ res, search_memory mem find_s maps where_ = some res ∧
      (∀ p, res = some p → Found maps mem where_ find_s p) ∧
      (Complete maps mem where_ find_s →
        (∀ p, res = some p ↔ Found maps mem where_ find_s p ∧ ∀ q, Found maps mem where_ find_s q → p ≤ q) ∧
        (res = none ↔ ∀ p, ¬Found maps mem where_ find_s p)) := by
  obtain ⟨res, hres, hsound, hcomplete⟩ :=
    search_maps_spec mem find_s hs where_ hwhere hend maps hmaps.sorted hmaps.wf
  have hne : find_s.length ≠ 0 := by simpa using hs
  refine ⟨res, by rw [search_memory, if_neg hne, hres], hsound, fun hc => ⟨fun p => ⟨?_, ?_⟩, ⟨(hcomplete hc).2, ?_⟩⟩⟩
  · intro hp
    exact ⟨hsound p hp, (hcomplete hc).1 p hp⟩
  -- the least match is what the search returns, as it returns one
  · rintro ⟨hfound, hleast⟩
    cases res with
    | none => exact absurd hfound ((hcomplete hc).2 rfl p)
    | some p' =>
      have h1 := hleast p' (hsound p' rfl)
      have h2 := (hcomplete hc).1 p' rfl p hfound
      rw [Nat.le_antisymm h2 h1]
  · intro hnone
    cases res with
    | none => rfl
    | some p => exact absurd (hsound p rfl) (hnone p)

/-- A search for the byte 7 over a page mapped at 0x1000 that holds it once. -/
theorem search_memory_spec_one_page :
    let km : KernelMapping := ⟨⟨0x1000, 0x2000⟩, "", 0, 0, 0, 0, 0⟩
    let maps : MemoryMap := [(km.mr, Mapping.new km km none none none none)]
    let mem : Nat → Option UInt8 := fun a =>
      if 0x1000 ≤ a ∧ a < 0x2000 then some (if a = 0x1234 then 7 else 0) else none
    let where_ : MemoryRange := ⟨0x1000, 0x2000⟩
    MapInv maps ∧ ∃ res, search_memory mem [7] maps where_ = some res ∧
      (∀ p, res = some p → Found maps mem where_ [7] p) ∧
      (Complete maps mem where_ [7] →
        (∀ p, res = some p ↔ Found maps mem where_ [7] p ∧ ∀ q, Found maps mem where_ [7] q → p ≤ q) ∧
        (res = none ↔ ∀ p, ¬Found maps mem where_ [7] p)) := by
  intro km maps mem where_
  have hmaps : MapInv maps := by decide
  exact ⟨hmaps, search_memory_spec mem [7] (List.cons_ne_nil _ _) hmaps (by decide) (by decide)⟩

end RdReplay.Gdb
