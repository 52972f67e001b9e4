/-
  AddressSpace/Basic.lean --- the memory map of an address space and the
  primitives every operation on it is built from.

  Source: `session/address_space.rs`: `remove_from_map`, `add_to_map`,
  `mapping_of`, `for_each_in_range`, `coalesce_around`, `map_and_coalesce`,
  and the free functions `remove_range` and `add_range`.

  THE STATE.  `AddressSpace` keeps the fields of the Rust struct that these
  functions read or write: the memory map, the `DONTFORK` range set, the set of
  start addresses of monitored shared memory, the program break and the vdso
  address.  The task handle `t` they take is used only for logging, for
  `ed_assert!` (fatal, so `none`), and for watchpoint values, which are not part
  of this state.

  THE LOOP.  `for_each_in_range` searches the map afresh after every callback,
  since the callback erases and inserts entries.  Its `while` loop is written
  with fuel; the fuel is the length of the region, which bounds the number of
  turns whenever every key is non-empty, since each turn moves
  `last_f_mapped_end` past the end of a key.  Running out of fuel stands for a
  loop that does not end.

  THE DESCENT.  `coalesce_around` is called with a key that may intersect
  several entries (`ensure_replay_matches_single_recorded_mapping` passes a whole
  range).  A B-tree descent then stops at whichever of those entries it meets
  first, which depends on the tree's node layout, and both of its range searches
  stop at the same one.  `descent_key` takes that choice as an argument, so that
  what is proved holds for every layout.
-/
import RdReplay.AddressSpace.Mapping

set_option autoImplicit false

namespace RdReplay

/-- The order `BTreeSet<MemoryRange>` is kept in: `MemoryRange` derives `Ord`,
by start and then by end. -/
def MemoryRange.cmp_lex (a b : MemoryRange) : Ordering :=
  (compare a.start_ b.start_).then (compare a.end_ b.end_)

/-- `remove_range`'s `while let` loop with `fuel` turns left. -/
def remove_range_loop (range : MemoryRange) :
    Nat → List (MemoryRange × Unit) → List (MemoryRange × Unit)
  | 0, ranges => ranges
  | fuel + 1, ranges =>
    match CmpList.lowerBound MemoryRange.cmp_lex range ranges with
    | (matched_range, ()) :: _ =>
      if MemoryRange.cmp_lex range matched_range = .eq then
        -- Must remove first before we add because of possible overlaps.
        let ranges := CmpList.remove MemoryRange.cmp_lex matched_range ranges
        let ranges :=
          if matched_range.start_ < range.start_ then
            CmpList.insert MemoryRange.cmp_lex
              (MemoryRange.from_range matched_range.start_ range.start_) () ranges
          else ranges
        let ranges :=
          if range.end_ < matched_range.end_ then
            CmpList.insert MemoryRange.cmp_lex
              (MemoryRange.from_range range.end_ matched_range.end_) () ranges
          else ranges
        remove_range_loop range fuel ranges
      else ranges
    | [] => ranges

/-- `remove_range`.  `ranges.get(&range)` finds only `range` itself under the
derived order, so the loop turns at most once; the set's size is fuel enough. -/
def remove_range (ranges : List (MemoryRange × Unit)) (range : MemoryRange) :
    List (MemoryRange × Unit) :=
  remove_range_loop range (ranges.length + 1) ranges

/-- `add_range`. -/
def add_range (ranges : List (MemoryRange × Unit)) (range : MemoryRange) :
    List (MemoryRange × Unit) :=
  CmpList.insert MemoryRange.cmp_lex range () (remove_range ranges range)

/-- `HashSet::insert` on a set of words kept as a list. -/
def hashset_insert (a : Nat) (s : List Nat) : List Nat := if a ∈ s then s else a :: s

/-- The fields of `AddressSpace` the memory-map operations use. -/
structure AddressSpace where
  mem : MemoryMap
  /-- `dont_fork: BTreeSet<MemoryRange>`, as its elements in order. -/
  dont_fork : List (MemoryRange × Unit)
  /-- `monitored_mem: HashSet<RemotePtr<Void>>`. -/
  monitored_mem : List Nat
  brk_end : Nat
  vdso_start_addr : Nat
  deriving Repr

/-- `IterateHow`. -/
inductive IterateHow where
  | IterateDefault
  | IterateContiguous
  deriving DecidableEq, Repr

namespace AddressSpace

/-- An address space with nothing mapped and its break at `brk_end`. -/
def empty (brk_end : Nat) : AddressSpace := ⟨[], [], [], brk_end, 0⟩

/-- `remove_from_map`. -/
def remove_from_map (s : AddressSpace) (range : MemoryRange) : AddressSpace :=
  { s with
    mem := CmpList.remove MemoryRangeKey.cmp range s.mem
    monitored_mem := s.monitored_mem.erase range.start_ }

/-- `add_to_map`. -/
def add_to_map (s : AddressSpace) (m : Mapping) : AddressSpace :=
  { s with
    monitored_mem :=
      if m.monitored_shared_memory.isSome then hashset_insert m.map.mr.start_ s.monitored_mem
      else s.monitored_mem
    mem := CmpList.insert MemoryRangeKey.cmp m.map.mr m s.mem }

/-- `mapping_of`: the entry the search for `[addr, addr + 1)` stops at, if it
contains `addr`. -/
def mapping_of (s : AddressSpace) (addr : Nat) : Option Mapping :=
  match CmpList.lowerBound MemoryRangeKey.cmp (MemoryRange.new_range addr 1) s.mem with
  | (_, found_mapping) :: _ =>
    if found_mapping.map.mr.contains_ptr addr then some found_mapping else none
  | [] => none

/-! ## `for_each_in_range` -/

/-- A callback of `for_each_in_range`: the key found, the region `rem` remaining,
and the address space with whatever the closure captures. -/
abbrev RangeCallback (β : Type) :=
  MemoryRange → MemoryRange → AddressSpace × β → Option (AddressSpace × β)

/-- The `while last_f_mapped_end < region_end` loop of `for_each_in_range`, with
`fuel` turns left. -/
def for_each_in_range_loop {β : Type} (f : RangeCallback β) (how : IterateHow)
    (region_start region_end : Nat) :
    Nat → Nat → AddressSpace × β → Option (AddressSpace × β)
  | 0, _, _ => none
  | fuel + 1, last_f_mapped_end, st =>
    if last_f_mapped_end < region_end then
      let rem := MemoryRange.from_range last_f_mapped_end region_end
      -- The iterator is set afresh every turn: `f` may have erased entries.
      match CmpList.lowerBound MemoryRangeKey.cmp (MemoryRange.new_range rem.start_ 1) st.1.mem with
      | [] => some st
      | (range, _) :: _ =>
        if rem.end_ ≤ range.start_ then some st
        else if how = .IterateContiguous ∧
            ¬(range.start_ < region_start ∨ rem.start_ = range.start_) then some st
        else
          match f range rem st with
          | none => none
          | some st' => for_each_in_range_loop f how region_start region_end fuel range.end_ st'
    else some st

/-- `for_each_in_range`: call `f` on each mapping overlapping the pages of
`[addr, addr + num_bytes)`, stopping at the first gap for `IterateContiguous`. -/
def for_each_in_range {β : Type} (addr num_bytes : Nat) (f : RangeCallback β)
    (how : IterateHow) (st : AddressSpace × β) : Option (AddressSpace × β) :=
  let region_start := floor_page_size addr
  let region_end := ceil_page_size (wrapping_add addr num_bytes)
  for_each_in_range_loop f how region_start region_end (region_end - region_start + 1)
    region_start st

/-! ## `coalesce_around` -/

/-- The backward walk of `coalesce_around` from `first_kv` over `prevs`, the
entries before it, nearest first. -/
def coalesce_walk_back (first_kv : MemoryRange × Mapping) :
    List (MemoryRange × Mapping) → Option (MemoryRange × Mapping)
  | [] => some first_kv
  | prev_kv :: prevs =>
    if !is_coalescable prev_kv.2 first_kv.2 then some first_kv
    else
      match assert_coalesceable prev_kv.2 first_kv.2 with
      | none => none
      | some () => coalesce_walk_back prev_kv prevs

/-- The forward walk of `coalesce_around` from `last_kv` over `nexts`, the entries
after it, nearest first. -/
def coalesce_walk_forward (last_kv : MemoryRange × Mapping) :
    List (MemoryRange × Mapping) → Option (MemoryRange × Mapping)
  | [] => some last_kv
  | next_kv :: nexts =>
    if !is_coalescable last_kv.2 next_kv.2 then some last_kv
    else
      match assert_coalesceable last_kv.2 next_kv.2 with
      | none => none
      | some () => coalesce_walk_forward next_kv nexts

/-- The mapping `coalesce_around` replaces the run `first .. last` with. -/
def coalesced (first_kv last_kv : MemoryRange × Mapping) : Mapping :=
  (Mapping.new (first_kv.2.map.extend last_kv.1.end_) (first_kv.2.recorded_map.extend last_kv.1.end_)
      first_kv.2.emu_file first_kv.2.mapped_file_stat first_kv.2.local_addr
      first_kv.2.monitored_shared_memory).with_flags first_kv.2.flags

/-- `coalesce_around`: merge the run of coalescable mappings around `key`. -/
def coalesce_around (s : AddressSpace) (key : MemoryRange) : Option AddressSpace :=
  let forward := CmpList.lowerBound MemoryRangeKey.cmp key s.mem
  let backward := (CmpList.upTo MemoryRangeKey.cmp key s.mem).reverse
  match backward, forward with
  | first₀ :: prevs, last₀ :: nexts =>
    match coalesce_walk_back first₀ prevs, coalesce_walk_forward last₀ nexts with
    | some first_kv, some last_kv =>
      if MemoryRangeKey.eq first_kv.1 last_kv.1 then some s
      else
        let new_m := coalesced first_kv last_kv
        match CmpList.range MemoryRangeKey.cmp first_kv.1 last_kv.1 s.mem with
        | none => none
        | some to_remove =>
          let mem := to_remove.foldl (fun m k => CmpList.remove MemoryRangeKey.cmp k.1 m) s.mem
          some { s with mem := CmpList.insert MemoryRangeKey.cmp new_m.map.mr new_m mem }
    | _, _ => none
  | _, _ => none

/-- The key a B-tree descent for `q` stops at: the `n`-th of the entries `q`
compares `eq` against (the last one if there are fewer), or `q` itself when
there is none.  From that entry on, both range searches of `coalesce_around`
proceed exactly as for its own key. -/
def descent_key (q : MemoryRange) (n : Nat) (mem : MemoryMap) : MemoryRange :=
  let equal := (CmpList.lowerBound MemoryRangeKey.cmp q mem).takeWhile
    (fun e => MemoryRangeKey.cmp q e.1 == .eq)
  match equal[min n (equal.length - 1)]? with
  | some e => e.1
  | none => q

/-- `map_and_coalesce`. -/
def map_and_coalesce (s : AddressSpace) (km recorded_km : KernelMapping)
    (emu_file mapped_file_stat local_addr monitored : Option Nat) : Option AddressSpace :=
  let s :=
    if monitored.isSome then { s with monitored_mem := hashset_insert km.mr.start_ s.monitored_mem }
    else s
  let s := { s with
    mem := CmpList.insert MemoryRangeKey.cmp km.mr
      (Mapping.new km recorded_km emu_file mapped_file_stat local_addr monitored) s.mem }
  s.coalesce_around km.mr

end AddressSpace

end RdReplay
