/-
  AddressSpace/WatchRegisters.lean --- how a watched range is cut into the
  pieces the debug registers can watch.

  Source: `session/address_space.rs`: `split_range`,
  `try_split_unaligned_range` and `configure_watch_registers`.  rd builds for
  x86-64 only, so `size_of::<usize>()` is `8`: the 8-byte piece is always tried
  and a write watch of more than 4 bytes is rounded out to 8.

  THE PIECES.  A debug register watches 1, 2, 4 or 8 bytes at an address aligned
  to that size (`IsPieceSize`).  `split_range` cuts at each turn the largest such
  piece off the front (`piece_size`).  `AlignedPartition a b ps` says `ps` are
  such pieces, one after the other, from `a` up to `b`.

  WHY THE GREEDY CUT IS THE SHORTEST.  Let an aligned partition start with a
  piece of size `t` at `a`, where the greedy piece has size `s`: then `t ≤ s`
  (`le_piece_size`).  No later piece straddles `a + s`, since aligned pieces of
  these sizes never cross the end of a larger aligned one (`no_straddle`).  So
  the partition splits at `a + s` (`AlignedPartition.split`), its part after
  `a + s` is a piece shorter (`AlignedPartition.drop_piece`), and the greedy count
  is, by induction, at most its length.

  WORDS.  Addresses are `usize`s.  The loop moves the start by a wrapping add,
  and the range rounded out for a write watch ends at the top of the address
  space when the rounded end wraps to `0`.  The partition lemmas are stated over
  unbounded naturals `a ≤ b ≤ 2 ^ 64`, with `r.start_ = a % 2 ^ 64` and
  `r.end_ = b % 2 ^ 64`; they need `b - a < 2 ^ 64`, which fails only for the
  whole address space, whose size is `0`.

  THE VECTOR.  `split_range` pushes its pieces onto a `Vec`, which cannot grow
  past what the allocator gives, and never past `2 ^ 58` ranges (`VecLimit`):
  rd then aborts.  A range is cut into at least one piece for each 8 bytes, so
  a range whose rounded-out end wraps is already too long to split, and the
  rounded range never needs more pieces than the range itself: each piece lies
  in one aligned block of the rounding, and the blocks cut the rounded range
  (`AlignedPartition.blocks_le`, `block_pieces_partition`).
-/
import RdReplay.AddressSpace.MemoryRange
import RdReplay.Timeline.Basic

set_option autoImplicit false

namespace RdReplay

/-- The sizes a debug register watches. -/
def IsPieceSize (s : Nat) : Prop := s = 1 ∨ s = 2 ∨ s = 4 ∨ s = 8

/-- `try_split_unaligned_range`: cut a piece of `bytes` bytes off the front of
`range` when its start is aligned to `bytes` and it holds that many. -/
def try_split_unaligned_range (range : MemoryRange) (bytes : Nat) (result : List MemoryRange) :
    Option (MemoryRange × List MemoryRange) :=
  if range.start_ &&& (bytes - 1) ≠ 0 ∨ range.size < bytes then none
  else some ({ range with start_ := wrapping_add range.start_ bytes },
    result ++ [MemoryRange.new_range range.start_ bytes])

/-- What the allocator lets a `Vec<MemoryRange>` grow to: `max_len` ranges,
never past `2 ^ 58`, since doubling that capacity asks for `2 ^ 59` ranges of 16
bytes, more than the `isize::MAX` bytes Rust allows a `Vec`. -/
structure VecLimit where
  max_len : Nat
  le_capacity : max_len ≤ 2 ^ 58

/-- The loop of `split_range`.  Each turn pushes one range onto `result`, and
a push onto a `Vec` that cannot grow aborts rd: `none`. -/
def split_range_loop (lim : VecLimit) : Nat → MemoryRange → List MemoryRange → Option (List MemoryRange)
  | 0, _, _ => none
  | fuel + 1, r, result =>
    if 0 < r.size then
      if lim.max_len ≤ result.length then none
      else
        match try_split_unaligned_range r 8 result <|> try_split_unaligned_range r 4 result <|>
            try_split_unaligned_range r 2 result <|> try_split_unaligned_range r 1 result with
        | some (r, result) => split_range_loop lim fuel r result
        -- the 1-byte piece always fits (`debug_assert!(ret)`)
        | none => none
    else some result

/-- `split_range`: each turn takes a byte or more, so `size + 1` turns suffice. -/
def split_range (lim : VecLimit) (range : MemoryRange) : Option (List MemoryRange) :=
  split_range_loop lim (range.size + 1) range []

/-- `configure_watch_registers`, as the `WatchConfig`s it pushes: a write watch
of more than one byte may be rounded out to an aligned range, when that takes
fewer registers. -/
def configure_watch_registers (lim : VecLimit) (range : MemoryRange) (watchtype : WatchType) :
    Option (List WatchConfig) :=
  (split_range lim range).bind fun split_ranges =>
    let chosen : Option (List MemoryRange) :=
      if watchtype = .WatchWrite ∧ 1 < range.size then
        let align := if range.size ≤ 2 then 2 else if range.size ≤ 4 then 4 else 8
        -- `!(align - 1)` on a `usize`
        let aligned_start := range.start_ &&& (2 ^ 64 - 1 - (align - 1))
        let aligned_end := wrapping_add range.end_ (align - 1) &&& (2 ^ 64 - 1 - (align - 1))
        (split_range lim (MemoryRange.from_range aligned_start aligned_end)).map fun split =>
          if split.length < split_ranges.length then split else split_ranges
      else some split_ranges
    chosen.map fun rs => rs.map fun r => ⟨r.start_, r.size, watchtype⟩

/-! ## Aligned partitions -/

/-- `ps` are pieces of the allowed sizes, each aligned to its size, one after
the other from `a` up to `b`. -/
def AlignedPartition : Nat → Nat → List MemoryRange → Prop
  | a, b, [] => a = b
  | a, b, p :: ps => p.start_ = a ∧ p.end_ = (a + p.size) % 2 ^ 64 ∧ IsPieceSize p.size ∧
      a % p.size = 0 ∧ a + p.size ≤ b ∧ AlignedPartition (a + p.size) b ps

/-- The watch configs cover exactly the addresses `[lo, hi)`. -/
def Covers (cs : List WatchConfig) (lo hi : Nat) : Prop :=
  ∀ x, (∃ c ∈ cs, c.addr ≤ x ∧ x < c.addr + c.num_bytes) ↔ lo ≤ x ∧ x < hi

/-- `cs` are debug-register slots of type `ty` that together watch exactly
`[lo, hi)`. -/
def WatchSlots (cs : List WatchConfig) (ty : WatchType) (lo hi : Nat) : Prop :=
  Covers cs lo hi ∧ ∀ c ∈ cs, c.type_ = ty ∧ IsPieceSize c.num_bytes ∧ c.addr % c.num_bytes = 0

instance (s : Nat) : Decidable (IsPieceSize s) :=
  inferInstanceAs (Decidable (_ ∨ _ ∨ _ ∨ _))

theorem IsPieceSize.pos {s : Nat} (h : IsPieceSize s) : 0 < s := by
  rcases h with rfl | rfl | rfl | rfl <;> decide

theorem AlignedPartition.le {a b : Nat} {ps : List MemoryRange} (h : AlignedPartition a b ps) :
    a ≤ b := by
  induction ps generalizing a with
  | nil => exact Nat.le_of_eq h
  | cons p ps ih =>
    obtain ⟨-, -, hs, -, -, hrest⟩ := h
    have := ih hrest
    have := hs.pos
    omega

/-- Every piece of a partition of `[a, b)` starts at or after `a`, has an
allowed size and is aligned to it. -/
theorem AlignedPartition.mem {a b : Nat} {ps : List MemoryRange} (h : AlignedPartition a b ps) :
    ∀ p ∈ ps, a ≤ p.start_ ∧ IsPieceSize p.size ∧ p.start_ % p.size = 0 := by
  induction ps generalizing a with
  | nil => exact fun p hp => absurd hp List.not_mem_nil
  | cons q ps ih =>
    obtain ⟨hq, -, hs, ha, -, hrest⟩ := h
    intro p hp
    rcases List.mem_cons.1 hp with rfl | hp
    · exact ⟨hq.ge, hs, hq ▸ ha⟩
    · obtain ⟨h1, h2, h3⟩ := ih hrest p hp
      exact ⟨by omega, h2, h3⟩

/-- A partition of `[a, b)` covers exactly `[a, b)`. -/
theorem AlignedPartition.covers {a b : Nat} {ps : List MemoryRange} (h : AlignedPartition a b ps)
    (x : Nat) : (∃ p ∈ ps, p.start_ ≤ x ∧ x < p.start_ + p.size) ↔ a ≤ x ∧ x < b := by
  induction ps generalizing a with
  | nil =>
    have hab : a = b := h
    simp only [List.not_mem_nil, false_and, exists_false, false_iff]
    omega
  | cons q ps ih =>
    obtain ⟨hq, -, -, -, hle, hrest⟩ := h
    have := hrest.le
    simp only [List.mem_cons, exists_eq_or_imp, ih hrest, hq]
    omega

/-- A partition that no piece straddles `m` splits there. -/
theorem AlignedPartition.split {m x b : Nat} {qs : List MemoryRange}
    (h : AlignedPartition x b qs) (hxm : x ≤ m) (hmb : m ≤ b)
    (hno : ∀ q ∈ qs, q.start_ < m → m < q.start_ + q.size → False) :
    ∃ q1 q2, qs = q1 ++ q2 ∧ AlignedPartition x m q1 ∧ AlignedPartition m b q2 := by
  induction qs generalizing x with
  | nil =>
    have hxb : x = b := h
    exact ⟨[], [], rfl, (by show x = m; omega), (by show m = b; omega)⟩
  | cons q qs ih =>
    by_cases hx : x = m
    · exact ⟨[], q :: qs, rfl, hx, hx ▸ h⟩
    obtain ⟨hq, hend, hs, ha, hle, hrest⟩ := h
    -- the first piece ends at or before `m`, since it does not straddle it
    have hqm : x + q.size ≤ m := by
      by_contra hlt
      exact hno q List.mem_cons_self (by omega) (by omega)
    obtain ⟨q1, q2, rfl, h1, h2⟩ :=
      ih hrest hqm fun q' hq' => hno q' (List.mem_cons_of_mem _ hq')
    exact ⟨q :: q1, q2, rfl, ⟨hq, hend, hs, ha, hqm, h1⟩, h2⟩

/-- The slots of a partition's pieces watch exactly what it covers. -/
theorem AlignedPartition.watch_slots {a b : Nat} {ps : List MemoryRange}
    (h : AlignedPartition a b ps) (ty : WatchType) :
    WatchSlots (ps.map fun r => ⟨r.start_, r.size, ty⟩) ty a b := by
  constructor
  · intro x
    simp only [List.mem_map, exists_exists_and_eq_and]
    exact h.covers x
  · intro c hc
    obtain ⟨p, hp, rfl⟩ := List.mem_map.1 hc
    obtain ⟨-, hs, ha⟩ := h.mem p hp
    exact ⟨rfl, hs, ha⟩

/-! ## The greedy piece -/

/-- The size of the piece the greedy cut takes at `a` with `L` bytes left. -/
def piece_size (a L : Nat) : Nat :=
  if a % 8 = 0 ∧ 8 ≤ L then 8
  else if a % 4 = 0 ∧ 4 ≤ L then 4
  else if a % 2 = 0 ∧ 2 ≤ L then 2 else 1

section Greedy

variable {a L : Nat}

theorem piece_size_spec (hL : 0 < L) :
    IsPieceSize (piece_size a L) ∧ a % piece_size a L = 0 ∧ piece_size a L ≤ L := by
  unfold piece_size IsPieceSize
  split_ifs <;> omega

/-- The greedy piece is the largest that may start at `a`. -/
theorem le_piece_size {t : Nat} (ht : IsPieceSize t) (ha : a % t = 0) (htL : t ≤ L) :
    t ≤ piece_size a L := by
  unfold piece_size
  rcases ht with rfl | rfl | rfl | rfl <;> split_ifs <;> omega

/-- Aligned pieces of the allowed sizes never cross the end of a larger aligned
piece that starts before them. -/
theorem no_straddle {s t y : Nat} (hs : IsPieceSize s) (ht : IsPieceSize t) (ha : a % s = 0)
    (hy : y % t = 0) (hay : a < y) (hys : y < a + s) (hst : a + s < y + t) : False := by
  rcases hs with rfl | rfl | rfl | rfl <;> rcases ht with rfl | rfl | rfl | rfl <;> omega

/-- An aligned partition of `[a, b)`, less its first piece and whatever else lies
below the end of the greedy piece, is a partition of the rest: so the greedy
cut never loses a piece against it. -/
theorem AlignedPartition.drop_piece {b : Nat} {qs : List MemoryRange}
    (h : AlignedPartition a b qs) (hab : a < b) :
    ∃ q2, AlignedPartition (a + piece_size a (b - a)) b q2 ∧ q2.length + 1 ≤ qs.length := by
  cases qs with
  | nil => exact absurd (h : a = b) (Nat.ne_of_lt hab)
  | cons q qs =>
    obtain ⟨-, -, ht, ha, hle, hrest⟩ := h
    obtain ⟨hs, has, hsL⟩ := piece_size_spec (a := a) (Nat.sub_pos_of_lt hab)
    have hts : q.size ≤ piece_size a (b - a) := le_piece_size ht ha (by omega)
    -- no piece after the first straddles the end of the greedy piece
    have hno : ∀ q' ∈ qs, q'.start_ < a + piece_size a (b - a) →
        a + piece_size a (b - a) < q'.start_ + q'.size → False := by
      intro q' hq' hlt hgt
      obtain ⟨hge, hs', ha'⟩ := hrest.mem q' hq'
      exact no_straddle hs hs' has ha' (by have := ht.pos; omega) hlt hgt
    obtain ⟨q1, q2, rfl, -, h2⟩ := hrest.split (by omega) (by omega) hno
    refine ⟨q2, h2, ?_⟩
    simp only [List.length_cons, List.length_append]
    omega

end Greedy

/-! ## The loop -/

/-- `x &&& (bytes - 1)` for the sizes tried. -/
theorem and_pred_eq_mod (x : Nat) {bytes : Nat} (hb : IsPieceSize bytes) :
    x &&& (bytes - 1) = x % bytes := by
  rcases hb with rfl | rfl | rfl | rfl
  · simp [Nat.mod_one]
  · exact Nat.and_two_pow_sub_one_eq_mod x 1
  · exact Nat.and_two_pow_sub_one_eq_mod x 2
  · exact Nat.and_two_pow_sub_one_eq_mod x 3

theorem try_split_of_le {r : MemoryRange} {bytes : Nat} (result : List MemoryRange)
    (hb : IsPieceSize bytes) (ha : r.start_ % bytes = 0) (hL : bytes ≤ r.size) :
    try_split_unaligned_range r bytes result = some ({ r with start_ := wrapping_add r.start_ bytes },
      result ++ [MemoryRange.new_range r.start_ bytes]) := by
  rw [try_split_unaligned_range, if_neg (by rw [and_pred_eq_mod _ hb]; omega)]

theorem try_split_of_not {r : MemoryRange} {bytes : Nat} (result : List MemoryRange)
    (hb : IsPieceSize bytes) (h : ¬ (r.start_ % bytes = 0 ∧ bytes ≤ r.size)) :
    try_split_unaligned_range r bytes result = none := by
  rw [try_split_unaligned_range, if_pos (by rw [and_pred_eq_mod _ hb]; omega)]

/-- A turn of the loop cuts the greedy piece. -/
theorem turn_eq {r : MemoryRange} (result : List MemoryRange) (hpos : 0 < r.size) :
    (try_split_unaligned_range r 8 result <|> try_split_unaligned_range r 4 result <|>
        try_split_unaligned_range r 2 result <|> try_split_unaligned_range r 1 result) =
      some ({ r with start_ := wrapping_add r.start_ (piece_size r.start_ r.size) },
        result ++ [MemoryRange.new_range r.start_ (piece_size r.start_ r.size)]) := by
  unfold piece_size
  by_cases h8 : r.start_ % 8 = 0 ∧ 8 ≤ r.size
  · rw [if_pos h8, try_split_of_le result (by decide) h8.1 h8.2]
    rfl
  rw [if_neg h8, try_split_of_not result (by decide) h8]
  by_cases h4 : r.start_ % 4 = 0 ∧ 4 ≤ r.size
  · rw [if_pos h4, try_split_of_le result (by decide) h4.1 h4.2]
    rfl
  rw [if_neg h4, try_split_of_not result (by decide) h4]
  by_cases h2 : r.start_ % 2 = 0 ∧ 2 ≤ r.size
  · rw [if_pos h2, try_split_of_le result (by decide) h2.1 h2.2]
    rfl
  rw [if_neg h2, try_split_of_not result (by decide) h2,
    try_split_of_le result (by decide) (Nat.mod_one _) hpos]
  rfl

/-- The size of a range given by bounds that do not span the whole space. -/
theorem size_of_bounds {r : MemoryRange} {a b : Nat} (hs : r.start_ = a % 2 ^ 64)
    (he : r.end_ = b % 2 ^ 64) (hab : a ≤ b) (hwhole : b - a < 2 ^ 64) : r.size = b - a := by
  unfold MemoryRange.size wrapping_sub
  rw [hs, he]
  omega

/-- The loop cuts `[a, b)` into the shortest aligned partition, and returns it
unless a piece is pushed onto a full `Vec`. -/
theorem split_range_loop_spec (lim : VecLimit) (fuel : Nat) (r : MemoryRange)
    (result : List MemoryRange) {a b : Nat}
    (hs : r.start_ = a % 2 ^ 64) (he : r.end_ = b % 2 ^ 64) (hab : a ≤ b) (hb : b ≤ 2 ^ 64)
    (hwhole : b - a < 2 ^ 64) (hfuel : b - a < fuel) :
    ∃ ps, AlignedPartition a b ps ∧ (∀ qs, AlignedPartition a b qs → ps.length ≤ qs.length) ∧
      split_range_loop lim fuel r result =
        if ps = [] ∨ result.length + ps.length ≤ lim.max_len then some (result ++ ps) else none := by
  induction fuel generalizing r result a with
  | zero => omega
  | succ fuel ih =>
    have hsize := size_of_bounds hs he hab hwhole
    by_cases hend : a = b
    · -- nothing is left: the loop returns what it has cut
      subst hend
      refine ⟨[], rfl, fun _ _ => Nat.zero_le _, ?_⟩
      simp [split_range_loop, hsize]
    have ha : r.start_ = a := by rw [hs]; omega
    obtain ⟨hps, has, hsL⟩ := piece_size_spec (a := a) (L := b - a) (by omega)
    have hpos := hps.pos
    have hlt : piece_size a (b - a) < 2 ^ 64 := by rcases hps with h | h | h | h <;> omega
    -- one turn cuts the greedy piece and moves the start past it
    obtain ⟨ps, hpart, hmin, hrun⟩ := ih { r with start_ := wrapping_add r.start_ (piece_size a (b - a)) }
      (result ++ [MemoryRange.new_range r.start_ (piece_size a (b - a))]) (a := a + piece_size a (b - a))
      (by simp only [ha, wrapping_add]) he (by omega) (by omega) (by omega)
    have hpiece : (MemoryRange.new_range a (piece_size a (b - a))).size = piece_size a (b - a) := by
      simp only [MemoryRange.size, MemoryRange.new_range, wrapping_sub, wrapping_add]
      omega
    refine ⟨MemoryRange.new_range a (piece_size a (b - a)) :: ps, ?_, ?_, ?_⟩
    · rw [AlignedPartition, hpiece]
      exact ⟨rfl, rfl, hps, has, by omega, hpart⟩
    · intro qs hqs
      obtain ⟨q2, hq2, hlen⟩ := hqs.drop_piece (by omega)
      have := hmin q2 hq2
      simp only [List.length_cons]
      omega
    rw [split_range_loop, if_pos (by omega)]
    by_cases hfull : lim.max_len ≤ result.length
    · -- the push of the greedy piece finds the `Vec` full
      rw [if_pos hfull, if_neg (by simp only [reduceCtorEq, List.length_cons, false_or]; omega)]
    · rw [if_neg hfull, turn_eq result (by omega), ha, hsize]
      simp only [ha] at hrun
      dsimp only
      rw [hrun]
      simp only [List.length_append, List.length_cons, List.length_nil, reduceCtorEq, false_or,
        List.append_assoc, List.singleton_append]
      by_cases hnil : ps = []
      · subst hnil
        simp only [true_or, if_true, List.length_nil]
        rw [if_pos (by omega)]
      · simp only [hnil, false_or]
        rw [show result.length + 1 + ps.length = result.length + (ps.length + 1) by omega]

/-- `split_range` cuts `[a, b)` into the shortest aligned partition, and
returns it when the `Vec` can hold that many pieces. -/
theorem split_range_spec (lim : VecLimit) {r : MemoryRange} {a b : Nat} (hs : r.start_ = a % 2 ^ 64)
    (he : r.end_ = b % 2 ^ 64) (hab : a ≤ b) (hb : b ≤ 2 ^ 64) (hwhole : b - a < 2 ^ 64) :
    ∃ ps, AlignedPartition a b ps ∧ (∀ qs, AlignedPartition a b qs → ps.length ≤ qs.length) ∧
      split_range lim r = if ps.length ≤ lim.max_len then some ps else none := by
  have hsize := size_of_bounds hs he hab hwhole
  obtain ⟨ps, hpart, hmin, hrun⟩ :=
    split_range_loop_spec lim (r.size + 1) r [] hs he hab hb hwhole (by omega)
  refine ⟨ps, hpart, hmin, ?_⟩
  rw [split_range, hrun]
  by_cases hnil : ps = []
  · subst hnil
    simp
  · simp [hnil]

example : split_range ⟨2 ^ 58, le_rfl⟩ ⟨0x1001, 0x1007⟩ =
    some [⟨0x1001, 0x1002⟩, ⟨0x1002, 0x1004⟩, ⟨0x1004, 0x1006⟩, ⟨0x1006, 0x1007⟩] := by decide

example : split_range ⟨3, by decide⟩ ⟨0x1001, 0x1007⟩ = none := by decide

/-! ## Counting pieces -/

/-- A partition of `[a, b)` has a piece for each 8 bytes or part of them. -/
theorem AlignedPartition.sub_le_mul_length {a b : Nat} {ps : List MemoryRange}
    (h : AlignedPartition a b ps) : b - a ≤ 8 * ps.length := by
  induction ps generalizing a with
  | nil => have hab : a = b := h; omega
  | cons p ps ih =>
    obtain ⟨-, -, hs, -, -, hrest⟩ := h
    have := ih hrest
    have : p.size ≤ 8 := by rcases hs with h | h | h | h <;> omega
    simp only [List.length_cons]
    omega

/-- No piece of a partition of `[a, b)` is longer than `b - a`. -/
theorem AlignedPartition.size_le {a b : Nat} {ps : List MemoryRange} (h : AlignedPartition a b ps) :
    ∀ p ∈ ps, p.size ≤ b - a := by
  induction ps generalizing a with
  | nil => exact fun p hp => absurd hp List.not_mem_nil
  | cons q ps ih =>
    obtain ⟨-, -, -, -, hle, hrest⟩ := h
    intro p hp
    rcases List.mem_cons.1 hp with rfl | hp
    · omega
    · have := ih hrest p hp
      omega

/-- An aligned piece no longer than the alignment ends in the block it starts in. -/
theorem piece_in_block {x s align : Nat} (hs : IsPieceSize s) (halign : align = 2 ∨ align = 4 ∨ align = 8)
    (hsa : s ≤ align) (hx : x % s = 0) : (x + s + align - 1) / align ≤ x / align + 1 := by
  rcases halign with rfl | rfl | rfl <;> rcases hs with rfl | rfl | rfl | rfl <;> omega

/-- The aligned blocks of `align` bytes that meet `[a, b)` are no more than the
pieces of a partition of it whose pieces fit in a block: each block holds the
start of a piece. -/
theorem AlignedPartition.blocks_le {a b align : Nat} {ps : List MemoryRange}
    (h : AlignedPartition a b ps) (halign : align = 2 ∨ align = 4 ∨ align = 8)
    (hsmall : ∀ p ∈ ps, p.size ≤ align) (hab : a < b) :
    (b + align - 1) / align - a / align ≤ ps.length := by
  induction ps generalizing a with
  | nil => exact absurd (h : a = b) (Nat.ne_of_lt hab)
  | cons p ps ih =>
    obtain ⟨-, -, hs, ha, hle, hrest⟩ := h
    have hblock := piece_in_block hs halign (hsmall p List.mem_cons_self) ha
    simp only [List.length_cons]
    by_cases hlast : a + p.size = b
    · -- the last piece: `b` ends the block `a` is in
      subst hlast
      omega
    · -- the blocks from the end of the first piece on are counted by the rest
      have hrec := ih hrest (fun q hq => hsmall q (List.mem_cons_of_mem _ hq)) (by omega)
      have hnext : (a + p.size) / align ≤ a / align + 1 := by
        have := hsmall p List.mem_cons_self
        rcases halign with rfl | rfl | rfl <;> omega
      omega

/-- The blocks of `align` bytes from `x` on, one piece each. -/
def block_pieces (align : Nat) : Nat → Nat → List MemoryRange
  | _, 0 => []
  | x, n + 1 => MemoryRange.new_range x align :: block_pieces align (x + align) n

theorem block_pieces_length (align x n : Nat) : (block_pieces align x n).length = n := by
  induction n generalizing x with
  | zero => rfl
  | succ n ih => simp [block_pieces, ih]

/-- Blocks of an allowed size cut the range they tile, when it stays below the
top of the address space. -/
theorem block_pieces_partition {align x n : Nat} (hs : IsPieceSize align) (hx : x % align = 0)
    (htop : x + n * align ≤ 2 ^ 64) : AlignedPartition x (x + n * align) (block_pieces align x n) := by
  induction n generalizing x with
  | zero => show x = x + 0 * align; omega
  | succ n ih =>
    have hpos := hs.pos
    have hxa : x + align ≤ 2 ^ 64 := by
      rw [Nat.add_one_mul] at htop
      omega
    have hsize : (MemoryRange.new_range x align).size = align := by
      simp only [MemoryRange.size, MemoryRange.new_range, wrapping_sub, wrapping_add]
      rcases hs with h | h | h | h <;> subst h <;> omega
    rw [block_pieces, AlignedPartition, hsize]
    have hstep : x + (n + 1) * align = x + align + n * align := by
      rw [Nat.add_one_mul]
      omega
    refine ⟨rfl, rfl, hs, hx, by omega, ?_⟩
    rw [hstep]
    exact ih (by rw [Nat.add_mod_right, hx]) (by omega)

/-! ## The write watch rounded out -/

/-- The round-down of `configure_watch_registers` for the alignments it uses. -/
theorem and_not_align_pred {x align : Nat} (hx : x < 2 ^ 64) (h : align = 2 ∨ align = 4 ∨ align = 8) :
    x &&& (2 ^ 64 - 1 - (align - 1)) = x / align * align := by
  rcases h with rfl | rfl | rfl
  · exact and_round_down 1 hx (by decide)
  · exact and_round_down 2 hx (by decide)
  · exact and_round_down 3 hx (by decide)

/-- The range a write watch is rounded out to: its start rounded down, and its
end rounded up, wrapping to `0` at the top of the address space. -/
theorem rounded_split (lim : VecLimit) {r : MemoryRange} {align : Nat}
    (h : align = 2 ∨ align = 4 ∨ align = 8) (hle : r.start_ ≤ r.end_) (hend : r.end_ < 2 ^ 64)
    (hwhole : (r.end_ + align - 1) / align * align - r.start_ / align * align < 2 ^ 64) :
    ∃ ps, AlignedPartition (r.start_ / align * align) ((r.end_ + align - 1) / align * align) ps ∧
      (∀ qs, AlignedPartition (r.start_ / align * align) ((r.end_ + align - 1) / align * align) qs →
        ps.length ≤ qs.length) ∧
      split_range lim (MemoryRange.from_range (r.start_ &&& (2 ^ 64 - 1 - (align - 1)))
        (wrapping_add r.end_ (align - 1) &&& (2 ^ 64 - 1 - (align - 1)))) =
          if ps.length ≤ lim.max_len then some ps else none := by
  have hs := and_not_align_pred (Nat.lt_of_le_of_lt hle hend) h
  have he := and_not_align_pred (wrapping_add_lt r.end_ (align - 1)) h
  exact split_range_spec lim
    (r := MemoryRange.from_range (r.start_ &&& (2 ^ 64 - 1 - (align - 1)))
      (wrapping_add r.end_ (align - 1) &&& (2 ^ 64 - 1 - (align - 1))))
    (by simp only [MemoryRange.from_range, hs]; rcases h with rfl | rfl | rfl <;> omega)
    (by simp only [MemoryRange.from_range, he]; unfold wrapping_add; rcases h with rfl | rfl | rfl <;> omega)
    (by rcases h with rfl | rfl | rfl <;> omega) (by rcases h with rfl | rfl | rfl <;> omega) hwhole

/-- The rounded range needs no more pieces than a range that does not wrap,
when the alignment is one no piece of the range's split is longer than: the
aligned blocks cut it, and there are no more of them than pieces. -/
theorem rounded_length_le {r : MemoryRange} {align : Nat} {ps ps' : List MemoryRange}
    (h : align = 2 ∨ align = 4 ∨ align = 8) (hend : r.end_ < 2 ^ 64) (hab : r.start_ < r.end_)
    (hpart : AlignedPartition r.start_ r.end_ ps) (hsmall : ∀ p ∈ ps, p.size ≤ align)
    (hmin' : ∀ qs, AlignedPartition (r.start_ / align * align) ((r.end_ + align - 1) / align * align) qs →
      ps'.length ≤ qs.length) :
    ps'.length ≤ ps.length := by
  have hblocks := hpart.blocks_le h hsmall hab
  have hcover : r.start_ / align * align + ((r.end_ + align - 1) / align - r.start_ / align) * align =
      (r.end_ + align - 1) / align * align := by
    rcases h with rfl | rfl | rfl <;> omega
  have htiles := @block_pieces_partition align (r.start_ / align * align)
    ((r.end_ + align - 1) / align - r.start_ / align) (Or.inr h)
    (by rcases h with rfl | rfl | rfl <;> omega) (by rw [hcover]; rcases h with rfl | rfl | rfl <;> omega)
  rw [hcover] at htiles
  have := hmin' _ htiles
  rw [block_pieces_length] at this
  omega

/-- What `configure_watch_registers` pushes for a range that does not wrap and
whose split the `Vec` holds: the slots of its own split, or, for a write watch,
of the rounded range when those are fewer. -/
theorem configure_watch_registers_spec (lim : VecLimit) {r : MemoryRange} {ty : WatchType}
    {ps : List MemoryRange} (hle : r.start_ ≤ r.end_) (hend : r.end_ < 2 ^ 64)
    (hsplit : split_range lim r = some ps) (hpart : AlignedPartition r.start_ r.end_ ps)
    (hlen : ps.length ≤ lim.max_len) :
    ∃ cs, configure_watch_registers lim r ty = some cs ∧
      ((WatchSlots cs ty r.start_ r.end_ ∧ cs.length = ps.length) ∨
       (ty = .WatchWrite ∧ cs.length < ps.length ∧ ∃ align, (align = 2 ∨ align = 4 ∨ align = 8) ∧
          WatchSlots cs ty (r.start_ / align * align) ((r.end_ + align - 1) / align * align))) := by
  by_cases hw : ty = .WatchWrite ∧ 1 < r.size
  · simp only [configure_watch_registers, hsplit, Option.bind_some, if_pos hw]
    generalize halign : (if r.size ≤ 2 then 2 else if r.size ≤ 4 then 4 else 8) = align
    have hsize : r.size = r.end_ - r.start_ := size_of_bounds (Nat.mod_eq_of_lt (by omega)).symm
      (Nat.mod_eq_of_lt hend).symm hle (by omega)
    have h248 : align = 2 ∨ align = 4 ∨ align = 8 := by split_ifs at halign <;> omega
    -- the alignment is chosen so that no piece of the split is longer
    have hsmall : ∀ p ∈ ps, p.size ≤ align := by
      intro p hp
      have hp_le := hpart.size_le p hp
      obtain ⟨-, hs, -⟩ := hpart.mem p hp
      split_ifs at halign <;> subst halign <;> rcases hs with h | h | h | h <;> omega
    -- a rounded range that wraps spans nearly the whole space, and its split
    -- would need more pieces than a `Vec` holds
    have hwhole : (r.end_ + align - 1) / align * align - r.start_ / align * align < 2 ^ 64 := by
      have hcount := hpart.sub_le_mul_length
      have hcap := lim.le_capacity
      rcases h248 with rfl | rfl | rfl <;> omega
    obtain ⟨ps', hpart', hmin', hrun'⟩ := rounded_split lim h248 hle hend hwhole
    have hfit := rounded_length_le h248 hend (by omega) hpart hsmall hmin'
    rw [hrun', if_pos (by omega), Option.map_some, Option.map_some]
    by_cases hlt : ps'.length < ps.length
    · rw [if_pos hlt]
      exact ⟨_, rfl, .inr ⟨hw.1, by simpa using hlt, align, h248, hpart'.watch_slots ty⟩⟩
    · rw [if_neg hlt]
      exact ⟨_, rfl, .inl ⟨hpart.watch_slots ty, List.length_map _⟩⟩
  · simp only [configure_watch_registers, hsplit, Option.bind_some, if_neg hw, Option.map_some]
    exact ⟨_, rfl, .inl ⟨hpart.watch_slots ty, List.length_map _⟩⟩

example : configure_watch_registers ⟨2 ^ 58, le_rfl⟩ ⟨0x1001, 0x1007⟩ .WatchWrite =
    some [⟨0x1000, 8, .WatchWrite⟩] := by
  decide

theorem watch_registers_cover_range (lim : VecLimit) (r : MemoryRange) (ty : WatchType)
    (hle : r.start_ ≤ r.end_) (hend : r.end_ < 2 ^ 64) :
    ∃ ps, AlignedPartition r.start_ r.end_ ps ∧
      (∀ qs, AlignedPartition r.start_ r.end_ qs → ps.length ≤ qs.length) ∧
      (lim.max_len < ps.length →
        split_range lim r = none ∧ configure_watch_registers lim r ty = none) ∧
      (ps.length ≤ lim.max_len → split_range lim r = some ps ∧
        ∃ cs, configure_watch_registers lim r ty = some cs ∧
          ((WatchSlots cs ty r.start_ r.end_ ∧ cs.length = ps.length) ∨
           (ty = .WatchWrite ∧ cs.length < ps.length ∧ ∃ align, (align = 2 ∨ align = 4 ∨ align = 8) ∧
              WatchSlots cs ty (r.start_ / align * align) ((r.end_ + align - 1) / align * align)))) := by
  obtain ⟨ps, hpart, hmin, hsplit⟩ := split_range_spec lim (Nat.mod_eq_of_lt (by omega)).symm
    (Nat.mod_eq_of_lt hend).symm hle hend.le (by omega)
  refine ⟨ps, hpart, hmin, fun hlong => ?_, fun hfits => ?_⟩
  · -- the pieces outgrow the `Vec`: rd aborts before a slot is pushed
    rw [if_neg (by omega)] at hsplit
    simp [configure_watch_registers, hsplit]
  · rw [if_pos hfits] at hsplit
    exact ⟨hsplit, configure_watch_registers_spec lim hle hend hsplit hpart hfits⟩

theorem six_byte_write_watch_rounds_out :
    ∃ ps, AlignedPartition 0x1001 0x1007 ps ∧
      (∀ qs, AlignedPartition 0x1001 0x1007 qs → ps.length ≤ qs.length) ∧
      ((⟨2 ^ 58, le_rfl⟩ : VecLimit).max_len < ps.length →
        split_range ⟨2 ^ 58, le_rfl⟩ ⟨0x1001, 0x1007⟩ = none ∧
        configure_watch_registers ⟨2 ^ 58, le_rfl⟩ ⟨0x1001, 0x1007⟩ .WatchWrite = none) ∧
      (ps.length ≤ (⟨2 ^ 58, le_rfl⟩ : VecLimit).max_len →
        split_range ⟨2 ^ 58, le_rfl⟩ ⟨0x1001, 0x1007⟩ = some ps ∧
        ∃ cs, configure_watch_registers ⟨2 ^ 58, le_rfl⟩ ⟨0x1001, 0x1007⟩ .WatchWrite = some cs ∧
          ((WatchSlots cs .WatchWrite 0x1001 0x1007 ∧ cs.length = ps.length) ∨
           (WatchType.WatchWrite = .WatchWrite ∧ cs.length < ps.length ∧
            ∃ align, (align = 2 ∨ align = 4 ∨ align = 8) ∧
              WatchSlots cs .WatchWrite (0x1001 / align * align) ((0x1007 + align - 1) / align * align)))) :=
  watch_registers_cover_range ⟨2 ^ 58, le_rfl⟩ ⟨0x1001, 0x1007⟩ .WatchWrite (by decide) (by decide)

end RdReplay
