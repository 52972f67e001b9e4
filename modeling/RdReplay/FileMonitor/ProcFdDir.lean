/-
  FileMonitor/ProcFdDir.lean --- hiding rd's own fds from a tracee's listing
  of `/proc/<pid>/fd`.

  Source: `file_monitor/proc_fd_dir_monitor.rs`: `get_lengths_dirent`,
  `get_lengths_dirent64`, `filter_dirent_structs` and `filter_dirents_arch`.

  THE FILTER.  `filter_dirent_structs` walks the records of a `getdents`
  buffer.  A record whose name parses as an fd that the fd table says is rd's
  is removed by moving the rest of the buffer down over it; any other record
  is kept and the walk moves past it.  The kept records are always the front
  of the buffer (`filter_dirent_structs_loop_spec`), so at the end the buffer
  cut to the kept length is the kept records in order
  (`filter_dirent_structs_spec`).  When every record was rd's,
  `filter_dirents_arch` asks the kernel again, until an answer has a record of
  the tracee's or the listing ends; what the tracee then sees is
  `own_listing`, stated over records (`filter_dirents_loop_spec`).

  THE MODEL.  The fd table is the predicate `is_rd_fd`, and the kernel is the
  list of its answers to the syscall and to each re-issue: the result and the
  bytes it left in the buffer.  A `getdents` result is an error number or a
  byte count, so the register read as `usize` is the byte count when the call
  did not fail.  A panic (`unwrap` with no NUL after a name, an underflowing
  `size - next_off`) is `none`; the loop, unbounded in rd, runs with as much
  fuel as the buffer has bytes, one more than it can have records, and
  running out is `none` too.  `String::from_utf8_lossy` changes only bytes
  that are not ASCII, which no digit or sign is, so the name is parsed as
  bytes.
-/
import RdReplay.AddressSpace.KernelMapIterator

set_option autoImplicit false

namespace RdReplay.FileMonitor

/-! ## Records and names -/

/-- The little-endian `u16` at `off`. -/
def u16_at (buf : List UInt8) (off : Nat) : Nat :=
  (buf.getD off 0).toNat + 256 * (buf.getD (off + 1) 0).toNat

/-- The `d_reclen` at `reclen_off` of the record at the start of `buf`, and
its `d_name` offset. -/
def get_lengths_at (reclen_off name_off : Nat) (buf : List UInt8) : Nat × Nat :=
  (u16_at buf reclen_off, name_off)

/-- `get_lengths_dirent`: a `linux_dirent` of 32-bit or 64-bit `ino_t` and
`off_t`. -/
def get_lengths_dirent (arch : SupportedArch) (buf : List UInt8) : Nat × Nat :=
  match arch with
  | .X86 => get_lengths_at 8 10 buf
  | .X64 => get_lengths_at 16 18 buf

/-- `get_lengths_dirent64`: a `linux_dirent64`, with `d_type` before the
name. -/
def get_lengths_dirent64 (_arch : SupportedArch) (buf : List UInt8) : Nat × Nat :=
  get_lengths_at 16 19 buf

/-- `str::parse::<i32>`: an optional sign, then at least one decimal digit,
the value within `i32`. -/
def parse_i32 (s : List UInt8) : Option Int :=
  match s with
  | 45 :: digits =>
    if digits = [] then none
    else (digits.foldl (KernelMapIterator.from_str_radix_step 10 (2 ^ 31 + 1)) (some 0)).map fun v => -(v : Int)
  | _ => (KernelMapIterator.from_str_radix 10 (2 ^ 31) s).map Int.ofNat

/-- The name starting at `start`: the bytes before the first NUL; `none` is
the `unwrap` when no NUL is left in the buffer. -/
def dirent_name (buf : List UInt8) (start : Nat) : Option (List UInt8) :=
  if (0 : UInt8) ∈ buf.drop start then some ((buf.drop start).takeWhile (· ≠ 0)) else none

/-- Whether a record of this name is one of rd's fds. -/
def is_rd_entry (is_rd_fd : Int → Bool) (name : List UInt8) : Bool :=
  match parse_i32 name with
  | some fd => is_rd_fd fd
  | none => false

/-- `ptr::copy` of `count` bytes from `src` down to `dst`. -/
def copy_within (buf : List UInt8) (src dst count : Nat) : List UInt8 :=
  buf.take dst ++ (buf.drop src).take count ++ buf.drop (dst + count)

/-- `Vec::resize(n, 0)`. -/
def resize (buf : List UInt8) (n : Nat) : List UInt8 :=
  buf.take n ++ List.replicate (n - buf.length) 0

/-! ## `filter_dirent_structs` -/

section Filter

variable (is_rd_fd : Int → Bool) (f : List UInt8 → Nat × Nat)

/-- The loop of `filter_dirent_structs`, on the buffer, the kept byte count,
the offset of the record it looks at and the end of the records. -/
def filter_dirent_structs_loop : Nat → List UInt8 → Nat → Nat → Nat → Option (List UInt8 × Nat)
  | 0, _, _, _, _ => none
  | fuel + 1, buf, bytes, current_offset, size =>
    if current_offset = size then some (buf, bytes)
    else
      let current_struct_d_reclen := (f (buf.drop current_offset)).1
      let inner_offset := (f (buf.drop current_offset)).2
      let next_off := current_offset + current_struct_d_reclen
      match dirent_name buf (current_offset + inner_offset) with
      | none => none
      | some name =>
        if is_rd_entry is_rd_fd name then
          -- skip this entry: the rest moves down over it
          if size < next_off then none
          else filter_dirent_structs_loop fuel (copy_within buf next_off current_offset (size - next_off)) bytes
            current_offset (size - (next_off - current_offset))
        else filter_dirent_structs_loop fuel buf (bytes + current_struct_d_reclen) next_off size

/-- `filter_dirent_structs`: the buffer cut to the kept records, and their
length. -/
def filter_dirent_structs (buf : List UInt8) : Option (List UInt8 × Nat) :=
  (filter_dirent_structs_loop is_rd_fd f (buf.length + 1) buf 0 0 buf.length).map fun r =>
    (resize r.1 r.2, r.2)

end Filter


/-! ## Well-formed buffers -/

/-- A record as `f` reads it: `f` reads it from its own bytes, its `d_reclen`
is its length, and its name has a NUL before the record ends. -/
structure DirentRecord (f : List UInt8 → Nat × Nat) (r : List UInt8) : Prop where
  reads_own : ∀ tail, f (r ++ tail) = f r
  reclen : (f r).1 = r.length
  name_nul : (0 : UInt8) ∈ r.drop (f r).2

theorem DirentRecord.ne_nil {f : List UInt8 → Nat × Nat} {r : List UInt8} (hr : DirentRecord f r) : r ≠ [] := by
  rintro rfl
  have hnul := hr.name_nul
  simp at hnul

/-- What a `getdents` buffer promises of a record: its `d_reclen` is its
length, and its name has a NUL before the record ends. -/
def WellFormedRecord (f : List UInt8 → Nat × Nat) (r : List UInt8) : Prop :=
  (f r).1 = r.length ∧ (0 : UInt8) ∈ r.drop (f r).2

instance (f : List UInt8 → Nat × Nat) (r : List UInt8) : Decidable (WellFormedRecord f r) :=
  inferInstanceAs (Decidable (_ ∧ _))

/-- The name of a record. -/
def record_name (f : List UInt8 → Nat × Nat) (r : List UInt8) : List UInt8 :=
  (r.drop (f r).2).takeWhile (· ≠ 0)

/-- Whether the filter keeps a record: its name is not one of rd's fds. -/
def keeps (is_rd_fd : Int → Bool) (f : List UInt8 → Nat × Nat) (r : List UInt8) : Bool :=
  !is_rd_entry is_rd_fd (record_name f r)

/-- The header of a record of length at least `name_off + 1` lies in the
record, so the lengths are read from it. -/
theorem dirent_record_at {reclen_off name_off : Nat} {r : List UInt8} (hoff : reclen_off + 2 ≤ name_off)
    (hlen : u16_at r reclen_off = r.length) (hnul : (0 : UInt8) ∈ r.drop name_off) :
    DirentRecord (get_lengths_at reclen_off name_off) r := by
  have hin : name_off < r.length := by
    by_contra h
    rw [List.drop_eq_nil_of_le (by omega)] at hnul
    cases hnul
  refine ⟨fun tail => ?_, hlen, hnul⟩
  simp only [get_lengths_at, u16_at, Prod.mk.injEq, and_true]
  rw [List.getD_append _ _ _ _ (by omega), List.getD_append _ _ _ _ (by omega)]

theorem takeWhile_ne_zero_append {xs ys : List UInt8} (h : (0 : UInt8) ∈ xs) :
    (xs ++ ys).takeWhile (· ≠ 0) = xs.takeWhile (· ≠ 0) := by
  rw [List.takeWhile_append, if_neg]
  intro hlen
  have hall := List.takeWhile_eq_self_iff.1 ((List.takeWhile_prefix _).eq_of_length hlen)
  simpa using hall 0 h

theorem length_le_length_flatten {recs : List (List UInt8)} (h : ∀ r ∈ recs, r ≠ []) :
    recs.length ≤ recs.flatten.length := by
  induction recs with
  | nil => simp
  | cons r recs ih =>
    have hr : 0 < r.length := List.length_pos_iff.2 (h r (List.mem_cons_self ..))
    simp only [List.length_cons, List.flatten_cons, List.length_append]
    have := ih fun r' hr' => h r' (List.mem_cons_of_mem _ hr')
    omega

section Filter

variable (is_rd_fd : Int → Bool) (f : List UInt8 → Nat × Nat)

/-- Looking at a record: its lengths and its name are read from its own
bytes, whatever lies before and after it. -/
theorem read_record {r : List UInt8} (hr : DirentRecord f r) (front back : List UInt8) :
    f ((front ++ (r ++ back)).drop front.length) = f r ∧
      dirent_name (front ++ (r ++ back)) (front.length + (f r).2) = some (record_name f r) := by
  have hoff : (f r).2 ≤ r.length := by
    by_contra h
    have hnul := hr.name_nul
    rw [List.drop_eq_nil_of_le (by omega)] at hnul
    cases hnul
  refine ⟨by rw [List.drop_left' rfl, hr.reads_own], ?_⟩
  have hdrop : (front ++ (r ++ back)).drop (front.length + (f r).2) = r.drop (f r).2 ++ back := by
    rw [← List.drop_drop, List.drop_left' rfl, List.drop_append_of_le_length hoff]
  rw [dirent_name, hdrop, if_pos (List.mem_append_left _ hr.name_nul), takeWhile_ne_zero_append hr.name_nul]
  rfl

/-- Removing a record moves the records after it down to where it began. -/
theorem copy_within_record (front r rest junk : List UInt8) :
    copy_within (front ++ (r ++ (rest ++ junk))) (front.length + r.length) front.length rest.length =
      front ++ (rest ++ (front ++ (r ++ (rest ++ junk)) ).drop (front.length + rest.length)) := by
  unfold copy_within
  rw [List.take_left' rfl, ← List.drop_drop, List.drop_left' rfl, List.drop_left' rfl, List.take_left' rfl,
    List.append_assoc]

/-- The loop from a record on: the kept records are at the front, then the
records still to look at up to `size`, then bytes left over from the records
removed.  The loop ends with the kept records, in order, at the front. -/
theorem filter_dirent_structs_loop_spec :
    ∀ (rest kept : List (List UInt8)) (junk : List UInt8) (fuel : Nat), rest.length < fuel →
      (∀ r ∈ rest, DirentRecord f r) →
      ∃ junk', filter_dirent_structs_loop is_rd_fd f fuel (kept.flatten ++ (rest.flatten ++ junk))
          kept.flatten.length kept.flatten.length (kept.flatten.length + rest.flatten.length) =
        some ((kept ++ rest.filter (keeps is_rd_fd f)).flatten ++ junk',
          (kept ++ rest.filter (keeps is_rd_fd f)).flatten.length) := by
  intro rest
  induction rest with
  | nil =>
    intro kept junk fuel hfuel _
    obtain ⟨fuel, rfl⟩ : ∃ n, fuel = n + 1 := ⟨fuel - 1, by simp at hfuel; omega⟩
    exact ⟨junk, by simp [filter_dirent_structs_loop]⟩
  | cons r rest ih =>
    intro kept junk fuel hfuel hrecs
    obtain ⟨fuel, rfl⟩ : ∃ n, fuel = n + 1 := ⟨fuel - 1, by simp at hfuel; omega⟩
    have hfuel' : rest.length < fuel := by simp at hfuel; omega
    have hr := hrecs r (List.mem_cons_self ..)
    have hrest := fun r' hr' => hrecs r' (List.mem_cons_of_mem _ hr')
    have hpos : 0 < r.length := List.length_pos_iff.2 hr.ne_nil
    obtain ⟨hlen, hname⟩ := read_record f hr kept.flatten (rest.flatten ++ junk)
    rw [List.flatten_cons, List.append_assoc, List.length_append]
    rw [filter_dirent_structs_loop, if_neg (by omega)]
    simp only [hlen, hname, hr.reclen]
    cases hkeep : keeps is_rd_fd f r
    -- rd's own fd: the records after it move down over it
    · have hrd : is_rd_entry is_rd_fd (record_name f r) = true := by simpa [keeps] using hkeep
      rw [if_pos hrd, if_neg (by omega),
        show kept.flatten.length + (r.length + rest.flatten.length) - (kept.flatten.length + r.length) =
          rest.flatten.length by omega,
        copy_within_record,
        show kept.flatten.length + (r.length + rest.flatten.length) -
          (kept.flatten.length + r.length - kept.flatten.length) = kept.flatten.length + rest.flatten.length by omega,
        List.filter_cons_of_neg (by simp [hkeep])]
      exact ih kept _ fuel hfuel' hrest
    -- the tracee's own entry: kept, and the walk moves past it
    · have hown : is_rd_entry is_rd_fd (record_name f r) = false := by simpa [keeps] using hkeep
      rw [if_neg (by simp [hown]), List.filter_cons_of_pos hkeep]
      obtain ⟨junk', h⟩ := ih (kept ++ [r]) junk fuel hfuel' hrest
      refine ⟨junk', ?_⟩
      simp only [List.flatten_append, List.flatten_singleton, List.length_append, List.append_assoc,
        List.singleton_append] at h ⊢
      rw [← Nat.add_assoc, ← h]

/-- `filter_dirent_structs` on a buffer of records keeps exactly the records
whose name is not one of rd's fds, in order, and returns their length. -/
theorem filter_dirent_structs_spec (recs : List (List UInt8)) (h : ∀ r ∈ recs, DirentRecord f r) :
    filter_dirent_structs is_rd_fd f recs.flatten =
      some ((recs.filter (keeps is_rd_fd f)).flatten, (recs.filter (keeps is_rd_fd f)).flatten.length) := by
  have hcount := length_le_length_flatten fun r hr => (h r hr).ne_nil
  obtain ⟨junk', hloop⟩ :=
    filter_dirent_structs_loop_spec is_rd_fd f recs [] [] (recs.flatten.length + 1) (by omega) h
  simp only [List.flatten_nil, List.nil_append, List.append_nil, List.length_nil, Nat.zero_add] at hloop
  rw [filter_dirent_structs, hloop, Option.map_some]
  simp [resize]

end Filter


/-! ## `filter_dirents_arch` -/

/-- The kernel's answer to one `getdents`: the result, signed, and the bytes
it left in the tracee's buffer. -/
structure KernelAnswer where
  result : Int
  data : List UInt8

/-- `syscall_failed() || syscall_result() == 0`: the listing ends. -/
def KernelAnswer.ends (a : KernelAnswer) : Bool :=
  decide (-4096 < a.result ∧ a.result < 0) || a.result == 0

/-- An answer listing the records `recs`: the result is their length and the
buffer starts with them. -/
structure KernelAnswer.Lists (f : List UInt8 → Nat × Nat) (a : KernelAnswer) (recs : List (List UInt8)) :
    Prop where
  records : ∀ r ∈ recs, DirentRecord f r
  result : a.result = recs.flatten.length
  data : recs.flatten <+: a.data

/-- The lengths `filter_dirents_arch` reads records with: `get_lengths_dirent64`
for `getdents64`, `get_lengths_dirent` for `getdents`. -/
def dirent_lengths (arch : SupportedArch) (getdents64 : Bool) : List UInt8 → Nat × Nat :=
  if getdents64 then get_lengths_dirent64 arch else get_lengths_dirent arch

/-- In both layouts `d_reclen` lies before the name, so a well-formed record
is read from its own bytes. -/
theorem dirent_lengths_record {arch : SupportedArch} {getdents64 : Bool} {r : List UInt8}
    (hr : WellFormedRecord (dirent_lengths arch getdents64) r) : DirentRecord (dirent_lengths arch getdents64) r := by
  obtain ⟨reclen_off, name_off, hoff, hlen⟩ :
      ∃ a b, a + 2 ≤ b ∧ dirent_lengths arch getdents64 = get_lengths_at a b := by
    cases getdents64 <;> cases arch <;> exact ⟨_, _, by norm_num, rfl⟩
  rw [hlen] at hr ⊢
  exact dirent_record_at hoff hr.1 hr.2

section Arch

variable (is_rd_fd : Int → Bool) (f : List UInt8 → Nat × Nat)

/-- The loop of `filter_dirents_arch` from one answer on: the result register
and the bytes at the front of the tracee's buffer when it returns. -/
def filter_dirents_loop : KernelAnswer → List KernelAnswer → Option (Int × List UInt8)
  | answer, reissues =>
    match filter_dirent_structs is_rd_fd f (resize answer.data answer.result.toNat) with
    | none => none
    | some (buf, bytes) =>
      if 0 < bytes then some (bytes, buf)
      else
        -- every entry was rd's: ask again
        match reissues with
        | [] => none
        | next :: rest => if next.ends then some (next.result, []) else filter_dirents_loop next rest

/-- `filter_dirents_arch`: the result register and the bytes at the front of
the tracee's buffer, given the kernel's answer to the tracee's syscall and its
answers to each re-issue; a listing that ended shows no entry. -/
def filter_dirents_arch (arch : SupportedArch) (getdents64 : Bool) (first : KernelAnswer)
    (reissues : List KernelAnswer) : Option (Int × List UInt8) :=
  if first.ends then some (first.result, [])
  else filter_dirents_loop is_rd_fd (dirent_lengths arch getdents64) first reissues

/-- What the tracee is to see, in terms of the records each answer lists: the
entries of its own in the first answer that has any, or nothing once an
answer ends the listing. -/
def own_listing (recs : KernelAnswer → List (List UInt8)) : KernelAnswer → List KernelAnswer → Option (Int × List UInt8)
  | answer, reissues =>
    if ((recs answer).filter (keeps is_rd_fd f)).flatten ≠ [] then
      some (((recs answer).filter (keeps is_rd_fd f)).flatten.length, ((recs answer).filter (keeps is_rd_fd f)).flatten)
    else
      match reissues with
      | [] => none
      | next :: rest => if next.ends then some (next.result, []) else own_listing recs next rest

theorem resize_of_prefix {l data : List UInt8} (h : l <+: data) : resize data l.length = l := by
  obtain ⟨tail, rfl⟩ := h
  simp [resize]

/-- One answer through the filter: what it leaves are its records of the
tracee's own. -/
theorem KernelAnswer.Lists.filter {a : KernelAnswer} {recs : List (List UInt8)} (hl : a.Lists f recs) :
    filter_dirent_structs is_rd_fd f (resize a.data a.result.toNat) =
      some ((recs.filter (keeps is_rd_fd f)).flatten, (recs.filter (keeps is_rd_fd f)).flatten.length) := by
  rw [hl.result, Int.toNat_natCast, resize_of_prefix hl.data, filter_dirent_structs_spec is_rd_fd f _ hl.records]

/-- On answers that list records, the loop of `filter_dirents_arch` shows the
tracee what `own_listing` says. -/
theorem filter_dirents_loop_spec (recs : KernelAnswer → List (List UInt8)) :
    ∀ (reissues : List KernelAnswer) (answer : KernelAnswer),
      (∀ a ∈ answer :: reissues, a.ends = false → a.Lists f (recs a)) → answer.ends = false →
      filter_dirents_loop is_rd_fd f answer reissues = own_listing is_rd_fd f recs answer reissues := by
  intro reissues
  induction reissues with
  | nil =>
    intro answer hlists hends
    rw [filter_dirents_loop, own_listing, (hlists answer (List.mem_cons_self ..) hends).filter]
    simp only [List.length_pos_iff, ne_eq]
  | cons next rest ih =>
    intro answer hlists hends
    rw [filter_dirents_loop, own_listing, (hlists answer (List.mem_cons_self ..) hends).filter]
    simp only [List.length_pos_iff, ne_eq]
    -- a re-issue that ends the listing returns; any other goes round again
    cases hnext : next.ends
    · rw [ih next (fun a ha => hlists a (List.mem_cons_of_mem _ ha)) hnext]
    · simp

end Arch


/-- Hiding rd's fds from a listing of `/proc/<pid>/fd`, for either layout.  On
a buffer of well-formed records, `filter_dirent_structs` keeps exactly the
records that are not rd's fds, in order, and returns their length.  Given the
kernel's answers, each listing well-formed records of the length it returns,
`filter_dirents_arch` shows the tracee what `own_listing` says: the tracee's
entries of the first answer that has any, with the result their length, every
answer before it having had none; or the result of the answer that ended the
listing. -/
theorem proc_fd_listing_hides_rd_fds (is_rd_fd : Int → Bool) (arch : SupportedArch) (getdents64 : Bool) :
    (∀ recs : List (List UInt8), (∀ r ∈ recs, WellFormedRecord (dirent_lengths arch getdents64) r) →
      filter_dirent_structs is_rd_fd (dirent_lengths arch getdents64) recs.flatten =
        some ((recs.filter (keeps is_rd_fd (dirent_lengths arch getdents64))).flatten,
          (recs.filter (keeps is_rd_fd (dirent_lengths arch getdents64))).flatten.length)) ∧
    ∀ (recs : KernelAnswer → List (List UInt8)) (first : KernelAnswer) (reissues : List KernelAnswer),
      (∀ a ∈ first :: reissues, a.ends = false →
        (∀ r ∈ recs a, WellFormedRecord (dirent_lengths arch getdents64) r) ∧
          a.result = (recs a).flatten.length ∧ (recs a).flatten <+: a.data) →
      filter_dirents_arch is_rd_fd arch getdents64 first reissues =
        if first.ends then some (first.result, [])
        else own_listing is_rd_fd (dirent_lengths arch getdents64) recs first reissues := by
  refine ⟨fun recs hrecs => filter_dirent_structs_spec is_rd_fd _ recs fun r hr => dirent_lengths_record (hrecs r hr),
    ?_⟩
  intro recs first reissues hanswers
  unfold filter_dirents_arch
  by_cases hends : first.ends = true
  · rw [if_pos hends, if_pos hends]
  -- the tracee's own call listed records: the loop takes over
  · rw [if_neg hends, if_neg hends]
    refine filter_dirents_loop_spec is_rd_fd _ recs reissues first (fun a ha hend => ?_) (by simpa using hends)
    obtain ⟨hwf, hres, hdata⟩ := hanswers a ha hend
    exact ⟨fun r hr => dirent_lengths_record (hwf r hr), hres, hdata⟩

/-- A `linux_dirent64` of 24 bytes whose name is one digit. -/
def fd_entry (digit : UInt8) : List UInt8 :=
  List.replicate 16 0 ++ [24, 0, 8, digit, 0] ++ List.replicate 3 0

/-- Fd 3 is rd's: the first answer lists only it, so the call is issued again,
and the tracee sees the entry for fd 5 of the second answer. -/
theorem listing_reissued_past_fd_three :
    filter_dirents_arch (· == 3) .X64 true ⟨24, fd_entry 0x33⟩ [⟨24, fd_entry 0x35⟩] = some (24, fd_entry 0x35) := by
  rw [(proc_fd_listing_hides_rd_fds (· == 3) .X64 true).2 (fun a => [a.data]) ⟨24, fd_entry 0x33⟩
    [⟨24, fd_entry 0x35⟩] (by decide)]
  decide

end RdReplay.FileMonitor
