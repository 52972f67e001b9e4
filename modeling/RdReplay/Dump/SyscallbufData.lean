/-
  Dump/SyscallbufData.lean --- the listing of a syscallbuf flush by `rd dump`.

  Sources: `commands/dump_command.rs` (`dump_syscallbuf_data`) and
  `preload_interface.rs` (`syscallbuf_hdr`, `syscallbuf_record`,
  `stored_record_size`).

  THE BUFFER.  The raw data of a `SyscallbufFlush` frame is read through raw
  pointers, so a read past its end sees whatever host memory holds there: the
  model keeps those bytes as a function beside the data (`RawData`).  Pointers
  are offsets from the start of the data.

  ARITHMETIC.  `buf.data.len() - size_of::<syscallbuf_hdr>()` is a `usize`
  subtraction and the `+ 7` of `stored_record_size` a `u32` addition; both wrap
  in the release build, so the first is `wrapping_sub` and the second is
  computed in `UInt32`.

  THE LOOP.  The listing stops only when the record pointer reaches the end of
  the recorded bytes, so it runs on fuel and `none` is "out of fuel".  What it
  prints is kept as the offsets of the records it reads; the syscall names and
  the text of each line are left out.
-/
import RdReplay.Util

set_option autoImplicit false

namespace RdReplay.Dump

/-- The raw data of a frame, `buf.data`, and the host bytes that follow it; a
`Vec`'s length is a `usize`. -/
structure RawData where
  data : List UInt8
  past_end : Nat → UInt8
  length_lt : data.length < 2 ^ 64

namespace RawData

/-- The byte a raw pointer at offset `i` reads. -/
def byte_at (b : RawData) (i : Nat) : UInt8 := b.data.getD i (b.past_end i)

/-- The little-endian value of the `n` bytes at offset `off`. -/
def read_le (b : RawData) (off : Nat) : Nat → Nat
  | 0 => 0
  | n + 1 => (b.byte_at off).toNat + 256 * b.read_le (off + 1) n

/-- A `u32` field at offset `off`. -/
def read_u32 (b : RawData) (off : Nat) : UInt32 := UInt32.ofNat (b.read_le off 4)

end RawData

/-- `size_of::<syscallbuf_hdr>()`: the header is `repr(C, packed)`, three `u32`
counters, four `u8` flags, `blocked_sigs : u64`, a `u32` and two `u8`s. -/
def syscallbuf_hdr_size : Nat := 4 + 4 + 4 + 1 + 1 + 1 + 1 + 8 + 4 + 1 + 1

/-- `size_of::<syscallbuf_record>()`: `ret : i64`, `syscallno : u16`,
`desched : u8`, `_padding : u8` and `size : u32`. -/
def syscallbuf_record_size : Nat := 16

/-- `syscallbuf_hdr.num_rec_bytes`, the header's first field. -/
def num_rec_bytes (b : RawData) : UInt32 := b.read_u32 0

/-- `syscallbuf_record.size`, at offset 12 of the record at `record`. -/
def record_size (b : RawData) (record : Nat) : UInt32 := b.read_u32 (record + 12)

/-- `stored_record_size`: a record's length rounded up to whole 64-bit words. -/
def stored_record_size (length : UInt32) : UInt32 := (length + 7) &&& ~~~7

/-- How the listing ends: `Ok(())`, or a message on stderr and `notifying_abort`. -/
inductive DumpOutcome where
  | ok
  | malformed (msg : String)
  deriving DecidableEq, Repr

/-- The `while record_ptr.lt(&end_ptr)` loop; `printed` are the records listed. -/
def dump_loop (b : RawData) (end_ptr : Nat) :
    Nat → Nat → List Nat → Option (List Nat × DumpOutcome)
  | 0, _, _ => none
  | fuel + 1, record_ptr, printed =>
    if record_ptr < end_ptr then
      -- the record is printed before its size is checked
      let printed := printed ++ [record_ptr]
      let size := record_size b record_ptr
      if size.toNat < syscallbuf_record_size then
        some (printed, .malformed "Malformed trace file (bad record size)")
      else dump_loop b end_ptr fuel (record_ptr + (stored_record_size size).toNat) printed
    else some (printed, .ok)

/-- `dump_syscallbuf_data`, for a frame whose event is `EvSyscallbufFlush` or not. -/
def dump_syscallbuf_data (is_syscallbuf_flush : Bool) (b : RawData) (fuel : Nat) :
    Option (List Nat × DumpOutcome) :=
  if !is_syscallbuf_flush then some ([], .ok)
  else
    -- `(buf.data.len() - size_of::<syscallbuf_hdr>()) as u32`
    let bytes_remaining := wrapping_sub b.data.length syscallbuf_hdr_size % 2 ^ 32
    if bytes_remaining < (num_rec_bytes b).toNat then
      some ([], .malformed "Malformed trace file (bad recorded-bytes count)")
    else
      dump_loop b (syscallbuf_hdr_size + (num_rec_bytes b).toNat) fuel syscallbuf_hdr_size []

/-! ## The stored size of a record -/

private theorem and_not_seven {y : Nat} (hy : y < 2 ^ 32) : y &&& 0xFFFFFFF8 = y / 8 * 8 := by
  have hmod : (y &&& 0xFFFFFFF8) % 2 ^ 3 = 0 := by
    rw [Nat.and_mod_two_pow]
    simp
  have hdiv : (y &&& 0xFFFFFFF8) / 2 ^ 3 = y / 8 := by
    rw [Nat.and_div_two_pow, show (0xFFFFFFF8 : Nat) / 2 ^ 3 = 2 ^ 29 - 1 by norm_num,
      Nat.and_two_pow_sub_one_eq_mod]
    omega
  omega

theorem stored_record_size_toNat (length : UInt32) :
    (stored_record_size length).toNat = (length.toNat + 7) % 2 ^ 32 / 8 * 8 := by
  have h7 : (~~~7 : UInt32).toNat = 0xFFFFFFF8 := rfl
  rw [stored_record_size, UInt32.toNat_and, h7, UInt32.toNat_add]
  exact and_not_seven (Nat.mod_lt _ (by norm_num))

/-- Below the wrap, the stored size covers the record. -/
theorem le_stored_record_size {length : UInt32} (h : length.toNat < 2 ^ 32 - 7) :
    length.toNat ≤ (stored_record_size length).toNat := by
  rw [stored_record_size_toNat, Nat.mod_eq_of_lt (by omega)]
  omega

/-- The last seven sizes wrap, and their stored size is `0`. -/
theorem stored_record_size_of_wrap {length : UInt32} (h : 2 ^ 32 - 7 ≤ length.toNat) :
    (stored_record_size length).toNat = 0 := by
  have hlt := length.toNat_lt
  rw [stored_record_size_toNat]
  omega

/-! ## The listing loop -/

section Loop

variable (b : RawData) (end_ptr : Nat)

/-- A record in the window whose size passes the check but wraps holds the
pointer where it is: the loop lists it again and again. -/
theorem dump_loop_of_wrap {record_ptr : Nat} (hlt : record_ptr < end_ptr)
    (hwrap : 2 ^ 32 - 7 ≤ (record_size b record_ptr).toNat) :
    ∀ fuel printed, dump_loop b end_ptr fuel record_ptr printed = none
  | 0, _ => rfl
  | fuel + 1, printed => by
    have hsize : ¬ (record_size b record_ptr).toNat < syscallbuf_record_size := by
      simp only [syscallbuf_record_size]
      omega
    rw [dump_loop, if_pos hlt, if_neg hsize, stored_record_size_of_wrap hwrap, Nat.add_zero]
    exact dump_loop_of_wrap hlt hwrap fuel _

/-- The loop ends within one turn more than the bytes left in the window, or it
never ends. -/
theorem dump_loop_isSome_or_forever :
    ∀ {fuel : Nat} (record_ptr : Nat) (printed : List Nat), end_ptr - record_ptr < fuel →
      (dump_loop b end_ptr fuel record_ptr printed).isSome ∨
        ∀ fuel', dump_loop b end_ptr fuel' record_ptr printed = none
  | 0, _, _, h => absurd h (Nat.not_lt_zero _)
  | fuel + 1, record_ptr, printed, h => by
    by_cases hlt : record_ptr < end_ptr
    case neg => simp [dump_loop, hlt]
    case pos =>
    by_cases hsize : (record_size b record_ptr).toNat < syscallbuf_record_size
    case pos => simp [dump_loop, hlt, hsize]
    case neg =>
    by_cases hwrap : 2 ^ 32 - 7 ≤ (record_size b record_ptr).toNat
    case pos => exact .inr fun fuel' => dump_loop_of_wrap b end_ptr hlt hwrap fuel' printed
    case neg =>
    -- below the wrap the pointer moves on by at least a record
    have hstep := le_stored_record_size (Nat.lt_of_not_le hwrap)
    have hmove : end_ptr - (record_ptr + (stored_record_size (record_size b record_ptr)).toNat)
        < fuel := by
      simp only [syscallbuf_record_size] at hsize
      omega
    rcases dump_loop_isSome_or_forever _ (printed ++ [record_ptr]) hmove with hsome | hnever
    · left
      simpa [dump_loop, hlt, hsize] using hsome
    · right
      rintro (_ | fuel')
      · rfl
      · simpa [dump_loop, hlt, hsize] using hnever fuel'

/-- What the loop lists is the records it started with, then records whose
start lies in the window. -/
theorem dump_loop_printed :
    ∀ {fuel record_ptr : Nat} {printed r : List Nat} {out : DumpOutcome},
      dump_loop b end_ptr fuel record_ptr printed = some (r, out) →
        ∃ new, r = printed ++ new ∧ ∀ q ∈ new, record_ptr ≤ q ∧ q < end_ptr
  | 0, _, _, _, _, h => by cases h
  | fuel + 1, record_ptr, printed, r, out, h => by
    rw [dump_loop] at h
    by_cases hlt : record_ptr < end_ptr
    case neg =>
      rw [if_neg hlt] at h
      cases h
      exact ⟨[], by simp, by simp⟩
    case pos =>
    rw [if_pos hlt] at h
    dsimp only at h
    split at h
    · cases h
      exact ⟨[record_ptr], rfl, by simpa using hlt⟩
    · obtain ⟨new, rfl, hnew⟩ := dump_loop_printed h
      refine ⟨record_ptr :: new, by simp, ?_⟩
      rintro q (_ | ⟨_, hq⟩)
      · exact ⟨le_rfl, hlt⟩
      · have := hnew q hq
        omega

end Loop

/-! ## The listing -/

/-- The listing of a flush ends with enough fuel, or never. -/
theorem dump_syscallbuf_data_isSome_or_forever (b : RawData) :
    (dump_syscallbuf_data true b ((num_rec_bytes b).toNat + 1)).isSome ∨
      ∀ fuel, dump_syscallbuf_data true b fuel = none := by
  simp only [dump_syscallbuf_data, Bool.not_true, Bool.false_eq_true, if_false]
  split
  · simp
  · exact dump_loop_isSome_or_forever b _ _ _ (by omega)

/-- A flush of one recorded record whose size field is `0xFFFFFFF9`: the header
says 16 recorded bytes, and the record fills them. -/
def wrapped_record_flush : RawData :=
  ⟨[16, 0, 0, 0] ++ List.replicate 26 0 ++ List.replicate 12 0 ++ [0xF9, 0xFF, 0xFF, 0xFF],
    fun _ => 0, by decide⟩

/-- The size passes the check, its stored size wraps to `0`, and the listing
prints the same record for ever, though the data is well inside its bounds. -/
theorem dump_never_ends_on_wrapped_record_size :
    wrapped_record_flush.data.length = syscallbuf_hdr_size + syscallbuf_record_size ∧
      ∀ fuel, dump_syscallbuf_data true wrapped_record_flush fuel = none := by
  refine ⟨rfl, fun fuel => ?_⟩
  have hsize : (record_size wrapped_record_flush syscallbuf_hdr_size).toNat = 0xFFFFFFF9 := by
    decide
  simp only [dump_syscallbuf_data, Bool.not_true, Bool.false_eq_true, if_false]
  rw [if_neg (by decide)]
  exact dump_loop_of_wrap _ _ (by decide) (by omega) fuel []

end RdReplay.Dump
