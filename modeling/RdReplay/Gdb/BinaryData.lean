/-
  Gdb/BinaryData.lean --- the escaping of binary data in gdb packets.

  Source: `gdb_connection.rs`: `write_binary_packet` and `read_binary_data`.

  THE ESCAPE.  `write_binary_packet` writes each of `#`, `$`, `}` and `*` as
  `}` followed by the byte xor `0x20`, and every other byte as it is.
  `read_binary_data` takes a `}` as the start of an escape whatever byte
  follows it; a `}` that ends the payload stops it at its `parser_assert!`,
  here `none`.  Decoding undoes escaping for every byte string
  (`read_binary_data_write_binary_packet`).  Escaping undoes decoding exactly
  for the payloads `write_binary_packet` can write (`escaped`): their escapes
  are of the four bytes it escapes, and no `#`, `$` or `*` stands unescaped.
  Another escape decodes to a byte written back as itself: `}a` decodes to
  `A` (`escape_of_plain_byte_not_kept`).
-/
import RdReplay.Gdb.Connection

set_option autoImplicit false

namespace RdReplay

namespace Gdb

/-- `}`, the escape byte. -/
def ESCAPE : UInt8 := 0x7d

/-- `*`. -/
def STAR : UInt8 := 0x2a

/-- The bytes `write_binary_packet` escapes: `#`, `$`, `}` and `*`. -/
def needs_escape (b : UInt8) : Bool :=
  b == HASH || b == DOLLAR || b == ESCAPE || b == STAR

/-- `write_binary_packet`: the body of the packet, `pfx` followed by `data`
with each byte that needs it escaped. -/
def write_binary_packet (pfx data : List UInt8) : List UInt8 :=
  data.foldl (fun buf b => if needs_escape b then buf ++ [ESCAPE, b ^^^ 0x20] else buf ++ [b]) pfx

/-- `read_binary_data`: each escape replaced by the byte it stands for;
`none` is the `parser_assert!` on a `}` with no byte after it. -/
def read_binary_data : List UInt8 → Option (List UInt8)
  | [] => some []
  | [b] => if b = ESCAPE then none else some [b]
  | b :: nb :: rest =>
    if b = ESCAPE then (read_binary_data rest).map ((0x20 ^^^ nb) :: ·)
    else (read_binary_data (nb :: rest)).map (b :: ·)

/-! ## Escaping one byte at a time -/

/-- How `write_binary_packet` writes one byte. -/
def escape_byte (b : UInt8) : List UInt8 :=
  if needs_escape b then [ESCAPE, b ^^^ 0x20] else [b]

/-- The body is the prefix and then each byte's escape. -/
theorem write_binary_packet_eq (pfx data : List UInt8) :
    write_binary_packet pfx data = pfx ++ data.flatMap escape_byte := by
  induction data generalizing pfx with
  | nil => simp [write_binary_packet]
  | cons b data ih =>
    have hstep : write_binary_packet pfx (b :: data) = write_binary_packet (pfx ++ escape_byte b) data := by
      by_cases h : needs_escape b <;> simp [write_binary_packet, escape_byte, h]
    rw [hstep, ih, List.flatMap_cons, List.append_assoc]

theorem write_binary_packet_cons (b : UInt8) (data : List UInt8) :
    write_binary_packet [] (b :: data) = escape_byte b ++ write_binary_packet [] data := by
  rw [write_binary_packet_eq, write_binary_packet_eq, List.flatMap_cons, List.nil_append, List.nil_append]

theorem needs_escape_ESCAPE : needs_escape ESCAPE = true := rfl

/-- A byte other than `}` is read as itself. -/
theorem read_binary_data_cons_of_ne {b : UInt8} (hb : b ≠ ESCAPE) (rest : List UInt8) :
    read_binary_data (b :: rest) = (read_binary_data rest).map (b :: ·) := by
  cases rest with
  | nil => simp [read_binary_data, hb]
  | cons nb rest => simp [read_binary_data, hb]

/-- An escaped byte is read back, whatever follows it. -/
theorem read_binary_data_escape_byte (b : UInt8) (rest : List UInt8) :
    read_binary_data (escape_byte b ++ rest) = (read_binary_data rest).map (b :: ·) := by
  unfold escape_byte
  split
  · simp [read_binary_data]
  · rename_i hb
    have hne : b ≠ ESCAPE := fun h => hb (h ▸ needs_escape_ESCAPE)
    exact read_binary_data_cons_of_ne hne rest

/-- Decoding undoes escaping, for every byte string. -/
theorem read_binary_data_write_binary_packet (data : List UInt8) :
    read_binary_data (write_binary_packet [] data) = some data := by
  induction data with
  | nil => rfl
  | cons b data ih => rw [write_binary_packet_cons, read_binary_data_escape_byte, ih, Option.map_some]


/-! ## Which payloads escaping gives back -/

/-- A payload in the form `write_binary_packet` writes: each `}` is followed
by one of `#`, `$`, `}`, `*` xor `0x20`, and no other of the four stands
alone. -/
def escaped : List UInt8 → Bool
  | [] => true
  | [b] => !needs_escape b
  | b :: nb :: rest =>
    if b = ESCAPE then needs_escape (nb ^^^ 0x20) && escaped rest
    else !needs_escape b && escaped (nb :: rest)

theorem escaped_cons_of_not_needs {b : UInt8} (hb : needs_escape b = false) (rest : List UInt8) :
    escaped (b :: rest) = escaped rest := by
  have hne : b ≠ ESCAPE := fun h => by rw [h, needs_escape_ESCAPE] at hb; cases hb
  cases rest with
  | nil => simp [escaped, hb]
  | cons nb rest => simp [escaped, hb, hne]

/-- What `write_binary_packet` writes is `escaped`. -/
theorem escaped_write_binary_packet (data : List UInt8) : escaped (write_binary_packet [] data) = true := by
  induction data with
  | nil => rfl
  | cons b data ih =>
    rw [write_binary_packet_cons]
    cases hb : needs_escape b
    · rw [show escape_byte b = [b] by simp [escape_byte, hb], List.singleton_append,
        escaped_cons_of_not_needs hb, ih]
    · rw [show escape_byte b = [ESCAPE, b ^^^ 0x20] by simp [escape_byte, hb]]
      simp [escaped, hb, ih]

/-- An `escaped` payload is what `write_binary_packet` writes for what it
decodes to. -/
theorem write_binary_packet_of_escaped : ∀ e : List UInt8, escaped e = true →
    ∃ data, read_binary_data e = some data ∧ write_binary_packet [] data = e
  | [], _ => ⟨[], rfl, rfl⟩
  | [b], h => by
    have hb : needs_escape b = false := by simpa [escaped] using h
    have hne : b ≠ ESCAPE := fun h => by rw [h, needs_escape_ESCAPE] at hb; cases hb
    refine ⟨[b], by simp [read_binary_data, hne], ?_⟩
    simp [write_binary_packet, hb]
  | b :: nb :: rest, h => by
    by_cases hesc : b = ESCAPE
    -- an escape of one of the four bytes, then the rest
    · simp only [escaped, hesc, if_true, Bool.and_eq_true] at h
      obtain ⟨d, hd, hwrite⟩ := write_binary_packet_of_escaped rest h.2
      have hx : needs_escape (0x20 ^^^ nb) = true := by rw [UInt8.xor_comm]; exact h.1
      refine ⟨(0x20 ^^^ nb) :: d, by simp [read_binary_data, hesc, hd], ?_⟩
      rw [write_binary_packet_cons, hwrite, hesc]
      simp [escape_byte, hx]
    -- a byte that needs no escape, then the rest
    · simp only [escaped, hesc, if_false, Bool.and_eq_true, Bool.not_eq_true'] at h
      obtain ⟨d, hd, hwrite⟩ := write_binary_packet_of_escaped (nb :: rest) h.2
      refine ⟨b :: d, by rw [read_binary_data_cons_of_ne hesc, hd, Option.map_some], ?_⟩
      rw [write_binary_packet_cons, hwrite]
      simp [escape_byte, h.1]

/-- Decoding undoes escaping for every byte string, and escaping undoes
decoding exactly for the payloads in the form `write_binary_packet`
writes. -/
theorem binary_escaping_round_trips :
    (∀ data, read_binary_data (write_binary_packet [] data) = some data) ∧
      ∀ e, (∃ data, read_binary_data e = some data ∧ write_binary_packet [] data = e) ↔ escaped e = true :=
  ⟨read_binary_data_write_binary_packet, fun e =>
    ⟨fun ⟨data, _, hwrite⟩ => hwrite ▸ escaped_write_binary_packet data, write_binary_packet_of_escaped e⟩⟩

/-- An escaped `#` decodes to `#` and is written back as it was. -/
theorem escaped_hash_round_trip :
    read_binary_data (write_binary_packet [] [HASH]) = some [HASH] ∧ escaped [ESCAPE, 0x03] = true ∧
      read_binary_data [ESCAPE, 0x03] = some [HASH] ∧ write_binary_packet [] [HASH] = [ESCAPE, 0x03] :=
  ⟨binary_escaping_round_trips.1 [HASH], by decide, by decide, by decide⟩

/-- `}a`: its `}` is followed by a byte and it has no `#`, `$` or `*`, yet it
decodes to `A`, which is written back as `A`. -/
theorem escape_of_plain_byte_not_kept :
    read_binary_data [ESCAPE, 0x61] = some [0x41] ∧ write_binary_packet [] [0x41] = [0x41] ∧
      escaped [ESCAPE, 0x61] = false := by
  decide

end Gdb

end RdReplay
