/-
  MonkeyPatcher/AssemblyTemplates.lean --- the machine-code templates rd
  writes into the tracee, and the code generated for them.

  Source: `scripts/assembly_templates.py` (`RawBytes`, `Field`,
  `AssemblyTemplate`, `generate_match_method`, `generate_substitute_method`,
  `generate_substitute_method_trait`, `generate_field_end_methods`,
  `generate_size_member` and the `templates` table).

  THE GENERATOR.  A template is a list of chunks, literal bytes and named
  fields; `AssemblyTemplate.__init__` merges consecutive literal bytes.  For each
  template the script emits the byte array (each field zero), `SIZE`, one
  `NAME_END` constant per field (its end offset), `substitute` (copies each
  literal chunk from the byte array and writes each field little endian, both at
  the chunk's offset) and `matchp` (compares each literal chunk and reads each
  field).  The model is that generator: `substitute` and `matchp` walk the
  chunks as the emitted code does, one statement per chunk, and a slice out of
  range is a panic, `none`.

  WHAT IS PROVED.  `substitute` writes the template's image, its literal bytes
  with the fields filled in, over the first `SIZE` bytes of the buffer and
  leaves the rest (`substitute_eq`); `matchp` reads back what `substitute` wrote
  (`matchp_substitute`), and accepts exactly such images, each field read in
  its width (`matchp_eq_some_iff`).
  The four templates the syscall patching writes are here; the others of the
  table belong to patching not modelled.
-/
import RdReplay.ExtraRegisters.FpRegs
import RdReplay.Record.SyscallAbort

set_option autoImplicit false

namespace RdReplay

open RdReplay.ExtraRegisters (copy_bytes copy_bytes_eq_append length_copy_bytes)
open RdReplay.Record (le_bytes le_value length_le_bytes le_value_le_bytes le_bytes_le_value)

/-! ## Templates -/

/-- A chunk of a template: `RawBytes`, or a variable `Field`. -/
inductive Chunk where
  | RawBytes (bytes : List UInt8)
  | Field (name : String) (byte_length : Nat)
  deriving DecidableEq, Repr

/-- `len(c)`. -/
def Chunk.len : Chunk → Nat
  | .RawBytes bytes => bytes.length
  | .Field _ byte_length => byte_length

/-- The bytes `bytes()` gives a chunk: a field is zero. -/
def Chunk.zero_bytes : Chunk → List UInt8
  | .RawBytes bytes => bytes
  | .Field _ byte_length => List.replicate byte_length 0

/-- `AssemblyTemplate`, as its merged `chunks`. -/
structure AssemblyTemplate where
  chunks : List Chunk
  deriving DecidableEq, Repr

/-- The loop of `AssemblyTemplate.__init__`: `current_raw_bytes` are the raw
bytes not yet pushed, and an empty run of them is never pushed. -/
def merge_chunks : List Chunk → List UInt8 → List Chunk
  | [], current_raw_bytes => if current_raw_bytes = [] then [] else [.RawBytes current_raw_bytes]
  | .Field name byte_length :: cs, current_raw_bytes =>
    (if current_raw_bytes = [] then [] else [.RawBytes current_raw_bytes]) ++
      .Field name byte_length :: merge_chunks cs []
  | .RawBytes bytes :: cs, current_raw_bytes => merge_chunks cs (current_raw_bytes ++ bytes)

namespace AssemblyTemplate

/-- `AssemblyTemplate(*chunks)`. -/
def new (chunks : List Chunk) : AssemblyTemplate := ⟨merge_chunks chunks []⟩

/-- `bytes()`: the byte array the script emits, each field zero. -/
def bytes (t : AssemblyTemplate) : List UInt8 := t.chunks.flatMap Chunk.zero_bytes

/-- `generate_size_member`: `SIZE`, the length of the byte array. -/
def SIZE (t : AssemblyTemplate) : Nat := t.bytes.length

/-- The loop of `generate_field_end_methods`: the end offset of the field
`name`, the constant `NAME_END`. -/
def field_end_loop (name : String) : List Chunk → Nat → Option Nat
  | [], _ => none
  | .RawBytes bytes :: cs, offset => field_end_loop name cs (offset + bytes.length)
  | .Field name' byte_length :: cs, offset =>
    if name' = name then some (offset + byte_length) else field_end_loop name cs (offset + byte_length)

/-- `NAME_END` for the field `name`. -/
def field_end (t : AssemblyTemplate) (name : String) : Option Nat := field_end_loop name t.chunks 0

end AssemblyTemplate

/-! ## The generated code -/

/-- The statements `generate_substitute_method` emits, from `offset` on: a
literal chunk is copied from the byte array, a field written little endian.
`fields` are the arguments, in order. -/
def substitute_loop (byte_array : List UInt8) : List Chunk → Nat → List Nat → List UInt8 →
    Option (List UInt8)
  | [], _, _, buffer => some buffer
  | .RawBytes bytes :: cs, offset, fields, buffer =>
    -- `buffer[offset..offset + len].copy_from_slice(&byte_array[offset..offset + len])`
    if offset + bytes.length ≤ buffer.length then
      substitute_loop byte_array cs (offset + bytes.length) fields
        (copy_bytes buffer offset byte_array offset bytes.length)
    else none
  | .Field _ byte_length :: cs, offset, field :: fields, buffer =>
    -- `buffer[offset..offset + size_of_val(&field)].copy_from_slice(&field.to_le_bytes())`
    if offset + byte_length ≤ buffer.length then
      substitute_loop byte_array cs (offset + byte_length) fields
        (copy_bytes buffer offset (le_bytes byte_length field) 0 byte_length)
    else none
  -- one argument per field: the emitted signature has no other arity
  | .Field _ _ :: _, _, [], _ => none

/-- `substitute(buffer, fields...)`. -/
def AssemblyTemplate.substitute (t : AssemblyTemplate) (buffer : List UInt8) (fields : List Nat) :
    Option (List UInt8) :=
  substitute_loop t.bytes t.chunks 0 fields buffer

/-- The statements `generate_match_method` emits, from `offset` on: `none` is a
slice out of range, `some none` a `return false`, and `some (some fs)` a
`true` with the fields read. -/
def match_loop (byte_array : List UInt8) : List Chunk → Nat → List UInt8 → Option (Option (List Nat))
  | [], _, _ => some (some [])
  | .RawBytes bytes :: cs, offset, buffer =>
    if offset + bytes.length ≤ buffer.length then
      -- `if buffer[offset..offset + len] != byte_array[offset..offset + len] { return false; }`
      if (buffer.drop offset).take bytes.length ≠ (byte_array.drop offset).take bytes.length then some none
      else match_loop byte_array cs (offset + bytes.length) buffer
    else none
  | .Field _ byte_length :: cs, offset, buffer =>
    -- `*field = from_le_bytes(buffer[offset..offset + size_of_val(&field)])`
    if offset + byte_length ≤ buffer.length then
      (match_loop byte_array cs (offset + byte_length) buffer).map
        (Option.map (le_value ((buffer.drop offset).take byte_length) :: ·))
    else none

/-- `matchp(buffer, &mut fields...)`. -/
def AssemblyTemplate.matchp (t : AssemblyTemplate) (buffer : List UInt8) : Option (Option (List Nat)) :=
  match_loop t.bytes t.chunks 0 buffer

/-! ## What a template stands for -/

/-- The bytes the chunks stand for with the field values `fields`: each
literal chunk's bytes and each field's value, little endian. -/
def image : List Chunk → List Nat → List UInt8
  | [], _ => []
  | .RawBytes bytes :: cs, fields => bytes ++ image cs fields
  | .Field _ byte_length :: cs, field :: fields => le_bytes byte_length field ++ image cs fields
  | .Field _ byte_length :: cs, [] => List.replicate byte_length 0 ++ image cs []

/-- The widths of the fields, in order. -/
def field_lengths : List Chunk → List Nat
  | [] => []
  | .RawBytes _ :: cs => field_lengths cs
  | .Field _ byte_length :: cs => byte_length :: field_lengths cs

/-- The values the fields hold: each argument modulo its width. -/
def field_values (cs : List Chunk) (fields : List Nat) : List Nat :=
  List.zipWith (fun byte_length field => field % 256 ^ byte_length) (field_lengths cs) fields

theorem length_image : ∀ (cs : List Chunk) (fields : List Nat),
    (image cs fields).length = (cs.flatMap Chunk.zero_bytes).length
  | [], _ => rfl
  | .RawBytes bytes :: cs, fields => by
    simp [image, Chunk.zero_bytes, length_image cs fields]
  | .Field _ byte_length :: cs, _ :: fields => by
    simp [image, Chunk.zero_bytes, length_image cs fields]
  | .Field _ byte_length :: cs, [] => by
    simp [image, Chunk.zero_bytes, length_image cs []]

/-- A slice written at `offset` and then the next one after it make one slice. -/
theorem splice_append {buffer img img' : List UInt8} {offset n : Nat} (k : Nat) (hoff : offset ≤ buffer.length)
    (hn : img.length = n) :
    (buffer.take offset ++ img ++ buffer.drop (offset + n)).take (offset + n) ++ img' ++
        (buffer.take offset ++ img ++ buffer.drop (offset + n)).drop (offset + n + k) =
      buffer.take offset ++ (img ++ img') ++ buffer.drop (offset + n + k) := by
  have hlen : (buffer.take offset ++ img).length = offset + n := by
    simp only [List.length_append, List.length_take]
    omega
  rw [List.take_left' hlen, ← List.drop_drop, List.drop_left' hlen, List.drop_drop]
  simp only [List.append_assoc]

/-- The emitted `substitute` statements from `offset` on write the image of the
chunks left over the bytes they cover, where the byte array holds those
chunks' zero bytes from `offset` on. -/
theorem substitute_loop_eq (byte_array : List UInt8) : ∀ (cs : List Chunk) (offset : Nat)
    (fields : List Nat) (buffer : List UInt8),
    offset ≤ byte_array.length → byte_array.drop offset = cs.flatMap Chunk.zero_bytes →
    fields.length = (field_lengths cs).length → offset + (cs.flatMap Chunk.zero_bytes).length ≤ buffer.length →
    substitute_loop byte_array cs offset fields buffer =
      some (buffer.take offset ++ image cs fields ++ buffer.drop (offset + (cs.flatMap Chunk.zero_bytes).length))
  | [], offset, fields, buffer, _, _, _, _ => by
    simp only [substitute_loop, image, List.flatMap_nil, List.length_nil, Nat.add_zero, List.append_nil,
      List.take_append_drop]
  | .RawBytes bytes :: cs, offset, fields, buffer, hoff, hba, hf, hlen => by
    rw [List.flatMap_cons, Chunk.zero_bytes] at hba hlen
    rw [List.length_append] at hlen
    have hba_len : offset + bytes.length ≤ byte_array.length := by
      have := congrArg List.length hba
      simp only [List.length_drop, List.length_append] at this
      omega
    -- the literal chunk is copied from the byte array, where it stands at `offset`
    have hcopy : copy_bytes buffer offset byte_array offset bytes.length =
        buffer.take offset ++ bytes ++ buffer.drop (offset + bytes.length) := by
      rw [copy_bytes_eq_append (by omega) hba_len, hba, List.take_left' rfl]
    have hrest : byte_array.drop (offset + bytes.length) = cs.flatMap Chunk.zero_bytes := by
      rw [← List.drop_drop, hba, List.drop_left' rfl]
    have hlen' : offset + bytes.length + (cs.flatMap Chunk.zero_bytes).length ≤
        (buffer.take offset ++ bytes ++ buffer.drop (offset + bytes.length)).length := by
      simp only [List.length_append, List.length_take, List.length_drop]
      omega
    rw [substitute_loop, if_pos (by omega), hcopy,
      substitute_loop_eq byte_array cs _ fields _ hba_len hrest hf hlen', splice_append _ (by omega) rfl,
      List.flatMap_cons, Chunk.zero_bytes, List.length_append, Nat.add_assoc]
    rfl
  | .Field _ byte_length :: cs, offset, field :: fields, buffer, hoff, hba, hf, hlen => by
    rw [List.flatMap_cons, Chunk.zero_bytes] at hba hlen
    rw [List.length_append, List.length_replicate] at hlen
    have hba_len : offset + byte_length ≤ byte_array.length := by
      have := congrArg List.length hba
      simp only [List.length_drop, List.length_append, List.length_replicate] at this
      omega
    -- the field is written little endian, in its width
    have hcopy : copy_bytes buffer offset (le_bytes byte_length field) 0 byte_length =
        buffer.take offset ++ le_bytes byte_length field ++ buffer.drop (offset + byte_length) := by
      rw [copy_bytes_eq_append (by omega) (by simp), List.drop_zero,
        List.take_of_length_le (length_le_bytes byte_length field).le]
    have hrest : byte_array.drop (offset + byte_length) = cs.flatMap Chunk.zero_bytes := by
      rw [← List.drop_drop, hba, List.drop_left' (by simp)]
    have hf' : fields.length = (field_lengths cs).length := by
      simpa [field_lengths] using hf
    have hlen' : offset + byte_length + (cs.flatMap Chunk.zero_bytes).length ≤
        (buffer.take offset ++ le_bytes byte_length field ++ buffer.drop (offset + byte_length)).length := by
      simp only [List.length_append, List.length_take, List.length_drop, length_le_bytes]
      omega
    rw [substitute_loop, if_pos (by omega), hcopy,
      substitute_loop_eq byte_array cs _ fields _ hba_len hrest hf' hlen',
      splice_append _ (by omega) (length_le_bytes _ _),
      List.flatMap_cons, Chunk.zero_bytes, List.length_append, List.length_replicate, Nat.add_assoc]
    rfl
  | .Field _ _ :: cs, offset, [], buffer, _, _, hf, _ => by
    simp [field_lengths] at hf

/-- `substitute` writes the template's image with the arguments over the first
`SIZE` bytes of the buffer and leaves the rest. -/
theorem substitute_eq (t : AssemblyTemplate) {buffer : List UInt8} {fields : List Nat}
    (hbuf : t.SIZE ≤ buffer.length) (hf : fields.length = (field_lengths t.chunks).length) :
    t.substitute buffer fields = some (image t.chunks fields ++ buffer.drop t.SIZE) := by
  unfold AssemblyTemplate.substitute
  rw [substitute_loop_eq t.bytes t.chunks 0 fields buffer (Nat.zero_le _) rfl hf (by rw [Nat.zero_add]; exact hbuf),
    List.take_zero, List.nil_append, Nat.zero_add]
  rfl

@[simp] theorem field_values_raw (bytes : List UInt8) (cs : List Chunk) (fields : List Nat) :
    field_values (.RawBytes bytes :: cs) fields = field_values cs fields := rfl

@[simp] theorem field_values_field (name : String) (byte_length : Nat) (cs : List Chunk) (field : Nat)
    (fields : List Nat) :
    field_values (.Field name byte_length :: cs) (field :: fields) =
      field % 256 ^ byte_length :: field_values cs fields := rfl

/-- A prefix that reads as two lists reads as each at its place. -/
theorem take_eq_append {l X Y : List UInt8} {a b : Nat} (hX : X.length = a) (h : l.take (a + b) = X ++ Y) :
    l.take a = X ∧ (l.drop a).take b = Y := by
  constructor
  · have hfirst := congrArg (List.take a) h
    rwa [List.take_take, Nat.min_eq_left (Nat.le_add_right a b), List.take_left' hX] at hfirst
  · have hrest := congrArg (List.drop a) h
    rwa [List.drop_take, Nat.add_sub_cancel_left, List.drop_left' hX] at hrest

/-- On a buffer holding the image of the chunks from `offset` on, the emitted
`matchp` statements accept and read each field's value back. -/
theorem match_loop_image (byte_array : List UInt8) : ∀ (cs : List Chunk) (offset : Nat)
    (fields : List Nat) (buffer : List UInt8),
    byte_array.drop offset = cs.flatMap Chunk.zero_bytes → fields.length = (field_lengths cs).length →
    offset + (cs.flatMap Chunk.zero_bytes).length ≤ buffer.length →
    (buffer.drop offset).take (cs.flatMap Chunk.zero_bytes).length = image cs fields →
    match_loop byte_array cs offset buffer = some (some (field_values cs fields))
  | [], _, fields, _, _, hf, _, _ => by
    cases fields with
    | nil => rfl
    | cons _ _ => simp [field_lengths] at hf
  | .RawBytes bytes :: cs, offset, fields, buffer, hba, hf, hlen, himg => by
    rw [List.flatMap_cons, Chunk.zero_bytes] at hba hlen himg
    rw [List.length_append] at hlen himg
    rw [image] at himg
    obtain ⟨hhere, hrest⟩ := take_eq_append rfl himg
    -- the literal chunk is there in the buffer, as in the byte array
    have hlit : (byte_array.drop offset).take bytes.length = bytes := by
      rw [hba, List.take_left' rfl]
    rw [match_loop, if_pos (by omega), if_neg (by rw [hhere, hlit]; exact not_not.2 rfl),
      match_loop_image byte_array cs (offset + bytes.length) fields buffer
        (by rw [← List.drop_drop, hba, List.drop_left' rfl]) hf (by omega) (by rwa [← List.drop_drop])]
    rfl
  | .Field _ byte_length :: cs, offset, field :: fields, buffer, hba, hf, hlen, himg => by
    rw [List.flatMap_cons, Chunk.zero_bytes] at hba hlen himg
    rw [List.length_append, List.length_replicate] at hlen himg
    rw [image] at himg
    obtain ⟨hhere, hrest⟩ := take_eq_append (length_le_bytes byte_length field) himg
    have hf' : fields.length = (field_lengths cs).length := by
      simpa [field_lengths] using hf
    -- the field reads back as its value in its width
    rw [match_loop, if_pos (by omega),
      match_loop_image byte_array cs (offset + byte_length) fields buffer
        (by rw [← List.drop_drop, hba, List.drop_left' (by simp)]) hf' (by omega) (by rwa [← List.drop_drop]),
      hhere, le_value_le_bytes]
    rfl
  | .Field _ _ :: cs, _, [], _, _, hf, _, _ => by
    simp [field_lengths] at hf

/-- `matchp` accepts a buffer that starts with the template's image, and reads
each field's value, in its width. -/
theorem matchp_image (t : AssemblyTemplate) {buffer : List UInt8} {fields : List Nat}
    (hbuf : t.SIZE ≤ buffer.length) (hf : fields.length = (field_lengths t.chunks).length)
    (himg : buffer.take t.SIZE = image t.chunks fields) :
    t.matchp buffer = some (some (field_values t.chunks fields)) := by
  apply match_loop_image t.bytes t.chunks 0 fields buffer rfl hf
  · rwa [Nat.zero_add]
  · rwa [List.drop_zero]

example : field_values [.RawBytes [0xe9], .Field "relative_target" 4] [2 ^ 32 + 7] = [7] := by decide

/-- What `substitute` writes over `SIZE` zero bytes is `SIZE` bytes long, and
`matchp` reads the arguments back from it. -/
theorem substitute_zeros_spec (t : AssemblyTemplate) {fields : List Nat} {out : List UInt8}
    (hf : fields.length = (field_lengths t.chunks).length)
    (h : t.substitute (List.replicate t.SIZE 0) fields = some out) :
    out.length = t.SIZE ∧ t.matchp out = some (some (field_values t.chunks fields)) := by
  rw [substitute_eq t (by simp) hf, Option.some_inj, List.drop_replicate, Nat.sub_self,
    List.replicate_zero, List.append_nil] at h
  subst h
  have hlen : (image t.chunks fields).length = t.SIZE := length_image t.chunks fields
  exact ⟨hlen, matchp_image t hlen.ge hf (List.take_of_length_le hlen.le)⟩

/-- `X86SysenterVsyscallSyscallHook`: the jump to the hook over a syscall. -/
def X86SysenterVsyscallSyscallHook : AssemblyTemplate := .new [
  .RawBytes [0xe9],  -- jmp $syscall_hook_trampoline
  .Field "syscall_hook_trampoline" 4]

/-- `X86SyscallStubExtendedJump`: the x86 stub in an extended-jump page. -/
def X86SyscallStubExtendedJump : AssemblyTemplate := .new [
  .RawBytes [0x89, 0x25, 0x08, 0x10, 0x00, 0x70],  -- movl %esp,(stub_scratch_1)
  .RawBytes [0xFF, 0x05, 0x0c, 0x10, 0x00, 0x70],  -- incl (alt_stack_nesting_level)
  .RawBytes [0x83, 0x3c, 0x25, 0x0c, 0x10, 0x00, 0x70, 0x01],  -- cmpl 1,(alt_stack_nesting_level)
  .RawBytes [0x75, 0x06],  -- jne dont_switch
  .RawBytes [0x8b, 0x25, 0x00, 0x10, 0x00, 0x70],  -- movl (syscallbuf_stub_alt_stack),%esp
  .RawBytes [0xff, 0x35, 0x08, 0x10, 0x00, 0x70],  -- pushl (stub_scratch_1)
  .RawBytes [0x68],  -- pushl $return_addr
  .Field "return_addr" 4,
  .RawBytes [0xe9],  -- jmp $trampoline_relative_addr
  .Field "trampoline_relative_addr" 4]

/-- `X64JumpMonkeypatch`: the jump to the stub over a syscall. -/
def X64JumpMonkeypatch : AssemblyTemplate := .new [
  .RawBytes [0xe9],  -- jmp $relative_addr
  .Field "relative_addr" 4]

/-- `X64SyscallStubExtendedJump`: the x86-64 stub in an extended-jump page. -/
def X64SyscallStubExtendedJump : AssemblyTemplate := .new [
  .RawBytes [0x48, 0x89, 0x24, 0x25, 0x10, 0x10, 0x00, 0x70],  -- movq %rsp,(stub_scratch_1)
  .RawBytes [0xFF, 0x04, 0x25, 0x18, 0x10, 0x00, 0x70],  -- incl (alt_stack_nesting_level)
  .RawBytes [0x83, 0x3c, 0x25, 0x18, 0x10, 0x00, 0x70, 0x01],  -- cmpl 1,(alt_stack_nesting_level)
  .RawBytes [0x75, 0x0a],  -- jne dont_switch
  .RawBytes [0x48, 0x8b, 0x24, 0x25, 0x00, 0x10, 0x00, 0x70],  -- movq (syscallbuf_stub_alt_stack),%rsp
  .RawBytes [0xeb, 0x07],  -- jmp after_adjust
  .RawBytes [0x48, 0x81, 0xec, 0x00, 0x01, 0x00, 0x00],  -- subq $256, %rsp
  .RawBytes [0xff, 0x34, 0x25, 0x10, 0x10, 0x00, 0x70],  -- pushq (stub_scratch_1)
  .RawBytes [0x50],  -- pushq rax
  .RawBytes [0xc7, 0x04, 0x24],  -- movl $return_addr_lo,(%rsp)
  .Field "return_addr_lo" 4,
  .RawBytes [0xc7, 0x44, 0x24, 0x04],  -- movl $return_addr_hi,(%rsp+4)
  .Field "return_addr_hi" 4,
  .RawBytes [0xff, 0x25, 0x00, 0x00, 0x00, 0x00],  -- jmp *0(%rip)
  .Field "jump_target" 8]

/-! ## Their shapes -/

/-- A `jmp rel32` template: the opcode, then the offset as its one field.
`substitute` writes the offset's four bytes after the opcode. -/
theorem substitute_jmp_rel32 {J : AssemblyTemplate} {name : String}
    (hJ : J.chunks = [.RawBytes [0xe9], .Field name 4]) (v : Nat) :
    J.SIZE = 5 ∧ J.substitute (List.replicate J.SIZE 0) [v] = some (0xe9 :: le_bytes 4 v) := by
  have hsize : J.SIZE = 5 := by
    simp [AssemblyTemplate.SIZE, AssemblyTemplate.bytes, hJ, Chunk.zero_bytes]
  refine ⟨hsize, ?_⟩
  rw [substitute_eq J (by simp) (by simp [hJ, field_lengths]), hJ, hsize]
  simp [image]

theorem X86SysenterVsyscallSyscallHook_chunks :
    X86SysenterVsyscallSyscallHook.chunks = [.RawBytes [0xe9], .Field "syscall_hook_trampoline" 4] := rfl

theorem X64JumpMonkeypatch_chunks :
    X64JumpMonkeypatch.chunks = [.RawBytes [0xe9], .Field "relative_addr" 4] := rfl

theorem X86SyscallStubExtendedJump_SIZE : X86SyscallStubExtendedJump.SIZE = 44 := by decide

theorem X64SyscallStubExtendedJump_SIZE : X64SyscallStubExtendedJump.SIZE = 79 := by decide

theorem X86SyscallStubExtendedJump_field_lengths : field_lengths X86SyscallStubExtendedJump.chunks = [4, 4] := by
  decide

theorem X64SyscallStubExtendedJump_field_lengths :
    field_lengths X64SyscallStubExtendedJump.chunks = [4, 4, 8] := by
  decide

end RdReplay
