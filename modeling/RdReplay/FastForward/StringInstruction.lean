/-
  FastForward/StringInstruction.lean --- the two recognisers of REP-prefixed
  x86 string instructions that fast-forwarding uses.

  Source: `fast_forward.rs`: `InstructionBuf`, `read_instruction`,
  `DecodedInstruction`, `decode_x86_string_instruction`, `is_ignorable_prefix`,
  `is_rep_prefix`, `is_string_instruction`, `fallible_read_byte` and
  `is_string_instruction_at`; `session/task/task_common.rs`:
  `read_bytes_fallible_common` (the `mem_fd` path).

  THE DECODER walks `code_buf[0..code_buf_len]`.  Each byte is a prefix it
  records (`66`, `67`, `F2`, `F3`, and `48` on x86-64), a string opcode that
  ends the walk, or anything else, which fails.  After the walk it fails
  unless it saw `F2` or `F3`, and takes `code_buf[last_i]` as the opcode,
  `last_i` being the last index the walk reached.  A buffer of prefixes alone
  therefore decodes, its last prefix standing for the opcode
  (`decode_ok_iff`); `read_instruction` makes such a buffer when the bytes
  after the prefixes cannot be read.

  THE SECOND RECOGNISER reads the tracee byte by byte, skipping a wider set
  of prefixes, until a string opcode, another byte or an unreadable address.
  Its loop has no bound of its own, so the model runs it on fuel and says
  "not finished" when the fuel runs out.

  THE MEMORY is the `TraceeMemory` of the breakpoint model.  `read_bytes_fallible`
  reads up to the first unmapped byte and fails only when it reads none.
-/
import RdReplay.Breakpoint.Basic

set_option autoImplicit false

namespace RdReplay

namespace FastForward

/-! ## The instruction buffer -/

/-- `InstructionBuf`: the bytes read at an instruction pointer.  `code_buf` is a
`[u8; 32]`, of which the first `code_buf_len` were read. -/
structure InstructionBuf where
  arch : SupportedArch
  code_buf : List UInt8
  code_buf_len : Nat
  code_buf_size : code_buf.length = 32
  len_le : code_buf_len ≤ 32

/-- `read_bytes_fallible` into a buffer of `n` bytes: how many bytes from
`addr` on are mapped, stopping at the first that is not. -/
def readable_len (m : TraceeMemory) (addr : Nat) : Nat → Nat
  | 0 => 0
  | n + 1 => if m.mapped addr then readable_len m (addr + 1) n + 1 else 0

theorem readable_len_le (m : TraceeMemory) : ∀ (n addr : Nat), readable_len m addr n ≤ n
  | 0, _ => le_rfl
  | n + 1, addr => by
    unfold readable_len
    split
    · exact Nat.succ_le_succ (readable_len_le m n (addr + 1))
    · exact Nat.zero_le _

/-- `read_instruction`: read up to 32 bytes at `ip`; fails when none can be read. -/
def read_instruction (arch : SupportedArch) (m : TraceeMemory) (ip : Nat) : Except Unit InstructionBuf :=
  let len := readable_len m ip 32
  if len = 0 then .error ()
  else .ok
    { arch
      code_buf := List.ofFn fun i : Fin 32 => if i.val < len then m.bytes (ip + i.val) else 0
      code_buf_len := len
      code_buf_size := List.length_ofFn
      len_le := readable_len_le m 32 ip }

/-! ## `decode_x86_string_instruction` -/

/-- `DecodedInstruction`. -/
structure DecodedInstruction where
  operand_size : Nat
  address_size : Nat
  length : Nat
  modifies_flags : Bool
  uses_si : Bool
  deriving DecidableEq, Repr

/-- The locals of `decode_x86_string_instruction` that its loop writes. -/
structure DecodeState where
  found_operand_prefix : Bool
  found_address_prefix : Bool
  found_REP_prefix : Bool
  found_REXW_prefix : Bool
  modifies_flags : Bool
  uses_si : Bool
  last_i : Nat
  deriving DecidableEq, Repr

/-- The locals before the loop. -/
def DecodeState.init : DecodeState := ⟨false, false, false, false, false, false, 0⟩

/-- The `match` on one byte: the new locals and `done`, or `return Err(())`. -/
def decode_byte (arch : SupportedArch) (st : DecodeState) (b : UInt8) :
    Except Unit (DecodeState × Bool) :=
  match b.toNat with
  | 0x66 => .ok ({ st with found_operand_prefix := true }, false)
  | 0x67 => .ok ({ st with found_address_prefix := true }, false)
  | 0x48 => if arch = .X64 then .ok ({ st with found_REXW_prefix := true }, false) else .error ()
  | 0xF2 | 0xF3 => .ok ({ st with found_REP_prefix := true }, false)
  -- MOVSB, MOVSW
  | 0xA4 | 0xA5 => .ok ({ st with uses_si := true }, true)
  -- STOSB, STOSW, LODSB, LODSW
  | 0xAA | 0xAB | 0xAC | 0xAD => .ok (st, true)
  -- CMPSB, CMPSW
  | 0xA6 | 0xA7 => .ok ({ st with modifies_flags := true, uses_si := true }, true)
  -- SCASB, SCASW
  | 0xAE | 0xAF => .ok ({ st with modifies_flags := true }, true)
  | _ => .error ()

/-- The `for i in 0..code_buf_len` loop over the bytes from index `i` on. -/
def decode_loop (arch : SupportedArch) : List UInt8 → Nat → DecodeState → Except Unit DecodeState
  | [], _, st => .ok st
  | b :: rest, i, st =>
    match decode_byte arch { st with last_i := i } b with
    | .error e => .error e
    | .ok (st, done) => if done then .ok st else decode_loop arch rest (i + 1) st

/-- `decode_x86_string_instruction`. -/
def decode_x86_string_instruction (code : InstructionBuf) : Except Unit DecodedInstruction :=
  match decode_loop code.arch (code.code_buf.take code.code_buf_len) 0 .init with
  | .error e => .error e
  | .ok st =>
    if !st.found_REP_prefix then .error ()
    else .ok
      { operand_size :=
          if code.code_buf.getD st.last_i 0 &&& 1 != 0 then
            if st.found_REXW_prefix then 8 else if st.found_operand_prefix then 2 else 4
          else 1
        address_size := if st.found_address_prefix then 4 else 8
        length := st.last_i + 1
        modifies_flags := st.modifies_flags
        uses_si := st.uses_si }

/-! ## `is_string_instruction_at` -/

/-- `is_ignorable_prefix`: REX on x86-64, segment overrides, `66`, `67` and `LOCK`. -/
def is_ignorable_prefix (arch : SupportedArch) (byte : UInt8) : Bool :=
  if byte ≥ 0x40 ∧ byte ≤ 0x4f then arch = .X64
  else byte = 0x26 || byte = 0x2E || byte = 0x36 || byte = 0x3E || byte = 0x64 ||
    byte = 0x65 || byte = 0x66 || byte = 0x67 || byte = 0xF0

/-- `is_rep_prefix`. -/
def is_rep_prefix (byte : UInt8) : Bool := byte = 0xF2 || byte = 0xF3

/-- `is_string_instruction`: MOVS, CMPS, STOS, LODS and SCAS in both widths. -/
def is_string_instruction (byte : UInt8) : Bool :=
  byte = 0xA4 || byte = 0xA5 || byte = 0xA6 || byte = 0xA7 || byte = 0xAA ||
    byte = 0xAB || byte = 0xAC || byte = 0xAD || byte = 0xAE || byte = 0xAF

/-- The `loop` of `is_string_instruction_at` from `bare_ip`, on fuel: `none`
when the fuel runs out before the loop returns. -/
def is_string_instruction_at_loop (arch : SupportedArch) (m : TraceeMemory) :
    Nat → Bool → Nat → Option Bool
  | 0, _, _ => none
  | fuel + 1, found_rep, bare_ip =>
    match m.read_byte bare_ip with
    | none => some false
    | some byte =>
      if is_rep_prefix byte then is_string_instruction_at_loop arch m fuel true (wrapping_add bare_ip 1)
      else if is_string_instruction byte then some found_rep
      else if ! is_ignorable_prefix arch byte then some false
      else is_string_instruction_at_loop arch m fuel found_rep (wrapping_add bare_ip 1)

/-- `is_string_instruction_at`, run for at most `fuel` bytes. -/
def is_string_instruction_at (arch : SupportedArch) (m : TraceeMemory) (fuel ip : Nat) : Option Bool :=
  is_string_instruction_at_loop arch m fuel false ip

/-! ## The grammar

The grammar of a REP string instruction: the prefixes and opcodes rd fast-forwards,
stated apart from both recognisers. -/

/-- A prefix the grammar allows before the opcode: `66`, `67`, `F2`, `F3`, and
`48` (REX.W) on x86-64. -/
def grammar_prefix (arch : SupportedArch) (b : UInt8) : Bool :=
  b = 0x66 || b = 0x67 || is_rep_prefix b || (arch = .X64 && b = 0x48)

/-- The bytes read are the grammar's prefixes `pre`, one of them a REP, then the
string opcode `op`. -/
structure StringInsn (arch : SupportedArch) (bytes pre : List UInt8) (op : UInt8) : Prop where
  split : ∃ rest, bytes = pre ++ op :: rest
  prefixes : ∀ b ∈ pre, grammar_prefix arch b = true
  rep : ∃ b ∈ pre, is_rep_prefix b = true
  opcode : is_string_instruction op = true

/-- What the decoder is to make of the prefixes `pre` and the opcode
`op`: one byte per operand for an even opcode, else 8, 2 or 4 after REX.W, `66`
or neither; CMPS and SCAS change flags, MOVS and CMPS read through SI. -/
def decoded_of (pre : List UInt8) (op : UInt8) : DecodedInstruction where
  operand_size :=
    if op.toNat % 2 = 0 then 1
    else if (0x48 : UInt8) ∈ pre then 8 else if (0x66 : UInt8) ∈ pre then 2 else 4
  address_size := if (0x67 : UInt8) ∈ pre then 4 else 8
  length := pre.length + 1
  modifies_flags := op = 0xA6 || op = 0xA7 || op = 0xAE || op = 0xAF
  uses_si := op = 0xA4 || op = 0xA5 || op = 0xA6 || op = 0xA7

/-- The bytes read are all prefixes of the grammar's set, one of them a REP, with
no opcode after them. -/
def PrefixesOnly (arch : SupportedArch) (bytes : List UInt8) : Prop :=
  bytes ≠ [] ∧ (∀ b ∈ bytes, grammar_prefix arch b = true) ∧ ∃ b ∈ bytes, is_rep_prefix b = true

/-! ## One turn of the decoder's loop -/

/-- What a prefix writes: the flag it stands for. -/
def take_prefix (st : DecodeState) (b : UInt8) : DecodeState :=
  { st with
    found_operand_prefix := st.found_operand_prefix || b = 0x66
    found_address_prefix := st.found_address_prefix || b = 0x67
    found_REP_prefix := st.found_REP_prefix || is_rep_prefix b
    found_REXW_prefix := st.found_REXW_prefix || b = 0x48 }

/-- What an opcode writes: whether it changes flags and reads through SI. -/
def take_opcode (st : DecodeState) (b : UInt8) : DecodeState :=
  { st with
    modifies_flags := st.modifies_flags || b = 0xA6 || b = 0xA7 || b = 0xAE || b = 0xAF
    uses_si := st.uses_si || b = 0xA4 || b = 0xA5 || b = 0xA6 || b = 0xA7 }

theorem eq_ofNat_of_toNat {b : UInt8} {n : Nat} (h : b.toNat = n) : b = UInt8.ofNat n := by
  rw [← h, UInt8.ofNat_toNat]

/-- A turn either takes a prefix of the grammar and goes on, or takes a string
opcode and stops; every other byte fails. -/
theorem decode_byte_cases {arch : SupportedArch} {st st' : DecodeState} {b : UInt8} {done : Bool}
    (h : decode_byte arch st b = .ok (st', done)) :
    ( grammar_prefix arch b = true ∧ done = false ∧ st' = take_prefix st b) ∨
      (is_string_instruction b = true ∧ done = true ∧ st' = take_opcode st b) := by
  unfold decode_byte at h
  -- each arm fixes the byte; the `48` arm also tests the architecture
  split at h
  any_goals split at h
  -- the failing arms close here
  all_goals cases h
  all_goals
    obtain rfl := eq_ofNat_of_toNat ‹b.toNat = _›
    first
    | exact .inl ⟨by cases arch <;> simp_all [ grammar_prefix, is_rep_prefix], rfl,
        by simp [ take_prefix, is_rep_prefix]⟩
    | exact .inr ⟨by decide, rfl, by simp [take_opcode]⟩

theorem decode_byte_of_prefix {arch : SupportedArch} {b : UInt8} (st : DecodeState)
    (h : grammar_prefix arch b = true) : decode_byte arch st b = .ok ( take_prefix st b, false) := by
  simp only [ grammar_prefix, is_rep_prefix, Bool.or_eq_true, Bool.and_eq_true, decide_eq_true_eq] at h
  rcases h with (((rfl | rfl) | rfl | rfl) | ⟨rfl, rfl⟩) <;> simp [decode_byte, take_prefix, is_rep_prefix]

theorem decode_byte_of_opcode {arch : SupportedArch} {b : UInt8} (st : DecodeState)
    (h : is_string_instruction b = true) : decode_byte arch st b = .ok (take_opcode st b, true) := by
  simp only [is_string_instruction, Bool.or_eq_true, decide_eq_true_eq] at h
  rcases h with (((((((((rfl | rfl) | rfl) | rfl) | rfl) | rfl) | rfl) | rfl) | rfl) | rfl) <;>
    simp [decode_byte, take_opcode]

/-! ## The loop -/

/-- The locals after the loop has taken the prefixes `pre`, the first at index `i`. -/
def run_prefixes : List UInt8 → Nat → DecodeState → DecodeState
  | [], _, st => st
  | b :: pre, i, st => run_prefixes pre (i + 1) ( take_prefix { st with last_i := i } b)

theorem run_prefixes_eq : ∀ (pre : List UInt8) (i : Nat) (st : DecodeState),
    run_prefixes pre i st =
      { st with
        found_operand_prefix := st.found_operand_prefix || decide ((0x66 : UInt8) ∈ pre)
        found_address_prefix := st.found_address_prefix || decide ((0x67 : UInt8) ∈ pre)
        found_REP_prefix := st.found_REP_prefix || pre.any is_rep_prefix
        found_REXW_prefix := st.found_REXW_prefix || decide ((0x48 : UInt8) ∈ pre)
        last_i := if pre = [] then st.last_i else i + pre.length - 1 }
  | [], _, st => by simp [run_prefixes]
  | b :: pre, i, st => by
    rw [run_prefixes, run_prefixes_eq pre (i + 1)]
    simp only [ take_prefix, List.mem_cons, List.any_cons, List.length_cons, reduceCtorEq, if_false]
    congr 1 <;> simp [Bool.or_assoc, eq_comm]

/-- A run of prefixes is taken one by one, and the loop goes on after it. -/
theorem decode_loop_prefixes (arch : SupportedArch) : ∀ (pre rest : List UInt8) (i : Nat) (st : DecodeState),
    (∀ b ∈ pre, grammar_prefix arch b = true) →
    decode_loop arch (pre ++ rest) i st = decode_loop arch rest (i + pre.length) (run_prefixes pre i st)
  | [], rest, i, st, _ => rfl
  | b :: pre, rest, i, st, h => by
    have hb := h b List.mem_cons_self
    rw [List.cons_append, decode_loop, decode_byte_of_prefix _ hb]
    simp only [Bool.false_eq_true, if_false]
    rw [decode_loop_prefixes arch pre rest (i + 1) _ fun b' hb' => h b' (List.mem_cons_of_mem _ hb'),
      run_prefixes, List.length_cons, Nat.add_assoc, Nat.add_comm 1]

theorem decode_loop_opcode {arch : SupportedArch} {op : UInt8} (rest : List UInt8) (i : Nat)
    (st : DecodeState) (h : is_string_instruction op = true) :
    decode_loop arch (op :: rest) i st = .ok (take_opcode { st with last_i := i } op) := by
  rw [decode_loop, decode_byte_of_opcode _ h]
  rfl

/-- A loop that succeeds either stopped at a string opcode after a run of the
grammar's prefixes, or took every byte as such a prefix. -/
theorem decode_loop_ok {arch : SupportedArch} : ∀ {bytes : List UInt8} {i : Nat} {st st' : DecodeState},
    decode_loop arch bytes i st = .ok st' →
    (∃ pre op rest, bytes = pre ++ op :: rest ∧ (∀ b ∈ pre, grammar_prefix arch b = true) ∧
      is_string_instruction op = true ∧
      st' = take_opcode { run_prefixes pre i st with last_i := i + pre.length } op) ∨
    ((∀ b ∈ bytes, grammar_prefix arch b = true) ∧ st' = run_prefixes bytes i st)
  | [], i, st, st', h => .inr ⟨by simp, by cases h; rfl⟩
  | b :: rest, i, st, st', h => by
    rw [decode_loop] at h
    split at h
    · cases h
    rename_i st₁ done hb
    rcases decode_byte_cases hb with ⟨hp, rfl, rfl⟩ | ⟨ho, rfl, rfl⟩
    · -- a prefix: the loop goes on from the next index
      simp only [Bool.false_eq_true, if_false] at h
      rcases decode_loop_ok h with ⟨pre, op, rest', rfl, hpre, hop, rfl⟩ | ⟨hall, rfl⟩
      · refine .inl ⟨b :: pre, op, rest', rfl, ?_, hop, ?_⟩
        · intro b' hb'
          rcases List.mem_cons.1 hb' with rfl | hb'
          exacts [hp, hpre b' hb']
        · simp only [run_prefixes, List.length_cons]
          congr 2
          omega
      · refine .inr ⟨?_, rfl⟩
        intro b' hb'
        rcases List.mem_cons.1 hb' with rfl | hb'
        exacts [hp, hall b' hb']
    · -- the opcode ends the loop
      cases h
      exact .inl ⟨[], b, rest, rfl, by simp, ho, by simp [run_prefixes]⟩

/-! ## What the decoder accepts -/

theorem and_one_of_string_instruction {op : UInt8} (h : is_string_instruction op = true) :
    (op &&& 1 != 0) = !decide (op.toNat % 2 = 0) := by
  simp only [is_string_instruction, Bool.or_eq_true, decide_eq_true_eq] at h
  rcases h with (((((((((rfl | rfl) | rfl) | rfl) | rfl) | rfl) | rfl) | rfl) | rfl) | rfl) <;> decide

theorem getD_of_take_eq {code : List UInt8} {len : Nat} {pre rest : List UInt8} {op : UInt8}
    (h : code.take len = pre ++ op :: rest) : code.getD pre.length 0 = op := by
  have hlt : pre.length < len := by
    have := congrArg List.length h
    simp only [List.length_take, List.length_append, List.length_cons] at this
    omega
  have := congrArg (fun l => l.getD pre.length 0) h
  simp only [List.getD_eq_getElem?_getD, List.getElem?_take, if_pos hlt] at this
  simpa using this

theorem length_take_code_buf (code : InstructionBuf) :
    (code.code_buf.take code.code_buf_len).length = code.code_buf_len := by
  rw [List.length_take, code.code_buf_size]
  exact Nat.min_eq_left code.len_le

/-- On an instruction of the grammar the decoder returns `decoded_of`. -/
theorem decode_of_string_insn {code : InstructionBuf} {pre : List UInt8} {op : UInt8}
    (h : StringInsn code.arch (code.code_buf.take code.code_buf_len) pre op) :
    decode_x86_string_instruction code = .ok (decoded_of pre op) := by
  obtain ⟨⟨rest, hsplit⟩, hpre, hrep, hop⟩ := h
  have hk : code.code_buf.getD pre.length 0 = op := getD_of_take_eq hsplit
  have hrep' : pre.any is_rep_prefix = true := List.any_eq_true.2 hrep
  unfold decode_x86_string_instruction
  rw [hsplit, decode_loop_prefixes _ _ _ _ _ hpre, Nat.zero_add, decode_loop_opcode _ _ _ hop]
  simp only [run_prefixes_eq, take_opcode, DecodeState.init, hrep', Bool.false_or, Bool.not_true,
    Bool.false_eq_true, if_false, hk, and_one_of_string_instruction hop, decoded_of]
  simp
  split_ifs <;> omega

/-- A buffer of prefixes alone, one of them a REP, decodes too: its last prefix
stands for the opcode, and the length is the whole buffer. -/
theorem decode_of_prefixes_only {code : InstructionBuf}
    (h : PrefixesOnly code.arch (code.code_buf.take code.code_buf_len)) :
    ∃ d, decode_x86_string_instruction code = .ok d ∧ d.length = code.code_buf_len := by
  obtain ⟨hne, hall, hrep⟩ := h
  have hrep' := List.any_eq_true.2 hrep
  have hloop := decode_loop_prefixes code.arch (code.code_buf.take code.code_buf_len) [] 0 .init hall
  rw [List.append_nil] at hloop
  unfold decode_x86_string_instruction
  rw [hloop, decode_loop]
  simp only [run_prefixes_eq, DecodeState.init, hrep', Bool.false_or, Bool.not_true,
    Bool.false_eq_true, if_false, length_take_code_buf]
  refine ⟨_, rfl, ?_⟩
  have : code.code_buf_len ≠ 0 := fun h0 => hne (by rw [← List.length_eq_zero_iff, length_take_code_buf, h0])
  simp only [hne, if_false]
  omega

/-- Every buffer the decoder accepts is an instruction of the grammar, decoded
as `decoded_of`, or a run of the grammar's prefixes filling the whole buffer. -/
theorem decode_ok_cases {code : InstructionBuf} {d : DecodedInstruction}
    (h : decode_x86_string_instruction code = .ok d) :
    (∃ pre op, StringInsn code.arch (code.code_buf.take code.code_buf_len) pre op ∧ d = decoded_of pre op) ∨
      (PrefixesOnly code.arch (code.code_buf.take code.code_buf_len) ∧ d.length = code.code_buf_len) := by
  have hd := h
  unfold decode_x86_string_instruction at hd
  split at hd
  · cases hd
  rename_i st hloop
  split at hd
  · cases hd
  rename_i hrep
  rcases decode_loop_ok hloop with ⟨pre, op, rest, hsplit, hpre, hop, rfl⟩ | ⟨hall, rfl⟩
  · -- the walk met an opcode: the REP is among the prefixes before it
    have hany : pre.any is_rep_prefix = true := by
      simpa [run_prefixes_eq, take_opcode, DecodeState.init] using hrep
    have hg : StringInsn code.arch (code.code_buf.take code.code_buf_len) pre op :=
      ⟨⟨rest, hsplit⟩, hpre, List.any_eq_true.1 hany, hop⟩
    rw [decode_of_string_insn hg] at h
    exact .inl ⟨pre, op, hg, (Except.ok.inj h).symm⟩
  · -- the walk ran out of bytes, every one a prefix
    have hany : (code.code_buf.take code.code_buf_len).any is_rep_prefix = true := by
      simpa [run_prefixes_eq, DecodeState.init] using hrep
    have hne : code.code_buf.take code.code_buf_len ≠ [] := fun h0 => by simp [h0] at hany
    have hp : PrefixesOnly code.arch (code.code_buf.take code.code_buf_len) :=
      ⟨hne, hall, List.any_eq_true.1 hany⟩
    obtain ⟨d', hd', hlen⟩ := decode_of_prefixes_only hp
    rw [hd'] at h
    cases h
    exact .inr ⟨hp, hlen⟩

/-- The buffers the decoder accepts: the grammar's instructions and the runs of
its prefixes. -/
theorem decode_ok_iff (code : InstructionBuf) :
    (∃ d, decode_x86_string_instruction code = .ok d) ↔
      (∃ pre op, StringInsn code.arch (code.code_buf.take code.code_buf_len) pre op) ∨
        PrefixesOnly code.arch (code.code_buf.take code.code_buf_len) := by
  constructor
  · rintro ⟨d, h⟩
    rcases decode_ok_cases h with ⟨pre, op, hg, -⟩ | ⟨hp, -⟩
    exacts [.inl ⟨pre, op, hg⟩, .inr hp]
  · rintro (⟨pre, op, hg⟩ | hp)
    · exact ⟨_, decode_of_string_insn hg⟩
    · obtain ⟨d, hd, -⟩ := decode_of_prefixes_only hp
      exact ⟨d, hd⟩

/-! ## The second recogniser on the grammar's instructions -/

/-- A prefix of the grammar is no opcode, and `is_string_instruction_at` takes it
as a REP or skips it. -/
theorem grammar_prefix_cases {arch : SupportedArch} {b : UInt8} (h : grammar_prefix arch b = true) :
    is_string_instruction b = false ∧
      ( is_rep_prefix b = true ∨ ( is_rep_prefix b = false ∧ is_ignorable_prefix arch b = true)) := by
  simp only [ grammar_prefix, is_rep_prefix, Bool.or_eq_true, Bool.and_eq_true, decide_eq_true_eq] at h
  rcases h with (((rfl | rfl) | rfl | rfl) | ⟨rfl, rfl⟩) <;>
    simp [is_string_instruction, is_rep_prefix, is_ignorable_prefix]

theorem not_rep_of_string_instruction {b : UInt8} (h : is_string_instruction b = true) :
    is_rep_prefix b = false := by
  simp only [is_string_instruction, Bool.or_eq_true, decide_eq_true_eq] at h
  rcases h with (((((((((rfl | rfl) | rfl) | rfl) | rfl) | rfl) | rfl) | rfl) | rfl) | rfl) <;> decide

section Loop

variable {arch : SupportedArch} {m : TraceeMemory}

theorem at_loop_prefix {fuel : Nat} {found : Bool} {ip : Nat} {b : UInt8}
    (hread : m.read_byte ip = some b) (hb : grammar_prefix arch b = true) :
    is_string_instruction_at_loop arch m (fuel + 1) found ip =
      is_string_instruction_at_loop arch m fuel (found || is_rep_prefix b) (wrapping_add ip 1) := by
  rw [is_string_instruction_at_loop, hread]
  rcases grammar_prefix_cases hb with ⟨hs, hr | ⟨hr, hi⟩⟩
  · simp [hr]
  · simp [hr, hs, hi]

theorem at_loop_opcode {fuel : Nat} {found : Bool} {ip : Nat} {op : UInt8}
    (hread : m.read_byte ip = some op) (hop : is_string_instruction op = true) :
    is_string_instruction_at_loop arch m (fuel + 1) found ip = some found := by
  rw [is_string_instruction_at_loop, hread]
  simp [not_rep_of_string_instruction hop, hop]

/-- Over a run of the grammar's prefixes and then an opcode, the loop returns
whether it saw a REP, after one read per byte. -/
theorem at_loop_run : ∀ (pre : List UInt8) {op : UInt8} (found : Bool) (ip : Nat),
    (∀ b ∈ pre, grammar_prefix arch b = true) →
    (∀ j < pre.length, m.read_byte (ip + j) = some (pre.getD j 0)) →
    m.read_byte (ip + pre.length) = some op → is_string_instruction op = true →
    ip + pre.length < 2 ^ 64 →
    is_string_instruction_at_loop arch m (pre.length + 1) found ip = some (found || pre.any is_rep_prefix)
  | [], _, found, ip, _, _, hop, hs, _ => by
    simp only [List.length_nil, Nat.add_zero] at hop ⊢
    rw [at_loop_opcode hop hs]
    simp
  | b :: pre, _, found, ip, hpre, hread, hop, hs, hip => by
    have hb : m.read_byte ip = some b := by simpa using hread 0 (by simp)
    have hip1 : wrapping_add ip 1 = ip + 1 := wrapping_add_of_lt (by simp at hip; omega)
    rw [List.length_cons, at_loop_prefix hb (hpre b List.mem_cons_self), hip1,
      at_loop_run pre _ (ip + 1) (fun b' hb' => hpre b' (List.mem_cons_of_mem _ hb'))
        (fun j hj => by simpa [Nat.add_assoc, Nat.add_comm 1 j] using hread (j + 1) (by simp; omega))
        (by simpa [Nat.add_assoc, Nat.add_comm 1] using hop) hs (by simp at hip; omega)]
    simp [Bool.or_assoc]

theorem mapped_of_lt_readable_len : ∀ (n addr j : Nat), j < readable_len m addr n → m.mapped (addr + j) = true
  | 0, _, _, h => absurd h (Nat.not_lt_zero _)
  | n + 1, addr, j, h => by
    unfold readable_len at h
    split at h
    · cases j with
      | zero => simpa
      | succ j =>
        have := mapped_of_lt_readable_len n (addr + 1) j (by omega)
        rwa [Nat.add_assoc, Nat.add_comm 1 j] at this
    · exact absurd h (Nat.not_lt_zero _)

/-- What `read_instruction` returns: the bytes from `ip` up to the first unmapped
one, at most 32, at least one. -/
theorem read_instruction_spec {ip : Nat} {code : InstructionBuf}
    (h : read_instruction arch m ip = .ok code) :
    code.arch = arch ∧ 0 < code.code_buf_len ∧
      ∀ j < code.code_buf_len, m.read_byte (ip + j) = some (code.code_buf.getD j 0) := by
  unfold read_instruction at h
  dsimp only at h
  split at h
  · cases h
  rename_i hlen
  cases h
  refine ⟨rfl, Nat.pos_of_ne_zero hlen, fun j hj => ?_⟩
  have hj32 : j < 32 := lt_of_lt_of_le hj (readable_len_le m 32 ip)
  rw [TraceeMemory.read_byte_of_mapped (mapped_of_lt_readable_len 32 ip j hj),
    List.getD_eq_getElem?_getD, List.getElem?_ofFn]
  simp [hj32, show j < readable_len m ip 32 from hj]

theorem getD_take_of_lt {l : List UInt8} {len j : Nat} (h : j < len) :
    (l.take len).getD j 0 = l.getD j 0 := by
  simp [List.getD_eq_getElem?_getD, h]

/-- Where the decoder reads an instruction of the grammar from the tracee,
`is_string_instruction_at` at the same address accepts it, reading no further
than the opcode. -/
theorem is_string_instruction_at_of_string_insn {ip : Nat} {code : InstructionBuf}
    {pre : List UInt8} {op : UInt8} (hread : read_instruction arch m ip = .ok code)
    (hip : ip + 32 ≤ 2 ^ 64) (h : StringInsn code.arch (code.code_buf.take code.code_buf_len) pre op) :
    is_string_instruction_at arch m (pre.length + 1) ip = some true := by
  obtain ⟨harch, -, hbytes⟩ := read_instruction_spec hread
  obtain ⟨⟨rest, hsplit⟩, hpre, hrep, hop⟩ := h
  have hlen : pre.length < code.code_buf_len := by
    have := congrArg List.length hsplit
    rw [length_take_code_buf] at this
    simp at this
    omega
  have hle : code.code_buf_len ≤ 32 := code.len_le
  -- the bytes the second recogniser reads are the ones the decoder took
  have hpre' : ∀ j < pre.length, m.read_byte (ip + j) = some (pre.getD j 0) := by
    intro j hj
    rw [hbytes j (by omega), ← getD_take_of_lt (by omega : j < code.code_buf_len), hsplit]
    simp [List.getD_eq_getElem?_getD, List.getElem?_append_left hj]
  have hop' : m.read_byte (ip + pre.length) = some op := by
    rw [hbytes _ hlen, getD_of_take_eq hsplit]
  rw [harch] at hpre
  unfold is_string_instruction_at
  rw [at_loop_run pre false ip hpre hpre' hop' hop (by omega), Bool.false_or, List.any_eq_true.2 hrep]

/-- `rep movsb` at 0x1000, at the start of a mapped page of NOPs. -/
theorem is_string_instruction_at_rep_movsb :
    let m : TraceeMemory := ⟨fun a => decide (0x1000 ≤ a ∧ a < 0x2000),
      fun a => if a = 0x1000 then 0xF3 else if a = 0x1001 then 0xA4 else 0x90⟩
    ∃ code, read_instruction .X64 m 0x1000 = .ok code ∧ 0x1000 + 32 ≤ 2 ^ 64 ∧
      StringInsn code.arch (code.code_buf.take code.code_buf_len) [0xF3] 0xA4 ∧
      is_string_instruction_at .X64 m (([0xF3] : List UInt8).length + 1) 0x1000 = some true := by
  intro m
  obtain ⟨code, hread, hbytes, harch⟩ : ∃ code, read_instruction .X64 m 0x1000 = .ok code ∧
      code.code_buf.take code.code_buf_len = [0xF3, 0xA4] ++ List.replicate 30 0x90 ∧ code.arch = .X64 :=
    ⟨_, rfl, by decide, rfl⟩
  have hip : 0x1000 + 32 ≤ 2 ^ 64 := by norm_num
  have h : StringInsn code.arch (code.code_buf.take code.code_buf_len) [0xF3] 0xA4 := by
    rw [hbytes, harch]
    exact ⟨⟨List.replicate 30 0x90, by simp⟩, by simp [ grammar_prefix, is_rep_prefix],
      ⟨0xF3, List.mem_singleton_self _, by simp [ is_rep_prefix]⟩, by simp [is_string_instruction]⟩
  exact ⟨code, hread, hip, h, is_string_instruction_at_of_string_insn hread hip h⟩

end Loop

/-! ## A REP prefix at the end of a page -/

/-- A tracee whose memory ends at `0x1000`, with `F3` in its last byte. -/
def rep_at_page_end : TraceeMemory := ⟨fun a => decide (a < 0x1000), fun _ => 0xF3⟩

/-- Reading at `0xFFF` gets the lone `F3`.  The decoder accepts it as a
one-byte instruction with four-byte operands, though the grammar has no
instruction there, and `is_string_instruction_at` never accepts it. -/
theorem decode_accepts_rep_prefix_at_page_end :
    ∃ code, read_instruction .X64 rep_at_page_end 0xFFF = .ok code ∧
      decode_x86_string_instruction code = .ok ⟨4, 8, 1, false, false⟩ ∧
      (∀ pre op, ¬ StringInsn code.arch (code.code_buf.take code.code_buf_len) pre op) ∧
      ∀ fuel, is_string_instruction_at .X64 rep_at_page_end fuel 0xFFF ≠ some true := by
  refine ⟨_, rfl, rfl, ?_, ?_⟩
  · -- one byte was read, and the grammar needs a REP before an opcode
    rintro pre op ⟨⟨rest, hsplit⟩, -, ⟨b, hb, -⟩, -⟩
    change [0xF3] = pre ++ op :: rest at hsplit
    cases pre with
    | nil => exact List.not_mem_nil hb
    | cons x pre => simp at hsplit
  · -- the prefix is read, and the next address is not mapped
    intro fuel
    rcases fuel with _ | _ | fuel <;> simp [is_string_instruction_at, is_string_instruction_at_loop,
      TraceeMemory.read_byte, rep_at_page_end, is_rep_prefix, wrapping_add]

end FastForward

end RdReplay
