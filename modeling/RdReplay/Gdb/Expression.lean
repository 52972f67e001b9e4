/-
  Gdb/Expression.lean --- gdb's agent-expression bytecode, as rd evaluates it
  for breakpoint conditions.

  Source: `gdb_expression.rs`: `Opcode`, `GdbExpression::new` and `evaluate`,
  `ExpressionState` (`pop`, `pop_a_b`, `nonzero`, `fetch_u8` .. `fetch_u64`,
  `load`, `pick`, `step`); `commands/gdb_server.rs`: `GdbBreakpointCondition`.

  VALUES.  The stack holds `i64`s, written `BitVec 64`: the `overflowing_*`
  operations are the `BitVec` ones, shifts take their amount modulo 64 as
  `overflowing_shl(b as u32)` does, and `as u64` reinterprets the bits.  The
  stack is a list with its top first.

  WHERE EVALUATION STOPS THE PROCESS (`Trap`).  `step` turns the opcode byte into
  an `Opcode` with `transmute`, which is undefined for a byte that is no
  discriminant of the enum, among them the `0xff` that `fetch_u8` returns past
  the end of the bytecode.  And `OP_rem_signed` computes `a % b` with Rust's `%`,
  which panics on `i64::MIN % -1` in every build.  Every other failure sets
  `error`, and `evaluate` then returns `false`.

  THE TASK.  `evaluate` reads the task's memory (`OP_ref*`) and registers
  (`OP_reg`).  Memory is a `TraceeMemory`; a register is what
  `GdbServer::get_reg` gives for it, or `none` when `GdbRegister::try_from`
  rejects its number.
-/
import RdReplay.Breakpoint.Basic

set_option autoImplicit false

namespace RdReplay

namespace Gdb

/-- `Opcode`, the bytecodes of gdb's agent expressions that rd's enum names. -/
inductive Opcode where
  | OP_float | OP_add | OP_sub | OP_mul | OP_div_signed | OP_div_unsigned | OP_rem_signed
  | OP_rem_unsigned | OP_lsh | OP_rsh_signed | OP_rsh_unsigned | OP_trace | OP_trace_quick
  | OP_log_not | OP_bit_and | OP_bit_or | OP_bit_xor | OP_bit_not | OP_equal | OP_less_signed
  | OP_less_unsigned | OP_ext | OP_ref8 | OP_ref16 | OP_ref32 | OP_ref64 | OP_ref_float
  | OP_ref_double | OP_ref_long_double | OP_l_to_d | OP_d_to_l | OP_if_goto | OP_goto
  | OP_const8 | OP_const16 | OP_const32 | OP_const64 | OP_reg | OP_end | OP_dup | OP_pop
  | OP_zero_ext | OP_swap | OP_getv | OP_setv | OP_tracev | OP_tracenz | OP_trace16 | OP_pick
  | OP_rot | OP_printf
  deriving DecidableEq, Repr

open Opcode

/-- The variant whose `#[repr(u8)]` discriminant is `b`, if any: what
`transmute` may produce. -/
def Opcode.ofByte (b : UInt8) : Option Opcode :=
  match b.toNat with
  | 0x01 => some OP_float | 0x02 => some OP_add | 0x03 => some OP_sub | 0x04 => some OP_mul
  | 0x05 => some OP_div_signed | 0x06 => some OP_div_unsigned | 0x07 => some OP_rem_signed
  | 0x08 => some OP_rem_unsigned | 0x09 => some OP_lsh | 0x0a => some OP_rsh_signed
  | 0x0b => some OP_rsh_unsigned | 0x0c => some OP_trace | 0x0d => some OP_trace_quick
  | 0x0e => some OP_log_not | 0x0f => some OP_bit_and | 0x10 => some OP_bit_or
  | 0x11 => some OP_bit_xor | 0x12 => some OP_bit_not | 0x13 => some OP_equal
  | 0x14 => some OP_less_signed | 0x15 => some OP_less_unsigned | 0x16 => some OP_ext
  | 0x17 => some OP_ref8 | 0x18 => some OP_ref16 | 0x19 => some OP_ref32 | 0x1a => some OP_ref64
  | 0x1b => some OP_ref_float | 0x1c => some OP_ref_double | 0x1d => some OP_ref_long_double
  | 0x1e => some OP_l_to_d | 0x1f => some OP_d_to_l | 0x20 => some OP_if_goto
  | 0x21 => some OP_goto | 0x22 => some OP_const8 | 0x23 => some OP_const16
  | 0x24 => some OP_const32 | 0x25 => some OP_const64 | 0x26 => some OP_reg | 0x27 => some OP_end
  | 0x28 => some OP_dup | 0x29 => some OP_pop | 0x2a => some OP_zero_ext | 0x2b => some OP_swap
  | 0x2c => some OP_getv | 0x2d => some OP_setv | 0x2e => some OP_tracev
  | 0x2f => some OP_tracenz | 0x30 => some OP_trace16 | 0x32 => some OP_pick
  | 0x33 => some OP_rot | 0x34 => some OP_printf
  | _ => none

/-- How an evaluation stops rd instead of returning. -/
inductive Trap where
  /-- `i64::MIN % -1`: Rust's `%` panics on it in every build. -/
  | remainder_overflow
  /-- `transmute` of a byte that is no discriminant of `Opcode`: undefined behaviour. -/
  | invalid_opcode (byte : UInt8)
  deriving DecidableEq, Repr

/-- What `GdbServer::get_reg` gives for a register: defined or not, its size in
bytes, and its value. -/
structure GdbRegisterValue where
  defined : Bool
  size : Nat
  value : Nat
  deriving DecidableEq, Repr

/-- The task an expression is evaluated against. -/
structure ExpressionTask where
  mem : TraceeMemory
  /-- `GdbServer::get_reg` of a register number, `none` when `GdbRegister::try_from`
  rejects it. -/
  reg : Nat → Option GdbRegisterValue

/-- `read_val_mem` of `n` bytes at `addr`, little-endian; `none` when a byte
cannot be read. -/
def ExpressionTask.read_le (t : ExpressionTask) (addr : Nat) : Nat → Option Nat
  | 0 => some 0
  | n + 1 =>
    match t.mem.read_byte addr with
    | none => none
    | some b => (t.read_le (wrapping_add addr 1) n).map fun v => b.toNat + 256 * v

/-- Big-endian value of a list of bytes, as the `fetch_u*` loops build it. -/
def be_value (bytes : List UInt8) : Nat := bytes.foldl (fun v b => v * 256 + b.toNat) 0

/-- `ExpressionState`. -/
structure ExpressionState where
  bytecode : List UInt8
  /-- The stack, its top first. -/
  stack : List (BitVec 64)
  pc : Nat
  error : Bool
  end_ : Bool
  deriving DecidableEq, Repr

namespace ExpressionState

/-- `ExpressionState::new`. -/
def new (bytecode : List UInt8) : ExpressionState :=
  { bytecode, stack := [], pc := 0, error := false, end_ := false }

def set_error (st : ExpressionState) : ExpressionState := { st with error := true }

/-- `pop`: an empty stack sets `error` and gives `-1`. -/
def pop (st : ExpressionState) : ExpressionState × BitVec 64 :=
  match st.stack with
  | [] => (st.set_error, -1)
  | v :: rest => ({ st with stack := rest }, v)

/-- `pop_a_b`: `b` is popped first. -/
def pop_a_b (st : ExpressionState) : ExpressionState × BitVec 64 × BitVec 64 :=
  let (st, b) := st.pop
  let (st, a) := st.pop
  (st, a, b)

/-- `nonzero`: a zero sets `error` and gives `1`. -/
def nonzero (st : ExpressionState) (v : BitVec 64) : ExpressionState × BitVec 64 :=
  if v = 0 then (st.set_error, 1) else (st, v)

def push (st : ExpressionState) (v : BitVec 64) : ExpressionState := { st with stack := v :: st.stack }

/-- The `fetch_u*` family: the next `n` bytes, big-endian; past the end of the
bytecode, `error` and all ones. -/
def fetch (n : Nat) (st : ExpressionState) : ExpressionState × Nat :=
  if st.pc + n > st.bytecode.length then (st.set_error, 2 ^ (8 * n) - 1)
  else ({ st with pc := st.pc + n }, be_value ((st.bytecode.drop st.pc).take n))

def fetch_u8 (st : ExpressionState) : ExpressionState × Nat := fetch 1 st

def fetch_u16 (st : ExpressionState) : ExpressionState × Nat := fetch 2 st

def fetch_u32 (st : ExpressionState) : ExpressionState × Nat := fetch 4 st

def fetch_u64 (st : ExpressionState) : ExpressionState × Nat := fetch 8 st

/-- `load::<T>` for a `T` of `n` bytes: pop the address, read, push the value. -/
def load (n : Nat) (t : ExpressionTask) (st : ExpressionState) : ExpressionState :=
  let (st, addr) := st.pop
  -- Don't do unnecessary syscalls if we're already in an error state.
  if st.error then st
  else
    match t.read_le addr.toNat n with
    | none => st.set_error
    | some v => st.push (BitVec.ofNat 64 v)

/-- `pick`: push the value `offset` below the top. -/
def pick (st : ExpressionState) (offset : Nat) : ExpressionState :=
  match st.stack[offset]? with
  | none => st.set_error
  | some v => st.push v

/-- A binary operation on the two values on top of the stack. -/
def binop (st : ExpressionState) (op : BitVec 64 → BitVec 64 → BitVec 64) : ExpressionState :=
  let (st, a, b) := st.pop_a_b
  st.push (op a b)

/-- The amount `overflowing_shl(b as u32)` and `overflowing_shr` shift by. -/
def shift_amount (b : BitVec 64) : Nat := b.toNat % 64

/-- `(1i64 << n) - 1`, in wrapping arithmetic. -/
def n_mask (n : Nat) : BitVec 64 := ((1 : BitVec 64) <<< n) - 1

/-- The value `OP_ext n` makes of `a`. -/
def ext_value (n : Nat) (a : BitVec 64) : BitVec 64 :=
  let sign_bit := a.sshiftRight (n - 1) &&& 1
  (sign_bit * ~~~n_mask n) ||| (a &&& n_mask n)

/-- The arms of `step`'s `match`, for the opcode it fetched. -/
def exec (t : ExpressionTask) (st : ExpressionState) : Opcode → Except Trap ExpressionState
  | OP_add => .ok (st.binop (· + ·))
  | OP_sub => .ok (st.binop (· - ·))
  | OP_mul => .ok (st.binop (· * ·))
  | OP_div_signed =>
    let (st, a, b) := st.pop_a_b
    let (st, d) := st.nonzero b
    .ok (st.push (a.sdiv d))
  | OP_div_unsigned =>
    let (st, a, b) := st.pop_a_b
    let (st, d) := st.nonzero b
    .ok (st.push (a.udiv d))
  | OP_rem_signed =>
    let (st, a, b) := st.pop_a_b
    let (st, b) := st.nonzero b
    if a = BitVec.intMin 64 ∧ b = -1 then .error .remainder_overflow
    else .ok (st.push (a.srem b))
  | OP_rem_unsigned =>
    let (st, a, b) := st.pop_a_b
    let (st, b) := st.nonzero b
    .ok (st.push (a.umod b))
  | OP_lsh => .ok (st.binop fun a b => a <<< shift_amount b)
  | OP_rsh_signed => .ok (st.binop fun a b => a.sshiftRight (shift_amount b))
  | OP_rsh_unsigned => .ok (st.binop fun a b => a >>> shift_amount b)
  | OP_log_not =>
    let (st, a) := st.pop
    .ok (st.push (if a = 0 then 1 else 0))
  | OP_bit_and => .ok (st.binop (· &&& ·))
  | OP_bit_or => .ok (st.binop (· ||| ·))
  | OP_bit_xor => .ok (st.binop (· ^^^ ·))
  | OP_bit_not =>
    let (st, a) := st.pop
    .ok (st.push (~~~a))
  | OP_equal => .ok (st.binop fun a b => if a = b then 1 else 0)
  | OP_less_signed => .ok (st.binop fun a b => if a.slt b then 1 else 0)
  | OP_less_unsigned => .ok (st.binop fun a b => if a.ult b then 1 else 0)
  | OP_ext =>
    let (st, x) := st.fetch_u8
    let (st, n) := st.nonzero (BitVec.ofNat 64 x)
    if 64 ≤ n.toNat then .ok st
    else
      let (st, a) := st.pop
      .ok (st.push (ext_value n.toNat a))
  | OP_zero_ext =>
    let (st, n) := st.fetch_u8
    if 64 ≤ n then .ok st
    else
      let (st, a) := st.pop
      .ok (st.push (a &&& n_mask n))
  | OP_ref8 => .ok (st.load 1 t)
  | OP_ref16 => .ok (st.load 2 t)
  | OP_ref32 => .ok (st.load 4 t)
  | OP_ref64 => .ok (st.load 8 t)
  | OP_dup => .ok (st.pick 0)
  | OP_swap =>
    let (st, a, b) := st.pop_a_b
    .ok ((st.push b).push a)
  | OP_pop => .ok st.pop.1
  | OP_pick =>
    let (st, offset) := st.fetch_u8
    .ok (st.pick offset)
  | OP_rot =>
    let (st, c) := st.pop
    let (st, b) := st.pop
    let (st, a) := st.pop
    .ok (((st.push c).push b).push a)
  | OP_if_goto =>
    let (st, offset) := st.fetch_u16
    let (st, a) := st.pop
    .ok (if a ≠ 0 then { st with pc := offset } else st)
  | OP_goto =>
    let (st, offset) := st.fetch_u16
    .ok { st with pc := offset }
  | OP_const8 =>
    let (st, a) := st.fetch_u8
    .ok (st.push (BitVec.ofNat 64 a))
  | OP_const16 =>
    let (st, a) := st.fetch_u16
    .ok (st.push (BitVec.ofNat 64 a))
  | OP_const32 =>
    let (st, a) := st.fetch_u32
    .ok (st.push (BitVec.ofNat 64 a))
  | OP_const64 =>
    let (st, a) := st.fetch_u64
    .ok (st.push (BitVec.ofNat 64 a))
  | OP_reg =>
    let (st, r) := st.fetch_u16
    match t.reg r with
    | none => .ok st.set_error
    | some v =>
      if !v.defined then .ok st.set_error
      else if v.size = 1 ∨ v.size = 2 ∨ v.size = 4 ∨ v.size = 8 then
        .ok (st.push (BitVec.ofNat 64 v.value))
      else .ok st.set_error
  | OP_end => .ok { st with end_ := true }
  -- the opcodes rd does not implement
  | OP_float | OP_trace | OP_trace_quick | OP_ref_float | OP_ref_double | OP_ref_long_double
  | OP_l_to_d | OP_d_to_l | OP_getv | OP_setv | OP_tracev | OP_tracenz | OP_trace16
  | OP_printf => .ok st.set_error

/-- `step`: fetch the opcode byte, `transmute` it, and run its arm. -/
def step (t : ExpressionTask) (st : ExpressionState) : Except Trap ExpressionState :=
  let (st, byte) := st.fetch_u8
  match Opcode.ofByte (UInt8.ofNat byte) with
  | none => .error (.invalid_opcode (UInt8.ofNat byte))
  | some op => st.exec t op

/-! ## The values `OP_ext` and `OP_zero_ext` push -/

theorem toNat_n_mask {n : Nat} (hn : n < 64) : (n_mask n).toNat = 2 ^ n - 1 := by
  have hpow : 2 ^ n < 2 ^ 64 := Nat.pow_lt_pow_right (by decide) hn
  have hone : (1 : BitVec 64).toNat = 1 := rfl
  have h1 : ((1 : BitVec 64) <<< n).toNat = 2 ^ n := by
    rw [BitVec.toNat_shiftLeft, hone, Nat.one_shiftLeft, Nat.mod_eq_of_lt hpow]
  have : 1 ≤ 2 ^ n := Nat.one_le_two_pow
  rw [n_mask, BitVec.toNat_sub, h1, hone]
  omega

/-- Below 64, the mask has exactly its low `n` bits set: the shift by 63 that
overflows `i64` wraps to the right mask in a release build. -/
theorem getLsbD_n_mask {n : Nat} (hn : n < 64) (i : Nat) :
    (n_mask n).getLsbD i = decide (i < n) := by
  rw [BitVec.getLsbD, toNat_n_mask hn, Nat.testBit_two_pow_sub_one]

/-- `a.overflowing_shr(k).0 & 1` is bit `k` of `a`. -/
theorem sshiftRight_and_one {k : Nat} (hk : k < 64) (a : BitVec 64) :
    a.sshiftRight k &&& 1 = if a.getLsbD k then 1 else 0 := by
  apply BitVec.eq_of_getLsbD_eq
  intro i hi
  have hbit : (a.sshiftRight k).getLsbD 0 = a.getLsbD k := by
    simp only [BitVec.getLsbD_sshiftRight, Nat.add_zero, hk, if_true]
    simp
  by_cases h0 : i = 0
  · subst h0
    split <;> simp_all
  · split <;> simp [BitVec.getLsbD_one, h0]

/-- `OP_zero_ext n` keeps the low `n` bits. -/
theorem and_n_mask {n : Nat} (hn : n < 64) (a : BitVec 64) :
    a &&& n_mask n = (a.setWidth n).setWidth 64 := by
  apply BitVec.eq_of_toNat_eq
  have hlt : a.toNat % 2 ^ n < 2 ^ 64 :=
    lt_trans (Nat.mod_lt _ (Nat.two_pow_pos n)) (Nat.pow_lt_pow_right (by decide) hn)
  rw [BitVec.toNat_and, toNat_n_mask hn, Nat.and_two_pow_sub_one_eq_mod,
    BitVec.toNat_setWidth, BitVec.toNat_setWidth, Nat.mod_eq_of_lt hlt]

/-- `OP_ext n`, for `1 <= n <= 63`, sign-extends the low `n` bits. -/
theorem ext_value_eq {n : Nat} (h0 : 0 < n) (hn : n < 64) (a : BitVec 64) :
    ext_value n a = (a.setWidth n).signExtend 64 := by
  unfold ext_value
  dsimp only
  rw [sshiftRight_and_one (by omega)]
  apply BitVec.eq_of_getLsbD_eq
  intro i hi
  have hm := getLsbD_n_mask hn i
  have hsx : ((a.setWidth n).signExtend 64).getLsbD i =
      if i < n then a.getLsbD i else a.getLsbD (n - 1) := by
    simp only [BitVec.getLsbD_signExtend, BitVec.getLsbD_setWidth, BitVec.msb_setWidth, hi, h0,
      decide_true, Bool.true_and]
    split <;> simp_all
  rw [hsx]
  -- the sign bit selects between the inverted mask and nothing
  by_cases hs : a.getLsbD (n - 1)
  · rw [if_pos hs, one_mul, BitVec.getLsbD_or, BitVec.getLsbD_not, BitVec.getLsbD_and, hm]
    by_cases hin : i < n <;> simp [hin, hs, hi]
  · rw [if_neg hs, zero_mul, BitVec.getLsbD_or, BitVec.getLsbD_and, hm]
    by_cases hin : i < n <;> simp [hin, hs]

/-! ## Fetching -/

variable {st : ExpressionState} {t : ExpressionTask}

theorem fetch_u8_of_drop {b : UInt8} {code : List UInt8} (h : st.bytecode.drop st.pc = b :: code) :
    st.fetch_u8 = ({ st with pc := st.pc + 1 }, b.toNat) := by
  have hlt : st.pc < st.bytecode.length := by
    have := congrArg List.length h
    simp only [List.length_drop, List.length_cons] at this
    omega
  simp [fetch_u8, fetch, h, be_value, Nat.not_lt.2 hlt]

theorem fetch_u8_of_drop_nil (h : st.bytecode.drop st.pc = []) : st.fetch_u8 = (st.set_error, 255) := by
  have hle : st.bytecode.length ≤ st.pc := List.drop_eq_nil_iff.1 h
  simp [fetch_u8, fetch, Nat.lt_of_lt_of_le (Nat.lt_succ_self _) (Nat.succ_le_succ hle)]

/-- `step` once its opcode byte `b` is fetched: `transmute` is defined on `b`
only when it is a discriminant of `Opcode`. -/
theorem step_of_drop {b : UInt8} {code : List UInt8} (h : st.bytecode.drop st.pc = b :: code) :
    st.step t = match Opcode.ofByte b with
      | none => .error (.invalid_opcode b)
      | some op => exec t { st with pc := st.pc + 1 } op := by
  simp only [step, fetch_u8_of_drop h, UInt8.ofNat_toNat]

/-- A run that gets past the end of the bytecode without `OP_end` hits
undefined behaviour: `fetch_u8` gives `u8::MAX`, which names no opcode. -/
theorem step_of_drop_nil (h : st.bytecode.drop st.pc = []) :
    st.step t = .error (.invalid_opcode 0xff) := by
  simp only [step, fetch_u8_of_drop_nil h]
  rfl

theorem drop_succ_of_drop {l code : List UInt8} {b : UInt8} {pc : Nat} (h : l.drop pc = b :: code) :
    l.drop (pc + 1) = code := by
  rw [← List.drop_drop, h]
  rfl

/-- The byte after the opcode, as an arm fetches it. -/
theorem fetch_operand {op n : UInt8} {code : List UInt8} (h : st.bytecode.drop st.pc = op :: n :: code) :
    ({ st with pc := st.pc + 1 } : ExpressionState).fetch_u8 = ({ st with pc := st.pc + 2 }, n.toNat) :=
  fetch_u8_of_drop (drop_succ_of_drop h)

/-- `OP_ext n` with `1 <= n <= 63` replaces the top of the stack by the
sign-extension of its low `n` bits. -/
theorem step_ext {n : UInt8} {a : BitVec 64} {code : List UInt8} {rest : List (BitVec 64)}
    (h : st.bytecode.drop st.pc = 0x16 :: n :: code) (h0 : n ≠ 0) (hn : n.toNat < 64)
    (hs : st.stack = a :: rest) :
    st.step t = .ok { st with pc := st.pc + 2, stack := (a.setWidth n.toNat).signExtend 64 :: rest } := by
  have hn' : (BitVec.ofNat 64 n.toNat).toNat = n.toNat := by
    rw [BitVec.toNat_ofNat]
    omega
  have hnz : BitVec.ofNat 64 n.toNat ≠ 0 := by
    intro hz
    have := congrArg BitVec.toNat hz
    rw [hn'] at this
    exact h0 (UInt8.toNat_inj.1 this)
  have h0' : 0 < n.toNat := by
    rcases Nat.eq_zero_or_pos n.toNat with hz | hz
    · exact absurd (UInt8.toNat_inj.1 hz) h0
    · exact hz
  rw [step_of_drop h]
  simp only [show Opcode.ofByte 0x16 = some OP_ext from rfl, exec]
  rw [fetch_operand h]
  simp only [nonzero, if_neg hnz, hn', if_neg (Nat.not_le.2 hn)]
  simp only [pop, hs, push, ext_value_eq h0' hn]

/-- `OP_zero_ext n` with `n <= 63` keeps the low `n` bits of the top of the stack. -/
theorem step_zero_ext {n : UInt8} {a : BitVec 64} {code : List UInt8} {rest : List (BitVec 64)}
    (h : st.bytecode.drop st.pc = 0x2a :: n :: code) (hn : n.toNat < 64) (hs : st.stack = a :: rest) :
    st.step t = .ok { st with pc := st.pc + 2, stack := (a.setWidth n.toNat).setWidth 64 :: rest } := by
  rw [step_of_drop h]
  simp only [show Opcode.ofByte 0x2a = some OP_zero_ext from rfl, exec]
  rw [fetch_operand h]
  simp only [if_neg (Nat.not_le.2 hn)]
  simp only [pop, hs, push, and_n_mask hn]

end ExpressionState

/-- `GdbExpression`: `new` makes one bytecode variant. -/
structure GdbExpression where
  bytecode_variants : List (List UInt8)
  deriving DecidableEq, Repr

namespace GdbExpression

def new (data : List UInt8) : GdbExpression := ⟨[data]⟩

/-- The `while !state.end` loop of `evaluate`, with `fuel = 10000 - steps`:
`none` when it gives up, on an error or after 10000 steps. -/
def run_loop (t : ExpressionTask) : Nat → ExpressionState → Except Trap (Option ExpressionState)
  | 0, st => .ok (if st.end_ then some st else none)
  | fuel + 1, st =>
    if st.end_ then .ok (some st)
    else if st.error then .ok none
    else (st.step t).bind (run_loop t fuel)

/-- The loop of `evaluate` over the variants: each must end without error, with
the value the first one gave. -/
def evaluate_variants (t : ExpressionTask) :
    Bool → BitVec 64 → List (List UInt8) → Except Trap (Bool × BitVec 64)
  | _, result, [] => .ok (true, result)
  | first, result, b :: bs =>
    (run_loop t 10000 (ExpressionState.new b)).bind fun
      | none => .ok (false, result)
      | some st =>
        let (st, v) := st.pop
        if st.error then .ok (false, result)
        else if first then evaluate_variants t false v bs
        else if result ≠ v then .ok (false, result)
        else evaluate_variants t false result bs

/-- `GdbExpression::evaluate`: whether it succeeded, and `result` as it leaves it. -/
def evaluate (e : GdbExpression) (t : ExpressionTask) (result : BitVec 64) :
    Except Trap (Bool × BitVec 64) :=
  if e.bytecode_variants.isEmpty then .ok (false, result)
  else evaluate_variants t true result e.bytecode_variants

/-- `i64::MIN % -1` stops rd in every task: `OP_const64 0x8000000000000000`,
then `0 - 1`, then `OP_rem_signed`. -/
theorem evaluate_rem_signed_int_min_traps (t : ExpressionTask) (result : BitVec 64) :
    (GdbExpression.new
        [0x25, 0x80, 0, 0, 0, 0, 0, 0, 0, 0x22, 0x00, 0x22, 0x01, 0x03, 0x07, 0x27]).evaluate t result =
      .error .remainder_overflow := by
  rfl

end GdbExpression

/-- `GdbBreakpointCondition`: the expressions of a gdb breakpoint condition. -/
structure GdbBreakpointCondition where
  expressions : List GdbExpression
  deriving DecidableEq, Repr

namespace GdbBreakpointCondition

/-- The loop of `evaluate`: break if an evaluation fails or gives non-zero. -/
def evaluate_list (t : ExpressionTask) : List GdbExpression → Except Trap Bool
  | [] => .ok false
  | e :: es =>
    (e.evaluate t 0).bind fun (ok, v) =>
      if !ok || v ≠ 0 then .ok true else evaluate_list t es

/-- `GdbBreakpointCondition::evaluate`. -/
def evaluate (c : GdbBreakpointCondition) (t : ExpressionTask) : Except Trap Bool :=
  evaluate_list t c.expressions

/-- `GdbBreakpointCondition::new`. -/
def new (bytecodes : List (List UInt8)) : GdbBreakpointCondition := ⟨bytecodes.map GdbExpression.new⟩

theorem evaluate_list_eq_any {t : ExpressionTask} {res : GdbExpression → Bool × BitVec 64}
    {es : List GdbExpression} (h : ∀ e ∈ es, e.evaluate t 0 = .ok (res e)) :
    evaluate_list t es = .ok (es.any fun e => !(res e).1 || (res e).2 != 0) := by
  induction es with
  | nil => rfl
  | cons e es ih =>
    rw [evaluate_list, h e List.mem_cons_self, ih (fun x hx => h x (List.mem_cons_of_mem _ hx))]
    simp only [Except.bind, List.any_cons]
    cases hb : (!(res e).1 || (res e).2 != 0) <;> simp_all

/-- When no expression traps, a condition breaks exactly when one of its
expressions fails to evaluate or gives a non-zero value. -/
theorem evaluate_eq_any {c : GdbBreakpointCondition} {t : ExpressionTask}
    {res : GdbExpression → Bool × BitVec 64} (h : ∀ e ∈ c.expressions, e.evaluate t 0 = .ok (res e)) :
    c.evaluate t = .ok (c.expressions.any fun e => !(res e).1 || (res e).2 != 0) :=
  evaluate_list_eq_any h

end GdbBreakpointCondition

end Gdb

end RdReplay
