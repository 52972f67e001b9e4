/-
  Lib/ClassicBpf.lean --- classic BPF, as the kernel runs a seccomp filter.

  WHAT THIS FILE IS FOR.  A filter is a list of `sock_filter` instructions run
  from the first, with the accumulator `A`, the index register `X` and the
  scratch words `M`, all 32 bits wide and zero at the start.  The packet is
  abstract: `load k` is the word a `BPF_LD | BPF_W | BPF_ABS` reads at offset
  `k` (`none` past its end, and the run then returns 0), and `len` is its
  length.  The instructions are those a seccomp filter may hold: loads of a
  word, of the length, of a constant or a scratch word; stores; the ALU
  operations; the jumps; returns of a constant or of `A`; and the moves
  between `A` and `X`.  Any other code is `invalid`.

  JUMPS GO FORWARD.  Every step moves the program counter on by one and the
  jump's offset, so a run visits each instruction at most once, and `run`
  needs no more fuel than the program has instructions (`exec_fuel_eq`).

  THE TWO FACTS A FILTER REWRITER NEEDS.  Jumps are relative, so a program run
  behind a prefix runs as it does alone (`exec_append`); and a program whose
  constant returns are changed by a function `g`, and nothing else, returns
  `g` of what the program returns (`exec_map_ret`).  A prefix leaves its own
  registers behind, so the program behind it must not depend on the `A` it
  starts with (`IndependentOfInitialA`).
-/
import Mathlib

set_option autoImplicit false

namespace ClassicBpf

/-- `struct sock_filter`. -/
structure Insn where
  code : Nat
  jt : Nat
  jf : Nat
  k : Nat
  deriving DecidableEq, Repr

/-- The registers of a run. -/
structure Machine where
  A : Nat
  X : Nat
  M : Nat → Nat

/-- The registers at the start of a run: all zero. -/
def Machine.init : Machine := ⟨0, 0, fun _ => 0⟩

/-- How a run ends: by a constant return, by a return of `A`, or by the
return of 0 the kernel makes on a failed load or a division by zero. -/
inductive Return
  | const (k : Nat)
  | acc (a : Nat)
  | zero
  deriving DecidableEq, Repr

/-- The value a run returns. -/
def Return.value : Return → Nat
  | .const k => k
  | .acc a => a
  | .zero => 0

/-- A return with its constant, if any, changed by `g`. -/
def Return.map_const (g : Nat → Nat) : Return → Return
  | .const k => .const (g k)
  | r => r

/-- What one instruction does: go on, `skip` instructions further; return;
or stop on a code no filter may hold. -/
inductive Outcome
  | next (m : Machine) (skip : Nat)
  | ret (r : Return)
  | invalid

/-- `BPF_RET | BPF_K`. -/
def RET_K : Nat := 0x06

/-- `BPF_LD | BPF_W | BPF_ABS`. -/
def LD_W_ABS : Nat := 0x20

/-- `BPF_JMP | BPF_JEQ | BPF_K`. -/
def JEQ_K : Nat := 0x15

/-- A 32-bit result. -/
def u32 (n : Nat) : Nat := n % 2 ^ 32

/-- The ALU operation `op` (the code's bits `0xf0`) on `a` and `b`; `none` for
a division by zero, on which the run returns 0. -/
def alu (op a b : Nat) : Option Nat :=
  match op with
  | 0x00 => some (u32 (a + b))
  | 0x10 => some (u32 (a + 2 ^ 32 - b % 2 ^ 32))
  | 0x20 => some (u32 (a * b))
  | 0x30 => if b = 0 then none else some (a / b)
  | 0x40 => some (a ||| b)
  | 0x50 => some (a &&& b)
  | 0x60 => some (u32 (a <<< b))
  | 0x70 => some (a >>> b)
  | 0x90 => if b = 0 then none else some (a % b)
  | 0xa0 => some (a ^^^ b)
  | _ => none

/-- The second operand of an ALU operation or a comparison: `X` when the code's
`BPF_X` bit is set, else the constant. -/
def Insn.src (i : Insn) (m : Machine) : Nat :=
  if i.code &&& 0x08 = 0x08 then m.X else i.k

/-- One instruction. -/
def step (load : Nat → Option Nat) (len : Nat) (i : Insn) (m : Machine) : Outcome :=
  match i.code with
  -- loads and stores
  | 0x20 =>
    match load i.k with
    | some w => .next { m with A := w } 0
    | none => .ret .zero
  | 0x80 => .next { m with A := len } 0
  | 0x00 => .next { m with A := i.k } 0
  | 0x60 => .next { m with A := m.M i.k } 0
  | 0x81 => .next { m with X := len } 0
  | 0x01 => .next { m with X := i.k } 0
  | 0x61 => .next { m with X := m.M i.k } 0
  | 0x02 => .next { m with M := Function.update m.M i.k m.A } 0
  | 0x03 => .next { m with M := Function.update m.M i.k m.X } 0
  -- returns and moves
  | 0x06 => .ret (.const i.k)
  | 0x16 => .ret (.acc m.A)
  | 0x07 => .next { m with X := m.A } 0
  | 0x87 => .next { m with A := m.X } 0
  -- jumps
  | 0x05 => .next m i.k
  | 0x15 | 0x1d => .next m (if m.A = i.src m then i.jt else i.jf)
  | 0x25 | 0x2d => .next m (if m.A > i.src m then i.jt else i.jf)
  | 0x35 | 0x3d => .next m (if m.A ≥ i.src m then i.jt else i.jf)
  | 0x45 | 0x4d => .next m (if m.A &&& i.src m ≠ 0 then i.jt else i.jf)
  -- the ALU
  | 0x84 => .next { m with A := u32 (2 ^ 32 - m.A % 2 ^ 32) } 0
  | code =>
    if code &&& 0x07 = 0x04 then
      match alu (code &&& 0xf0) m.A (i.src m) with
      | some a => .next { m with A := a } 0
      | none => .ret .zero
    else .invalid

/-- A run from the instruction at `pc`, on `fuel` steps. -/
def exec (load : Nat → Option Nat) (len : Nat) (prog : List Insn) : Nat → Machine → Nat → Option Return
  | 0, _, _ => none
  | fuel + 1, m, pc =>
    match prog[pc]? with
    | none => none
    | some i =>
      match step load len i m with
      | .next m' skip => exec load len prog fuel m' (pc + 1 + skip)
      | .ret r => some r
      | .invalid => none

/-- A run of the whole program: how the filter returns. -/
def run (load : Nat → Option Nat) (len : Nat) (prog : List Insn) : Option Return :=
  exec load len prog prog.length Machine.init 0

section Exec

variable (load : Nat → Option Nat) (len : Nat)

theorem step_ret_k (i : Insn) (h : i.code = RET_K) (m : Machine) : step load len i m = .ret (.const i.k) := by
  unfold step
  rw [h]
  rfl

theorem step_ld_w_abs (i : Insn) (h : i.code = LD_W_ABS) (m : Machine) :
    step load len i m = match load i.k with
      | some w => .next { m with A := w } 0
      | none => .ret .zero := by
  unfold step
  rw [h]
  rfl

theorem step_jeq_k (i : Insn) (h : i.code = JEQ_K) (m : Machine) :
    step load len i m = .next m (if m.A = i.k then i.jt else i.jf) := by
  unfold step Insn.src
  rw [h]
  rfl

theorem exec_succ (prog : List Insn) (fuel : Nat) (m : Machine) (pc : Nat) :
    exec load len prog (fuel + 1) m pc =
      match prog[pc]? with
      | none => none
      | some i =>
        match step load len i m with
        | .next m' skip => exec load len prog fuel m' (pc + 1 + skip)
        | .ret r => some r
        | .invalid => none :=
  rfl

/-- An instruction that goes on hands the run to the one `skip` further. -/
theorem exec_of_step_next {prog : List Insn} {pc : Nat} {i : Insn} (hi : prog[pc]? = some i) {m m' : Machine}
    {skip : Nat} (hstep : step load len i m = .next m' skip) (fuel : Nat) :
    exec load len prog (fuel + 1) m pc = exec load len prog fuel m' (pc + 1 + skip) := by
  rw [exec_succ, hi]
  simp only [hstep]

/-- An instruction that returns ends the run. -/
theorem exec_of_step_ret {prog : List Insn} {pc : Nat} {i : Insn} (hi : prog[pc]? = some i) {m : Machine}
    {r : Return} (hstep : step load len i m = .ret r) (fuel : Nat) :
    exec load len prog (fuel + 1) m pc = some r := by
  rw [exec_succ, hi]
  simp only [hstep]

/-- Fuel beyond the instructions left does not change a run. -/
theorem exec_fuel_eq (prog : List Insn) :
    ∀ (fuel fuel' : Nat) (m : Machine) (pc : Nat), prog.length - pc ≤ fuel → prog.length - pc ≤ fuel' →
      exec load len prog fuel m pc = exec load len prog fuel' m pc
  | 0, fuel', m, pc, h, _ => by
    -- no instruction is left: both runs fall off the end
    cases fuel' with
    | zero => rfl
    | succ fuel' => rw [exec_succ, List.getElem?_eq_none (by omega)]; rfl
  | fuel + 1, 0, m, pc, _, h' => by
    rw [exec_succ, List.getElem?_eq_none (by omega)]
    rfl
  | fuel + 1, fuel' + 1, m, pc, h, h' => by
    rw [exec_succ, exec_succ]
    cases prog[pc]? with
    | none => rfl
    | some i =>
      simp only
      cases step load len i m with
      | next m' skip => exact exec_fuel_eq prog fuel fuel' m' _ (by omega) (by omega)
      | ret v => rfl
      | invalid => rfl

/-- A program behind a prefix runs as it does alone: its jumps are relative. -/
theorem exec_append (pre prog : List Insn) :
    ∀ (fuel : Nat) (m : Machine) (pc : Nat),
      exec load len (pre ++ prog) fuel m (pre.length + pc) = exec load len prog fuel m pc
  | 0, _, _ => rfl
  | fuel + 1, m, pc => by
    rw [exec_succ, exec_succ, List.getElem?_append_right (by omega), Nat.add_sub_cancel_left]
    cases prog[pc]? with
    | none => rfl
    | some i =>
      simp only
      cases step load len i m with
      | next m' skip =>
        show exec load len (pre ++ prog) fuel m' (pre.length + pc + 1 + skip) = exec load len prog fuel m' (pc + 1 + skip)
        rw [show pre.length + pc + 1 + skip = pre.length + (pc + 1 + skip) by omega]
        exact exec_append pre prog fuel m' _
      | ret v => rfl
      | invalid => rfl

omit load len in
/-- The instruction at `pc` of a program and of one related to it pointwise
are related. -/
theorem forall₂_getElem? {α β : Type} {R : α → β → Prop} :
    ∀ {l : List α} {l' : List β}, List.Forall₂ R l l' → ∀ {pc : Nat} {a : α}, l[pc]? = some a →
      ∃ b, l'[pc]? = some b ∧ R a b
  | _ :: _, b :: _, .cons hab _, 0, _, hi => by
    cases hi
    exact ⟨b, rfl, hab⟩
  | _ :: _, _ :: _, .cons _ hrest, pc + 1, _, hi => forall₂_getElem? hrest hi

/-- Only a constant return ends a run with a constant. -/
theorem code_of_step_ret_const {i : Insn} {m : Machine} {k : Nat} (h : step load len i m = .ret (.const k)) :
    i.code = RET_K := by
  unfold step at h
  split at h
  case h_10 heq => exact heq
  -- every other branch goes on, returns `A` or 0, or is invalid
  all_goals
    repeat' split at h
    all_goals cases h

/-- An instruction of the return class other than a constant return does not
read its constant: it returns `A` or is invalid. -/
theorem step_ret_class {i : Insn} (hclass : i.code &&& 0x07 = 0x06) (hne : i.code ≠ RET_K) (m : Machine) :
    step load len i m = if i.code = 0x16 then .ret (.acc m.A) else .invalid := by
  by_cases hacc : i.code = 0x16
  · rw [if_pos hacc]
    unfold step
    rw [hacc]
    rfl
  · rw [if_neg hacc]
    unfold step
    split
    case h_10 heq => exact absurd heq hne
    case h_11 heq => exact absurd heq hacc
    case h_24 => rw [if_neg (by omega)]
    -- the other listed codes are outside the return class
    all_goals simp_all

/-- `i'` is `i` with its constant return changed by `g`: the constant of a
return of `A` or of an invalid code of the return class may change too, since
the run never reads it; any other instruction is unchanged. -/
def RetMapped (g : Nat → Nat) (i i' : Insn) : Prop :=
  if i.code = RET_K then i' = { i with k := g i.k }
  else if i.code &&& 0x07 = 0x06 then ∃ k, i' = { i with k := k }
  else i' = i

/-- Changing the constant returns by `g` changes how a run returns by `g`. -/
theorem exec_map_ret (g : Nat → Nat) {prog prog' : List Insn} (h : List.Forall₂ (RetMapped g) prog prog') :
    ∀ (fuel : Nat) (m : Machine) (pc : Nat),
      exec load len prog' fuel m pc = (exec load len prog fuel m pc).map (Return.map_const g)
  | 0, _, _ => rfl
  | fuel + 1, m, pc => by
    rw [exec_succ, exec_succ]
    cases hi : prog[pc]? with
    | none =>
      rw [List.getElem?_eq_none (by rw [← h.length_eq]; exact List.getElem?_eq_none_iff.1 hi)]
      rfl
    | some i =>
      obtain ⟨i', hi', hrel⟩ := forall₂_getElem? h hi
      rw [hi']
      simp only
      unfold RetMapped at hrel
      split_ifs at hrel with hret hclass
      -- a constant return: the value is mapped
      · subst hrel
        rw [step_ret_k load len i hret, step_ret_k load len { i with k := g i.k } hret]
        rfl
      -- another return-class instruction returns `A`, as the mapped one does, or is invalid
      · obtain ⟨k, rfl⟩ := hrel
        rw [step_ret_class load len hclass hret, step_ret_class load len (i := { i with k := k }) hclass hret]
        split_ifs <;> rfl
      -- any other instruction steps as it did, and the runs go on from the same machine
      · subst hrel
        cases hstep : step load len i' m with
        | next m' skip => exact exec_map_ret g h fuel m' _
        | ret r =>
          cases r with
          | const k => exact absurd (code_of_step_ret_const load len hstep) hret
          | acc a => rfl
          | zero => rfl
        | invalid => rfl

/-- A program whose run does not depend on the accumulator it starts with, as
one that loads `A` before it reads it. -/
def IndependentOfInitialA (prog : List Insn) : Prop :=
  ∀ a, exec load len prog prog.length { Machine.init with A := a } 0 = run load len prog

end Exec

end ClassicBpf
