/-
  Record/SyscallState.lean --- the memory parameters of a syscall being
  recorded: where they live in scratch, how their sizes are found after the
  syscall, and how rd puts the tracee back.

  Source: `record_syscall.rs`: `ParamSize` (`eval`, `is_same_source`),
  `ArgMode`, `MemoryParam`, `TaskSyscallState` (`new`, `init`,
  `reg_parameter_with_size`, `mem_ptr_parameter_with_size`,
  `relocate_pointer_to_scratch`, `eval_param_size`, `done_preparing`,
  `done_preparing_internal`, `process_syscall_results`,
  `abort_syscall_results`), `align_scratch`, `get_remote_ptr` and
  `set_remote_ptr`.

  THE LIFE OF A SYSCALL.  While preparing, each buffer argument is registered
  as a `MemoryParam`; unless it must stay in place, it gets the next 8-aligned
  slot of the task's scratch area.  `done_preparing` then either moves the
  buffers to scratch (copying the inputs, pointing the registers and in-memory
  pointers at the copies, and moving each in-memory size source with them) or
  leaves them in place, and runs the mutators.  After the syscall
  `process_syscall_results` works out each parameter's final size, from the
  syscall result or a word in memory, shared greedily among the parameters that
  read the same source, and copies the outputs back; if the syscall is
  abandoned, `abort_syscall_results` undoes what preparing changed.

  THE MODEL.  Tracee memory is a total byte map and the argument registers a
  map from argument number to value: a read or write that fails is fatal in
  rd, and the model covers the runs where none does.  An `ed_assert!` or
  `assert!`, an unknown read size and an out-of-range slice are `none`.
  `RemotePtr` arithmetic wraps, as `wrapping_add` and `wrapping_sub`; the
  `debug_assert!`s of `relocate_pointer_to_scratch` are not checked, as in a
  release build.  A mutator is modelled by the protocol the state relies on:
  it sees the bytes of its region and either leaves them or replaces them by
  as many new ones, the old ones being what it saves.
-/
import RdReplay.Record.RobustFutex

set_option autoImplicit false

namespace RdReplay.Record

/-! ## Tracee memory and registers -/

/-- `read_mem` of `n` bytes at `addr`. -/
def read_mem (mem : Nat → UInt8) (addr n : Nat) : List UInt8 :=
  (List.range n).map fun i => mem (addr + i)

/-- `get_remote_ptr`: the `Arch::unsigned_word` at `addr`. -/
def get_remote_ptr (mem : Nat → UInt8) (arch : SupportedArch) (addr : Nat) : Nat :=
  le_value (read_mem mem addr (word_size arch))

/-- `set_remote_ptr`: `value` written as an `Arch::unsigned_word` at `addr`. -/
def set_remote_ptr (mem : Nat → UInt8) (arch : SupportedArch) (addr value : Nat) : Nat → UInt8 :=
  write_bytes mem addr (le_bytes (word_size arch) value)

/-- The parts of a `RecordTask` the syscall state reads and writes. -/
structure SyscallTask where
  mem : Nat → UInt8
  /-- The syscall argument registers, by argument number. -/
  args : Nat → Nat
  syscall_result_signed : Int
  scratch_ptr : Nat
  usable_scratch_size : Nat
  arch : SupportedArch

/-! ## Parameter sizes -/

/-- `ArgMode`. -/
inductive ArgMode where
  | In
  | Out
  | InOut
  | InOutNoScratch
  deriving DecidableEq, Repr

/-- `Switchable`. -/
inductive Switchable where
  | PreventSwitch
  | AllowSwitch
  deriving DecidableEq, Repr

set_option linter.dupNamespace false in
/-- `WriteBack`. -/
inductive WriteBack where
  | WriteBack
  | NoWriteBack
  deriving DecidableEq, Repr

/-- `ParamSize`: the size known before the syscall, bounded after it by the
word at `mem_ptr` (when not null) and by the syscall result (when
`from_syscall`), each read as `read_size` bytes. -/
structure ParamSize where
  incoming_size : Nat
  mem_ptr : Nat
  read_size : Nat
  from_syscall : Bool
  deriving DecidableEq, Repr

/-- The syscall result as a size: `max(0, result) as usize`, truncated to
`read_size` bytes; `none` for a read size other than 4 or 8. -/
def syscall_size (syscall_result_signed : Int) (read_size : Nat) : Option Nat :=
  let s := (max 0 syscall_result_signed).toNat
  if read_size = 4 then some (s % 2 ^ 32)
  else if read_size = 8 then some s
  else none

/-- `read_val_mem` of the `u32` or `u64` at `ptr`; `none` for another size. -/
def read_size_value (mem : Nat → UInt8) (ptr read_size : Nat) : Option Nat :=
  if read_size = 4 ∨ read_size = 8 then some (le_value (read_mem mem ptr read_size)) else none

/-- `ParamSize::eval`: the incoming size, bounded by what each source has left
after `already_consumed` bytes went to earlier parameters. -/
def ParamSize.eval (self : ParamSize) (mem : Nat → UInt8) (syscall_result_signed : Int)
    (already_consumed : Nat) : Option Nat := do
  let s ← if self.mem_ptr ≠ 0 then do
      let mem_size ← read_size_value mem self.mem_ptr self.read_size
      if already_consumed ≤ mem_size then pure (min self.incoming_size (mem_size - already_consumed))
      else none
    else pure self.incoming_size
  if self.from_syscall then do
    let syscall_size ← syscall_size syscall_result_signed self.read_size
    if already_consumed ≤ syscall_size then pure (min s (syscall_size - already_consumed))
    else none
  else pure s

/-- `ParamSize::is_same_source`. -/
def ParamSize.is_same_source (self other : ParamSize) : Bool :=
  ((self.mem_ptr != 0 && other.mem_ptr == self.mem_ptr) || (self.from_syscall && other.from_syscall)) &&
    self.read_size == other.read_size

/-! ## Memory parameters -/

/-- An `ArgMutator`, as the protocol the syscall state relies on: given the
bytes of its region it leaves them (`none`, the Rust `false`) or replaces
them by as many new bytes. -/
structure ArgMutator where
  mutate : List UInt8 → Option (List UInt8)
  length_eq : ∀ bs new, mutate bs = some new → new.length = bs.length

/-- `MemoryParam`. -/
structure MemoryParam where
  dest : Nat
  scratch : Nat
  num_bytes : ParamSize
  ptr_in_memory : Nat
  ptr_in_reg : Nat
  mode : ArgMode
  maybe_mutator : Option ArgMutator

/-- `TaskSyscallState`, with the fields the parameter handling uses. -/
structure TaskSyscallState where
  param_list : List MemoryParam
  scratch : Nat
  /-- The argument registers at syscall entry. -/
  syscall_entry_registers : Nat → Nat
  switchable : Switchable
  write_back : WriteBack
  preparation_done : Bool
  scratch_enabled : Bool
  saved_data : List UInt8

namespace TaskSyscallState

/-- `TaskSyscallState::new`. -/
def new : TaskSyscallState where
  param_list := []
  scratch := 0
  syscall_entry_registers := fun _ => 0
  switchable := .PreventSwitch
  write_back := .NoWriteBack
  preparation_done := false
  scratch_enabled := false
  saved_data := []

/-- `init`: allocation starts at the task's scratch area. -/
def init (st : TaskSyscallState) (t : SyscallTask) : TaskSyscallState :=
  if st.preparation_done then st else { st with scratch := t.scratch_ptr }

end TaskSyscallState

/-- `align_scratch`: round up to a multiple of `amount`, 8 by default. -/
def align_scratch (scratch : Nat) (maybe_amount : Option Nat) : Nat :=
  let amount := maybe_amount.getD 8
  wrapping_sub (wrapping_add scratch amount) 1 &&& (2 ^ 64 - 1 - wrapping_sub amount 1)

/-- Where the pointer to a parameter's buffer is kept. -/
inductive PtrLoc where
  | reg (arg : Nat)
  | mem (addr_of_buf_ptr : Nat)

namespace TaskSyscallState

/-- The tail `reg_parameter_with_size` and `mem_ptr_parameter_with_size`
share: the parameter pushed on `param_list`, with the next scratch slot and
the place of its pointer unless it must not use scratch.  `none` is the
assertion that only an `In` parameter has a mutator. -/
def push_param (st : TaskSyscallState) (dest : Nat) (param_size : ParamSize) (mode : ArgMode)
    (maybe_mutator : Option ArgMutator) (loc : PtrLoc) : Option TaskSyscallState :=
  if maybe_mutator.isSome ∧ mode ≠ .In then none
  else
    let param : MemoryParam := ⟨dest, 0, param_size, 0, 0, mode, maybe_mutator⟩
    if mode ≠ .InOutNoScratch then
      let param := match loc with
        | .reg arg => { param with scratch := st.scratch, ptr_in_reg := arg }
        | .mem addr_of_buf_ptr => { param with scratch := st.scratch, ptr_in_memory := addr_of_buf_ptr }
      some { st with
        param_list := st.param_list ++ [param]
        scratch := align_scratch (wrapping_add st.scratch param_size.incoming_size) none }
    else some { st with param_list := st.param_list ++ [param] }

/-- `reg_parameter_with_size`: the buffer whose address is in argument
register `arg`; returns the state and the buffer's address, null when
preparation is done or the register holds null. -/
def reg_parameter_with_size (st : TaskSyscallState) (arg : Nat) (param_size : ParamSize)
    (maybe_mode : Option ArgMode) (maybe_mutator : Option ArgMutator) :
    Option (TaskSyscallState × Nat) :=
  let mode := maybe_mode.getD .Out
  if st.preparation_done then some (st, 0)
  else
    let dest := st.syscall_entry_registers arg
    if dest = 0 then some (st, 0)
    else (st.push_param dest param_size mode maybe_mutator (.reg arg)).map (·, dest)

/-- `mem_ptr_parameter_with_size`: the buffer whose address is the word at
`addr_of_buf_ptr` in tracee memory. -/
def mem_ptr_parameter_with_size (st : TaskSyscallState) (t : SyscallTask) (addr_of_buf_ptr : Nat)
    (param_size : ParamSize) (maybe_mode : Option ArgMode) (maybe_mutator : Option ArgMutator) :
    Option (TaskSyscallState × Nat) :=
  let mode := maybe_mode.getD .Out
  if st.preparation_done ∨ addr_of_buf_ptr = 0 then some (st, 0)
  else
    let dest := get_remote_ptr t.mem t.arch addr_of_buf_ptr
    if dest = 0 then some (st, 0)
    else (st.push_param dest param_size mode maybe_mutator (.mem addr_of_buf_ptr)).map (·, dest)

/-- `relocate_pointer_to_scratch`: `ptr`, an address inside some parameter's
buffer, moved to the same place in that parameter's scratch copy.  The last
parameter containing it wins, and an address inside none becomes null. -/
def relocate_pointer_to_scratch (st : TaskSyscallState) (ptr : Nat) : Nat :=
  st.param_list.foldl (fun result param =>
    if param.dest ≤ ptr ∧ ptr < wrapping_add param.dest param.num_bytes.incoming_size then
      wrapping_add param.scratch (wrapping_sub ptr param.dest)
    else result) 0

end TaskSyscallState

/-! ## Preparing -/

/-- Step 1 of `done_preparing_internal`, for one parameter: an input's buffer
copied to its scratch slot. -/
def copy_param_to_scratch (mem : Nat → UInt8) (param : MemoryParam) : Nat → UInt8 :=
  if param.mode = .InOut ∨ param.mode = .In then
    write_bytes mem param.scratch (read_mem mem param.dest param.num_bytes.incoming_size)
  else mem

/-- Step 1 of `done_preparing_internal`. -/
def copy_params_to_scratch (param_list : List MemoryParam) (mem : Nat → UInt8) : Nat → UInt8 :=
  param_list.foldl copy_param_to_scratch mem

/-- Step 2 of `done_preparing_internal` on registers and memory, for one
parameter: its pointer, in a register or in memory (found in scratch),
pointed at its scratch slot. -/
def point_param_to_scratch (st : TaskSyscallState) (arch : SupportedArch)
    (acc : (Nat → Nat) × (Nat → UInt8)) (param : MemoryParam) : (Nat → Nat) × (Nat → UInt8) :=
  let args := if param.ptr_in_reg ≠ 0 then Function.update acc.1 param.ptr_in_reg param.scratch else acc.1
  let mem := if param.ptr_in_memory ≠ 0 then
      set_remote_ptr acc.2 arch (st.relocate_pointer_to_scratch param.ptr_in_memory) param.scratch
    else acc.2
  (args, mem)

/-- Step 2 of `done_preparing_internal` on registers and memory. -/
def point_params_to_scratch (st : TaskSyscallState) (arch : SupportedArch) (args : Nat → Nat)
    (mem : Nat → UInt8) : (Nat → Nat) × (Nat → UInt8) :=
  st.param_list.foldl (point_param_to_scratch st arch) (args, mem)

/-- A size read from memory, read from the scratch copy instead. -/
def TaskSyscallState.relocate_size (st : TaskSyscallState) (num_bytes : ParamSize) : ParamSize :=
  if num_bytes.mem_ptr ≠ 0 then { num_bytes with mem_ptr := st.relocate_pointer_to_scratch num_bytes.mem_ptr }
  else num_bytes

/-- Step 2 of `done_preparing_internal`, on the parameters: each size read
from memory is read from the scratch copy instead. -/
def relocate_size_sources (st : TaskSyscallState) : List MemoryParam :=
  st.param_list.map fun param => { param with num_bytes := st.relocate_size param.num_bytes }

/-- `done_preparing_internal`. -/
def TaskSyscallState.done_preparing_internal (st : TaskSyscallState) (t : SyscallTask) (sw : Switchable) :
    Option (TaskSyscallState × SyscallTask) :=
  if st.preparation_done then none
  else
    let st := { st with preparation_done := true, write_back := .WriteBack, switchable := sw }
    if t.scratch_ptr = 0 then some (st, t)
    else if st.scratch < t.scratch_ptr then none
    else
      -- Not enough scratch: the syscall runs on the tracee's own buffers.
      let st := if sw = .AllowSwitch ∧ wrapping_add t.scratch_ptr t.usable_scratch_size < st.scratch then
          { st with switchable := .PreventSwitch } else st
      if st.switchable = .PreventSwitch ∨ st.param_list = [] then some (st, t)
      else
        let st := { st with scratch_enabled := true }
        let mem := copy_params_to_scratch st.param_list t.mem
        let (args, mem) := point_params_to_scratch st t.arch t.args mem
        some ({ st with param_list := relocate_size_sources st }, { t with mem, args })

/-- Step 3 of `done_preparing`: the mutators, in registration order, on the
scratch copy when scratch is enabled and on the buffer itself otherwise; in
the second case the bytes each changes are appended to the saved data.  A
mutator that changes nothing is dropped. -/
def run_mutators (scratch_enabled : Bool) :
    List MemoryParam → (Nat → UInt8) → List UInt8 → List MemoryParam × (Nat → UInt8) × List UInt8
  | [], mem, saved_data => ([], mem, saved_data)
  | param :: rest, mem, saved_data =>
    match param.maybe_mutator with
    | none =>
      let r := run_mutators scratch_enabled rest mem saved_data
      (param :: r.1, r.2)
    | some mutator =>
      let addr := if scratch_enabled then param.scratch else param.dest
      let old := read_mem mem addr param.num_bytes.incoming_size
      match mutator.mutate old with
      | none =>
        let r := run_mutators scratch_enabled rest mem saved_data
        ({ param with maybe_mutator := none } :: r.1, r.2)
      | some new =>
        let saved_data := if scratch_enabled then saved_data else saved_data ++ old
        let r := run_mutators scratch_enabled rest (write_bytes mem addr new) saved_data
        (param :: r.1, r.2)

/-- `done_preparing`: the state, the task and whether the syscall may switch. -/
def TaskSyscallState.done_preparing (st : TaskSyscallState) (t : SyscallTask) (sw : Switchable) :
    Option (TaskSyscallState × SyscallTask × Switchable) :=
  if st.preparation_done then some (st, t, st.switchable)
  else do
    let (st, t) ← st.done_preparing_internal t sw
    let (param_list, mem, saved_data) := run_mutators st.scratch_enabled st.param_list t.mem st.saved_data
    some ({ st with param_list, saved_data }, { t with mem }, st.switchable)

/-! ## After the syscall -/

/-- `eval_param_size`: the size of parameter `i`, given the sizes of the
parameters before it; the bytes already taken from its source are those of
the earlier parameters with the same source. -/
def eval_param_size (param_list : List MemoryParam) (t : SyscallTask) (i : Nat)
    (actual_sizes : List Nat) : Option Nat := do
  if actual_sizes.length ≠ i then none
  let param ← param_list[i]?
  let already_consumed :=
    (((param_list.take i).zip actual_sizes).filter fun e =>
      e.1.num_bytes.is_same_source param.num_bytes).map Prod.snd |>.sum
  param.num_bytes.eval t.mem t.syscall_result_signed already_consumed

/-- The restoring loop of `abort_syscall_results` and of the non-scratch path
of `process_syscall_results`: each mutated buffer gets back the bytes saved
for it, taken from the front of the saved data. -/
def restore_mutated_memory : List MemoryParam → (Nat → UInt8) → List UInt8 → Option ((Nat → UInt8) × List UInt8)
  | [], mem, saved_data => some (mem, saved_data)
  | param :: rest, mem, saved_data =>
    if param.maybe_mutator.isSome then
      let size := param.num_bytes.incoming_size
      if saved_data.length < size then none
      else restore_mutated_memory rest (write_bytes mem param.dest (saved_data.take size)) (saved_data.drop size)
    else restore_mutated_memory rest mem saved_data

/-- The restoring loop of `abort_syscall_results` and of step 2 of
`process_syscall_results` with scratch, for one parameter: its pointer back at
the tracee's buffer. -/
def restore_pointer (arch : SupportedArch) (acc : (Nat → Nat) × (Nat → UInt8)) (param : MemoryParam) :
    (Nat → Nat) × (Nat → UInt8) :=
  let args := if param.ptr_in_reg ≠ 0 then Function.update acc.1 param.ptr_in_reg param.dest else acc.1
  let mem := if param.ptr_in_memory ≠ 0 then set_remote_ptr acc.2 arch param.ptr_in_memory param.dest else acc.2
  (args, mem)

/-- The restoring loop of `abort_syscall_results` and of step 2 of
`process_syscall_results` with scratch. -/
def restore_pointers (param_list : List MemoryParam) (arch : SupportedArch) (args : Nat → Nat)
    (mem : Nat → UInt8) : (Nat → Nat) × (Nat → UInt8) :=
  param_list.foldl (restore_pointer arch) (args, mem)

/-- Step 1 of `process_syscall_results` with scratch: each parameter's size,
and each output copied from the snapshot `data` of the scratch area back to
its buffer.  The sizes are evaluated on the memory as the copies leave it;
`none` is a failed size or a slice past the end of `data`. -/
def copy_back_loop (param_list : List MemoryParam) (write_back : WriteBack) (data : List UInt8)
    (scratch_ptr : Nat) (t : SyscallTask) : List MemoryParam → List Nat → Option (SyscallTask × List Nat)
  | [], actual_sizes => some (t, actual_sizes)
  | param :: rest, actual_sizes => do
    let size ← eval_param_size param_list t actual_sizes.length actual_sizes
    let t ← if write_back = .WriteBack ∧ (param.mode = .InOut ∨ param.mode = .Out) then
        let offset := wrapping_sub param.scratch scratch_ptr
        if data.length < offset + size then none
        else some { t with mem := write_bytes t.mem param.dest ((data.drop offset).take size) }
      else some t
    copy_back_loop param_list write_back data scratch_ptr t rest (actual_sizes ++ [size])

/-- Step 2 of `process_syscall_results` without scratch: each size, in
order. -/
def eval_param_sizes (param_list : List MemoryParam) (t : SyscallTask) :
    List MemoryParam → List Nat → Option (List Nat)
  | [], actual_sizes => some actual_sizes
  | _ :: rest, actual_sizes => do
    let size ← eval_param_size param_list t actual_sizes.length actual_sizes
    eval_param_sizes param_list t rest (actual_sizes ++ [size])

namespace TaskSyscallState

/-- `process_syscall_results`: the state, the task, and the final sizes of
the parameters.  Recording the outputs and the after-syscall actions are not
modelled. -/
def process_syscall_results (st : TaskSyscallState) (t : SyscallTask) :
    Option (TaskSyscallState × SyscallTask × List Nat) :=
  if ¬ st.preparation_done then none
  else if st.scratch_enabled then do
    let scratch_num_bytes := wrapping_sub st.scratch t.scratch_ptr
    let data := read_mem t.mem t.scratch_ptr scratch_num_bytes
    let (t, actual_sizes) ← copy_back_loop st.param_list st.write_back data t.scratch_ptr t st.param_list []
    let (args, mem) := restore_pointers st.param_list t.arch t.args t.mem
    some (st, { t with args, mem }, actual_sizes)
  else do
    let (mem, saved_data) ← restore_mutated_memory st.param_list t.mem st.saved_data
    if saved_data ≠ [] then none
    let t := { t with mem }
    let actual_sizes ← eval_param_sizes st.param_list t st.param_list []
    some ({ st with saved_data }, t, actual_sizes)

/-- `abort_syscall_results`. -/
def abort_syscall_results (st : TaskSyscallState) (t : SyscallTask) :
    Option (TaskSyscallState × SyscallTask) :=
  if ¬ st.preparation_done then none
  else if st.scratch_enabled then
    let (args, mem) := restore_pointers st.param_list t.arch t.args t.mem
    some (st, { t with args, mem })
  else do
    let (mem, saved_data) ← restore_mutated_memory st.param_list t.mem st.saved_data
    some ({ st with saved_data }, { t with mem })

end TaskSyscallState

end RdReplay.Record
