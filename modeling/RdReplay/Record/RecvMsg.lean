/-
  Record/RecvMsg.lean --- the buffers rd registers for `recvmmsg`.

  Source: `record_syscall.rs`: `ParamSize`'s constructors (`From<usize>`,
  `from_initialized_mem`, `from_mem`, `limit_size`), `prepare_recvmsg`,
  `prepare_recvmmsg` and the `RECVMMSG` case of `rec_prepare_syscall_arch`;
  `arch_structs.rs`: `msghdr`, `iovec`, `mmsghdr`.

  LAYOUT.  In `msghdr<Arch>` every field is a word but `msg_namelen`, a `u32`
  padded to one, and `msg_flags`, an `i32` padded to one; `mmsghdr<Arch>` puts
  its `u32` `msg_len` after the seven words of its `msghdr`.

  THE RESULTS.  Every registration `prepare_recvmmsg` makes keeps the state
  `Registered`, with sizes as rd's constructors build them (`WellSourced`), so
  the greedy split of `ParamSizes` applies to `recvmmsg`.  The iovec buffers of
  a message are bounded by its `msg_len`, which lies in the registered
  `mmsghdr` array: with scratch it is read from the array's copy in scratch.
  Nothing keeps an iovec out of the scratch area.  When the first iovec points
  at that copy of `msg_len`, its copy back writes the received bytes over the
  count the second iovec's size is read from, and `ParamSize::eval`'s
  `ed_assert!(t, already_consumed <= mem_size)` fails
  (`recvmmsg_into_scratch_copy_fails_size_assertion`).
-/
import RdReplay.Record.ParamSizes

set_option autoImplicit false

namespace RdReplay.Record

/-! ## Sizes -/

namespace ParamSize

/-- `From<usize>`: a known size, at most `i32::MAX`. -/
def from_size (siz : Nat) : ParamSize := ⟨min (2 ^ 31 - 1) siz, 0, 0, false⟩

/-- `from_initialized_mem`: the `read_size`-byte word at `p` holds the
buffer's size now, and the kernel writes the size of the data there. -/
def from_initialized_mem (mem : Nat → UInt8) (p read_size : Nat) : ParamSize :=
  { from_size (if p = 0 then 0 else le_value (read_mem mem p read_size)) with mem_ptr := p, read_size }

/-- `from_mem`: the kernel writes the size of the data in the `read_size`-byte
word at `p`. -/
def from_mem (p read_size : Nat) : ParamSize := ⟨2 ^ 31 - 1, p, read_size, false⟩

/-- `limit_size`. -/
def limit_size (self : ParamSize) (max : Nat) : ParamSize :=
  { self with incoming_size := min self.incoming_size max }

theorem from_size_wellSourced (siz : Nat) : (from_size siz).WellSourced :=
  ⟨.inl rfl, fun h => by simp [ParamSize.source, from_size] at h⟩

theorem from_initialized_mem_wellSourced (mem : Nat → UInt8) (p : Nat) {read_size : Nat}
    (h : read_size = 4 ∨ read_size = 8) : (from_initialized_mem mem p read_size).WellSourced :=
  ⟨.inr rfl, fun _ => h⟩

theorem from_mem_wellSourced (p : Nat) : (from_mem p 4).WellSourced :=
  ⟨.inr rfl, fun _ => .inl rfl⟩

theorem WellSourced.limit_size {num_bytes : ParamSize} (h : num_bytes.WellSourced) (max : Nat) :
    (num_bytes.limit_size max).WellSourced :=
  ⟨h.one_source, h.read_size⟩

end ParamSize

/-! ## Layout -/

/-- `offset_of!(msghdr<Arch>, msg_namelen)`; `msg_name` is at 0. -/
def msg_namelen_offset (arch : SupportedArch) : Nat := word_size arch

/-- `offset_of!(msghdr<Arch>, msg_iov)`. -/
def msg_iov_offset (arch : SupportedArch) : Nat := 2 * word_size arch

/-- `offset_of!(msghdr<Arch>, msg_iovlen)`. -/
def msg_iovlen_offset (arch : SupportedArch) : Nat := 3 * word_size arch

/-- `offset_of!(msghdr<Arch>, msg_control)`. -/
def msg_control_offset (arch : SupportedArch) : Nat := 4 * word_size arch

/-- `offset_of!(msghdr<Arch>, msg_controllen)`. -/
def msg_controllen_offset (arch : SupportedArch) : Nat := 5 * word_size arch

/-- `offset_of!(mmsghdr<Arch>, msg_len)`; `msg_hdr` is at 0. -/
def msg_len_offset (arch : SupportedArch) : Nat := 7 * word_size arch

/-- `size_of::<mmsghdr<Arch>>()`. -/
def mmsghdr_size (arch : SupportedArch) : Nat := 8 * word_size arch

/-- `size_of::<iovec<Arch>>()`; `iov_base` is at 0 and `iov_len` one word on. -/
def iovec_size (arch : SupportedArch) : Nat := 2 * word_size arch

/-- `MSG_DONTWAIT`. -/
def MSG_DONTWAIT : Nat := 0x40

/-! ## Preparing -/

/-- The loop of `prepare_recvmsg` over the iovecs at `iovecsp`: the buffer of
iovec `i` is at its `iov_base`, and its size is `io_size` limited to its
`iov_len`. -/
def register_iovecs (t : SyscallTask) (iovecsp : Nat) (io_size : ParamSize) :
    TaskSyscallState → List Nat → Option TaskSyscallState
  | st, [] => some st
  | st, i :: rest => do
    let iovec := wrapping_add iovecsp (i * iovec_size t.arch)
    let iov_len := get_remote_ptr t.mem t.arch (wrapping_add iovec (word_size t.arch))
    let (st, _) ← st.mem_ptr_parameter_with_size t iovec (io_size.limit_size iov_len) none none
    register_iovecs t iovecsp io_size st rest

/-- `prepare_recvmsg`: the name buffer bounded by `msg_namelen`, the iovec
array as an input, each iovec's buffer bounded by `io_size`, and the control
buffer bounded by `msg_controllen`.  Preparing writes no tracee memory, so the
`msghdr` and the iovecs are read from `t.mem` throughout. -/
def prepare_recvmsg (st : TaskSyscallState) (t : SyscallTask) (msgp : Nat) (io_size : ParamSize) :
    Option TaskSyscallState := do
  let namelen_ptr := wrapping_add msgp (msg_namelen_offset t.arch)
  let (st, _) ← st.mem_ptr_parameter_with_size t msgp (ParamSize.from_initialized_mem t.mem namelen_ptr 4)
    none none
  let msg_iovlen := get_remote_ptr t.mem t.arch (wrapping_add msgp (msg_iovlen_offset t.arch))
  -- `size_of::<iovec<Arch>>() * msg_iovlen` is a `usize` product
  let (st, iovecsp) ← st.mem_ptr_parameter_with_size t (wrapping_add msgp (msg_iov_offset t.arch))
    (ParamSize.from_size (iovec_size t.arch * msg_iovlen % 2 ^ 64)) (some .In) none
  let st ← register_iovecs t iovecsp io_size st (List.range msg_iovlen)
  let controllen_ptr := wrapping_add msgp (msg_controllen_offset t.arch)
  let (st, _) ← st.mem_ptr_parameter_with_size t (wrapping_add msgp (msg_control_offset t.arch))
    (ParamSize.from_initialized_mem t.mem controllen_ptr (word_size t.arch)) none none
  pure st

/-- `prepare_recvmmsg` over the messages `is` of the array at `mmsgp`: each
message's iovec buffers are bounded by the `u32` `msg_len` the kernel writes. -/
def prepare_recvmmsg (t : SyscallTask) (mmsgp : Nat) : TaskSyscallState → List Nat → Option TaskSyscallState
  | st, [] => some st
  | st, i :: rest => do
    let msgp := wrapping_add mmsgp (i * mmsghdr_size t.arch)
    let st ← prepare_recvmsg st t msgp (ParamSize.from_mem (wrapping_add msgp (msg_len_offset t.arch)) 4)
    prepare_recvmmsg t mmsgp st rest

/-- The `RECVMMSG` case of `rec_prepare_syscall_arch`: the `mmsghdr` array at
argument 2 as an input and output, then the buffers of its `vlen` messages;
the syscall may switch unless it is `MSG_DONTWAIT`. -/
def prepare_recvmmsg_syscall (st : TaskSyscallState) (t : SyscallTask) :
    Option (TaskSyscallState × Switchable) := do
  let vlen := t.args 3 % 2 ^ 32
  let (st, mmsgp) ← st.reg_parameter_with_size 2 (ParamSize.from_size (mmsghdr_size t.arch * vlen)) (some .InOut) none
  let st ← prepare_recvmmsg t mmsgp st (List.range vlen)
  pure (st, if t.args 4 % 2 ^ 32 &&& MSG_DONTWAIT = 0 then .AllowSwitch else .PreventSwitch)

/-! ## What preparing keeps -/

/-- A registered state whose sizes are all as rd's constructors build them. -/
structure RecvInv (t : SyscallTask) (st : TaskSyscallState) : Prop where
  registered : Registered t st
  wellSourced : ∀ p ∈ st.param_list, p.num_bytes.WellSourced

theorem RecvInv.init (t : SyscallTask) :
    RecvInv t ({ TaskSyscallState.new with syscall_entry_registers := t.args }.init t) :=
  ⟨.init, fun p hp => by simp [TaskSyscallState.init, TaskSyscallState.new] at hp⟩

theorem RecvInv.of_push {t : SyscallTask} {st st' : TaskSyscallState} {dest : Nat} {param_size : ParamSize}
    {mode : ArgMode} {maybe_mutator : Option ArgMutator} {loc : PtrLoc} (hI : RecvInv t st)
    (hsize : param_size.WellSourced) (h : st.push_param dest param_size mode maybe_mutator loc = some st') :
    ∀ p ∈ st'.param_list, p.num_bytes.WellSourced := by
  obtain ⟨param, hlist, -, -, -, -, -, hnb, -⟩ := push_param_eq_some h
  intro p hp
  rw [hlist, List.mem_append, List.mem_singleton] at hp
  rcases hp with hp | rfl
  · exact hI.wellSourced p hp
  · exact hnb ▸ hsize

/-- One registration through memory keeps the invariant. -/
theorem RecvInv.mem_ptr_parameter {t : SyscallTask} {st st' : TaskSyscallState} {addr_of_buf_ptr dest : Nat}
    {param_size : ParamSize} {maybe_mode : Option ArgMode} {maybe_mutator : Option ArgMutator}
    (hI : RecvInv t st) (hsize : param_size.WellSourced)
    (h : st.mem_ptr_parameter_with_size t addr_of_buf_ptr param_size maybe_mode maybe_mutator = some (st', dest)) :
    RecvInv t st' := by
  refine ⟨.mem_ptr_parameter _ _ _ _ hI.registered h, ?_⟩
  rcases mem_ptr_parameter_with_size_cases h with rfl | ⟨-, -, -, hpush⟩
  · exact hI.wellSourced
  · exact hI.of_push hsize hpush

/-- One registration through a register keeps the invariant. -/
theorem RecvInv.reg_parameter {t : SyscallTask} {st st' : TaskSyscallState} {arg dest : Nat}
    {param_size : ParamSize} {maybe_mode : Option ArgMode} {maybe_mutator : Option ArgMutator}
    (hI : RecvInv t st) (hsize : param_size.WellSourced)
    (h : st.reg_parameter_with_size arg param_size maybe_mode maybe_mutator = some (st', dest)) :
    RecvInv t st' := by
  refine ⟨.reg_parameter _ _ _ _ hI.registered h, ?_⟩
  rcases reg_parameter_with_size_cases h with rfl | ⟨-, -, hpush⟩
  · exact hI.wellSourced
  · exact hI.of_push hsize hpush

theorem RecvInv.register_iovecs {t : SyscallTask} {iovecsp : Nat} {io_size : ParamSize}
    (hio : io_size.WellSourced) :
    ∀ (is : List Nat) {st st' : TaskSyscallState}, RecvInv t st → register_iovecs t iovecsp io_size st is = some st' →
      RecvInv t st'
  | [], _, _, hI, h => by
    cases h
    exact hI
  | i :: rest, st, st', hI, h => by
    simp only [Record.register_iovecs, Option.bind_eq_bind, Option.bind_eq_some_iff] at h
    obtain ⟨⟨st₁, dest⟩, h₁, h⟩ := h
    exact RecvInv.register_iovecs hio rest (hI.mem_ptr_parameter (hio.limit_size _) h₁) h

/-- `prepare_recvmsg` keeps the invariant: its four kinds of registration
all use sizes rd's constructors build. -/
theorem RecvInv.prepare_recvmsg {t : SyscallTask} {st st' : TaskSyscallState} {msgp : Nat}
    {io_size : ParamSize} (hI : RecvInv t st) (hio : io_size.WellSourced)
    (h : prepare_recvmsg st t msgp io_size = some st') : RecvInv t st' := by
  have hword : word_size t.arch = 4 ∨ word_size t.arch = 8 := by
    cases t.arch
    · exact .inl rfl
    · exact .inr rfl
  simp only [Record.prepare_recvmsg, Option.bind_eq_bind, Option.bind_eq_some_iff, Option.pure_def,
    Option.some.injEq] at h
  obtain ⟨⟨st₁, _⟩, h₁, ⟨st₂, iovecsp⟩, h₂, st₃, h₃, ⟨st₄, _⟩, h₄, rfl⟩ := h
  -- the name buffer, the iovec array, the iovec buffers, the control buffer
  have hI₁ := hI.mem_ptr_parameter (ParamSize.from_initialized_mem_wellSourced _ _ (.inl rfl)) h₁
  have hI₂ := hI₁.mem_ptr_parameter (ParamSize.from_size_wellSourced _) h₂
  have hI₃ := RecvInv.register_iovecs hio _ hI₂ h₃
  exact hI₃.mem_ptr_parameter (ParamSize.from_initialized_mem_wellSourced _ _ hword) h₄

theorem RecvInv.prepare_recvmmsg {t : SyscallTask} {mmsgp : Nat} :
    ∀ (is : List Nat) {st st' : TaskSyscallState}, RecvInv t st → prepare_recvmmsg t mmsgp st is = some st' →
      RecvInv t st'
  | [], _, _, hI, h => by
    cases h
    exact hI
  | i :: rest, st, st', hI, h => by
    simp only [Record.prepare_recvmmsg, Option.bind_eq_bind, Option.bind_eq_some_iff] at h
    obtain ⟨st₁, h₁, h⟩ := h
    exact RecvInv.prepare_recvmmsg rest (hI.prepare_recvmsg (ParamSize.from_mem_wellSourced _) h₁) h

/-- Preparing `recvmmsg` from the initial state gives a registered state
whose sizes are all as rd's constructors build them: the conditions
`process_syscall_results_greedy_sizes` takes of the registrations. -/
theorem prepare_recvmmsg_syscall_recvInv {t : SyscallTask} {st : TaskSyscallState} {sw : Switchable}
    (h : prepare_recvmmsg_syscall ({ TaskSyscallState.new with syscall_entry_registers := t.args }.init t) t =
      some (st, sw)) :
    RecvInv t st := by
  simp only [prepare_recvmmsg_syscall, Option.bind_eq_bind, Option.bind_eq_some_iff, Option.pure_def,
    Option.some.injEq] at h
  obtain ⟨⟨st₁, mmsgp⟩, h₁, st₂, h₂, hst⟩ := h
  rw [← (Prod.mk.inj hst).1]
  exact ((RecvInv.init t).reg_parameter (ParamSize.from_size_wellSourced _) h₁).prepare_recvmmsg _ h₂

/-! ## A buffer over the scratch copy of `msg_len` -/

/-- An x64 task with a scratch area at `0x10000`, about to receive one
message into the array at `0x2000`.  The message has no name and no control
buffer, and two iovecs of 8 bytes at `0x3000`: the first at `0x10038`, where
the scratch copy of the array holds the message's `msg_len`, and the second at
`0x4000`. -/
def recvmmsg_task : SyscallTask where
  mem := write_bytes
    (write_bytes (fun _ => 0) 0x2000 (le_bytes 16 0 ++ le_bytes 8 0x3000 ++ le_bytes 8 2))
    0x3000 (le_bytes 8 0x10038 ++ le_bytes 8 8 ++ le_bytes 8 0x4000 ++ le_bytes 8 8)
  args := fun i => if i = 2 then 0x2000 else if i = 3 then 1 else 0
  syscall_result_signed := 0
  scratch_ptr := 0x10000
  usable_scratch_size := 0x1000
  arch := .X64

/-- The state `prepare_recvmmsg_syscall` leaves for `recvmmsg_task`. -/
def recvmmsg_state : TaskSyscallState :=
  ((prepare_recvmmsg_syscall ({ TaskSyscallState.new with syscall_entry_registers := recvmmsg_task.args }.init
    recvmmsg_task) recvmmsg_task).map Prod.fst).getD TaskSyscallState.new

/-- The task after the syscall received 8 bytes, all zero, into the first
iovec's slot: the kernel writes their count to `msg_len` in the scratch copy of
the array, and returns one message. -/
def recvmmsg_exit (t : SyscallTask) : SyscallTask :=
  { t with mem := write_bytes t.mem 0x10038 (le_bytes 4 8), syscall_result_signed := 1 }

/-- `InScratchBuffer`, checked: exactly one buffer contains `ptr`, and it has
a slot and holds the `len` bytes from `ptr`. -/
def in_scratch_buffer_check (ps : List MemoryParam) (ptr len : Nat) : Bool :=
  match ps.filter fun q => decide (q.dest ≤ ptr ∧ ptr < wrapping_add q.dest q.num_bytes.incoming_size) with
  | [k] => decide (k.mode ≠ .InOutNoScratch ∧ ptr + len ≤ k.dest + k.num_bytes.incoming_size ∧
      k.dest + k.num_bytes.incoming_size < 2 ^ 64)
  | _ => false

theorem inScratchBuffer_of_check {ps : List MemoryParam} {ptr len : Nat}
    (h : in_scratch_buffer_check ps ptr len = true) : InScratchBuffer ps ptr len := by
  unfold in_scratch_buffer_check at h
  split at h
  case h_2 => cases h
  case h_1 k hfilter =>
  obtain ⟨hmode, hhi, hwrap⟩ := of_decide_eq_true h
  have hk := List.mem_filter.1 (hfilter ▸ List.mem_singleton_self k)
  -- the buffer found is the only one that contains `ptr`
  refine ⟨k, hk.1, hmode, (of_decide_eq_true hk.2).1, hhi, hwrap, fun q hq hlo hlt => ?_⟩
  have hqmem : q ∈ ps.filter fun q => decide (q.dest ≤ ptr ∧ ptr < wrapping_add q.dest q.num_bytes.incoming_size) :=
    List.mem_filter.2 ⟨hq, decide_eq_true ⟨hlo, hlt⟩⟩
  rwa [hfilter, List.mem_singleton] at hqmem

/-- rd's `recvmmsg` preparation registers the array, the iovec array and the
two iovec buffers, each size word in a registered buffer, and the syscall runs
on scratch.  The first iovec's buffer is an output inside the scratch area.
After the syscall, copying it back writes its 8 zero bytes over the scratch
copy of `msg_len`, so the second iovec's size reads `0` there while the first
took `8` of it: the assertion fails, and `process_syscall_results` does not
return. -/
theorem recvmmsg_into_scratch_copy_fails_size_assertion :
    prepare_recvmmsg_syscall ({ TaskSyscallState.new with syscall_entry_registers := recvmmsg_task.args }.init
        recvmmsg_task) recvmmsg_task = some (recvmmsg_state, .AllowSwitch) ∧
      Registered recvmmsg_task recvmmsg_state ∧
      (∀ p ∈ recvmmsg_state.param_list, p.num_bytes.WellSourced) ∧
      (∀ p ∈ recvmmsg_state.param_list, p.num_bytes.mem_ptr ≠ 0 →
        InScratchBuffer recvmmsg_state.param_list p.num_bytes.mem_ptr p.num_bytes.read_size) ∧
      ScratchUsed recvmmsg_task recvmmsg_state .AllowSwitch ∧
      recvmmsg_task.scratch_ptr + scratch_demand recvmmsg_state.param_list < 2 ^ 64 ∧
      recvmmsg_state.param_list.map (fun p => (p.dest, p.num_bytes.incoming_size, p.mode)) =
        [(0x2000, 64, .InOut), (0x3000, 32, .In), (0x10038, 8, .Out), (0x4000, 8, .Out)] ∧
      ((recvmmsg_state.done_preparing recvmmsg_task .AllowSwitch).bind fun r =>
        (r.1.process_syscall_results (recvmmsg_exit r.2.1)).map fun r' => r'.2.2) = none := by
  -- one evaluation of the preparation and the run
  obtain ⟨hsw, hwords, hused, hdemand, hlist, hnone⟩ :
      (prepare_recvmmsg_syscall ({ TaskSyscallState.new with syscall_entry_registers := recvmmsg_task.args }.init
          recvmmsg_task) recvmmsg_task).map Prod.snd = some .AllowSwitch ∧
        (recvmmsg_state.param_list.all fun p => p.num_bytes.mem_ptr = 0 ||
          in_scratch_buffer_check recvmmsg_state.param_list p.num_bytes.mem_ptr p.num_bytes.read_size) = true ∧
        ScratchUsed recvmmsg_task recvmmsg_state .AllowSwitch ∧
        recvmmsg_task.scratch_ptr + scratch_demand recvmmsg_state.param_list < 2 ^ 64 ∧
        recvmmsg_state.param_list.map (fun p => (p.dest, p.num_bytes.incoming_size, p.mode)) =
          [(0x2000, 64, .InOut), (0x3000, 32, .In), (0x10038, 8, .Out), (0x4000, 8, .Out)] ∧
        ((recvmmsg_state.done_preparing recvmmsg_task .AllowSwitch).bind fun r =>
          (r.1.process_syscall_results (recvmmsg_exit r.2.1)).map fun r' => r'.2.2) = none := by
    decide +kernel
  obtain ⟨⟨st, sw⟩, hprep, rfl⟩ := Option.map_eq_some_iff.1 hsw
  have hst : recvmmsg_state = st := by
    unfold recvmmsg_state
    rw [hprep]
    rfl
  subst hst
  have hI := prepare_recvmmsg_syscall_recvInv hprep
  refine ⟨hprep, hI.registered, hI.wellSourced, fun p hp hm => inScratchBuffer_of_check ?_, hused, hdemand, hlist,
    hnone⟩
  have := List.all_eq_true.1 hwords p hp
  simpa [hm] using this

end RdReplay.Record
