/-
  Record/ScratchLayout.lean --- what registering parameters builds, and where
  the pointers of `done_preparing` lead.

  REGISTRATION.  `Registered t` is every state that preparing a syscall of
  task `t` can build: `init`, then any sequence of `reg_parameter_with_size`
  and `mem_ptr_parameter_with_size`.  Both registrations either change nothing
  or push one parameter (`push_param_eq_some`), so each invariant is proved
  once for a push.  `RegInv` holds of every registered state: nothing is
  prepared yet, and each pointer a parameter records still holds the address
  of its buffer.  `ScratchLayout` holds when the scratch the registrations ask
  for does not run past the top of the address space (the allocation adds
  without checking): the slots are 8-aligned, in registration order, apart,
  and inside the area from the task's `scratch_ptr` to the state's `scratch`.

  RELOCATION.  `relocate_pointer_to_scratch` keeps the last parameter whose
  buffer holds the address.  For an address that lies in the buffer of exactly
  one parameter with a slot (`InScratchBuffer`, the condition of its two
  `debug_assert!`s) it is the same place in that slot, and two such addresses
  move to two places (`relocate_injective`).
-/
import RdReplay.Record.SyscallState

set_option autoImplicit false

namespace RdReplay.Record

/-! ## Reading and writing tracee memory -/

section Memory

variable {mem : Nat → UInt8} {addr a : Nat} {data : List UInt8}

@[simp] theorem length_read_mem (mem : Nat → UInt8) (addr n : Nat) : (read_mem mem addr n).length = n := by
  simp [read_mem]

theorem getD_read_mem {n i : Nat} (h : i < n) : (read_mem mem addr n).getD i 0 = mem (addr + i) := by
  simp [read_mem, List.getD_eq_getElem?_getD, h]

theorem write_bytes_outside (h : a < addr ∨ addr + data.length ≤ a) : write_bytes mem addr data a = mem a := by
  unfold write_bytes
  rw [if_neg (by omega)]

theorem write_bytes_inside (h1 : addr ≤ a) (h2 : a < addr + data.length) :
    write_bytes mem addr data a = data.getD (a - addr) 0 := by
  unfold write_bytes
  rw [if_pos ⟨h1, h2⟩]

/-- A read sees only the bytes it reads. -/
theorem read_mem_congr {mem' : Nat → UInt8} {p n : Nat} (h : ∀ i < n, mem (p + i) = mem' (p + i)) :
    read_mem mem p n = read_mem mem' p n := by
  unfold read_mem
  apply List.map_congr_left
  intro i hi
  exact h i (List.mem_range.1 hi)

/-- A write leaves a read of other bytes alone. -/
theorem read_mem_write_bytes_disjoint {p n : Nat} (h : p + n ≤ addr ∨ addr + data.length ≤ p) :
    read_mem (write_bytes mem addr data) p n = read_mem mem p n :=
  read_mem_congr fun _ _ => write_bytes_outside (by omega)

/-- A read of the bytes just written gives them back. -/
theorem read_mem_write_bytes_self : read_mem (write_bytes mem addr data) addr data.length = data := by
  apply List.ext_getElem (length_read_mem _ _ _)
  intro i h1 h2
  have hread : (read_mem (write_bytes mem addr data) addr data.length).getD i 0 =
      write_bytes mem addr data (addr + i) := getD_read_mem h2
  rw [List.getD_eq_getElem _ _ h1, write_bytes_inside (by omega) (by omega), Nat.add_sub_cancel_left,
    List.getD_eq_getElem _ _ h2] at hread
  exact hread

/-- A read splits where its bytes do. -/
theorem read_mem_add (mem : Nat → UInt8) (p m k : Nat) :
    read_mem mem p (m + k) = read_mem mem p m ++ read_mem mem (p + m) k := by
  unfold read_mem
  rw [List.range_add, List.map_append, List.map_map]
  congr 1
  apply List.map_congr_left
  intro i _
  simp only [Function.comp, Nat.add_assoc]

/-- Writing back what was read changes nothing. -/
theorem write_bytes_read_mem (n : Nat) : write_bytes mem addr (read_mem mem addr n) = mem := by
  funext b
  by_cases h : addr ≤ b ∧ b < addr + n
  · rw [write_bytes_inside h.1 (by simp; omega), getD_read_mem (by omega), Nat.add_sub_cancel' h.1]
  · exact write_bytes_outside (by simp; omega)

/-- A second write over the same bytes hides the first. -/
theorem write_bytes_write_bytes_same {data' : List UInt8} (hlen : data'.length = data.length) :
    write_bytes (write_bytes mem addr data) addr data' = write_bytes mem addr data' := by
  funext b
  by_cases h : addr ≤ b ∧ b < addr + data.length
  · rw [write_bytes_inside h.1 (by omega), write_bytes_inside h.1 (by omega)]
  · rw [write_bytes_outside (by omega), write_bytes_outside (by omega), write_bytes_outside (by omega)]

/-- Writes to disjoint bytes commute. -/
theorem write_bytes_comm {addr' : Nat} {data' : List UInt8}
    (h : addr + data.length ≤ addr' ∨ addr' + data'.length ≤ addr) :
    write_bytes (write_bytes mem addr data) addr' data' = write_bytes (write_bytes mem addr' data') addr data := by
  funext b
  by_cases hb : addr ≤ b ∧ b < addr + data.length
  · rw [write_bytes_outside (by omega), write_bytes_inside hb.1 hb.2, write_bytes_inside hb.1 hb.2]
  · have hout : write_bytes (write_bytes mem addr' data') addr data b = write_bytes mem addr' data' b :=
      write_bytes_outside (by omega)
    rw [hout]
    by_cases hb' : addr' ≤ b ∧ b < addr' + data'.length
    · rw [write_bytes_inside hb'.1 hb'.2, write_bytes_inside hb'.1 hb'.2]
    · rw [write_bytes_outside (by omega), write_bytes_outside (by omega), write_bytes_outside (by omega)]

/-- Two writes end to end are one write of both. -/
theorem write_bytes_append {data' : List UInt8} :
    write_bytes (write_bytes mem addr data) (addr + data.length) data' = write_bytes mem addr (data ++ data') := by
  funext b
  by_cases h1 : addr + data.length ≤ b ∧ b < addr + data.length + data'.length
  · rw [write_bytes_inside h1.1 h1.2, write_bytes_inside (by omega) (by simp; omega),
      List.getD_append_right _ _ _ _ (by omega), Nat.sub_sub]
  · rw [write_bytes_outside (by omega)]
    by_cases h2 : addr ≤ b ∧ b < addr + data.length
    · rw [write_bytes_inside h2.1 h2.2, write_bytes_inside h2.1 (by simp; omega),
        List.getD_append _ _ _ _ (by omega)]
    · rw [write_bytes_outside (by omega), write_bytes_outside (by simp; omega)]

end Memory

/-! ## One registration -/

/-- Where a pushed parameter's pointer is recorded: in the register or in
memory that `loc` names, and not the other. -/
def PtrAt (param : MemoryParam) : PtrLoc → Prop
  | .reg arg => param.ptr_in_reg = arg ∧ param.ptr_in_memory = 0
  | .mem addr_of_buf_ptr => param.ptr_in_reg = 0 ∧ param.ptr_in_memory = addr_of_buf_ptr

/-- Everything a push can do: one parameter appended with the given buffer,
size, mode and mutator (a mutator only on an input), and either a slot at the
current end of scratch, the end moved past it and rounded up, and the pointer
recorded, or, for a parameter that must not use scratch, none of these. -/
theorem push_param_eq_some {st st' : TaskSyscallState} {dest : Nat} {param_size : ParamSize}
    {mode : ArgMode} {maybe_mutator : Option ArgMutator} {loc : PtrLoc}
    (h : st.push_param dest param_size mode maybe_mutator loc = some st') :
    ∃ param : MemoryParam, st'.param_list = st.param_list ++ [param] ∧
      st'.preparation_done = st.preparation_done ∧ st'.scratch_enabled = st.scratch_enabled ∧
      st'.saved_data = st.saved_data ∧ st'.syscall_entry_registers = st.syscall_entry_registers ∧
      param.dest = dest ∧ param.num_bytes = param_size ∧ param.mode = mode ∧
      param.maybe_mutator = maybe_mutator ∧ (maybe_mutator.isSome = true → mode = .In) ∧
      (mode = .InOutNoScratch → param.scratch = 0 ∧ param.ptr_in_reg = 0 ∧ param.ptr_in_memory = 0 ∧
        st'.scratch = st.scratch) ∧
      (mode ≠ .InOutNoScratch → param.scratch = st.scratch ∧
        st'.scratch = align_scratch (wrapping_add st.scratch param_size.incoming_size) none ∧ PtrAt param loc) := by
  unfold TaskSyscallState.push_param at h
  split_ifs at h with hmut hmode
  · cases loc <;>
      simp only [Option.some.injEq] at h <;> subst h <;>
      exact ⟨_, rfl, rfl, rfl, rfl, rfl, rfl, rfl, rfl, rfl, fun hs => by simpa [hs] using hmut, by simp [hmode],
        fun _ => ⟨rfl, rfl, by simp [PtrAt]⟩⟩
  · simp only [Option.some.injEq] at h
    subst h
    exact ⟨_, rfl, rfl, rfl, rfl, rfl, rfl, rfl, rfl, rfl, fun hs => by simpa [hs] using hmut,
      fun _ => ⟨rfl, rfl, rfl, rfl⟩, fun h' => absurd (by simpa using hmode) h'⟩

/-- A register registration changes nothing, or pushes the buffer whose
address is in the entry register. -/
theorem reg_parameter_with_size_cases {st st' : TaskSyscallState} {arg dest : Nat} {param_size : ParamSize}
    {maybe_mode : Option ArgMode} {maybe_mutator : Option ArgMutator}
    (h : st.reg_parameter_with_size arg param_size maybe_mode maybe_mutator = some (st', dest)) :
    st' = st ∨ (st.preparation_done = false ∧ st.syscall_entry_registers arg ≠ 0 ∧
      st.push_param (st.syscall_entry_registers arg) param_size (maybe_mode.getD .Out) maybe_mutator
        (.reg arg) = some st') := by
  simp only [TaskSyscallState.reg_parameter_with_size] at h
  split_ifs at h with hdone hdest
  · exact .inl (Prod.mk.inj (Option.some.inj h) |>.1).symm
  · exact .inl (Prod.mk.inj (Option.some.inj h) |>.1).symm
  · obtain ⟨st'', hpush, hst⟩ := Option.map_eq_some_iff.1 h
    exact .inr ⟨by simpa using hdone, hdest, by rw [hpush, (Prod.mk.inj hst).1]⟩

/-- A registration through memory changes nothing, or pushes the buffer
whose address is the word at `addr_of_buf_ptr`. -/
theorem mem_ptr_parameter_with_size_cases {st st' : TaskSyscallState} {t : SyscallTask}
    {addr_of_buf_ptr dest : Nat} {param_size : ParamSize} {maybe_mode : Option ArgMode}
    {maybe_mutator : Option ArgMutator}
    (h : st.mem_ptr_parameter_with_size t addr_of_buf_ptr param_size maybe_mode maybe_mutator = some (st', dest)) :
    st' = st ∨ (st.preparation_done = false ∧ addr_of_buf_ptr ≠ 0 ∧
      get_remote_ptr t.mem t.arch addr_of_buf_ptr ≠ 0 ∧
      st.push_param (get_remote_ptr t.mem t.arch addr_of_buf_ptr) param_size (maybe_mode.getD .Out)
        maybe_mutator (.mem addr_of_buf_ptr) = some st') := by
  simp only [TaskSyscallState.mem_ptr_parameter_with_size] at h
  split_ifs at h with hdone hdest
  · exact .inl (Prod.mk.inj (Option.some.inj h) |>.1).symm
  · exact .inl (Prod.mk.inj (Option.some.inj h) |>.1).symm
  · obtain ⟨st'', hpush, hst⟩ := Option.map_eq_some_iff.1 h
    simp only [not_or, Bool.not_eq_true] at hdone
    exact .inr ⟨hdone.1, hdone.2, hdest, by rw [hpush, (Prod.mk.inj hst).1]⟩

/-! ## Registered states -/

/-- The states preparing a syscall of `t` builds: `init` with the entry
registers, then any sequence of registrations. -/
inductive Registered (t : SyscallTask) : TaskSyscallState → Prop
  | init : Registered t ({ TaskSyscallState.new with syscall_entry_registers := t.args }.init t)
  | reg_parameter {st st' : TaskSyscallState} {dest : Nat} (arg : Nat) (param_size : ParamSize)
      (maybe_mode : Option ArgMode) (maybe_mutator : Option ArgMutator) :
      Registered t st → st.reg_parameter_with_size arg param_size maybe_mode maybe_mutator = some (st', dest) →
      Registered t st'
  | mem_ptr_parameter {st st' : TaskSyscallState} {dest : Nat} (addr_of_buf_ptr : Nat)
      (param_size : ParamSize) (maybe_mode : Option ArgMode) (maybe_mutator : Option ArgMutator) :
      Registered t st →
      st.mem_ptr_parameter_with_size t addr_of_buf_ptr param_size maybe_mode maybe_mutator = some (st', dest) →
      Registered t st'

/-- What every registered state satisfies. -/
structure RegInv (t : SyscallTask) (st : TaskSyscallState) : Prop where
  not_done : st.preparation_done = false
  not_enabled : st.scratch_enabled = false
  saved_nil : st.saved_data = []
  entry : st.syscall_entry_registers = t.args
  /-- A register a parameter records holds its buffer's address. -/
  reg_dest : ∀ p ∈ st.param_list, p.ptr_in_reg ≠ 0 → t.args p.ptr_in_reg = p.dest
  /-- A word a parameter records holds its buffer's address. -/
  mem_dest : ∀ p ∈ st.param_list, p.ptr_in_memory ≠ 0 → get_remote_ptr t.mem t.arch p.ptr_in_memory = p.dest
  no_scratch : ∀ p ∈ st.param_list, p.mode = .InOutNoScratch →
    p.scratch = 0 ∧ p.ptr_in_reg = 0 ∧ p.ptr_in_memory = 0
  mutated_in : ∀ p ∈ st.param_list, p.maybe_mutator.isSome = true → p.mode = .In

/-- A push keeps `RegInv`, given that the pushed buffer's address is what the
pointer recorded for it holds. -/
theorem RegInv.push {t : SyscallTask} {st st' : TaskSyscallState} {dest : Nat} {param_size : ParamSize}
    {mode : ArgMode} {maybe_mutator : Option ArgMutator} {loc : PtrLoc} (hI : RegInv t st)
    (hloc : ∀ arg, loc = .reg arg → arg ≠ 0 → t.args arg = dest)
    (hmem : ∀ addr_of_buf_ptr, loc = .mem addr_of_buf_ptr → addr_of_buf_ptr ≠ 0 →
      get_remote_ptr t.mem t.arch addr_of_buf_ptr = dest)
    (h : st.push_param dest param_size mode maybe_mutator loc = some st') : RegInv t st' := by
  obtain ⟨param, hlist, hdone, hen, hsaved, hentry, hdest, -, hmode, hmut, hmutin, hno, hyes⟩ :=
    push_param_eq_some h
  -- each clause: the old parameters as before, the new one from the push
  have hmem' : ∀ p ∈ st'.param_list, p ∈ st.param_list ∨ p = param := by
    intro p hp
    simpa [hlist] using hp
  refine ⟨hdone ▸ hI.not_done, hen ▸ hI.not_enabled, hsaved ▸ hI.saved_nil, hentry ▸ hI.entry, ?_, ?_, ?_, ?_⟩
  · intro p hp hreg
    rcases hmem' p hp with hp | rfl
    · exact hI.reg_dest p hp hreg
    · by_cases hns : mode = .InOutNoScratch
      · exact absurd (hno hns).2.1 hreg
      · cases loc with
        | reg arg =>
          obtain ⟨-, -, hr, -⟩ := hyes hns
          rw [hr] at hreg ⊢
          exact hdest ▸ hloc arg rfl hreg
        | mem a =>
          obtain ⟨-, -, hr, -⟩ := hyes hns
          exact absurd hr hreg
  · intro p hp hm
    rcases hmem' p hp with hp | rfl
    · exact hI.mem_dest p hp hm
    · by_cases hns : mode = .InOutNoScratch
      · exact absurd (hno hns).2.2.1 hm
      · cases loc with
        | reg arg =>
          obtain ⟨-, -, -, hr⟩ := hyes hns
          exact absurd hr hm
        | mem a =>
          obtain ⟨-, -, -, hr⟩ := hyes hns
          rw [hr] at hm ⊢
          exact hdest ▸ hmem a rfl hm
  · intro p hp hns
    rcases hmem' p hp with hp | rfl
    · exact hI.no_scratch p hp hns
    · exact ⟨(hno (hmode ▸ hns)).1, (hno (hmode ▸ hns)).2.1, (hno (hmode ▸ hns)).2.2.1⟩
  · intro p hp hs
    rcases hmem' p hp with hp | rfl
    · exact hI.mutated_in p hp hs
    · exact hmode ▸ hmutin (hmut ▸ hs)

theorem RegInv.init (t : SyscallTask) :
    RegInv t ({ TaskSyscallState.new with syscall_entry_registers := t.args }.init t) :=
  ⟨rfl, rfl, rfl, rfl, by simp [TaskSyscallState.init, TaskSyscallState.new],
    by simp [TaskSyscallState.init, TaskSyscallState.new], by simp [TaskSyscallState.init, TaskSyscallState.new],
    by simp [TaskSyscallState.init, TaskSyscallState.new]⟩

/-- Every registered state satisfies `RegInv`. -/
theorem Registered.regInv {t : SyscallTask} {st : TaskSyscallState} (h : Registered t st) : RegInv t st := by
  induction h with
  | init => exact RegInv.init t
  | reg_parameter arg param_size maybe_mode maybe_mutator _ hstep ih =>
    rcases reg_parameter_with_size_cases hstep with rfl | ⟨-, -, hpush⟩
    · exact ih
    · exact ih.push (fun a ha _ => by cases ha; rw [ih.entry]) (fun _ ha => by cases ha) hpush
  | mem_ptr_parameter addr_of_buf_ptr param_size maybe_mode maybe_mutator _ hstep ih =>
    rcases mem_ptr_parameter_with_size_cases hstep with rfl | ⟨-, -, -, hpush⟩
    · exact ih
    · exact ih.push (fun _ ha => by cases ha) (fun a ha _ => by cases ha; rfl) hpush


/-! ## The scratch slots -/

/-- The scratch the parameters of `ps` ask for: each slot, and up to 7 bytes
of rounding after it. -/
def scratch_demand (ps : List MemoryParam) : Nat :=
  ((ps.filter fun p => p.mode ≠ .InOutNoScratch).map fun p => p.num_bytes.incoming_size + 7).sum

theorem scratch_demand_append (ps : List MemoryParam) (param : MemoryParam) :
    scratch_demand (ps ++ [param]) =
      scratch_demand ps + if param.mode ≠ .InOutNoScratch then param.num_bytes.incoming_size + 7 else 0 := by
  unfold scratch_demand
  by_cases h : param.mode = .InOutNoScratch <;> simp [List.filter_append, h]

/-- The scratch slots of the registered parameters: inside the area from
`base` to the state's `scratch`, each one ending before the next begins, and
8-aligned when `base` is. -/
structure ScratchLayout (base : Nat) (st : TaskSyscallState) : Prop where
  base_le : base ≤ st.scratch
  demand : st.scratch ≤ base + scratch_demand st.param_list
  slot : ∀ p ∈ st.param_list, p.mode ≠ .InOutNoScratch →
    base ≤ p.scratch ∧ p.scratch + p.num_bytes.incoming_size ≤ st.scratch
  ordered : (st.param_list.filter fun p => p.mode ≠ .InOutNoScratch).Pairwise
    fun p q => p.scratch + p.num_bytes.incoming_size ≤ q.scratch
  /-- The first slot starts at `base`, and each next one at a rounded end. -/
  aligned : base % 8 = 0 →
    st.scratch % 8 = 0 ∧ ∀ p ∈ st.param_list, p.mode ≠ .InOutNoScratch → p.scratch % 8 = 0

/-- Below the top of the address space, `align_scratch` rounds up to a
multiple of 8. -/
theorem align_scratch_none {x : Nat} (h : x + 7 < 2 ^ 64) : align_scratch x none = (x + 7) / 8 * 8 := by
  have hsub : wrapping_sub (wrapping_add x 8) 1 = x + 7 := by
    unfold wrapping_sub wrapping_add
    omega
  have hmask : wrapping_sub 8 1 = 2 ^ 3 - 1 := by decide
  simp only [align_scratch, Option.getD_none, hsub, hmask]
  exact and_round_down 3 h (by decide)

/-- A push keeps the layout while the demand stays below the top of the
address space: the new slot starts at the old end, which is aligned. -/
theorem ScratchLayout.push {base : Nat} {st st' : TaskSyscallState} {dest : Nat} {param_size : ParamSize}
    {mode : ArgMode} {maybe_mutator : Option ArgMutator} {loc : PtrLoc} (hL : ScratchLayout base st)
    (h : st.push_param dest param_size mode maybe_mutator loc = some st')
    (hdemand : base + scratch_demand st'.param_list < 2 ^ 64) : ScratchLayout base st' := by
  obtain ⟨param, hlist, -, -, -, -, -, hsize, hmode, -, -, hno, hyes⟩ := push_param_eq_some h
  rw [hlist, scratch_demand_append, hsize] at hdemand
  have hmem : ∀ p ∈ st'.param_list, p ∈ st.param_list ∨ p = param := by
    intro p hp
    simpa [hlist] using hp
  by_cases hns : mode = .InOutNoScratch
  -- no slot: the end of scratch stays, and the parameter is not among those with one
  · obtain ⟨-, -, -, hscratch⟩ := hno hns
    have hfilter : (st'.param_list.filter fun p => p.mode ≠ .InOutNoScratch) =
        st.param_list.filter fun p => p.mode ≠ .InOutNoScratch := by
      simp [hlist, List.filter_append, hmode, hns]
    refine ⟨hscratch ▸ hL.base_le, ?_, ?_, hfilter ▸ hL.ordered, ?_⟩
    · rw [hscratch, hlist, scratch_demand_append, if_neg (by simp [hmode, hns])]
      exact hL.demand
    · intro p hp hp'
      rcases hmem p hp with hp | rfl
      · exact hscratch ▸ hL.slot p hp hp'
      · exact absurd (hmode ▸ hns) hp'
    · intro h8
      obtain ⟨hend, hslots⟩ := hL.aligned h8
      refine ⟨hscratch ▸ hend, fun p hp hp' => ?_⟩
      rcases hmem p hp with hp | rfl
      · exact hslots p hp hp'
      · exact absurd (hmode ▸ hns) hp'
  -- a slot at the old end, and the end moved past it and rounded up
  · obtain ⟨hslot, hscratch, -⟩ := hyes hns
    have hd := hL.demand
    have hb := hL.base_le
    rw [if_pos (by simpa [hmode] using hns)] at hdemand
    have hend : st'.scratch = (st.scratch + param_size.incoming_size + 7) / 8 * 8 := by
      rw [hscratch, wrapping_add_of_lt (by omega), align_scratch_none (by omega)]
    have hround := Nat.div_mul_le_self (st.scratch + param_size.incoming_size + 7) 8
    have hround' := Nat.lt_div_mul_add (a := st.scratch + param_size.incoming_size + 7) (b := 8) (by decide)
    refine ⟨by omega, ?_, ?_, ?_, ?_⟩
    · rw [hlist, scratch_demand_append, if_pos (by simpa [hmode] using hns), hsize]
      omega
    · intro p hp hp'
      rcases hmem p hp with hp | rfl
      · obtain ⟨h1, h2⟩ := hL.slot p hp hp'
        exact ⟨h1, by omega⟩
      · rw [hslot, hsize]
        exact ⟨hL.base_le, by omega⟩
    · rw [hlist, List.filter_append, List.pairwise_append]
      refine ⟨hL.ordered, (List.pairwise_singleton _ _).sublist List.filter_sublist, ?_⟩
      intro p hp q hq
      have hq' : q = param := by
        simp only [List.mem_filter, List.mem_singleton] at hq
        exact hq.1
      rw [hq', hslot]
      exact (hL.slot p (List.mem_of_mem_filter hp) (by simpa using (List.mem_filter.1 hp).2)).2
    · intro h8
      obtain ⟨hold, hslots⟩ := hL.aligned h8
      refine ⟨by rw [hend]; exact Nat.mul_mod_left _ 8, fun p hp hp' => ?_⟩
      rcases hmem p hp with hp | rfl
      · exact hslots p hp hp'
      · rw [hslot]
        exact hold

theorem scratch_demand_le_append (ps : List MemoryParam) (param : MemoryParam) :
    scratch_demand ps ≤ scratch_demand (ps ++ [param]) := by
  rw [scratch_demand_append]
  omega

/-- The registered slots are laid out as `ScratchLayout` says, whenever the
demand does not run past the top of the address space. -/
theorem Registered.layout {t : SyscallTask} {st : TaskSyscallState} (h : Registered t st)
    (hdemand : t.scratch_ptr + scratch_demand st.param_list < 2 ^ 64) :
    ScratchLayout t.scratch_ptr st := by
  induction h with
  | init =>
    exact ⟨le_rfl, by simp [TaskSyscallState.init, TaskSyscallState.new],
      by simp [TaskSyscallState.init, TaskSyscallState.new],
      by simp [TaskSyscallState.init, TaskSyscallState.new],
      fun h8 => ⟨h8, by simp [TaskSyscallState.init, TaskSyscallState.new]⟩⟩
  | @reg_parameter st st' dest arg param_size maybe_mode maybe_mutator _ hstep ih =>
    rcases reg_parameter_with_size_cases hstep with rfl | ⟨-, -, hpush⟩
    · exact ih hdemand
    · obtain ⟨param, hlist, -⟩ := push_param_eq_some hpush
      have hle := scratch_demand_le_append st.param_list param
      rw [← hlist] at hle
      exact (ih (by omega)).push hpush hdemand
  | @mem_ptr_parameter st st' dest addr_of_buf_ptr param_size maybe_mode maybe_mutator _ hstep ih =>
    rcases mem_ptr_parameter_with_size_cases hstep with rfl | ⟨-, -, -, hpush⟩
    · exact ih hdemand
    · obtain ⟨param, hlist, -⟩ := push_param_eq_some hpush
      have hle := scratch_demand_le_append st.param_list param
      rw [← hlist] at hle
      exact (ih (by omega)).push hpush hdemand

/-- Two different parameters with slots have slots apart. -/
theorem ScratchLayout.apart {base : Nat} {st : TaskSyscallState} (hL : ScratchLayout base st)
    {p q : MemoryParam} (hp : p ∈ st.param_list) (hq : q ∈ st.param_list)
    (hp' : p.mode ≠ .InOutNoScratch) (hq' : q.mode ≠ .InOutNoScratch) (hpq : p ≠ q) :
    p.scratch + p.num_bytes.incoming_size ≤ q.scratch ∨ q.scratch + q.num_bytes.incoming_size ≤ p.scratch := by
  have : Std.Symm fun p q : MemoryParam =>
      p.scratch + p.num_bytes.incoming_size ≤ q.scratch ∨ q.scratch + q.num_bytes.incoming_size ≤ p.scratch :=
    ⟨fun _ _ h => h.symm⟩
  have hsymm : (st.param_list.filter fun p => p.mode ≠ .InOutNoScratch).Pairwise fun p q : MemoryParam =>
      p.scratch + p.num_bytes.incoming_size ≤ q.scratch ∨ q.scratch + q.num_bytes.incoming_size ≤ p.scratch :=
    hL.ordered.imp Or.inl
  exact hsymm.forall (List.mem_filter.2 ⟨hp, by simpa using hp'⟩) (List.mem_filter.2 ⟨hq, by simpa using hq'⟩) hpq

/-! ## Relocation -/

section LastMatch

variable {α β : Type} (P : α → Prop) [DecidablePred P] (f : α → β)

/-- A fold that keeps the value of the last match keeps its start when
nothing matches. -/
theorem foldl_last_match_none :
    ∀ (l : List α) (r : β), (∀ x ∈ l, ¬ P x) → l.foldl (fun r x => if P x then f x else r) r = r
  | [], _, _ => rfl
  | x :: l, r, h => by
    rw [List.foldl_cons, if_neg (h x (List.mem_cons_self ..))]
    exact foldl_last_match_none l r fun y hy => h y (List.mem_cons_of_mem _ hy)

/-- A fold that keeps the value of the last match ends on `v` when something
matches and every match has value `v`. -/
theorem foldl_last_match {v : β} :
    ∀ (l : List α) (r : β), (∃ x ∈ l, P x) → (∀ x ∈ l, P x → f x = v) →
      l.foldl (fun r x => if P x then f x else r) r = v
  | [], _, ⟨_, hx, _⟩, _ => absurd hx List.not_mem_nil
  | x :: l, r, hex, hall => by
    rw [List.foldl_cons]
    by_cases hl : ∃ y ∈ l, P y
    · exact foldl_last_match l _ hl fun y hy => hall y (List.mem_cons_of_mem _ hy)
    · -- only the head matches
      have hx : P x := by
        obtain ⟨y, hy, hPy⟩ := hex
        rcases List.mem_cons.1 hy with rfl | hy
        · exact hPy
        · exact absurd ⟨y, hy, hPy⟩ hl
      rw [if_pos hx, hall x (List.mem_cons_self ..) hx]
      exact foldl_last_match_none P f l _ fun y hy hPy => hl ⟨y, hy, hPy⟩

end LastMatch

/-- `ptr` and the `len` bytes from it lie in the buffer of exactly one
parameter, which has a scratch slot: the conditions of the two `debug_assert!`s
of `relocate_pointer_to_scratch`, for a whole word. -/
def InScratchBuffer (ps : List MemoryParam) (ptr len : Nat) : Prop :=
  ∃ k ∈ ps, k.mode ≠ .InOutNoScratch ∧ k.dest ≤ ptr ∧ ptr + len ≤ k.dest + k.num_bytes.incoming_size ∧
    k.dest + k.num_bytes.incoming_size < 2 ^ 64 ∧
    ∀ q ∈ ps, q.dest ≤ ptr → ptr < wrapping_add q.dest q.num_bytes.incoming_size → q = k

section Relocate

variable {base : Nat} {st : TaskSyscallState} (hL : ScratchLayout base st)
  (hdemand : base + scratch_demand st.param_list < 2 ^ 64)
include hL hdemand

/-- A word in exactly one buffer with a slot moves to the same place in the
slot, inside the scratch area. -/
theorem relocate_of_in_scratch_buffer {ptr len : Nat} (hlen : 0 < len)
    (hin : InScratchBuffer st.param_list ptr len) :
    ∃ k ∈ st.param_list, k.mode ≠ .InOutNoScratch ∧ k.dest ≤ ptr ∧
      ptr + len ≤ k.dest + k.num_bytes.incoming_size ∧
      st.relocate_pointer_to_scratch ptr = k.scratch + (ptr - k.dest) ∧
      base ≤ st.relocate_pointer_to_scratch ptr ∧
      st.relocate_pointer_to_scratch ptr + len ≤ k.scratch + k.num_bytes.incoming_size ∧
      k.scratch + k.num_bytes.incoming_size ≤ st.scratch := by
  obtain ⟨k, hk, hks, hlo, hhi, hwrap, huniq⟩ := hin
  obtain ⟨hbase, hslot⟩ := hL.slot k hk hks
  have hd := hL.demand
  have hreloc : st.relocate_pointer_to_scratch ptr = k.scratch + (ptr - k.dest) := by
    have hval : wrapping_add k.scratch (wrapping_sub ptr k.dest) = k.scratch + (ptr - k.dest) := by
      rw [wrapping_sub_of_le hlo (by omega), wrapping_add_of_lt (by omega)]
    unfold TaskSyscallState.relocate_pointer_to_scratch
    refine foldl_last_match (fun q : MemoryParam => q.dest ≤ ptr ∧ ptr < wrapping_add q.dest q.num_bytes.incoming_size)
      (fun q : MemoryParam => wrapping_add q.scratch (wrapping_sub ptr q.dest)) _ _
      ⟨k, hk, hlo, by rw [wrapping_add_of_lt hwrap]; omega⟩ ?_
    intro q hq hholds
    rw [huniq q hq hholds.1 hholds.2]
    exact hval
  exact ⟨k, hk, hks, hlo, hhi, hreloc, by omega, by omega, hslot⟩

/-- Two words in buffers with slots that move to one place were one word. -/
theorem relocate_injective {ptr ptr' len len' : Nat} (hlen : 0 < len) (hlen' : 0 < len')
    (hin : InScratchBuffer st.param_list ptr len) (hin' : InScratchBuffer st.param_list ptr' len')
    (heq : st.relocate_pointer_to_scratch ptr = st.relocate_pointer_to_scratch ptr') : ptr = ptr' := by
  obtain ⟨k, hk, hks, hlo, hhi, hR, -, -, -⟩ := relocate_of_in_scratch_buffer hL hdemand hlen hin
  obtain ⟨k', hk', hks', hlo', hhi', hR', -, -, -⟩ := relocate_of_in_scratch_buffer hL hdemand hlen' hin'
  rw [hR, hR'] at heq
  by_cases hkk : k = k'
  · subst hkk
    omega
  -- two slots apart cannot share the place
  · rcases hL.apart hk hk' hks hks' hkk with h | h <;> omega

end Relocate

end RdReplay.Record
