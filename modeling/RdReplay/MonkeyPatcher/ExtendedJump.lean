/-
  MonkeyPatcher/ExtendedJump.lean --- patching a syscall with a jump to a stub
  in an extended-jump page.

  Source: `monkey_patcher.rs` (`ExtendedJumpPage`, the fields
  `extended_jump_pages` and `syscallbuf_stubs` of `MonkeyPatcher`,
  `substitute_extended_jump` of both stubs, `allocate_extended_jump`,
  `patch_syscall_with_hook_x86ish`, `patch_syscall_with_hook`,
  `is_jump_stub_instruction`, `write_and_record_bytes`),
  `preload_interface.rs` (`syscall_patch_hook`), `kernel_abi.rs`
  (`syscall_instruction_length`), `remote_ptr.rs` (`as_isize`) and
  `session/address_space.rs` (`mapping_flags_of_mut`).

  THE PATCH.  A task stopped at a syscall instruction, followed by the
  instruction a hook of the preload library matches, gets a five-byte relative
  jump over both, to a stub; the stub switches stacks, pushes the address after
  the matched instruction and jumps to the hook.  The stub lives in an
  extended-jump page within 2 GiB of the jump: a page already there with room,
  or a new one mapped in a free gap of three pages after the patch site's
  mapping.  `syscallbuf_stubs` records every stub.

  THE MODEL.  Tracee memory is a total byte map written with `write_bytes`.
  `write_and_record_bytes` writes through `/proc/<tid>/mem` and asserts that
  every byte was written, which holds exactly where each byte is mapped; the
  trace recording beside each write is not modelled.  The tracee's `mmap` of a
  new page zeroes it; the kernel refuses a page past the end of user space
  (`TASK_SIZE`), where `infallible_mmap_syscall` panics; and the address space
  maps it with `AddressSpace.map` and marks it `IS_PATCH_STUBS`.  A panic
  (`unwrap`, `ed_assert_eq!`, a capacity overflow) is `none`.  Pointer arithmetic wraps
  as `RemotePtr`'s does, and signed arithmetic as `i64` does in the release
  build.  The templates are the generic parameters: the jump, the stub, and
  the stub's `substitute_extended_jump`.
-/
import RdReplay.MonkeyPatcher.AssemblyTemplates
import RdReplay.AddressSpace.Maps
import RdReplay.AddressSpace.Map
import RdReplay.Lib.CmpListOrder

set_option autoImplicit false

namespace RdReplay

open RdReplay.Record (le_bytes le_value read_mem write_bytes_outside)

/-! ## Signed words -/

/-- `x.as_isize() as i64`: a word read as a two's-complement `i64`. -/
def as_i64 (x : Nat) : Int := if x < 2 ^ 63 then x else (x : Int) - 2 ^ 64

/-- `x as i32 as i64`: the low 32 bits of `x`, read as a two's-complement `i32`. -/
def as_i32 (x : Int) : Int := if x % 2 ^ 32 < 2 ^ 31 then x % 2 ^ 32 else x % 2 ^ 32 - 2 ^ 32

/-- `x as u32` of a signed value: its low 32 bits. -/
def as_u32 (x : Int) : Nat := (x % 2 ^ 32).toNat

/-- `i64` arithmetic, wrapping in the release build. -/
def i64_wrap (x : Int) : Int := as_i64 (x % 2 ^ 64).toNat

/-! ## The patcher's state -/

/-- `syscall_patch_hook`: a hook of the preload library's table. -/
structure syscall_patch_hook where
  is_multi_instruction : Nat
  next_instruction_length : Nat
  next_instruction_bytes : List UInt8
  hook_address : Nat
  deriving DecidableEq, Repr

/-- `syscall_instruction_length`. -/
def syscall_instruction_length : SupportedArch → Nat
  | .X86 => 2
  | .X64 => 2

/-- `ExtendedJumpPage`. -/
structure ExtendedJumpPage where
  addr : Nat
  allocated : Nat
  deriving DecidableEq, Repr

/-- `ExtendedJumpPage::new`. -/
def ExtendedJumpPage.new (addr : Nat) : ExtendedJumpPage := ⟨addr, 0⟩

/-- The fields of `MonkeyPatcher` that syscall patching uses.
`syscallbuf_stubs: BTreeMap<RemotePtr<u8>, usize>` is its entries in key order. -/
structure MonkeyPatcher where
  extended_jump_pages : List ExtendedJumpPage
  syscallbuf_stubs : List (Nat × Nat)
  deriving DecidableEq, Repr

/-- The parts of the `RecordTask` that patching reads and writes: its
architecture, its `ip` (at the syscall instruction, once
`exit_syscall_and_prepare_restart` has backed it up), its address space and
its memory. -/
structure PatchTask where
  arch : SupportedArch
  ip : Nat
  vm : AddressSpace
  mem : Nat → UInt8

/-- `MapFlags::MAP_FIXED`. -/
def MAP_FIXED : Nat := 0x10

/-- `MappingFlags::IS_PATCH_STUBS`. -/
def IS_PATCH_STUBS : MappingFlags := 0x4

/-- Where the kernel's user space ends for a task of each architecture
(`TASK_SIZE`): a `MAP_FIXED` mapping past it fails.  rd runs on x86-64 kernels,
which give a 32-bit task 4 GiB less a page and, with four-level paging, a 64-bit
task `2 ^ 47` less a page. -/
def TASK_SIZE : SupportedArch → Nat
  | .X86 => 0xffffe000
  | .X64 => 2 ^ 47 - page_size

/-- `write_and_record_bytes`: `write_bytes_helper` writes through
`/proc/<tid>/mem` and asserts (`ed_assert_eq!`) that the whole buffer was
written, which it is exactly where each byte is mapped. -/
def write_and_record_bytes (t : PatchTask) (child_addr : Nat) (buf : List UInt8) : Option PatchTask :=
  if (List.range buf.length).all fun i => (mem_view t.vm.mem (child_addr + i)).isSome then
    some { t with mem := write_bytes t.mem child_addr buf }
  else none

/-- `*mapping_flags_of_mut(addr) |= flags`: `none` where no mapping contains
`addr` (the `unwrap`).  The entry found is updated under its own key, the only
key of a well-formed map that compares equal to it. -/
def AddressSpace.or_mapping_flags (s : AddressSpace) (addr flags : Nat) : Option AddressSpace :=
  match CmpList.lowerBound MemoryRangeKey.cmp (MemoryRange.new_range addr 1) s.mem with
  | (k, found_mapping) :: _ =>
    if found_mapping.map.mr.contains_ptr addr then
      some { s with
        mem := s.mem.map fun e => if e.1 = k then (e.1, { e.2 with flags := e.2.flags ||| flags }) else e }
    else none
  | [] => none

/-! ## `allocate_extended_jump` -/

/-- The test of the loop of `allocate_extended_jump`: the page's next stub is
within `i32` reach of `from_end`, and the page has room for it. -/
def page_fits (SIZE from_end : Nat) (p : ExtendedJumpPage) : Bool :=
  let page_jump_start := wrapping_add p.addr p.allocated
  let offset := i64_wrap (as_i64 page_jump_start - as_i64 from_end)
  as_i32 offset = offset && wrapping_add p.allocated SIZE ≤ page_size

/-- `allocate_extended_jump::<ExtendedJumpPatch>`, `SIZE` its size: the stub's
address (`0` for `RemotePtr::null()`), the pages, and the task. -/
def allocate_extended_jump (SIZE : Nat) (t : PatchTask) (pages : List ExtendedJumpPage) (from_end : Nat) :
    Option (Nat × List ExtendedJumpPage × PatchTask) :=
  match pages.findIdx? (page_fits SIZE from_end) with
  | none =>
    -- a gap of three pages: the stub page with a guard page on each side
    let required_space := 3 * page_size
    match t.vm.mapping_of from_end with
    | none => none
    | some m =>
      match t.vm.find_free_memory required_space (some m.map.mr.start_) with
      | none => none
      | some free_mem =>
        let addr := wrapping_add free_mem page_size
        let offset := i64_wrap (as_i64 addr - as_i64 from_end)
        -- "Can't find space close enough for the jump"
        if as_i32 offset ≠ offset then some (0, pages, t)
        -- the tracee's `mmap` fails past the end of user space, and
        -- `infallible_mmap_syscall` panics
        else if TASK_SIZE t.arch < addr + page_size then none
        else
          let prot := PROT_READ ||| PROT_EXEC
          let flags := MAP_ANONYMOUS ||| MAP_FIXED ||| MAP_PRIVATE
          -- the tracee's `mmap` of a fresh anonymous page
          let mem := write_bytes t.mem addr (List.replicate page_size 0)
          let recorded := KernelMapping.new_with_opts addr (wrapping_add addr page_size) ""
            KernelMapping.NO_DEVICE KernelMapping.NO_INODE prot flags 0
          match t.vm.map addr page_size prot flags 0 "" KernelMapping.NO_DEVICE KernelMapping.NO_INODE none
              (some recorded) none none none with
          | none => none
          | some (vm, _) =>
            match vm.or_mapping_flags addr IS_PATCH_STUBS with
            | none => none
            | some vm =>
              let page := ExtendedJumpPage.new addr
              let jump_addr := wrapping_add page.addr page.allocated
              some (jump_addr, pages ++ [{ page with allocated := wrapping_add page.allocated SIZE }],
                { t with vm, mem })
  | some page_i =>
    let page := pages.getD page_i ⟨0, 0⟩
    let jump_addr := wrapping_add page.addr page.allocated
    some (jump_addr, pages.set page_i { page with allocated := wrapping_add page.allocated SIZE }, t)

/-! ## The stubs' `substitute_extended_jump` -/

/-- `X86SyscallStubExtendedJump::TRAMPOLINE_RELATIVE_ADDR_END`. -/
def X86SyscallStubExtendedJump.TRAMPOLINE_RELATIVE_ADDR_END : Nat :=
  (X86SyscallStubExtendedJump.field_end "trampoline_relative_addr").getD 0

/-- `X86SyscallStubExtendedJump::substitute_extended_jump`: the jump is
relative to the end of its field.  An offset past 2 GiB is fine, `eip` wraps. -/
def X86SyscallStubExtendedJump.substitute_extended_jump (buffer : List UInt8)
    (patch_addr return_addr target_addr : Nat) : Option (List UInt8) :=
  let offset := i64_wrap (as_i64 target_addr -
    i64_wrap (as_i64 patch_addr + X86SyscallStubExtendedJump.TRAMPOLINE_RELATIVE_ADDR_END))
  X86SyscallStubExtendedJump.substitute buffer [return_addr % 2 ^ 32, as_u32 offset]

/-- `X64SyscallStubExtendedJump::substitute_extended_jump`: the return address
in two halves and the target as a whole word. -/
def X64SyscallStubExtendedJump.substitute_extended_jump (buffer : List UInt8)
    (_patch_addr return_addr target_addr : Nat) : Option (List UInt8) :=
  X64SyscallStubExtendedJump.substitute buffer
    [return_addr % 2 ^ 32, (return_addr / 2 ^ 32) % 2 ^ 32, target_addr]

/-! ## `patch_syscall_with_hook_x86ish` -/

/-- `substitute_template(buffer, param)`, which the generator emits for the
templates with one `u32` field. -/
def AssemblyTemplate.substitute_template (t : AssemblyTemplate) (buffer : List UInt8) (param : Nat) :
    Option (List UInt8) :=
  t.substitute buffer [param]

/-- `patch_syscall_with_hook_x86ish::<JumpPatch, ExtendedJumpPatch>`: whether
it patched, with the patcher and the task after it. -/
def patch_syscall_with_hook_x86ish (JumpPatch ExtendedJumpPatch : AssemblyTemplate)
    (substitute_extended_jump : List UInt8 → Nat → Nat → Nat → Option (List UInt8))
    (patcher : MonkeyPatcher) (t : PatchTask) (hook : syscall_patch_hook) :
    Option (Bool × MonkeyPatcher × PatchTask) :=
  let jump_patch := List.replicate JumpPatch.SIZE 0
  let jump_patch_start := t.ip
  let jump_patch_end := wrapping_add jump_patch_start jump_patch.length
  match allocate_extended_jump ExtendedJumpPatch.SIZE t patcher.extended_jump_pages jump_patch_end with
  | none => none
  | some (extended_jump_start, pages, t) =>
    let patcher := { patcher with extended_jump_pages := pages }
    if extended_jump_start = 0 then some (false, patcher, t)
    else
      let stub_patch := List.replicate ExtendedJumpPatch.SIZE 0
      let return_addr := wrapping_add (wrapping_add jump_patch_start (syscall_instruction_length .X64))
        hook.next_instruction_length
      match substitute_extended_jump stub_patch extended_jump_start return_addr hook.hook_address with
      | none => none
      | some stub_patch =>
        match write_and_record_bytes t extended_jump_start stub_patch with
        | none => none
        | some t =>
          let patcher := { patcher with
            syscallbuf_stubs :=
              CmpList.insert compare extended_jump_start ExtendedJumpPatch.SIZE patcher.syscallbuf_stubs }
          let jump_offset := i64_wrap (as_i64 extended_jump_start - as_i64 jump_patch_end)
          let jump_offset32 := as_i32 jump_offset
          -- "allocate_extended_jump didn't work"
          if jump_offset32 ≠ jump_offset then none
          else
            match JumpPatch.substitute_template jump_patch (as_u32 jump_offset32) with
            | none => none
            | some jump_patch =>
              match write_and_record_bytes t jump_patch_start jump_patch with
              | none => none
              | some t =>
                -- the `usize` count wraps below zero, and `Vec::with_capacity` then panics
                if syscall_instruction_length .X64 + hook.next_instruction_length < jump_patch.length then none
                else
                  let nops_bufsize :=
                    syscall_instruction_length .X64 + hook.next_instruction_length - jump_patch.length
                  let nops : List UInt8 := List.replicate nops_bufsize 0x90
                  (write_and_record_bytes t (wrapping_add jump_patch_start jump_patch.length) nops).map
                    fun t => (true, patcher, t)

/-- `patch_syscall_with_hook`: the templates of the task's architecture. -/
def patch_syscall_with_hook (patcher : MonkeyPatcher) (t : PatchTask) (hook : syscall_patch_hook) :
    Option (Bool × MonkeyPatcher × PatchTask) :=
  match t.arch with
  | .X86 => patch_syscall_with_hook_x86ish X86SysenterVsyscallSyscallHook X86SyscallStubExtendedJump
    X86SyscallStubExtendedJump.substitute_extended_jump patcher t hook
  | .X64 => patch_syscall_with_hook_x86ish X64JumpMonkeypatch X64SyscallStubExtendedJump
    X64SyscallStubExtendedJump.substitute_extended_jump patcher t hook

/-- `is_jump_stub_instruction`: the last stub starting at or below `ip`
contains it. -/
def MonkeyPatcher.is_jump_stub_instruction (patcher : MonkeyPatcher) (ip : Nat) : Bool :=
  match (CmpList.upTo compare ip patcher.syscallbuf_stubs).getLast? with
  | some (k, v) => k ≤ ip && ip < wrapping_add k v
  | none => false

/-! ## Signed words, as the code uses them -/

theorem as_i64_emod {x : Nat} (hx : x < 2 ^ 64) : as_i64 x % 2 ^ 64 = x := by
  unfold as_i64
  split_ifs <;> omega

theorem as_i64_mod (x : Nat) : as_i64 x % 2 ^ 64 = (x : Int) % 2 ^ 64 := by
  unfold as_i64
  split_ifs <;> omega

theorem i64_wrap_emod (x : Int) : i64_wrap x % 2 ^ 64 = x % 2 ^ 64 := by
  unfold i64_wrap as_i64
  split_ifs <;> omega

theorem as_i32_eq_iff (x : Int) : as_i32 x = x ↔ -2 ^ 31 ≤ x ∧ x < 2 ^ 31 := by
  unfold as_i32
  split_ifs <;> omega

theorem as_i32_emod (x : Int) : as_i32 x % 2 ^ 32 = x % 2 ^ 32 := by
  unfold as_i32
  split_ifs <;> omega

theorem as_u32_lt (x : Int) : as_u32 x < 2 ^ 32 := by
  unfold as_u32
  omega

theorem as_i32_as_u32 (x : Int) : as_i32 (as_u32 x) = as_i32 x := by
  unfold as_i32 as_u32
  split_ifs <;> omega

/-- The offset from `b` to `a` that the code computes gets from `b` back to `a`,
modulo the word. -/
theorem add_offset_emod {a b : Nat} (ha : a < 2 ^ 64) (hb : b < 2 ^ 64) :
    ((b : Int) + i64_wrap (as_i64 a - as_i64 b)) % 2 ^ 64 = a := by
  have hw := i64_wrap_emod (as_i64 a - as_i64 b)
  have hai := as_i64_emod ha
  have hbi := as_i64_emod hb
  omega

/-! ## What `allocate_extended_jump` does -/

section Allocate

variable {SIZE from_end s : Nat} {t t' : PatchTask} {pages pages' : List ExtendedJumpPage}

/-- The page `allocate_extended_jump` maps: read and execute, private and anonymous. -/
def stub_page_map (vm : AddressSpace) (addr : Nat) : Option (AddressSpace × KernelMapping) :=
  vm.map addr page_size (PROT_READ ||| PROT_EXEC) (MAP_ANONYMOUS ||| MAP_FIXED ||| MAP_PRIVATE) 0 ""
    KernelMapping.NO_DEVICE KernelMapping.NO_INODE none
    (some (KernelMapping.new_with_opts addr (wrapping_add addr page_size) "" KernelMapping.NO_DEVICE
      KernelMapping.NO_INODE (PROT_READ ||| PROT_EXEC) (MAP_ANONYMOUS ||| MAP_FIXED ||| MAP_PRIVATE) 0))
    none none none

/-- Everything `allocate_extended_jump` can do: give up with the null pointer,
take the next stub of the first page that fits, or map a new page in the first
free gap after the patch site's mapping and take its first stub. -/
theorem allocate_extended_jump_cases (h : allocate_extended_jump SIZE t pages from_end = some (s, pages', t')) :
    (s = 0 ∧ pages' = pages ∧ t' = t) ∨
      (∃ i p, pages.findIdx? (page_fits SIZE from_end) = some i ∧ pages[i]? = some p ∧
        s = wrapping_add p.addr p.allocated ∧
        pages' = pages.set i { p with allocated := wrapping_add p.allocated SIZE } ∧ t' = t) ∨
      (∃ m free_mem vm km vm', pages.findIdx? (page_fits SIZE from_end) = none ∧
        t.vm.mapping_of from_end = some m ∧
        t.vm.find_free_memory (3 * page_size) (some m.map.mr.start_) = some free_mem ∧
        s = wrapping_add free_mem page_size ∧
        as_i32 (i64_wrap (as_i64 s - as_i64 from_end)) = i64_wrap (as_i64 s - as_i64 from_end) ∧
        s + page_size ≤ TASK_SIZE t.arch ∧ stub_page_map t.vm s = some (vm, km) ∧ vm.or_mapping_flags s IS_PATCH_STUBS = some vm' ∧
        pages' = pages ++ [⟨s, wrapping_add 0 SIZE⟩] ∧
        t' = { t with vm := vm', mem := write_bytes t.mem s (List.replicate page_size 0) }) := by
  unfold allocate_extended_jump at h
  cases hfind : pages.findIdx? (page_fits SIZE from_end) with
  | some i =>
    -- a page fits: `findIdx?` found it in range
    obtain ⟨p, hp⟩ : ∃ p, pages[i]? = some p := by
      obtain ⟨hi, -⟩ := List.findIdx?_eq_some_iff_getElem.1 hfind
      exact ⟨pages[i], List.getElem?_eq_getElem hi⟩
    have hget : pages.getD i ⟨0, 0⟩ = p := by rw [List.getD_eq_getElem?_getD, hp, Option.getD_some]
    simp only [hfind, hget, Option.some.injEq, Prod.mk.injEq] at h
    obtain ⟨rfl, rfl, rfl⟩ := h
    exact .inr (.inl ⟨i, p, rfl, hp, rfl, rfl, rfl⟩)
  | none =>
    simp only [hfind] at h
    cases hm : t.vm.mapping_of from_end with
    | none => simp [hm] at h
    | some m =>
      cases hfree : t.vm.find_free_memory (3 * page_size) (some m.map.mr.start_) with
      | none => simp [hm, hfree] at h
      | some free_mem =>
        simp only [hm, hfree] at h
        split_ifs at h with hreach htask
        · -- out of reach: the null pointer, nothing changed
          simp only [Option.some.injEq, Prod.mk.injEq] at h
          obtain ⟨rfl, rfl, rfl⟩ := h
          exact .inl ⟨rfl, rfl, rfl⟩
        · cases hmap : stub_page_map t.vm (wrapping_add free_mem page_size) with
          | none =>
            rw [stub_page_map] at hmap
            simp [hmap] at h
          | some r =>
            obtain ⟨vm, km⟩ := r
            rw [stub_page_map] at hmap
            simp only [hmap] at h
            cases hflags : vm.or_mapping_flags (wrapping_add free_mem page_size) IS_PATCH_STUBS with
            | none => simp [hflags] at h
            | some vm' =>
              -- the first stub of the new page is the page itself
              simp only [hflags, ExtendedJumpPage.new, wrapping_add_wrapping_add, Nat.add_zero,
                Option.some.injEq, Prod.mk.injEq] at h
              obtain ⟨rfl, rfl, rfl⟩ := h
              exact .inr (.inr ⟨m, free_mem, vm, km, vm', rfl, rfl, hfree, rfl, not_not.1 hreach,
                Nat.le_of_not_lt htask, by rw [stub_page_map]; exact hmap, hflags, rfl, rfl⟩)

end Allocate

/-! ## What `patch_syscall_with_hook_x86ish` does -/

section Patch

variable {J E : AssemblyTemplate} {sub : List UInt8 → Nat → Nat → Nat → Option (List UInt8)}
  {patcher patcher' : MonkeyPatcher} {t t' : PatchTask} {hook : syscall_patch_hook}

/-- A write that returned wrote the whole buffer, every byte of it mapped. -/
theorem write_and_record_bytes_eq_some {t t' : PatchTask} {a : Nat} {buf : List UInt8} :
    write_and_record_bytes t a buf = some t' ↔
      (∀ i < buf.length, mem_view t.vm.mem (a + i) ≠ none) ∧ t' = { t with mem := write_bytes t.mem a buf } := by
  unfold write_and_record_bytes
  split_ifs with hall
  · rw [List.all_eq_true] at hall
    constructor
    · intro h
      rw [Option.some.injEq] at h
      exact ⟨fun i hi => Option.isSome_iff_ne_none.1 (hall i (List.mem_range.2 hi)), h.symm⟩
    · rintro ⟨-, rfl⟩
      rfl
  · constructor
    · intro h
      cases h
    · rintro ⟨hmapped, -⟩
      exact absurd (List.all_eq_true.2 fun i hi => Option.isSome_iff_ne_none.2 (hmapped i (List.mem_range.1 hi)))
        hall

/-- A patch that succeeded: the stub allocated and written, the jump within
reach and written over the syscall, and the rest of the hooked instruction
filled with NOPs, each write over mapped bytes. -/
theorem patch_syscall_with_hook_x86ish_true
    (h : patch_syscall_with_hook_x86ish J E sub patcher t hook = some (true, patcher', t')) :
    ∃ s pages t₁ stub jump,
      allocate_extended_jump E.SIZE t patcher.extended_jump_pages (wrapping_add t.ip J.SIZE) =
        some (s, pages, t₁) ∧ s ≠ 0 ∧
      sub (List.replicate E.SIZE 0) s (wrapping_add (wrapping_add t.ip 2) hook.next_instruction_length)
        hook.hook_address = some stub ∧
      as_i32 (i64_wrap (as_i64 s - as_i64 (wrapping_add t.ip J.SIZE))) =
        i64_wrap (as_i64 s - as_i64 (wrapping_add t.ip J.SIZE)) ∧
      J.substitute_template (List.replicate J.SIZE 0)
        (as_u32 (i64_wrap (as_i64 s - as_i64 (wrapping_add t.ip J.SIZE)))) = some jump ∧
      jump.length ≤ 2 + hook.next_instruction_length ∧
      (∀ i < stub.length, mem_view t₁.vm.mem (s + i) ≠ none) ∧
      (∀ i < jump.length, mem_view t₁.vm.mem (t.ip + i) ≠ none) ∧
      (∀ i < 2 + hook.next_instruction_length - jump.length,
        mem_view t₁.vm.mem (wrapping_add t.ip jump.length + i) ≠ none) ∧
      patcher' = ⟨pages, CmpList.insert compare s E.SIZE patcher.syscallbuf_stubs⟩ ∧
      t' = { t₁ with
        mem := (write_bytes (write_bytes (write_bytes t₁.mem s stub) t.ip jump) (wrapping_add t.ip jump.length)
          (List.replicate (2 + hook.next_instruction_length - jump.length) 0x90)) } := by
  unfold patch_syscall_with_hook_x86ish at h
  simp only [List.length_replicate, syscall_instruction_length] at h
  cases halloc : allocate_extended_jump E.SIZE t patcher.extended_jump_pages (wrapping_add t.ip J.SIZE) with
  | none => simp [halloc] at h
  | some r =>
    obtain ⟨s, pages, t₁⟩ := r
    simp only [halloc] at h
    by_cases hnull : s = 0
    · simp [hnull] at h
    rw [if_neg hnull] at h
    cases hstub : sub (List.replicate E.SIZE 0) s (wrapping_add (wrapping_add t.ip 2) hook.next_instruction_length)
        hook.hook_address with
    | none => simp [hstub] at h
    | some stub =>
      simp only [hstub] at h
      cases hws : write_and_record_bytes t₁ s stub with
      | none => simp [hws] at h
      | some t₂ =>
        obtain ⟨hmap_s, rfl⟩ := write_and_record_bytes_eq_some.1 hws
        simp only [hws] at h
        -- the `ed_assert_eq!` on the jump's reach
        by_cases hreach : as_i32 (i64_wrap (as_i64 s - as_i64 (wrapping_add t.ip J.SIZE))) =
            i64_wrap (as_i64 s - as_i64 (wrapping_add t.ip J.SIZE))
        swap
        · simp [hreach] at h
        simp only [hreach, ne_eq, not_true_eq_false, if_false] at h
        cases hjump : J.substitute_template (List.replicate J.SIZE 0)
            (as_u32 (i64_wrap (as_i64 s - as_i64 (wrapping_add t.ip J.SIZE)))) with
        | none => simp [hjump] at h
        | some jump =>
          simp only [hjump] at h
          cases hwj : write_and_record_bytes { t₁ with mem := write_bytes t₁.mem s stub } t.ip jump with
          | none => simp [hwj] at h
          | some t₃ =>
            obtain ⟨hmap_j, rfl⟩ := write_and_record_bytes_eq_some.1 hwj
            simp only [hwj] at h
            have hlen : jump.length ≤ 2 + hook.next_instruction_length := by
              by_contra hshort
              simp [show 2 + hook.next_instruction_length < jump.length by omega] at h
            simp only [show ¬ 2 + hook.next_instruction_length < jump.length by omega, if_false] at h
            obtain ⟨t₄, hwn, ht₄⟩ := Option.map_eq_some_iff.1 h
            simp only [Prod.mk.injEq, true_and] at ht₄
            obtain ⟨rfl, rfl⟩ := ht₄
            obtain ⟨hmap_n, rfl⟩ := write_and_record_bytes_eq_some.1 hwn
            rw [List.length_replicate] at hmap_n
            exact ⟨s, pages, t₁, stub, jump, rfl, hnull, hstub, hreach, hjump, hlen, hmap_s, hmap_j, hmap_n,
              rfl, rfl⟩

/-- A patch that gave up: the allocation returned the null pointer, and
nothing else was done. -/
theorem patch_syscall_with_hook_x86ish_false
    (h : patch_syscall_with_hook_x86ish J E sub patcher t hook = some (false, patcher', t')) :
    allocate_extended_jump E.SIZE t patcher.extended_jump_pages (wrapping_add t.ip J.SIZE) =
        some (0, patcher'.extended_jump_pages, t') ∧ patcher'.syscallbuf_stubs = patcher.syscallbuf_stubs := by
  unfold patch_syscall_with_hook_x86ish at h
  simp only [List.length_replicate] at h
  cases halloc : allocate_extended_jump E.SIZE t patcher.extended_jump_pages (wrapping_add t.ip J.SIZE) with
  | none => simp [halloc] at h
  | some r =>
    obtain ⟨s, pages, t₁⟩ := r
    simp only [halloc] at h
    by_cases hnull : s = 0
    · simp only [hnull, if_true, Option.some.injEq, Prod.mk.injEq] at h
      obtain ⟨-, rfl, rfl⟩ := h
      exact ⟨by rw [hnull], rfl⟩
    · -- past the null check the patch panics or patches
      rw [if_neg hnull] at h
      split at h
      · cases h
      · split at h
        · cases h
        · split_ifs at h
          split at h
          · cases h
          · split at h
            · cases h
            · split_ifs at h
              obtain ⟨_, -, h⟩ := Option.map_eq_some_iff.1 h
              simp at h

end Patch

/-! ## Marking a mapping -/

section Flags

variable {s s' : AddressSpace} {addr flags : Nat}

/-- `or_mapping_flags` changes the flags of one entry and nothing else. -/
theorem or_mapping_flags_mem (hs : s.or_mapping_flags addr flags = some s') :
    ∃ k, s'.mem = s.mem.map fun e => if e.1 = k then (e.1, { e.2 with flags := e.2.flags ||| flags }) else e := by
  unfold AddressSpace.or_mapping_flags at hs
  split at hs
  · split_ifs at hs
    simp only [Option.some.injEq] at hs
    subst hs
    exact ⟨_, rfl⟩
  · cases hs

/-- Changing the `MappingFlags` of entries keeps a map well formed, and which
pages it maps. -/
theorem MapInv.map_flags {mem : MemoryMap} (h : MapInv mem) (k : MemoryRange) (flags : Nat) :
    MapInv (mem.map fun e => if e.1 = k then (e.1, { e.2 with flags := e.2.flags ||| flags }) else e) := by
  refine ⟨?_, ?_⟩
  · rw [List.pairwise_map]
    refine h.sorted.imp fun {a b} hab => ?_
    split_ifs <;> exact hab
  · intro e he
    obtain ⟨e', he', rfl⟩ := List.mem_map.1 he
    have w := h.wf e' he'
    split_ifs
    · exact ⟨w.nonempty, w.start_aligned, w.end_aligned, w.end_lt, w.map_mr, w.recorded_mr, w.masked, w.offset_lt⟩
    · exact w

theorem mem_view_map_flags_isSome (mem : MemoryMap) (k : MemoryRange) (flags p : Nat) :
    (mem_view (mem.map fun e => if e.1 = k then (e.1, { e.2 with flags := e.2.flags ||| flags }) else e) p).isSome =
      (mem_view mem p).isSome := by
  unfold mem_view
  rw [List.find?_map]
  have hpred : ((fun e : MemoryRange × Mapping => e.1.contains_ptr p) ∘
      fun e => if e.1 = k then (e.1, { e.2 with flags := e.2.flags ||| flags }) else e) =
      fun e => e.1.contains_ptr p := by
    funext e
    simp only [Function.comp]
    split_ifs <;> rfl
  rw [hpred]
  cases mem.find? (fun e => e.1.contains_ptr p) <;> rfl

theorem or_mapping_flags_spec (h : MapInv s.mem) (hs : s.or_mapping_flags addr flags = some s') :
    MapInv s'.mem ∧ ∀ p, (mem_view s'.mem p).isSome = (mem_view s.mem p).isSome := by
  obtain ⟨k, hk⟩ := or_mapping_flags_mem hs
  rw [hk]
  exact ⟨h.map_flags k flags, fun p => mem_view_map_flags_isSome s.mem k flags p⟩

end Flags

/-! ## The pages and the stubs -/

/-- A mapped byte lies in an entry of the map. -/
theorem exists_of_mem_view_ne_none {mem : MemoryMap} {x : Nat} (hx : mem_view mem x ≠ none) :
    ∃ e ∈ mem, e.1.start_ ≤ x ∧ x < e.1.end_ := by
  by_contra hno
  push Not at hno
  exact hx (mem_view_eq_none fun e he hin => absurd hin.2 (not_lt.2 (hno e he hin.1)))

/-- A byte of an entry of a well-formed map is mapped. -/
theorem mem_view_ne_none_of_mem {mem : MemoryMap} (h : MapInv mem) {e : MemoryRange × Mapping} (he : e ∈ mem)
    {x : Nat} (h1 : e.1.start_ ≤ x) (h2 : x < e.1.end_) : mem_view mem x ≠ none := by
  rw [h.mem_view_of_mem he (by simp [MemoryRange.contains_ptr, h1, h2])]
  exact Option.some_ne_none _

/-- A mapped byte is below the last word: mappings end below the top. -/
theorem add_one_lt_of_mem_view_ne_none {mem : MemoryMap} (h : MapInv mem) {x : Nat}
    (hx : mem_view mem x ≠ none) : x + 1 < 2 ^ 64 := by
  obtain ⟨e, he, -, hlt⟩ := exists_of_mem_view_ne_none hx
  have := (h.wf e he).end_lt
  omega

/-- What the pages and stubs of a patcher keep in its address space `vm`: each
page mapped, the pages apart and filled no further than their end, and each
stub inside the filled part of a page and apart from the others. -/
structure PatcherInv (patcher : MonkeyPatcher) (vm : AddressSpace) : Prop where
  mapped : ∀ p ∈ patcher.extended_jump_pages, ∀ x, p.addr ≤ x → x < p.addr + page_size →
    mem_view vm.mem x ≠ none
  apart : patcher.extended_jump_pages.Pairwise
    (fun p q => p.addr + page_size ≤ q.addr ∨ q.addr + page_size ≤ p.addr)
  allocated_le : ∀ p ∈ patcher.extended_jump_pages, p.allocated ≤ page_size
  sorted : CmpList.Sorted patcher.syscallbuf_stubs
  in_page : ∀ e ∈ patcher.syscallbuf_stubs, 0 < e.2 ∧
    ∃ p ∈ patcher.extended_jump_pages, p.addr ≤ e.1 ∧ e.1 + e.2 ≤ p.addr + p.allocated
  stubs_apart : ∀ a ∈ patcher.syscallbuf_stubs, ∀ b ∈ patcher.syscallbuf_stubs, a.1 < b.1 → a.1 + a.2 ≤ b.1

/-- No mapping ends within three pages of the top of the address space, where
`find_free_memory`'s sums would wrap. -/
def TopClear (vm : AddressSpace) : Prop := ∀ e ∈ vm.mem, e.1.end_ + 3 * page_size < 2 ^ 64

theorem PatcherInv.empty (vm : AddressSpace) : PatcherInv ⟨[], []⟩ vm :=
  ⟨by simp, List.Pairwise.nil, by simp, CmpList.Sorted.nil, by simp, by simp⟩

/-- A mapped byte lies three pages and more below the top. -/
theorem TopClear.mapped {vm : AddressSpace} (htop : TopClear vm) {x : Nat} (hx : mem_view vm.mem x ≠ none) :
    x + 1 + 3 * page_size < 2 ^ 64 := by
  obtain ⟨e, he, -, hlt⟩ := exists_of_mem_view_ne_none hx
  have := htop e he
  omega

/-- Over a well-formed map, no mapping ends near the top when no mapped byte
lies near it: the last byte of each mapping is mapped. -/
theorem TopClear.of_mapped {vm : AddressSpace} (h : MapInv vm.mem)
    (hv : ∀ x, mem_view vm.mem x ≠ none → x + 1 + 3 * page_size < 2 ^ 64) : TopClear vm := by
  intro e he
  have hne := (h.wf e he).nonempty
  have := hv (e.1.end_ - 1) (mem_view_ne_none_of_mem h he (by omega) (by omega))
  omega

/-- User space ends more than three pages below the top. -/
theorem TASK_SIZE_add_lt (arch : SupportedArch) : TASK_SIZE arch + 3 * page_size < 2 ^ 64 := by
  cases arch <;> decide

section Inv

variable {pages : List ExtendedJumpPage} {stubs : List (Nat × Nat)} {vm : AddressSpace}

/-- A page of a mapped patcher ends inside the address space. -/
theorem PatcherInv.page_end_le (hI : PatcherInv ⟨pages, stubs⟩ vm) (h : MapInv vm.mem) {p : ExtendedJumpPage}
    (hp : p ∈ pages) : p.addr + page_size < 2 ^ 64 := by
  have := add_one_lt_of_mem_view_ne_none h (hI.mapped p hp (p.addr + page_size - 1) (by unfold page_size; omega)
    (by unfold page_size; omega))
  unfold page_size at this ⊢
  omega

/-- Two stubs of a patcher are apart. -/
theorem PatcherInv.stub_apart (hI : PatcherInv ⟨pages, stubs⟩ vm) {a b : Nat × Nat} (ha : a ∈ stubs)
    (hb : b ∈ stubs) (hne : a.1 ≠ b.1) : a.1 + a.2 ≤ b.1 ∨ b.1 + b.2 ≤ a.1 := by
  rcases Nat.lt_or_gt_of_ne hne with hlt | hgt
  · exact .inl (hI.stubs_apart a ha b hb hlt)
  · exact .inr (hI.stubs_apart b hb a ha hgt)

/-- Two pages of a patcher are apart. -/
theorem PatcherInv.page_apart (hI : PatcherInv ⟨pages, stubs⟩ vm) {p q : ExtendedJumpPage} (hp : p ∈ pages)
    (hq : q ∈ pages) (hne : p ≠ q) : p.addr + page_size ≤ q.addr ∨ q.addr + page_size ≤ p.addr := by
  have : Std.Symm (fun p q : ExtendedJumpPage => p.addr + page_size ≤ q.addr ∨ q.addr + page_size ≤ p.addr) :=
    ⟨fun _ _ h => h.symm⟩
  exact hI.apart.forall hp hq hne

/-- Every byte of a stub of a patcher is mapped. -/
theorem PatcherInv.stub_mapped (hI : PatcherInv ⟨pages, stubs⟩ vm) {e : Nat × Nat} (he : e ∈ stubs) {x : Nat}
    (h1 : e.1 ≤ x) (h2 : x < e.1 + e.2) : mem_view vm.mem x ≠ none := by
  obtain ⟨-, p, hp, hlo, hhi⟩ := hI.in_page e he
  have := hI.allocated_le p hp
  exact hI.mapped p hp x (by omega) (by omega)

/-- A new stub inside the filled part of a page and apart from the stubs
before it keeps the stubs in order. -/
theorem PatcherInv.insert_stub (hI : PatcherInv ⟨pages, stubs⟩ vm) {s SIZE : Nat} (hsize : 0 < SIZE)
    (hin : ∃ p ∈ pages, p.addr ≤ s ∧ s + SIZE ≤ p.addr + p.allocated)
    (hfresh : ∀ e ∈ stubs, e.1 + e.2 ≤ s ∨ s + SIZE ≤ e.1) :
    PatcherInv ⟨pages, CmpList.insert compare s SIZE stubs⟩ vm := by
  have hmem := fun x => CmpList.mem_insert_iff (k := s) (v := SIZE) (x := x) hI.sorted
  refine ⟨hI.mapped, hI.apart, hI.allocated_le, hI.sorted.insert, ?_, ?_⟩
  · intro e he
    rcases (hmem e).1 he with rfl | ⟨he, -⟩
    · exact ⟨hsize, hin⟩
    · exact hI.in_page e he
  · intro a ha b hb hlt
    rcases (hmem a).1 ha with rfl | ⟨ha, -⟩ <;> rcases (hmem b).1 hb with rfl | ⟨hb, -⟩
    · exact absurd hlt (lt_irrefl _)
    · have := (hI.in_page b hb).1
      rcases hfresh b hb with h | h <;> simp only at hlt ⊢ <;> omega
    · have := (hI.in_page a ha).1
      rcases hfresh a ha with h | h <;> simp only at hlt ⊢ <;> omega
    · exact hI.stubs_apart a ha b hb hlt

/-- Filling the next stub of a page keeps the pages and the stubs already
there. -/
theorem PatcherInv.fill_page (hI : PatcherInv ⟨pages, stubs⟩ vm) {i SIZE : Nat} {p : ExtendedJumpPage}
    (hp : pages[i]? = some p) (hroom : p.allocated + SIZE ≤ page_size) :
    PatcherInv ⟨pages.set i { p with allocated := p.allocated + SIZE }, stubs⟩ vm := by
  obtain ⟨hi, rfl⟩ := List.getElem?_eq_some_iff.1 hp
  set p' : ExtendedJumpPage := { pages[i] with allocated := pages[i].allocated + SIZE }
  -- the filled page is where it was, with more of it filled
  have hmem : ∀ q ∈ pages.set i p', q ∈ pages ∨ q = p' := fun q hq => List.mem_or_eq_of_mem_set hq
  have haddr : (pages.set i p').map ExtendedJumpPage.addr = pages.map ExtendedJumpPage.addr := by
    rw [List.map_set]
    show (pages.map ExtendedJumpPage.addr).set i pages[i].addr = _
    rw [← List.getElem_map ExtendedJumpPage.addr]
    · exact List.set_getElem_self _
    · simpa using hi
  refine ⟨?_, ?_, ?_, hI.sorted, ?_, hI.stubs_apart⟩
  · intro q hq
    rcases hmem q hq with hq | rfl
    · exact hI.mapped q hq
    · exact fun x h1 h2 => hI.mapped _ (List.getElem_mem hi) x h1 h2
  · -- apartness reads the addresses only, and they are unchanged
    have happart : (pages.map ExtendedJumpPage.addr).Pairwise
        (fun a b => a + page_size ≤ b ∨ b + page_size ≤ a) := List.pairwise_map.2 hI.apart
    rw [← haddr] at happart
    exact List.pairwise_map.1 happart
  · intro q hq
    rcases hmem q hq with hq | rfl
    · exact hI.allocated_le q hq
    · exact hroom
  · intro e he
    obtain ⟨hpos, q, hq, hlo, hhi⟩ := hI.in_page e he
    refine ⟨hpos, ?_⟩
    obtain ⟨j, hj, rfl⟩ := List.getElem_of_mem hq
    by_cases hij : i = j
    · subst hij
      have hle : e.1 + e.2 ≤ pages[i].addr + pages[i].allocated := hhi
      exact ⟨p', List.mem_set hi p', hlo,
        show e.1 + e.2 ≤ pages[i].addr + (pages[i].allocated + SIZE) by omega⟩
    · exact ⟨pages[j], by rw [← List.getElem_set_ne hij (by simpa using hj)]; exact List.getElem_mem _,
        hlo, hhi⟩

/-- A new page mapped where nothing was, its first stub taken, keeps the
pages apart and the stubs where they were. -/
theorem PatcherInv.add_page (hI : PatcherInv ⟨pages, stubs⟩ vm) {vm' : AddressSpace} {s SIZE : Nat}
    (hkeep : ∀ x, mem_view vm.mem x ≠ none → mem_view vm'.mem x ≠ none)
    (hnew : ∀ x, s ≤ x → x < s + page_size → mem_view vm'.mem x ≠ none)
    (hout : ∀ x, mem_view vm.mem x ≠ none → x < s ∨ s + page_size ≤ x) (hSIZE : SIZE ≤ page_size) :
    PatcherInv ⟨pages ++ [⟨s, SIZE⟩], stubs⟩ vm' := by
  have hps : 0 < page_size := by decide
  refine ⟨?_, ?_, ?_, hI.sorted, ?_, hI.stubs_apart⟩
  · intro p hp x h1 h2
    rcases List.mem_append.1 hp with hp | hp
    · exact hkeep x (hI.mapped p hp x h1 h2)
    · rw [List.mem_singleton] at hp
      subst hp
      exact hnew x h1 h2
  · refine List.pairwise_append.2 ⟨hI.apart, List.pairwise_singleton _ _, ?_⟩
    intro p hp q hq
    rw [List.mem_singleton] at hq
    subst hq
    -- the first and the last byte of an old page are mapped, so outside the new one
    have hfirst := hout p.addr (hI.mapped p hp p.addr le_rfl (by omega))
    have hlast := hout (p.addr + page_size - 1) (hI.mapped p hp _ (by omega) (by omega))
    dsimp only
    omega
  · intro p hp
    rcases List.mem_append.1 hp with hp | hp
    · exact hI.allocated_le p hp
    · rw [List.mem_singleton] at hp
      subst hp
      exact hSIZE
  · intro e he
    obtain ⟨hpos, p, hp, hin⟩ := hI.in_page e he
    exact ⟨hpos, p, List.mem_append_left _ hp, hin⟩

/-- The page `allocate_extended_jump` maps sits in the middle of the first
free gap of three pages after the patch site's mapping: every byte mapped
before is outside the gap and still mapped after, and every byte of the new
page is mapped. -/
theorem new_stub_page_spec {t : PatchTask} {from_end free_mem : Nat} {m : Mapping} {vm₁ vm' : AddressSpace}
    {km : KernelMapping} (h : MapInv t.vm.mem) (htop : TopClear t.vm)
    (hm : t.vm.mapping_of from_end = some m)
    (hfree : t.vm.find_free_memory (3 * page_size) (some m.map.mr.start_) = some free_mem)
    (hmap : stub_page_map t.vm (wrapping_add free_mem page_size) = some (vm₁, km))
    (hflags : vm₁.or_mapping_flags (wrapping_add free_mem page_size) IS_PATCH_STUBS = some vm') :
    wrapping_add free_mem page_size = free_mem + page_size ∧ free_mem + 3 * page_size < 2 ^ 64 ∧
      (∀ x, mem_view t.vm.mem x ≠ none → x < free_mem ∨ free_mem + 3 * page_size ≤ x) ∧
      MapInv vm'.mem ∧ (∀ x, mem_view t.vm.mem x ≠ none → mem_view vm'.mem x ≠ none) ∧
      (∀ x, free_mem + page_size ≤ x → x < free_mem + page_size + page_size → mem_view vm'.mem x ≠ none) ∧
      (∀ x, mem_view vm'.mem x ≠ none →
        mem_view t.vm.mem x ≠ none ∨ free_mem + page_size ≤ x ∧ x < free_mem + page_size + page_size) := by
  obtain ⟨hko, hmr⟩ := h.keyOrdered
  obtain ⟨e, he, -, rfl⟩ := (hko.mapping_of_eq_some_iff hmr from_end m).1 hm
  -- the gap `find_free_memory` returns, where nothing wraps
  have hstart : e.2.map.mr.start_ ≤ e.1.start_ := by rw [hmr e he]
  obtain ⟨p, hp, -, ⟨e', he', -, hend⟩, hgap, -⟩ :=
    find_free_memory_of_no_wrap h ⟨e, he, hstart⟩ (fun f hf _ => htop f hf)
  rw [hfree, Option.some.injEq] at hp
  subst hp
  have hfit := hgap.1
  have hwrap : wrapping_add free_mem page_size = free_mem + page_size := wrapping_add_of_lt (by omega)
  have hout : ∀ x, mem_view t.vm.mem x ≠ none → x < free_mem ∨ free_mem + 3 * page_size ≤ x := by
    intro x hx
    obtain ⟨f, hf, hlo, hhi⟩ := exists_of_mem_view_ne_none hx
    rcases hgap.2 f hf with hle | hle <;> omega
  -- the page is mapped with `AddressSpace.map`
  have hal : Aligned (free_mem + page_size) := by
    have := (h.wf e' he').end_aligned
    rw [hend] at this
    unfold Aligned page_size at this ⊢
    omega
  have hceil : ceil_page_size page_size = page_size := ceil_page_size_of_aligned (by decide) (by decide)
  rw [stub_page_map, hwrap] at hmap
  rw [hwrap] at hflags
  obtain ⟨hinv₁, hview₁⟩ := AddressSpace.map_spec h hal (by rw [hceil]; decide) (by rw [hceil]; omega) (by decide)
    (by
      intro r hr
      rw [Option.mem_some_iff] at hr
      subst hr
      simp only [KernelMapping.new_with_opts, MemoryRange.from_range, hceil, wrapping_add_of_lt (show
        free_mem + page_size + page_size < 2 ^ 64 by omega)]) hmap
  rw [hceil] at hview₁
  have hsome₁ : ∀ x, (mem_view vm₁.mem x).isSome =
      (if free_mem + page_size ≤ x ∧ x < free_mem + page_size + page_size then true
        else (mem_view t.vm.mem x).isSome) := by
    intro x
    have := congrArg Option.isSome (hview₁ x).1
    dsimp only at this
    rw [Option.isSome_map, Option.isSome_map] at this
    rw [this]
    split_ifs <;> rfl
  obtain ⟨hinv', hsome'⟩ := or_mapping_flags_spec hinv₁ hflags
  -- a byte is mapped after exactly when it is in the new page or was mapped before
  have hmapped : ∀ x, mem_view vm'.mem x ≠ none ↔
      (free_mem + page_size ≤ x ∧ x < free_mem + page_size + page_size) ∨ mem_view t.vm.mem x ≠ none := by
    intro x
    rw [← Option.isSome_iff_ne_none, ← Option.isSome_iff_ne_none, hsome', hsome₁]
    split_ifs with hin <;> simp [hin]
  exact ⟨hwrap, hfit, hout, hinv', fun x hx => (hmapped x).2 (.inr hx),
    fun x h1 h2 => (hmapped x).2 (.inl ⟨h1, h2⟩), fun x hx => ((hmapped x).1 hx).symm⟩

/-- A page that fits has room for the stub, and neither the address of its
next stub nor its new fill wraps. -/
theorem PatcherInv.fits_room (hI : PatcherInv ⟨pages, stubs⟩ vm) (h : MapInv vm.mem) {SIZE from_end : Nat}
    (hSIZE : SIZE ≤ page_size) {i : Nat} {p : ExtendedJumpPage}
    (hfind : pages.findIdx? (page_fits SIZE from_end) = some i) (hp : pages[i]? = some p) :
    wrapping_add p.addr p.allocated = p.addr + p.allocated ∧
      wrapping_add p.allocated SIZE = p.allocated + SIZE ∧ p.allocated + SIZE ≤ page_size := by
  have hmem : p ∈ pages := List.mem_of_getElem? hp
  have hfits : page_fits SIZE from_end p = true := by
    obtain ⟨hi, hgood, -⟩ := List.findIdx?_eq_some_iff_getElem.1 hfind
    rw [List.getElem?_eq_getElem hi, Option.some_inj] at hp
    rwa [← hp]
  have hend := hI.page_end_le h hmem
  have hle := hI.allocated_le p hmem
  have hroom : wrapping_add p.allocated SIZE ≤ page_size := by
    simp only [page_fits, Bool.and_eq_true, decide_eq_true_eq] at hfits
    exact hfits.2
  have hps : page_size = 4096 := rfl
  have hfill : wrapping_add p.allocated SIZE = p.allocated + SIZE := wrapping_add_of_lt (by omega)
  exact ⟨wrapping_add_of_lt (by omega), hfill, hfill ▸ hroom⟩

/-- A stub `allocate_extended_jump` hands out lies in the filled part of a
page and apart from every stub before it, over bytes that were unmapped or in a
page of the patcher; with it recorded, the invariant holds of the new pages,
and every byte mapped before still is. -/
theorem allocate_extended_jump_spec {SIZE from_end s : Nat} {t t' : PatchTask} {pages' : List ExtendedJumpPage}
    (hI : PatcherInv ⟨pages, stubs⟩ t.vm) (h : MapInv t.vm.mem) (htop : TopClear t.vm)
    (hpos : 0 < SIZE) (hSIZE : SIZE ≤ page_size)
    (ha : allocate_extended_jump SIZE t pages from_end = some (s, pages', t')) (hs : s ≠ 0) :
    PatcherInv ⟨pages', CmpList.insert compare s SIZE stubs⟩ t'.vm ∧ MapInv t'.vm.mem ∧ TopClear t'.vm ∧
      (∃ p ∈ pages', p.addr ≤ s ∧ s + SIZE ≤ p.addr + p.allocated) ∧
      (∀ e ∈ stubs, e.1 + e.2 ≤ s ∨ s + SIZE ≤ e.1) ∧
      (∀ x, mem_view t.vm.mem x ≠ none → mem_view t'.vm.mem x ≠ none) ∧
      (∀ x, s ≤ x → x < s + SIZE →
        mem_view t.vm.mem x = none ∨ ∃ p ∈ pages, p.addr ≤ x ∧ x < p.addr + page_size) ∧
      ∀ x, mem_view t.vm.mem x ≠ none → t'.mem x = t.mem x := by
  rcases allocate_extended_jump_cases ha with ⟨hnull, -, -⟩ | ⟨i, p, hfind, hp, hs', hpages, ht⟩ |
      ⟨m, free_mem, vm₁, km, vm', -, hm, hfree, hs', -, htask, hmap, hflags, hpages, ht⟩
  · exact absurd hnull hs
  · -- the next stub of a page that fits
    subst hs' hpages ht
    have hmem : p ∈ pages := List.mem_of_getElem? hp
    obtain ⟨haddr, hfill, hroom⟩ := hI.fits_room h hSIZE hfind hp
    rw [haddr, hfill]
    have hfresh : ∀ e ∈ stubs, e.1 + e.2 ≤ p.addr + p.allocated ∨ p.addr + p.allocated + SIZE ≤ e.1 := by
      intro e he
      obtain ⟨-, q, hq, hlo, hhi⟩ := hI.in_page e he
      by_cases hpq : p = q
      · subst hpq
        exact .inl hhi
      · have := hI.allocated_le q hq
        rcases hI.page_apart hmem hq hpq with hsep | hsep <;> omega
    have hin : ∃ q ∈ pages.set i { p with allocated := p.allocated + SIZE },
        q.addr ≤ p.addr + p.allocated ∧ p.addr + p.allocated + SIZE ≤ q.addr + q.allocated :=
      ⟨_, List.mem_set (List.getElem?_eq_some_iff.1 hp).1 _, Nat.le_add_right _ _, (Nat.add_assoc _ _ _).le⟩
    refine ⟨(hI.fill_page hp hroom).insert_stub hpos hin hfresh, h, htop, hin, hfresh, fun _ hx => hx, ?_,
      fun _ _ => rfl⟩
    intro x h1 h2
    exact .inr ⟨p, hmem, by omega, by omega⟩
  · -- the first stub of a new page
    subst ht hpages
    rw [hs'] at hmap hflags htask
    obtain ⟨hwrap, hfit, hout, hinv', hkeep, hnew, hback⟩ := new_stub_page_spec h htop hm hfree hmap hflags
    rw [hwrap] at htask
    -- the new page lies in user space, far below the top
    have htop' : TopClear vm' := by
      refine TopClear.of_mapped hinv' fun x hx => ?_
      rcases hback x hx with hold | ⟨-, hlt⟩
      · exact htop.mapped hold
      · have := TASK_SIZE_add_lt t.arch
        omega
    rw [hs', hwrap, wrapping_add_of_lt (by omega : 0 + SIZE < 2 ^ 64), Nat.zero_add]
    have hout' : ∀ x, mem_view t.vm.mem x ≠ none →
        x < free_mem + page_size ∨ free_mem + page_size + page_size ≤ x := by
      intro x hx
      rcases hout x hx with hlt | hge <;> omega
    -- an old stub's bytes are mapped, the new stub's in the gap
    have hfresh : ∀ e ∈ stubs, e.1 + e.2 ≤ free_mem + page_size ∨ free_mem + page_size + SIZE ≤ e.1 := by
      intro e he
      by_contra hov
      push Not at hov
      have hpos' := (hI.in_page e he).1
      have := hout' (max e.1 (free_mem + page_size)) (hI.stub_mapped he (le_max_left _ _) (by omega))
      omega
    refine ⟨(hI.add_page hkeep hnew hout' hSIZE).insert_stub hpos
      ⟨_, List.mem_append_right _ (List.mem_singleton_self _), le_rfl, le_rfl⟩ hfresh, hinv', htop',
      ⟨_, List.mem_append_right _ (List.mem_singleton_self _), le_rfl, le_rfl⟩, hfresh, hkeep, ?_, ?_⟩
    · intro x h1 h2
      left
      by_contra hx
      have := hout' x hx
      omega
    · -- the zeroed page was unmapped
      intro x hx
      have := hout' x hx
      exact write_bytes_outside (by simp only [List.length_replicate]; omega)

/-- An allocation that returned the null pointer changed no memory, and its
pages keep the invariant: out of reach nothing changed, and a page at the
null pointer handed out a stub its caller then drops. -/
theorem allocate_extended_jump_null {SIZE from_end : Nat} {t t' : PatchTask} {pages' : List ExtendedJumpPage}
    (hI : PatcherInv ⟨pages, stubs⟩ t.vm) (h : MapInv t.vm.mem) (htop : TopClear t.vm) (hSIZE : SIZE ≤ page_size)
    (ha : allocate_extended_jump SIZE t pages from_end = some (0, pages', t')) :
    t' = t ∧ PatcherInv ⟨pages', stubs⟩ t.vm := by
  rcases allocate_extended_jump_cases ha with ⟨-, hpages, ht⟩ | ⟨i, p, hfind, hp, -, hpages, ht⟩ |
      ⟨m, free_mem, vm₁, km, vm', -, hm, hfree, hs', -, -, hmap, hflags, -, -⟩
  · subst hpages ht
    exact ⟨rfl, hI⟩
  · subst hpages ht
    obtain ⟨-, hfill, hroom⟩ := hI.fits_room h hSIZE hfind hp
    rw [hfill]
    exact ⟨rfl, hI.fill_page hp hroom⟩
  · -- a new page is above the null pointer
    rw [hs'] at hmap hflags
    obtain ⟨hwrap, -⟩ := new_stub_page_spec h htop hm hfree hmap hflags
    rw [hwrap] at hs'
    exact absurd hs' (by unfold page_size; omega)

end Inv

end RdReplay
