/-
  MonkeyPatcher/Redirect.lean --- what a syscall patch leaves in memory, and
  what a run of patches keeps.

  Source: `monkey_patcher.rs` (`patch_syscall_with_hook_x86ish`,
  `patch_syscall_with_hook`, `is_jump_stub_instruction`) and the templates of
  `assembly_templates.py`.

  WHAT IS PROVED.  A patch that returns `true` leaves a `jmp rel32` over the
  syscall and the hooked instruction, NOPs after it, and a stub at the jump's
  target; the stub lies in the filled part of an extended-jump page, apart from
  every stub before it, returns to the instruction after the hooked one and
  jumps to the hook.  This needs the patcher's pages to be mapped and apart
  (`PatcherInv`), nothing mapped near the top of the address space
  (`TopClear`), and the patch site mapped and outside every page
  (`SiteClear`): the task executed the syscall there, and rd's stubs hold no
  syscall.  A patch keeps the invariant and `TopClear`, every stub recorded and
  its bytes, and every recorded stub a stub; and `is_jump_stub_instruction`
  then says whether an address is inside a stub.
-/
import RdReplay.MonkeyPatcher.ExtendedJump

set_option autoImplicit false

namespace RdReplay

open RdReplay.Record (le_bytes read_mem length_le_bytes read_mem_congr read_mem_write_bytes_self
  read_mem_write_bytes_disjoint write_bytes_outside write_bytes_append)

/-! ## What a patch promises -/

/-- The stub template `patch_syscall_with_hook` passes on each architecture. -/
def stub_template : SupportedArch → AssemblyTemplate
  | .X86 => X86SyscallStubExtendedJump
  | .X64 => X64SyscallStubExtendedJump

/-- The patch site: the `len` bytes from the task's `ip` are mapped and outside
every extended-jump page. -/
def SiteClear (patcher : MonkeyPatcher) (t : PatchTask) (len : Nat) : Prop :=
  ∀ x, t.ip ≤ x → x < t.ip + len →
    mem_view t.vm.mem x ≠ none ∧ ∀ p ∈ patcher.extended_jump_pages, x < p.addr ∨ p.addr + page_size ≤ x

/-- The `len` bytes at `a` are a `jmp rel32` to `s` and NOPs after it: the
offset counts from the end of the five-byte jump. -/
def JumpsTo (mem : Nat → UInt8) (a len s : Nat) : Prop :=
  ∃ rel < 2 ^ 32, read_mem mem a len = 0xe9 :: le_bytes 4 rel ++ List.replicate (len - 5) 0x90 ∧
    ((a : Int) + 5 + as_i32 rel) % 2 ^ 64 = s

/-- The stub bytes, read back with the template's `matchp`, push `ret` and jump
to `target`.  The x86 stub holds the low half of the return address and a jump
relative to the end of its last field, both modulo `2^32`; the x64 stub holds
both halves of the return address and the target as a word. -/
def StubRedirects : SupportedArch → List UInt8 → Nat → Nat → Nat → Prop
  | .X86, bytes, s, ret, target => ∃ r rel,
    X86SyscallStubExtendedJump.matchp bytes = some (some [r, rel]) ∧ r = ret % 2 ^ 32 ∧
      ((s : Int) + X86SyscallStubExtendedJump.TRAMPOLINE_RELATIVE_ADDR_END + as_i32 rel) % 2 ^ 32 =
        (target : Int) % 2 ^ 32
  | .X64, bytes, _, ret, target => ∃ lo hi tgt,
    X64SyscallStubExtendedJump.matchp bytes = some (some [lo, hi, tgt]) ∧ lo + 2 ^ 32 * hi = ret % 2 ^ 64 ∧
      tgt = target % 2 ^ 64

/-- What a patch that returned `true` leaves, `s` the stub's address and `SIZE`
its size: the jump at the site, the stub in a page and apart from the stubs
before, recorded, the invariants, and every other mapped byte as it was. -/
structure Patched (SIZE : Nat) (patcher patcher' : MonkeyPatcher) (t t' : PatchTask) (len s : Nat) : Prop where
  jumps : JumpsTo t'.mem t.ip len s
  in_page : ∃ p ∈ patcher'.extended_jump_pages, p.addr ≤ s ∧ s + SIZE ≤ p.addr + p.allocated
  fresh : ∀ e ∈ patcher.syscallbuf_stubs, e.1 + e.2 ≤ s ∨ s + SIZE ≤ e.1
  recorded : patcher'.syscallbuf_stubs = CmpList.insert compare s SIZE patcher.syscallbuf_stubs
  inv : PatcherInv patcher' t'.vm
  map_inv : MapInv t'.vm.mem
  top : TopClear t'.vm
  mapped : ∀ x, mem_view t.vm.mem x ≠ none → mem_view t'.vm.mem x ≠ none
  frame : ∀ x, mem_view t.vm.mem x ≠ none → (x < t.ip ∨ t.ip + len ≤ x) → (x < s ∨ s + SIZE ≤ x) →
    t'.mem x = t.mem x

/-! ## The jump -/

theorem TRAMPOLINE_RELATIVE_ADDR_END_eq : X86SyscallStubExtendedJump.TRAMPOLINE_RELATIVE_ADDR_END = 44 := by
  decide

/-- The jump the code writes, read as a `jmp rel32`, lands on the stub: the
offset fits `i32` (the `ed_assert_eq!`), so its low 32 bits, sign-extended,
are the offset itself. -/
theorem jump_offset_lands {s a : Nat} (hs : s < 2 ^ 64) (ha : a + 5 < 2 ^ 64)
    (hreach : as_i32 (i64_wrap (as_i64 s - as_i64 (a + 5))) = i64_wrap (as_i64 s - as_i64 (a + 5))) :
    ((a : Int) + 5 + as_i32 (as_u32 (i64_wrap (as_i64 s - as_i64 (a + 5))) : Nat)) % 2 ^ 64 = s := by
  rw [as_i32_as_u32, hreach]
  have := add_offset_emod hs (show a + 5 < 2 ^ 64 from ha)
  push_cast at this
  exact this

/-! ## The stubs -/

/-- The x86 stub returns to the low half of the return address and jumps to
the target modulo `2^32`: its jump counts from `TRAMPOLINE_RELATIVE_ADDR_END`. -/
theorem X86SyscallStubExtendedJump.substitute_extended_jump_spec {s ret target : Nat} {stub : List UInt8}
    (h : X86SyscallStubExtendedJump.substitute_extended_jump (List.replicate X86SyscallStubExtendedJump.SIZE 0)
      s ret target = some stub) :
    stub.length = X86SyscallStubExtendedJump.SIZE ∧ StubRedirects .X86 stub s ret target := by
  unfold X86SyscallStubExtendedJump.substitute_extended_jump at h
  obtain ⟨hlen, hm⟩ := substitute_zeros_spec _ (by rw [X86SyscallStubExtendedJump_field_lengths]; rfl) h
  rw [field_values, X86SyscallStubExtendedJump_field_lengths] at hm
  set offset := i64_wrap (as_i64 target - i64_wrap (as_i64 s + X86SyscallStubExtendedJump.TRAMPOLINE_RELATIVE_ADDR_END))
    with hoffset
  refine ⟨hlen, _, _, hm, by dsimp only; omega, ?_⟩
  -- the offset is `target - (s + 44)` modulo the word, so modulo `2^32` too
  have hlt := as_u32_lt offset
  have h1 : ((as_u32 offset % 256 ^ 4 : Nat) : Int) = (as_u32 offset : Int) := by
    rw [Nat.mod_eq_of_lt (by simpa using hlt)]
  have h2 := as_i32_emod offset
  have h3 := i64_wrap_emod (as_i64 target - i64_wrap (as_i64 s + X86SyscallStubExtendedJump.TRAMPOLINE_RELATIVE_ADDR_END))
  have h4 := i64_wrap_emod (as_i64 s + X86SyscallStubExtendedJump.TRAMPOLINE_RELATIVE_ADDR_END)
  have h5 := as_i64_mod s
  have h6 := as_i64_mod target
  rw [h1, as_i32_as_u32]
  rw [← hoffset] at h3
  omega

/-- The x64 stub holds the return address in two halves and the target whole. -/
theorem X64SyscallStubExtendedJump.substitute_extended_jump_spec {s ret target : Nat} {stub : List UInt8}
    (h : X64SyscallStubExtendedJump.substitute_extended_jump (List.replicate X64SyscallStubExtendedJump.SIZE 0)
      s ret target = some stub) :
    stub.length = X64SyscallStubExtendedJump.SIZE ∧ StubRedirects .X64 stub s ret target := by
  unfold X64SyscallStubExtendedJump.substitute_extended_jump at h
  obtain ⟨hlen, hm⟩ := substitute_zeros_spec _ (by rw [X64SyscallStubExtendedJump_field_lengths]; rfl) h
  rw [field_values, X64SyscallStubExtendedJump_field_lengths] at hm
  exact ⟨hlen, _, _, _, hm, by dsimp only; omega, by dsimp only; omega⟩

/-! ## One patch -/

section Patch

variable {J E : AssemblyTemplate} {sub : List UInt8 → Nat → Nat → Nat → Option (List UInt8)}
  {patcher patcher' : MonkeyPatcher} {t t' : PatchTask} {hook : syscall_patch_hook}

/-- A stub and the patch site do not meet: each byte of the stub was unmapped
or in a page, and each byte of the site is mapped and outside every page. -/
theorem stub_apart_site {s SIZE len : Nat} (hsize : 0 < SIZE) (hlen : 0 < len) (hsite : SiteClear patcher t len)
    (hsrc : ∀ x, s ≤ x → x < s + SIZE →
      mem_view t.vm.mem x = none ∨ ∃ p ∈ patcher.extended_jump_pages, p.addr ≤ x ∧ x < p.addr + page_size) :
    s + SIZE ≤ t.ip ∨ t.ip + len ≤ s := by
  by_contra hov
  push Not at hov
  obtain ⟨hmapped, hout⟩ := hsite (max s t.ip) (le_max_right _ _) (by omega)
  rcases hsrc (max s t.ip) (le_max_left _ _) (by omega) with hnone | ⟨p, hp, h1, h2⟩
  · exact hmapped hnone
  · have := hout p hp
    omega

/-- What `patch_syscall_with_hook_x86ish` leaves when it returns `true`, for a
jump template that is a `jmp rel32` and a stub that fits a page: the jump and
the NOPs at the site, and the stub `sub` made at the jump's target. -/
theorem patch_syscall_with_hook_x86ish_spec {name : String}
    (hJ : J.chunks = [.RawBytes [0xe9], .Field name 4]) (hpos : 0 < E.SIZE) (hSIZE : E.SIZE ≤ page_size)
    (hsub : ∀ s ret target stub, sub (List.replicate E.SIZE 0) s ret target = some stub → stub.length = E.SIZE)
    (hI : PatcherInv patcher t.vm) (h : MapInv t.vm.mem) (htop : TopClear t.vm)
    (hsite : SiteClear patcher t (2 + hook.next_instruction_length))
    (hpatch : patch_syscall_with_hook_x86ish J E sub patcher t hook = some (true, patcher', t')) :
    ∃ s, Patched E.SIZE patcher patcher' t t' (2 + hook.next_instruction_length) s ∧
      ∃ stub, sub (List.replicate E.SIZE 0) s (t.ip + 2 + hook.next_instruction_length) hook.hook_address =
        some stub ∧ read_mem t'.mem s E.SIZE = stub := by
  obtain ⟨pages, stubs⟩ := patcher
  obtain ⟨s, pages', t₁, stub, jump, halloc, hs, hstub, hreach, hjump, hlen, -, -, -, rfl, rfl⟩ :=
    patch_syscall_with_hook_x86ish_true hpatch
  obtain ⟨hI', hinv', htop', hin, hfresh, hkeep, hsrc, hmem₁⟩ :=
    allocate_extended_jump_spec hI h htop hpos hSIZE halloc hs
  -- the jump is `jmp rel32`, five bytes
  have hJsize := (substitute_jmp_rel32 hJ 0).1
  rw [AssemblyTemplate.substitute_template, (substitute_jmp_rel32 hJ _).2, Option.some_inj] at hjump
  subst hjump
  set n := hook.next_instruction_length
  set rel := as_u32 (i64_wrap (as_i64 s - as_i64 (wrapping_add t.ip J.SIZE)))
  have hjlen : (0xe9 :: le_bytes 4 rel).length = 5 := by simp [length_le_bytes]
  rw [hjlen] at hlen
  -- neither the site nor the stub wraps
  have hend : t.ip + 2 + n < 2 ^ 64 := by
    have := add_one_lt_of_mem_view_ne_none h (hsite (t.ip + 2 + n - 1) (by omega) (by omega)).1
    omega
  have hstub_end : s + E.SIZE < 2 ^ 64 := by
    obtain ⟨p, hp, h1, h2⟩ := hin
    have := hI'.page_end_le hinv' hp
    have := hI'.allocated_le p hp
    omega
  have happart := stub_apart_site hpos (by omega) hsite hsrc
  have hw5 : wrapping_add t.ip J.SIZE = t.ip + 5 := by rw [hJsize]; exact wrapping_add_of_lt (by omega)
  have hw2 : wrapping_add (wrapping_add t.ip 2) n = t.ip + 2 + n := by
    rw [wrapping_add_of_lt (show t.ip + 2 < 2 ^ 64 by omega), wrapping_add_of_lt hend]
  rw [hw2] at hstub
  have hstublen := hsub _ _ _ _ hstub
  -- the jump and the NOPs are one write over the site
  rw [wrapping_add_of_lt (by omega : t.ip + (0xe9 :: le_bytes 4 rel).length < 2 ^ 64), write_bytes_append]
  set code := (0xe9 :: le_bytes 4 rel) ++ List.replicate (2 + n - (0xe9 :: le_bytes 4 rel).length) 0x90
  have hcode : code.length = 2 + n := by simp only [code, List.length_append, List.length_replicate, hjlen]; omega
  refine ⟨s, ⟨⟨rel, as_u32_lt _, ?_, ?_⟩, hin, hfresh, rfl, hI', hinv', htop', hkeep, ?_⟩, stub, hstub, ?_⟩
  · have hread : read_mem (write_bytes (write_bytes t₁.mem s stub) t.ip code) t.ip code.length = code :=
      read_mem_write_bytes_self
    rw [hcode] at hread
    rw [hread]
    simp only [code, hjlen]
  · show ((t.ip : Int) + 5 + as_i32 (as_u32 (i64_wrap (as_i64 s - as_i64 (wrapping_add t.ip J.SIZE))) : Nat)) %
      2 ^ 64 = s
    rw [hw5] at hreach ⊢
    exact jump_offset_lands (by omega) (by omega) hreach
  · intro x hx hsite' hstub'
    show write_bytes (write_bytes t₁.mem s stub) t.ip code x = t.mem x
    rw [write_bytes_outside (by rw [hcode]; omega), write_bytes_outside (by rw [hstublen]; omega)]
    exact hmem₁ x hx
  · show read_mem (write_bytes (write_bytes t₁.mem s stub) t.ip code) s E.SIZE = stub
    rw [read_mem_write_bytes_disjoint (by rw [hcode]; omega), ← hstublen]
    exact read_mem_write_bytes_self

/-- A patch that gave up left the task and the stubs as they were, and its
pages keep the invariant. -/
theorem patch_syscall_with_hook_x86ish_gave_up (hSIZE : E.SIZE ≤ page_size) (hI : PatcherInv patcher t.vm)
    (h : MapInv t.vm.mem) (htop : TopClear t.vm)
    (hpatch : patch_syscall_with_hook_x86ish J E sub patcher t hook = some (false, patcher', t')) :
    t' = t ∧ patcher'.syscallbuf_stubs = patcher.syscallbuf_stubs ∧ PatcherInv patcher' t.vm := by
  obtain ⟨pages, stubs⟩ := patcher
  obtain ⟨pages', stubs'⟩ := patcher'
  obtain ⟨halloc, hstubs⟩ := patch_syscall_with_hook_x86ish_false hpatch
  dsimp only at halloc hstubs
  subst hstubs
  obtain ⟨rfl, hI'⟩ := allocate_extended_jump_null hI h htop hSIZE halloc
  exact ⟨rfl, rfl, hI'⟩

end Patch

/-! ## The patch of either architecture -/

section Arch

variable {patcher patcher' : MonkeyPatcher} {t t' : PatchTask} {hook : syscall_patch_hook}

/-- What `patch_syscall_with_hook` leaves when it returns `true`, on either
architecture: the patch, and a stub that returns after the hooked instruction
and jumps to the hook. -/
theorem patch_syscall_with_hook_spec (hI : PatcherInv patcher t.vm) (h : MapInv t.vm.mem) (htop : TopClear t.vm)
    (hsite : SiteClear patcher t (2 + hook.next_instruction_length))
    (hpatch : patch_syscall_with_hook patcher t hook = some (true, patcher', t')) :
    ∃ s, Patched (stub_template t.arch).SIZE patcher patcher' t t' (2 + hook.next_instruction_length) s ∧
      StubRedirects t.arch (read_mem t'.mem s (stub_template t.arch).SIZE) s
        (t.ip + 2 + hook.next_instruction_length) hook.hook_address := by
  unfold patch_syscall_with_hook at hpatch
  cases harch : t.arch with
  | X86 =>
    rw [harch] at hpatch
    obtain ⟨s, hP, stub, hstub, hread⟩ := patch_syscall_with_hook_x86ish_spec
      X86SysenterVsyscallSyscallHook_chunks (by rw [X86SyscallStubExtendedJump_SIZE]; decide)
      (by rw [X86SyscallStubExtendedJump_SIZE]; decide)
      (fun _ _ _ _ hs => (X86SyscallStubExtendedJump.substitute_extended_jump_spec hs).1) hI h htop hsite hpatch
    refine ⟨s, hP, ?_⟩
    rw [stub_template, hread]
    exact (X86SyscallStubExtendedJump.substitute_extended_jump_spec hstub).2
  | X64 =>
    rw [harch] at hpatch
    obtain ⟨s, hP, stub, hstub, hread⟩ := patch_syscall_with_hook_x86ish_spec
      X64JumpMonkeypatch_chunks (by rw [X64SyscallStubExtendedJump_SIZE]; decide)
      (by rw [X64SyscallStubExtendedJump_SIZE]; decide)
      (fun _ _ _ _ hs => (X64SyscallStubExtendedJump.substitute_extended_jump_spec hs).1) hI h htop hsite hpatch
    refine ⟨s, hP, ?_⟩
    rw [stub_template, hread]
    exact (X64SyscallStubExtendedJump.substitute_extended_jump_spec hstub).2

/-- A patch that gave up, on either architecture, left the task and the stubs
as they were. -/
theorem patch_syscall_with_hook_gave_up (hI : PatcherInv patcher t.vm) (h : MapInv t.vm.mem)
    (htop : TopClear t.vm) (hpatch : patch_syscall_with_hook patcher t hook = some (false, patcher', t')) :
    t' = t ∧ patcher'.syscallbuf_stubs = patcher.syscallbuf_stubs ∧ PatcherInv patcher' t.vm := by
  unfold patch_syscall_with_hook at hpatch
  cases harch : t.arch with
  | X86 =>
    rw [harch] at hpatch
    exact patch_syscall_with_hook_x86ish_gave_up (by rw [X86SyscallStubExtendedJump_SIZE]; decide) hI h htop hpatch
  | X64 =>
    rw [harch] at hpatch
    exact patch_syscall_with_hook_x86ish_gave_up (by rw [X64SyscallStubExtendedJump_SIZE]; decide) hI h htop hpatch

end Arch

/-! ## What a patch keeps -/

/-- What a patch keeps, from the patcher and task `σ` to `σ'`: the pages' and
the map's invariants, nothing mapped near the top, and each stub recorded with
its bytes. -/
structure KeepsStubs (σ σ' : MonkeyPatcher × PatchTask) : Prop where
  inv : PatcherInv σ'.1 σ'.2.vm
  map_inv : MapInv σ'.2.vm.mem
  top : TopClear σ'.2.vm
  stubs : ∀ e ∈ σ.1.syscallbuf_stubs,
    e ∈ σ'.1.syscallbuf_stubs ∧ read_mem σ'.2.mem e.1 e.2 = read_mem σ.2.mem e.1 e.2

/-- Every stub recorded holds the stub of some architecture, which returns to
some address and jumps to some hook. -/
def StubsRedirect (patcher : MonkeyPatcher) (mem : Nat → UInt8) : Prop :=
  ∀ e ∈ patcher.syscallbuf_stubs, ∃ arch ret target, e.2 = (stub_template arch).SIZE ∧
    StubRedirects arch (read_mem mem e.1 e.2) e.1 ret target

theorem KeepsStubs.refl {σ : MonkeyPatcher × PatchTask} (hI : PatcherInv σ.1 σ.2.vm) (h : MapInv σ.2.vm.mem)
    (htop : TopClear σ.2.vm) : KeepsStubs σ σ :=
  ⟨hI, h, htop, fun _ he => ⟨he, rfl⟩⟩

theorem KeepsStubs.trans {σ₁ σ₂ σ₃ : MonkeyPatcher × PatchTask} (h₁ : KeepsStubs σ₁ σ₂) (h₂ : KeepsStubs σ₂ σ₃) :
    KeepsStubs σ₁ σ₃ := by
  refine ⟨h₂.inv, h₂.map_inv, h₂.top, fun e he => ?_⟩
  obtain ⟨he₂, hbytes₂⟩ := h₁.stubs e he
  obtain ⟨he₃, hbytes₃⟩ := h₂.stubs e he₂
  exact ⟨he₃, hbytes₃.trans hbytes₂⟩

theorem stub_template_SIZE_pos (arch : SupportedArch) : 0 < (stub_template arch).SIZE := by
  cases arch with
  | X86 => rw [stub_template, X86SyscallStubExtendedJump_SIZE]; decide
  | X64 => rw [stub_template, X64SyscallStubExtendedJump_SIZE]; decide

/-- A stub that was there is kept by a patch: it is apart from the new stub, so
its record is kept, and each of its bytes is mapped, outside the site (which
is outside every page) and outside the new stub, so it is not written. -/
theorem Patched.keeps_stub {SIZE len s : Nat} {patcher patcher' : MonkeyPatcher} {t t' : PatchTask}
    (hP : Patched SIZE patcher patcher' t t' len s) (hSIZE : 0 < SIZE) (hI : PatcherInv patcher t.vm)
    (hsite : SiteClear patcher t len) {e : Nat × Nat} (he : e ∈ patcher.syscallbuf_stubs) :
    e ∈ patcher'.syscallbuf_stubs ∧ read_mem t'.mem e.1 e.2 = read_mem t.mem e.1 e.2 := by
  obtain ⟨pages, stubs⟩ := patcher
  obtain ⟨hpos, q, hq, hlo, hhi⟩ := hI.in_page e he
  have hq_le := hI.allocated_le q hq
  have hfresh := hP.fresh e he
  refine ⟨?_, ?_⟩
  · rw [hP.recorded, CmpList.mem_insert_iff hI.sorted]
    exact .inr ⟨he, by omega⟩
  · apply read_mem_congr
    intro i hi
    apply hP.frame _ (hI.stub_mapped he (by omega) (by omega))
    · -- a byte of the site is outside the page the stub is in
      by_contra hin
      push Not at hin
      have := (hsite _ hin.1 hin.2).2 q hq
      omega
    · omega

section Keep

variable {patcher patcher' : MonkeyPatcher} {t t' : PatchTask} {hook : syscall_patch_hook}

/-- A call of `patch_syscall_with_hook` that returned, patched or not, keeps
the invariants and the stubs. -/
theorem patch_syscall_with_hook_keeps_stubs {b : Bool} (hI : PatcherInv patcher t.vm) (h : MapInv t.vm.mem)
    (htop : TopClear t.vm) (hsite : SiteClear patcher t (2 + hook.next_instruction_length))
    (hpatch : patch_syscall_with_hook patcher t hook = some (b, patcher', t')) :
    KeepsStubs (patcher, t) (patcher', t') := by
  cases b with
  | true =>
    obtain ⟨s, hP, -⟩ := patch_syscall_with_hook_spec hI h htop hsite hpatch
    exact ⟨hP.inv, hP.map_inv, hP.top, fun e he => hP.keeps_stub (stub_template_SIZE_pos t.arch) hI hsite he⟩
  | false =>
    obtain ⟨rfl, hstubs, hI'⟩ := patch_syscall_with_hook_gave_up hI h htop hpatch
    exact ⟨hI', h, htop, fun e he => ⟨hstubs ▸ he, rfl⟩⟩

/-- A call of `patch_syscall_with_hook` that returned keeps every recorded stub
a stub: the new one by the patch's spec, the others since their bytes are kept. -/
theorem patch_syscall_with_hook_stubs_redirect {b : Bool} (hI : PatcherInv patcher t.vm) (h : MapInv t.vm.mem)
    (htop : TopClear t.vm) (hsite : SiteClear patcher t (2 + hook.next_instruction_length))
    (hR : StubsRedirect patcher t.mem) (hpatch : patch_syscall_with_hook patcher t hook = some (b, patcher', t')) :
    StubsRedirect patcher' t'.mem := by
  cases b with
  | true =>
    obtain ⟨s, hP, hredirects⟩ := patch_syscall_with_hook_spec hI h htop hsite hpatch
    intro e he
    rw [hP.recorded, CmpList.mem_insert_iff hI.sorted] at he
    rcases he with rfl | ⟨he, -⟩
    · exact ⟨t.arch, _, _, rfl, hredirects⟩
    · obtain ⟨arch, ret, target, hsize, hstub⟩ := hR e he
      refine ⟨arch, ret, target, hsize, ?_⟩
      rw [(hP.keeps_stub (stub_template_SIZE_pos t.arch) hI hsite he).2]
      exact hstub
  | false =>
    obtain ⟨rfl, hstubs, -⟩ := patch_syscall_with_hook_gave_up hI h htop hpatch
    rw [StubsRedirect, hstubs]
    exact hR

end Keep

/-! ## `is_jump_stub_instruction` -/

/-- Under the invariant, `is_jump_stub_instruction` says whether `ip` is inside
a recorded stub: of the stubs starting at or below `ip`, the last is the only
one that can contain it, since the stubs are apart. -/
theorem is_jump_stub_instruction_iff {patcher : MonkeyPatcher} {vm : AddressSpace} (hI : PatcherInv patcher vm)
    (h : MapInv vm.mem) (ip : Nat) :
    patcher.is_jump_stub_instruction ip = true ↔ ∃ e ∈ patcher.syscallbuf_stubs, e.1 ≤ ip ∧ ip < e.1 + e.2 := by
  obtain ⟨pages, stubs⟩ := patcher
  -- no stub wraps
  have hend : ∀ e ∈ stubs, e.1 + e.2 < 2 ^ 64 := by
    intro e he
    obtain ⟨-, p, hp, -, hhi⟩ := hI.in_page e he
    have := hI.page_end_le h hp
    have := hI.allocated_le p hp
    omega
  unfold MonkeyPatcher.is_jump_stub_instruction
  rw [CmpList.upTo_eq_filter_le hI.sorted]
  dsimp only
  constructor
  · intro htrue
    split at htrue
    · rename_i k v hlast
      have hmem := (List.mem_filter.1 (List.mem_of_getLast? hlast)).1
      rw [wrapping_add_of_lt (hend _ hmem), Bool.and_eq_true, decide_eq_true_eq, decide_eq_true_eq] at htrue
      exact ⟨(k, v), hmem, htrue⟩
    · cases htrue
  · rintro ⟨e, he, hlo, hhi⟩
    have hef : e ∈ stubs.filter (fun e => decide (e.1 ≤ ip)) := List.mem_filter.2 ⟨he, by simpa using hlo⟩
    obtain ⟨⟨k, v⟩, hlast⟩ := Option.isSome_iff_exists.1 (List.getLast?_isSome.2 (List.ne_nil_of_mem hef))
    have hle := (hI.sorted.filter _).le_of_getLast? hlast hef
    obtain ⟨hlmem, hlip⟩ := List.mem_filter.1 (List.mem_of_getLast? hlast)
    rw [decide_eq_true_eq] at hlip
    -- a stub starting below the last one ends before it, so `e` is the last
    have hkey : e.1 = k := by
      by_contra hne
      have := hI.stubs_apart e he (k, v) hlmem (lt_of_le_of_ne hle hne)
      dsimp only at this
      omega
    have hval : e.2 = v := by
      have h1 := (CmpList.get_eq_some_iff hI.sorted).2 (show (e.1, e.2) ∈ stubs from he)
      rw [hkey, (CmpList.get_eq_some_iff hI.sorted).2 hlmem, Option.some_inj] at h1
      exact h1.symm
    rw [hlast]
    dsimp only
    rw [wrapping_add_of_lt (hend _ hlmem), Bool.and_eq_true, decide_eq_true_eq, decide_eq_true_eq]
    omega

/-- A stub of 79 bytes at 0x20000, in a page of a text mapping: the lookup is
the stub's range. -/
theorem is_jump_stub_instruction_in_text_page :
    ∃ (patcher : MonkeyPatcher) (vm : AddressSpace), PatcherInv patcher vm ∧ MapInv vm.mem ∧
      (patcher.is_jump_stub_instruction 0x20010 = true ↔
        ∃ e ∈ patcher.syscallbuf_stubs, e.1 ≤ 0x20010 ∧ 0x20010 < e.1 + e.2) := by
  let km : KernelMapping := ⟨⟨0x10000, 0x30000⟩, "", 0, 0, PROT_READ ||| PROT_EXEC, MAP_PRIVATE, 0⟩
  let vm : AddressSpace := ⟨[(⟨0x10000, 0x30000⟩, Mapping.new km km none none none none)], [], [], 0, 0⟩
  let patcher : MonkeyPatcher := ⟨[⟨0x20000, 79⟩], [(0x20000, 79)]⟩
  have h : MapInv vm.mem := by decide
  have hI : PatcherInv patcher vm := by
    refine ⟨?_, List.pairwise_singleton _ _, by decide, List.pairwise_singleton _ _, by decide, by decide⟩
    intro p hp x h1 h2
    rw [List.mem_singleton.1 hp] at h1 h2
    dsimp only at h1 h2
    exact mem_view_ne_none_of_mem h List.mem_cons_self (by dsimp only; omega)
      (by unfold page_size at h2; dsimp only; omega)
  exact ⟨patcher, vm, hI, h, is_jump_stub_instruction_iff hI h 0x20010⟩

end RdReplay
