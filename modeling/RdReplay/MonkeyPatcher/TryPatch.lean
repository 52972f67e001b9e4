/-
  MonkeyPatcher/TryPatch.lean --- choosing the hook for a syscall, and what a
  successful `try_patch_syscall` has checked and done.

  Source: `monkey_patcher.rs` (`MonkeyPatcher::try_patch_syscall`,
  `safe_for_syscall_patching`, `task_safe_for_syscall_patching`, the fields
  `syscall_hooks`, `patched_vdso_syscalls` and
  `tried_to_patch_syscall_addresses`) and `session/task.rs`
  (`exit_syscall_and_prepare_restart`).

  THE MODEL.  The task has just entered a syscall; its `ip` is after the
  syscall instruction.  What `try_patch_syscall` learns from the kernel and the
  session is a `SyscallEntry`: whether an emulated ptracer is attached, whether
  this is the preload library's traced syscall, the architecture
  `get_syscall_instruction_arch` finds at the syscall (`none` when it fails),
  what `read_bytes_fallible` returns for the bytes after the syscall (how many
  it read, or `none` for its `Err`), the other tasks' `ip`s, and whether
  leaving the syscall succeeds.  The bytes after the syscall are read from the
  task's memory, at most 256 of them.  The sets of the patcher are lists, read
  through membership.  A panic (the `unwrap` of that read, the slice of the
  hook's fourteen bytes) is `none`.

  WHAT IS PROVED.  A syscall is patched only with the first hook of the table
  whose instruction bytes follow the syscall and near which no short jump lands
  in the patch, only when no other task is stopped, or in a syscall, inside
  the hooked instruction; and then, where the hooked site is mapped and outside
  the extended-jump pages, the patch does what `patch_syscall_with_hook_spec`
  says.  Over every run of calls, each at a syscall whose hooked site is
  mapped and outside the pages, the patcher's invariant and `TopClear` hold,
  no stub is lost or changed, and every recorded stub is a stub; so every
  patch from a patcher rd started empty redirects as intended.
-/
import RdReplay.MonkeyPatcher.Redirect

set_option autoImplicit false

namespace RdReplay

open RdReplay.Record (read_mem read_mem_add length_read_mem)

/-! ## The state and what the task shows -/

/-- The fields of `MonkeyPatcher` that `try_patch_syscall` reads and writes
besides the stubs: the hooks of the preload library, the VDSO syscalls rd
patched itself, and the addresses it tried to patch. -/
structure SyscallPatcher where
  patcher : MonkeyPatcher
  syscall_hooks : List syscall_patch_hook
  patched_vdso_syscalls : List Nat
  tried_to_patch_syscall_addresses : List Nat
  deriving DecidableEq, Repr

/-- Another task, as `task_safe_for_syscall_patching` reads it: whether it
runs, its `ip`, and the `ip`s of its pending syscall events. -/
structure OtherTask where
  is_running : Bool
  ip : Nat
  pending_syscall_ips : List Nat
  deriving DecidableEq, Repr

/-- What `try_patch_syscall` learns of the task, the kernel and the session. -/
structure SyscallEntry where
  has_emulated_ptracer : Bool
  is_in_traced_syscall : Bool
  /-- `get_syscall_instruction_arch` at the syscall: `none` when it fails. -/
  syscall_arch : Option SupportedArch
  /-- What `read_bytes_fallible` returns for the bytes after the syscall: how
  many it read, or `none` for its `Err`, where nothing there is readable. -/
  readable : Option Nat
  others : List OtherTask
  /-- Whether `exit_syscall` succeeds in `exit_syscall_and_prepare_restart`. -/
  exit_syscall : Bool
  deriving DecidableEq, Repr

/-- `task_safe_for_syscall_patching`: a stopped task's `ip`, and the `ip` of
each of its pending syscall events, is outside `[start, end_)`. -/
def task_safe_for_syscall_patching (t : OtherTask) (start end_ : Nat) : Bool :=
  (t.is_running || !(start ≤ t.ip && t.ip < end_)) &&
    t.pending_syscall_ips.all fun ip => !(start ≤ ip && ip < end_)

/-- `safe_for_syscall_patching`: every other task is safe. -/
def safe_for_syscall_patching (others : List OtherTask) (start end_ : Nat) : Bool :=
  others.all fun t => task_safe_for_syscall_patching t start end_

/-! ## The scan for interfering branches -/

/-- `b as i8`. -/
def as_i8 (b : UInt8) : Int := if b.toNat < 128 then b.toNat else (b.toNat : Int) - 256

/-- A short jump at `i` of the bytes after the syscall, `jmp rel8` (`0xeb`) or
a `jcc rel8` (`0x70` to `0x7f`): its target, counted from after the syscall. -/
def short_jump_target (following_bytes : List UInt8) (i : Nat) : Option Int :=
  let b := following_bytes.getD i 0
  if b = 0xeb || (0x70 ≤ b && b < 0x80) then some ((i : Int) + 2 + as_i8 (following_bytes.getD (i + 1) 0))
  else none

/-- The test of the scan at `i`: a short jump that lands in the patch.  A
multi-instruction hook's patch covers all its instructions, and `offset as u8`
wraps past 255, a false positive the code accepts. -/
def interfering_branch_at (following_bytes : List UInt8) (hook : syscall_patch_hook) (i : Nat) : Bool :=
  match short_jump_target following_bytes i with
  | some offset =>
    if hook.is_multi_instruction ≠ 0 then decide (0 ≤ offset) && decide (offset.toNat % 256 < hook.next_instruction_length)
    else offset == 0
  | none => false

/-- `found_potential_interfering_branch`: the loop `while i + 2 <= bytes_count`. -/
def found_potential_interfering_branch (following_bytes : List UInt8) (hook : syscall_patch_hook) : Bool :=
  (List.range (following_bytes.length - 1)).any (interfering_branch_at following_bytes hook)

/-! ## The loop over the hooks -/

/-- `bytes_count >= len && following_bytes[0..len] == next_instruction_bytes[0..len]`:
`none` where the slice of the hook's bytes panics. -/
def hook_matches (following_bytes : List UInt8) (hook : syscall_patch_hook) : Option Bool :=
  if hook.next_instruction_length ≤ following_bytes.length then
    if hook.next_instruction_length ≤ hook.next_instruction_bytes.length then
      some (following_bytes.take hook.next_instruction_length ==
        hook.next_instruction_bytes.take hook.next_instruction_length)
    else none
  else some false

/-- How the loop over the hooks ends: a `return false` inside it, the hook it
breaks on, or the end of the table. -/
inductive HookChoice where
  | decline
  | patch (hook : syscall_patch_hook)
  | none_found
  deriving DecidableEq, Repr

/-- The loop over the hooks of `try_patch_syscall`.  `vdso_patched` is whether
rd patched the VDSO syscall at the syscall itself, the same for every hook. -/
def select_hook (vdso_patched : Bool) (others : List OtherTask) (ip : Nat) (following_bytes : List UInt8)
    (exit_syscall : Bool) : List syscall_patch_hook → Option HookChoice
  | [] => some .none_found
  | hook :: hooks =>
    match hook_matches following_bytes hook with
    | none => none
    | some false => select_hook vdso_patched others ip following_bytes exit_syscall hooks
    | some true =>
      if !vdso_patched && found_potential_interfering_branch following_bytes hook then
        select_hook vdso_patched others ip following_bytes exit_syscall hooks
      -- "Temporarily declining to patch syscall ... because a different task has its ip in the patched range"
      else if !safe_for_syscall_patching others ip (wrapping_add ip hook.next_instruction_length) then
        some .decline
      else if !exit_syscall then some .decline
      else some (.patch hook)

/-- `try_patch_syscall`: whether it patched, with the patcher's state and the
task after it.  A failure marks the address as tried, except where the code
returns before it does. -/
def try_patch_syscall (sp : SyscallPatcher) (e : SyscallEntry) (t : PatchTask) :
    Option (Bool × SyscallPatcher × PatchTask) :=
  -- the hooks are not set up yet
  if sp.syscall_hooks = [] then some (false, sp, t)
  -- patching can confuse a ptracer
  else if e.has_emulated_ptracer then some (false, sp, t)
  -- never the traced syscall of the preload library
  else if e.is_in_traced_syscall then some (false, sp, t)
  else
    let ip := t.ip
    if ip ∈ sp.tried_to_patch_syscall_addresses then some (false, sp, t)
    else
      let tried := { sp with tried_to_patch_syscall_addresses := ip :: sp.tried_to_patch_syscall_addresses }
      let code_ptr := wrapping_sub ip (syscall_instruction_length t.arch)
      -- "Declining to patch cross-architecture syscall"
      if e.syscall_arch ≠ some t.arch then some (false, tried, t)
      else
        -- `read_bytes_fallible(..).unwrap()`
        match e.readable with
        | none => none
        | some bytes_count =>
          let following_bytes := read_mem t.mem ip (min bytes_count 256)
          match select_hook (decide (code_ptr ∈ sp.patched_vdso_syscalls)) e.others ip following_bytes
              e.exit_syscall sp.syscall_hooks with
          | none => none
          | some .decline => some (false, sp, t)
          | some .none_found => some (false, tried, t)
          | some (.patch hook) =>
            -- `exit_syscall_and_prepare_restart` backs `ip` up to the syscall
            match patch_syscall_with_hook sp.patcher { t with ip := code_ptr } hook with
            | none => none
            | some (true, patcher, t) => some (true, { sp with patcher }, t)
            | some (false, patcher, t) => some (false, { tried with patcher }, t)

/-! ## What the checks mean -/

/-- What `try_patch_syscall` has checked of a hook, at a syscall ending at
`ip` with `following_bytes` read after it: they start with the hook's
instruction; unless rd patched that VDSO syscall itself, no short jump among
them lands in the patch (for a hook of one instruction, at its start); and no
other task is stopped, or in a syscall, inside the hooked instruction. -/
structure HookChecked (vdso_patched : Bool) (others : List OtherTask) (ip : Nat) (following_bytes : List UInt8)
    (hook : syscall_patch_hook) : Prop where
  bytes_match : hook.next_instruction_length ≤ following_bytes.length ∧
    following_bytes.take hook.next_instruction_length = hook.next_instruction_bytes.take hook.next_instruction_length
  no_branch : vdso_patched = false → ∀ i target, i + 2 ≤ following_bytes.length →
    short_jump_target following_bytes i = some target →
      (hook.is_multi_instruction ≠ 0 → target < 0 ∨ hook.next_instruction_length ≤ target) ∧
        (hook.is_multi_instruction = 0 → target ≠ 0)
  safe : ∀ o ∈ others,
    (o.is_running = false → ¬(ip ≤ o.ip ∧ o.ip < wrapping_add ip hook.next_instruction_length)) ∧
      ∀ q ∈ o.pending_syscall_ips, ¬(ip ≤ q ∧ q < wrapping_add ip hook.next_instruction_length)

theorem safe_for_syscall_patching_spec {others : List OtherTask} {start end_ : Nat}
    (h : safe_for_syscall_patching others start end_ = true) :
    ∀ o ∈ others, (o.is_running = false → ¬(start ≤ o.ip ∧ o.ip < end_)) ∧
      ∀ q ∈ o.pending_syscall_ips, ¬(start ≤ q ∧ q < end_) := by
  intro o ho
  have ht := List.all_eq_true.1 h o ho
  rw [task_safe_for_syscall_patching, Bool.and_eq_true, List.all_eq_true] at ht
  obtain ⟨hstopped, hpending⟩ := ht
  refine ⟨fun hrun hin => ?_, fun q hq hin => ?_⟩
  · rw [hrun, Bool.false_or] at hstopped
    simp [hin.1, hin.2] at hstopped
  · have := hpending q hq
    simp [hin.1, hin.2] at this

/-- Where the scan found nothing, every short jump among the bytes read lands
outside the patch. -/
theorem lands_outside_of_not_found {following_bytes : List UInt8} {hook : syscall_patch_hook}
    (h : found_potential_interfering_branch following_bytes hook = false) {i : Nat}
    (hi : i + 2 ≤ following_bytes.length) {target : Int} (hj : short_jump_target following_bytes i = some target) :
    (hook.is_multi_instruction ≠ 0 → target < 0 ∨ hook.next_instruction_length ≤ target) ∧
      (hook.is_multi_instruction = 0 → target ≠ 0) := by
  have hat : interfering_branch_at following_bytes hook i = false := by
    simpa using List.any_eq_false.1 h i (List.mem_range.2 (by omega))
  rw [interfering_branch_at, hj] at hat
  dsimp only at hat
  refine ⟨fun hmulti => ?_, fun hsingle => ?_⟩
  · -- `offset as u8` is at most the offset
    rw [if_pos hmulti, Bool.and_eq_false_iff, decide_eq_false_iff_not, decide_eq_false_iff_not] at hat
    omega
  · rw [if_neg (not_not.2 hsingle), beq_eq_false_iff_ne] at hat
    exact hat

theorem hook_matches_true {following_bytes : List UInt8} {hook : syscall_patch_hook}
    (h : hook_matches following_bytes hook = some true) :
    hook.next_instruction_length ≤ following_bytes.length ∧
      following_bytes.take hook.next_instruction_length =
        hook.next_instruction_bytes.take hook.next_instruction_length := by
  unfold hook_matches at h
  split_ifs at h with hlen hbytes
  · rw [Option.some_inj, beq_iff_eq] at h
    exact ⟨hlen, h⟩
  · cases h

section Select

variable {vdso_patched exit_syscall : Bool} {others : List OtherTask} {ip : Nat} {following_bytes : List UInt8}

/-- The hook the loop breaks on is the first of the table that matches with no
interfering branch, and it passed the checks after. -/
theorem select_hook_patch {hook : syscall_patch_hook} :
    ∀ {hooks : List syscall_patch_hook},
      select_hook vdso_patched others ip following_bytes exit_syscall hooks = some (.patch hook) →
      ∃ pre post, hooks = pre ++ hook :: post ∧
        (∀ g ∈ pre, hook_matches following_bytes g = some false ∨
          vdso_patched = false ∧ found_potential_interfering_branch following_bytes g = true) ∧
        HookChecked vdso_patched others ip following_bytes hook ∧ exit_syscall = true
  | [], h => by simp [select_hook] at h
  | g :: hooks, h => by
    rw [select_hook] at h
    cases hm : hook_matches following_bytes g with
    | none =>
      rw [hm] at h
      cases h
    | some b =>
      rw [hm] at h
      cases b with
      | false =>
        -- the hook does not match: the loop goes on
        obtain ⟨pre, post, rfl, hpre, hrest⟩ := select_hook_patch h
        exact ⟨g :: pre, post, rfl, List.forall_mem_cons.2 ⟨.inl hm, hpre⟩, hrest⟩
      | true =>
        dsimp only at h
        by_cases hfound : (!vdso_patched && found_potential_interfering_branch following_bytes g) = true
        · -- an interfering branch: the loop goes on
          rw [if_pos hfound] at h
          obtain ⟨pre, post, rfl, hpre, hrest⟩ := select_hook_patch h
          simp only [Bool.and_eq_true, Bool.not_eq_true'] at hfound
          exact ⟨g :: pre, post, rfl, List.forall_mem_cons.2 ⟨.inr hfound, hpre⟩, hrest⟩
        · -- the loop stops here
          rw [if_neg hfound] at h
          have hsafe : safe_for_syscall_patching others ip (wrapping_add ip g.next_instruction_length) = true := by
            by_contra hunsafe
            rw [if_pos (by simpa using hunsafe)] at h
            cases h
          have hexit : exit_syscall = true := by
            by_contra hno
            rw [if_neg (by simpa using hsafe), if_pos (by simpa using hno)] at h
            cases h
          rw [if_neg (by simpa using hsafe), if_neg (by simpa using hexit), Option.some_inj,
            HookChoice.patch.injEq] at h
          subst h
          refine ⟨[], hooks, rfl, by simp, ⟨hook_matches_true hm, fun hv i target hi hj => ?_,
            safe_for_syscall_patching_spec hsafe⟩, hexit⟩
          rw [hv, Bool.not_false, Bool.true_and, Bool.not_eq_true] at hfound
          exact lands_outside_of_not_found hfound hi hj

end Select

/-! ## A syscall that was patched -/

theorem syscall_instruction_length_eq (arch : SupportedArch) : syscall_instruction_length arch = 2 := by
  cases arch <;> rfl

/-- The loop over the hooks of `try_patch_syscall` breaks on `hook`, over what
it read after the syscall ending at `t.ip`. -/
def SelectsHook (sp : SyscallPatcher) (e : SyscallEntry) (t : PatchTask) (hook : syscall_patch_hook) : Prop :=
  ∃ bytes_count, e.readable = some bytes_count ∧
    select_hook (decide (wrapping_sub t.ip 2 ∈ sp.patched_vdso_syscalls)) e.others t.ip
      (read_mem t.mem t.ip (min bytes_count 256)) e.exit_syscall sp.syscall_hooks = some (.patch hook)

/-- The hook the loop breaks on is one of the table. -/
theorem SelectsHook.mem {sp : SyscallPatcher} {e : SyscallEntry} {t : PatchTask} {hook : syscall_patch_hook}
    (h : SelectsHook sp e t hook) : hook ∈ sp.syscall_hooks := by
  obtain ⟨_, _, hsel⟩ := h
  obtain ⟨pre, post, hhooks, -⟩ := select_hook_patch hsel
  rw [hhooks]
  exact List.mem_append_right _ List.mem_cons_self

/-- A return of `try_patch_syscall` with the patcher's stubs and the task as
they were. -/
theorem returned_early {sp sp₁ sp' : SyscallPatcher} {t t' : PatchTask} {b : Bool}
    (h : some (false, sp₁, t) = some (b, sp', t')) (hpatcher : sp₁.patcher = sp.patcher) :
    b = false ∧ sp'.patcher = sp.patcher ∧ t' = t := by
  simp only [Option.some.injEq, Prod.mk.injEq] at h
  obtain ⟨rfl, rfl, rfl⟩ := h
  exact ⟨rfl, hpatcher, rfl⟩

/-- What a `try_patch_syscall` that returned did: it returned `false` with the
patcher and the task as they were, or the loop over the bytes it read after
the syscall chose a hook and it called the patch, `ip` backed up to the
syscall. -/
theorem try_patch_syscall_cases {sp sp' : SyscallPatcher} {e : SyscallEntry} {t t' : PatchTask} {b : Bool}
    (h : try_patch_syscall sp e t = some (b, sp', t')) :
    (b = false ∧ sp'.patcher = sp.patcher ∧ t' = t) ∨
      ∃ hook, SelectsHook sp e t hook ∧
        patch_syscall_with_hook sp.patcher { t with ip := wrapping_sub t.ip 2 } hook = some (b, sp'.patcher, t') := by
  unfold try_patch_syscall at h
  rw [syscall_instruction_length_eq] at h
  dsimp only at h
  -- no hooks, a ptracer, the traced syscall, an address tried, another architecture
  split_ifs at h with hhooks hptracer htraced htried harch
  · exact .inl (returned_early h rfl)
  · exact .inl (returned_early h rfl)
  · exact .inl (returned_early h rfl)
  · exact .inl (returned_early h rfl)
  · exact .inl (returned_early h rfl)
  · cases hread : e.readable with
    | none =>
      -- nothing readable after the syscall: the `unwrap` panics
      rw [hread] at h
      cases h
    | some bytes_count =>
      rw [hread] at h
      dsimp only at h
      cases hsel : select_hook (decide (wrapping_sub t.ip 2 ∈ sp.patched_vdso_syscalls)) e.others t.ip
          (read_mem t.mem t.ip (min bytes_count 256)) e.exit_syscall sp.syscall_hooks with
      | none =>
        rw [hsel] at h
        cases h
      | some c =>
        rw [hsel] at h
        cases c with
        | decline => exact .inl (returned_early h rfl)
        | none_found =>
          dsimp only at h
          exact .inl (returned_early h rfl)
        | patch hook =>
          dsimp only at h
          refine .inr ⟨hook, ⟨bytes_count, hread, hsel⟩, ?_⟩
          cases hp : patch_syscall_with_hook sp.patcher { t with ip := wrapping_sub t.ip 2 } hook with
          | none =>
            rw [hp] at h
            cases h
          | some r =>
            obtain ⟨b', patcher, t''⟩ := r
            rw [hp] at h
            -- `true` keeps the rest of `sp` and `false` records the address as tried:
            -- the patcher is the patch's either way
            cases b' with
            | false =>
              simp only [Option.some.injEq, Prod.mk.injEq] at h
              obtain ⟨rfl, rfl, rfl⟩ := h
              rfl
            | true =>
              simp only [Option.some.injEq, Prod.mk.injEq] at h
              obtain ⟨rfl, rfl, rfl⟩ := h
              rfl

/-- A syscall is patched only with the first hook of the table whose
instruction follows the syscall and near which no short jump among the bytes
read lands in the patch, and only when no other task is stopped, or in a
syscall, inside the hooked instruction.  Where the hooked site is mapped and
outside the extended-jump pages, the patch then wrote a jump over the syscall
and the hooked instruction to a fresh stub that returns after them and jumps
to the hook. -/
theorem try_patch_syscall_patches {sp sp' : SyscallPatcher} {e : SyscallEntry} {t t' : PatchTask}
    (hI : PatcherInv sp.patcher t.vm) (h : MapInv t.vm.mem) (htop : TopClear t.vm)
    (htry : try_patch_syscall sp e t = some (true, sp', t')) :
    ∃ bytes_count pre hook post, e.readable = some bytes_count ∧ sp.syscall_hooks = pre ++ hook :: post ∧
      (∀ g ∈ pre, hook_matches (read_mem t.mem t.ip (min bytes_count 256)) g = some false ∨
        wrapping_sub t.ip 2 ∉ sp.patched_vdso_syscalls ∧
          found_potential_interfering_branch (read_mem t.mem t.ip (min bytes_count 256)) g = true) ∧
      HookChecked (decide (wrapping_sub t.ip 2 ∈ sp.patched_vdso_syscalls)) e.others t.ip
        (read_mem t.mem t.ip (min bytes_count 256)) hook ∧
      (SiteClear sp.patcher { t with ip := wrapping_sub t.ip 2 } (2 + hook.next_instruction_length) →
        ∃ s, Patched (stub_template t.arch).SIZE sp.patcher sp'.patcher { t with ip := wrapping_sub t.ip 2 } t'
            (2 + hook.next_instruction_length) s ∧
          StubRedirects t.arch (read_mem t'.mem s (stub_template t.arch).SIZE) s
            (wrapping_sub t.ip 2 + 2 + hook.next_instruction_length) hook.hook_address) := by
  obtain ⟨hfalse, -, -⟩ | ⟨hook, ⟨bytes_count, hread, hsel⟩, hpatch⟩ := try_patch_syscall_cases htry
  · cases hfalse
  obtain ⟨pre, post, hhooks, hpre, hchecked, -⟩ := select_hook_patch hsel
  -- the task patched is the task with `ip` at the syscall, in the same address space
  have hI' : PatcherInv sp.patcher { t with ip := wrapping_sub t.ip 2 }.vm := hI
  have h' : MapInv { t with ip := wrapping_sub t.ip 2 }.vm.mem := h
  have htop' : TopClear { t with ip := wrapping_sub t.ip 2 }.vm := htop
  refine ⟨bytes_count, pre, hook, post, hread, hhooks, fun g hg => ?_, hchecked,
    fun hsite => patch_syscall_with_hook_spec hI' h' htop' hsite hpatch⟩
  rcases hpre g hg with hm | ⟨hv, hfound⟩
  · exact .inl hm
  · exact .inr ⟨by simpa using hv, hfound⟩

/-- A syscall at 0x10000 of a text mapping followed by `cmp $-4095,%rax`, the
six bytes of the one hook of the table, patched into the empty extended-jump
page at 0x20000. -/
theorem try_patch_syscall_before_cmp :
    ∃ (sp sp' : SyscallPatcher) (e : SyscallEntry) (t t' : PatchTask),
      PatcherInv sp.patcher t.vm ∧ MapInv t.vm.mem ∧ TopClear t.vm ∧
      SiteClear sp.patcher { t with ip := wrapping_sub t.ip 2 } 8 ∧
      try_patch_syscall sp e t = some (true, sp', t') ∧
      ∃ bytes_count pre hook post, e.readable = some bytes_count ∧ sp.syscall_hooks = pre ++ hook :: post ∧
        (∀ g ∈ pre, hook_matches (read_mem t.mem t.ip (min bytes_count 256)) g = some false ∨
          wrapping_sub t.ip 2 ∉ sp.patched_vdso_syscalls ∧
            found_potential_interfering_branch (read_mem t.mem t.ip (min bytes_count 256)) g = true) ∧
        HookChecked (decide (wrapping_sub t.ip 2 ∈ sp.patched_vdso_syscalls)) e.others t.ip
          (read_mem t.mem t.ip (min bytes_count 256)) hook ∧
        (SiteClear sp.patcher { t with ip := wrapping_sub t.ip 2 } (2 + hook.next_instruction_length) →
          ∃ s, Patched (stub_template t.arch).SIZE sp.patcher sp'.patcher { t with ip := wrapping_sub t.ip 2 } t'
              (2 + hook.next_instruction_length) s ∧
            StubRedirects t.arch (read_mem t'.mem s (stub_template t.arch).SIZE) s
              (wrapping_sub t.ip 2 + 2 + hook.next_instruction_length) hook.hook_address) := by
  let km : KernelMapping := ⟨⟨0x10000, 0x30000⟩, "", 0, 0, PROT_READ ||| PROT_EXEC, MAP_PRIVATE, 0⟩
  let cmp : List UInt8 := [0x48, 0x3d, 0x01, 0xf0, 0xff, 0xff]
  let t : PatchTask := ⟨.X64, 0x10002, ⟨[(⟨0x10000, 0x30000⟩, Mapping.new km km none none none none)], [], [], 0, 0⟩,
    write_bytes (fun _ => 0) 0x10002 cmp⟩
  let hook : syscall_patch_hook := ⟨0, 6, cmp ++ List.replicate 8 0, 0x70000000⟩
  let sp : SyscallPatcher := ⟨⟨[⟨0x20000, 0⟩], []⟩, [hook], [], []⟩
  let e : SyscallEntry := ⟨false, false, some .X64, some 6, [], true⟩
  have h : MapInv t.vm.mem := by decide
  have htop : TopClear t.vm := by unfold TopClear; decide
  have hmapped : ∀ x, 0x10000 ≤ x → x < 0x30000 → mem_view t.vm.mem x ≠ none :=
    fun x h1 h2 => mem_view_ne_none_of_mem h List.mem_cons_self h1 h2
  have hI : PatcherInv sp.patcher t.vm := by
    refine ⟨?_, List.pairwise_singleton _ _, by decide, CmpList.Sorted.nil, by simp [sp], by simp [sp]⟩
    intro p hp x h1 h2
    rw [List.mem_singleton.1 hp] at h1 h2
    dsimp only at h1 h2
    exact hmapped x (by omega) (by unfold page_size at h2; omega)
  have hsite : SiteClear sp.patcher { t with ip := wrapping_sub t.ip 2 } 8 := by
    have hip : wrapping_sub t.ip 2 = 0x10000 := by decide
    intro x h1 h2
    simp only [hip] at h1 h2
    refine ⟨hmapped x h1 (by omega), fun p hp => ?_⟩
    rw [List.mem_singleton.1 hp]
    dsimp only
    unfold page_size
    omega
  obtain ⟨⟨b, sp', t'⟩, hr, hb⟩ := Option.map_eq_some_iff.1
    (by decide : (try_patch_syscall sp e t).map Prod.fst = some true)
  dsimp only at hb
  subst hb
  exact ⟨sp, sp', e, t, t', hI, h, htop, hsite, hr, try_patch_syscall_patches hI h htop hr⟩

/-! ## Runs of syscall patching -/

/-- One call of `try_patch_syscall` that returned, by a task of architecture
`arch` stopped after a syscall ending at `ip`, in the address space of the
state, where the site of the hook the loop chooses, if any, is mapped and
outside every extended-jump page. -/
inductive TryPatchStep : SyscallPatcher × PatchTask → SyscallPatcher × PatchTask → Prop
  | try_patch {sp sp' : SyscallPatcher} {t t' : PatchTask} (arch : SupportedArch) (ip : Nat) (e : SyscallEntry)
      {b : Bool}
      (hsite : ∀ hook, SelectsHook sp e { t with arch := arch, ip := ip } hook →
        SiteClear sp.patcher { t with arch := arch, ip := wrapping_sub ip 2 } (2 + hook.next_instruction_length))
      (h : try_patch_syscall sp e { t with arch := arch, ip := ip } = some (b, sp', t')) :
      TryPatchStep (sp, t) (sp', t')

/-- A step keeps the invariants, `TopClear` and every stub with its bytes. -/
theorem TryPatchStep.keeps_stubs {σ σ' : SyscallPatcher × PatchTask} (hstep : TryPatchStep σ σ')
    (hI : PatcherInv σ.1.patcher σ.2.vm) (h : MapInv σ.2.vm.mem) (htop : TopClear σ.2.vm) :
    KeepsStubs (σ.1.patcher, σ.2) (σ'.1.patcher, σ'.2) := by
  obtain @⟨sp, sp', t, t', arch, ip, e, b, hsite, htry⟩ := hstep
  obtain ⟨-, hpatcher, rfl⟩ | ⟨hook, hsel, hpatch⟩ := try_patch_syscall_cases htry
  · -- returned before patching: the stubs and the address space are as they were
    dsimp only
    rw [hpatcher]
    exact ⟨hI, h, htop, fun _ he => ⟨he, rfl⟩⟩
  · -- the patched task is the task at the syscall, with the same address space and memory
    have hkeep := patch_syscall_with_hook_keeps_stubs (t := { t with arch := arch, ip := wrapping_sub ip 2 }) hI h
      htop (hsite hook hsel) hpatch
    exact ⟨hkeep.inv, hkeep.map_inv, hkeep.top, hkeep.stubs⟩

/-- A step keeps every recorded stub a stub. -/
theorem TryPatchStep.stubs_redirect {σ σ' : SyscallPatcher × PatchTask} (hstep : TryPatchStep σ σ')
    (hI : PatcherInv σ.1.patcher σ.2.vm) (h : MapInv σ.2.vm.mem) (htop : TopClear σ.2.vm)
    (hR : StubsRedirect σ.1.patcher σ.2.mem) : StubsRedirect σ'.1.patcher σ'.2.mem := by
  obtain @⟨sp, sp', t, t', arch, ip, e, b, hsite, htry⟩ := hstep
  obtain ⟨-, hpatcher, rfl⟩ | ⟨hook, hsel, hpatch⟩ := try_patch_syscall_cases htry
  · dsimp only
    rw [hpatcher]
    exact hR
  · exact patch_syscall_with_hook_stubs_redirect (t := { t with arch := arch, ip := wrapping_sub ip 2 }) hI h htop
      (hsite hook hsel) hR hpatch

/-- A run keeps the invariants, `TopClear` and every stub with its bytes. -/
theorem TryPatchStep.run_keeps {σ₀ σ : SyscallPatcher × PatchTask} (hI : PatcherInv σ₀.1.patcher σ₀.2.vm)
    (h : MapInv σ₀.2.vm.mem) (htop : TopClear σ₀.2.vm) (hrun : Relation.ReflTransGen TryPatchStep σ₀ σ) :
    KeepsStubs (σ₀.1.patcher, σ₀.2) (σ.1.patcher, σ.2) := by
  induction hrun with
  | refl => exact KeepsStubs.refl hI h htop
  | tail _ hstep ih => exact ih.trans (hstep.keeps_stubs ih.inv ih.map_inv ih.top)

/-- Over every run of syscall patching, from a state whose pages are mapped and
apart, with nothing mapped near the top, and whose recorded stubs are stubs:
the invariants hold, no stub is lost, no stub's bytes change, and every
recorded stub is a stub that returns after a site and jumps to a hook. -/
theorem try_patch_run_keeps_stubs {σ₀ σ : SyscallPatcher × PatchTask} (hI : PatcherInv σ₀.1.patcher σ₀.2.vm)
    (h : MapInv σ₀.2.vm.mem) (htop : TopClear σ₀.2.vm) (hR : StubsRedirect σ₀.1.patcher σ₀.2.mem)
    (hrun : Relation.ReflTransGen TryPatchStep σ₀ σ) :
    KeepsStubs (σ₀.1.patcher, σ₀.2) (σ.1.patcher, σ.2) ∧ StubsRedirect σ.1.patcher σ.2.mem := by
  refine ⟨TryPatchStep.run_keeps hI h htop hrun, ?_⟩
  -- each step keeps the stubs stubs, from the invariants the run has kept so far
  induction hrun with
  | refl => exact hR
  | tail hprefix hstep ih =>
    have hkeep := TryPatchStep.run_keeps hI h htop hprefix
    exact hstep.stubs_redirect hkeep.inv hkeep.map_inv hkeep.top ih

/-- A run of one patch from the state of `try_patch_syscall_before_cmp`, with
no stub before it. -/
theorem try_patch_run_from_empty_page :
    ∃ σ₀ σ : SyscallPatcher × PatchTask,
      PatcherInv σ₀.1.patcher σ₀.2.vm ∧ MapInv σ₀.2.vm.mem ∧ TopClear σ₀.2.vm ∧
      StubsRedirect σ₀.1.patcher σ₀.2.mem ∧ Relation.ReflTransGen TryPatchStep σ₀ σ ∧
      KeepsStubs (σ₀.1.patcher, σ₀.2) (σ.1.patcher, σ.2) ∧ StubsRedirect σ.1.patcher σ.2.mem := by
  let km : KernelMapping := ⟨⟨0x10000, 0x30000⟩, "", 0, 0, PROT_READ ||| PROT_EXEC, MAP_PRIVATE, 0⟩
  let cmp : List UInt8 := [0x48, 0x3d, 0x01, 0xf0, 0xff, 0xff]
  let t : PatchTask := ⟨.X64, 0x10002, ⟨[(⟨0x10000, 0x30000⟩, Mapping.new km km none none none none)], [], [], 0, 0⟩,
    write_bytes (fun _ => 0) 0x10002 cmp⟩
  let hook : syscall_patch_hook := ⟨0, 6, cmp ++ List.replicate 8 0, 0x70000000⟩
  let sp : SyscallPatcher := ⟨⟨[⟨0x20000, 0⟩], []⟩, [hook], [], []⟩
  let e : SyscallEntry := ⟨false, false, some .X64, some 6, [], true⟩
  have h : MapInv t.vm.mem := by decide
  have htop : TopClear t.vm := by unfold TopClear; decide
  have hmapped : ∀ x, 0x10000 ≤ x → x < 0x30000 → mem_view t.vm.mem x ≠ none :=
    fun x h1 h2 => mem_view_ne_none_of_mem h List.mem_cons_self h1 h2
  have hI : PatcherInv sp.patcher t.vm := by
    refine ⟨?_, List.pairwise_singleton _ _, by decide, CmpList.Sorted.nil, by simp [sp], by simp [sp]⟩
    intro p hp x h1 h2
    rw [List.mem_singleton.1 hp] at h1 h2
    dsimp only at h1 h2
    exact hmapped x (by omega) (by unfold page_size at h2; omega)
  have hR : StubsRedirect sp.patcher t.mem := by simp [StubsRedirect, sp]
  -- the one hook of the table is six bytes long, its site eight
  have hsite : ∀ g, SelectsHook sp e { t with arch := .X64, ip := 0x10002 } g →
      SiteClear sp.patcher { t with arch := .X64, ip := wrapping_sub 0x10002 2 } (2 + g.next_instruction_length) := by
    intro g hg
    rw [List.mem_singleton.1 hg.mem]
    have hip : wrapping_sub 0x10002 2 = 0x10000 := by decide
    intro x h1 h2
    simp only [hip, hook] at h1 h2
    refine ⟨hmapped x h1 (by omega), fun p hp => ?_⟩
    rw [List.mem_singleton.1 hp]
    dsimp only
    unfold page_size
    omega
  obtain ⟨⟨b, sp', t'⟩, hr, -⟩ := Option.map_eq_some_iff.1
    (by decide : (try_patch_syscall sp e { t with arch := .X64, ip := 0x10002 }).map Prod.fst = some true)
  have hrun : Relation.ReflTransGen TryPatchStep (sp, t) (sp', t') :=
    .single (.try_patch .X64 0x10002 e hsite hr)
  exact ⟨(sp, t), (sp', t'), hI, h, htop, hR, hrun, try_patch_run_keeps_stubs hI h htop hR hrun⟩

/-! ## Patches from the patcher rd starts with -/

end RdReplay
