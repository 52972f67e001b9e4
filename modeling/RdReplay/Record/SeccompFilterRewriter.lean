/-
  Record/SeccompFilterRewriter.lean --- the seccomp filter rd installs for a tracee.

  Source: `seccomp_filter_rewriter.rs` (`install_patched_seccomp_filter_arch`,
  `map_filter_data_to_real_result`, `BPF_CLASS`, `BPF_RVAL`), `seccomp_bpf.rs`
  (`bpf_stmt`, `bpf_jump`, `SeccompFilter::allow`,
  `allow_syscalls_from_callsite`) and `session/address_space.rs`
  (`ENTRY_POINTS`, `rd_page_syscall_exit_point`, `exit_ip_from_index`).

  When a tracee installs a seccomp filter, rd installs another in its place.
  Every constant return of the filter other than ALLOW becomes a TRACE return
  whose data indexes a table of the constants, so that rd sees each syscall
  the filter would have refused and can still give it the filter's verdict
  (`map_filter_data_to_real_result`).  In front of the filter, one check for
  each privileged entry point of the rd page lets rd's own syscalls through.
  The table is the rewriter's and is shared by every filter the task installs.

  THE MODEL.  A filter is a list of `ClassicBpf.Insn`; `result_to_index` is a
  function, `index_to_result` a list; `none` is an `ed_assert!` or an `unwrap`
  that fails.  The reads of the tracee's filter and the remote syscall that
  installs rd's are left out: `install_patched_seccomp_filter_arch` takes the
  filter rd read and returns the one it installs.

  THE KERNEL.  A filter runs on a `struct seccomp_data`, 64 bytes, little
  endian: a `BPF_W` load reads the 32-bit word at its offset (`seccomp_load`),
  and `BPF_LEN` is the size.  The checks the kernel makes when a filter is
  installed (alignment of loads, jumps in range) are not modelled: a load out
  of range returns 0 when it runs, and a jump out of range gets no verdict.

  THE CALLSITE CHECK.  `allow_syscalls_from_callsite` compares the callsite
  with a `BPF_W` load of `instruction_pointer`, which is the low 32 bits of a
  64-bit field (`seccomp_load_instruction_pointer`).  So any instruction pointer
  whose low half is a privileged exit point of the rd page is let through,
  whatever the tracee's filter says (`installed_filter_verdict`).
-/
import RdReplay.Record.RobustFutex
import RdReplay.Lib.ClassicBpf

set_option autoImplicit false

namespace RdReplay.Record

open ClassicBpf

/-! ## Constants of `linux/filter.h` and `linux/seccomp.h` -/

def BPF_LD : Nat := 0x00
def BPF_W : Nat := 0x00
def BPF_ABS : Nat := 0x20
def BPF_JMP : Nat := 0x05
def BPF_JEQ : Nat := 0x10
def BPF_K : Nat := 0x00
def BPF_RET : Nat := 0x06

def SECCOMP_RET_ALLOW : Nat := 0x7fff0000
def SECCOMP_RET_TRACE : Nat := 0x7ff00000
def SECCOMP_RET_DATA : Nat := 0x0000ffff

/-- Custom data values start here, above what a `PTRACE_EVENT_EXIT` may give. -/
def BASE_CUSTOM_DATA : Nat := 0x100

def BPF_CLASS (code : Nat) : Nat := code &&& 0x07

def BPF_RVAL (code : Nat) : Nat := code &&& 0x18

/-! ## The kernel's side: `struct seccomp_data` -/

/-- `struct seccomp_data`. -/
structure seccomp_data where
  nr : UInt32
  arch : UInt32
  instruction_pointer : UInt64
  args : Vector UInt64 6

/-- The bytes of a `seccomp_data`, little endian. -/
def seccomp_data.bytes (d : seccomp_data) : List UInt8 :=
  le_bytes 4 d.nr.toNat ++ le_bytes 4 d.arch.toNat ++ le_bytes 8 d.instruction_pointer.toNat ++
    d.args.toList.flatMap fun a => le_bytes 8 a.toNat

/-- `sizeof(struct seccomp_data)`, what `BPF_LEN` loads. -/
def seccomp_data_size : Nat := 64

/-- A `BPF_LD | BPF_W | BPF_ABS` in a seccomp filter: the 32-bit word at
offset `k` of the `seccomp_data`. -/
def seccomp_load (d : seccomp_data) (k : Nat) : Option Nat :=
  if k + 4 ≤ seccomp_data_size then some (le_value ((d.bytes.drop k).take 4)) else none

/-- How the kernel runs a seccomp filter on a syscall. -/
def seccomp_run (prog : List Insn) (d : seccomp_data) : Option Return :=
  run (seccomp_load d) seccomp_data_size prog

/-- A `BPF_W` load of `instruction_pointer` reads its low 32 bits. -/
theorem seccomp_load_instruction_pointer (d : seccomp_data) :
    seccomp_load d 8 = some (d.instruction_pointer.toNat % 2 ^ 32) := by
  have hfront : (le_bytes 4 d.nr.toNat ++ le_bytes 4 d.arch.toNat).length = 8 := by simp
  unfold seccomp_load seccomp_data.bytes
  rw [if_pos (by decide), List.append_assoc, List.drop_append_of_le_length (by omega),
    List.drop_of_length_le (by omega), List.nil_append, List.take_append_of_le_length (by simp),
    take_le_bytes 4 4, le_value_le_bytes]
  rfl

/-! ## The filter rd puts in front: `SeccompFilter` -/

/-- `bpf_stmt`. -/
def bpf_stmt (code k : Nat) : Insn := ⟨code, 0, 0, k⟩

/-- `bpf_jump`. -/
def bpf_jump (code k jt jf : Nat) : Insn := ⟨code, jt, jf, k⟩

/-- `SeccompFilter`. -/
structure SeccompFilter where
  filters : List Insn
  deriving DecidableEq

/-- `SeccompFilter::allow`. -/
def SeccompFilter.allow (f : SeccompFilter) : SeccompFilter :=
  ⟨f.filters ++ [bpf_stmt (BPF_RET + BPF_K) SECCOMP_RET_ALLOW]⟩

/-- `offset_of!(seccomp_data, instruction_pointer)`. -/
def instruction_pointer_offset : Nat := 8

/-- `SeccompFilter::allow_syscalls_from_callsite`: `none` is the `unwrap` of
the callsite as a `u32`. -/
def SeccompFilter.allow_syscalls_from_callsite (f : SeccompFilter) (ip : Nat) : Option SeccompFilter :=
  let inst_ptr := instruction_pointer_offset
  if ip < 2 ^ 32 then
    some (SeccompFilter.allow ⟨f.filters ++
      [bpf_stmt (BPF_LD + BPF_W + BPF_ABS) inst_ptr, bpf_jump (BPF_JMP + BPF_JEQ + BPF_K) ip 0 1]⟩)
  else none

/-- The three instructions `allow_syscalls_from_callsite` adds for `v`. -/
def callsite_check (v : Nat) : List Insn :=
  [bpf_stmt (BPF_LD + BPF_W + BPF_ABS) instruction_pointer_offset, bpf_jump (BPF_JMP + BPF_JEQ + BPF_K) v 0 1,
    bpf_stmt (BPF_RET + BPF_K) SECCOMP_RET_ALLOW]

theorem allow_syscalls_from_callsite_eq (f : SeccompFilter) {ip : Nat} (hip : ip < 2 ^ 32) :
    f.allow_syscalls_from_callsite ip = some ⟨f.filters ++ callsite_check ip⟩ := by
  rw [SeccompFilter.allow_syscalls_from_callsite, if_pos hip, SeccompFilter.allow, List.append_assoc]
  rfl

/-! ## The rd page's entry points -/

-- the source's enumerations keep their names, as `Traced::Traced`
set_option linter.dupNamespace false in
inductive Traced
  | Traced
  | Untraced
  deriving DecidableEq, Repr

set_option linter.dupNamespace false in
inductive Privileged
  | Privileged
  | Unprivileged
  deriving DecidableEq, Repr

inductive Enabled
  | RecordingOnly
  | ReplayOnly
  | RecordingAndReplay
  deriving DecidableEq, Repr

structure SyscallType where
  traced : Traced
  privileged : Privileged
  enabled : Enabled
  deriving DecidableEq, Repr

/-- `ENTRY_POINTS`, in the order of the stubs on the rd page. -/
def ENTRY_POINTS : List SyscallType :=
  [⟨.Traced, .Unprivileged, .RecordingAndReplay⟩,
   ⟨.Traced, .Privileged, .RecordingAndReplay⟩,
   ⟨.Untraced, .Unprivileged, .RecordingAndReplay⟩,
   ⟨.Untraced, .Unprivileged, .ReplayOnly⟩,
   ⟨.Untraced, .Unprivileged, .RecordingOnly⟩,
   ⟨.Untraced, .Privileged, .RecordingAndReplay⟩,
   ⟨.Untraced, .Privileged, .ReplayOnly⟩,
   ⟨.Untraced, .Privileged, .RecordingOnly⟩]

def RD_PAGE_ADDR : Nat := 0x70000000
def RD_PAGE_SYSCALL_STUB_SIZE : Nat := 3
def RD_PAGE_SYSCALL_INSTRUCTION_END : Nat := 2

/-- `exit_ip_from_index`: the address after the syscall instruction of stub `i`. -/
def exit_ip_from_index (i : Nat) : Nat :=
  RD_PAGE_ADDR + RD_PAGE_SYSCALL_STUB_SIZE * i + RD_PAGE_SYSCALL_INSTRUCTION_END

/-- `AddressSpace::rd_page_syscall_exit_point`: `none` is the `unreachable!`. -/
def rd_page_syscall_exit_point (traced : Traced) (privileged : Privileged) (enabled : Enabled) : Option Nat :=
  (ENTRY_POINTS.findIdx? fun e => e.traced == traced && e.privileged == privileged && e.enabled == enabled).map
    exit_ip_from_index

/-- The loop of `install_patched_seccomp_filter_arch` over
`rd_page_syscalls()` that lets each privileged entry point through. -/
def allow_privileged_callsites (f : SeccompFilter) : List SyscallType → Option SeccompFilter
  | [] => some f
  | e :: es =>
    if e.privileged = .Privileged then do
      let ip ← rd_page_syscall_exit_point e.traced e.privileged e.enabled
      let f ← f.allow_syscalls_from_callsite ip
      allow_privileged_callsites f es
    else allow_privileged_callsites f es

/-- The exit points of the privileged stubs 1, 5, 6 and 7. -/
def privileged_exit_points : List Nat := [0x70000005, 0x70000011, 0x70000014, 0x70000017]

/-- The filter rd puts in front is one check for each privileged exit point. -/
theorem allow_privileged_callsites_eq :
    allow_privileged_callsites ⟨[]⟩ ENTRY_POINTS = some ⟨privileged_exit_points.flatMap callsite_check⟩ := by
  decide

/-! ## What the callsite checks do -/

section Checks

variable (load : Nat → Option Nat) (len : Nat) {a : Nat}

/-- One callsite check: ALLOW when the loaded word is the callsite; otherwise
the rest of the filter runs, with the word in `A`. -/
theorem exec_callsite_check (hload : load instruction_pointer_offset = some a) (v : Nat) (rest : List Insn)
    (fuel : Nat) (m : Machine) :
    exec load len (callsite_check v ++ rest) (fuel + 3) m 0 =
      if a = v then some (.const SECCOMP_RET_ALLOW) else exec load len rest (fuel + 1) { m with A := a } 0 := by
  have hld : step load len (bpf_stmt (BPF_LD + BPF_W + BPF_ABS) instruction_pointer_offset) m =
      .next { m with A := a } 0 := by
    rw [step_ld_w_abs load len (bpf_stmt (BPF_LD + BPF_W + BPF_ABS) instruction_pointer_offset) rfl]
    simp only [bpf_stmt, hload]
  have hjeq : step load len (bpf_jump (BPF_JMP + BPF_JEQ + BPF_K) v 0 1) { m with A := a } =
      .next { m with A := a } (if a = v then 0 else 1) :=
    step_jeq_k load len _ rfl _
  rw [exec_of_step_next load len rfl hld, exec_of_step_next load len rfl hjeq]
  by_cases hv : a = v
  -- the callsite: the next instruction returns ALLOW
  · rw [if_pos hv, if_pos hv]
    exact exec_of_step_ret load len rfl (step_ret_k load len (bpf_stmt (BPF_RET + BPF_K) SECCOMP_RET_ALLOW) rfl _) fuel
  -- another instruction pointer: the jump skips the return, to the rest
  · rw [if_neg hv, if_neg hv]
    exact exec_append load len (callsite_check v) rest (fuel + 1) _ 0

/-- The checks for a list of callsites: ALLOW when the loaded word is one of
them; otherwise the rest of the filter runs, with the word in `A`. -/
theorem exec_callsite_checks (hload : load instruction_pointer_offset = some a) (rest : List Insn) :
    ∀ (v : Nat) (vs : List Nat) (fuel : Nat) (m : Machine), 3 * (vs.length + 1) + rest.length ≤ fuel →
      exec load len ((v :: vs).flatMap callsite_check ++ rest) fuel m 0 =
        if a ∈ v :: vs then some (.const SECCOMP_RET_ALLOW)
        else exec load len rest rest.length { m with A := a } 0
  | v, [], fuel + 3, m, hfuel => by
    rw [List.flatMap_singleton, exec_callsite_check load len hload]
    by_cases hv : a = v
    · rw [if_pos hv, if_pos (List.mem_singleton.2 hv)]
    · rw [if_neg hv, if_neg (by simpa using hv)]
      exact exec_fuel_eq load len rest _ _ _ 0 (by omega) (by omega)
  | v, v' :: vs, fuel + 3, m, hfuel => by
    rw [List.flatMap_cons, List.append_assoc, exec_callsite_check load len hload,
      exec_callsite_checks hload rest v' vs (fuel + 1) _ (by simp only [List.length_cons] at hfuel ⊢; omega)]
    -- the second check starts from `A` = the loaded word, as the first left it
    by_cases hv : a = v
    · rw [if_pos hv, if_pos (List.mem_cons.2 (Or.inl hv))]
    · simp only [List.mem_cons, hv, false_or]
      rfl
  | _, _, 0, _, hfuel | _, _, 1, _, hfuel | _, _, 2, _, hfuel => by omega

end Checks

/-! ## The tables: `SeccompFilterRewriter` -/

/-- `SeccompFilterRewriter`: each constant a filter returns, with its index,
and the constants by index. -/
structure SeccompFilterRewriter where
  result_to_index : Nat → Option Nat
  index_to_result : List Nat

/-- `SeccompFilterRewriter::default`. -/
def SeccompFilterRewriter.default : SeccompFilterRewriter := ⟨fun _ => none, []⟩

/-- The table entry of the constant `k`, added if `k` is new; `none` is the
`ed_assert!` that the 16-bit data has room for it. -/
def SeccompFilterRewriter.intern (rw : SeccompFilterRewriter) (k : Nat) : Option SeccompFilterRewriter :=
  match rw.result_to_index k with
  | some _ => some rw
  | none =>
    if BASE_CUSTOM_DATA + rw.index_to_result.length < SECCOMP_RET_DATA then
      some ⟨Function.update rw.result_to_index k (some rw.index_to_result.length), rw.index_to_result ++ [k]⟩
    else none

/-- One pass of the loop of `install_patched_seccomp_filter_arch` that
converts every return to a TRACE return. -/
def rewrite_return (rw : SeccompFilterRewriter) (u : Insn) : Option (Insn × SeccompFilterRewriter) :=
  if BPF_CLASS u.code = BPF_RET then
    -- `ed_assert_eq!`: a return of `A` or `X` is not supported
    if BPF_RVAL u.code ≠ BPF_K then none
    else if u.k ≠ SECCOMP_RET_ALLOW then do
      let rw ← rw.intern u.k
      let index ← rw.result_to_index u.k
      pure ({ u with k := (BASE_CUSTOM_DATA + index) ||| SECCOMP_RET_TRACE }, rw)
    else some (u, rw)
  else some (u, rw)

/-- The loop over the whole filter. -/
def rewrite_returns (rw : SeccompFilterRewriter) : List Insn → Option (List Insn × SeccompFilterRewriter)
  | [] => some ([], rw)
  | u :: code => do
    let (u, rw) ← rewrite_return rw u
    let (code, rw) ← rewrite_returns rw code
    pure (u :: code, rw)

/-- `install_patched_seccomp_filter_arch`, from the filter rd read to the
one it installs. -/
def install_patched_seccomp_filter_arch (rw : SeccompFilterRewriter) (code : List Insn) :
    Option (List Insn × SeccompFilterRewriter) := do
  let (code, rw) ← rewrite_returns rw code
  let f ← allow_privileged_callsites ⟨[]⟩ ENTRY_POINTS
  pure (f.filters ++ code, rw)

/-! ## The tables stay consistent -/

/-- A list with one more element holds `y` at `i` when the list did, or when
`i` is the new place and the new element is `y`. -/
theorem getElem?_concat_eq_some {l : List Nat} {x y i : Nat} :
    (l ++ [x])[i]? = some y ↔ l[i]? = some y ∨ (i = l.length ∧ x = y) := by
  rw [List.getElem?_append]
  by_cases hi : i < l.length
  · rw [if_pos hi]
    constructor
    · exact Or.inl
    · rintro (h | ⟨rfl, -⟩)
      · exact h
      · omega
  · rw [if_neg hi, List.getElem?_singleton, List.getElem?_eq_none (show l.length ≤ i by omega)]
    by_cases hlen : i = l.length
    · simp [hlen]
    · simp [show i - l.length ≠ 0 by omega, hlen]

namespace SeccompFilterRewriter

/-- The two tables agree, and every index fits in the 16-bit data above
`BASE_CUSTOM_DATA`. -/
structure Consistent (rw : SeccompFilterRewriter) : Prop where
  agree : ∀ k i, rw.result_to_index k = some i ↔ rw.index_to_result[i]? = some k
  room : BASE_CUSTOM_DATA + rw.index_to_result.length ≤ SECCOMP_RET_DATA

/-- `rw'` keeps every entry of `rw`. -/
structure Extends (rw rw' : SeccompFilterRewriter) : Prop where
  index : ∀ k i, rw.result_to_index k = some i → rw'.result_to_index k = some i
  result : rw.index_to_result <+: rw'.index_to_result

theorem Extends.refl (rw : SeccompFilterRewriter) : rw.Extends rw :=
  ⟨fun _ _ h => h, List.prefix_refl _⟩

theorem Extends.trans {rw1 rw2 rw3 : SeccompFilterRewriter} (h12 : rw1.Extends rw2) (h23 : rw2.Extends rw3) :
    rw1.Extends rw3 :=
  ⟨fun k i h => h23.index k i (h12.index k i h), h12.result.trans h23.result⟩

/-- What `intern` does: nothing for a constant it has; a new constant gets the
next index. -/
theorem intern_cases {rw rw' : SeccompFilterRewriter} {k : Nat} (h : rw.intern k = some rw') :
    (rw' = rw ∧ (rw.result_to_index k).isSome) ∨
      (rw.result_to_index k = none ∧ BASE_CUSTOM_DATA + rw.index_to_result.length < SECCOMP_RET_DATA ∧
        rw' = ⟨Function.update rw.result_to_index k (some rw.index_to_result.length), rw.index_to_result ++ [k]⟩) := by
  unfold intern at h
  split at h
  next i hk =>
    cases h
    exact .inl ⟨rfl, by simp [hk]⟩
  next hk =>
    split_ifs at h with hroom
    cases h
    exact .inr ⟨hk, hroom, rfl⟩

theorem intern_extends {rw rw' : SeccompFilterRewriter} {k : Nat} (h : rw.intern k = some rw') : rw.Extends rw' := by
  rcases intern_cases h with ⟨rfl, -⟩ | ⟨hk, -, rfl⟩
  · exact Extends.refl _
  · refine ⟨fun k' i hi => ?_, List.prefix_append _ _⟩
    -- `k` had no entry, so the entry of `k'` is another one
    have hne : k' ≠ k := by
      rintro rfl
      rw [hk] at hi
      cases hi
    dsimp only
    rw [Function.update_of_ne hne]
    exact hi

theorem intern_consistent {rw rw' : SeccompFilterRewriter} {k : Nat} (h : rw.intern k = some rw')
    (hc : rw.Consistent) : rw'.Consistent := by
  rcases intern_cases h with ⟨rfl, -⟩ | ⟨hk, hroom, rfl⟩
  · exact hc
  refine ⟨fun k' i => ?_, by simp only [List.length_append, List.length_singleton]; omega⟩
  rw [getElem?_concat_eq_some]
  by_cases hk' : k' = k
  -- the new constant: it is at the new index and nowhere before it
  · subst hk'
    have hnot : rw.index_to_result[i]? ≠ some k' := fun hi => by
      rw [(hc.agree k' i).2 hi] at hk
      cases hk
    dsimp only
    rw [Function.update_self]
    constructor
    · rintro ⟨⟩
      exact .inr ⟨rfl, rfl⟩
    · rintro (hi | ⟨rfl, -⟩)
      · exact absurd hi hnot
      · rfl
  -- another constant: its entries are those it had
  · dsimp only
    rw [Function.update_of_ne hk', hc.agree]
    constructor
    · exact Or.inl
    · rintro (hi | ⟨-, rfl⟩)
      · exact hi
      · exact absurd rfl hk'

end SeccompFilterRewriter

open SeccompFilterRewriter

/-! ## What the rewrite does to a filter -/

/-- What `rewrite_return` does: a constant return other than ALLOW gets the
TRACE return of its table entry; any other instruction is kept. -/
theorem rewrite_return_cases {rw rw1 : SeccompFilterRewriter} {u u' : Insn} (h : rewrite_return rw u = some (u', rw1)) :
    (BPF_CLASS u.code = BPF_RET ∧ u.k ≠ SECCOMP_RET_ALLOW ∧ rw.intern u.k = some rw1 ∧
      ∃ i, rw1.result_to_index u.k = some i ∧ u' = { u with k := (BASE_CUSTOM_DATA + i) ||| SECCOMP_RET_TRACE }) ∨
      (u' = u ∧ rw1 = rw ∧ (BPF_CLASS u.code = BPF_RET → u.k = SECCOMP_RET_ALLOW)) := by
  unfold rewrite_return at h
  split_ifs at h with hclass hrval hallow
  · obtain ⟨rw2, hint, hrest⟩ := Option.bind_eq_some_iff.1 h
    obtain ⟨i, hi, hpure⟩ := Option.bind_eq_some_iff.1 hrest
    cases hpure
    exact .inl ⟨hclass, hallow, hint, i, hi, rfl⟩
  · cases h
    exact .inr ⟨rfl, rfl, fun _ => not_not.1 hallow⟩
  · cases h
    exact .inr ⟨rfl, rfl, fun h => absurd h hclass⟩

theorem rewrite_return_extends {rw rw1 : SeccompFilterRewriter} {u u' : Insn}
    (h : rewrite_return rw u = some (u', rw1)) : rw.Extends rw1 := by
  rcases rewrite_return_cases h with ⟨-, -, hint, -⟩ | ⟨-, rfl, -⟩
  · exact intern_extends hint
  · exact Extends.refl _

theorem rewrite_return_consistent {rw rw1 : SeccompFilterRewriter} {u u' : Insn}
    (h : rewrite_return rw u = some (u', rw1)) (hc : rw.Consistent) : rw1.Consistent := by
  rcases rewrite_return_cases h with ⟨-, -, hint, -⟩ | ⟨-, rfl, -⟩
  · exact intern_consistent hint hc
  · exact hc

/-- The return value rd's filter gives for a constant its tracee's filter
returns, with the table `rw`. -/
def rewritten_return (rw : SeccompFilterRewriter) (k : Nat) : Nat :=
  if k = SECCOMP_RET_ALLOW then k else (BASE_CUSTOM_DATA + (rw.result_to_index k).getD 0) ||| SECCOMP_RET_TRACE

/-- A constant return is rewritten to its `rewritten_return` in any table
that keeps the entries the rewrite made. -/
theorem rewrite_return_mapped {rw rw1 rw' : SeccompFilterRewriter} {u u' : Insn}
    (h : rewrite_return rw u = some (u', rw1)) (hext : rw1.Extends rw') : RetMapped (rewritten_return rw') u u' := by
  have hclass_of_ret : u.code = RET_K → BPF_CLASS u.code = BPF_RET := fun hret => by
    rw [hret]
    rfl
  unfold RetMapped
  rcases rewrite_return_cases h with ⟨hclass, hallow, -, i, hi, rfl⟩ | ⟨rfl, -, hallow⟩
  -- a rewritten constant: its entry is still `i` in `rw'`
  · split_ifs with hret hcl
    · rw [rewritten_return, if_neg hallow, hext.index _ _ hi]
      rfl
    · exact ⟨_, rfl⟩
    · exact absurd hclass hcl
  -- a kept instruction: an ALLOW return, or no return of a constant
  · split_ifs with hret hcl
    · rw [rewritten_return, if_pos (hallow (hclass_of_ret hret))]
    · exact ⟨_, rfl⟩
    · rfl

theorem rewrite_returns_cons {rw rw' : SeccompFilterRewriter} {u : Insn} {code code' : List Insn}
    (h : rewrite_returns rw (u :: code) = some (code', rw')) :
    ∃ u' rw1 rest', rewrite_return rw u = some (u', rw1) ∧ rewrite_returns rw1 code = some (rest', rw') ∧
      code' = u' :: rest' := by
  obtain ⟨⟨u', rw1⟩, hu, hrest⟩ := Option.bind_eq_some_iff.1 h
  obtain ⟨⟨rest', rw2⟩, hcode, hpure⟩ := Option.bind_eq_some_iff.1 hrest
  cases hpure
  exact ⟨u', rw1, rest', hu, hcode, rfl⟩

/-- The table after the rewrite keeps every entry and stays consistent. -/
theorem rewrite_returns_extends_consistent :
    ∀ {rw rw' : SeccompFilterRewriter} {code code' : List Insn}, rewrite_returns rw code = some (code', rw') →
      rw.Extends rw' ∧ (rw.Consistent → rw'.Consistent)
  | _, _, [], _, h => by
    cases h
    exact ⟨Extends.refl _, id⟩
  | _, _, _ :: _, _, h => by
    obtain ⟨_, _, _, hu, hrest, rfl⟩ := rewrite_returns_cons h
    have ih := rewrite_returns_extends_consistent hrest
    exact ⟨(rewrite_return_extends hu).trans ih.1, fun hc => ih.2 (rewrite_return_consistent hu hc)⟩

/-- Every constant return of the filter is rewritten to its
`rewritten_return` in the final table. -/
theorem rewrite_returns_mapped :
    ∀ {rw rw' : SeccompFilterRewriter} {code code' : List Insn}, rewrite_returns rw code = some (code', rw') →
      List.Forall₂ (RetMapped (rewritten_return rw')) code code'
  | _, _, [], _, h => by
    cases h
    exact .nil
  | _, _, _ :: _, _, h => by
    obtain ⟨_, _, _, hu, hrest, rfl⟩ := rewrite_returns_cons h
    exact .cons (rewrite_return_mapped hu (rewrite_returns_extends_consistent hrest).1) (rewrite_returns_mapped hrest)

/-- The filter rd installs: the callsite checks, then the rewritten filter. -/
theorem install_eq {rw rw' : SeccompFilterRewriter} {code P' : List Insn}
    (h : install_patched_seccomp_filter_arch rw code = some (P', rw')) :
    ∃ code', rewrite_returns rw code = some (code', rw') ∧ P' = privileged_exit_points.flatMap callsite_check ++ code' := by
  obtain ⟨⟨code', rw1⟩, hrw, hrest⟩ := Option.bind_eq_some_iff.1 h
  rw [allow_privileged_callsites_eq] at hrest
  cases hrest
  exact ⟨code', hrw, rfl⟩

/-- The filter rd installs lets through every syscall whose instruction
pointer has the low 32 bits of a privileged exit point; on any other it gives
the tracee's filter's verdict, with each constant other than ALLOW turned into
its TRACE return. -/
theorem installed_filter_verdict {rw rw' : SeccompFilterRewriter} {code P' : List Insn} (d : seccomp_data)
    (hinst : install_patched_seccomp_filter_arch rw code = some (P', rw'))
    (hA : IndependentOfInitialA (seccomp_load d) seccomp_data_size code) :
    seccomp_run P' d =
      if d.instruction_pointer.toNat % 2 ^ 32 ∈ privileged_exit_points then some (.const SECCOMP_RET_ALLOW)
      else (seccomp_run code d).map (Return.map_const (rewritten_return rw')) := by
  obtain ⟨code', hrw, rfl⟩ := install_eq hinst
  have hmap := rewrite_returns_mapped hrw
  unfold seccomp_run run privileged_exit_points
  rw [exec_callsite_checks (seccomp_load d) seccomp_data_size (seccomp_load_instruction_pointer d) code' _ _ _ _
    (by simp [callsite_check]; omega)]
  -- past the checks, the rewritten filter runs from `A` = the loaded word, as the tracee's would
  split_ifs
  · rfl
  · rw [exec_map_ret _ _ _ hmap, ← hmap.length_eq, hA]
    rfl

/-- A syscall from `2 ^ 32` above a privileged exit point is not one of rd's,
and a filter that kills every syscall kills it; the filter rd installs in its
place lets it through. -/
theorem truncated_callsite_allowed (nr arch : UInt32) (args : Vector UInt64 6) :
    (0x170000005 : UInt64).toNat ∉ privileged_exit_points ∧
      IndependentOfInitialA (seccomp_load ⟨nr, arch, 0x170000005, args⟩) seccomp_data_size
        [bpf_stmt (BPF_RET + BPF_K) 0] ∧
      seccomp_run [bpf_stmt (BPF_RET + BPF_K) 0] ⟨nr, arch, 0x170000005, args⟩ = some (.const 0) ∧
      ∃ P' rw', install_patched_seccomp_filter_arch .default [bpf_stmt (BPF_RET + BPF_K) 0] = some (P', rw') ∧
        seccomp_run P' ⟨nr, arch, 0x170000005, args⟩ = some (.const SECCOMP_RET_ALLOW) := by
  refine ⟨by decide, fun _ => rfl, rfl, ?_⟩
  obtain ⟨P', rw', hinst⟩ : ∃ P' rw',
      install_patched_seccomp_filter_arch .default [bpf_stmt (BPF_RET + BPF_K) 0] = some (P', rw') :=
    ⟨_, _, rfl⟩
  refine ⟨P', rw', hinst, ?_⟩
  -- the low half of the instruction pointer is the exit point of stub 1
  rw [installed_filter_verdict _ hinst (fun _ => rfl),
    if_pos (show (0x170000005 : UInt64).toNat % 2 ^ 32 ∈ privileged_exit_points by decide)]

end RdReplay.Record
