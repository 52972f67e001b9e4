/-
  MonkeyPatcher/LibraryPath.lean --- the preload library's name in LD_PRELOAD.

  Source: `monkey_patcher.rs` (`setup_library_path_arch`,
  `setup_preload_library_path`, `write_and_record_bytes`),
  `session/record_session.rs` (`inject_ld_helper_library`), `util.rs`
  (`flat_env`, `find`), `session/task/task_common.rs` (`read_c_str_common`) and
  `preload_interface.rs` (the `SYSCALLBUF_LIB_FILENAME_*` names).

  THE PROTOCOL.  When the record session builds the tracee's environment it
  does not know whether the program is 32- or 64-bit.  So it puts a
  placeholder at the head of LD_PRELOAD, `librdpreload.so:::`, as long as the
  32-bit name `librdpreload_32.so`.  After the exec, `setup_library_path_arch`
  finds the variable among the strings on the new stack and writes the name
  for the task's architecture over the placeholder.  Its checks keep the write
  inside the string and before the end of the colons after the name.

  WHAT IS PROVED.  `read_c_str` reads exactly the string up to the first NUL
  (`read_c_str_eq_some_iff`); the walk over the environment pointers finds the
  first variable of the name (`env_loop_spec`).  From these: whatever the
  memory, a write of `setup_library_path_arch` lies inside a variable's string
  that begins with the name, at the first occurrence of the base name, and
  keeps the string's NUL (`setup_library_path_arch_writes_inside`); and on the
  environment the record session builds, the variable afterwards names the
  library of the task's architecture, with the rest of it and all other memory
  as they were (`setup_preload_library_path_of_injected`).

  THE MODEL.  Memory is a total byte map, as for the patches.  A panic (a
  buffer that cannot be allocated, a slice out of range) is `none`.  A walk
  that would step past the top of the address space reads page zero next,
  which is never mapped: also `none`.  The trace recording of the write is not
  modelled.
-/
import RdReplay.Gdb.SearchMemory
import RdReplay.Record.ScratchLayout

set_option autoImplicit false

namespace RdReplay

open RdReplay.Record (read_mem get_remote_ptr length_read_mem getD_read_mem read_mem_add
  write_bytes_outside write_bytes_inside)

/-! ## Names -/

/-- `b':'`. -/
def COLON : UInt8 := 58

/-- `b'='`. -/
def EQUALS : UInt8 := 61

/-- `SYSCALLBUF_LIB_FILENAME_BASE`. -/
def SYSCALLBUF_LIB_FILENAME_BASE : List UInt8 := "librdpreload".toUTF8.toList

/-- `SYSCALLBUF_LIB_FILENAME_PADDED`: the placeholder, as long as the 32-bit name. -/
def SYSCALLBUF_LIB_FILENAME_PADDED : List UInt8 := "librdpreload.so:::".toUTF8.toList

/-- `SYSCALLBUF_LIB_FILENAME_32`. -/
def SYSCALLBUF_LIB_FILENAME_32 : List UInt8 := "librdpreload_32.so".toUTF8.toList

/-- `"LD_PRELOAD"`. -/
def LD_PRELOAD : List UInt8 := "LD_PRELOAD".toUTF8.toList

/-! ## `find` -/

section Find

variable {α : Type} [DecidableEq α] {haystack needle : List α}

/-- `find` characterised: the first occurrence. -/
theorem find_eq_some_iff (hne : needle ≠ []) {j : Nat} :
    find haystack needle = some j ↔ needle <+: haystack.drop j ∧ ∀ k < j, ¬needle <+: haystack.drop k := by
  refine ⟨Gdb.find_eq_some haystack needle hne, fun ⟨hj, hfirst⟩ => ?_⟩
  cases hfind : find haystack needle with
  | none => exact absurd hj (Gdb.find_eq_none haystack needle hne hfind j)
  | some j' =>
    obtain ⟨hj', hfirst'⟩ := Gdb.find_eq_some haystack needle hne hfind
    rcases Nat.lt_trichotomy j j' with hlt | rfl | hgt
    · exact absurd hj (hfirst' j hlt)
    · rfl
    · exact absurd hj' (hfirst j' hgt)

theorem find_eq_some_zero_iff (hne : needle ≠ []) : find haystack needle = some 0 ↔ needle <+: haystack := by
  rw [find_eq_some_iff hne]
  simp

/-- An occurrence found in `xs` is the first one of `xs ++ ys` too. -/
theorem find_append_of_find (hne : needle ≠ []) {xs ys : List α} {j : Nat} (h : find xs needle = some j) :
    find (xs ++ ys) needle = some j := by
  obtain ⟨hj, hfirst⟩ := (find_eq_some_iff hne).1 h
  have hfit : j + needle.length ≤ xs.length := by
    have := hj.length_le
    simp only [List.length_drop] at this
    have := List.length_pos_iff.2 hne
    omega
  refine (find_eq_some_iff hne).2 ⟨?_, fun k hk hpre => hfirst k hk ?_⟩
  · rw [List.drop_append_of_le_length (by omega)]
    exact hj.trans (List.prefix_append _ _)
  · -- an occurrence at `k < j` ends inside `xs`, so it is one of `xs`
    rw [List.drop_append_of_le_length (by omega)] at hpre
    exact List.prefix_of_prefix_length_le hpre (List.prefix_append _ _) (by simp only [List.length_drop]; omega)

end Find

/-! ## Reading a C string -/

/-- The loop of `read_c_str_common` from `p`, after the bytes `s`: it reads up
to the end of `p`'s page and stops at the first NUL there, or goes on from the
next page.  On the top page `ceil_page_size` wraps to zero, so `end_of_page - p`
wraps to a size no buffer can have: `none`. -/
def read_c_str_loop (mem : Nat → UInt8) (s : List UInt8) (p : Nat) : Option (List UInt8) :=
  let end_of_page := ceil_page_size (wrapping_add p 1)
  if _h : p < end_of_page then
    let buf := read_mem mem p (end_of_page - p)
    if 0 ∈ buf then some (s ++ buf.takeWhile (· != 0))
    else read_c_str_loop mem (s ++ buf) end_of_page
  else none
termination_by 2 ^ 64 - p
decreasing_by
  have := ceil_page_size_lt (wrapping_add p 1)
  omega

/-- `read_c_str_common`: the C string at `p`. -/
def read_c_str (mem : Nat → UInt8) (p : Nat) : Option (List UInt8) :=
  read_c_str_loop mem [] p

/-- The C string `s` lies at `p`: its bytes, none of them NUL, then a NUL, on a
page below the top one. -/
structure CStrAt (mem : Nat → UInt8) (p : Nat) (s : List UInt8) : Prop where
  bytes : read_mem mem p s.length = s
  no_nul : 0 ∉ s
  nul : mem (p + s.length) = 0
  below_top : p + s.length + page_size < 2 ^ 64

section CStr

variable {mem : Nat → UInt8} {p n : Nat} {s : List UInt8}

/-- Below the top page, `end_of_page` is the next page boundary above `p`. -/
theorem end_of_page_spec (h : p + page_size < 2 ^ 64) :
    p < ceil_page_size (wrapping_add p 1) ∧ ceil_page_size (wrapping_add p 1) ≤ p + page_size := by
  have hp1 : wrapping_add p 1 = p + 1 := wrapping_add_of_lt (by unfold page_size at h; omega)
  have := @ceil_page_size_spec (p + 1) (by unfold page_size at *; omega)
  rw [hp1]
  omega

/-- A page boundary leaves a whole page above it. -/
theorem ceil_page_size_add_page_le (x : Nat) : ceil_page_size x + page_size ≤ 2 ^ 64 := by
  have h1 := aligned_ceil_page_size x
  have h2 := ceil_page_size_lt x
  unfold Aligned page_size at *
  omega

/-- The first `n` bytes at `p`, for `n` within the string, are its first `n`. -/
theorem CStrAt.read_mem_take (hs : CStrAt mem p s) (hn : n ≤ s.length) : read_mem mem p n = s.take n := by
  have hsplit := read_mem_add mem p n (s.length - n)
  rw [Nat.add_sub_cancel' hn, hs.bytes] at hsplit
  calc read_mem mem p n = (read_mem mem p n ++ read_mem mem (p + n) (s.length - n)).take n := by simp
    _ = s.take n := by rw [← hsplit]

theorem CStrAt.drop (hs : CStrAt mem p s) (hn : n ≤ s.length) : CStrAt mem (p + n) (s.drop n) where
  bytes := by
    have hsplit := read_mem_add mem p n (s.length - n)
    rw [Nat.add_sub_cancel' hn, hs.bytes] at hsplit
    calc read_mem mem (p + n) (s.drop n).length
        = (read_mem mem p n ++ read_mem mem (p + n) (s.length - n)).drop n := by simp
      _ = s.drop n := by rw [← hsplit]
  no_nul := fun h => hs.no_nul (List.mem_of_mem_drop h)
  nul := by simpa [List.length_drop, Nat.add_assoc, Nat.add_sub_cancel' hn] using hs.nul
  below_top := by have := hs.below_top; simp only [List.length_drop]; omega

/-- A NUL-free page in front of a string at its end is part of the string. -/
theorem CStrAt.cons_page (h0 : 0 ∉ read_mem mem p n) (hs : CStrAt mem (p + n) s) :
    CStrAt mem p (read_mem mem p n ++ s) where
  bytes := by rw [List.length_append, length_read_mem, read_mem_add, hs.bytes]
  no_nul := fun h => (List.mem_append.1 h).elim h0 hs.no_nul
  nul := by simpa [Nat.add_assoc] using hs.nul
  below_top := by have := hs.below_top; simp only [List.length_append, length_read_mem]; omega

/-- A read that holds a NUL: the bytes before the first one are a C string. -/
theorem cstr_at_takeWhile (h0 : 0 ∈ read_mem mem p n) (htop : p + n + page_size ≤ 2 ^ 64) :
    CStrAt mem p ((read_mem mem p n).takeWhile (· != 0)) := by
  generalize hbuf : read_mem mem p n = buf at h0
  have hbuf_len : buf.length = n := hbuf ▸ length_read_mem mem p n
  have hsplit : buf.takeWhile (· != 0) ++ buf.dropWhile (· != 0) = buf := List.takeWhile_append_dropWhile
  have hne : buf.dropWhile (· != 0) ≠ [] := by
    intro hnil
    rw [hnil, List.append_nil] at hsplit
    have := List.mem_takeWhile_imp (hsplit ▸ h0)
    simp at this
  obtain ⟨b, bs, hcons⟩ := List.exists_cons_of_ne_nil hne
  have hb : b = 0 := by simpa [hcons] using List.head_dropWhile_not (· != 0) hne
  have hlen : (buf.takeWhile (· != 0)).length < n := by
    have := congrArg List.length hsplit
    rw [List.length_append, hcons, hbuf_len] at this
    simp only [List.length_cons] at this
    omega
  -- the read splits at the string's end: the string, then what `takeWhile` left
  have hread : read_mem mem p (buf.takeWhile (· != 0)).length ++
      read_mem mem (p + (buf.takeWhile (· != 0)).length) (n - (buf.takeWhile (· != 0)).length) =
        buf.takeWhile (· != 0) ++ b :: bs := by
    rw [← read_mem_add, Nat.add_sub_cancel' hlen.le, hbuf, ← hcons, hsplit]
  refine ⟨List.append_inj_left hread (by simp), fun h => ?_, ?_, by omega⟩
  · have := List.mem_takeWhile_imp h
    simp at this
  · have hget := @getD_read_mem mem (p + (buf.takeWhile (· != 0)).length) _ 0
      (show 0 < n - (buf.takeWhile (· != 0)).length by omega)
    rw [List.append_inj_right hread (by simp)] at hget
    simpa [hb] using hget.symm

/-- The bytes from the start of a string to past its NUL: the string and a NUL. -/
theorem CStrAt.takeWhile_read_mem (hs : CStrAt mem p s) (hn : s.length < n) :
    0 ∈ read_mem mem p n ∧ (read_mem mem p n).takeWhile (· != 0) = s := by
  have hsplit : read_mem mem p n = s ++ 0 :: read_mem mem (p + s.length + 1) (n - s.length - 1) := by
    rw [show n = s.length + (1 + (n - s.length - 1)) by omega, read_mem_add, read_mem_add, hs.bytes]
    simp [read_mem, hs.nul]
  have hpos : ∀ a ∈ s, (a != 0) = true := fun a ha => by
    simpa using fun h : a = 0 => hs.no_nul (h ▸ ha)
  rw [hsplit, List.takeWhile_append_of_pos hpos]
  simp

/-- The page read of a string that goes on past the page holds no NUL. -/
theorem CStrAt.not_mem_read_mem (hs : CStrAt mem p s) (hn : n ≤ s.length) : 0 ∉ read_mem mem p n := by
  rw [hs.read_mem_take hn]
  exact fun h => hs.no_nul (List.mem_of_mem_take h)

/-- The loop reads a string that lies at `p` to its end. -/
theorem read_c_str_loop_of_cstr_at (acc : List UInt8) (p : Nat) :
    ∀ s, CStrAt mem p s → read_c_str_loop mem acc p = some (acc ++ s) := by
  fun_induction read_c_str_loop mem acc p with
  | case1 acc p e hpe buf hnul =>
    intro s hs
    -- the NUL is on this page, or the page would hold none
    by_cases hn : s.length < e - p
    · rw [(hs.takeWhile_read_mem hn).2]
    · exact absurd hnul (hs.not_mem_read_mem (by omega))
  | case2 acc p e hpe buf hnul ih =>
    intro s hs
    by_cases hn : s.length < e - p
    · exact absurd (hs.takeWhile_read_mem hn).1 hnul
    · -- the string goes on from the next page
      have hdrop := hs.drop (n := e - p) (by omega)
      rw [Nat.add_sub_cancel' hpe.le] at hdrop
      have hbuf : buf = s.take (e - p) := hs.read_mem_take (by omega)
      rw [ih _ hdrop, hbuf, List.append_assoc, List.take_append_drop]
  | case3 acc p e hpe =>
    intro s hs
    have := hs.below_top
    exact absurd (end_of_page_spec (p := p) (by omega)).1 hpe

/-- What the loop returns lies at `p`, after the bytes it started with. -/
theorem cstr_at_of_read_c_str_loop (acc : List UInt8) (p : Nat) :
    ∀ r, read_c_str_loop mem acc p = some r → ∃ s, r = acc ++ s ∧ CStrAt mem p s := by
  fun_induction read_c_str_loop mem acc p with
  | case1 acc p e hpe buf hnul =>
    intro r hr
    cases hr
    have := ceil_page_size_add_page_le (wrapping_add p 1)
    exact ⟨_, rfl, cstr_at_takeWhile hnul (by omega)⟩
  | case2 acc p e hpe buf hnul ih =>
    intro r hr
    obtain ⟨s', rfl, hs'⟩ := ih r hr
    refine ⟨read_mem mem p (e - p) ++ s', by rw [List.append_assoc], CStrAt.cons_page hnul ?_⟩
    rwa [Nat.add_sub_cancel' hpe.le]
  | case3 acc p e hpe =>
    intro r hr
    cases hr

/-- `read_c_str` reads exactly the C strings in memory. -/
theorem read_c_str_eq_some_iff : read_c_str mem p = some s ↔ CStrAt mem p s := by
  unfold read_c_str
  constructor
  · intro h
    obtain ⟨s', hs, hcs⟩ := cstr_at_of_read_c_str_loop [] p s h
    rw [List.nil_append] at hs
    exact hs ▸ hcs
  · intro hs
    simpa using read_c_str_loop_of_cstr_at [] p s hs

end CStr

/-! ## The environment on the stack -/

/-- The loop of `setup_library_path_arch` over the environment pointers from
`p`: the pointer and the bytes of the first variable that begins with
`env_assignment`, or `some none` at the NULL that ends the array.  A pointer
that would step past the top of the address space reads page zero next, which
is never mapped: `none`, as any failed read. -/
def env_loop (arch : SupportedArch) (mem : Nat → UInt8) (env_assignment : List UInt8) (p : Nat) :
    Option (Option (Nat × List UInt8)) :=
  let envp := get_remote_ptr mem arch p
  if envp = 0 then some none
  else
    match read_c_str mem envp with
    | none => none
    | some env =>
      if find env env_assignment ≠ some 0 then
        if _h : p < wrapping_add p (Record.word_size arch) then
          env_loop arch mem env_assignment (wrapping_add p (Record.word_size arch))
        else none
      else some (some (envp, env))
termination_by 2 ^ 64 - p
decreasing_by
  have := wrapping_add_lt p (Record.word_size arch)
  omega

/-- Where the environment pointers start on the stack at `sp`: after `argc`,
the `argc` argument pointers and their NULL. -/
def env_base (arch : SupportedArch) (mem : Nat → UInt8) (sp : Nat) : Nat :=
  sp + (1 + get_remote_ptr mem arch sp + 1) * Record.word_size arch

/-- The stack at `sp` as `execve` leaves it, as far as `setup_library_path_arch`
reads it: from `env_base` the pointers of the variables `envs`, each to its C
string, then a NULL, all below the top of the address space. -/
structure ExecStack (arch : SupportedArch) (mem : Nat → UInt8) (sp : Nat) (envs : List (Nat × List UInt8)) :
    Prop where
  below_top : env_base arch mem sp + (envs.length + 1) * Record.word_size arch ≤ 2 ^ 64
  ptr : ∀ k (h : k < envs.length), get_remote_ptr mem arch (env_base arch mem sp + k * Record.word_size arch) = envs[k].1
  ptr_ne : ∀ e ∈ envs, e.1 ≠ 0
  str : ∀ e ∈ envs, CStrAt mem e.1 e.2
  null : get_remote_ptr mem arch (env_base arch mem sp + envs.length * Record.word_size arch) = 0

theorem word_size_pos (arch : SupportedArch) : 0 < Record.word_size arch := by
  cases arch <;> decide

section Walk

variable {arch : SupportedArch} {mem : Nat → UInt8} {sp : Nat} {envs : List (Nat × List UInt8)}
  {env_assignment : List UInt8}

/-- The walk from the `k`-th pointer on finds the first variable from there on
that begins with `env_assignment`. -/
theorem env_loop_from (hs : ExecStack arch mem sp envs) (hne : env_assignment ≠ []) :
    ∀ m k, k + m = envs.length →
      env_loop arch mem env_assignment (env_base arch mem sp + k * Record.word_size arch) =
        some ((envs.drop k).find? fun e => env_assignment.isPrefixOf e.2)
  | 0, k, hk => by
    -- the NULL at the end of the array
    subst hk
    rw [env_loop, if_pos (by simpa using hs.null)]
    simp
  | m + 1, k, hk => by
    have hlt : k < envs.length := by omega
    have hcons : envs.drop k = envs[k] :: envs.drop (k + 1) := List.drop_eq_getElem_cons hlt
    have hstr := hs.str envs[k] (List.getElem_mem hlt)
    have hw := word_size_pos arch
    rw [env_loop, hs.ptr k hlt, if_neg (hs.ptr_ne _ (List.getElem_mem hlt)),
      read_c_str_eq_some_iff.2 hstr, hcons]
    simp only [List.find?_cons]
    by_cases hpre : env_assignment.isPrefixOf envs[k].2
    · -- this variable is the one
      rw [if_neg (by rw [ne_eq, not_not, find_eq_some_zero_iff hne]; exact List.isPrefixOf_iff_prefix.1 hpre), hpre]
    · -- the next pointer, below the top of the address space
      have hnext : wrapping_add (env_base arch mem sp + k * Record.word_size arch) (Record.word_size arch) =
          env_base arch mem sp + (k + 1) * Record.word_size arch := by
        have := hs.below_top
        rw [wrapping_add_of_lt (by rw [Nat.succ_mul] at *; nlinarith)]
        ring
      rw [if_pos (by rw [Ne, find_eq_some_zero_iff hne]; exact fun h => hpre (List.isPrefixOf_iff_prefix.2 h)),
        hnext, dif_pos (by nlinarith), env_loop_from hs hne m (k + 1) (by omega)]
      simp [hpre]

/-- The walk from the first environment pointer finds the first variable that
begins with `env_assignment`. -/
theorem env_loop_spec (hs : ExecStack arch mem sp envs) (hne : env_assignment ≠ []) :
    env_loop arch mem env_assignment (env_base arch mem sp) =
      some (envs.find? fun e => env_assignment.isPrefixOf e.2) := by
  simpa using env_loop_from hs hne envs.length 0 (by omega)

/-- The walk `setup_library_path_arch` starts, past `argc`, the argument
pointers and their NULL, is the walk from the first environment pointer. -/
theorem env_loop_first (hs : ExecStack arch mem sp envs) (hne : env_assignment ≠ []) :
    env_loop arch mem env_assignment
        (wrapping_add sp ((1 + get_remote_ptr mem arch sp + 1) * Record.word_size arch)) =
      some (envs.find? fun e => env_assignment.isPrefixOf e.2) := by
  have := hs.below_top
  rw [wrapping_add_of_lt (by unfold env_base at this; nlinarith [word_size_pos arch]), ← env_base]
  exact env_loop_spec hs hne

/-- Whatever the memory, the variable the walk stops at is a C string in it
that begins with `env_assignment`. -/
theorem cstr_at_of_env_loop (hne : env_assignment ≠ []) (p : Nat) {envp : Nat} {env : List UInt8} :
    env_loop arch mem env_assignment p = some (some (envp, env)) →
      CStrAt mem envp env ∧ env_assignment <+: env := by
  fun_induction env_loop arch mem env_assignment p with
  | case1 p envp' hnull => intro h; cases h
  | case2 p envp' hnull hread => intro h; cases h
  | case3 p envp' hnull env' hread hfind hnext ih => exact ih
  | case4 p envp' hnull env' hread hfind hnext => intro h; cases h
  | case5 p envp' hnull env' hread hfind =>
    intro h
    simp only [Option.some.injEq, Prod.mk.injEq] at h
    obtain ⟨rfl, rfl⟩ := h
    exact ⟨read_c_str_eq_some_iff.1 hread, (find_eq_some_zero_iff hne).1 (not_not.1 hfind)⟩

end Walk

/-! ## `setup_library_path_arch` -/

/-- The `while` of `setup_library_path_arch` that moves `next_colon` to the
last colon of the run it starts. -/
def colon_run (env : List UInt8) (next_colon : Nat) : Nat :=
  if h : next_colon + 1 < env.length then
    if env[next_colon + 1] = COLON then colon_run env (next_colon + 1) else next_colon
  else next_colon
termination_by env.length - next_colon

/-- `setup_library_path_arch`: the memory after the call, `none` for a panic.
rd is a 64-bit process, so an `Arch::unsigned_word` narrower than its `usize`
is a 32-bit task's.  `lib_name.as_bytes()[0..soname_padded.len()]` panics when
the name is shorter than the placeholder. -/
def setup_library_path_arch (arch : SupportedArch) (sp : Nat) (mem : Nat → UInt8)
    (env_var soname_base soname_padded soname_32 : List UInt8) : Option (Nat → UInt8) :=
  let lib_name := if Record.word_size arch < 8 then soname_32 else soname_padded
  let env_assignment := env_var ++ [EQUALS]
  let argc := get_remote_ptr mem arch sp
  -- skip argc, argc parameters, and trailing NULL
  let p := wrapping_add sp ((1 + argc + 1) * Record.word_size arch)
  match env_loop arch mem env_assignment p with
  | none => none
  | some none => some mem
  | some (some (envp, env)) =>
    match find env soname_base with
    | none => some mem
    | some lib_pos =>
      -- `lib_pos + soname_padded.len() - 1`, wrapping as a `usize`
      let room := wrapping_sub (lib_pos + soname_padded.length) 1
      let colon_short :=
        match find (env.drop lib_pos) [COLON] with
        | some next => decide (colon_run env (next + lib_pos) < room)
        | none => false
      if colon_short then some mem
      -- `env` begins with `env_assignment`, so `env.len() - 1` does not wrap
      else if env.length - 1 < room then some mem
      else if soname_padded.length ≤ lib_name.length then
        some (write_bytes mem (envp + lib_pos) (lib_name.take soname_padded.length))
      else none

/-- `setup_preload_library_path`. -/
def setup_preload_library_path (arch : SupportedArch) (sp : Nat) (mem : Nat → UInt8) : Option (Nat → UInt8) :=
  setup_library_path_arch arch sp mem LD_PRELOAD SYSCALLBUF_LIB_FILENAME_BASE SYSCALLBUF_LIB_FILENAME_PADDED
    SYSCALLBUF_LIB_FILENAME_32

/-! ## The environment the record session builds -/

/-- `flat_env`, which `RecordSession::new` also spells out for the task it
spawns: each variable as `key=value`. -/
def flat_env (envp : List (List UInt8 × List UInt8)) : List (List UInt8) :=
  envp.map fun kv => kv.1 ++ EQUALS :: kv.2

theorem flat_env_append (a b : List (List UInt8 × List UInt8)) : flat_env (a ++ b) = flat_env a ++ flat_env b :=
  List.map_append

/-- `inject_ld_helper_library`: `val` goes in front of the first variable
`name`, with a `:` between, or becomes a new variable at the end. -/
def inject_ld_helper_library : List (List UInt8 × List UInt8) → List UInt8 → List UInt8 →
    List (List UInt8 × List UInt8)
  | [], name, val => [(name, val)]
  | (key, curr_value) :: env, name, val =>
    if key = name then (key, val ++ COLON :: curr_value) :: env
    else (key, curr_value) :: inject_ld_helper_library env name val

/-- What follows the injected value in the variable `name`: a `:` and the old
value of the variable, when there was one. -/
def old_value_tail (env : List (List UInt8 × List UInt8)) (name : List UInt8) : List UInt8 :=
  match env.find? fun kv => decide (kv.1 = name) with
  | some kv => COLON :: kv.2
  | none => []

/-- The preload library a task of `arch` is to load. -/
def preload_library : SupportedArch → List UInt8
  | .X86 => SYSCALLBUF_LIB_FILENAME_32
  | .X64 => SYSCALLBUF_LIB_FILENAME_PADDED

section Inject

/-- Two keys, each followed by a separator that neither holds, one a prefix of
the other's line: the keys are equal. -/
theorem eq_of_prefix_append_singleton {α : Type} {a b c : List α} {x : α} (ha : x ∉ a) (hb : x ∉ b)
    (h : a ++ [x] <+: b ++ x :: c) : a = b := by
  induction a generalizing b with
  | nil =>
    cases b with
    | nil => rfl
    | cons y b => exact absurd ((List.cons_prefix_cons.1 h).1 ▸ List.mem_cons_self) hb
  | cons y a ih =>
    cases b with
    | nil => exact absurd ((List.cons_prefix_cons.1 h).1 ▸ List.mem_cons_self) ha
    | cons z b =>
      obtain ⟨hyz, hab⟩ := List.cons_prefix_cons.1 h
      rw [hyz, ih (fun h => ha (List.mem_cons_of_mem _ h)) (fun h => hb (List.mem_cons_of_mem _ h)) hab]

variable {env : List (List UInt8 × List UInt8)} {name val : List UInt8}

/-- The line `key=value` begins with `name=` exactly when the key is `name`. -/
theorem isPrefixOf_flat_iff {key value : List UInt8} (hname : EQUALS ∉ name) (hkey : EQUALS ∉ key) :
    (name ++ [EQUALS]).isPrefixOf (key ++ EQUALS :: value) = decide (key = name) := by
  by_cases h : key = name
  · subst h
    simp [List.isPrefixOf_iff_prefix]
  · rw [decide_eq_false h, Bool.eq_false_iff]
    intro hpre
    exact h (eq_of_prefix_append_singleton hname hkey (List.isPrefixOf_iff_prefix.1 hpre)).symm

/-- The first line of the injected environment that begins with `name=`: the
new value, then the old one after a `:`. -/
theorem find?_flat_env_inject (hname : EQUALS ∉ name) (hkeys : ∀ kv ∈ env, EQUALS ∉ kv.1) :
    (flat_env (inject_ld_helper_library env name val)).find? (fun s => (name ++ [EQUALS]).isPrefixOf s) =
      some (name ++ EQUALS :: (val ++ old_value_tail env name)) := by
  induction env with
  | nil => simp [inject_ld_helper_library, flat_env, old_value_tail, List.isPrefixOf_iff_prefix]
  | cons kv env ih =>
    obtain ⟨key, value⟩ := kv
    have hkey : EQUALS ∉ key := hkeys _ List.mem_cons_self
    by_cases h : key = name
    · subst h
      simp [inject_ld_helper_library, flat_env, old_value_tail, List.isPrefixOf_iff_prefix]
    · have hrest := ih fun kv hkv => hkeys kv (List.mem_cons_of_mem _ hkv)
      simp only [flat_env] at hrest
      simp [inject_ld_helper_library, flat_env, old_value_tail, h, isPrefixOf_flat_iff hname hkey, hrest]

end Inject

section Colons

variable {env : List UInt8}

theorem le_colon_run (n : Nat) : n ≤ colon_run env n := by
  fun_induction colon_run env n <;> omega

/-- A colon after `n` extends the run. -/
theorem colon_run_of_colon {n : Nat} (h : env[n + 1]? = some COLON) : colon_run env n = colon_run env (n + 1) := by
  have hlt : n + 1 < env.length := by
    by_contra hge
    rw [List.getElem?_eq_none (by omega)] at h
    cases h
  rw [colon_run, dif_pos hlt, if_pos (by simpa [List.getElem?_eq_getElem hlt] using h)]

end Colons

/-! ## What the call writes -/

section Write

variable {mem : Nat → UInt8} {p : Nat}

/-- Bytes written over the middle of a string, none of them NUL and as many as
they replace, leave a string of the same length in its place. -/
theorem CStrAt.write_inside {a b c d : List UInt8} (hs : CStrAt mem p (a ++ b ++ c)) (hlen : d.length = b.length)
    (h0 : 0 ∉ d) : CStrAt (write_bytes mem (p + a.length) d) p (a ++ d ++ c) where
  bytes := by
    have ha : read_mem mem p a.length = a := by
      rw [hs.read_mem_take (by simp)]
      simp
    have hc : read_mem mem (p + (a.length + b.length)) c.length = c := by
      have := (hs.drop (n := a.length + b.length) (by simp)).bytes
      simpa [List.drop_append_of_le_length, Nat.add_comm] using this
    simp only [List.length_append, read_mem_add]
    rw [Record.read_mem_write_bytes_disjoint (by omega), ha, Record.read_mem_write_bytes_self,
      Record.read_mem_write_bytes_disjoint (by omega), hlen, hc]
  no_nul := by
    have := hs.no_nul
    simp only [List.mem_append] at this ⊢
    tauto
  nul := by
    rw [write_bytes_outside (by simp only [List.length_append]; omega)]
    simpa [hlen] using hs.nul
  below_top := by have := hs.below_top; simp only [List.length_append] at *; omega

theorem wrapping_sub_one {a : Nat} (h1 : 1 ≤ a) (h : a < 2 ^ 64) : wrapping_sub a 1 = a - 1 := by
  unfold wrapping_sub
  omega

variable {arch : SupportedArch} {sp : Nat} {env_var soname_base soname_padded soname_32 : List UInt8}

/-- A run in which every check passes: the name's first
`soname_padded.len()` bytes go over the base name's first occurrence. -/
theorem setup_library_path_arch_of_room {envp lib_pos : Nat} {env : List UInt8}
    (hloop : env_loop arch mem (env_var ++ [EQUALS])
      (wrapping_add sp ((1 + get_remote_ptr mem arch sp + 1) * Record.word_size arch)) = some (some (envp, env)))
    (hlib : find env soname_base = some lib_pos) (hpad : 0 < soname_padded.length)
    (hend : lib_pos + soname_padded.length ≤ env.length)
    (hcolon : ∀ next, find (env.drop lib_pos) [COLON] = some next →
      lib_pos + soname_padded.length ≤ colon_run env (next + lib_pos) + 1)
    (hname : soname_padded.length ≤ (if Record.word_size arch < 8 then soname_32 else soname_padded).length)
    (hfit : lib_pos + soname_padded.length < 2 ^ 64) :
    setup_library_path_arch arch sp mem env_var soname_base soname_padded soname_32 =
      some (write_bytes mem (envp + lib_pos)
        ((if Record.word_size arch < 8 then soname_32 else soname_padded).take soname_padded.length)) := by
  have hroom : wrapping_sub (lib_pos + soname_padded.length) 1 = lib_pos + soname_padded.length - 1 :=
    wrapping_sub_one (by omega) hfit
  -- neither `Insufficient space` return is taken
  have hshort : (match find (env.drop lib_pos) [COLON] with
      | some next => decide (colon_run env (next + lib_pos) < lib_pos + soname_padded.length - 1)
      | none => false) = false := by
    cases hnext : find (env.drop lib_pos) [COLON] with
    | none => rfl
    | some next => simpa using (by have := hcolon next hnext; omega)
  have hlong : ¬env.length - 1 < lib_pos + soname_padded.length - 1 := by omega
  simp only [setup_library_path_arch, hloop, hlib, hroom, hshort, hlong, hname, if_false, if_true,
    Bool.false_eq_true]

/-- What `setup_library_path_arch` can do: leave memory as it was, or, with
room before the end of the variable the walk found, write the name's first
`soname_padded.len()` bytes at the first occurrence of the base name. -/
theorem setup_library_path_arch_cases {mem' : Nat → UInt8}
    (h : setup_library_path_arch arch sp mem env_var soname_base soname_padded soname_32 = some mem') :
    mem' = mem ∨ ∃ envp env lib_pos,
      env_loop arch mem (env_var ++ [EQUALS])
        (wrapping_add sp ((1 + get_remote_ptr mem arch sp + 1) * Record.word_size arch)) = some (some (envp, env)) ∧
      find env soname_base = some lib_pos ∧
      ¬env.length - 1 < wrapping_sub (lib_pos + soname_padded.length) 1 ∧
      mem' = write_bytes mem (envp + lib_pos)
        ((if Record.word_size arch < 8 then soname_32 else soname_padded).take soname_padded.length) := by
  unfold setup_library_path_arch at h
  dsimp only at h
  generalize (if Record.word_size arch < 8 then soname_32 else soname_padded) = lib_name at h ⊢
  split at h
  · cases h
  · exact .inl (Option.some.inj h).symm
  · rename_i envp env hloop
    split at h
    · exact .inl (Option.some.inj h).symm
    · rename_i lib_pos hlib
      split_ifs at h with hshort hend hname
      · exact .inl (Option.some.inj h).symm
      · exact .inl (Option.some.inj h).symm
      · exact .inr ⟨envp, env, lib_pos, hloop, hlib, hend, (Option.some.inj h).symm⟩

end Write

/-! ## The placeholder rewritten -/

/-- The names as the bytes of their literals.  Only the kernel evaluates a
literal's UTF-8 bytes, so this is done once, here, and the facts below are read
off the byte lists. -/
theorem names_bytes :
    SYSCALLBUF_LIB_FILENAME_BASE = [108, 105, 98, 114, 100, 112, 114, 101, 108, 111, 97, 100] ∧
      SYSCALLBUF_LIB_FILENAME_PADDED = SYSCALLBUF_LIB_FILENAME_BASE ++ [46, 115, 111, 58, 58, 58] ∧
      SYSCALLBUF_LIB_FILENAME_32 = SYSCALLBUF_LIB_FILENAME_BASE ++ [95, 51, 50, 46, 115, 111] ∧
      LD_PRELOAD = [76, 68, 95, 80, 82, 69, 76, 79, 65, 68] := by
  decide +kernel

theorem SYSCALLBUF_LIB_FILENAME_BASE_eq :
    SYSCALLBUF_LIB_FILENAME_BASE = [108, 105, 98, 114, 100, 112, 114, 101, 108, 111, 97, 100] :=
  names_bytes.1

/-- The placeholder is the base name and `.so:::`. -/
theorem SYSCALLBUF_LIB_FILENAME_PADDED_eq :
    SYSCALLBUF_LIB_FILENAME_PADDED = SYSCALLBUF_LIB_FILENAME_BASE ++ [46, 115, 111, 58, 58, 58] :=
  names_bytes.2.1

theorem SYSCALLBUF_LIB_FILENAME_32_eq :
    SYSCALLBUF_LIB_FILENAME_32 = SYSCALLBUF_LIB_FILENAME_BASE ++ [95, 51, 50, 46, 115, 111] :=
  names_bytes.2.2.1

theorem LD_PRELOAD_eq : LD_PRELOAD = [76, 68, 95, 80, 82, 69, 76, 79, 65, 68] :=
  names_bytes.2.2.2

theorem SYSCALLBUF_LIB_FILENAME_BASE_ne_nil : SYSCALLBUF_LIB_FILENAME_BASE ≠ [] := by
  simp [SYSCALLBUF_LIB_FILENAME_BASE_eq]

theorem length_SYSCALLBUF_LIB_FILENAME_PADDED : SYSCALLBUF_LIB_FILENAME_PADDED.length = 18 := by
  simp [SYSCALLBUF_LIB_FILENAME_PADDED_eq, SYSCALLBUF_LIB_FILENAME_BASE_eq]

theorem EQUALS_not_mem_LD_PRELOAD : EQUALS ∉ LD_PRELOAD := by
  rw [LD_PRELOAD_eq]
  decide

theorem find_padded_colon : find SYSCALLBUF_LIB_FILENAME_PADDED [COLON] = some 15 := by
  rw [SYSCALLBUF_LIB_FILENAME_PADDED_eq, SYSCALLBUF_LIB_FILENAME_BASE_eq]
  decide

/-- The placeholder's last three bytes are colons. -/
theorem SYSCALLBUF_LIB_FILENAME_PADDED_colon {i : Nat} (h1 : 15 ≤ i) (h2 : i < 18) :
    SYSCALLBUF_LIB_FILENAME_PADDED[i]? = some COLON := by
  rw [SYSCALLBUF_LIB_FILENAME_PADDED_eq, SYSCALLBUF_LIB_FILENAME_BASE_eq]
  interval_cases i <;> rfl

theorem length_preload_library (arch : SupportedArch) : (preload_library arch).length = 18 := by
  cases arch <;> simp [preload_library, SYSCALLBUF_LIB_FILENAME_32_eq, SYSCALLBUF_LIB_FILENAME_PADDED_eq,
    SYSCALLBUF_LIB_FILENAME_BASE_eq]

theorem zero_not_mem_preload_library (arch : SupportedArch) : 0 ∉ preload_library arch := by
  cases arch <;>
    simp only [preload_library, SYSCALLBUF_LIB_FILENAME_32_eq, SYSCALLBUF_LIB_FILENAME_PADDED_eq,
      SYSCALLBUF_LIB_FILENAME_BASE_eq] <;>
    decide

/-- The name `setup_preload_library_path` picks by the word size is the one the
task is to load. -/
theorem lib_name_eq_preload_library (arch : SupportedArch) :
    (if Record.word_size arch < 8 then SYSCALLBUF_LIB_FILENAME_32 else SYSCALLBUF_LIB_FILENAME_PADDED) =
      preload_library arch := by
  cases arch <;> rfl

/-- The run on the environment the record session builds: every check passes,
and the library of the task's architecture goes over the placeholder. -/
theorem setup_preload_library_path_run_of_injected {arch : SupportedArch} {sp : Nat} {mem : Nat → UInt8}
    {env extra : List (List UInt8 × List UInt8)} {pre : List UInt8} {envs : List (Nat × List UInt8)}
    (hkeys : ∀ kv ∈ env, EQUALS ∉ kv.1)
    (hpre : find (LD_PRELOAD ++ EQUALS :: pre ++ SYSCALLBUF_LIB_FILENAME_BASE) SYSCALLBUF_LIB_FILENAME_BASE =
      some (LD_PRELOAD.length + 1 + pre.length))
    (hs : ExecStack arch mem sp envs)
    (henv : envs.map Prod.snd =
      flat_env (inject_ld_helper_library env LD_PRELOAD (pre ++ SYSCALLBUF_LIB_FILENAME_PADDED) ++ extra)) :
    ∃ envp, (envp, LD_PRELOAD ++ EQUALS :: (pre ++ SYSCALLBUF_LIB_FILENAME_PADDED ++ old_value_tail env LD_PRELOAD)) ∈ envs ∧
      setup_preload_library_path arch sp mem =
        some (write_bytes mem (envp + (LD_PRELOAD.length + 1 + pre.length)) (preload_library arch)) := by
  set tail := old_value_tail env LD_PRELOAD
  set lib_pos := LD_PRELOAD.length + 1 + pre.length
  have hpad_len := length_SYSCALLBUF_LIB_FILENAME_PADDED
  -- the variable the walk stops at is the injected one
  have hfind : (flat_env (inject_ld_helper_library env LD_PRELOAD (pre ++ SYSCALLBUF_LIB_FILENAME_PADDED) ++
      extra)).find? (fun s => (LD_PRELOAD ++ [EQUALS]).isPrefixOf s) =
        some (LD_PRELOAD ++ EQUALS :: (pre ++ SYSCALLBUF_LIB_FILENAME_PADDED ++ tail)) := by
    rw [flat_env_append, List.find?_append, find?_flat_env_inject EQUALS_not_mem_LD_PRELOAD hkeys]
    rfl
  rw [← henv, List.find?_map] at hfind
  obtain ⟨⟨envp, target⟩, hfound, htarget⟩ := Option.map_eq_some_iff.1 hfind
  simp only at htarget
  subst htarget
  have hmem := List.mem_of_find?_eq_some hfound
  have hstr : CStrAt mem envp (LD_PRELOAD ++ EQUALS :: (pre ++ SYSCALLBUF_LIB_FILENAME_PADDED ++ tail)) :=
    hs.str _ hmem
  have hloop : env_loop arch mem (LD_PRELOAD ++ [EQUALS])
      (wrapping_add sp ((1 + get_remote_ptr mem arch sp + 1) * Record.word_size arch)) =
        some (some (envp, LD_PRELOAD ++ EQUALS :: (pre ++ SYSCALLBUF_LIB_FILENAME_PADDED ++ tail))) := by
    rw [env_loop_first hs (by simp), ← hfound]
    rfl
  -- the variable, cut at the placeholder
  have hsplit : LD_PRELOAD ++ EQUALS :: (pre ++ SYSCALLBUF_LIB_FILENAME_PADDED ++ tail) =
      (LD_PRELOAD ++ EQUALS :: pre) ++ (SYSCALLBUF_LIB_FILENAME_PADDED ++ tail) := by simp
  have hprefix_len : (LD_PRELOAD ++ EQUALS :: pre).length = lib_pos := by simp [lib_pos]; omega
  have hlib : find (LD_PRELOAD ++ EQUALS :: (pre ++ SYSCALLBUF_LIB_FILENAME_PADDED ++ tail))
      SYSCALLBUF_LIB_FILENAME_BASE = some lib_pos := by
    have hassoc : LD_PRELOAD ++ EQUALS :: (pre ++ SYSCALLBUF_LIB_FILENAME_PADDED ++ tail) =
        (LD_PRELOAD ++ EQUALS :: pre ++ SYSCALLBUF_LIB_FILENAME_BASE) ++ ([46, 115, 111, 58, 58, 58] ++ tail) := by
      simp [SYSCALLBUF_LIB_FILENAME_PADDED_eq]
    rw [hassoc]
    exact find_append_of_find SYSCALLBUF_LIB_FILENAME_BASE_ne_nil hpre
  have hdrop : (LD_PRELOAD ++ EQUALS :: (pre ++ SYSCALLBUF_LIB_FILENAME_PADDED ++ tail)).drop lib_pos =
      SYSCALLBUF_LIB_FILENAME_PADDED ++ tail := by
    rw [hsplit, ← hprefix_len, List.drop_left]
  -- the placeholder's colons, at 15, 16 and 17 of it, make the run reach its end
  have hcolon_at : ∀ i, 15 ≤ i → i < 18 →
      (LD_PRELOAD ++ EQUALS :: (pre ++ SYSCALLBUF_LIB_FILENAME_PADDED ++ tail))[lib_pos + i]? = some COLON := by
    intro i hi1 hi2
    rw [hsplit, List.getElem?_append_right (by omega), hprefix_len, Nat.add_sub_cancel_left,
      List.getElem?_append_left (by omega)]
    exact SYSCALLBUF_LIB_FILENAME_PADDED_colon hi1 hi2
  have hcolon : ∀ next, find ((LD_PRELOAD ++ EQUALS :: (pre ++ SYSCALLBUF_LIB_FILENAME_PADDED ++ tail)).drop lib_pos)
      [COLON] = some next → lib_pos + SYSCALLBUF_LIB_FILENAME_PADDED.length ≤
        colon_run (LD_PRELOAD ++ EQUALS :: (pre ++ SYSCALLBUF_LIB_FILENAME_PADDED ++ tail)) (next + lib_pos) + 1 := by
    intro next hnext
    rw [hdrop, find_append_of_find (by simp) find_padded_colon] at hnext
    cases hnext
    have hrun := @le_colon_run (LD_PRELOAD ++ EQUALS :: (pre ++ SYSCALLBUF_LIB_FILENAME_PADDED ++ tail))
      (lib_pos + 16 + 1)
    rw [Nat.add_comm 15, colon_run_of_colon (n := lib_pos + 15) (hcolon_at 16 (by omega) (by omega)),
      colon_run_of_colon (n := lib_pos + 16) (hcolon_at 17 (by omega) (by omega))]
    rw [hpad_len]
    omega
  have hlen : (LD_PRELOAD ++ EQUALS :: (pre ++ SYSCALLBUF_LIB_FILENAME_PADDED ++ tail)).length =
      lib_pos + 18 + tail.length := by
    simp [lib_pos, hpad_len]
    omega
  have hrun : setup_preload_library_path arch sp mem = some (write_bytes mem (envp + lib_pos)
      ((if Record.word_size arch < 8 then SYSCALLBUF_LIB_FILENAME_32 else SYSCALLBUF_LIB_FILENAME_PADDED).take
        SYSCALLBUF_LIB_FILENAME_PADDED.length)) :=
    setup_library_path_arch_of_room hloop hlib (by omega) (by omega) hcolon
      (by rw [lib_name_eq_preload_library, length_preload_library]; omega) (by have := hstr.below_top; omega)
  rw [lib_name_eq_preload_library, hpad_len, List.take_of_length_le (by rw [length_preload_library])] at hrun
  exact ⟨envp, hmem, hrun⟩

/-- On the environment the record session builds, LD_PRELOAD afterwards names
the library of the task's architecture where the placeholder was, followed by
what followed it, and nothing else in memory changes.  The base name must not
occur in the variable before the placeholder. -/
theorem setup_preload_library_path_of_injected {arch : SupportedArch} {sp : Nat} {mem : Nat → UInt8}
    {env extra : List (List UInt8 × List UInt8)} {pre : List UInt8} {envs : List (Nat × List UInt8)}
    (hkeys : ∀ kv ∈ env, EQUALS ∉ kv.1)
    (hpre : find (LD_PRELOAD ++ EQUALS :: pre ++ SYSCALLBUF_LIB_FILENAME_BASE) SYSCALLBUF_LIB_FILENAME_BASE =
      some (LD_PRELOAD.length + 1 + pre.length))
    (hs : ExecStack arch mem sp envs)
    (henv : envs.map Prod.snd =
      flat_env (inject_ld_helper_library env LD_PRELOAD (pre ++ SYSCALLBUF_LIB_FILENAME_PADDED) ++ extra)) :
    ∃ envp, (envp, LD_PRELOAD ++ EQUALS :: (pre ++ SYSCALLBUF_LIB_FILENAME_PADDED ++ old_value_tail env LD_PRELOAD)) ∈ envs ∧
      setup_preload_library_path arch sp mem =
        some (write_bytes mem (envp + (LD_PRELOAD.length + 1 + pre.length)) (preload_library arch)) ∧
      CStrAt (write_bytes mem (envp + (LD_PRELOAD.length + 1 + pre.length)) (preload_library arch)) envp
        (LD_PRELOAD ++ EQUALS :: (pre ++ preload_library arch ++ old_value_tail env LD_PRELOAD)) := by
  obtain ⟨envp, hmem, hrun⟩ := setup_preload_library_path_run_of_injected hkeys hpre hs henv
  refine ⟨envp, hmem, hrun, ?_⟩
  -- the new variable: the same bytes around the library's name
  have hprefix_len : (LD_PRELOAD ++ EQUALS :: pre).length = LD_PRELOAD.length + 1 + pre.length := by simp; omega
  have hwrite := CStrAt.write_inside (a := LD_PRELOAD ++ EQUALS :: pre) (b := SYSCALLBUF_LIB_FILENAME_PADDED)
    (c := old_value_tail env LD_PRELOAD) (d := preload_library arch) (by simpa using hs.str _ hmem)
    (by rw [length_preload_library, length_SYSCALLBUF_LIB_FILENAME_PADDED]) (zero_not_mem_preload_library arch)
  rw [hprefix_len] at hwrite
  simpa using hwrite

/-- A library directory, `/l/`. -/
def preload_dir : List UInt8 := [47, 108, 47]

/-- The environment rd runs in: `HOME=/h`, and `LD_PRELOAD=/x.so`, which the
session keeps after the library it injects. -/
def preload_env : List (List UInt8 × List UInt8) :=
  [([72, 79, 77, 69], [47, 104]), (LD_PRELOAD, [47, 120, 46, 115, 111])]

/-- A variable after the injected ones, `A=b`. -/
def preload_extra : List (List UInt8 × List UInt8) := [([65], [98])]

/-- The variables of the spawned task, at `0x2000`, `0x2100` and `0x2200`. -/
def preload_envs : List (Nat × List UInt8) :=
  [(0x2000, [72, 79, 77, 69] ++ EQUALS :: [47, 104]),
    (0x2100, LD_PRELOAD ++ EQUALS :: (preload_dir ++ SYSCALLBUF_LIB_FILENAME_PADDED ++ COLON :: [47, 120, 46, 115, 111])),
    (0x2200, [65] ++ EQUALS :: [98])]

/-- An x86 task's stack at `0x1000` with no arguments and the variables of
`preload_envs`. -/
def preload_env_memory : Nat → UInt8 :=
  (preload_envs.foldl (fun mem e => write_bytes mem e.1 e.2)
    (write_bytes (fun _ => 0) 0x1008 [0x00, 0x20, 0, 0, 0x00, 0x21, 0, 0, 0x00, 0x22, 0, 0]))

theorem preload_env_stack : ExecStack .X86 preload_env_memory 0x1000 preload_envs where
  below_top := by
    simp only [preload_env_memory, preload_envs, LD_PRELOAD_eq, SYSCALLBUF_LIB_FILENAME_PADDED_eq,
      SYSCALLBUF_LIB_FILENAME_BASE_eq]
    decide
  ptr := by
    simp only [preload_env_memory, preload_envs, LD_PRELOAD_eq, SYSCALLBUF_LIB_FILENAME_PADDED_eq,
      SYSCALLBUF_LIB_FILENAME_BASE_eq]
    decide
  ptr_ne := by simp [preload_envs]
  str e he := by
    simp only [preload_env_memory, preload_envs, LD_PRELOAD_eq, SYSCALLBUF_LIB_FILENAME_PADDED_eq,
      SYSCALLBUF_LIB_FILENAME_BASE_eq] at he ⊢
    simp only [List.mem_cons, List.not_mem_nil, or_false] at he
    rcases he with rfl | rfl | rfl <;> exact ⟨by decide, by decide, by decide, by decide⟩
  null := by
    simp only [preload_env_memory, preload_envs, LD_PRELOAD_eq, SYSCALLBUF_LIB_FILENAME_PADDED_eq,
      SYSCALLBUF_LIB_FILENAME_BASE_eq]
    decide

/-- The session's environment, with `LD_PRELOAD` already set and a variable
before and after it, on an x86 task. -/
theorem setup_preload_library_path_over_old_value :
    ∃ envp, (envp, LD_PRELOAD ++ EQUALS :: (preload_dir ++ SYSCALLBUF_LIB_FILENAME_PADDED ++
        old_value_tail preload_env LD_PRELOAD)) ∈ preload_envs ∧
      setup_preload_library_path .X86 0x1000 preload_env_memory =
        some (write_bytes preload_env_memory (envp + (LD_PRELOAD.length + 1 + preload_dir.length))
          (preload_library .X86)) ∧
      CStrAt (write_bytes preload_env_memory (envp + (LD_PRELOAD.length + 1 + preload_dir.length))
          (preload_library .X86)) envp
        (LD_PRELOAD ++ EQUALS :: (preload_dir ++ preload_library .X86 ++ old_value_tail preload_env LD_PRELOAD)) :=
  @setup_preload_library_path_of_injected .X86 0x1000 preload_env_memory preload_env preload_extra preload_dir
    preload_envs
    (by simp only [preload_env, LD_PRELOAD_eq]; decide)
    (by rw [LD_PRELOAD_eq, SYSCALLBUF_LIB_FILENAME_BASE_eq]; decide) preload_env_stack
    (by simp only [preload_envs, preload_env, preload_extra, LD_PRELOAD_eq, SYSCALLBUF_LIB_FILENAME_PADDED_eq,
      SYSCALLBUF_LIB_FILENAME_BASE_eq]; decide)

/-- Whatever the memory, `setup_preload_library_path` leaves it as it was, or
writes the task's library name over 18 bytes of the variable its walk over the
environment pointers finds first that begins with `LD_PRELOAD=`, from the first
occurrence of the base name on: the variable stays a C string of its length,
and no other byte changes.  On a stack as `execve` leaves it, that variable is
the first of the environment that begins with `LD_PRELOAD=`. -/
theorem setup_preload_library_path_writes_inside {arch : SupportedArch} {sp : Nat} {mem mem' : Nat → UInt8}
    (h : setup_preload_library_path arch sp mem = some mem') :
    mem' = mem ∨ ∃ envp env lib_pos,
      env_loop arch mem (LD_PRELOAD ++ [EQUALS])
        (wrapping_add sp ((1 + get_remote_ptr mem arch sp + 1) * Record.word_size arch)) = some (some (envp, env)) ∧
      (∀ envs, ExecStack arch mem sp envs →
        envs.find? (fun e => (LD_PRELOAD ++ [EQUALS]).isPrefixOf e.2) = some (envp, env)) ∧
      CStrAt mem envp env ∧ LD_PRELOAD ++ [EQUALS] <+: env ∧
      find env SYSCALLBUF_LIB_FILENAME_BASE = some lib_pos ∧ lib_pos + 18 ≤ env.length ∧
      mem' = write_bytes mem (envp + lib_pos) (preload_library arch) ∧
      CStrAt mem' envp (env.take lib_pos ++ preload_library arch ++ env.drop (lib_pos + 18)) := by
  rcases setup_library_path_arch_cases h with hsame | ⟨envp, env, lib_pos, hloop, hlib, hend, rfl⟩
  · exact .inl hsame
  refine .inr ⟨envp, env, lib_pos, ?_⟩
  obtain ⟨hstr, hpre⟩ := cstr_at_of_env_loop (by simp) _ hloop
  have hpad_len := length_SYSCALLBUF_LIB_FILENAME_PADDED
  -- the base name lies inside the variable, so the sum below does not wrap
  have hbase_in : lib_pos + SYSCALLBUF_LIB_FILENAME_BASE.length ≤ env.length := by
    have := ((find_eq_some_iff SYSCALLBUF_LIB_FILENAME_BASE_ne_nil).1 hlib).1.length_le
    simp only [List.length_drop] at this
    have := List.length_pos_iff.2 SYSCALLBUF_LIB_FILENAME_BASE_ne_nil
    omega
  have hpre_len := hpre.length_le
  have htop := hstr.below_top
  unfold page_size at htop
  have hroom : wrapping_sub (lib_pos + SYSCALLBUF_LIB_FILENAME_PADDED.length) 1 = lib_pos + 17 := by
    rw [hpad_len, wrapping_sub_one (by omega) (by omega)]
    omega
  rw [hroom] at hend
  have hfit : lib_pos + 18 ≤ env.length := by
    have : 0 < (LD_PRELOAD ++ [EQUALS]).length := by simp
    omega
  rw [lib_name_eq_preload_library, hpad_len, List.take_of_length_le (by rw [length_preload_library])]
  refine ⟨hloop, fun envs hs => Option.some.inj ((env_loop_first hs (by simp)).symm.trans hloop), hstr, hpre, hlib,
    hfit, rfl, ?_⟩
  -- the variable, cut around the 18 bytes written
  have hsplit : env = env.take lib_pos ++ (env.drop lib_pos).take 18 ++ env.drop (lib_pos + 18) := by
    rw [List.append_assoc, ← List.drop_drop, List.take_append_drop, List.take_append_drop]
  have hwrite := CStrAt.write_inside (d := preload_library arch) (hsplit ▸ hstr)
    (by rw [length_preload_library]; simp; omega) (zero_not_mem_preload_library arch)
  rwa [List.length_take_of_le (by omega)] at hwrite

theorem setup_preload_library_path_writes_inside_x86_task :
    ∃ mem', setup_preload_library_path .X86 0x1000 preload_env_memory = some mem' ∧
      (mem' = preload_env_memory ∨ ∃ envp env lib_pos,
        env_loop .X86 preload_env_memory (LD_PRELOAD ++ [EQUALS])
          (wrapping_add 0x1000 ((1 + get_remote_ptr preload_env_memory .X86 0x1000 + 1) * Record.word_size .X86)) =
            some (some (envp, env)) ∧
        (∀ envs, ExecStack .X86 preload_env_memory 0x1000 envs →
          envs.find? (fun e => (LD_PRELOAD ++ [EQUALS]).isPrefixOf e.2) = some (envp, env)) ∧
        CStrAt preload_env_memory envp env ∧ LD_PRELOAD ++ [EQUALS] <+: env ∧
        find env SYSCALLBUF_LIB_FILENAME_BASE = some lib_pos ∧ lib_pos + 18 ≤ env.length ∧
        mem' = write_bytes preload_env_memory (envp + lib_pos) (preload_library .X86) ∧
        CStrAt mem' envp (env.take lib_pos ++ preload_library .X86 ++ env.drop (lib_pos + 18))) := by
  have hpre : find (LD_PRELOAD ++ EQUALS :: preload_dir ++ SYSCALLBUF_LIB_FILENAME_BASE) SYSCALLBUF_LIB_FILENAME_BASE =
      some (LD_PRELOAD.length + 1 + preload_dir.length) := by
    rw [LD_PRELOAD_eq, SYSCALLBUF_LIB_FILENAME_BASE_eq]
    decide
  obtain ⟨envp, -, hrun⟩ := @setup_preload_library_path_run_of_injected .X86 0x1000 preload_env_memory preload_env
    preload_extra _ _ (by simp only [preload_env, LD_PRELOAD_eq]; decide) hpre preload_env_stack
    (by simp only [preload_envs, preload_env, preload_extra, LD_PRELOAD_eq, SYSCALLBUF_LIB_FILENAME_PADDED_eq,
      SYSCALLBUF_LIB_FILENAME_BASE_eq]; decide)
  exact ⟨_, hrun, setup_preload_library_path_writes_inside hrun⟩

end RdReplay
