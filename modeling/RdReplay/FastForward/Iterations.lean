/-
  FastForward/Iterations.lean --- how many iterations of a REP string
  instruction fast-forwarding runs in one go.

  Source: `fast_forward.rs`: the bounding part of the loop of
  `fast_forward_through_instruction` (from `cur_cx` to the watchpoint loop),
  `mem_intersect` and `bound_iterations_for_watchpoint`.

  THE COUNT starts at `cur_cx - 1` (the last iteration is never run) and only
  ever goes down: each stop state that the current loop can reach lowers it
  to `cur_cx - dest_cx - 1`, and each watchpoint lowers it to the number of
  iterations before DI (or SI) first touches the watched bytes.  Every step is
  `iterations = min(iterations, bound)`, so the whole count is a lowering fold
  (`foldl_lowering`), and each property of the count is proved once for one
  step.

  WRAPAROUND.  `RemotePtr` arithmetic wraps, and `mem_intersect` checks that
  its sums do not wrap only by `debug_assert!`, which a release build skips.
  The accesses of the instruction are stated as integer intervals, and the
  results hold when the first access of each register and each watch end below
  `2 ^ 64` (`watch_bound_safe`).  A backward instruction whose first access
  crosses `2 ^ 64` is the case where they fail (`backward_access_across_top`).
-/
import RdReplay.FastForward.StringInstruction
import RdReplay.Timeline.Basic

set_option autoImplicit false

namespace RdReplay

namespace FastForward

/-! ## Lowering folds -/

section LoweringFold

variable {α : Type} {f : Nat → α → Nat}

/-- A fold whose every step can only lower the count ends at or below where
it started. -/
theorem foldl_le_of_lowering (hf : ∀ n x, f n x ≤ n) :
    ∀ (l : List α) (n : Nat), l.foldl f n ≤ n
  | [], _ => le_rfl
  | x :: l, n => (foldl_le_of_lowering hf l (f n x)).trans (hf n x)

/-- A property that is kept when the count goes down, and that the step at
one element establishes whatever count it is given, holds of the fold. -/
theorem foldl_lowering {P : Nat → Prop} (hP : ∀ {a b}, a ≤ b → P b → P a)
    (hf : ∀ n x, f n x ≤ n) {x : α} (hPx : ∀ n, P (f n x)) :
    ∀ {l : List α}, x ∈ l → ∀ n, P (l.foldl f n)
  | y :: l, hx, n => by
    rw [List.foldl_cons]
    rcases List.mem_cons.1 hx with rfl | hx
    · exact hP (foldl_le_of_lowering hf l _) (hPx n)
    · exact foldl_lowering hP hf hPx hx _

end LoweringFold

/-! ## The model -/

/-- The registers the bounding reads: a stop state's `ip` and `cx`, and the
current state's `cx`, `si`, `di` and direction flag. -/
structure Registers where
  ip : Nat
  cx : Nat
  si : Nat
  di : Nat
  df_flag : Bool
  deriving DecidableEq, Repr

/-- `mem_intersect`, with the wrapping `RemotePtr` sums of a release build. -/
def mem_intersect (a1 s1 a2 s2 : Nat) : Bool :=
  decide (max a1 a2 < min (wrapping_add a1 s1) (wrapping_add a2 s2))

/-- `bound_iterations_for_watchpoint`: `iterations` lowered to the number of
iterations that `reg` can take before its access touches `watch`. -/
def bound_iterations_for_watchpoint (regs : Registers) (reg : Nat) (decoded : DecodedInstruction)
    (watch : WatchConfig) (iterations : Nat) : Nat :=
  -- A zero-sized watch can never trigger.
  if watch.num_bytes = 0 then iterations
  else
    let size := decoded.operand_size
    if mem_intersect reg size watch.addr watch.num_bytes then 0
    else if !regs.df_flag then
      -- Forward: the first byte of the watch is hit; a watch below is assumed unreachable.
      if watch.addr < reg then iterations
      else min iterations (wrapping_sub watch.addr reg / size)
    else
      -- Backward: the last byte of the watch is hit; a watch above is assumed unreachable.
      if reg < watch.addr then iterations
      else min iterations (wrapping_add (wrapping_sub reg (wrapping_add watch.addr watch.num_bytes) / size) 1)

/-- One turn of the loop over the stop states: `iterations` lowered so that a
state of this loop of the instruction is not run past. -/
def bound_iterations_for_state (ip limit_ip cur_cx : Nat) (iterations : Nat) (state : Registers) : Nat :=
  if state.ip = ip then
    -- `cx == 0` is entering the instruction, and a larger `cx` is another loop.
    if state.cx = 0 then iterations
    else if state.cx ≥ cur_cx then iterations
    else min iterations (cur_cx - state.cx - 1)
  else if state.ip = limit_ip then
    if state.cx ≥ cur_cx then iterations
    else min iterations (cur_cx - state.cx - 1)
  else iterations

/-- One watchpoint of the loop over `all_watchpoints`: SI is bounded only when
the instruction reads it, DI always. -/
def bound_iterations_for_watch (regs : Registers) (decoded : DecodedInstruction) (iterations : Nat)
    (watch : WatchConfig) : Nat :=
  let iterations :=
    if decoded.uses_si then bound_iterations_for_watchpoint regs regs.si decoded watch iterations
    else iterations
  bound_iterations_for_watchpoint regs regs.di decoded watch iterations

/-- The iteration count of one turn of `fast_forward_through_instruction`'s
loop at `ip`: `none` where `cx` is zero and the instruction is skipped.  The
stop states are `states` and then, once, `extra_state_to_avoid`. -/
def fast_forward_iterations (regs : Registers) (ip : Nat) (decoded : DecodedInstruction)
    (states : List Registers) (extra_state_to_avoid : Option Registers)
    (watchpoints : List WatchConfig) : Option Nat :=
  let cur_cx := regs.cx
  if cur_cx = 0 then none
  else
    let limit_ip := wrapping_add ip decoded.length
    let iterations := (states ++ extra_state_to_avoid.toList).foldl
      (bound_iterations_for_state ip limit_ip cur_cx) (cur_cx - 1)
    some (watchpoints.foldl (bound_iterations_for_watch regs decoded) iterations)

/-! ## What an iteration touches -/

/-- The first byte the `k`-th iteration accesses through `reg`: `k` operands
up, or down when the direction flag is set.  An integer: the instruction's
addresses without wraparound. -/
def access_start (df_flag : Bool) (reg size k : Nat) : Int :=
  if df_flag then (reg : Int) - ((k * size : Nat) : Int) else (reg : Int) + ((k * size : Nat) : Int)

/-- The `k`-th access through `reg` shares a byte with the watched range. -/
def Touches (df_flag : Bool) (reg size k : Nat) (watch : WatchConfig) : Prop :=
  ∃ b : Int, access_start df_flag reg size k ≤ b ∧ b < access_start df_flag reg size k + size ∧
    watch.addr ≤ b ∧ b < watch.addr + watch.num_bytes

/-- Two integer intervals share a point exactly when the larger start is below
the smaller end. -/
theorem touches_iff {df_flag : Bool} {reg size k : Nat} {watch : WatchConfig} :
    Touches df_flag reg size k watch ↔
      max (access_start df_flag reg size k) watch.addr <
        min (access_start df_flag reg size k + size) (watch.addr + watch.num_bytes) := by
  constructor
  · rintro ⟨b, h1, h2, h3, h4⟩
    omega
  · intro h
    exact ⟨max (access_start df_flag reg size k) watch.addr, by omega, by omega, by omega, by omega⟩

/-- Without wraparound `mem_intersect` is the test of the first access. -/
theorem mem_intersect_iff (df_flag : Bool) {reg size : Nat} {watch : WatchConfig}
    (hreg : reg + size < 2 ^ 64) (hwatch : watch.addr + watch.num_bytes < 2 ^ 64) :
    mem_intersect reg size watch.addr watch.num_bytes = true ↔ Touches df_flag reg size 0 watch := by
  rw [touches_iff, mem_intersect, decide_eq_true_iff, wrapping_add_of_lt hreg, wrapping_add_of_lt hwatch]
  cases df_flag <;> simp only [access_start, Nat.zero_mul, Int.natCast_zero, add_zero, sub_zero,
    Bool.false_eq_true, if_false, if_true] <;> omega

/-! ## One watchpoint -/

section Watch

variable {regs : Registers} {reg : Nat} {decoded : DecodedInstruction} {watch : WatchConfig}

/-- Bounding by a watchpoint only lowers the count. -/
theorem bound_iterations_for_watchpoint_le (iterations : Nat) :
    bound_iterations_for_watchpoint regs reg decoded watch iterations ≤ iterations := by
  simp only [bound_iterations_for_watchpoint]
  split_ifs <;> omega

/-- Backward, the number of iterations before the watch, when nothing wraps. -/
theorem backward_steps_eq {size : Nat} (hn : 0 < watch.num_bytes)
    (hend : watch.addr + watch.num_bytes ≤ reg) (hreg : reg < 2 ^ 64) :
    wrapping_add (wrapping_sub reg (wrapping_add watch.addr watch.num_bytes) / size) 1 =
      (reg - (watch.addr + watch.num_bytes)) / size + 1 := by
  rw [wrapping_add_of_lt (a := watch.addr) (by omega), wrapping_sub_of_le hend hreg]
  apply wrapping_add_of_lt
  have := Nat.div_le_self (reg - (watch.addr + watch.num_bytes)) size
  omega

/-- The accesses the bound lets run miss the watch: the `k`-th access is clear
for every `k` below the count it leaves. -/
theorem watch_bound_safe (hsize : 0 < decoded.operand_size)
    (hreg : reg + decoded.operand_size < 2 ^ 64) (hwatch : watch.addr + watch.num_bytes < 2 ^ 64)
    (iterations : Nat) :
    ∀ k < bound_iterations_for_watchpoint regs reg decoded watch iterations,
      ¬ Touches regs.df_flag reg decoded.operand_size k watch := by
  intro k hk htouch
  by_cases h0 : watch.num_bytes = 0
  · obtain ⟨b, -, -, h3, h4⟩ := htouch
    omega
  by_cases hi : mem_intersect reg decoded.operand_size watch.addr watch.num_bytes = true
  · simp only [bound_iterations_for_watchpoint, h0, hi, if_true, if_false] at hk
    omega
  -- from here on the first access misses the watch
  have hfirst : ¬ Touches regs.df_flag reg decoded.operand_size 0 watch :=
    fun h => hi ((mem_intersect_iff regs.df_flag hreg hwatch).2 h)
  rw [touches_iff] at htouch hfirst
  simp only [bound_iterations_for_watchpoint, h0, hi, if_false, Bool.false_eq_true] at hk
  cases hdf : regs.df_flag with
  | false =>
    simp only [access_start, hdf, Bool.false_eq_true, if_false, Nat.zero_mul, Int.natCast_zero,
      add_zero] at htouch hfirst
    simp only [hdf, Bool.not_false, if_true] at hk
    by_cases hlt : watch.addr < reg
    -- a watch below: every access from the first one up is above it
    · omega
    -- towards the watch: `k + 1` operands still end at or below its first byte
    · rw [if_neg hlt, wrapping_sub_of_le (by omega) (by omega)] at hk
      have hk' : (k + 1) * decoded.operand_size ≤ watch.addr - reg :=
        (Nat.le_div_iff_mul_le hsize).1 (by omega)
      rw [Nat.succ_mul] at hk'
      omega
  | true =>
    simp only [access_start, hdf, if_true, Nat.zero_mul, Int.natCast_zero, sub_zero] at htouch hfirst
    simp only [hdf, Bool.not_true, Bool.false_eq_true, if_false] at hk
    by_cases hgt : reg < watch.addr
    -- a watch above: every access from the first one down is below it
    · omega
    -- towards the watch: `k` operands down still start at or above its end
    · rw [if_neg hgt, backward_steps_eq (by omega) (by omega) (by omega)] at hk
      have hk' : k * decoded.operand_size ≤ reg - (watch.addr + watch.num_bytes) :=
        (Nat.le_div_iff_mul_le hsize).1 (by omega)
      omega

/-- The bound is tight: where a watchpoint lowers the count, the access of the
iteration at the new count touches it. -/
theorem watch_bound_tight (hsize : 0 < decoded.operand_size)
    (hreg : reg + decoded.operand_size < 2 ^ 64) (hwatch : watch.addr + watch.num_bytes < 2 ^ 64)
    {iterations : Nat} (hlt : bound_iterations_for_watchpoint regs reg decoded watch iterations < iterations) :
    Touches regs.df_flag reg decoded.operand_size
      (bound_iterations_for_watchpoint regs reg decoded watch iterations) watch := by
  by_cases h0 : watch.num_bytes = 0
  · simp only [bound_iterations_for_watchpoint, h0, if_true] at hlt
    omega
  by_cases hi : mem_intersect reg decoded.operand_size watch.addr watch.num_bytes = true
  -- the first access meets the watch
  · simp only [bound_iterations_for_watchpoint, h0, hi, if_true, if_false]
    exact (mem_intersect_iff regs.df_flag hreg hwatch).1 hi
  have hfirst : ¬ Touches regs.df_flag reg decoded.operand_size 0 watch :=
    fun h => hi ((mem_intersect_iff regs.df_flag hreg hwatch).2 h)
  rw [touches_iff] at hfirst
  simp only [bound_iterations_for_watchpoint, h0, hi, if_false, Bool.false_eq_true] at hlt ⊢
  rw [touches_iff]
  cases hdf : regs.df_flag with
  | false =>
    simp only [hdf, Bool.not_false, if_true] at hlt ⊢
    by_cases hb : watch.addr < reg
    · rw [if_pos hb] at hlt
      omega
    -- the last whole operand before the watch's first byte
    · rw [if_neg hb, wrapping_sub_of_le (by omega) (by omega)] at hlt ⊢
      rw [min_eq_right (by omega)]
      have hlo := Nat.div_mul_le_self (watch.addr - reg) decoded.operand_size
      have hhi := Nat.lt_div_mul_add (a := watch.addr - reg) hsize
      simp only [access_start, Bool.false_eq_true, if_false]
      omega
  | true =>
    simp only [access_start, hdf, if_true, Nat.zero_mul, Int.natCast_zero, sub_zero] at hfirst
    simp only [hdf, Bool.not_true, Bool.false_eq_true, if_false] at hlt ⊢
    by_cases hb : reg < watch.addr
    · rw [if_pos hb] at hlt
      omega
    -- the first operand that reaches below the watch's end
    · rw [if_neg hb, backward_steps_eq (by omega) (by omega) (by omega)] at hlt ⊢
      rw [min_eq_right (by omega)]
      have hlo := Nat.div_mul_le_self (reg - (watch.addr + watch.num_bytes)) decoded.operand_size
      have hhi := Nat.lt_div_mul_add (a := reg - (watch.addr + watch.num_bytes)) hsize
      simp only [access_start, if_true, Nat.succ_mul]
      omega

end Watch

/-! ## The stop states and the whole count -/

section Count

variable {ip limit_ip cur_cx : Nat}

/-- Bounding by a stop state only lowers the count. -/
theorem bound_iterations_for_state_le (iterations : Nat) (state : Registers) :
    bound_iterations_for_state ip limit_ip cur_cx iterations state ≤ iterations := by
  unfold bound_iterations_for_state
  split_ifs <;> omega

/-- A state the current loop reaches, at the instruction or after it, leaves
at most `cur_cx - cx - 1` iterations. -/
theorem bound_iterations_for_state_of_reached {state : Registers}
    (hip : state.ip = ip ∨ state.ip = limit_ip) (hcx0 : 0 < state.cx) (hcx : state.cx < cur_cx)
    (iterations : Nat) :
    bound_iterations_for_state ip limit_ip cur_cx iterations state ≤ cur_cx - state.cx - 1 := by
  unfold bound_iterations_for_state
  split_ifs <;> omega

/-- Bounding by one watchpoint, through SI and DI, only lowers the count. -/
theorem bound_iterations_for_watch_le {regs : Registers} {decoded : DecodedInstruction}
    (iterations : Nat) (watch : WatchConfig) :
    bound_iterations_for_watch regs decoded iterations watch ≤ iterations := by
  have hsi : bound_iterations_for_watchpoint regs regs.si decoded watch iterations ≤ iterations :=
    bound_iterations_for_watchpoint_le _
  unfold bound_iterations_for_watch
  split_ifs
  · exact (bound_iterations_for_watchpoint_le _).trans hsi
  · exact bound_iterations_for_watchpoint_le _

/-- After one watchpoint's turn, the accesses of DI, and of SI where the
instruction reads it, miss that watch for every iteration the count leaves. -/
theorem watch_safe {regs : Registers} {decoded : DecodedInstruction} {watch : WatchConfig}
    (hsize : 0 < decoded.operand_size) (hdi : regs.di + decoded.operand_size < 2 ^ 64)
    (hsi : decoded.uses_si = true → regs.si + decoded.operand_size < 2 ^ 64)
    (hwatch : watch.addr + watch.num_bytes < 2 ^ 64) (iterations : Nat) :
    ∀ k < bound_iterations_for_watch regs decoded iterations watch,
      ¬ Touches regs.df_flag regs.di decoded.operand_size k watch ∧
        (decoded.uses_si = true → ¬ Touches regs.df_flag regs.si decoded.operand_size k watch) := by
  intro k hk
  refine ⟨watch_bound_safe hsize hdi hwatch _ k hk, fun hu => ?_⟩
  -- the DI turn runs on the count the SI turn left, and only lowers it
  have hle : bound_iterations_for_watchpoint regs regs.di decoded watch
      (bound_iterations_for_watchpoint regs regs.si decoded watch iterations) ≤
      bound_iterations_for_watchpoint regs regs.si decoded watch iterations :=
    bound_iterations_for_watchpoint_le _
  simp only [bound_iterations_for_watch, hu, if_true] at hk
  exact watch_bound_safe hsize (hsi hu) hwatch iterations k (by omega)

end Count

/-- What the count must guarantee at a REP string instruction at `ip` whose
current registers are `regs`: it leaves the last iteration, stops before every
stop state of the current loop, and lets no access of DI, or of SI where it is
read, touch a watch. -/
structure NeverOvershoots (regs : Registers) (ip : Nat) (decoded : DecodedInstruction)
    (states : List Registers) (watchpoints : List WatchConfig) (iterations : Nat) : Prop where
  le_cx : iterations ≤ regs.cx - 1
  before_states : ∀ state ∈ states,
    (state.ip = ip ∧ 0 < state.cx ∨ state.ip = wrapping_add ip decoded.length) →
      state.cx < regs.cx → state.cx < regs.cx - iterations
  before_watches : ∀ watch ∈ watchpoints, 0 < watch.num_bytes →
    watch.addr + watch.num_bytes < 2 ^ 64 → ∀ k < iterations,
      ¬ Touches regs.df_flag regs.di decoded.operand_size k watch ∧
        (decoded.uses_si = true → ¬ Touches regs.df_flag regs.si decoded.operand_size k watch)

/-- The count of one turn of the loop never overshoots, and each watchpoint's
bound is tight, whenever the first access of each register and each watch end
below `2 ^ 64`. -/
theorem fast_forward_iterations_never_overshoot (regs : Registers) (ip : Nat) (decoded : DecodedInstruction)
    (states : List Registers) (extra_state_to_avoid : Option Registers) (watchpoints : List WatchConfig)
    (hcx : 1 ≤ regs.cx) (hsize : 0 < decoded.operand_size)
    (hdi : regs.di + decoded.operand_size < 2 ^ 64)
    (hsi : decoded.uses_si = true → regs.si + decoded.operand_size < 2 ^ 64) :
    (∃ iterations,
      fast_forward_iterations regs ip decoded states extra_state_to_avoid watchpoints = some iterations ∧
        NeverOvershoots regs ip decoded (states ++ extra_state_to_avoid.toList) watchpoints iterations) ∧
    ∀ reg watch iterations, reg + decoded.operand_size < 2 ^ 64 →
      watch.addr + watch.num_bytes < 2 ^ 64 →
      bound_iterations_for_watchpoint regs reg decoded watch iterations < iterations →
      Touches regs.df_flag reg decoded.operand_size
        (bound_iterations_for_watchpoint regs reg decoded watch iterations) watch := by
  refine ⟨?_, fun reg watch iterations hreg hwatch hlt => watch_bound_tight hsize hreg hwatch hlt⟩
  -- the two folds: over the stop states, then over the watchpoints
  have hres : fast_forward_iterations regs ip decoded states extra_state_to_avoid watchpoints =
      some (watchpoints.foldl (bound_iterations_for_watch regs decoded)
        ((states ++ extra_state_to_avoid.toList).foldl
          (bound_iterations_for_state ip (wrapping_add ip decoded.length) regs.cx) (regs.cx - 1))) := by
    simp only [fast_forward_iterations, if_neg (show regs.cx ≠ 0 by omega)]
  set stop := (states ++ extra_state_to_avoid.toList).foldl
    (bound_iterations_for_state ip (wrapping_add ip decoded.length) regs.cx) (regs.cx - 1)
  have hwatch_le : watchpoints.foldl (bound_iterations_for_watch regs decoded) stop ≤ stop :=
    foldl_le_of_lowering bound_iterations_for_watch_le _ _
  have hstop_le : stop ≤ regs.cx - 1 := foldl_le_of_lowering bound_iterations_for_state_le _ _
  refine ⟨_, hres, ⟨by omega, ?_, ?_⟩⟩
  · -- a stop state: its own bound, carried through both folds
    intro state hstate hip hlt
    by_cases hcx0 : state.cx = 0
    · omega
    have hb : stop ≤ regs.cx - state.cx - 1 :=
      foldl_lowering (P := (· ≤ regs.cx - state.cx - 1)) (fun hab hb => le_trans hab hb)
        bound_iterations_for_state_le
        (bound_iterations_for_state_of_reached (by tauto) (by omega) hlt) hstate _
    omega
  · -- a watch: its turn's guarantee survives the later, lower turns
    intro watch hmem _ hwatch
    exact foldl_lowering
      (P := fun n => ∀ k < n, ¬ Touches regs.df_flag regs.di decoded.operand_size k watch ∧
        (decoded.uses_si = true → ¬ Touches regs.df_flag regs.si decoded.operand_size k watch))
      (fun hab h k hk => h k (lt_of_lt_of_le hk hab)) bound_iterations_for_watch_le
      (watch_safe hsize hdi hsi hwatch) hmem stop

/-- `rep movsd` with DI sixteen bytes below a watched dword runs four iterations. -/
def movsd_regs : Registers := ⟨0x1000, 10, 0x2000, 0x3000, false⟩

/-- `F3 A5`, `rep movsd`. -/
def rep_movsd : DecodedInstruction := ⟨4, 8, 2, false, true⟩

/-- A watched dword sixteen bytes above DI. -/
def dword_watch : WatchConfig := ⟨0x3010, 4, .WatchWrite⟩

theorem rep_movsd_stops_at_watched_dword :
    fast_forward_iterations movsd_regs 0x1000 rep_movsd [] none [dword_watch] = some 4 ∧
      1 ≤ movsd_regs.cx ∧ 0 < rep_movsd.operand_size ∧ movsd_regs.di + rep_movsd.operand_size < 2 ^ 64 ∧
      (rep_movsd.uses_si = true → movsd_regs.si + rep_movsd.operand_size < 2 ^ 64) ∧
      (∃ iterations, fast_forward_iterations movsd_regs 0x1000 rep_movsd [] none [dword_watch] = some iterations ∧
        NeverOvershoots movsd_regs 0x1000 rep_movsd ([] ++ (none : Option Registers).toList) [dword_watch] iterations) :=
  ⟨by decide, by decide, by decide, by decide, fun _ => by decide,
    (fast_forward_iterations_never_overshoot movsd_regs 0x1000 rep_movsd [] none [dword_watch]
      (by decide) (by decide) (by decide) (fun _ => by decide)).1⟩

/-- `rep stosq` going down from four bytes below the top of the address space. -/
def across_top_regs : Registers := ⟨0x1000, 2, 0, 2 ^ 64 - 4, true⟩

/-- `F3 48 AB`, `rep stosq`. -/
def rep_stosq : DecodedInstruction := ⟨8, 8, 3, false, false⟩

/-- A watched byte two below the top of the address space. -/
def top_byte_watch : WatchConfig := ⟨2 ^ 64 - 2, 1, .WatchWrite⟩

/-- The first store of `rep stosq` covers the watched byte, but its end wraps,
`mem_intersect` misses it, and the watch counts as above a backward
instruction: one iteration is run, through the watch. -/
theorem backward_access_across_top :
    fast_forward_iterations across_top_regs 0x1000 rep_stosq [] none [top_byte_watch] = some 1 ∧
      top_byte_watch.addr + top_byte_watch.num_bytes < 2 ^ 64 ∧
      Touches across_top_regs.df_flag across_top_regs.di rep_stosq.operand_size 0 top_byte_watch := by
  refine ⟨by decide, by decide, ⟨2 ^ 64 - 2, ?_, ?_, ?_, ?_⟩⟩ <;>
    simp only [access_start, across_top_regs, rep_stosq, top_byte_watch, if_true] <;> norm_num


end FastForward

end RdReplay
