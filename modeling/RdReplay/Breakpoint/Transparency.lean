/-
  Breakpoint/Transparency.lean --- breakpoints are invisible to the debugger's
  view of memory: the breakpoint state refines a specification that keeps only
  the references taken and the memory the program would see.

  THE SPECIFICATION.  `BreakpointSpec` counts, at each address and for each
  type, the adds not yet matched by a remove since the last
  `remove_all_breakpoints`, and keeps the bytes the program would see with no
  breakpoint set: writes from outside change them, breakpoint operations never
  do.

  THE RELATION.  `Refines mapped s g`: the map has an entry exactly where `g`
  counts a reference, with `g`'s counts and the program's byte; tracee memory
  holds `int3` there and the program's byte everywhere else.  Every operation
  keeps it, and none fails, when its arguments are sane (`BreakpointOp.Sane`):
  a remove is matched by an earlier add of its type, fewer than `2 ^ 32`
  references are held at an address, and an outside write covers mapped bytes
  below `2 ^ 64`.  A suspend is followed by its restore at once.
-/
import RdReplay.Breakpoint.Basic

set_option autoImplicit false

namespace RdReplay

/-- What the breakpoint state should amount to. -/
structure BreakpointSpec where
  /-- The adds of each type at each address not yet matched by a remove, since
  the last `remove_all_breakpoints`. -/
  refs : Nat → BreakpointType → Nat
  /-- The memory the program would see with no breakpoint set. -/
  prog : Nat → UInt8

namespace BreakpointSpec

variable (g : BreakpointSpec)

/-- The references held at `a`. -/
def total (a : Nat) : Nat := g.refs a .BkptNone + g.refs a .BkptInternal + g.refs a .BkptUser

/-- The breakpoint `g` expects at `a`; `counter` counts every reference that is
not a user's as internal. -/
def entry (a : Nat) : Breakpoint :=
  { internal_count := g.refs a .BkptNone + g.refs a .BkptInternal
    user_count := g.refs a .BkptUser
    overwritten_data := g.prog a }

/-- An add of type `t` at `a`. -/
def add_ref (a : Nat) (t : BreakpointType) : BreakpointSpec :=
  { g with refs := Function.update g.refs a (Function.update (g.refs a) t (g.refs a t + 1)) }

/-- A remove of type `t` at `a`. -/
def drop_ref (a : Nat) (t : BreakpointType) : BreakpointSpec :=
  { g with refs := Function.update g.refs a (Function.update (g.refs a) t (g.refs a t - 1)) }

/-- Every reference at `a` dropped. -/
def clear (a : Nat) : BreakpointSpec :=
  { g with refs := Function.update g.refs a (fun _ => 0) }

/-- Every reference dropped. -/
def clear_all : BreakpointSpec := { g with refs := fun _ _ => 0 }

/-- A write of `data` at `addr` from outside. -/
def write (addr : Nat) (data : List UInt8) : BreakpointSpec :=
  { g with prog := write_bytes g.prog addr data }

/-- The specification at the start: no reference, and the program's memory. -/
def init (prog : Nat → UInt8) : BreakpointSpec := { refs := fun _ _ => 0, prog }

/-- What one operation does to the specification, on a tracee whose mapped
addresses are `mapped`: an add takes a reference where `add_breakpoint` can
read the byte or a breakpoint is already set. -/
def step (mapped : Nat → Bool) (g : BreakpointSpec) : BreakpointOp → BreakpointSpec
  | .add_breakpoint addr t =>
    if 0 < g.total addr.toNat ∨ mapped addr.toNat = true then g.add_ref addr.toNat t else g
  | .remove_breakpoint addr t => g.drop_ref addr.toNat t
  | .remove_all_breakpoints => g.clear_all
  | .suspend_restore _ => g
  | .write addr data => g.write addr.toNat data

def run (mapped : Nat → Bool) (g : BreakpointSpec) : List BreakpointOp → BreakpointSpec
  | [] => g
  | op :: ops => (g.step mapped op).run mapped ops

/-- The arguments of an operation are sane: a remove is matched by an earlier
add of its type since the last `remove_all_breakpoints`, the references at an
address fit in the `u32` counters, and a write does not wrap around the address
space. -/
def Sane (g : BreakpointSpec) : BreakpointOp → Prop
  | .add_breakpoint addr _ => g.total addr.toNat + 1 < 2 ^ 32
  | .remove_breakpoint addr t => 0 < g.refs addr.toNat t
  | .remove_all_breakpoints => True
  | .suspend_restore _ => True
  | .write addr data => addr.toNat + data.length < 2 ^ 64

/-- Every operation of a sequence is sane where it is run. -/
def SaneRun (mapped : Nat → Bool) : BreakpointSpec → List BreakpointOp → Prop
  | _, [] => True
  | g, op :: ops => g.Sane op ∧ (g.step mapped op).SaneRun mapped ops

instance decSane : ∀ (g : BreakpointSpec) (op : BreakpointOp), Decidable (g.Sane op)
  | _, .add_breakpoint _ _ => inferInstanceAs (Decidable (_ < _))
  | _, .remove_breakpoint _ _ => inferInstanceAs (Decidable (_ < _))
  | _, .remove_all_breakpoints => inferInstanceAs (Decidable True)
  | _, .suspend_restore _ => inferInstanceAs (Decidable True)
  | _, .write _ _ => inferInstanceAs (Decidable (_ < _))

instance decSaneRun (mapped : Nat → Bool) :
    ∀ (g : BreakpointSpec) (ops : List BreakpointOp), Decidable (g.SaneRun mapped ops)
  | _, [] => inferInstanceAs (Decidable True)
  | g, op :: ops =>
    have := decSaneRun mapped (g.step mapped op) ops
    inferInstanceAs (Decidable (_ ∧ _))

variable {g} {a b : Nat} {t : BreakpointType}

@[simp] theorem add_ref_prog : (g.add_ref a t).prog = g.prog := rfl
@[simp] theorem drop_ref_prog : (g.drop_ref a t).prog = g.prog := rfl
@[simp] theorem clear_prog : (g.clear a).prog = g.prog := rfl

theorem add_ref_refs_of_ne (h : b ≠ a) : (g.add_ref a t).refs b = g.refs b := by
  simp [add_ref, h]

theorem drop_ref_refs_of_ne (h : b ≠ a) : (g.drop_ref a t).refs b = g.refs b := by
  simp [drop_ref, h]

theorem clear_refs_of_ne (h : b ≠ a) : (g.clear a).refs b = g.refs b := by
  simp [clear, h]

theorem total_add_ref : (g.add_ref a t).total a = g.total a + 1 := by
  cases t <;> simp [total, add_ref, Function.update] <;> omega

theorem total_drop_ref (h : 0 < g.refs a t) : (g.drop_ref a t).total a = g.total a - 1 := by
  cases t <;> simp [total, drop_ref, Function.update] <;> omega

@[simp] theorem total_clear : (g.clear a).total a = 0 := by
  simp [total, clear]

@[simp] theorem write_total (addr : Nat) (data : List UInt8) :
    (g.write addr data).total = g.total := rfl

theorem write_entry (addr : Nat) (data : List UInt8) :
    (g.write addr data).entry a = { g.entry a with overwritten_data := write_bytes g.prog addr data a } :=
  rfl

theorem total_clear_of_ne (h : b ≠ a) : (g.clear a).total b = g.total b := by
  simp only [total, clear_refs_of_ne h]

/-- Clearing a list of addresses clears exactly those. -/
theorem foldl_clear (ks : List Nat) (g : BreakpointSpec) :
    ks.foldl (fun g k => g.clear k) g =
      { g with refs := fun b => if b ∈ ks then fun _ => 0 else g.refs b } := by
  induction ks generalizing g with
  | nil => simp
  | cons k ks ih =>
    rw [List.foldl_cons, ih]
    simp only [clear, mk.injEq, and_true]
    funext b
    by_cases hb : b = k <;> simp [hb]

/-- An add at `a` is a `do_ref` of the expected breakpoint, while the counts fit
in `u32`. -/
theorem entry_add_ref (h : g.total a + 1 < 2 ^ 32) :
    (g.add_ref a t).entry a = (g.entry a).do_ref t := by
  unfold total at h
  cases t <;>
    simp [entry, add_ref, Breakpoint.do_ref, Breakpoint.counter, Breakpoint.set_counter] <;>
    omega

/-- A matched remove at `a` is a `do_unref` of the expected breakpoint, which
returns the references left. -/
theorem do_unref_entry (h : 0 < g.refs a t) (hlt : g.total a < 2 ^ 32) :
    (g.entry a).do_unref t = ((g.drop_ref a t).entry a, g.total a - 1) := by
  unfold total at hlt
  cases t <;>
    simp [entry, drop_ref, total, Breakpoint.do_unref, Breakpoint.counter,
      Breakpoint.set_counter] at h ⊢ <;>
    omega

/-- Where no reference is held the expected breakpoint is a fresh one. -/
theorem entry_of_total_eq_zero (h : g.total a = 0) : g.entry a = Breakpoint.new (g.prog a) := by
  unfold total at h
  simp [entry, Breakpoint.new]
  omega

end BreakpointSpec

namespace BreakpointState

/-- `read_bytes` returns the bytes of the window. -/
theorem TraceeMemory.read_bytes_eq {m : TraceeMemory} :
    ∀ {addr len : Nat} {dest : List UInt8}, m.read_bytes addr len = some dest →
      dest = (List.range len).map fun i => m.bytes (addr + i) := by
  intro addr len
  induction len generalizing addr with
  | zero =>
    intro dest h
    simpa [TraceeMemory.read_bytes] using h.symm
  | succ len ih =>
    intro dest h
    unfold TraceeMemory.read_bytes at h
    split at h
    · exact absurd h (by simp)
    · rename_i b hb
      obtain ⟨rest, hrest, rfl⟩ := Option.map_eq_some_iff.1 h
      have hb' : m.bytes addr = b := by
        unfold TraceeMemory.read_byte at hb
        split at hb
        · exact Option.some.inj hb
        · exact absurd hb (by simp)
      rw [ih hrest, List.range_succ_eq_map]
      simp only [List.map_cons, List.map_map, Nat.add_zero, hb', List.cons.injEq, true_and]
      apply List.map_congr_left
      intro i _
      simp only [Function.comp, Nat.succ_eq_add_one]
      congr 1
      omega

/-- The turns of `maybe_update_breakpoints` over a list `L` of distinct
breakpoints: those in the window save the byte now there and get `int3` back,
and nothing else changes. -/
theorem foldlM_update_breakpoint (addr len : Nat) (L : List (Nat × Breakpoint)) :
    ∀ {s : BreakpointState}, CmpList.Sorted s.breakpoints → (L.map Prod.fst).Nodup →
      (∀ e ∈ L, s.get e.1 = some e.2 ∧ s.mem.mapped e.1 = true) →
      ∃ s', L.foldlM (update_breakpoint addr len) s = some s' ∧
        CmpList.Sorted s'.breakpoints ∧ s'.mem.mapped = s.mem.mapped ∧
        (∀ e ∈ L, addr ≤ e.1 ∧ e.1 < wrapping_add addr len →
          s'.get e.1 = some { e.2 with overwritten_data := s.mem.bytes e.1 } ∧
            s'.mem.bytes e.1 = BREAKPOINT_INSN) ∧
        ∀ b, (∀ e ∈ L, e.1 = b → ¬(addr ≤ b ∧ b < wrapping_add addr len)) →
          s'.get b = s.get b ∧ s'.mem.bytes b = s.mem.bytes b := by
  induction L with
  | nil =>
    intro s hs _ _
    exact ⟨s, rfl, hs, rfl, fun e he => absurd he List.not_mem_nil, fun b _ => ⟨rfl, rfl⟩⟩
  | cons e L ih =>
    intro s hs hnodup hL
    obtain ⟨k, v⟩ := e
    obtain ⟨hget, hmapped⟩ := hL (k, v) List.mem_cons_self
    rw [List.map_cons, List.nodup_cons] at hnodup
    obtain ⟨hk, hnodup⟩ := hnodup
    dsimp only at hget hmapped hk
    -- the entries still to come are those of `L`, at addresses other than `k`
    have hL' : ∀ e ∈ L, e.1 ≠ k := by
      intro e he heq
      apply hk
      rw [← heq]
      exact List.mem_map_of_mem he
    have hrest : ∀ e ∈ L, s.get e.1 = some e.2 ∧ s.mem.mapped e.1 = true :=
      fun e he => hL e (List.mem_cons_of_mem _ he)
    by_cases hw : addr ≤ k ∧ k < wrapping_add addr len
    · -- this breakpoint saves the byte now there, and is written again
      obtain ⟨s₁, hs₁⟩ : ∃ s₁ : BreakpointState, s₁ =
          ⟨CmpList.insert compare k { v with overwritten_data := s.mem.bytes k } s.breakpoints,
            { s.mem with bytes := Function.update s.mem.bytes k BREAKPOINT_INSN }⟩ := ⟨_, rfl⟩
      have hstep : update_breakpoint addr len s (k, v) = some s₁ := by
        simp [hs₁, update_breakpoint, hw, TraceeMemory.read_byte_of_mapped hmapped,
          TraceeMemory.write_byte_of_mapped _ hmapped]
      have hget₁ : ∀ b, s₁.get b =
          if b = k then some { v with overwritten_data := s.mem.bytes k } else s.get b := by
        intro b
        rw [hs₁, get_mk, get_insert hs]
        rfl
      have hbytes₁ : ∀ b, b ≠ k → s₁.mem.bytes b = s.mem.bytes b := by
        intro b hb
        simp [hs₁, hb]
      obtain ⟨s', hs', hsorted', hmapped', hupd, hsame⟩ := ih (s := s₁)
        (by rw [hs₁]; exact hs.insert) hnodup (by
          intro e he
          refine ⟨?_, by rw [hs₁]; exact (hrest e he).2⟩
          rw [hget₁, if_neg (hL' e he)]
          exact (hrest e he).1)
      refine ⟨s', by simp [hstep, hs'], hsorted', ?_, ?_, ?_⟩
      · rw [hmapped', hs₁]
      · intro e he hwe
        rcases List.mem_cons.1 he with rfl | he
        · -- `k` itself: the later turns leave it alone
          obtain ⟨h₁, h₂⟩ := hsame k (fun e he heq => absurd heq (hL' e he))
          rw [h₁, h₂, hget₁, if_pos rfl, hs₁]
          simp
        · obtain ⟨h₁, h₂⟩ := hupd e he hwe
          rw [h₁, h₂, hbytes₁ e.1 (hL' e he)]
          exact ⟨rfl, rfl⟩
      · intro b hb
        have hbk : b ≠ k := fun heq => hb (k, v) List.mem_cons_self heq.symm (heq ▸ hw)
        obtain ⟨h₁, h₂⟩ := hsame b (fun e he => hb e (List.mem_cons_of_mem _ he))
        rw [h₁, h₂, hget₁, if_neg hbk, hbytes₁ b hbk]
        exact ⟨rfl, rfl⟩
    · -- outside the window: this turn changes nothing
      have hstep : update_breakpoint addr len s (k, v) = some s := by
        simp [update_breakpoint, hw]
      obtain ⟨s', hs', hsorted', hmapped', hupd, hsame⟩ := ih hs hnodup hrest
      refine ⟨s', by simp [hstep, hs'], hsorted', hmapped', ?_, ?_⟩
      · intro e he hwe
        rcases List.mem_cons.1 he with rfl | he
        · exact absurd hwe hw
        · exact hupd e he hwe
      · exact fun b hb => hsame b (fun e he => hb e (List.mem_cons_of_mem _ he))

/-- One turn of `replace_breakpoints_with_original_values`, when neither the
window nor the breakpoint wraps around the address space. -/
theorem replace_original_value_eq {addr len k : Nat} {dest : List UInt8} (v : Breakpoint)
    (hfit : addr + len < 2 ^ 64) (hk : k + 1 < 2 ^ 64) (hlen : dest.length = len) :
    replace_original_value addr len dest (k, v) =
      some (if addr ≤ k ∧ k < addr + len then dest.set (k - addr) v.overwritten_data else dest) := by
  unfold replace_original_value Breakpoint.data_length
  dsimp only
  rw [wrapping_add_of_lt hfit, wrapping_add_of_lt hk]
  by_cases hw : addr ≤ k ∧ k < addr + len
  · have hstart : max addr k = k := max_eq_right hw.1
    have hlt : k < min (addr + len) (k + 1) := by omega
    have hidx : k - addr < dest.length := by omega
    simp only [hstart, if_pos hlt, if_pos hidx, if_pos hw]
  · have hlt : ¬max addr k < min (addr + len) (k + 1) := by omega
    simp only [if_neg hlt, if_neg hw]

/-- The turns of `replace_breakpoints_with_original_values` over a sorted list
of breakpoints: every byte of the window at a breakpoint becomes its saved
byte. -/
theorem foldlM_replace_original_value {addr len : Nat} (hfit : addr + len < 2 ^ 64)
    (L : List (Nat × Breakpoint)) :
    ∀ dest : List UInt8, dest.length = len → CmpList.Sorted L → (∀ e ∈ L, e.1 + 1 < 2 ^ 64) →
      L.foldlM (replace_original_value addr len) dest = some (dest.mapIdx fun i x =>
        ((CmpList.get compare (addr + i) L).map Breakpoint.overwritten_data).getD x) := by
  induction L with
  | nil =>
    intro dest _ _ _
    simp only [List.foldlM_nil, CmpList.get_nil, Option.map_none, Option.getD_none]
    congr 1
    exact List.ext_getElem (by simp) (by simp)
  | cons e L ih =>
    intro dest hlen hsorted hwrap
    obtain ⟨k, v⟩ := e
    have hwrap' : ∀ e ∈ L, e.1 + 1 < 2 ^ 64 := fun e he => hwrap e (List.mem_cons_of_mem _ he)
    -- no later entry has the address of this one
    have hnone : ∀ i, addr + i = k → CmpList.get compare (addr + i) L = none := by
      intro i hi
      rw [CmpList.get_eq_none_iff hsorted.of_cons]
      intro w hw
      exact lt_irrefl k (hi ▸ hsorted.lt_of_mem hw)
    rw [List.foldlM_cons, replace_original_value_eq v hfit (hwrap (k, v) List.mem_cons_self) hlen]
    simp only [Option.bind_eq_bind, Option.bind_some]
    by_cases hw : addr ≤ k ∧ k < addr + len
    · -- the breakpoint is in the window: its byte is put back
      rw [if_pos hw, ih _ (by simp [hlen]) hsorted.of_cons hwrap']
      congr 1
      apply List.ext_getElem (by simp)
      intro i hi₁ hi₂
      simp only [List.getElem_mapIdx, CmpList.get_cons hsorted, List.getElem_set]
      by_cases hi : addr + i = k
      · have hki : k - addr = i := by omega
        have hnone' : CmpList.get compare k L = none := hi ▸ hnone i hi
        simp [hi, hnone', hki]
      · have hki : k - addr ≠ i := by omega
        simp [hi, hki]
    · rw [if_neg hw, ih _ hlen hsorted.of_cons hwrap']
      congr 1
      apply List.ext_getElem (by simp)
      intro i hi₁ hi₂
      simp only [List.length_mapIdx] at hi₂
      have hi : addr + i ≠ k := by omega
      simp only [List.getElem_mapIdx, CmpList.get_cons hsorted, if_neg hi]

end BreakpointState

open BreakpointSpec BreakpointState

/-- The breakpoint state `s` implements the specification `g`, over a tracee
whose mapped addresses are `mapped`. -/
structure Refines (mapped : Nat → Bool) (s : BreakpointState) (g : BreakpointSpec) : Prop where
  sorted : CmpList.Sorted s.breakpoints
  mapped_eq : s.mem.mapped = mapped
  get_eq : ∀ a, s.get a = if 0 < g.total a then some (g.entry a) else none
  mapped_of_pos : ∀ a, 0 < g.total a → mapped a = true
  bytes_eq : ∀ a, s.mem.bytes a = if 0 < g.total a then BREAKPOINT_INSN else g.prog a
  total_lt : ∀ a, g.total a < 2 ^ 32

namespace Refines

variable {mapped : Nat → Bool} {s s' : BreakpointState} {g g' : BreakpointSpec} {a : Nat}

theorem get_of_pos (h : Refines mapped s g) (ha : 0 < g.total a) : s.get a = some (g.entry a) := by
  rw [h.get_eq, if_pos ha]

theorem get_of_zero (h : Refines mapped s g) (ha : g.total a = 0) : s.get a = none := by
  rw [h.get_eq, if_neg (by omega)]

/-- The frame rule: an operation at `a` that leaves every other address of the
state and of the specification alone keeps the relation when it holds at `a`. -/
theorem of_frame (h : Refines mapped s g) (a : Nat) (hsorted : CmpList.Sorted s'.breakpoints)
    (hmapped : s'.mem.mapped = mapped) (hrefs : ∀ b, b ≠ a → g'.refs b = g.refs b)
    (hprog : g'.prog = g.prog) (hget : ∀ b, b ≠ a → s'.get b = s.get b)
    (hbytes : ∀ b, b ≠ a → s'.mem.bytes b = s.mem.bytes b)
    (hget_a : s'.get a = if 0 < g'.total a then some (g'.entry a) else none)
    (hbytes_a : s'.mem.bytes a = if 0 < g'.total a then BREAKPOINT_INSN else g'.prog a)
    (hmapped_a : 0 < g'.total a → mapped a = true) (hlt_a : g'.total a < 2 ^ 32) :
    Refines mapped s' g' := by
  -- Away from `a` the specification reads as before.
  have htotal : ∀ b, b ≠ a → g'.total b = g.total b := by
    intro b hb
    simp only [total, hrefs b hb]
  have hentry : ∀ b, b ≠ a → g'.entry b = g.entry b := by
    intro b hb
    simp only [entry, hrefs b hb, hprog]
  refine ⟨hsorted, hmapped, ?_, ?_, ?_, ?_⟩
  · intro b
    by_cases hb : b = a
    · rw [hb]; exact hget_a
    · rw [hget b hb, h.get_eq b, htotal b hb, hentry b hb]
  · intro b hpos
    by_cases hb : b = a
    · rw [hb]; exact hmapped_a (hb ▸ hpos)
    · exact h.mapped_of_pos b (htotal b hb ▸ hpos)
  · intro b
    by_cases hb : b = a
    · rw [hb]; exact hbytes_a
    · rw [hbytes b hb, h.bytes_eq b, htotal b hb, hprog]
  · intro b
    by_cases hb : b = a
    · rw [hb]; exact hlt_a
    · rw [htotal b hb]; exact h.total_lt b

/-! ### One operation at one address -/

variable (t : BreakpointType)

/-- `add_breakpoint` takes a reference when a breakpoint is there or the byte
is mapped, and changes nothing otherwise. -/
theorem add_breakpoint (h : Refines mapped s g) (a : Nat) (hfit : g.total a + 1 < 2 ^ 32) :
    ∃ r, s.add_breakpoint a t = some r ∧
      Refines mapped r.2 (if 0 < g.total a ∨ mapped a = true then g.add_ref a t else g) := by
  have hpos' : 0 < (g.add_ref a t).total a := by rw [total_add_ref]; omega
  by_cases hpos : 0 < g.total a
  · -- one reference more on the breakpoint already there
    rw [if_pos (.inl hpos)]
    simp only [BreakpointState.add_breakpoint, h.get_of_pos hpos, Option.some.injEq, exists_eq_left']
    refine h.of_frame a h.sorted.insert ?_ (fun b hb => add_ref_refs_of_ne hb) rfl ?_ ?_ ?_ ?_ ?_ ?_
    · exact h.mapped_eq
    · intro b hb
      rw [get_mk, get_insert h.sorted, if_neg hb]
      rfl
    · intro b _
      rfl
    · rw [get_mk, get_insert h.sorted, if_pos rfl, if_pos hpos', entry_add_ref hfit]
    · rw [if_pos hpos']
      simpa [hpos] using h.bytes_eq a
    · exact fun _ => h.mapped_of_pos a hpos
    · rw [total_add_ref]; exact hfit
  · have hzero : g.total a = 0 := by omega
    by_cases hm : mapped a = true
    · -- a new breakpoint: save the program's byte and write `int3` over it
      rw [if_pos (.inr hm)]
      have hmapped : s.mem.mapped a = true := h.mapped_eq ▸ hm
      have hbyte : s.mem.bytes a = g.prog a := by simpa [hpos] using h.bytes_eq a
      simp only [BreakpointState.add_breakpoint, h.get_of_zero hzero,
        TraceeMemory.read_byte_of_mapped hmapped, TraceeMemory.write_byte_of_mapped _ hmapped,
        Option.some.injEq, exists_eq_left']
      refine h.of_frame a h.sorted.insert ?_ (fun b hb => add_ref_refs_of_ne hb) rfl ?_ ?_ ?_ ?_ ?_ ?_
      · exact h.mapped_eq
      · intro b hb
        rw [get_mk, get_insert h.sorted, if_neg hb]
        rfl
      · intro b hb
        simp [Function.update, hb]
      · rw [get_mk, get_insert h.sorted, if_pos rfl, if_pos hpos', entry_add_ref hfit,
          entry_of_total_eq_zero hzero, hbyte]
      · simp [hpos']
      · exact fun _ => hm
      · rw [total_add_ref]; exact hfit
    · -- the byte cannot be read
      rw [if_neg (by simp [hpos, hm])]
      refine ⟨(false, s), ?_, h⟩
      simp [BreakpointState.add_breakpoint, h.get_of_zero hzero, TraceeMemory.read_byte,
        h.mapped_eq, hm]

/-- `destroy_breakpoint_at` writes the program's byte back and drops every
reference at `a`. -/
theorem destroy_breakpoint_at (h : Refines mapped s g) (ha : 0 < g.total a) :
    ∃ s', s.destroy_breakpoint_at a = some s' ∧ Refines mapped s' (g.clear a) := by
  have hmapped : s.mem.mapped a = true := h.mapped_eq ▸ h.mapped_of_pos a ha
  simp only [BreakpointState.destroy_breakpoint_at, h.get_of_pos ha,
    TraceeMemory.write_byte_of_mapped _ hmapped, Option.some.injEq, exists_eq_left']
  refine h.of_frame a h.sorted.remove ?_ (fun b hb => clear_refs_of_ne hb) rfl ?_ ?_ ?_ ?_ ?_ ?_
  · exact h.mapped_eq
  · intro b hb
    rw [get_mk, get_remove h.sorted, if_neg hb]
    rfl
  · intro b hb
    simp [Function.update, hb]
  · rw [get_mk, get_remove h.sorted, if_pos rfl, total_clear, if_neg (lt_irrefl 0)]
  · simp [entry]
  · simp
  · simp

/-- `remove_breakpoint` of a reference taken earlier drops it, and the
breakpoint with the last one. -/
theorem remove_breakpoint (h : Refines mapped s g) (a : Nat) (hmatched : 0 < g.refs a t) :
    ∃ s', s.remove_breakpoint a t = some s' ∧ Refines mapped s' (g.drop_ref a t) := by
  have hpos : 0 < g.total a := by unfold total; cases t <;> omega
  have htotal := total_drop_ref hmatched
  -- The new counts are stored first, at every other address nothing changes.
  have hget₁ : ∀ b, b ≠ a → CmpList.get compare b
      (CmpList.insert compare a ((g.drop_ref a t).entry a) s.breakpoints) = s.get b := by
    intro b hb
    rw [get_insert h.sorted, if_neg hb]
    rfl
  by_cases hlast : g.total a - 1 = 0
  · -- the last reference: the breakpoint goes
    have hmapped : s.mem.mapped a = true := h.mapped_eq ▸ h.mapped_of_pos a hpos
    have hget₁a : CmpList.get compare a
        (CmpList.insert compare a ((g.drop_ref a t).entry a) s.breakpoints) =
          some ((g.drop_ref a t).entry a) := by
      rw [get_insert h.sorted, if_pos rfl]
    simp only [BreakpointState.remove_breakpoint, h.get_of_pos hpos,
      do_unref_entry hmatched (h.total_lt a), if_pos hlast, BreakpointState.destroy_breakpoint_at,
      get_mk, hget₁a, TraceeMemory.write_byte_of_mapped _ hmapped, Option.some.injEq,
      exists_eq_left']
    refine h.of_frame a h.sorted.insert.remove ?_ (fun b hb => drop_ref_refs_of_ne hb) rfl ?_ ?_ ?_ ?_ ?_ ?_
    · exact h.mapped_eq
    · intro b hb
      rw [get_mk, get_remove h.sorted.insert, if_neg hb]
      exact hget₁ b hb
    · intro b hb
      simp [Function.update, hb]
    · rw [get_mk, get_remove h.sorted.insert, if_pos rfl, htotal, if_neg (by omega)]
    · simp [htotal, hlast, entry]
    · intro hpos'; omega
    · rw [htotal]; exact lt_of_le_of_lt (Nat.sub_le _ _) (h.total_lt a)
  · -- references are left: only the counts change
    simp only [BreakpointState.remove_breakpoint, h.get_of_pos hpos,
      do_unref_entry hmatched (h.total_lt a), if_neg hlast, Option.some.injEq, exists_eq_left']
    refine h.of_frame a h.sorted.insert ?_ (fun b hb => drop_ref_refs_of_ne hb) rfl hget₁ ?_ ?_ ?_ ?_ ?_
    · exact h.mapped_eq
    · intro b _
      rfl
    · rw [get_mk, get_insert h.sorted, if_pos rfl, htotal, if_pos (by omega)]
    · rw [htotal, if_pos (by omega)]
      simpa [hpos] using h.bytes_eq a
    · exact fun _ => h.mapped_of_pos a hpos
    · rw [htotal]; exact lt_of_le_of_lt (Nat.sub_le _ _) (h.total_lt a)

/-- While a breakpoint is suspended the program reads its own byte there, and
restoring it gives back the state as it was. -/
theorem suspend_breakpoint_at (h : Refines mapped s g) (a : Nat) :
    ∃ s', s.suspend_breakpoint_at a = some s' ∧ s'.mem.bytes a = g.prog a ∧
      s'.restore_breakpoint_at a = some s := by
  by_cases hpos : 0 < g.total a
  · have hmapped : s.mem.mapped a = true := h.mapped_eq ▸ h.mapped_of_pos a hpos
    have hbyte : s.mem.bytes a = BREAKPOINT_INSN := by simpa [hpos] using h.bytes_eq a
    simp only [BreakpointState.suspend_breakpoint_at, h.get_of_pos hpos,
      TraceeMemory.write_byte_of_mapped _ hmapped, Option.map_some, Option.some.injEq,
      exists_eq_left']
    refine ⟨by simp [entry], ?_⟩
    have hget : CmpList.get compare a s.breakpoints = some (g.entry a) := h.get_of_pos hpos
    -- writing `int3` over the saved byte gives back the memory as it was
    simp [BreakpointState.restore_breakpoint_at, hget, TraceeMemory.write_byte, hmapped, ← hbyte]
  · have hzero : g.total a = 0 := by omega
    refine ⟨s, by simp only [BreakpointState.suspend_breakpoint_at, h.get_of_zero hzero], ?_,
      by simp only [BreakpointState.restore_breakpoint_at, h.get_of_zero hzero]⟩
    simpa [hpos] using h.bytes_eq a

/-! ### Operations over many addresses -/

/-- The addresses with a breakpoint are those where references are held. -/
theorem mem_keys (h : Refines mapped s g) (b : Nat) :
    b ∈ s.breakpoints.map Prod.fst ↔ 0 < g.total b := by
  have hget := h.get_eq b
  constructor
  · intro hb
    obtain ⟨⟨k, v⟩, hkv, rfl⟩ := List.mem_map.1 hb
    have : s.get k = some v := (CmpList.get_eq_some_iff h.sorted).2 hkv
    by_contra hzero
    rw [if_neg hzero, this] at hget
    exact absurd hget (by simp)
  · intro hpos
    rw [if_pos hpos] at hget
    exact List.mem_map.2 ⟨(b, g.entry b), (CmpList.get_eq_some_iff h.sorted).1 hget, rfl⟩

theorem keys_nodup (h : Refines mapped s g) : (s.breakpoints.map Prod.fst).Nodup :=
  (List.pairwise_map.2 h.sorted).imp ne_of_lt

/-- Destroying the breakpoints at a list of addresses, one after the other. -/
theorem foldlM_destroy (ks : List Nat) :
    ∀ {s : BreakpointState} {g : BreakpointSpec}, Refines mapped s g → ks.Nodup →
      (∀ k ∈ ks, 0 < g.total k) →
      ∃ s', ks.foldlM BreakpointState.destroy_breakpoint_at s = some s' ∧
        Refines mapped s' (ks.foldl (fun g k => g.clear k) g) := by
  induction ks with
  | nil => exact fun h _ _ => ⟨_, rfl, h⟩
  | cons k ks ih =>
    intro s g h hnodup hpos
    obtain ⟨s₁, hs₁, h₁⟩ := h.destroy_breakpoint_at (hpos k List.mem_cons_self)
    have hks : ∀ k' ∈ ks, 0 < (g.clear k).total k' := by
      intro k' hk'
      have hne : k' ≠ k := fun heq => (List.nodup_cons.1 hnodup).1 (heq ▸ hk')
      rw [total_clear_of_ne hne]
      exact hpos k' (List.mem_cons_of_mem _ hk')
    obtain ⟨s', hs', h'⟩ := ih h₁ (List.nodup_cons.1 hnodup).2 hks
    exact ⟨s', by simp [hs₁, hs'], h'⟩

/-- `remove_all_breakpoints` drops every reference. -/
theorem remove_all_breakpoints (h : Refines mapped s g) :
    ∃ s', s.remove_all_breakpoints = some s' ∧ Refines mapped s' g.clear_all := by
  obtain ⟨s', hs', h'⟩ := foldlM_destroy (s.breakpoints.map Prod.fst) h h.keys_nodup
    (fun k hk => (h.mem_keys k).1 hk)
  refine ⟨s', hs', ?_⟩
  -- every address without a breakpoint held no reference already
  have hclear : (s.breakpoints.map Prod.fst).foldl (fun g k => g.clear k) g = g.clear_all := by
    rw [foldl_clear]
    simp only [clear_all, BreakpointSpec.mk.injEq, and_true]
    funext b t
    by_cases hb : b ∈ s.breakpoints.map Prod.fst
    · simp [hb]
    · have hzero : g.total b = 0 := by
        by_contra hpos
        exact hb ((h.mem_keys b).2 (Nat.pos_of_ne_zero hpos))
      simp only [hb, if_false]
      unfold total at hzero
      cases t <;> omega
  rwa [hclear] at h'

/-- A write from outside changes the program's bytes, and the breakpoints in
its window save the new bytes. -/
theorem write (h : Refines mapped s g) (addr : Nat) (data : List UInt8)
    (hfit : addr + data.length < 2 ^ 64) :
    ∃ s', ({ s with mem := { s.mem with bytes := write_bytes s.mem.bytes addr data } } :
      BreakpointState).maybe_update_breakpoints addr data.length = some s' ∧
        Refines mapped s' (g.write addr data) := by
  have hwin : wrapping_add addr data.length = addr + data.length := wrapping_add_of_lt hfit
  obtain ⟨s', hs', hsorted, hmapped, hupd, hsame⟩ :=
    foldlM_update_breakpoint addr data.length s.breakpoints
      (s := ⟨s.breakpoints, { s.mem with bytes := write_bytes s.mem.bytes addr data }⟩) h.sorted
      h.keys_nodup (fun e he => ⟨(CmpList.get_eq_some_iff h.sorted).2 he,
        h.mapped_eq ▸ h.mapped_of_pos e.1 ((h.mem_keys e.1).1 (List.mem_map_of_mem he))⟩)
  rw [hwin] at hupd hsame
  -- Each address is in one of three cases: a breakpoint in the window, a
  -- breakpoint outside it, or no breakpoint.
  have hcases : ∀ b, s'.get b = (if 0 < g.total b then some ((g.write addr data).entry b) else none) ∧
      s'.mem.bytes b = if 0 < g.total b then BREAKPOINT_INSN else write_bytes g.prog addr data b := by
    intro b
    have hb := h.bytes_eq b
    by_cases hpos : 0 < g.total b
    · have hmem : (b, g.entry b) ∈ s.breakpoints :=
        (CmpList.get_eq_some_iff h.sorted).1 (h.get_of_pos hpos)
      by_cases hw : addr ≤ b ∧ b < addr + data.length
      · obtain ⟨h₁, h₂⟩ := hupd (b, g.entry b) hmem hw
        simp only [if_pos hpos] at hb
        refine ⟨?_, by rw [h₂, if_pos hpos]⟩
        rw [h₁, if_pos hpos, write_entry]
        simp [write_bytes, hw]
      · obtain ⟨h₁, h₂⟩ := hsame b (fun e _ _ => hw)
        simp only [if_pos hpos] at hb
        refine ⟨?_, by simp [h₂, write_bytes, hw, hb, hpos]⟩
        have hg : CmpList.get compare b s.breakpoints = some (g.entry b) := h.get_of_pos hpos
        rw [h₁, get_mk, if_pos hpos, write_entry, hg]
        simp [write_bytes, hw, entry]
    · have hnone : ∀ e ∈ s.breakpoints, e.1 ≠ b := by
        intro e he heq
        exact hpos ((h.mem_keys b).1 (heq ▸ List.mem_map_of_mem he))
      obtain ⟨h₁, h₂⟩ := hsame b (fun e he heq => absurd heq (hnone e he))
      simp only [if_neg hpos] at hb
      refine ⟨?_, by simp [h₂, write_bytes, hb, hpos]⟩
      have hg : CmpList.get compare b s.breakpoints = none := h.get_of_zero (by omega)
      rw [h₁, get_mk, if_neg hpos, hg]
  refine ⟨s', hs', hsorted, hmapped.trans h.mapped_eq, fun b => (hcases b).1,
    fun b hb => h.mapped_of_pos b hb, fun b => (hcases b).2, fun b => h.total_lt b⟩

/-! ### What the debugger reads -/

/-- Putting back the saved bytes in what is read from a window gives the bytes
the program would see with no breakpoint set. -/
theorem replace_breakpoints_with_original_values (h : Refines mapped s g)
    (hmapped : ∀ a, mapped a = true → a + 1 < 2 ^ 64) {addr len : Nat} (hfit : addr + len < 2 ^ 64)
    {dest : List UInt8} (hread : s.mem.read_bytes addr len = some dest) :
    s.replace_breakpoints_with_original_values dest addr =
      some ((List.range len).map fun i => g.prog (addr + i)) := by
  have hdest := TraceeMemory.read_bytes_eq hread
  have hlen : dest.length = len := by rw [hdest]; simp
  have hwrap : ∀ e ∈ s.breakpoints, e.1 + 1 < 2 ^ 64 := fun e he =>
    hmapped e.1 (h.mapped_of_pos e.1 ((h.mem_keys e.1).1 (List.mem_map_of_mem he)))
  unfold BreakpointState.replace_breakpoints_with_original_values
  rw [hlen, foldlM_replace_original_value hfit s.breakpoints dest hlen h.sorted hwrap]
  congr 1
  apply List.ext_getElem (by simp [hlen])
  intro i hi₁ hi₂
  have hget : CmpList.get compare (addr + i) s.breakpoints = _ := h.get_eq (addr + i)
  have hb := h.bytes_eq (addr + i)
  simp only [List.getElem_mapIdx, hget, hdest, List.getElem_map, List.getElem_range]
  split_ifs at hb ⊢ <;> simp [entry, hb]

/-! ### Runs -/

/-- The relation at the start. -/
theorem init (mem : TraceeMemory) :
    Refines mem.mapped (BreakpointState.init mem) (BreakpointSpec.init mem.bytes) := by
  refine ⟨CmpList.Sorted.nil, rfl, ?_, ?_, ?_, ?_⟩ <;> intro a <;>
    simp [BreakpointState.init, BreakpointSpec.init, total]

/-- Every sane operation succeeds and keeps the relation. -/
theorem step (h : Refines mapped s g) (op : BreakpointOp) (hsane : g.Sane op) :
    ∃ s', s.step op = some s' ∧ Refines mapped s' (g.step mapped op) := by
  cases op with
  | add_breakpoint addr t =>
    obtain ⟨r, hr, h'⟩ := h.add_breakpoint t addr.toNat hsane
    exact ⟨r.2, by simp [BreakpointState.step, hr], h'⟩
  | remove_breakpoint addr t => exact h.remove_breakpoint t addr.toNat hsane
  | remove_all_breakpoints => exact h.remove_all_breakpoints
  | suspend_restore addr =>
    obtain ⟨s', hs', -, hr⟩ := h.suspend_breakpoint_at addr.toNat
    exact ⟨s, by simp [BreakpointState.step, hs', hr], h⟩
  | write addr data => exact h.write addr.toNat data hsane

/-- A sane sequence of operations runs to its end and keeps the relation. -/
theorem run (h : Refines mapped s g) (ops : List BreakpointOp) (hsane : g.SaneRun mapped ops) :
    ∃ s', s.run ops = some s' ∧ Refines mapped s' (g.run mapped ops) := by
  induction ops generalizing s g with
  | nil => exact ⟨s, rfl, h⟩
  | cons op ops ih =>
    obtain ⟨hop, hops⟩ := hsane
    obtain ⟨s₁, hs₁, h₁⟩ := h.step op hop
    obtain ⟨s', hs', h'⟩ := ih h₁ hops
    exact ⟨s', by simp [BreakpointState.run, hs₁, hs'], h'⟩

end Refines

/-! ## Breakpoints are invisible -/

/-- Over any sane sequence of breakpoint operations from a state with no
breakpoint, every operation succeeds, and at the end: the map holds a
breakpoint exactly where references are held, with the user count and the
internal count of the references not yet dropped and with the program's byte;
tracee memory holds `int3` there and the program's bytes everywhere else, so
the byte is back once the last reference goes; and putting back the saved bytes
in what is read from any window gives the bytes the program would see with no
breakpoint set. -/
theorem breakpoints_transparent (mem : TraceeMemory)
    (hmapped : ∀ a, mem.mapped a = true → a + 1 < 2 ^ 64) (ops : List BreakpointOp)
    (hsane : (BreakpointSpec.init mem.bytes).SaneRun mem.mapped ops) :
    ∃ s, (BreakpointState.init mem).run ops = some s ∧
      (∀ a, s.get a = if 0 < ((BreakpointSpec.init mem.bytes).run mem.mapped ops).total a then
        some (((BreakpointSpec.init mem.bytes).run mem.mapped ops).entry a) else none) ∧
      (∀ a, s.mem.bytes a = if 0 < ((BreakpointSpec.init mem.bytes).run mem.mapped ops).total a then
        BREAKPOINT_INSN else ((BreakpointSpec.init mem.bytes).run mem.mapped ops).prog a) ∧
      ∀ addr len dest, addr + len < 2 ^ 64 → s.mem.read_bytes addr len = some dest →
        s.replace_breakpoints_with_original_values dest addr =
          some ((List.range len).map fun i =>
            ((BreakpointSpec.init mem.bytes).run mem.mapped ops).prog (addr + i)) := by
  obtain ⟨s, hs, h⟩ := (Refines.init mem).run ops hsane
  exact ⟨s, hs, h.get_eq, h.bytes_eq,
    fun _ _ _ hfit hread => h.replace_breakpoints_with_original_values hmapped hfit hread⟩

/-- A page of `nop`s at 0, where a user and an internal breakpoint are set at
16, stepped over, overwritten by a write of two bytes from 15, and removed: the
byte written is what is left at 16. -/
theorem breakpoints_transparent_at_nop_page :
    ∃ s, (BreakpointState.init { mapped := fun a => decide (a < 4096), bytes := fun _ => 0x90 }).run
        [.add_breakpoint 16 .BkptUser, .add_breakpoint 16 .BkptInternal, .suspend_restore 16,
          .write 15 [0xAA, 0xBB], .remove_breakpoint 16 .BkptUser,
          .remove_breakpoint 16 .BkptInternal] = some s ∧
      s.get 16 = none ∧ s.mem.bytes 16 = 0xBB := by
  have hmapped : ∀ a, ({ mapped := fun a => decide (a < 4096), bytes := fun _ => 0x90 } :
      TraceeMemory).mapped a = true → a + 1 < 2 ^ 64 := by
    intro a ha
    simp only [decide_eq_true_eq] at ha
    omega
  obtain ⟨s, hs, hget, hbytes, -⟩ := breakpoints_transparent _ hmapped
    [.add_breakpoint 16 .BkptUser, .add_breakpoint 16 .BkptInternal, .suspend_restore 16,
      .write 15 [0xAA, 0xBB], .remove_breakpoint 16 .BkptUser, .remove_breakpoint 16 .BkptInternal]
    (by decide)
  exact ⟨s, hs, by rw [hget]; decide, by rw [hbytes]; decide⟩

/-- Matching a remove with an add made before `remove_all_breakpoints`: after a
user add at 16, a `remove_all_breakpoints`, an internal add at 16 and a user
remove at 16, the internal add has no matching remove, yet the map has no
breakpoint at 16 and memory holds the original byte.  The user count, 0, wraps
to `2 ^ 32 - 1` on the remove, the two counts add up to `2 ^ 32`, that is 0,
and the breakpoint is destroyed. -/
theorem remove_after_remove_all_destroys_internal_breakpoint :
    ((BreakpointState.init { mapped := fun a => decide (a < 4096), bytes := fun _ => 0x90 }).run
      [.add_breakpoint 16 .BkptUser, .remove_all_breakpoints, .add_breakpoint 16 .BkptInternal,
        .remove_breakpoint 16 .BkptUser]).map (fun s => (s.get 16, s.mem.bytes 16)) =
      some (none, 0x90) := by
  decide

end RdReplay
