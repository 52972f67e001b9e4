/-
  Record/RobustFutex.lean --- the robust-futex writes rd records at task exit.

  Source: `session/record_session.rs` (`record_robust_futex_changes_arch`,
  `record_robust_futex_change`, `mask_low_bit`) and `arch_structs.rs`
  (`robust_list`, `robust_list_head`).

  When a task dies the kernel walks its robust list and marks each futex the
  task holds with `FUTEX_OWNER_DIED`.  rd cannot let the kernel do that during
  replay, so at exit it walks the list itself, writes the new values into the
  tracee and records them as raw data.  The list lives in tracee memory, so its
  shape is whatever the tracee left there.

  THE MODEL.  Tracee memory is `TraceeMemory`, byte by byte; a word is
  `Arch::unsigned_word`, four or eight bytes, little endian.  The walk stops only
  at the head or at an entry it cannot read, so it runs on fuel, and `none` is
  "out of fuel" (or the `ed_assert_eq!` on the list's length).

  THE KERNEL.  `exit_robust_list` is the kernel's walk, which is not part of rd:
  it is the specification rd emulates, a second definition kept apart from the
  translated ones.  It reads an entry's `next` before it handles the entry,
  skips `list_op_pending` during the walk, stops at the head, at an entry whose
  `next` it cannot read (after handling it) or after `ROBUST_LIST_LIMIT`
  entries, and handles `list_op_pending` last.
-/
import RdReplay.Breakpoint.Basic

set_option autoImplicit false

namespace RdReplay.Record

/-! ## Words in tracee memory -/

/-- `size_of::<Arch::unsigned_word>()`. -/
def word_size : SupportedArch → Nat
  | .X86 => 4
  | .X64 => 8

/-- The little-endian value of bytes read from the tracee. -/
def le_value : List UInt8 → Nat
  | [] => 0
  | b :: bs => b.toNat + 256 * le_value bs

/-- The `n` little-endian bytes of `v`. -/
def le_bytes : Nat → Nat → List UInt8
  | 0, _ => []
  | n + 1, v => UInt8.ofNat v :: le_bytes n (v / 256)

/-- `read_val_mem` of an `Arch::unsigned_word`, with an `ok` flag. -/
def read_word (m : TraceeMemory) (arch : SupportedArch) (addr : Nat) : Option Nat :=
  (m.read_bytes addr (word_size arch)).map le_value

/-- `read_val_mem::<u32>`, with an `ok` flag. -/
def read_u32 (m : TraceeMemory) (addr : Nat) : Option UInt32 :=
  (m.read_bytes addr 4).map fun bs => UInt32.ofNat (le_value bs)

/-- `write_val_mem::<u32>`.  rd writes only a word it has just read, so the
write cannot fail. -/
def write_u32 (m : TraceeMemory) (addr : Nat) (v : UInt32) : TraceeMemory :=
  { m with bytes := write_bytes m.bytes addr (le_bytes 4 v.toNat) }

/-- `mask_low_bit`: the low bit of a list pointer flags a PI futex. -/
def mask_low_bit (p : Nat) : Nat := p &&& (2 ^ 64 - 2)

/-! ## The robust list -/

/-- `robust_list_head<Arch>`: `list.next`, `futex_offset` and `list_op_pending`. -/
structure RobustListHead where
  list_next : Nat
  futex_offset : Int
  list_op_pending : Nat
  deriving DecidableEq, Repr

/-- `Arch::signed_long`, from the word that holds it. -/
def signed_long (arch : SupportedArch) (v : Nat) : Int :=
  if v < 2 ^ (8 * word_size arch - 1) then v else v - 2 ^ (8 * word_size arch)

/-- `read_val_mem(t, head_ptr, Some(&mut ok))`: the head is three words. -/
def read_head (m : TraceeMemory) (arch : SupportedArch) (head_ptr : Nat) :
    Option RobustListHead := do
  let list_next ← read_word m arch head_ptr
  let futex_offset ← read_word m arch (head_ptr + word_size arch)
  let list_op_pending ← read_word m arch (head_ptr + 2 * word_size arch)
  pure ⟨list_next, signed_long arch futex_offset, list_op_pending⟩

/-- `RemotePtr::<Void>::cast(base) + Arch::long_as_isize(head.futex_offset)`. -/
def futex_ptr (head : RobustListHead) (base : Nat) : Nat :=
  ((base + head.futex_offset) % 2 ^ 64).toNat

def FUTEX_WAITERS : UInt32 := 0x80000000
def FUTEX_OWNER_DIED : UInt32 := 0x40000000
def FUTEX_TID_MASK : UInt32 := 0x3fffffff

/-- The futex word at `addr` is readable and its TID bits are `tid`. -/
def owns_futex (m : TraceeMemory) (tid : UInt32) (addr : Nat) : Bool :=
  match read_u32 m addr with
  | some val => val &&& FUTEX_TID_MASK == tid
  | none => false

/-- The value the kernel leaves in a futex word whose owner died. -/
def owner_died (val : UInt32) : UInt32 := (val &&& FUTEX_WAITERS) ||| FUTEX_OWNER_DIED

/-! ## rd's walk -/

/-- What `record_robust_futex_changes_arch` reads and changes of a `RecordTask`;
`recorded` are the `record_local_for` writes, in trace order. -/
structure RobustTask where
  arch : SupportedArch
  robust_list : Nat
  robust_list_len : Nat
  own_namespace_rec_tid : UInt32
  did_record_robust_futex_changes : Bool
  mem : TraceeMemory
  recorded : List (Nat × UInt32)

/-- `record_robust_futex_change`. -/
def record_robust_futex_change (t : RobustTask) (head : RobustListHead) (base : Nat) :
    RobustTask :=
  if base = 0 then t
  else
    let futex_ptr := futex_ptr head base
    match read_u32 t.mem futex_ptr with
    | none => t
    | some val =>
      if val &&& FUTEX_TID_MASK ≠ t.own_namespace_rec_tid then t
      else
        let val := owner_died val
        { t with mem := write_u32 t.mem futex_ptr val, recorded := t.recorded ++ [(futex_ptr, val)] }

/-- The `loop` of `record_robust_futex_changes_arch`, from `current`. -/
def record_robust_futex_changes_loop (head_ptr : Nat) (head : RobustListHead) :
    Nat → Nat → RobustTask → Option RobustTask
  | 0, _, _ => none
  | fuel + 1, current, t =>
    if current = head_ptr then some t
    else
      let t := record_robust_futex_change t head current
      match read_word t.mem t.arch current with
      | none => some t
      | some next => record_robust_futex_changes_loop head_ptr head fuel (mask_low_bit next) t

/-- `record_robust_futex_changes_arch`. -/
def record_robust_futex_changes_arch (fuel : Nat) (t : RobustTask) : Option RobustTask :=
  if t.did_record_robust_futex_changes then some t
  else
    let t := { t with did_record_robust_futex_changes := true }
    let head_ptr := t.robust_list
    if head_ptr = 0 then some t
    -- `ed_assert_eq!(t, t.robust_list_len(), size_of::<robust_list_head<Arch>>())`
    else if t.robust_list_len ≠ 3 * word_size t.arch then none
    else
      match read_head t.mem t.arch head_ptr with
      | none => some t
      | some head =>
        -- the pending entry comes first
        let t := record_robust_futex_change t head (mask_low_bit head.list_op_pending)
        record_robust_futex_changes_loop head_ptr head fuel (mask_low_bit head.list_next) t

/-! ## The kernel's walk -/

/-- `ROBUST_LIST_LIMIT` of `kernel/futex`. -/
def ROBUST_LIST_LIMIT : Nat := 2048

/-- `handle_futex_death`, on the memory and the futex words written so far. -/
def handle_futex_death (tid : UInt32) (uaddr : Nat) (s : TraceeMemory × List (Nat × UInt32)) :
    TraceeMemory × List (Nat × UInt32) :=
  match read_u32 s.1 uaddr with
  | none => s
  | some val =>
    if val &&& FUTEX_TID_MASK = tid then
      (write_u32 s.1 uaddr (owner_died val), s.2 ++ [(uaddr, owner_died val)])
    else s

/-- The `while` loop of `exit_robust_list`, with `limit` entries still allowed. -/
def exit_robust_list_walk (arch : SupportedArch) (tid : UInt32) (head_ptr : Nat)
    (head : RobustListHead) : Nat → Nat → TraceeMemory × List (Nat × UInt32) →
      TraceeMemory × List (Nat × UInt32)
  | 0, _, s => s
  | limit + 1, entry, s =>
    if entry = head_ptr then s
    else
      let next := read_word s.1 arch entry
      let s := if entry ≠ mask_low_bit head.list_op_pending then
        handle_futex_death tid (futex_ptr head entry) s else s
      match next with
      | none => s
      | some next => exit_robust_list_walk arch tid head_ptr head limit (mask_low_bit next) s

/-- `exit_robust_list` for the task's registered list: the memory it leaves and
the futex words it writes, in order. -/
def exit_robust_list (t : RobustTask) : TraceeMemory × List (Nat × UInt32) :=
  match read_head t.mem t.arch t.robust_list with
  | none => (t.mem, [])
  | some head =>
    let s := exit_robust_list_walk t.arch t.own_namespace_rec_tid t.robust_list head
      ROBUST_LIST_LIMIT (mask_low_bit head.list_next) (t.mem, [])
    let pending := mask_low_bit head.list_op_pending
    if pending = 0 then s else handle_futex_death t.own_namespace_rec_tid (futex_ptr head pending) s

/-! ## Frame lemmas -/

@[simp] theorem length_le_bytes : ∀ n v, (le_bytes n v).length = n
  | 0, _ => rfl
  | n + 1, v => by simp [le_bytes, length_le_bytes n]

/-- A value written as `n` little-endian bytes reads back modulo `256 ^ n`. -/
theorem le_value_le_bytes : ∀ n v, le_value (le_bytes n v) = v % 256 ^ n
  | 0, _ => by rw [le_bytes, le_value, pow_zero, Nat.mod_one]
  | n + 1, v => by
    rw [le_bytes, le_value, le_value_le_bytes n, UInt8.toNat_ofNat', pow_succ' (256 : Nat) n]
    exact (Nat.mod_mul (a := 256)).symm

/-- `n` little-endian bytes hold a value below `256 ^ n`. -/
theorem le_value_lt : ∀ l : List UInt8, le_value l < 256 ^ l.length
  | [] => by simp [le_value]
  | b :: bs => by
    have hb := b.toNat_lt
    have hbs := le_value_lt bs
    rw [le_value, List.length_cons, pow_succ']
    omega

/-- The low bytes of a wider little-endian value are those of the narrower one. -/
theorem take_le_bytes : ∀ n m v, (le_bytes (n + m) v).take n = le_bytes n v
  | 0, _, _ => rfl
  | n + 1, m, v => by
    rw [Nat.add_right_comm, le_bytes, le_bytes, List.take_succ_cons, take_le_bytes n m]

/-- A read sees only the bytes it reads. -/
theorem read_bytes_congr {m m' : TraceeMemory} (hmap : m'.mapped = m.mapped) :
    ∀ {addr n : Nat}, (∀ i < n, m'.bytes (addr + i) = m.bytes (addr + i)) →
      m'.read_bytes addr n = m.read_bytes addr n
  | _, 0, _ => rfl
  | addr, n + 1, h => by
    have hrest : ∀ i < n, m'.bytes (addr + 1 + i) = m.bytes (addr + 1 + i) := by
      intro i hi
      rw [Nat.add_assoc, Nat.add_comm 1 i]
      exact h (i + 1) (by omega)
    have h0 := h 0 (Nat.succ_pos n)
    simp only [Nat.add_zero] at h0
    simp only [TraceeMemory.read_bytes, TraceeMemory.read_byte, hmap, h0, read_bytes_congr hmap hrest]

/-- A futex write leaves a word apart from it as it was. -/
theorem read_word_write_u32 {m : TraceeMemory} {arch : SupportedArch} {f e : Nat} {v : UInt32}
    (h : f + 4 ≤ e ∨ e + word_size arch ≤ f) :
    read_word (write_u32 m f v) arch e = read_word m arch e := by
  unfold read_word write_u32
  have hmap : ({ m with bytes := write_bytes m.bytes f (le_bytes 4 v.toNat) } : TraceeMemory).mapped =
      m.mapped := rfl
  congr 1
  refine read_bytes_congr hmap ?_
  intro i hi
  simp only [write_bytes, length_le_bytes]
  rw [if_neg (by omega)]

/-- rd's change of one entry is the kernel's `handle_futex_death`, except
that rd skips a null entry. -/
theorem record_robust_futex_change_eq (t : RobustTask) (head : RobustListHead) (base : Nat) :
    record_robust_futex_change t head base =
      if base = 0 then t
      else
        let s := handle_futex_death t.own_namespace_rec_tid (futex_ptr head base) (t.mem, t.recorded)
        { t with mem := s.1, recorded := s.2 } := by
  by_cases hb : base = 0
  · simp [record_robust_futex_change, hb]
  · unfold record_robust_futex_change handle_futex_death
    cases hr : read_u32 t.mem (futex_ptr head base) with
    | none => simp [hb, hr]
    | some val =>
      by_cases hv : val &&& FUTEX_TID_MASK = t.own_namespace_rec_tid <;> simp [hb, hr, hv]

theorem handle_futex_death_of_not_owns {tid : UInt32} {uaddr : Nat}
    {s : TraceeMemory × List (Nat × UInt32)} (h : owns_futex s.1 tid uaddr = false) :
    handle_futex_death tid uaddr s = s := by
  unfold owns_futex at h
  unfold handle_futex_death
  split
  · rfl
  · rename_i val hval
    rw [hval, beq_eq_false_iff_ne] at h
    rw [if_neg h]

theorem record_robust_futex_change_of_not_owns {t : RobustTask} {head : RobustListHead} {base : Nat}
    (h : owns_futex t.mem t.own_namespace_rec_tid (futex_ptr head base) = false) :
    record_robust_futex_change t head base = t := by
  rw [record_robust_futex_change_eq]
  split
  · rfl
  · simp only [handle_futex_death_of_not_owns (s := (t.mem, t.recorded)) h]

@[simp] theorem record_robust_futex_change_arch (t : RobustTask) (head : RobustListHead) (base : Nat) :
    (record_robust_futex_change t head base).arch = t.arch := by
  rw [record_robust_futex_change_eq]
  split <;> rfl

@[simp] theorem record_robust_futex_change_tid (t : RobustTask) (head : RobustListHead) (base : Nat) :
    (record_robust_futex_change t head base).own_namespace_rec_tid = t.own_namespace_rec_tid := by
  rw [record_robust_futex_change_eq]
  split <;> rfl

/-- The change of an entry leaves that entry's `next` word alone when its futex
word lies apart from it. -/
theorem read_word_record_robust_futex_change {t : RobustTask} {head : RobustListHead} {base : Nat}
    (hsep : futex_ptr head base + 4 ≤ base ∨ base + word_size t.arch ≤ futex_ptr head base) :
    read_word (record_robust_futex_change t head base).mem t.arch base = read_word t.mem t.arch base := by
  rw [record_robust_futex_change_eq]
  split
  · rfl
  · unfold handle_futex_death
    cases hr : read_u32 t.mem (futex_ptr head base) with
    | none => rfl
    | some val =>
      by_cases hv : val &&& FUTEX_TID_MASK = t.own_namespace_rec_tid
      · simpa [hv] using read_word_write_u32 hsep
      · simp [hv]

theorem handle_futex_death_append (tid : UInt32) (uaddr : Nat) (m : TraceeMemory)
    (pre ch : List (Nat × UInt32)) :
    handle_futex_death tid uaddr (m, pre ++ ch) =
      ((handle_futex_death tid uaddr (m, ch)).1, pre ++ (handle_futex_death tid uaddr (m, ch)).2) := by
  unfold handle_futex_death
  cases hr : read_u32 m uaddr with
  | none => simp
  | some val => by_cases hv : val &&& FUTEX_TID_MASK = tid <;> simp [hv]

/-! ## A cycle that avoids the head -/

/-- Entries none of which is the head, each with a readable `next` that leads
back into the set, and none holding a futex word of the task. -/
structure Trap (m : TraceeMemory) (arch : SupportedArch) (tid : UInt32) (head_ptr : Nat)
    (head : RobustListHead) (S : Nat → Prop) : Prop where
  ne_head : ∀ a, S a → a ≠ head_ptr
  next_mem : ∀ a, S a → ∃ n, read_word m arch a = some n ∧ S (mask_low_bit n)
  not_owned : ∀ a, S a → owns_futex m tid (futex_ptr head a) = false

/-- rd never leaves a trap: its walk has no bound of its own. -/
theorem record_robust_futex_changes_loop_of_trap {head_ptr : Nat} {head : RobustListHead}
    {S : Nat → Prop} {t : RobustTask}
    (hS : Trap t.mem t.arch t.own_namespace_rec_tid head_ptr head S) :
    ∀ fuel a, S a → record_robust_futex_changes_loop head_ptr head fuel a t = none
  | 0, _, _ => rfl
  | fuel + 1, a, ha => by
    obtain ⟨n, hn, hnS⟩ := hS.next_mem a ha
    rw [record_robust_futex_changes_loop, if_neg (hS.ne_head a ha),
      record_robust_futex_change_of_not_owns (hS.not_owned a ha)]
    simp only [hn]
    exact record_robust_futex_changes_loop_of_trap hS fuel _ hnS

/-- The kernel walks a trap until its limit and changes nothing there. -/
theorem exit_robust_list_walk_of_trap {m : TraceeMemory} {arch : SupportedArch} {tid : UInt32}
    {head_ptr : Nat} {head : RobustListHead} {S : Nat → Prop}
    (hS : Trap m arch tid head_ptr head S) :
    ∀ limit a (ch : List (Nat × UInt32)), S a →
      exit_robust_list_walk arch tid head_ptr head limit a (m, ch) = (m, ch)
  | 0, _, _, _ => rfl
  | limit + 1, a, ch, ha => by
    obtain ⟨n, hn, hnS⟩ := hS.next_mem a ha
    have hkeep : (if a ≠ mask_low_bit head.list_op_pending then
        handle_futex_death tid (futex_ptr head a) (m, ch) else (m, ch)) = (m, ch) := by
      split
      · exact handle_futex_death_of_not_owns (hS.not_owned a ha)
      · rfl
    rw [exit_robust_list_walk, if_neg (hS.ne_head a ha)]
    simp only [hn, hkeep]
    exact exit_robust_list_walk_of_trap hS limit _ ch hnS

/-! ## rd refines the kernel on the lists it walks in time -/

section Refinement

variable {arch : SupportedArch} {head_ptr : Nat} {head : RobustListHead}

theorem exit_robust_list_walk_append (tid : UInt32) :
    ∀ limit entry (m : TraceeMemory) (pre ch : List (Nat × UInt32)),
      exit_robust_list_walk arch tid head_ptr head limit entry (m, pre ++ ch) =
        ((exit_robust_list_walk arch tid head_ptr head limit entry (m, ch)).1,
          pre ++ (exit_robust_list_walk arch tid head_ptr head limit entry (m, ch)).2)
  | 0, _, _, _, _ => rfl
  | limit + 1, entry, m, pre, ch => by
    simp only [exit_robust_list_walk]
    split
    · rfl
    · -- the handled state keeps `pre` in front, whichever branch the walk takes
      have hs : (if entry ≠ mask_low_bit head.list_op_pending then
            handle_futex_death tid (futex_ptr head entry) (m, pre ++ ch) else (m, pre ++ ch)) =
          let s := if entry ≠ mask_low_bit head.list_op_pending then
            handle_futex_death tid (futex_ptr head entry) (m, ch) else (m, ch)
          (s.1, pre ++ s.2) := by
        split
        · exact handle_futex_death_append tid _ m pre ch
        · rfl
      rw [hs]
      split
      · rfl
      · exact exit_robust_list_walk_append tid limit _ _ pre _

/-- Turn by turn, rd's walk does what the kernel's does, when nothing is
pending and no futex word overlaps the `next` word of its own entry: rd handles
an entry before it reads its `next`, the kernel after. -/
theorem record_robust_futex_changes_loop_refines
    (hpend : mask_low_bit head.list_op_pending = 0)
    (hsep : ∀ e, futex_ptr head e + 4 ≤ e ∨ e + word_size arch ≤ futex_ptr head e) :
    ∀ {fuel cur : Nat} {t t' : RobustTask} {limit : Nat}, t.arch = arch →
      record_robust_futex_changes_loop head_ptr head fuel cur t = some t' → fuel ≤ limit →
        exit_robust_list_walk arch t.own_namespace_rec_tid head_ptr head limit cur (t.mem, t.recorded) =
          (t'.mem, t'.recorded)
  | 0, _, _, _, _, _, h, _ => by cases h
  | _ + 1, _, _, _, 0, _, _, hle => absurd hle (by omega)
  | fuel + 1, cur, t, t', limit + 1, harch, h, hle => by
    rw [record_robust_futex_changes_loop] at h
    rw [exit_robust_list_walk]
    by_cases hcur : cur = head_ptr
    case pos =>
      rw [if_pos hcur] at h
      cases h
      rw [if_pos hcur]
    case neg =>
    rw [if_neg hcur] at h
    rw [if_neg hcur]
    -- the handled entry: rd skips a null one, the kernel skips the pending one, `0`
    have hstep : (if cur ≠ mask_low_bit head.list_op_pending then
          handle_futex_death t.own_namespace_rec_tid (futex_ptr head cur) (t.mem, t.recorded)
        else (t.mem, t.recorded)) =
        ((record_robust_futex_change t head cur).mem, (record_robust_futex_change t head cur).recorded) := by
      rw [hpend, record_robust_futex_change_eq]
      by_cases h0 : cur = 0 <;> simp [h0]
    have hnext : read_word (record_robust_futex_change t head cur).mem t.arch cur =
        read_word t.mem t.arch cur :=
      read_word_record_robust_futex_change (by rw [harch]; exact hsep cur)
    simp only [record_robust_futex_change_arch, harch] at h hnext
    rw [hnext] at h
    rw [hstep]
    split at h
    · rename_i hnone
      cases h
      simp only [hnone]
    · rename_i n hn
      simp only [hn]
      have := record_robust_futex_changes_loop_refines hpend hsep
        ((record_robust_futex_change_arch t head cur).trans harch) h (show fuel ≤ limit by omega)
      simpa using this

end Refinement

/-- On a list rd walks within `ROBUST_LIST_LIMIT` turns, with nothing pending
and each futex word apart from its entry's `next`, rd writes and records
exactly what the kernel writes at exit. -/
theorem record_robust_futex_changes_refines {t t' : RobustTask} {head : RobustListHead}
    (hfresh : t.did_record_robust_futex_changes = false) (hptr : t.robust_list ≠ 0)
    (hhead : read_head t.mem t.arch t.robust_list = some head)
    (hpend : mask_low_bit head.list_op_pending = 0)
    (hsep : ∀ e, futex_ptr head e + 4 ≤ e ∨ e + word_size t.arch ≤ futex_ptr head e)
    (h : record_robust_futex_changes_arch ROBUST_LIST_LIMIT t = some t') :
    t'.mem = (exit_robust_list t).1 ∧ t'.recorded = t.recorded ++ (exit_robust_list t).2 := by
  unfold record_robust_futex_changes_arch at h
  simp only [hfresh, Bool.false_eq_true, if_false, hptr] at h
  split_ifs at h with hlen
  simp only [hhead] at h
  -- the pending entry is null, so rd's first change does nothing
  rw [hpend, record_robust_futex_change_eq, if_pos rfl] at h
  have hwalk := record_robust_futex_changes_loop_refines hpend hsep
    (show ({ t with did_record_robust_futex_changes := true } : RobustTask).arch = t.arch from rfl) h le_rfl
  unfold exit_robust_list
  simp only [hhead, hpend, if_pos]
  have happ : exit_robust_list_walk t.arch t.own_namespace_rec_tid t.robust_list head ROBUST_LIST_LIMIT
        (mask_low_bit head.list_next) (t.mem, t.recorded ++ []) = _ :=
    exit_robust_list_walk_append _ _ _ _ _ _
  simp only [List.append_nil] at happ
  simp only at hwalk
  rw [happ] at hwalk
  simp only [Prod.mk.injEq] at hwalk
  exact ⟨hwalk.1.symm, hwalk.2.symm⟩

/-- An x86-64 task of tid `1` whose list holds one entry, at `0x2000`, with its
futex word 16 bytes after it owned by the task. -/
theorem record_robust_futex_changes_of_one_owned_futex :
    let t : RobustTask :=
      { arch := .X64, robust_list := 0x1000, robust_list_len := 24, own_namespace_rec_tid := 1,
        did_record_robust_futex_changes := false,
        mem := ⟨fun _ => true, fun a =>
          if a = 0x1001 then 0x20 else if a = 0x2001 then 0x10 else if a = 0x1008 then 16
          else if a = 0x2010 then 1 else 0⟩,
        recorded := [] }
    ∃ t' head, t.did_record_robust_futex_changes = false ∧ t.robust_list ≠ 0 ∧
      read_head t.mem t.arch t.robust_list = some head ∧ mask_low_bit head.list_op_pending = 0 ∧
      (∀ e, futex_ptr head e + 4 ≤ e ∨ e + word_size t.arch ≤ futex_ptr head e) ∧
      record_robust_futex_changes_arch ROBUST_LIST_LIMIT t = some t' ∧
      t'.mem = (exit_robust_list t).1 ∧ t'.recorded = t.recorded ++ (exit_robust_list t).2 := by
  intro t
  have hhead : read_head t.mem t.arch t.robust_list = some ⟨0x2000, 16, 0⟩ := by decide
  have hpend : mask_low_bit (0 : Nat) = 0 := by decide
  -- the futex word is 16 bytes after each entry, apart from its word
  have hsep : ∀ e, futex_ptr ⟨0x2000, 16, 0⟩ e + 4 ≤ e ∨ e + word_size t.arch ≤ futex_ptr ⟨0x2000, 16, 0⟩ e := by
    intro e
    show ((e + 16 : Int) % 2 ^ 64).toNat + 4 ≤ e ∨ e + 8 ≤ ((e + 16 : Int) % 2 ^ 64).toNat
    omega
  obtain ⟨t', ht'⟩ := Option.isSome_iff_exists.1
    (by decide : (record_robust_futex_changes_arch ROBUST_LIST_LIMIT t).isSome)
  exact ⟨t', _, rfl, by decide, hhead, hpend, hsep, ht',
    record_robust_futex_changes_refines rfl (by decide) hhead hpend hsep ht'⟩

/-- An x86-64 task of tid `1` whose list head at `0x1000` points at an entry at
`0x2000`, which points at itself; the futex words sit 16 bytes after the
entries and hold `0`, and nothing is pending. -/
def cyclic_list_task : RobustTask where
  arch := .X64
  robust_list := 0x1000
  robust_list_len := 24
  own_namespace_rec_tid := 1
  did_record_robust_futex_changes := false
  mem := ⟨fun _ => true, fun a => if a = 0x1001 ∨ a = 0x2001 then 0x20 else if a = 0x1008 then 16 else 0⟩
  recorded := []

/-- On that list rd walks for ever, while the kernel stops at its limit having
changed nothing. -/
theorem record_never_ends_on_cycle_avoiding_head :
    (∀ fuel, record_robust_futex_changes_arch fuel cyclic_list_task = none) ∧
      exit_robust_list cyclic_list_task = (cyclic_list_task.mem, []) := by
  have hhead : read_head cyclic_list_task.mem .X64 0x1000 = some ⟨0x2000, 16, 0⟩ := by decide
  have hmask : mask_low_bit 0x2000 = 0x2000 := by decide
  have htrap : Trap cyclic_list_task.mem .X64 1 0x1000 ⟨0x2000, 16, 0⟩ (· = 0x2000) := by
    refine ⟨?_, ?_, ?_⟩ <;> rintro a rfl
    · decide
    · exact ⟨0x2000, by decide, hmask⟩
    · decide
  refine ⟨fun fuel => ?_, ?_⟩
  · have hloop := record_robust_futex_changes_loop_of_trap
      (t := { cyclic_list_task with did_record_robust_futex_changes := true }) htrap fuel 0x2000 rfl
    have hpend : mask_low_bit 0 = 0 := by decide
    unfold record_robust_futex_changes_arch
    rw [if_neg (by decide), if_neg (by decide), if_neg (by decide)]
    dsimp only
    rw [show cyclic_list_task.arch = .X64 from rfl, show cyclic_list_task.robust_list = 0x1000 from rfl,
      hhead]
    dsimp only
    rw [hpend, record_robust_futex_change_eq, if_pos rfl]
    exact hloop
  · unfold exit_robust_list
    rw [show cyclic_list_task.arch = .X64 from rfl, show cyclic_list_task.robust_list = 0x1000 from rfl,
      hhead]
    dsimp only
    rw [hmask, show cyclic_list_task.own_namespace_rec_tid = 1 from rfl, if_pos (by decide),
      exit_robust_list_walk_of_trap htrap _ _ _ rfl]

end RdReplay.Record
