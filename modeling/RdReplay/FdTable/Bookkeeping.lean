/-
  FdTable/Bookkeeping.lean --- the counter of each fd table counts its fds
  beyond `syscallbuf_fds_disabled`, and in a recording every call leaves the
  slots it touched right.

  Source: `fd_table.rs`, the comment on `fd_count_beyond_limit` ("Number of
  elements of `fds` that are >= SYSCALLBUF_FDS_DISABLED_SIZE") and
  `preload_interface.rs` on `syscallbuf_fds_disabled` (the last entry is set if
  any fd at or above it is monitored).

  THE COUNTER (`FdTable.Wf`).  Every call inserts or erases one fd and moves the
  counter when the fd is beyond the array and was absent, or present; the fds
  are `i32`s, so the `u32` counter never wraps (`Wf.insert_fd`, `Wf.erase_fd`).

  THE SLOTS (`SlotOk`).  The update loop writes the slot of its fd in every
  address space of the table's tasks with preload globals, the value
  `is_fd_monitored_in_any_task` gives (`update_loop_eq`); with right counters
  that value says whether a task there monitors an fd of that slot
  (`is_fd_monitored_in_any_task_iff`).  A call that closes several fds leaves
  each slot right, since a later close rewrites only its own slot
  (`foldl_did_close`).  In a replay session the loop does not run, and the
  slots stay as they were (`add_monitor_in_replay_keeps_slot`).
-/
import RdReplay.FdTable.Basic

set_option autoImplicit false

namespace RdReplay

/-! ## Slots -/

theorem adjusted_fd_le (fd : Int) : adjusted_fd fd ≤ SYSCALLBUF_FDS_DISABLED_SIZE - 1 := by
  unfold adjusted_fd SYSCALLBUF_FDS_DISABLED_SIZE
  split <;> omega

/-- An fd set has an fd of a slot below the array's end when it holds the
slot, or, for the last slot, any fd beyond the array. -/
theorem exists_adjusted_fd_eq_iff (fds : Finset Int) {slot : Int}
    (hslot : slot ≤ SYSCALLBUF_FDS_DISABLED_SIZE - 1) :
    (∃ g ∈ fds, adjusted_fd g = slot) ↔
      slot ∈ fds ∨ (SYSCALLBUF_FDS_DISABLED_SIZE - 1 ≤ slot ∧ ∃ g ∈ fds, SYSCALLBUF_FDS_DISABLED_SIZE ≤ g) := by
  unfold adjusted_fd at *
  constructor
  · rintro ⟨g, hg, hslot'⟩
    split at hslot'
    · exact .inr ⟨hslot'.le, g, hg, ‹_›⟩
    · exact .inl (hslot' ▸ hg)
  · rintro (h | ⟨hle, g, hg, hbeyond⟩)
    · refine ⟨slot, h, ?_⟩
      rw [if_neg]
      unfold SYSCALLBUF_FDS_DISABLED_SIZE at *
      omega
    · refine ⟨g, hg, ?_⟩
      rw [if_pos hbeyond]
      omega

namespace FdTable

/-! ## The counter -/

/-- A table whose fds are `i32`s at or above zero and whose counter counts
those beyond the array. -/
structure Wf (t : FdTable) : Prop where
  valid : ∀ fd ∈ t.fds, FdCall.valid_fd fd
  count : t.fd_count_beyond_limit.toNat =
    (t.fds.filter fun fd => SYSCALLBUF_FDS_DISABLED_SIZE ≤ fd).card

theorem wf_create : create.Wf where
  valid := fun _ h => absurd h (Finset.notMem_empty _)
  count := rfl

/-- A set of `i32`s at or above zero has at most `2 ^ 31` elements. -/
theorem card_le_of_valid {fds : Finset Int} (h : ∀ fd ∈ fds, FdCall.valid_fd fd) :
    fds.card ≤ 2 ^ 31 := by
  have hsub : fds ⊆ Finset.Ico 0 (2 ^ 31) := fun fd hfd => Finset.mem_Ico.2 (h fd hfd)
  calc fds.card ≤ (Finset.Ico (0 : Int) (2 ^ 31)).card := Finset.card_le_card hsub
    _ = 2 ^ 31 := by rw [Int.card_Ico]; rfl

variable {t : FdTable} {fd : Int}

/-- Inserting an fd, counted when it is new and beyond the array. -/
theorem Wf.insert_fd (hw : t.Wf) (hfd : FdCall.valid_fd fd) :
    (⟨insert fd t.fds,
      if SYSCALLBUF_FDS_DISABLED_SIZE ≤ fd ∧ fd ∉ t.fds then t.fd_count_beyond_limit + 1
      else t.fd_count_beyond_limit⟩ : FdTable).Wf := by
  have hvalid : ∀ x ∈ insert fd t.fds, FdCall.valid_fd x := by
    intro x hx
    rcases Finset.mem_insert.1 hx with rfl | hx
    · exact hfd
    · exact hw.valid x hx
  refine ⟨hvalid, ?_⟩
  dsimp only
  split
  · rename_i hnew
    have hcard : ((insert fd t.fds).filter fun x => SYSCALLBUF_FDS_DISABLED_SIZE ≤ x).card =
        (t.fds.filter fun x => SYSCALLBUF_FDS_DISABLED_SIZE ≤ x).card + 1 := by
      rw [Finset.filter_insert, if_pos hnew.1,
        Finset.card_insert_of_notMem fun h => hnew.2 (Finset.mem_filter.1 h).1]
    have hle : ((insert fd t.fds).filter fun x => SYSCALLBUF_FDS_DISABLED_SIZE ≤ x).card ≤ 2 ^ 31 :=
      card_le_of_valid fun x hx => hvalid x (Finset.mem_filter.1 hx).1
    rw [UInt32.toNat_add, UInt32.toNat_one, hw.count]
    rw [hcard] at hle ⊢
    omega
  · rename_i hold
    rw [hw.count, Finset.filter_insert]
    split
    · rw [Finset.insert_eq_of_mem]
      exact Finset.mem_filter.2 ⟨by_contra fun h => hold ⟨‹_›, h⟩, ‹_›⟩
    · rfl

/-- Erasing an fd, uncounted when it was present and beyond the array. -/
theorem Wf.erase_fd (hw : t.Wf) :
    (⟨t.fds.erase fd,
      if SYSCALLBUF_FDS_DISABLED_SIZE ≤ fd ∧ fd ∈ t.fds then t.fd_count_beyond_limit - 1
      else t.fd_count_beyond_limit⟩ : FdTable).Wf := by
  refine ⟨fun x hx => hw.valid x (Finset.mem_of_mem_erase hx), ?_⟩
  dsimp only
  rw [Finset.filter_erase]
  split
  · rename_i hold
    have hmem : fd ∈ t.fds.filter fun x => SYSCALLBUF_FDS_DISABLED_SIZE ≤ x :=
      Finset.mem_filter.2 ⟨hold.2, hold.1⟩
    have hpos : 1 ≤ t.fd_count_beyond_limit.toNat := by
      rw [hw.count]
      exact Finset.card_pos.2 ⟨fd, hmem⟩
    have hle : 1 ≤ t.fd_count_beyond_limit := by
      rw [UInt32.le_iff_toNat_le, UInt32.toNat_one]
      exact hpos
    rw [UInt32.toNat_sub_of_le _ _ hle, UInt32.toNat_one, hw.count,
      Finset.card_erase_of_mem hmem]
  · rename_i hold
    rw [hw.count, Finset.erase_eq_of_notMem]
    exact fun h => hold ⟨(Finset.mem_filter.1 h).2, (Finset.mem_filter.1 h).1⟩

theorem Wf.add_monitor {t' : FdTable} (hw : t.Wf) (hfd : FdCall.valid_fd fd)
    (h : t.add_monitor fd = some t') : t'.Wf := by
  unfold FdTable.add_monitor at h
  split at h
  · cases h
  · cases h
    exact hw.insert_fd hfd

theorem Wf.did_dup {from_fd to_fd : Int} (hw : t.Wf) (hto : FdCall.valid_fd to_fd) :
    (t.did_dup from_fd to_fd).Wf := by
  unfold FdTable.did_dup
  split
  · exact hw.insert_fd hto
  · exact hw.erase_fd

theorem Wf.did_close (hw : t.Wf) : (t.did_close fd).Wf := hw.erase_fd

/-- With a right counter, the test `is_fd_monitored_in_any_task` makes of one
table says whether it holds an fd of the slot. -/
theorem Wf.monitors_iff (hw : t.Wf) (fd : Int) :
    (t.is_monitoring (adjusted_fd fd) ||
      (decide (adjusted_fd fd ≥ SYSCALLBUF_FDS_DISABLED_SIZE - 1) && decide (t.count_beyond_limit > 0))) = true ↔
    ∃ g ∈ t.fds, adjusted_fd g = adjusted_fd fd := by
  have hcount : t.count_beyond_limit > 0 ↔ ∃ g ∈ t.fds, SYSCALLBUF_FDS_DISABLED_SIZE ≤ g := by
    rw [count_beyond_limit, gt_iff_lt, UInt32.lt_iff_toNat_lt, hw.count, UInt32.toNat_zero, Finset.card_pos]
    constructor
    · rintro ⟨g, hg⟩
      exact ⟨g, (Finset.mem_filter.1 hg).1, (Finset.mem_filter.1 hg).2⟩
    · rintro ⟨g, hg, hbeyond⟩
      exact ⟨g, Finset.mem_filter.2 ⟨hg, hbeyond⟩⟩
  rw [exists_adjusted_fd_eq_iff t.fds (adjusted_fd_le fd), ← hcount]
  simp [is_monitoring]

end FdTable

namespace FdSession

variable {s : FdSession}

/-! ## What the calls leave alone -/

@[simp] theorem write_disabled_fd_tables (vm : Nat) (fd : Int) (v : UInt8) :
    (s.write_disabled vm fd v).fd_tables = s.fd_tables := rfl

@[simp] theorem write_disabled_tasks (vm : Nat) (fd : Int) (v : UInt8) :
    (s.write_disabled vm fd v).tasks = s.tasks := rfl

@[simp] theorem write_disabled_preload_globals (vm : Nat) (fd : Int) (v : UInt8) :
    (s.write_disabled vm fd v).preload_globals = s.preload_globals := rfl

@[simp] theorem write_disabled_syscallbuf_fds_disabled (vm : Nat) (fd : Int) (v : UInt8) :
    (s.write_disabled vm fd v).syscallbuf_fds_disabled =
      Function.update s.syscallbuf_fds_disabled vm (Function.update (s.syscallbuf_fds_disabled vm) fd v) :=
  rfl

@[simp] theorem write_disabled_is_fd_monitored_in_any_task (vm : Nat) (fd : Int) (v : UInt8) :
    (s.write_disabled vm fd v).is_fd_monitored_in_any_task = s.is_fd_monitored_in_any_task := rfl

/-- The update loop writes the slot of `fd` in every address space of its
tasks that it has not updated yet and that has preload globals, with the value
`is_fd_monitored_in_any_task` gives there, and nothing else. -/
theorem update_loop_eq (fd : Int) : ∀ (L : List TaskFds) (V : List Nat) (s : FdSession),
    update_syscallbuf_fds_disabled_loop fd L V s =
      { s with syscallbuf_fds_disabled := fun vm x =>
          if (vm ∈ L.map TaskFds.vm ∧ vm ∉ V) ∧ s.preload_globals vm = true ∧ x = adjusted_fd fd then
            (if s.is_fd_monitored_in_any_task vm x then 1 else 0)
          else s.syscallbuf_fds_disabled vm x } := by
  intro L
  induction L with
  | nil =>
    intro V s
    simp [update_syscallbuf_fds_disabled_loop]
  | cons t rest ih =>
    intro V s
    unfold update_syscallbuf_fds_disabled_loop
    by_cases hV : t.vm ∈ V
    · -- an address space already updated is passed over
      rw [if_pos hV, ih]
      congr 1
      funext vm x
      by_cases hvm : vm = t.vm
      · subst hvm
        simp [hV]
      · simp [hvm]
    · rw [if_neg hV]
      dsimp only
      cases hp : s.preload_globals t.vm
      · rw [if_neg (by simp), ih]
        congr 1
        funext vm x
        by_cases hvm : vm = t.vm
        · subst hvm
          simp [hp]
        · simp [hvm]
      · rw [if_pos rfl, ih]
        congr 1
        funext vm x
        by_cases hvm : vm = t.vm
        · subst hvm
          by_cases hx : x = adjusted_fd fd
          · subst hx
            simp [hV, hp]
          · simp [hx]
        · simp only [write_disabled_syscallbuf_fds_disabled, Function.update_of_ne hvm,
            write_disabled_preload_globals, write_disabled_is_fd_monitored_in_any_task, List.map_cons,
            List.mem_cons, hvm, false_or]
          exact if_congr Iff.rfl rfl rfl

theorem update_syscallbuf_fds_disabled_eq (tb : Nat) (fd : Int) :
    s.update_syscallbuf_fds_disabled tb fd =
      if s.is_recording then
        { s with syscallbuf_fds_disabled := fun vm x =>
            if (∃ t ∈ s.task_set tb, t.vm = vm) ∧ s.preload_globals vm = true ∧ x = adjusted_fd fd then
              (if s.is_fd_monitored_in_any_task vm x then 1 else 0)
            else s.syscallbuf_fds_disabled vm x }
      else s := by
  unfold update_syscallbuf_fds_disabled
  split
  · rw [update_loop_eq]
    simp
  · rfl

@[simp] theorem update_fd_tables (tb : Nat) (fd : Int) :
    (s.update_syscallbuf_fds_disabled tb fd).fd_tables = s.fd_tables := by
  rw [update_syscallbuf_fds_disabled_eq]
  split <;> rfl

@[simp] theorem update_tasks (tb : Nat) (fd : Int) :
    (s.update_syscallbuf_fds_disabled tb fd).tasks = s.tasks := by
  rw [update_syscallbuf_fds_disabled_eq]
  split <;> rfl

@[simp] theorem update_is_recording (tb : Nat) (fd : Int) :
    (s.update_syscallbuf_fds_disabled tb fd).is_recording = s.is_recording := by
  rw [update_syscallbuf_fds_disabled_eq]
  split <;> rfl

@[simp] theorem update_preload_globals (tb : Nat) (fd : Int) :
    (s.update_syscallbuf_fds_disabled tb fd).preload_globals = s.preload_globals := by
  rw [update_syscallbuf_fds_disabled_eq]
  split <;> rfl

/-- The update writes no slot but its fd's. -/
theorem update_disabled_of_ne {tb : Nat} {fd x : Int} (hx : x ≠ adjusted_fd fd) (vm : Nat) :
    (s.update_syscallbuf_fds_disabled tb fd).syscallbuf_fds_disabled vm x = s.syscallbuf_fds_disabled vm x := by
  rw [update_syscallbuf_fds_disabled_eq]
  split
  · simp [hx]
  · rfl

@[simp] theorem set_table_tasks (tb : Nat) (t : FdTable) : (s.set_table tb t).tasks = s.tasks := rfl

@[simp] theorem set_table_is_recording (tb : Nat) (t : FdTable) :
    (s.set_table tb t).is_recording = s.is_recording := rfl

@[simp] theorem set_table_preload_globals (tb : Nat) (t : FdTable) :
    (s.set_table tb t).preload_globals = s.preload_globals := rfl

@[simp] theorem set_table_syscallbuf_fds_disabled (tb : Nat) (t : FdTable) :
    (s.set_table tb t).syscallbuf_fds_disabled = s.syscallbuf_fds_disabled := rfl

theorem set_table_fd_tables (tb : Nat) (t : FdTable) (tb' : Nat) :
    (s.set_table tb t).fd_tables tb' = if tb' = tb then t else s.fd_tables tb' := by
  simp [set_table, Function.update_apply]

/-! ## The counters -/

/-- Every table's counter is right. -/
def Wf (s : FdSession) : Prop := ∀ tb, (s.fd_tables tb).Wf

theorem Wf.set_table {tb : Nat} {t : FdTable} (hw : s.Wf) (ht : t.Wf) : (s.set_table tb t).Wf := by
  intro tb'
  rw [set_table_fd_tables]
  split
  · exact ht
  · exact hw tb'

theorem Wf.update (hw : s.Wf) (tb : Nat) (fd : Int) : (s.update_syscallbuf_fds_disabled tb fd).Wf := by
  intro tb'
  rw [update_fd_tables]
  exact hw tb'

theorem Wf.did_close (hw : s.Wf) (tb : Nat) (fd : Int) : (s.did_close tb fd).Wf :=
  (hw.set_table (hw tb).did_close).update tb fd

theorem Wf.foldl_did_close (tb : Nat) :
    ∀ (L : List Int) {s : FdSession}, s.Wf → (L.foldl (fun s fd => s.did_close tb fd) s).Wf := by
  intro L
  induction L with
  | nil => exact fun hw => hw
  | cons fd rest ih => exact fun hw => ih (hw.did_close tb fd)

/-! ## The slots -/

/-- A task of `vm` monitors an fd of slot `slot`. -/
def monitors_slot (s : FdSession) (vm : Nat) (slot : Int) : Prop :=
  ∃ t ∈ s.tasks, t.vm = vm ∧ ∃ fd ∈ (s.fd_tables t.fd_table).fds, adjusted_fd fd = slot

/-- Slot `slot` of `syscallbuf_fds_disabled` is right in every address space
with preload globals that has a task of table `tb`: it is `1` exactly when a
task there monitors an fd of that slot. -/
def SlotOk (s : FdSession) (tb : Nat) (slot : Int) : Prop :=
  ∀ vm, s.preload_globals vm = true → (∃ t ∈ s.task_set tb, t.vm = vm) →
    (s.syscallbuf_fds_disabled vm slot = 1 ↔ s.monitors_slot vm slot)

/-- With right counters, `is_fd_monitored_in_any_task` at a slot says whether
a task of the address space monitors an fd of that slot. -/
theorem is_fd_monitored_in_any_task_iff (hw : s.Wf) (vm : Nat) (fd : Int) :
    s.is_fd_monitored_in_any_task vm (adjusted_fd fd) = true ↔ s.monitors_slot vm (adjusted_fd fd) := by
  unfold is_fd_monitored_in_any_task monitors_slot
  rw [List.any_eq_true]
  refine exists_congr fun t => and_congr_right fun _ => ?_
  rw [Bool.and_eq_true, decide_eq_true_eq, (hw t.fd_table).monitors_iff fd]

/-- In a recording, the update leaves the slot of its fd right. -/
theorem slot_ok_update (hw : s.Wf) (hrec : s.is_recording = true) (tb : Nat) (fd : Int) :
    (s.update_syscallbuf_fds_disabled tb fd).SlotOk tb (adjusted_fd fd) := by
  intro vm hp ht
  have hmon : (s.update_syscallbuf_fds_disabled tb fd).monitors_slot vm (adjusted_fd fd) ↔
      s.monitors_slot vm (adjusted_fd fd) := by
    simp only [monitors_slot, update_tasks, update_fd_tables]
  rw [update_preload_globals] at hp
  simp only [task_set, update_tasks] at ht
  rw [hmon, ← is_fd_monitored_in_any_task_iff hw, update_syscallbuf_fds_disabled_eq, if_pos hrec]
  dsimp only
  rw [if_pos ⟨ht, hp, rfl⟩]
  cases s.is_fd_monitored_in_any_task vm (adjusted_fd fd) <;> decide

/-- An update of another slot keeps a slot right. -/
theorem SlotOk.update_of_ne {tb tb' : Nat} {slot fd : Int} (h : s.SlotOk tb slot)
    (hne : adjusted_fd fd ≠ slot) : (s.update_syscallbuf_fds_disabled tb' fd).SlotOk tb slot := by
  intro vm hp ht
  rw [update_preload_globals] at hp
  simp only [task_set, update_tasks] at ht
  rw [update_disabled_of_ne (Ne.symm hne)]
  simp only [monitors_slot, update_tasks, update_fd_tables]
  exact h vm hp ht

/-- A new table that holds the same fds of a slot keeps that slot right. -/
theorem SlotOk.set_table {tb tb' : Nat} {slot : Int} {t : FdTable} (h : s.SlotOk tb slot)
    (hfds : ∀ g, adjusted_fd g = slot → (g ∈ t.fds ↔ g ∈ (s.fd_tables tb').fds)) :
    (s.set_table tb' t).SlotOk tb slot := by
  intro vm hp ht
  rw [set_table_syscallbuf_fds_disabled, h vm hp ht]
  unfold monitors_slot
  refine exists_congr fun u => and_congr_right fun _ => and_congr_right fun _ => ?_
  rw [set_table_fd_tables]
  split
  · rename_i hu
    rw [hu]
    exact exists_congr fun g => ⟨fun ⟨hg, hs⟩ => ⟨(hfds g hs).2 hg, hs⟩, fun ⟨hg, hs⟩ => ⟨(hfds g hs).1 hg, hs⟩⟩
  · exact Iff.rfl

/-- A close keeps right every slot but its own. -/
theorem SlotOk.did_close_of_ne {tb : Nat} {slot fd : Int} (h : s.SlotOk tb slot)
    (hne : adjusted_fd fd ≠ slot) : (s.did_close tb fd).SlotOk tb slot := by
  refine (h.set_table fun g hg => ?_).update_of_ne hne
  have hgf : g ≠ fd := by
    rintro rfl
    exact hne hg
  exact Finset.mem_erase.trans (and_iff_right hgf)

/-- In a recording, closing a list of fds one by one leaves the slot of each
right, and every slot none of them shares as it was. -/
theorem slot_ok_foldl_did_close (tb : Nat) :
    ∀ (L : List Int) {s : FdSession}, s.Wf → s.is_recording = true →
      (∀ fd ∈ L, (L.foldl (fun s fd => s.did_close tb fd) s).SlotOk tb (adjusted_fd fd)) ∧
      ∀ slot, (∀ fd ∈ L, adjusted_fd fd ≠ slot) → s.SlotOk tb slot →
        (L.foldl (fun s fd => s.did_close tb fd) s).SlotOk tb slot := by
  intro L
  induction L with
  | nil => exact fun _ _ => ⟨fun _ h => absurd h List.not_mem_nil, fun _ _ h => h⟩
  | cons fd rest ih =>
    intro s hw hrec
    have hrec₁ : (s.did_close tb fd).is_recording = true := by
      simp [did_close, hrec]
    have hok₁ : (s.did_close tb fd).SlotOk tb (adjusted_fd fd) :=
      slot_ok_update (hw.set_table (hw tb).did_close) hrec tb fd
    obtain ⟨hrest, hframe⟩ := ih (hw.did_close tb fd) hrec₁
    refine ⟨fun g hg => ?_, fun slot hslot h => ?_⟩
    · rcases List.mem_cons.1 hg with rfl | hg
      · -- the slot of `g` is right after its close, unless a later close of the slot rewrote it
        by_cases hlater : ∃ g' ∈ rest, adjusted_fd g' = adjusted_fd g
        · obtain ⟨g', hg', heq⟩ := hlater
          rw [← heq]
          exact hrest g' hg'
        · exact hframe _ (fun g' hg' heq => hlater ⟨g', hg', heq⟩) hok₁
      · exact hrest g hg
    · exact hframe slot (fun g hg => hslot g (List.mem_cons_of_mem _ hg))
        (h.did_close_of_ne (hslot fd List.mem_cons_self))

/-! ## Every call -/

/-- The shape of the calls on one fd: write table `tb`, then update the slot of
`fd`.  A right table keeps the counters right, and in a recording the slot of
`fd` is right after. -/
theorem write_update_spec {tb : Nat} {t : FdTable} {fd : Int} (hw : s.Wf) (ht : t.Wf) :
    ((s.set_table tb t).update_syscallbuf_fds_disabled tb fd).Wf ∧
      (s.is_recording = true → ∀ g ∈ [fd],
        ((s.set_table tb t).update_syscallbuf_fds_disabled tb fd).SlotOk tb (adjusted_fd g)) := by
  have hw' : (s.set_table tb t).Wf := hw.set_table ht
  refine ⟨hw'.update tb fd, fun hrec g hg => ?_⟩
  rw [List.mem_singleton.1 hg]
  exact slot_ok_update hw' hrec tb fd

/-- The shape of the calls that close a list of fds one by one. -/
theorem foldl_did_close_spec (tb : Nat) (L : List Int) (hw : s.Wf) :
    (L.foldl (fun s fd => s.did_close tb fd) s).Wf ∧
      (s.is_recording = true →
        ∀ fd ∈ L, (L.foldl (fun s fd => s.did_close tb fd) s).SlotOk tb (adjusted_fd fd)) :=
  ⟨Wf.foldl_did_close tb L hw, fun hrec => (slot_ok_foldl_did_close tb L hw hrec).1⟩

/-- Each call keeps the counters right, and in a recording leaves right the
slot of every fd it was made on. -/
theorem step_spec {c : FdCall} {r : FdSession × List Int} (hw : s.Wf) (hc : s.Called c)
    (h : s.step c = some r) :
    r.1.Wf ∧ (s.is_recording = true → ∀ fd ∈ r.2, r.1.SlotOk c.fd_table (adjusted_fd fd)) := by
  cases c with
  | add_monitor tb fd =>
    obtain ⟨s', hs', rfl⟩ := Option.map_eq_some_iff.1 h
    obtain ⟨t', ht', rfl⟩ := Option.map_eq_some_iff.1 hs'
    exact write_update_spec hw ((hw tb).add_monitor hc ht')
  | did_dup tb from_fd to_fd =>
    cases h
    exact write_update_spec hw ((hw tb).did_dup hc)
  | did_close tb fd =>
    cases h
    exact write_update_spec hw (hw tb).did_close
  | fds_to_close_after_exec tb t is_fd_open =>
    change s.fds_to_close_after_exec tb t is_fd_open = some r at h
    unfold fds_to_close_after_exec at h
    split at h
    · cases h
      exact foldl_did_close_spec tb _ hw
    · cases h
  | close_after_exec tb t fds_to_close =>
    obtain ⟨s', hs', rfl⟩ := Option.map_eq_some_iff.1 h
    unfold close_after_exec at hs'
    split at hs'
    · cases hs'
      exact foldl_did_close_spec tb _ hw
    · cases hs'
  | clone_into_task tb t =>
    cases h
    exact ⟨hw.set_table (hw tb), fun _ _ hg => absurd hg List.not_mem_nil⟩

theorem Reachable.wf (h : s.Reachable) : s.Wf := by
  induction h with
  | init => exact fun _ => FdTable.wf_create
  | step _ hc hs ih => exact (step_spec ih hc hs).1

/-- The fd bookkeeping of a session: every counter counts the monitored fds
beyond `syscallbuf_fds_disabled`, and in a recording any call leaves right the
slot of each fd it was made on, in every address space with preload globals
that has a task of the table. -/
structure MonitorBookkeeping (s : FdSession) : Prop where
  count : ∀ tb, (s.fd_tables tb).fd_count_beyond_limit.toNat =
    ((s.fd_tables tb).fds.filter fun fd => SYSCALLBUF_FDS_DISABLED_SIZE ≤ fd).card
  slots : ∀ c r, s.Called c → s.step c = some r → s.is_recording = true →
    ∀ fd ∈ r.2, r.1.SlotOk c.fd_table (adjusted_fd fd)

theorem reachable_monitor_bookkeeping (h : s.Reachable) : s.MonitorBookkeeping where
  count := fun tb => (h.wf tb).count
  slots := fun _ _ hc hs hrec => (step_spec h.wf hc hs).2 hrec

/-- A recording of two tasks of one address space, each with its own table:
fd 5 monitored in the first table, fd 2000, past the array, in the second, and
5 duplicated onto 7 in the first. -/
theorem monitor_bookkeeping_after_dup :
    ∃ r₁ r₂ r₃ : FdSession × List Int,
      (init [⟨0, 0⟩, ⟨0, 1⟩] true (fun _ => true) (fun _ _ => 0)).step (.add_monitor 0 5) = some r₁ ∧
      r₁.1.step (.add_monitor 1 2000) = some r₂ ∧ r₂.1.step (.did_dup 0 5 7) = some r₃ ∧
      r₃.1.MonitorBookkeeping := by
  refine ⟨_, _, _, rfl, rfl, rfl, ?_⟩
  have hvalid : ∀ fd : Int, 0 ≤ fd → fd < 2 ^ 31 → FdCall.valid_fd fd := fun _ h0 h1 => ⟨h0, h1⟩
  -- the three calls, each from the state the one before reached
  exact reachable_monitor_bookkeeping
    (.step (c := .did_dup 0 5 7)
      (.step (c := .add_monitor 1 2000)
        (.step (c := .add_monitor 0 5) (.init [⟨0, 0⟩, ⟨0, 1⟩] true (fun _ => true) (fun _ _ => 0))
          (hvalid 5 (by decide) (by decide)) (by rfl))
        (hvalid 2000 (by decide) (by decide)) (by rfl))
      (hvalid 7 (by decide) (by decide)) (by rfl))

/-- In a replay session, `add_monitor` of fd `5` leaves its slot `0` in an
address space with preload globals, though the fd is now monitored there. -/
theorem add_monitor_in_replay_keeps_slot :
    ((init [⟨0, 0⟩] false (fun _ => true) (fun _ _ => 0)).step (.add_monitor 0 5)).map
      (fun r => (r.1.syscallbuf_fds_disabled 0 5, (r.1.fd_tables 0).is_monitoring 5)) = some (0, true) := by
  decide

end FdSession

end RdReplay
