/-
  Record/SyscallAbort.lean --- what `done_preparing` changes in the tracee, and
  that `abort_syscall_results` changes it back.

  WITH SCRATCH, preparing writes only inside the scratch slots (the copies,
  the pointers found in the copies, and the mutators' work), and points the
  registers at the slots.  Aborting points the registers back at the buffers
  and writes each in-memory pointer back: the word it writes is the one that
  was there, since registration read the buffer's address from it (`RegInv`).
  So every register, and every byte outside the slots, is as before.  This
  needs each in-memory pointer to lie in exactly one buffer with a slot, or
  preparing writes its relocated copy at a null (`InScratchBuffer`).

  WITHOUT SCRATCH, the mutators change the tracee's own buffers, each saving
  the bytes it found, and the saved data is the concatenation of those bytes
  in registration order (`run_mutators_saved`).  Restoring walks the
  parameters in the same order and writes each chunk back over its buffer.
  The chunks are consumed exactly (`restore_run_mutators_consumes`), so the
  saved data ends empty; but only when the mutated buffers are apart
  (`MutatedApart`) is what is written back what the tracee had: a later
  mutator saved bytes an earlier one had already changed, and restoring in
  registration order leaves those in place (`overlapping_mutators_leave_change`).
-/
import RdReplay.Record.ScratchLayout

set_option autoImplicit false

namespace RdReplay.Record

/-! ## Words and folds -/

/-- Bytes read as a little-endian word and written back are the same bytes. -/
theorem le_bytes_le_value : ∀ (bs : List UInt8), le_bytes bs.length (le_value bs) = bs
  | [] => rfl
  | b :: bs => by
    have hb := b.toNat_lt
    have hdiv : (b.toNat + 256 * le_value bs) / 256 = le_value bs := by omega
    have hlow : UInt8.ofNat (b.toNat + 256 * le_value bs) = b := by
      apply UInt8.toNat_inj.1
      rw [UInt8.toNat_ofNat']
      omega
    simp only [List.length_cons, le_bytes, le_value, hdiv, hlow, le_bytes_le_value bs]

/-- The word `get_remote_ptr` reads from `mem'`, written by `set_remote_ptr`,
is the bytes it was read from. -/
theorem set_remote_ptr_get_remote_ptr (mem mem' : Nat → UInt8) (arch : SupportedArch) (addr : Nat) :
    set_remote_ptr mem arch addr (get_remote_ptr mem' arch addr) =
      write_bytes mem addr (read_mem mem' addr (word_size arch)) := by
  have h := le_bytes_le_value (read_mem mem' addr (word_size arch))
  rw [length_read_mem] at h
  rw [set_remote_ptr, get_remote_ptr, h]

/-- Bytes copied from `mem'` leave each byte as it was or as in `mem'`. -/
theorem write_bytes_read_mem_apply (mem mem' : Nat → UInt8) (addr n a : Nat) :
    write_bytes mem addr (read_mem mem' addr n) a = mem a ∨
      write_bytes mem addr (read_mem mem' addr n) a = mem' a := by
  by_cases h : addr ≤ a ∧ a < addr + n
  · right
    rw [write_bytes_inside h.1 (by simpa using h.2), getD_read_mem (by omega)]
    congr 1
    omega
  · left
    exact write_bytes_outside (by simp only [length_read_mem]; omega)

/-- A property each step of a fold keeps holds of the fold. -/
theorem foldl_preserves {α β : Type} {f : β → α → β} (P : β → Prop) :
    ∀ (l : List α) (b : β), P b → (∀ b, ∀ x ∈ l, P b → P (f b x)) → P (l.foldl f b)
  | [], _, hb, _ => hb
  | x :: l, b, hb, hf =>
    foldl_preserves P l (f b x) (hf b x (List.mem_cons_self ..) hb) fun b y hy => hf b y (List.mem_cons_of_mem _ hy)

theorem forall₂_exists_mem_right {α β : Type} {R : α → β → Prop} :
    ∀ {l₁ : List α} {l₂ : List β}, List.Forall₂ R l₁ l₂ → ∀ a ∈ l₁, ∃ b ∈ l₂, R a b
  | _, _, .nil, _, ha => absurd ha List.not_mem_nil
  | _, _, .cons hab h, a, ha => by
    rcases List.mem_cons.1 ha with rfl | ha
    · exact ⟨_, List.mem_cons_self .., hab⟩
    · obtain ⟨b, hb, hr⟩ := forall₂_exists_mem_right h a ha
      exact ⟨b, List.mem_cons_of_mem _ hb, hr⟩

/-! ## The mutators -/

/-- `q` is `p`, with perhaps its mutator dropped. -/
def ParamKept (q p : MemoryParam) : Prop :=
  q.dest = p.dest ∧ q.scratch = p.scratch ∧ q.num_bytes = p.num_bytes ∧ q.ptr_in_memory = p.ptr_in_memory ∧
    q.ptr_in_reg = p.ptr_in_reg ∧ q.mode = p.mode ∧ (q.maybe_mutator.isSome = true → p.maybe_mutator.isSome = true)

theorem ParamKept.refl (p : MemoryParam) : ParamKept p p :=
  ⟨rfl, rfl, rfl, rfl, rfl, rfl, id⟩

section Mutators

variable {scratch_enabled : Bool} {p : MemoryParam} {ps : List MemoryParam} {mem : Nat → UInt8}
  {saved_data : List UInt8}

/-- The region a mutator works on: the slot with scratch, the buffer without. -/
def mutated_addr (scratch_enabled : Bool) (p : MemoryParam) : Nat :=
  if scratch_enabled then p.scratch else p.dest

/-- One turn of `run_mutators`, on the parameter at the head. -/
theorem run_mutators_cons :
    run_mutators scratch_enabled (p :: ps) mem saved_data =
      match p.maybe_mutator with
      | none => (p :: (run_mutators scratch_enabled ps mem saved_data).1,
          (run_mutators scratch_enabled ps mem saved_data).2)
      | some mutator =>
        match mutator.mutate (read_mem mem (mutated_addr scratch_enabled p) p.num_bytes.incoming_size) with
        | none => ({ p with maybe_mutator := none } :: (run_mutators scratch_enabled ps mem saved_data).1,
            (run_mutators scratch_enabled ps mem saved_data).2)
        | some new =>
          let r := run_mutators scratch_enabled ps (write_bytes mem (mutated_addr scratch_enabled p) new)
            (if scratch_enabled then saved_data
              else saved_data ++ read_mem mem (mutated_addr scratch_enabled p) p.num_bytes.incoming_size)
          (p :: r.1, r.2) :=
  rfl

theorem run_mutators_cons_of_none (hm : p.maybe_mutator = none) :
    run_mutators scratch_enabled (p :: ps) mem saved_data =
      (p :: (run_mutators scratch_enabled ps mem saved_data).1, (run_mutators scratch_enabled ps mem saved_data).2) := by
  rw [run_mutators_cons, hm]

theorem run_mutators_cons_of_unchanged {mutator : ArgMutator} (hm : p.maybe_mutator = some mutator)
    (hnew : mutator.mutate (read_mem mem (mutated_addr scratch_enabled p) p.num_bytes.incoming_size) = none) :
    run_mutators scratch_enabled (p :: ps) mem saved_data =
      ({ p with maybe_mutator := none } :: (run_mutators scratch_enabled ps mem saved_data).1,
        (run_mutators scratch_enabled ps mem saved_data).2) := by
  rw [run_mutators_cons, hm]
  dsimp only
  rw [hnew]

theorem run_mutators_cons_of_changed {mutator : ArgMutator} {new : List UInt8}
    (hm : p.maybe_mutator = some mutator)
    (hnew : mutator.mutate (read_mem mem (mutated_addr scratch_enabled p) p.num_bytes.incoming_size) = some new) :
    run_mutators scratch_enabled (p :: ps) mem saved_data =
      let r := run_mutators scratch_enabled ps (write_bytes mem (mutated_addr scratch_enabled p) new)
        (if scratch_enabled then saved_data
          else saved_data ++ read_mem mem (mutated_addr scratch_enabled p) p.num_bytes.incoming_size)
      (p :: r.1, r.2) := by
  rw [run_mutators_cons, hm]
  dsimp only
  rw [hnew]

/-- A mutator writes as many bytes as its region has. -/
theorem length_of_changed {mutator : ArgMutator} {old new : List UInt8} (hnew : mutator.mutate old = some new) :
    new.length = old.length :=
  mutator.length_eq _ _ hnew

end Mutators

section Mutators

variable (scratch_enabled : Bool)

/-- The mutators keep the parameters, dropping the mutators that changed
nothing. -/
theorem run_mutators_kept :
    ∀ (ps : List MemoryParam) (mem : Nat → UInt8) (saved_data : List UInt8),
      List.Forall₂ ParamKept (run_mutators scratch_enabled ps mem saved_data).1 ps
  | [], _, _ => .nil
  | p :: ps, mem, saved_data => by
    rcases hm : p.maybe_mutator with _ | mutator
    · rw [run_mutators_cons_of_none hm]
      exact .cons (ParamKept.refl p) (run_mutators_kept ps _ _)
    rcases hnew : mutator.mutate (read_mem mem (mutated_addr scratch_enabled p) p.num_bytes.incoming_size)
      with _ | new
    · rw [run_mutators_cons_of_unchanged hm hnew]
      exact .cons ⟨rfl, rfl, rfl, rfl, rfl, rfl, by simp⟩ (run_mutators_kept ps _ _)
    · rw [run_mutators_cons_of_changed hm hnew]
      exact .cons (ParamKept.refl p) (run_mutators_kept ps _ _)

/-- The bytes saved while mutating follow those saved before. -/
theorem run_mutators_saved :
    ∀ (ps : List MemoryParam) (mem : Nat → UInt8) (saved_data : List UInt8),
      (run_mutators scratch_enabled ps mem saved_data).2.2 =
        saved_data ++ (run_mutators scratch_enabled ps mem []).2.2
  | [], _, _ => by simp [run_mutators]
  | p :: ps, mem, saved_data => by
    rcases hm : p.maybe_mutator with _ | mutator
    · rw [run_mutators_cons_of_none hm, run_mutators_cons_of_none hm]
      exact run_mutators_saved ps mem saved_data
    rcases hnew : mutator.mutate (read_mem mem (mutated_addr scratch_enabled p) p.num_bytes.incoming_size)
      with _ | new
    · rw [run_mutators_cons_of_unchanged hm hnew, run_mutators_cons_of_unchanged hm hnew]
      exact run_mutators_saved ps mem saved_data
    -- the bytes found before the change, after those saved before
    · have h1 := run_mutators_saved ps (write_bytes mem (mutated_addr scratch_enabled p) new)
        (if scratch_enabled then saved_data
          else saved_data ++ read_mem mem (mutated_addr scratch_enabled p) p.num_bytes.incoming_size)
      have h2 := run_mutators_saved ps (write_bytes mem (mutated_addr scratch_enabled p) new)
        (if scratch_enabled then []
          else [] ++ read_mem mem (mutated_addr scratch_enabled p) p.num_bytes.incoming_size)
      rw [run_mutators_cons_of_changed hm hnew, run_mutators_cons_of_changed hm hnew]
      simp only
      rw [h1, h2]
      cases scratch_enabled <;> simp

/-- What the mutators leave in the parameters and in memory does not depend on
the bytes saved before them. -/
theorem run_mutators_saved_irrelevant :
    ∀ (ps : List MemoryParam) (mem : Nat → UInt8) (saved_data : List UInt8),
      (run_mutators scratch_enabled ps mem saved_data).1 = (run_mutators scratch_enabled ps mem []).1 ∧
        (run_mutators scratch_enabled ps mem saved_data).2.1 = (run_mutators scratch_enabled ps mem []).2.1
  | [], _, _ => ⟨rfl, rfl⟩
  | p :: ps, mem, saved_data => by
    rcases hm : p.maybe_mutator with _ | mutator
    · have ih := run_mutators_saved_irrelevant ps mem saved_data
      rw [run_mutators_cons_of_none hm, run_mutators_cons_of_none hm]
      exact ⟨by rw [ih.1], ih.2⟩
    rcases hnew : mutator.mutate (read_mem mem (mutated_addr scratch_enabled p) p.num_bytes.incoming_size)
      with _ | new
    · have ih := run_mutators_saved_irrelevant ps mem saved_data
      rw [run_mutators_cons_of_unchanged hm hnew, run_mutators_cons_of_unchanged hm hnew]
      exact ⟨by rw [ih.1], ih.2⟩
    · have ih1 := run_mutators_saved_irrelevant ps (write_bytes mem (mutated_addr scratch_enabled p) new)
        (if scratch_enabled then saved_data
          else saved_data ++ read_mem mem (mutated_addr scratch_enabled p) p.num_bytes.incoming_size)
      have ih2 := run_mutators_saved_irrelevant ps (write_bytes mem (mutated_addr scratch_enabled p) new)
        (if scratch_enabled then []
          else [] ++ read_mem mem (mutated_addr scratch_enabled p) p.num_bytes.incoming_size)
      rw [run_mutators_cons_of_changed hm hnew, run_mutators_cons_of_changed hm hnew]
      exact ⟨by simp only [ih1.1, ih2.1], by simp only [ih1.2, ih2.2]⟩

end Mutators

/-- With scratch, mutating saves nothing. -/
theorem run_mutators_saved_scratch :
    ∀ (ps : List MemoryParam) (mem : Nat → UInt8), (run_mutators true ps mem []).2.2 = []
  | [], _ => rfl
  | p :: ps, mem => by
    rcases hm : p.maybe_mutator with _ | mutator
    · rw [run_mutators_cons_of_none hm]
      exact run_mutators_saved_scratch ps mem
    rcases hnew : mutator.mutate (read_mem mem (mutated_addr true p) p.num_bytes.incoming_size) with _ | new
    · rw [run_mutators_cons_of_unchanged hm hnew]
      exact run_mutators_saved_scratch ps mem
    · rw [run_mutators_cons_of_changed hm hnew]
      exact run_mutators_saved_scratch ps _

/-- With scratch, the mutators write only inside the slots of the mutated
parameters. -/
theorem run_mutators_scratch_outside {a : Nat} :
    ∀ (ps : List MemoryParam) (mem : Nat → UInt8) (saved_data : List UInt8),
      (∀ p ∈ ps, p.maybe_mutator.isSome = true → a < p.scratch ∨ p.scratch + p.num_bytes.incoming_size ≤ a) →
      (run_mutators true ps mem saved_data).2.1 a = mem a
  | [], _, _, _ => rfl
  | p :: ps, mem, saved_data, h => by
    have hrest : ∀ q ∈ ps, q.maybe_mutator.isSome = true → a < q.scratch ∨ q.scratch + q.num_bytes.incoming_size ≤ a :=
      fun q hq => h q (List.mem_cons_of_mem _ hq)
    rcases hm : p.maybe_mutator with _ | mutator
    · rw [run_mutators_cons_of_none hm]
      exact run_mutators_scratch_outside ps mem saved_data hrest
    rcases hnew : mutator.mutate (read_mem mem (mutated_addr true p) p.num_bytes.incoming_size) with _ | new
    · rw [run_mutators_cons_of_unchanged hm hnew]
      exact run_mutators_scratch_outside ps mem saved_data hrest
    · rw [run_mutators_cons_of_changed hm hnew]
      have hlen := length_of_changed hnew
      rw [length_read_mem] at hlen
      simp only
      rw [run_mutators_scratch_outside ps _ _ hrest]
      exact write_bytes_outside (by simpa [mutated_addr, hlen] using h p (List.mem_cons_self ..) (by simp [hm]))

/-! ## Restoring the mutated buffers -/

section Restore

variable {p : MemoryParam} {ps : List MemoryParam} {mem : Nat → UInt8} {saved_data : List UInt8}

/-- One turn of `restore_mutated_memory`, on the parameter at the head. -/
theorem restore_mutated_memory_cons :
    restore_mutated_memory (p :: ps) mem saved_data =
      if p.maybe_mutator.isSome then
        if saved_data.length < p.num_bytes.incoming_size then none
        else restore_mutated_memory ps (write_bytes mem p.dest (saved_data.take p.num_bytes.incoming_size))
          (saved_data.drop p.num_bytes.incoming_size)
      else restore_mutated_memory ps mem saved_data :=
  rfl

theorem restore_cons_of_not_mutated (hm : p.maybe_mutator.isSome = false) :
    restore_mutated_memory (p :: ps) mem saved_data = restore_mutated_memory ps mem saved_data := by
  rw [restore_mutated_memory_cons, if_neg (by simp [hm])]

theorem restore_cons_of_mutated (hm : p.maybe_mutator.isSome = true)
    (hlen : p.num_bytes.incoming_size ≤ saved_data.length) :
    restore_mutated_memory (p :: ps) mem saved_data =
      restore_mutated_memory ps (write_bytes mem p.dest (saved_data.take p.num_bytes.incoming_size))
        (saved_data.drop p.num_bytes.incoming_size) := by
  rw [restore_mutated_memory_cons, if_pos hm, if_neg (by omega)]

end Restore

/-- `MutatedApart ps`: the buffers of the parameters with mutators are pairwise
apart. -/
def MutatedApart (ps : List MemoryParam) : Prop :=
  (ps.filter fun p => p.maybe_mutator.isSome).Pairwise fun p q =>
    p.dest + p.num_bytes.incoming_size ≤ q.dest ∨ q.dest + q.num_bytes.incoming_size ≤ p.dest

instance (ps : List MemoryParam) : Decidable (MutatedApart ps) :=
  inferInstanceAs (Decidable (List.Pairwise _ _))

/-- Restoring commutes with a write apart from every mutated buffer. -/
theorem restore_write_bytes_comm {a : Nat} {d : List UInt8} :
    ∀ (ps : List MemoryParam), (∀ q ∈ ps, q.maybe_mutator.isSome = true →
      a + d.length ≤ q.dest ∨ q.dest + q.num_bytes.incoming_size ≤ a) →
      ∀ (mem : Nat → UInt8) (saved_data : List UInt8),
        restore_mutated_memory ps (write_bytes mem a d) saved_data =
          (restore_mutated_memory ps mem saved_data).map fun r => (write_bytes r.1 a d, r.2)
  | [], _, _, _ => rfl
  | q :: ps, h, mem, saved_data => by
    have hrest := fun q' hq' => h q' (List.mem_cons_of_mem _ hq')
    cases hm : q.maybe_mutator.isSome
    · rw [restore_cons_of_not_mutated hm, restore_cons_of_not_mutated hm]
      exact restore_write_bytes_comm ps hrest _ _
    by_cases hlt : saved_data.length < q.num_bytes.incoming_size
    · simp [restore_mutated_memory_cons, hm, hlt]
    -- the restoring write and this one are apart
    · have happ := h q (List.mem_cons_self ..) hm
      rw [restore_cons_of_mutated hm (by omega), restore_cons_of_mutated hm (by omega),
        write_bytes_comm (by simp only [List.length_take]; omega)]
      exact restore_write_bytes_comm ps hrest _ _

/-- Restoring consumes exactly the bytes the mutators saved, whatever the
memory then holds. -/
theorem restore_run_mutators_consumes :
    ∀ (ps : List MemoryParam) (mem0 mem : Nat → UInt8) (rest : List UInt8),
      ∃ mem', restore_mutated_memory (run_mutators false ps mem0 []).1 mem
        ((run_mutators false ps mem0 []).2.2 ++ rest) = some (mem', rest)
  | [], _, mem, rest => ⟨mem, rfl⟩
  | p :: ps, mem0, mem, rest => by
    rcases hm : p.maybe_mutator with _ | mutator
    · rw [run_mutators_cons_of_none hm, restore_cons_of_not_mutated (by simp [hm])]
      exact restore_run_mutators_consumes ps mem0 mem rest
    rcases hnew : mutator.mutate (read_mem mem0 (mutated_addr false p) p.num_bytes.incoming_size) with _ | new
    · rw [run_mutators_cons_of_unchanged hm hnew, restore_cons_of_not_mutated (by simp)]
      exact restore_run_mutators_consumes ps mem0 mem rest
    -- the chunk this mutator saved comes first, and is as long as its buffer
    · rw [run_mutators_cons_of_changed hm hnew]
      simp only [Bool.false_eq_true, if_false, List.nil_append]
      rw [run_mutators_saved false ps _ (read_mem _ _ _), List.append_assoc,
        (run_mutators_saved_irrelevant false ps _ (read_mem _ _ _)).1,
        restore_cons_of_mutated (by simp [hm]) (by simp), List.take_left' (by simp), List.drop_left' (by simp)]
      exact restore_run_mutators_consumes ps _ _ rest

/-- With the mutated buffers apart, restoring after the mutators gives back
the memory from before them. -/
theorem restore_run_mutators :
    ∀ (ps : List MemoryParam), MutatedApart ps → ∀ (mem0 : Nat → UInt8) (rest : List UInt8),
      restore_mutated_memory (run_mutators false ps mem0 []).1 (run_mutators false ps mem0 []).2.1
        ((run_mutators false ps mem0 []).2.2 ++ rest) = some (mem0, rest)
  | [], _, _, _ => rfl
  | p :: ps, hapart, mem0, rest => by
    have hps : MutatedApart ps := by
      unfold MutatedApart at hapart ⊢
      rw [List.filter_cons] at hapart
      split at hapart
      · exact (List.pairwise_cons.1 hapart).2
      · exact hapart
    rcases hm : p.maybe_mutator with _ | mutator
    · rw [run_mutators_cons_of_none hm, restore_cons_of_not_mutated (by simp [hm])]
      exact restore_run_mutators ps hps mem0 rest
    rcases hnew : mutator.mutate (read_mem mem0 (mutated_addr false p) p.num_bytes.incoming_size) with _ | new
    · rw [run_mutators_cons_of_unchanged hm hnew, restore_cons_of_not_mutated (by simp)]
      exact restore_run_mutators ps hps mem0 rest
    · have hlen := length_of_changed hnew
      rw [length_read_mem] at hlen
      simp only [mutated_addr, Bool.false_eq_true, if_false] at hnew hlen
      rw [run_mutators_cons_of_changed hm hnew]
      simp only [mutated_addr, Bool.false_eq_true, if_false, List.nil_append]
      set old := read_mem mem0 p.dest p.num_bytes.incoming_size with hold
      set mem1 := write_bytes mem0 p.dest new with hmem1
      rw [run_mutators_saved false ps mem1 old, List.append_assoc,
        (run_mutators_saved_irrelevant false ps mem1 old).1, (run_mutators_saved_irrelevant false ps mem1 old).2,
        restore_cons_of_mutated (by simp [hm]) (by simp [hold]), List.take_left' (by simp [hold]),
        List.drop_left' (by simp [hold])]
      -- this buffer is apart from every buffer the later mutators change
      have happ : ∀ q ∈ (run_mutators false ps mem1 []).1, q.maybe_mutator.isSome = true →
          p.dest + old.length ≤ q.dest ∨ q.dest + q.num_bytes.incoming_size ≤ p.dest := by
        intro q hq hqm
        obtain ⟨q', hq', hdest, -, hnb, -, -, -, hm'⟩ :=
          forall₂_exists_mem_right (run_mutators_kept false ps mem1 []) q hq
        have hcons : (p :: ps.filter fun p => p.maybe_mutator.isSome).Pairwise fun p q =>
            p.dest + p.num_bytes.incoming_size ≤ q.dest ∨ q.dest + q.num_bytes.incoming_size ≤ p.dest := by
          simpa [MutatedApart, List.filter_cons, hm] using hapart
        have hfar := List.rel_of_pairwise_cons hcons (List.mem_filter.2 ⟨hq', by simpa using hm' hqm⟩)
        rw [hold, length_read_mem, hdest, hnb]
        exact hfar
      rw [restore_write_bytes_comm _ happ, restore_run_mutators ps hps mem1 rest]
      simp only [Option.map_some, hmem1, hold]
      rw [write_bytes_write_bytes_same (by simp [hlen]), write_bytes_read_mem]


/-! ## What `done_preparing` does -/

/-- Whether `done_preparing_internal` moves the buffers to scratch: the task
has a scratch area, the syscall may switch, the slots end within the usable
part, and there is a parameter. -/
def ScratchUsed (t : SyscallTask) (st : TaskSyscallState) (sw : Switchable) : Prop :=
  t.scratch_ptr ≠ 0 ∧ sw = .AllowSwitch ∧ st.scratch ≤ wrapping_add t.scratch_ptr t.usable_scratch_size ∧
    st.param_list ≠ []

instance (t : SyscallTask) (st : TaskSyscallState) (sw : Switchable) : Decidable (ScratchUsed t st sw) :=
  inferInstanceAs (Decidable (_ ∧ _ ∧ _ ∧ _))

/-- The memory and registers after step 2 of `done_preparing_internal`. -/
def pointed (st : TaskSyscallState) (t : SyscallTask) : (Nat → Nat) × (Nat → UInt8) :=
  point_params_to_scratch st t.arch t.args (copy_params_to_scratch st.param_list t.mem)

/-- `done_preparing` on a registered state without scratch: only the mutators
run, on the buffers themselves. -/
theorem done_preparing_of_not_used {t : SyscallTask} {st : TaskSyscallState} {sw : Switchable}
    (hI : RegInv t st) (hb : t.scratch_ptr ≤ st.scratch) (hnot : ¬ ScratchUsed t st sw) :
    ∃ sw1, st.done_preparing t sw =
      some ({ st with
          preparation_done := true, write_back := .WriteBack, switchable := sw1
          param_list := (run_mutators false st.param_list t.mem []).1
          saved_data := (run_mutators false st.param_list t.mem []).2.2 },
        { t with mem := (run_mutators false st.param_list t.mem []).2.1 }, sw1) := by
  unfold ScratchUsed at hnot
  delta TaskSyscallState.done_preparing TaskSyscallState.done_preparing_internal
  simp only [hI.not_done, hI.saved_nil, hI.not_enabled, Bool.false_eq_true, if_false]
  by_cases h0 : t.scratch_ptr = 0
  · exact ⟨sw, by simp [h0]⟩
  rw [if_neg h0, if_neg (by omega)]
  by_cases hfit : sw = .AllowSwitch ∧ wrapping_add t.scratch_ptr t.usable_scratch_size < st.scratch
  · exact ⟨.PreventSwitch, by simp [hfit]⟩
  · rw [if_neg hfit]
    have hprev : sw = .PreventSwitch ∨ st.param_list = [] := by
      cases sw
      · exact .inl rfl
      · refine .inr ?_
        by_contra hne
        exact hnot ⟨h0, rfl, by simpa using hfit, hne⟩
    exact ⟨sw, by simp [hprev]⟩

/-- `done_preparing` on a registered state with scratch: copy, point and
relocate, then the mutators on the slots. -/
theorem done_preparing_of_used {t : SyscallTask} {st : TaskSyscallState} {sw : Switchable}
    (hI : RegInv t st) (hb : t.scratch_ptr ≤ st.scratch) (hused : ScratchUsed t st sw) :
    st.done_preparing t sw =
      some ({ st with
          preparation_done := true, write_back := .WriteBack, switchable := sw, scratch_enabled := true
          param_list := (run_mutators true (relocate_size_sources st) (pointed st t).2 []).1
          saved_data := [] },
        { t with
          args := (pointed st t).1
          mem := (run_mutators true (relocate_size_sources st) (pointed st t).2 []).2.1 }, sw) := by
  obtain ⟨h0, rfl, hfit, hne⟩ := hused
  delta TaskSyscallState.done_preparing TaskSyscallState.done_preparing_internal
  simp only [hI.not_done, Bool.false_eq_true, if_false, if_neg h0, if_neg (show ¬ st.scratch < t.scratch_ptr by omega),
    show ¬ (wrapping_add t.scratch_ptr t.usable_scratch_size < st.scratch) by omega, and_false, reduceCtorEq,
    hne, or_self, Option.bind_eq_bind, Option.bind_some]
  rw [hI.saved_nil, run_mutators_saved_scratch]
  rfl


/-! ## What `abort_syscall_results` does -/

namespace TaskSyscallState

variable {st : TaskSyscallState} {t : SyscallTask}

theorem abort_of_scratch (hdone : st.preparation_done = true) (hen : st.scratch_enabled = true) :
    st.abort_syscall_results t =
      some (st, { t with
        args := (restore_pointers st.param_list t.arch t.args t.mem).1
        mem := (restore_pointers st.param_list t.arch t.args t.mem).2 }) := by
  delta abort_syscall_results
  simp [hdone, hen]

theorem abort_of_no_scratch {mem : Nat → UInt8} {saved_data : List UInt8} (hdone : st.preparation_done = true)
    (hen : st.scratch_enabled = false)
    (hres : restore_mutated_memory st.param_list t.mem st.saved_data = some (mem, saved_data)) :
    st.abort_syscall_results t = some ({ st with saved_data }, { t with mem }) := by
  delta abort_syscall_results
  simp [hdone, hen, hres]

end TaskSyscallState

/-! ## With scratch: the registers and the bytes outside the scratch area -/

section Frame

variable {a r : Nat}

/-- Copying the inputs writes only in their slots. -/
theorem copy_params_to_scratch_outside (ps : List MemoryParam) (mem : Nat → UInt8)
    (h : ∀ p ∈ ps, p.mode ≠ .InOutNoScratch → a < p.scratch ∨ p.scratch + p.num_bytes.incoming_size ≤ a) :
    copy_params_to_scratch ps mem a = mem a := by
  unfold copy_params_to_scratch
  refine foldl_preserves (fun m => m a = mem a) ps mem rfl fun m p hp hm => ?_
  unfold copy_param_to_scratch
  split_ifs with hmode
  · have hslot := h p hp (by rcases hmode with h | h <;> simp [h])
    rw [write_bytes_outside (by simpa using hslot)]
    exact hm
  · exact hm

/-- Pointing at the slots changes only the registers the parameters record. -/
theorem point_params_to_scratch_args (st : TaskSyscallState) (arch : SupportedArch) (args : Nat → Nat)
    (mem : Nat → UInt8) (h : ∀ p ∈ st.param_list, p.ptr_in_reg ≠ 0 → p.ptr_in_reg ≠ r) :
    (point_params_to_scratch st arch args mem).1 r = args r := by
  unfold point_params_to_scratch
  refine foldl_preserves (fun acc : (Nat → Nat) × (Nat → UInt8) => acc.1 r = args r) _ _ rfl fun acc p hp hacc => ?_
  simp only [point_param_to_scratch]
  split_ifs with hreg
  · rw [Function.update_of_ne (h p hp hreg).symm]
    exact hacc
  · exact hacc

/-- Pointing at the slots writes only the relocated pointer words. -/
theorem point_params_to_scratch_mem (st : TaskSyscallState) (arch : SupportedArch) (args : Nat → Nat)
    (mem : Nat → UInt8) (h : ∀ p ∈ st.param_list, p.ptr_in_memory ≠ 0 →
      a < st.relocate_pointer_to_scratch p.ptr_in_memory ∨
        st.relocate_pointer_to_scratch p.ptr_in_memory + word_size arch ≤ a) :
    (point_params_to_scratch st arch args mem).2 a = mem a := by
  unfold point_params_to_scratch
  refine foldl_preserves (fun acc : (Nat → Nat) × (Nat → UInt8) => acc.2 a = mem a) _ _ rfl fun acc p hp hacc => ?_
  simp only [point_param_to_scratch]
  split_ifs with hm
  · rw [set_remote_ptr, write_bytes_outside (by simpa using h p hp hm)]
    exact hacc
  · exact hacc

/-- `p` and `q` keep their buffer and pointers in the same places. -/
def SamePointers (q p : MemoryParam) : Prop :=
  q.dest = p.dest ∧ q.ptr_in_memory = p.ptr_in_memory ∧ q.ptr_in_reg = p.ptr_in_reg

/-- Restoring the pointers reads only where the buffers and pointers are. -/
theorem restore_pointers_congr {l₁ l₂ : List MemoryParam} (h : List.Forall₂ SamePointers l₁ l₂)
    (arch : SupportedArch) (args : Nat → Nat) (mem : Nat → UInt8) :
    restore_pointers l₁ arch args mem = restore_pointers l₂ arch args mem := by
  induction h generalizing args mem with
  | nil => rfl
  | @cons q p l₁ l₂ hqp _ ih =>
    obtain ⟨hd, hm, hr⟩ := hqp
    have hstep : restore_pointer arch (args, mem) q = restore_pointer arch (args, mem) p := by
      simp only [restore_pointer, hd, hm, hr]
    show List.foldl _ (restore_pointer arch (args, mem) q) l₁ = List.foldl _ (restore_pointer arch (args, mem) p) l₂
    rw [hstep]
    exact ih _ _

/-- Restoring the pointers gives every register a parameter records the
address of its buffer, as `A` has it; the other registers keep their values,
so when those are `A`'s too, the registers are `A`. -/
theorem restore_pointers_args (arch : SupportedArch) (A : Nat → Nat) :
    ∀ (ps : List MemoryParam), (∀ q ∈ ps, q.ptr_in_reg ≠ 0 → A q.ptr_in_reg = q.dest) →
      ∀ (args : Nat → Nat) (mem : Nat → UInt8),
        (∀ r, (∀ q ∈ ps, q.ptr_in_reg ≠ 0 → q.ptr_in_reg ≠ r) → args r = A r) →
        (restore_pointers ps arch args mem).1 = A
  | [], _, args, _, hargs => funext fun r => hargs r fun _ hq => absurd hq List.not_mem_nil
  | q :: ps, hA, args, mem, hargs => by
    have hstep : ∀ r, (∀ q' ∈ ps, q'.ptr_in_reg ≠ 0 → q'.ptr_in_reg ≠ r) →
        (restore_pointer arch (args, mem) q).1 r = A r := by
      intro r hr
      by_cases hq : q.ptr_in_reg ≠ 0 ∧ q.ptr_in_reg = r
      · simp only [restore_pointer, if_pos hq.1]
        rw [← hq.2, Function.update_self, hA q (List.mem_cons_self ..) hq.1]
      · have hkeep : (restore_pointer arch (args, mem) q).1 r = args r := by
          simp only [restore_pointer]
          split_ifs with hq0
          · exact Function.update_of_ne (fun h => hq ⟨hq0, h.symm⟩) _ _
          · rfl
        rw [hkeep]
        refine hargs r fun q' hq' => ?_
        rcases List.mem_cons.1 hq' with rfl | hq'
        · exact fun hq0 heq => hq ⟨hq0, heq⟩
        · exact hr q' hq'
    exact restore_pointers_args arch A ps (fun q' hq' => hA q' (List.mem_cons_of_mem _ hq'))
      (restore_pointer arch (args, mem) q).1 (restore_pointer arch (args, mem) q).2 hstep

/-- Restoring the pointers writes words read from `M`: each byte is as
before or as in `M`. -/
theorem restore_pointers_mem {M : Nat → UInt8} (ps : List MemoryParam) (arch : SupportedArch)
    (hM : ∀ q ∈ ps, q.ptr_in_memory ≠ 0 → get_remote_ptr M arch q.ptr_in_memory = q.dest)
    (args : Nat → Nat) (mem : Nat → UInt8) :
    (restore_pointers ps arch args mem).2 a = mem a ∨ (restore_pointers ps arch args mem).2 a = M a := by
  unfold restore_pointers
  refine foldl_preserves (fun acc : (Nat → Nat) × (Nat → UInt8) => acc.2 a = mem a ∨ acc.2 a = M a) _ _
    (.inl rfl) fun acc q hq hacc => ?_
  simp only [restore_pointer]
  split_ifs with hm
  · rw [← hM q hq hm, set_remote_ptr_get_remote_ptr]
    rcases write_bytes_read_mem_apply acc.2 M q.ptr_in_memory (word_size arch) a with h | h
    · rw [h]
      exact hacc
    · exact .inr h
  · exact hacc

end Frame


/-! ## Aborting a prepared syscall -/

@[simp] theorem incoming_size_relocate_size (st : TaskSyscallState) (num_bytes : ParamSize) :
    (st.relocate_size num_bytes).incoming_size = num_bytes.incoming_size := by
  unfold TaskSyscallState.relocate_size
  split_ifs <;> rfl

/-- After the mutators on the relocated parameters, the buffers and pointers
are where they were registered. -/
theorem relocated_same_pointers (st : TaskSyscallState) (mem : Nat → UInt8) :
    List.Forall₂ SamePointers (run_mutators true (relocate_size_sources st) mem []).1 st.param_list := by
  have h := run_mutators_kept true (relocate_size_sources st) mem []
  rw [relocate_size_sources, List.forall₂_map_right_iff] at h
  exact h.imp fun _ _ ⟨hd, _, _, hm, hr, _, _⟩ => ⟨hd, hm, hr⟩

section Abort

variable {t : SyscallTask} {st : TaskSyscallState}

/-- With scratch, preparing changes no byte outside the scratch area: the
inputs are copied to their slots, the relocated pointers lie in the slots, and
the mutators change only their slots. -/
theorem prepared_outside (hI : RegInv t st) (hL : ScratchLayout t.scratch_ptr st)
    (hdemand : t.scratch_ptr + scratch_demand st.param_list < 2 ^ 64)
    (hptrs : ∀ p ∈ st.param_list, p.ptr_in_memory ≠ 0 →
      InScratchBuffer st.param_list p.ptr_in_memory (word_size t.arch))
    {a : Nat} (ha : a < t.scratch_ptr ∨ st.scratch ≤ a) :
    (run_mutators true (relocate_size_sources st) (pointed st t).2 []).2.1 a = t.mem a := by
  have hslot : ∀ p ∈ st.param_list, p.mode ≠ .InOutNoScratch →
      a < p.scratch ∨ p.scratch + p.num_bytes.incoming_size ≤ a := by
    intro p hp hns
    have := hL.slot p hp hns
    omega
  have hmut : ∀ q ∈ relocate_size_sources st, q.maybe_mutator.isSome = true →
      a < q.scratch ∨ q.scratch + q.num_bytes.incoming_size ≤ a := by
    intro q hq hm
    obtain ⟨p, hp, rfl⟩ := List.mem_map.1 hq
    have hin : p.mode = .In := hI.mutated_in p hp hm
    simpa using hslot p hp (by rw [hin]; decide)
  have hword : ∀ p ∈ st.param_list, p.ptr_in_memory ≠ 0 →
      a < st.relocate_pointer_to_scratch p.ptr_in_memory ∨
        st.relocate_pointer_to_scratch p.ptr_in_memory + word_size t.arch ≤ a := by
    intro p hp hm
    have hw : 0 < word_size t.arch := by cases t.arch <;> decide
    obtain ⟨k, -, -, -, -, -, hbase, hend, hslot_end⟩ := relocate_of_in_scratch_buffer hL hdemand hw (hptrs p hp hm)
    omega
  rw [run_mutators_scratch_outside _ _ _ hmut, pointed, point_params_to_scratch_mem st _ _ _ hword,
    copy_params_to_scratch_outside _ _ hslot]


/-- Aborting a prepared syscall gives the tracee back its registers and every
byte outside the scratch area.  Without scratch, the mutated buffers being
apart, restoring gives back the whole memory; in either mode the saved data
ends empty, and the restoring of `process_syscall_results` consumes it
exactly, whatever the memory then holds.  With scratch, the in-memory pointers
are taken to lie in registered buffers, as the `debug_assert!`s of
`relocate_pointer_to_scratch` require. -/
theorem abort_syscall_results_restores (hreg : Registered t st)
    (hdemand : t.scratch_ptr + scratch_demand st.param_list < 2 ^ 64) (sw : Switchable)
    (hptrs : ScratchUsed t st sw → ∀ p ∈ st.param_list, p.ptr_in_memory ≠ 0 →
      InScratchBuffer st.param_list p.ptr_in_memory (word_size t.arch))
    (hapart : ¬ ScratchUsed t st sw → MutatedApart st.param_list) :
    ∃ st1 t1 sw1, st.done_preparing t sw = some (st1, t1, sw1) ∧
      ∃ st2 t2, st1.abort_syscall_results t1 = some (st2, t2) ∧
        t2.args = t.args ∧
        (∀ a, a < t.scratch_ptr ∨ st.scratch ≤ a → t2.mem a = t.mem a) ∧
        (¬ ScratchUsed t st sw → t2.mem = t.mem) ∧
        st2.saved_data = [] ∧
        (ScratchUsed t st sw → st1.saved_data = []) ∧
        (¬ ScratchUsed t st sw → ∀ mem, ∃ mem',
          restore_mutated_memory st1.param_list mem st1.saved_data = some (mem', [])) := by
  have hI := hreg.regInv
  have hL := hreg.layout hdemand
  by_cases hused : ScratchUsed t st sw
  -- with scratch: the pointers are pointed back, the slots are left as they are
  · refine ⟨_, _, _, done_preparing_of_used hI hL.base_le hused, _, _,
      TaskSyscallState.abort_of_scratch rfl rfl, ?_, ?_, fun h => absurd hused h, rfl, fun _ => rfl,
      fun h => absurd hused h⟩
    · show (restore_pointers _ t.arch (pointed st t).1 _).1 = t.args
      rw [restore_pointers_congr (relocated_same_pointers st _)]
      exact restore_pointers_args t.arch t.args st.param_list hI.reg_dest _ _
        fun r hr => point_params_to_scratch_args st t.arch t.args _ hr
    · intro a ha
      show (restore_pointers _ t.arch (pointed st t).1 _).2 a = t.mem a
      rw [restore_pointers_congr (relocated_same_pointers st _)]
      rcases restore_pointers_mem (M := t.mem) st.param_list t.arch hI.mem_dest (pointed st t).1
          (run_mutators true (relocate_size_sources st) (pointed st t).2 []).2.1 with h | h
      · rw [h]
        exact prepared_outside hI hL hdemand (hptrs hused) ha
      · exact h
  -- without scratch: the saved chunks are written back, in registration order
  · obtain ⟨sw1, hdone⟩ := done_preparing_of_not_used hI hL.base_le hused
    have hres := restore_run_mutators st.param_list (hapart hused) t.mem []
    rw [List.append_nil] at hres
    refine ⟨_, _, _, hdone, _, _, TaskSyscallState.abort_of_no_scratch rfl hI.not_enabled hres, rfl,
      fun _ _ => rfl, fun _ => rfl, rfl, fun h => absurd h hused, fun _ mem => ?_⟩
    obtain ⟨mem', h⟩ := restore_run_mutators_consumes st.param_list t.mem mem []
    rw [List.append_nil] at h
    exact ⟨mem', h⟩

end Abort

/-- A mutator that sets the first byte of its region to `v`, and reports no
change when the byte is `v` already. -/
def set_first_byte (v : UInt8) : ArgMutator where
  mutate := fun
    | [] => none
    | b :: rest => if b = v then none else some (v :: rest)
  length_eq := by
    intro bs new h
    cases bs with
    | nil => cases h
    | cons b rest =>
      simp only at h
      split_ifs at h
      cases h
      rfl

/-- A task without scratch whose argument registers 1 and 2 both hold the
buffer at `0x1000`. -/
def shared_buffer_task : SyscallTask where
  mem := fun _ => 0
  args := fun i => if i = 1 ∨ i = 2 then 0x1000 else 0
  syscall_result_signed := 0
  scratch_ptr := 0
  usable_scratch_size := 0
  arch := .X64

/-- A one-byte buffer. -/
def one_byte : ParamSize := ⟨1, 0, 0, false⟩

def shared_buffer_init : TaskSyscallState :=
  { TaskSyscallState.new with syscall_entry_registers := shared_buffer_task.args }.init shared_buffer_task

/-- Register 1's buffer as an input that `set_first_byte 1` mutates. -/
def one_mutator_state : TaskSyscallState :=
  ((shared_buffer_init.reg_parameter_with_size 1 one_byte (some .In) (some (set_first_byte 1))).map
    Prod.fst).getD shared_buffer_init

/-- Then register 2's buffer, the same one, as an input that
`set_first_byte 2` mutates. -/
def two_mutators_state : TaskSyscallState :=
  ((one_mutator_state.reg_parameter_with_size 2 one_byte (some .In) (some (set_first_byte 2))).map
    Prod.fst).getD one_mutator_state

theorem one_mutator_registered : Registered shared_buffer_task one_mutator_state :=
  .reg_parameter 1 one_byte (some .In) (some (set_first_byte 1)) .init rfl

theorem one_mutator_abort_restores :
    Registered shared_buffer_task one_mutator_state ∧
      shared_buffer_task.scratch_ptr + scratch_demand one_mutator_state.param_list < 2 ^ 64 ∧
      MutatedApart one_mutator_state.param_list ∧
      ∃ st1 t1 sw1, one_mutator_state.done_preparing shared_buffer_task .AllowSwitch = some (st1, t1, sw1) ∧
        ∃ st2 t2, st1.abort_syscall_results t1 = some (st2, t2) ∧ t2.args = shared_buffer_task.args ∧
          t2.mem = shared_buffer_task.mem ∧ st2.saved_data = [] := by
  obtain ⟨st1, t1, sw1, h1, st2, t2, h2, hargs, -, hmem, hsaved, -, -⟩ :=
    abort_syscall_results_restores one_mutator_registered (by decide) .AllowSwitch
      (fun h => absurd rfl h.1) (fun _ => by decide)
  exact ⟨one_mutator_registered, by decide, by decide,
    st1, t1, sw1, h1, st2, t2, h2, hargs, hmem fun h => h.1 rfl, hsaved⟩

/-- Two mutators on one buffer: the first saves the byte `0` and writes `1`,
the second saves `1` and writes `2`.  Restoring writes `0` back, then `1` over
it, and the tracee is left with `1`. -/
theorem overlapping_mutators_leave_change :
    Registered shared_buffer_task two_mutators_state ∧ ¬ MutatedApart two_mutators_state.param_list ∧
      ((two_mutators_state.done_preparing shared_buffer_task .AllowSwitch).bind fun r =>
        (r.1.abort_syscall_results r.2.1).map fun r' => r'.2.mem 0x1000) = some 1 ∧
      shared_buffer_task.mem 0x1000 = 0 :=
  ⟨.reg_parameter 2 one_byte (some .In) (some (set_first_byte 2)) one_mutator_registered rfl,
    by decide, by decide, rfl⟩

end RdReplay.Record
