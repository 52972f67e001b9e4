/-
  Record/ParamSizes.lean --- the sizes `process_syscall_results` gives the
  parameters after the syscall.

  A size is bounded by at most one source, rd's `ParamSize` constructors
  setting either `mem_ptr` or `from_syscall` (`WellSourced`).  The parameters
  reading one source share its value greedily in registration order: each
  takes what it can of what the earlier ones left (`greedy_split`), so the
  sizes of a source's parameters add up to the smaller of its value and their
  incoming sizes.  `eval_param_size` computes this one parameter at a time,
  from the sizes already given to the parameters with the same source; the
  assertion `already_consumed <= S` holds because what the earlier parameters
  took is at most `S` (`eval_param_size_step`).

  With scratch, `done_preparing` moved each size word to its copy in scratch,
  and the sizes are read there.  The word must lie in a buffer with a slot, as
  the `debug_assert!`s of `relocate_pointer_to_scratch` require; otherwise it
  moves to null, the source is dropped, and the parameters get their
  incoming sizes (`unbuffered_size_word_dropped`).  The copies back to the
  buffers must not write over the size words while the sizes are read, which
  holds when the output buffers lie outside the scratch area.  rd does not
  check this, and an iovec of `recvmmsg` aimed at the scratch copy of its
  `msg_len` breaks it (`RecvMsg`).
-/
import RdReplay.Record.SyscallAbort

set_option autoImplicit false

namespace RdReplay.Record

/-! ## The greedy split -/

/-- `S` bytes shared among buffers of sizes `cs`, in order: each takes as much
as it can of what the earlier ones left. -/
def greedy_split : Nat → List Nat → List Nat
  | _, [] => []
  | S, c :: cs => min c S :: greedy_split (S - min c S) cs

@[simp] theorem length_greedy_split : ∀ (S : Nat) (cs : List Nat), (greedy_split S cs).length = cs.length
  | _, [] => rfl
  | S, _ :: cs => by simp [greedy_split, length_greedy_split _ cs]

/-- What the buffers take together is the smaller of `S` and what they can
hold. -/
theorem sum_greedy_split : ∀ (S : Nat) (cs : List Nat), (greedy_split S cs).sum = min S cs.sum
  | _, [] => by simp [greedy_split]
  | S, c :: cs => by
    rw [greedy_split, List.sum_cons, sum_greedy_split, List.sum_cons]
    omega

/-- The next buffer takes the smaller of its size and what the earlier ones
left. -/
theorem greedy_split_append : ∀ (S : Nat) (cs : List Nat) (c : Nat),
    greedy_split S (cs ++ [c]) = greedy_split S cs ++ [min c (S - (greedy_split S cs).sum)]
  | S, [], c => by simp [greedy_split]
  | S, c' :: cs, c => by
    rw [List.cons_append, greedy_split, greedy_split_append, greedy_split, List.sum_cons, Nat.sub_sub,
      List.cons_append]

/-! ## Sources -/

/-- What a size is read from after the syscall: the word at a tracee address,
or the syscall result, each as `read_size` bytes. -/
inductive SizeSource where
  | mem (ptr read_size : Nat)
  | syscall (read_size : Nat)
  deriving DecidableEq

/-- The source a `ParamSize` reads, when it has one. -/
def ParamSize.source (num_bytes : ParamSize) : Option SizeSource :=
  if num_bytes.mem_ptr ≠ 0 then some (.mem num_bytes.mem_ptr num_bytes.read_size)
  else if num_bytes.from_syscall then some (.syscall num_bytes.read_size)
  else none

/-- A size as rd's `ParamSize` constructors build it: at most one source,
read as a `u32` or a `u64`. -/
structure ParamSize.WellSourced (num_bytes : ParamSize) : Prop where
  one_source : num_bytes.mem_ptr = 0 ∨ num_bytes.from_syscall = false
  read_size : num_bytes.source.isSome = true → num_bytes.read_size = 4 ∨ num_bytes.read_size = 8

instance (num_bytes : ParamSize) : Decidable num_bytes.WellSourced :=
  decidable_of_iff (_ ∧ _) ⟨fun h => ⟨h.1, h.2⟩, fun h => ⟨h.1, h.2⟩⟩

/-- The value `ParamSize::eval` reads from a source. -/
def SizeSource.value (mem : Nat → UInt8) (syscall_result_signed : Int) : SizeSource → Nat
  | .mem ptr read_size => (read_size_value mem ptr read_size).getD 0
  | .syscall read_size => (syscall_size syscall_result_signed read_size).getD 0

section Sources

variable {num_bytes other : ParamSize}

/-- For sizes built by rd's constructors, `is_same_source` says that both
read one source. -/
theorem is_same_source_iff (h : num_bytes.WellSourced) (h' : other.WellSourced) :
    num_bytes.is_same_source other = true ↔ num_bytes.source.isSome = true ∧ num_bytes.source = other.source := by
  unfold ParamSize.is_same_source ParamSize.source
  by_cases hm : num_bytes.mem_ptr = 0
  · cases hf : num_bytes.from_syscall
    · simp [hm]
    · rcases h'.one_source with hm' | hf'
      · cases other.from_syscall <;> simp [hm, hm']
      · simp [hm, hf']
  · have hf := h.one_source.resolve_left hm
    by_cases hm' : other.mem_ptr = 0
    · simp [hm, hf, hm', Ne.symm hm]
    · simp [hm, hf, hm', eq_comm (a := other.mem_ptr)]

/-- A parameter with source `s` shares it with exactly the parameters whose
source is `s`. -/
theorem is_same_source_of_source {s : SizeSource} (h : num_bytes.WellSourced) (h' : other.WellSourced)
    (hs : other.source = some s) : num_bytes.is_same_source other = true ↔ num_bytes.source = some s := by
  rw [is_same_source_iff h h', hs]
  constructor
  · exact fun h => h.2
  · intro h
    simp [h]

/-- `ParamSize::eval` with a source: the incoming size bounded by what the
earlier parameters left of its value, failing the assertion when they took
more than it. -/
theorem eval_of_source {s : SizeSource} (h : num_bytes.WellSourced) (hs : num_bytes.source = some s)
    (mem : Nat → UInt8) (syscall_result_signed : Int) (already_consumed : Nat) :
    num_bytes.eval mem syscall_result_signed already_consumed =
      if already_consumed ≤ s.value mem syscall_result_signed then
        some (min num_bytes.incoming_size (s.value mem syscall_result_signed - already_consumed))
      else none := by
  have hsize := h.read_size (by simp [hs])
  unfold ParamSize.source at hs
  by_cases hm : num_bytes.mem_ptr = 0
  · have hf : num_bytes.from_syscall = true := by
      by_contra hf
      simp [hm, hf] at hs
    simp only [hm, ne_eq, not_true_eq_false, if_false, hf, if_true, Option.some.injEq] at hs
    subst hs
    rcases hsize with h4 | h8 <;>
      simp [ParamSize.eval, SizeSource.value, syscall_size, *]
  · have hf : num_bytes.from_syscall = false := h.one_source.resolve_left hm
    simp only [hm, ne_eq, not_false_eq_true, if_true, Option.some.injEq] at hs
    subst hs
    have hread : read_size_value mem num_bytes.mem_ptr num_bytes.read_size =
        some (le_value (read_mem mem num_bytes.mem_ptr num_bytes.read_size)) := by
      simp [read_size_value, hsize]
    by_cases hc : already_consumed ≤ le_value (read_mem mem num_bytes.mem_ptr num_bytes.read_size) <;>
      simp [ParamSize.eval, SizeSource.value, hm, hf, hread, hc]

/-- `ParamSize::eval` without a source: the incoming size. -/
theorem eval_of_no_source (hs : num_bytes.source = none) (mem : Nat → UInt8) (syscall_result_signed : Int)
    (already_consumed : Nat) : num_bytes.eval mem syscall_result_signed already_consumed = some num_bytes.incoming_size := by
  unfold ParamSize.source at hs
  by_cases hm : num_bytes.mem_ptr = 0
  · have hf : num_bytes.from_syscall = false := by
      by_contra hf
      simp [hm, hf] at hs
    simp [ParamSize.eval, hm, hf]
  · simp [hm] at hs

end Sources


/-- A write apart from a size word leaves the value of its source. -/
theorem value_write_bytes {s : SizeSource} {mem : Nat → UInt8} {syscall_result_signed : Int} {addr : Nat}
    {data : List UInt8} (h : ∀ ptr read_size, s = .mem ptr read_size → ptr + read_size ≤ addr ∨ addr + data.length ≤ ptr) :
    s.value (write_bytes mem addr data) syscall_result_signed = s.value mem syscall_result_signed := by
  cases s with
  | mem ptr read_size =>
    simp only [SizeSource.value, read_size_value, read_mem_write_bytes_disjoint (h ptr read_size rfl)]
  | syscall read_size => rfl

/-! ## The sizes of a run -/

/-- The sizes given to the parameters of `ps` that read `s`, in order. -/
def group_sizes (ps : List MemoryParam) (sizes : List Nat) (s : SizeSource) : List Nat :=
  ((ps.zip sizes).filter fun e => e.1.num_bytes.source = some s).map Prod.snd

/-- The incoming sizes of the parameters of `ps` that read `s`, in order. -/
def group_incoming (ps : List MemoryParam) (s : SizeSource) : List Nat :=
  (ps.filter fun p => p.num_bytes.source = some s).map fun p => p.num_bytes.incoming_size

theorem group_sizes_append {ps : List MemoryParam} {sizes : List Nat} (hlen : sizes.length = ps.length)
    (p : MemoryParam) (a : Nat) (s : SizeSource) :
    group_sizes (ps ++ [p]) (sizes ++ [a]) s =
      group_sizes ps sizes s ++ if p.num_bytes.source = some s then [a] else [] := by
  unfold group_sizes
  rw [List.zip_append hlen.symm]
  by_cases hs : p.num_bytes.source = some s <;> simp [hs]

theorem group_incoming_append (ps : List MemoryParam) (p : MemoryParam) (s : SizeSource) :
    group_incoming (ps ++ [p]) s =
      group_incoming ps s ++ if p.num_bytes.source = some s then [p.num_bytes.incoming_size] else [] := by
  unfold group_incoming
  by_cases hs : p.num_bytes.source = some s <;> simp [hs]

/-- Two lists of parameters that agree, position by position, on the
incoming sizes and on reading `s₁` and `s₂`, have the same groups. -/
theorem group_sizes_congr {l₁ l₂ : List MemoryParam} {s₁ s₂ : SizeSource}
    (h : List.Forall₂ (fun q p => q.num_bytes.incoming_size = p.num_bytes.incoming_size ∧
      (q.num_bytes.source = some s₁ ↔ p.num_bytes.source = some s₂)) l₁ l₂) (sizes : List Nat) :
    group_sizes l₁ sizes s₁ = group_sizes l₂ sizes s₂ := by
  induction h generalizing sizes with
  | nil => rfl
  | @cons q p l₁ l₂ hqp _ ih =>
    cases sizes with
    | nil => rfl
    | cons a sizes =>
      have := ih sizes
      unfold group_sizes at this ⊢
      by_cases hq : q.num_bytes.source = some s₁
      · simp [hq, hqp.2.1 hq, this]
      · simp [hq, mt hqp.2.2 hq, this]

theorem group_incoming_congr {l₁ l₂ : List MemoryParam} {s₁ s₂ : SizeSource}
    (h : List.Forall₂ (fun q p => q.num_bytes.incoming_size = p.num_bytes.incoming_size ∧
      (q.num_bytes.source = some s₁ ↔ p.num_bytes.source = some s₂)) l₁ l₂) :
    group_incoming l₁ s₁ = group_incoming l₂ s₂ := by
  induction h with
  | nil => rfl
  | @cons q p l₁ l₂ hqp _ ih =>
    unfold group_incoming at ih ⊢
    by_cases hq : q.num_bytes.source = some s₁
    · simp [hq, hqp.2.1 hq, hqp.1, ih]
    · simp [hq, mt hqp.2.2 hq, ih]

/-- Each right element of a `Forall₂` is a member of its list. -/
theorem forall₂_with_mem {α β : Type} {R : α → β → Prop} {l₁ : List α} {l₂ : List β}
    (h : List.Forall₂ R l₁ l₂) : List.Forall₂ (fun a b => R a b ∧ b ∈ l₂) l₁ l₂ :=
  List.forall₂_iff_zip.2 ⟨h.length_eq, fun hab => ⟨List.forall₂_zip h hab, (List.of_mem_zip hab).2⟩⟩

/-- A pair of `l₂.zip sizes` has its partner in `l₁.zip sizes`. -/
theorem mem_zip_of_forall₂ {α β γ : Type} {R : α → β → Prop} {l₁ : List α} {l₂ : List β}
    (h : List.Forall₂ R l₁ l₂) {sizes : List γ} {e : β × γ} (he : e ∈ l₂.zip sizes) :
    ∃ a, (a, e.2) ∈ l₁.zip sizes ∧ R a e.1 := by
  induction h generalizing sizes with
  | nil => simp at he
  | @cons a b l₁ l₂ hab _ ih =>
    cases sizes with
    | nil => simp at he
    | cons c sizes =>
      rcases List.mem_cons.1 he with rfl | he
      · exact ⟨a, List.mem_cons_self .., hab⟩
      · obtain ⟨a', ha', hr⟩ := ih he
        exact ⟨a', List.mem_cons_of_mem _ ha', hr⟩

/-- The sizes the loops of `process_syscall_results` give: each at most its
incoming size, the incoming size without a source, and for each source the
greedy split of its value `V s` among the parameters reading it. -/
structure GreedySizes (ps : List MemoryParam) (V : SizeSource → Nat) (sizes : List Nat) : Prop where
  length_eq : sizes.length = ps.length
  le : ∀ e ∈ ps.zip sizes, e.2 ≤ e.1.num_bytes.incoming_size
  unsourced : ∀ e ∈ ps.zip sizes, e.1.num_bytes.source = none → e.2 = e.1.num_bytes.incoming_size
  group : ∀ s, group_sizes ps sizes s = greedy_split (V s) (group_incoming ps s)

namespace GreedySizes

variable {ps : List MemoryParam} {V : SizeSource → Nat} {sizes : List Nat}

theorem nil (V : SizeSource → Nat) : GreedySizes [] V [] :=
  ⟨rfl, by simp, by simp, fun _ => rfl⟩

/-- The sizes of a source's parameters add up to the smaller of its value and
their incoming sizes. -/
theorem sum_group (hG : GreedySizes ps V sizes) (s : SizeSource) :
    (group_sizes ps sizes s).sum = min (V s) (group_incoming ps s).sum := by
  rw [hG.group, sum_greedy_split]

/-- One more parameter, given the incoming size without a source and with one
what the earlier parameters left of it. -/
theorem snoc (hG : GreedySizes ps V sizes) (p : MemoryParam) (a : Nat)
    (hnone : p.num_bytes.source = none → a = p.num_bytes.incoming_size)
    (hsome : ∀ s, p.num_bytes.source = some s →
      a = min p.num_bytes.incoming_size (V s - (group_sizes ps sizes s).sum)) :
    GreedySizes (ps ++ [p]) V (sizes ++ [a]) := by
  have hzip : (ps ++ [p]).zip (sizes ++ [a]) = ps.zip sizes ++ [(p, a)] := by
    rw [List.zip_append hG.length_eq.symm]
    rfl
  have hle : a ≤ p.num_bytes.incoming_size := by
    rcases hs : p.num_bytes.source with _ | s
    · exact (hnone hs).le
    · rw [hsome s hs]
      exact Nat.min_le_left _ _
  refine ⟨by simp [hG.length_eq], ?_, ?_, fun s => ?_⟩
  · rw [hzip]
    intro e he
    rcases List.mem_append.1 he with he | he
    · exact hG.le e he
    · rw [List.mem_singleton.1 he]
      exact hle
  · rw [hzip]
    intro e he hs
    rcases List.mem_append.1 he with he | he
    · exact hG.unsourced e he hs
    · rw [List.mem_singleton.1 he] at hs ⊢
      exact hnone hs
  · rw [group_sizes_append hG.length_eq, group_incoming_append]
    by_cases hs : p.num_bytes.source = some s
    · rw [if_pos hs, if_pos hs, hsome s hs, hG.group s, greedy_split_append]
    · rw [if_neg hs, if_neg hs, List.append_nil, List.append_nil, hG.group s]

end GreedySizes

/-- `eval_param_size` on the next parameter, all earlier sizes being greedy:
without a source it gives the incoming size; with source `s` what the earlier
parameters of `s` took is at most its value `S`, so the assertion holds, and
it gives `min(incoming, S - already_consumed)`. -/
theorem eval_param_size_step {ps : List MemoryParam} {t : SyscallTask} {V : SizeSource → Nat}
    {sizes : List Nat} {k : Nat} (hwell : ∀ p ∈ ps, p.num_bytes.WellSourced) (hk : k < ps.length)
    (hG : GreedySizes (ps.take k) V sizes)
    (hV : ∀ s, ps[k].num_bytes.source = some s → s.value t.mem t.syscall_result_signed = V s) :
    ∃ a, eval_param_size ps t k sizes = some a ∧ a ≤ ps[k].num_bytes.incoming_size ∧
      GreedySizes (ps.take (k + 1)) V (sizes ++ [a]) := by
  have hlen : sizes.length = k := by
    rw [hG.length_eq, List.length_take]
    omega
  have heval : eval_param_size ps t k sizes = ps[k].num_bytes.eval t.mem t.syscall_result_signed
      ((((ps.take k).zip sizes).filter (fun e => e.1.num_bytes.is_same_source ps[k].num_bytes)).map
        Prod.snd).sum := by
    simp [eval_param_size, hlen, List.getElem?_eq_getElem hk]
  rw [← List.take_append_getElem hk]
  rcases hs : ps[k].num_bytes.source with _ | s
  -- no source: the incoming size, whatever the earlier parameters took
  · rw [heval, eval_of_no_source hs]
    exact ⟨_, rfl, le_rfl, hG.snoc _ _ (fun _ => rfl) fun s hs' => absurd (hs.symm.trans hs') (by simp)⟩
  -- a source: the earlier parameters with the same source are those reading `s`
  · have hsame : (((ps.take k).zip sizes).filter (fun e => e.1.num_bytes.is_same_source ps[k].num_bytes)).map
        Prod.snd = group_sizes (ps.take k) sizes s := by
      unfold group_sizes
      congr 1
      refine List.filter_congr fun e he => ?_
      have hwe := hwell e.1 (List.take_subset k ps (List.of_mem_zip he).1)
      rw [Bool.eq_iff_iff, decide_eq_true_iff]
      exact is_same_source_of_source hwe (hwell _ (List.getElem_mem hk)) hs
    have hconsumed : (group_sizes (ps.take k) sizes s).sum ≤ V s := by
      rw [hG.sum_group]
      exact Nat.min_le_left _ _
    rw [heval, hsame, eval_of_source (hwell _ (List.getElem_mem hk)) hs, hV s hs, if_pos hconsumed]
    refine ⟨_, rfl, Nat.min_le_left _ _, hG.snoc _ _ (fun h => absurd (hs.symm.trans h) (by simp)) ?_⟩
    intro s' hs'
    rw [hs, Option.some.injEq] at hs'
    rw [hs']


/-! ## The two loops -/

section Loops

variable {ps : List MemoryParam} {V : SizeSource → Nat}

/-- The loop over the parameters left, from the `k`-th on. -/
theorem drop_eq_cons {rest : List MemoryParam} {p : MemoryParam} {k : Nat} (h : ps.drop k = p :: rest) :
    ∃ hk : k < ps.length, ps[k] = p ∧ ps.drop (k + 1) = rest := by
  have hk : k < ps.length := by
    by_contra hk
    rw [List.drop_eq_nil_iff.2 (by omega)] at h
    cases h
  rw [List.drop_eq_getElem_cons hk, List.cons.injEq] at h
  exact ⟨hk, h⟩

/-- The loop of `process_syscall_results` without scratch gives greedy sizes,
the value of each source being read from the one memory it sees. -/
theorem eval_param_sizes_spec (hwell : ∀ p ∈ ps, p.num_bytes.WellSourced) (t : SyscallTask)
    (hV : ∀ p ∈ ps, ∀ s, p.num_bytes.source = some s → s.value t.mem t.syscall_result_signed = V s) :
    ∀ (rest : List MemoryParam) (k : Nat) (sizes : List Nat), ps.drop k = rest →
      GreedySizes (ps.take k) V sizes →
      ∃ sizes', eval_param_sizes ps t rest sizes = some sizes' ∧ GreedySizes ps V sizes'
  | [], k, sizes, hrest, hG => by
    rw [List.take_of_length_le (List.drop_eq_nil_iff.1 hrest)] at hG
    exact ⟨sizes, rfl, hG⟩
  | p :: rest, k, sizes, hrest, hG => by
    obtain ⟨hk, rfl, hnext⟩ := drop_eq_cons hrest
    obtain ⟨a, ha, -, hG'⟩ := eval_param_size_step hwell hk hG (hV _ (List.getElem_mem hk))
    have hlen : sizes.length = k := by
      rw [hG.length_eq, List.length_take]
      omega
    obtain ⟨sizes', hloop, hG''⟩ := eval_param_sizes_spec hwell t hV rest (k + 1) _ hnext hG'
    refine ⟨sizes', ?_, hG''⟩
    simp [eval_param_sizes, hlen, ha, hloop]

/-- The loop of `process_syscall_results` with scratch gives greedy sizes:
each output slice lies within the snapshot of the scratch area, and the copies
to the output buffers leave the size words, which lie apart from them. -/
theorem copy_back_loop_spec (hwell : ∀ p ∈ ps, p.num_bytes.WellSourced) (write_back : WriteBack)
    (data : List UInt8) (scratch_ptr : Nat)
    (hslice : ∀ p ∈ ps, p.mode = .InOut ∨ p.mode = .Out →
      wrapping_sub p.scratch scratch_ptr + p.num_bytes.incoming_size ≤ data.length)
    (hapart : ∀ p ∈ ps, p.mode = .InOut ∨ p.mode = .Out → ∀ q ∈ ps, ∀ ptr read_size,
      q.num_bytes.source = some (.mem ptr read_size) → ptr + read_size ≤ p.dest ∨ p.dest + p.num_bytes.incoming_size ≤ ptr) :
    ∀ (rest : List MemoryParam) (k : Nat) (sizes : List Nat) (t : SyscallTask), ps.drop k = rest →
      GreedySizes (ps.take k) V sizes →
      (∀ q ∈ ps, ∀ s, q.num_bytes.source = some s → s.value t.mem t.syscall_result_signed = V s) →
      ∃ t' sizes', copy_back_loop ps write_back data scratch_ptr t rest sizes = some (t', sizes') ∧
        GreedySizes ps V sizes'
  | [], k, sizes, t, hrest, hG, _ => by
    rw [List.take_of_length_le (List.drop_eq_nil_iff.1 hrest)] at hG
    exact ⟨t, sizes, rfl, hG⟩
  | p :: rest, k, sizes, t, hrest, hG, hV => by
    obtain ⟨hk, rfl, hnext⟩ := drop_eq_cons hrest
    have hp := List.getElem_mem hk
    obtain ⟨a, ha, hle, hG'⟩ := eval_param_size_step hwell hk hG (hV _ hp)
    have hlen : sizes.length = k := by
      rw [hG.length_eq, List.length_take]
      omega
    by_cases hcopy : write_back = .WriteBack ∧ (ps[k].mode = .InOut ∨ ps[k].mode = .Out)
    -- the output copied back: within the snapshot, and apart from every size word
    · have hfit : ¬ data.length < wrapping_sub ps[k].scratch scratch_ptr + a := by
        have := hslice _ hp hcopy.2
        omega
      set d := (data.drop (wrapping_sub ps[k].scratch scratch_ptr)).take a with hd
      have hdlen : d.length ≤ ps[k].num_bytes.incoming_size := by
        rw [hd, List.length_take]
        omega
      have hV' : ∀ q ∈ ps, ∀ s, q.num_bytes.source = some s →
          s.value (write_bytes t.mem ps[k].dest d) t.syscall_result_signed = V s := by
        intro q hq s hs
        rw [value_write_bytes, hV q hq s hs]
        intro ptr read_size hsrc
        have := hapart _ hp hcopy.2 q hq ptr read_size (hsrc ▸ hs)
        omega
      obtain ⟨t', sizes', hloop, hG''⟩ := copy_back_loop_spec hwell write_back data scratch_ptr hslice hapart
        rest (k + 1) _ { t with mem := write_bytes t.mem ps[k].dest d } hnext hG' hV'
      refine ⟨t', sizes', ?_, hG''⟩
      simp only [copy_back_loop, hlen, ha, Option.bind_eq_bind, Option.bind_some, if_pos hcopy, if_neg hfit]
      exact hloop
    · obtain ⟨t', sizes', hloop, hG''⟩ := copy_back_loop_spec hwell write_back data scratch_ptr hslice hapart
        rest (k + 1) _ t hnext hG' hV
      refine ⟨t', sizes', ?_, hG''⟩
      simp only [copy_back_loop, hlen, ha, Option.bind_eq_bind, Option.bind_some, if_neg hcopy]
      exact hloop

end Loops


/-! ## Moved sources -/

/-- Greedy sizes carry over to a list with the same incoming sizes and the
sources moved by `σ`, when `σ` keeps apart the sources found there. -/
theorem GreedySizes.of_moved {l₁ l₂ : List MemoryParam} {V : SizeSource → Nat} {sizes : List Nat}
    {σ : SizeSource → SizeSource} (hG : GreedySizes l₁ V sizes)
    (h : List.Forall₂ (fun q p => q.num_bytes.incoming_size = p.num_bytes.incoming_size ∧
      q.num_bytes.source = p.num_bytes.source.map σ) l₁ l₂)
    (hinj : ∀ p ∈ l₂, ∀ p' ∈ l₂, ∀ s s', p.num_bytes.source = some s → p'.num_bytes.source = some s' →
      σ s = σ s' → s = s') :
    GreedySizes l₂ (fun s => V (σ s)) sizes := by
  have hmem := forall₂_with_mem h
  refine ⟨h.length_eq ▸ hG.length_eq, ?_, ?_, fun s => ?_⟩
  · intro e he
    obtain ⟨q, hq, ⟨hinc, -⟩, -⟩ := mem_zip_of_forall₂ hmem he
    exact hinc ▸ hG.le _ hq
  · intro e he hs
    obtain ⟨q, hq, ⟨hinc, hsrc⟩, -⟩ := mem_zip_of_forall₂ hmem he
    rw [hs, Option.map_none] at hsrc
    exact hinc ▸ hG.unsourced _ hq hsrc
  by_cases hs : ∃ p₀ ∈ l₂, p₀.num_bytes.source = some s
  -- a source found there: the parameters reading it are those reading `σ s`
  · obtain ⟨p₀, hp₀, hs₀⟩ := hs
    have hiff : List.Forall₂ (fun q p => q.num_bytes.incoming_size = p.num_bytes.incoming_size ∧
        (q.num_bytes.source = some (σ s) ↔ p.num_bytes.source = some s)) l₁ l₂ := by
      refine hmem.imp fun q p ⟨⟨hinc, hsrc⟩, hp⟩ => ⟨hinc, ?_, fun hps => by rw [hsrc, hps]; rfl⟩
      intro hqs
      rw [hsrc] at hqs
      obtain ⟨s', hs', hσ⟩ := Option.map_eq_some_iff.1 hqs
      rw [hs', hinj p hp p₀ hp₀ s' s hs' hs₀ hσ]
    rw [← group_sizes_congr hiff, ← group_incoming_congr hiff]
    exact hG.group (σ s)
  -- no parameter reads `s`: both groups are empty
  · have hnone : ∀ p ∈ l₂, ¬ p.num_bytes.source = some s := fun p hp hps => hs ⟨p, hp, hps⟩
    have hsizes : group_sizes l₂ sizes s = [] := by
      simp only [group_sizes, List.map_eq_nil_iff, List.filter_eq_nil_iff, decide_eq_true_eq]
      exact fun e he => hnone e.1 (List.of_mem_zip he).1
    have hinc : group_incoming l₂ s = [] := by
      simp only [group_incoming, List.map_eq_nil_iff, List.filter_eq_nil_iff, decide_eq_true_eq]
      exact hnone
    rw [hsizes, hinc, greedy_split]


/-! ## Sources relocated to scratch -/

/-- Where `process_syscall_results` reads a source with scratch: a size word
at its copy, where `relocate_size` moved it. -/
def SizeSource.relocate (st : TaskSyscallState) : SizeSource → SizeSource
  | .mem ptr read_size => .mem (st.relocate_pointer_to_scratch ptr) read_size
  | .syscall read_size => .syscall read_size

@[simp] theorem read_size_relocate_size (st : TaskSyscallState) (num_bytes : ParamSize) :
    (st.relocate_size num_bytes).read_size = num_bytes.read_size := by
  unfold TaskSyscallState.relocate_size
  split_ifs <;> rfl

theorem source_eq_mem {num_bytes : ParamSize} {ptr read_size : Nat}
    (h : num_bytes.source = some (.mem ptr read_size)) :
    num_bytes.mem_ptr = ptr ∧ num_bytes.read_size = read_size ∧ ptr ≠ 0 := by
  unfold ParamSize.source at h
  by_cases hm : num_bytes.mem_ptr = 0
  · cases hf : num_bytes.from_syscall <;> simp [hm, hf] at h
  · simp only [hm, ne_eq, not_false_eq_true, if_true, Option.some.injEq, SizeSource.mem.injEq] at h
    exact ⟨h.1, h.2, h.1 ▸ hm⟩

/-- Relocating a size moves its source, when the word does not move to
null. -/
theorem source_relocate_size {st : TaskSyscallState} {num_bytes : ParamSize}
    (hR : num_bytes.mem_ptr ≠ 0 → st.relocate_pointer_to_scratch num_bytes.mem_ptr ≠ 0) :
    (st.relocate_size num_bytes).source = num_bytes.source.map (SizeSource.relocate st) := by
  unfold TaskSyscallState.relocate_size ParamSize.source
  by_cases hm : num_bytes.mem_ptr = 0
  · cases hf : num_bytes.from_syscall <;> simp [hm, hf, SizeSource.relocate]
  · simp [hm, hR hm, SizeSource.relocate]

theorem ParamSize.WellSourced.relocate_size {st : TaskSyscallState} {num_bytes : ParamSize}
    (h : num_bytes.WellSourced)
    (hR : num_bytes.mem_ptr ≠ 0 → st.relocate_pointer_to_scratch num_bytes.mem_ptr ≠ 0) :
    (st.relocate_size num_bytes).WellSourced := by
  refine ⟨?_, ?_⟩
  · unfold TaskSyscallState.relocate_size
    split_ifs with hm
    · exact .inr (h.one_source.resolve_left hm)
    · exact h.one_source
  · intro hs
    rw [source_relocate_size hR, Option.isSome_map] at hs
    rw [read_size_relocate_size]
    exact h.read_size hs

namespace TaskSyscallState

variable {st : TaskSyscallState} {t t2 : SyscallTask} {sizes : List Nat}

theorem process_of_scratch (hdone : st.preparation_done = true) (hen : st.scratch_enabled = true)
    (hloop : copy_back_loop st.param_list st.write_back
      (read_mem t.mem t.scratch_ptr (wrapping_sub st.scratch t.scratch_ptr)) t.scratch_ptr t st.param_list [] =
        some (t2, sizes)) :
    st.process_syscall_results t =
      some (st, { t2 with
        args := (restore_pointers st.param_list t2.arch t2.args t2.mem).1
        mem := (restore_pointers st.param_list t2.arch t2.args t2.mem).2 }, sizes) := by
  simp [process_syscall_results, hdone, hen, hloop]

theorem process_of_no_scratch {mem : Nat → UInt8} (hdone : st.preparation_done = true)
    (hen : st.scratch_enabled = false)
    (hres : restore_mutated_memory st.param_list t.mem st.saved_data = some (mem, []))
    (hsizes : eval_param_sizes st.param_list { t with mem } st.param_list [] = some sizes) :
    st.process_syscall_results t = some ({ st with saved_data := [] }, { t with mem }, sizes) := by
  simp [process_syscall_results, hdone, hen, hres, hsizes]

end TaskSyscallState

/-- After preparing with scratch, each parameter is a registered one with its
size relocated. -/
theorem relocated_kept (st : TaskSyscallState) (mem : Nat → UInt8) :
    List.Forall₂ (fun q p => ParamKept q { p with num_bytes := st.relocate_size p.num_bytes } ∧ p ∈ st.param_list)
      (run_mutators true (relocate_size_sources st) mem []).1 st.param_list := by
  have h := run_mutators_kept true (relocate_size_sources st) mem []
  rw [relocate_size_sources, List.forall₂_map_right_iff] at h
  exact forall₂_with_mem h

/-- Each output slice lies within the snapshot of the scratch area. -/
theorem relocated_slices {t : SyscallTask} {st : TaskSyscallState} (hL : ScratchLayout t.scratch_ptr st)
    (hdemand : t.scratch_ptr + scratch_demand st.param_list < 2 ^ 64) (mem : Nat → UInt8) :
    ∀ p ∈ (run_mutators true (relocate_size_sources st) mem []).1, p.mode = .InOut ∨ p.mode = .Out →
      wrapping_sub p.scratch t.scratch_ptr + p.num_bytes.incoming_size ≤ wrapping_sub st.scratch t.scratch_ptr := by
  intro p hp hmode
  obtain ⟨p', -, ⟨-, hscratch, hnb, -, -, hm, -⟩, hp'⟩ :=
    forall₂_exists_mem_right (relocated_kept st mem) p hp
  have hslot := hL.slot p' hp' (by rcases hm ▸ hmode with h | h <;> rw [h] <;> decide)
  have hend := hL.demand
  simp only at hscratch
  rw [hnb, incoming_size_relocate_size, hscratch, wrapping_sub_of_le hslot.1 (by omega),
    wrapping_sub_of_le hL.base_le (by omega)]
  omega

section Scratch

variable {t : SyscallTask} {st : TaskSyscallState} (hL : ScratchLayout t.scratch_ptr st)
  (hdemand : t.scratch_ptr + scratch_demand st.param_list < 2 ^ 64)
  (hwell : ∀ p ∈ st.param_list, p.num_bytes.WellSourced)
  (hsrc : ∀ p ∈ st.param_list, p.num_bytes.mem_ptr ≠ 0 →
    InScratchBuffer st.param_list p.num_bytes.mem_ptr p.num_bytes.read_size)
include hL hdemand hwell hsrc

/-- A size word in a buffer moves into the scratch area. -/
theorem relocated_size_word {p : MemoryParam} (hp : p ∈ st.param_list) (hm : p.num_bytes.mem_ptr ≠ 0) :
    t.scratch_ptr ≤ st.relocate_pointer_to_scratch p.num_bytes.mem_ptr ∧
      st.relocate_pointer_to_scratch p.num_bytes.mem_ptr + p.num_bytes.read_size ≤ st.scratch := by
  have hsize := (hwell p hp).read_size (by simp [ParamSize.source, hm])
  obtain ⟨k, -, -, -, -, -, hbase, hend, hslot⟩ :=
    relocate_of_in_scratch_buffer hL hdemand (by omega) (hsrc p hp hm)
  exact ⟨hbase, by omega⟩

/-- Relocation keeps the sources of the parameters apart. -/
theorem relocate_source_injective : ∀ p ∈ st.param_list, ∀ p' ∈ st.param_list, ∀ s s',
    p.num_bytes.source = some s → p'.num_bytes.source = some s' → s.relocate st = s'.relocate st → s = s' := by
  intro p hp p' hp' s s' hs hs' hσ
  cases s with
  | mem ptr read_size =>
    cases s' with
    | mem ptr' read_size' =>
      obtain ⟨hm, hr, h0⟩ := source_eq_mem hs
      obtain ⟨hm', hr', h0'⟩ := source_eq_mem hs'
      simp only [SizeSource.relocate, SizeSource.mem.injEq] at hσ
      have hpos := (hwell p hp).read_size (by simp [hs])
      have hpos' := (hwell p' hp').read_size (by simp [hs'])
      have hin := hsrc p hp (hm ▸ h0)
      have hin' := hsrc p' hp' (hm' ▸ h0')
      rw [hm, hr] at hin
      rw [hr] at hpos
      rw [hm', hr'] at hin'
      rw [hr'] at hpos'
      rw [relocate_injective hL hdemand (by omega) (by omega) hin hin' hσ.1, hσ.2]
    | syscall _ => cases hσ
  | syscall read_size =>
    cases s' with
    | mem _ _ => cases hσ
    | syscall _ => exact hσ


/-- With the output buffers outside the scratch area, the copies back leave
the relocated size words. -/
theorem relocated_apart (mem : Nat → UInt8)
    (hout : ∀ p ∈ st.param_list, p.mode = .InOut ∨ p.mode = .Out →
      p.dest + p.num_bytes.incoming_size ≤ t.scratch_ptr ∨ st.scratch ≤ p.dest) :
    ∀ p ∈ (run_mutators true (relocate_size_sources st) mem []).1, p.mode = .InOut ∨ p.mode = .Out →
      ∀ q ∈ (run_mutators true (relocate_size_sources st) mem []).1, ∀ ptr read_size,
        q.num_bytes.source = some (.mem ptr read_size) →
          ptr + read_size ≤ p.dest ∨ p.dest + p.num_bytes.incoming_size ≤ ptr := by
  intro p hp hmode q hq ptr read_size hs
  have hkept := relocated_kept st mem
  obtain ⟨p', -, ⟨hdest, -, hnb, -, -, hm, -⟩, hp'⟩ := forall₂_exists_mem_right hkept p hp
  obtain ⟨q', -, ⟨-, -, hnbq, -, -, -, -⟩, hq'⟩ := forall₂_exists_mem_right hkept q hq
  rw [hnbq] at hs
  obtain ⟨hptr, hread, hne⟩ := source_eq_mem hs
  have hmq : q'.num_bytes.mem_ptr ≠ 0 := by
    by_contra hz
    simp [TaskSyscallState.relocate_size, hz] at hptr
    exact hne hptr.symm
  simp only [TaskSyscallState.relocate_size, ne_eq, hmq, not_false_eq_true, if_true] at hptr hread
  have hword := relocated_size_word hL hdemand hwell hsrc hq' hmq
  have hfar := hout p' hp' (hm ▸ hmode)
  rw [hnb, incoming_size_relocate_size]
  simp only at hdest
  omega

variable (h0 : t.scratch_ptr ≠ 0)
include h0

theorem relocate_ne_zero {p : MemoryParam} (hp : p ∈ st.param_list) :
    p.num_bytes.mem_ptr ≠ 0 → st.relocate_pointer_to_scratch p.num_bytes.mem_ptr ≠ 0 := fun hm => by
  have := relocated_size_word hL hdemand hwell hsrc hp hm
  omega

/-- After preparing with scratch, the parameters keep the registered incoming
sizes, and their sources are relocated. -/
theorem relocated_moved (mem : Nat → UInt8) :
    List.Forall₂ (fun q p => q.num_bytes.incoming_size = p.num_bytes.incoming_size ∧
      q.num_bytes.source = p.num_bytes.source.map (SizeSource.relocate st))
      (run_mutators true (relocate_size_sources st) mem []).1 st.param_list := by
  refine (relocated_kept st mem).imp fun q p hqp => ?_
  obtain ⟨⟨-, -, hnb, -, -, -, -⟩, hp⟩ := hqp
  rw [hnb]
  exact ⟨incoming_size_relocate_size st _, source_relocate_size (relocate_ne_zero hL hdemand hwell hsrc h0 hp)⟩

theorem relocated_well_sourced (mem : Nat → UInt8) :
    ∀ q ∈ (run_mutators true (relocate_size_sources st) mem []).1, q.num_bytes.WellSourced := by
  intro q hq
  obtain ⟨p, -, ⟨-, -, hnb, -, -, -, -⟩, hp⟩ :=
    forall₂_exists_mem_right (relocated_kept st mem) q hq
  rw [hnb]
  exact (hwell p hp).relocate_size (relocate_ne_zero hL hdemand hwell hsrc h0 hp)

end Scratch


/-! ## The sizes after a prepared syscall -/

/-- The sizes `process_syscall_results` gives after `done_preparing` are the
greedy split of each source's value among the parameters reading it, and in
`eval_param_size` the assertion that the earlier parameters took no more than
the value never fails.  The value is read from the memory the sizes are
evaluated on: the tracee's after the syscall with scratch, at the size word's
scratch copy, and without scratch the tracee's once the mutated buffers are
restored.  With scratch, the size words are taken to lie in registered
buffers, as the `debug_assert!`s of `relocate_pointer_to_scratch` require,
and the output buffers outside the scratch area; every output slice then lies
within the snapshot of the scratch area.  The slots are those of
`ScratchLayout`: apart, in order, and 8-aligned from an 8-aligned scratch
area. -/
theorem process_syscall_results_greedy_sizes {t : SyscallTask} {st : TaskSyscallState}
    (hreg : Registered t st) (hdemand : t.scratch_ptr + scratch_demand st.param_list < 2 ^ 64) (sw : Switchable)
    (hwell : ∀ p ∈ st.param_list, p.num_bytes.WellSourced)
    (hsrc : ScratchUsed t st sw → ∀ p ∈ st.param_list, p.num_bytes.mem_ptr ≠ 0 →
      InScratchBuffer st.param_list p.num_bytes.mem_ptr p.num_bytes.read_size)
    (hout : ScratchUsed t st sw → ∀ p ∈ st.param_list, p.mode = .InOut ∨ p.mode = .Out →
      p.dest + p.num_bytes.incoming_size ≤ t.scratch_ptr ∨ st.scratch ≤ p.dest) :
    ScratchLayout t.scratch_ptr st ∧
      ∃ st1 t1 sw1, st.done_preparing t sw = some (st1, t1, sw1) ∧
        ∀ t' : SyscallTask, t'.scratch_ptr = t.scratch_ptr →
          ∃ st2 t2 sizes mem, st1.process_syscall_results t' = some (st2, t2, sizes) ∧
            (ScratchUsed t st sw → mem = t'.mem) ∧
            (¬ ScratchUsed t st sw →
              restore_mutated_memory st1.param_list t'.mem st1.saved_data = some (mem, [])) ∧
            GreedySizes st.param_list
              (fun s => (if ScratchUsed t st sw then s.relocate st else s).value mem t'.syscall_result_signed)
              sizes ∧
            (ScratchUsed t st sw → ∀ e ∈ st.param_list.zip sizes, e.1.mode ≠ .InOutNoScratch →
              wrapping_sub e.1.scratch t.scratch_ptr + e.2 ≤ wrapping_sub st.scratch t.scratch_ptr) := by
  have hI := hreg.regInv
  have hL := hreg.layout hdemand
  refine ⟨hL, ?_⟩
  by_cases hused : ScratchUsed t st sw
  -- with scratch: the copies back, reading the relocated size words
  · have hsrc := hsrc hused
    have h0 : t.scratch_ptr ≠ 0 := hused.1
    refine ⟨_, _, _, done_preparing_of_used hI hL.base_le hused, fun t' hptr => ?_⟩
    set L := (run_mutators true (relocate_size_sources st) (pointed st t).2 []).1 with hLdef
    have hslices := relocated_slices hL hdemand (pointed st t).2
    obtain ⟨t2, sizes, hloop, hG⟩ := copy_back_loop_spec (V := fun s => s.value t'.mem t'.syscall_result_signed)
      (relocated_well_sourced hL hdemand hwell hsrc h0 _) .WriteBack
      (read_mem t'.mem t'.scratch_ptr (wrapping_sub st.scratch t'.scratch_ptr)) t'.scratch_ptr
      (fun p hp hm => by rw [length_read_mem, hptr]; exact hslices p hp hm)
      (relocated_apart hL hdemand hwell hsrc _ (hout hused)) L 0 [] t' rfl (GreedySizes.nil _)
      fun _ _ _ _ => rfl
    have hG' := hG.of_moved (relocated_moved hL hdemand hwell hsrc h0 _)
      (relocate_source_injective hL hdemand hwell hsrc)
    refine ⟨_, _, sizes, t'.mem, TaskSyscallState.process_of_scratch rfl rfl hloop, fun _ => rfl,
      fun h => absurd hused h, by simpa only [if_pos hused] using hG', fun _ e he hns => ?_⟩
    have hslot := hL.slot e.1 (List.of_mem_zip he).1 hns
    have hend := hL.demand
    rw [wrapping_sub_of_le hslot.1 (by omega), wrapping_sub_of_le hL.base_le (by omega)]
    have := hG'.le e he
    omega
  -- without scratch: the buffers restored, then the sizes in order
  · obtain ⟨sw1, hdone⟩ := done_preparing_of_not_used hI hL.base_le hused
    refine ⟨_, _, _, hdone, fun t' _ => ?_⟩
    have hkept := run_mutators_kept false st.param_list t.mem []
    obtain ⟨mem, hres⟩ := restore_run_mutators_consumes st.param_list t.mem t'.mem []
    rw [List.append_nil] at hres
    have hwell' : ∀ q ∈ (run_mutators false st.param_list t.mem []).1, q.num_bytes.WellSourced := by
      intro q hq
      obtain ⟨p, hp, -, -, hnb, -⟩ := forall₂_exists_mem_right hkept q hq
      exact hnb ▸ hwell p hp
    obtain ⟨sizes, hsizes, hG⟩ := eval_param_sizes_spec (V := fun s => s.value mem t'.syscall_result_signed)
      hwell' { t' with mem } (fun _ _ _ _ => rfl) _ 0 [] rfl (GreedySizes.nil _)
    have hG' := hG.of_moved (σ := id)
      (hkept.imp fun q p hqp => ⟨by rw [hqp.2.2.1], by simp [hqp.2.2.1]⟩)
      fun _ _ _ _ _ _ _ _ h => h
    refine ⟨_, _, sizes, mem, TaskSyscallState.process_of_no_scratch rfl hI.not_enabled hres hsizes,
      fun h => absurd h hused, fun _ => hres, by simpa only [if_neg hused, id] using hG', fun h => absurd h hused⟩


/-- A task without scratch whose argument registers 1 and 2 hold two 16-byte
buffers, after a syscall that returned 20. -/
def split_task : SyscallTask where
  mem := fun _ => 0
  args := fun i => if i = 1 then 0x1000 else if i = 2 then 0x2000 else 0
  syscall_result_signed := 20
  scratch_ptr := 0
  usable_scratch_size := 0
  arch := .X64

/-- A 16-byte buffer bounded by the syscall result, read as a `u64`. -/
def result_bounded : ParamSize := ⟨16, 0, 8, true⟩

def split_first : TaskSyscallState :=
  ((({ TaskSyscallState.new with syscall_entry_registers := split_task.args }.init split_task).reg_parameter_with_size
    1 result_bounded (some .Out) none).map Prod.fst).getD TaskSyscallState.new

/-- Both buffers registered as outputs bounded by the syscall result. -/
def split_state : TaskSyscallState :=
  ((split_first.reg_parameter_with_size 2 result_bounded (some .Out) none).map Prod.fst).getD split_first

theorem split_state_registered : Registered split_task split_state :=
  .reg_parameter 2 result_bounded (some .Out) none (.reg_parameter 1 result_bounded (some .Out) none .init rfl) rfl

theorem syscall_result_split :
    Registered split_task split_state ∧
      split_task.scratch_ptr + scratch_demand split_state.param_list < 2 ^ 64 ∧
      (∀ p ∈ split_state.param_list, p.num_bytes.WellSourced) ∧
      ((split_state.done_preparing split_task .AllowSwitch).bind fun r =>
        (r.1.process_syscall_results split_task).map fun r' => r'.2.2) = some [16, 4] ∧
      ∃ st1 t1 sw1, split_state.done_preparing split_task .AllowSwitch = some (st1, t1, sw1) ∧
        ∃ st2 t2 sizes mem, st1.process_syscall_results split_task = some (st2, t2, sizes) ∧
          GreedySizes split_state.param_list (fun s => s.value mem split_task.syscall_result_signed) sizes := by
  have hwell : ∀ p ∈ split_state.param_list, p.num_bytes.WellSourced := by decide
  have hnot : ¬ ScratchUsed split_task split_state .AllowSwitch := fun h => h.1 rfl
  obtain ⟨-, st1, t1, sw1, hdone, hprocess⟩ := process_syscall_results_greedy_sizes split_state_registered
    (by decide) .AllowSwitch hwell (fun h => absurd h hnot) (fun h => absurd h hnot)
  obtain ⟨st2, t2, sizes, mem, hres, -, -, hG, -⟩ := hprocess split_task rfl
  refine ⟨split_state_registered, by decide, hwell, by decide, st1, t1, sw1, hdone, st2, t2, sizes, mem, hres, ?_⟩
  simpa only [if_neg hnot] using hG

/-- A task with a scratch area whose argument registers 1 and 2 hold two
16-byte buffers, after a syscall that wrote no size. -/
def word_task : SyscallTask where
  mem := fun _ => 0
  args := fun i => if i = 1 then 0x2000 else if i = 2 then 0x3000 else 0
  syscall_result_signed := 0
  scratch_ptr := 0x10000
  usable_scratch_size := 0x1000
  arch := .X64

/-- A 16-byte buffer bounded by the `u32` at `0x5000`, which lies in no
registered buffer. -/
def word_bounded : ParamSize := ⟨16, 0x5000, 4, false⟩

def word_first : TaskSyscallState :=
  ((({ TaskSyscallState.new with syscall_entry_registers := word_task.args }.init word_task).reg_parameter_with_size
    1 word_bounded (some .Out) none).map Prod.fst).getD TaskSyscallState.new

/-- Both buffers registered as outputs bounded by the word at `0x5000`. -/
def word_state : TaskSyscallState :=
  ((word_first.reg_parameter_with_size 2 word_bounded (some .Out) none).map Prod.fst).getD word_first

/-- With scratch, the size word at `0x5000` relocates to null, so the sizes
are the incoming ones, `16` each, while the word holds `0`, whose greedy split
gives `0` to each buffer. -/
theorem unbuffered_size_word_dropped :
    Registered word_task word_state ∧ (∀ p ∈ word_state.param_list, p.num_bytes.WellSourced) ∧
      ((word_state.done_preparing word_task .AllowSwitch).bind fun r =>
        (r.1.process_syscall_results word_task).map fun r' => r'.2.2) = some [16, 16] ∧
      greedy_split ((SizeSource.mem 0x5000 4).value word_task.mem word_task.syscall_result_signed) [16, 16] =
        [0, 0] :=
  ⟨.reg_parameter 2 word_bounded (some .Out) none (.reg_parameter 1 word_bounded (some .Out) none .init rfl) rfl,
    by decide, by decide, by decide⟩

end RdReplay.Record
