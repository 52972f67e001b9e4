/-
  Scheduler/Invariant.lean --- every live task is in exactly one of the
  priority set and the round-robin queue, in every state the scheduler's calls
  reach.

  Source: `scheduler.rs`, the comment on `task_priority_set`: every task is in
  the set when its `in_round_robin_queue` is false and in the queue when it is
  true; the set holds `(priority, stable_serial)` of its tasks.

  THE INVARIANT (`Inv`) says that, with the maps kept in order and the queue
  without repeats, a live task is queued iff its flag is set, is in the set
  under its current `PriorityTup` iff its flag is clear, and that every entry of
  either is a live task's.  Stable serials are distinct, so a `PriorityTup`
  names at most one task (`Inv.eq_of_mem_set`): a queued task has no entry in
  the set, and each insertion the calls make finds its key free.

  Each call keeps `Inv` (`Inv.step`); for `schedule_one_round_robin` the loop
  over the set is described once (`move_to_queue_spec`): it flags and queues
  every task of the set, and the call ends with every live task queued.
-/
import RdReplay.Scheduler.Basic

set_option autoImplicit false

namespace RdReplay

namespace Scheduler

/-! ## Tasks -/

section Tasks

variable {s : Scheduler} {id j : Nat} {t : RecordTask}

theorem task_set_task (hs : CmpList.Sorted s.tasks) (id : Nat) (t : RecordTask) (j : Nat) :
    (s.set_task id t).task j = if j = id then some t else s.task j := by
  split
  · subst j
    exact CmpList.get_insert_self hs
  · exact CmpList.get_insert_of_ne hs ‹_›

/-- The calls build their states from `s.set_task id t`, keeping its tasks. -/
@[simp] theorem task_mk (s : Scheduler) (set : List (PriorityTup × Nat)) (q : List Nat) (j : Nat) :
    (Scheduler.mk s.tasks set q s.enable_chaos).task j = s.task j := rfl

theorem task_remove (hs : CmpList.Sorted s.tasks) (id j : Nat) :
    CmpList.get compare j (CmpList.remove compare id s.tasks) = if j = id then none else s.task j := by
  split
  · subst j
    exact CmpList.get_remove_self hs
  · exact CmpList.get_remove_of_ne hs ‹_›

/-- A task that is not queued leaves the queue as it is when a call drops it. -/
theorem mem_queue_iff_of_not_mem {q : List Nat} (hid : id ∉ q) (j : Nat) :
    j ∈ q ↔ j ∈ q ∧ j ≠ id :=
  (and_iff_left_of_imp fun hj (h : j = id) => hid (h ▸ hj)).symm

theorem sorted_set_insert {set : List (PriorityTup × Nat)} (h : CmpList.Sorted set)
    (k : PriorityTup) (id : Nat) : CmpList.Sorted (set_insert set k id) := by
  unfold set_insert
  split
  · exact h.insert
  · exact h

end Tasks

/-! ## The loop of `schedule_one_round_robin` -/

/-- The loop over a list of tasks, all live, none queued and each named once,
never meets a dead task: it queues every one of them but `id`, in the list's
order, and sets their flags. -/
theorem move_to_queue_spec (id : Nat) :
    ∀ {s : Scheduler} {l : List (PriorityTup × Nat)}, CmpList.Sorted s.tasks →
    (∀ e ∈ l, ∃ te, s.task e.2 = some te ∧ te.in_round_robin_queue = false) →
    (l.map Prod.snd).Nodup →
    ∃ s', move_to_queue id s l = some s' ∧ CmpList.Sorted s'.tasks ∧
      s'.task_priority_set = s.task_priority_set ∧
      s'.task_round_robin_queue = s.task_round_robin_queue ++ (l.map Prod.snd).filter (· ≠ id) ∧
      ∀ j, s'.task j = if j ∈ l.map Prod.snd ∧ j ≠ id then
        (s.task j).map fun tj => { tj with in_round_robin_queue := true } else s.task j := by
  intro s l hs hl hnd
  induction l generalizing s with
  | nil => exact ⟨s, rfl, hs, rfl, by simp, fun j => by simp⟩
  | cons e rest ih =>
    obtain ⟨k, w⟩ := e
    obtain ⟨tw, htw, hfw⟩ := hl (k, w) List.mem_cons_self
    have hl' := fun e he => hl e (List.mem_cons_of_mem _ he)
    obtain ⟨hw_rest, hnd'⟩ := List.nodup_cons.1 hnd
    by_cases hwid : w = id
    case pos =>
      -- the task itself is passed over
      subst w
      obtain ⟨s', hrun, hsorted, hset, hqueue, htask⟩ := ih hs hl' hnd'
      refine ⟨s', ?_, hsorted, hset, by simp [hqueue], fun j => ?_⟩
      · simp only [move_to_queue, htw, ne_eq, not_true_eq_false, false_and, ↓reduceIte, hrun]
      · rw [htask]
        simp only [List.map_cons, List.mem_cons]
        by_cases hj : j = id
        · simp only [hj, ne_eq, not_true_eq_false, and_false, ↓reduceIte]
        · simp only [hj, ne_eq, not_false_eq_true, and_true, false_or]
    case neg =>
      -- `w` joins the back of the queue, flagged
      set tw' : RecordTask := { tw with in_round_robin_queue := true }
      set s₁ : Scheduler := { s.set_task w tw' with
        task_round_robin_queue := s.task_round_robin_queue ++ [w] }
      have htask₁ : ∀ j, s₁.task j = if j = w then some tw' else s.task j :=
        task_set_task hs w tw'
      have hl₁ : ∀ e ∈ rest, ∃ te, s₁.task e.2 = some te ∧ te.in_round_robin_queue = false := by
        intro e he
        have hne : e.2 ≠ w := by
          intro h
          have he' := List.mem_map_of_mem (f := Prod.snd) he
          rw [h] at he'
          exact hw_rest he'
        rw [htask₁, if_neg hne]
        exact hl' e he
      obtain ⟨s', hrun, hsorted, hset, hqueue, htask⟩ := ih (s := s₁) hs.insert hl₁ hnd'
      refine ⟨s', ?_, hsorted, hset, by simp [s₁, hqueue, hwid], fun j => ?_⟩
      · simp only [move_to_queue, htw, ne_eq, hwid, not_false_eq_true, hfw, and_self, ↓reduceIte]
        exact hrun
      · rw [htask, htask₁]
        simp only [List.map_cons, List.mem_cons]
        by_cases hjw : j = w
        · subst j
          simp only [↓reduceIte, hw_rest, hwid, htw, false_and, true_or, ne_eq, not_false_eq_true,
            and_self, Option.map_some, tw']
        · simp only [hjw, ↓reduceIte, false_or]

/-! ## The invariant -/

/-- Where the scheduler keeps each live task. -/
structure Inv (s : Scheduler) : Prop where
  tasks_sorted : CmpList.Sorted s.tasks
  set_sorted : CmpList.Sorted s.task_priority_set
  queue_nodup : s.task_round_robin_queue.Nodup
  queued_iff : ∀ id t, s.task id = some t →
    (id ∈ s.task_round_robin_queue ↔ t.in_round_robin_queue = true)
  in_set : ∀ id t, s.task id = some t → t.in_round_robin_queue = false →
    (t.tup, id) ∈ s.task_priority_set
  set_live : ∀ e ∈ s.task_priority_set, ∃ t, s.task e.2 = some t ∧ e.1 = t.tup ∧
    t.in_round_robin_queue = false
  queue_live : ∀ id ∈ s.task_round_robin_queue, (s.task id).isSome
  serial_inj : ∀ i j ti tj, s.task i = some ti → s.task j = some tj →
    ti.stable_serial = tj.stable_serial → i = j

theorem inv_new (enable_chaos : Bool) : (new enable_chaos).Inv where
  tasks_sorted := CmpList.Sorted.nil
  set_sorted := CmpList.Sorted.nil
  queue_nodup := List.nodup_nil
  queued_iff := fun _ _ h => by cases h
  in_set := fun _ _ h => by cases h
  set_live := fun _ h => by cases h
  queue_live := fun _ h => by cases h
  serial_inj := fun _ _ _ _ h => by cases h

namespace Inv

variable {s : Scheduler} {id i : Nat} {t : RecordTask} {k : PriorityTup}

/-- An entry of the set under the stable serial of a live task is that task's
own entry, and the task is not queued. -/
theorem mem_set_of_serial (hI : s.Inv) {x : PriorityTup × Nat} (hx : x ∈ s.task_priority_set)
    (ht : s.task id = some t) (hk : x.1.stable_serial = t.stable_serial) :
    x.2 = id ∧ x.1 = t.tup ∧ t.in_round_robin_queue = false := by
  obtain ⟨ti, hti, hkt, hflag⟩ := hI.set_live x hx
  have hi : x.2 = id := hI.serial_inj x.2 id ti t hti ht (by rw [← hk, hkt]; rfl)
  rw [hi, ht] at hti
  cases hti
  exact ⟨hi, hkt, hflag⟩

/-- The set has no entry under a key whose stable serial no live task has. -/
theorem get_set_of_fresh (hI : s.Inv)
    (hfresh : ∀ j tj, s.task j = some tj → tj.stable_serial ≠ k.stable_serial) :
    CmpList.get compare k s.task_priority_set = none := by
  rw [CmpList.get_eq_none_iff hI.set_sorted]
  intro j hj
  obtain ⟨tj, htj, hkt, -⟩ := hI.set_live _ hj
  have hkt : k = tj.tup := hkt
  exact hfresh j tj htj (by rw [hkt]; rfl)

/-- A queued task has no entry in the set, under its key or any other. -/
theorem not_mem_set_of_queued (hI : s.Inv) (ht : s.task id = some t)
    (hq : t.in_round_robin_queue = true) (k : PriorityTup) : (k, id) ∉ s.task_priority_set := by
  intro he
  obtain ⟨ti, hti, -, hflag⟩ := hI.set_live _ he
  rw [ht] at hti
  cases hti
  rw [hq] at hflag
  cases hflag

/-- The set's entries name distinct tasks. -/
theorem nodup_set_tasks (hI : s.Inv) : (s.task_priority_set.map Prod.snd).Nodup := by
  refine List.pairwise_map.2 (hI.set_sorted.imp_of_mem ?_)
  intro a b ha hb hlt hab
  obtain ⟨ta, hta, hka, -⟩ := hI.set_live a ha
  obtain ⟨tb, htb, hkb, -⟩ := hI.set_live b hb
  rw [hab, htb] at hta
  cases hta
  rw [hka, hkb] at hlt
  exact lt_irrefl _ hlt

/-- Removing a live task's key from the set removes that task's entry and no
other. -/
theorem mem_remove_tup (hI : s.Inv) (ht : s.task id = some t) (x : PriorityTup × Nat) :
    x ∈ CmpList.remove compare t.tup s.task_priority_set ↔ x ∈ s.task_priority_set ∧ x.2 ≠ id := by
  rw [CmpList.mem_remove_iff hI.set_sorted]
  refine and_congr_right fun hx => ⟨fun hk hi => ?_, fun hne hk => ?_⟩
  · obtain ⟨te, hte, hkt, -⟩ := hI.set_live x hx
    rw [hi, ht] at hte
    cases hte
    exact hk hkt
  · exact hne (hI.mem_set_of_serial hx ht (by rw [hk]; rfl)).1

/-- Stable serials stay distinct in a state whose live tasks were live before,
under the same serials. -/
theorem serial_inj_of_sub {s' : Scheduler} (hI : s.Inv)
    (h : ∀ j tj, s'.task j = some tj → ∃ tj₀, s.task j = some tj₀ ∧ tj₀.stable_serial = tj.stable_serial) :
    ∀ i j ti tj, s'.task i = some ti → s'.task j = some tj → ti.stable_serial = tj.stable_serial →
      i = j := by
  intro i j ti tj hi hj hs
  obtain ⟨ti₀, hi₀, hsi⟩ := h i ti hi
  obtain ⟨tj₀, hj₀, hsj⟩ := h j tj hj
  exact hI.serial_inj i j ti₀ tj₀ hi₀ hj₀ (by rw [hsi, hsj, hs])

/-- The calls that put task `id` into the set under `t` all have this shape:
`id` enters the set under `t.tup`, leaves the queue, and loses any other entry;
no other task changes. -/
theorem put {s' : Scheduler} (hI : s.Inv) (hsorted : CmpList.Sorted s'.tasks)
    (hset_sorted : CmpList.Sorted s'.task_priority_set) (hnodup : s'.task_round_robin_queue.Nodup)
    (htask : ∀ j, s'.task j = if j = id then some t else s.task j)
    (hflag : t.in_round_robin_queue = false)
    (hserial : ∀ j tj, s.task j = some tj → j ≠ id → tj.stable_serial ≠ t.stable_serial)
    (hset : ∀ x, x ∈ s'.task_priority_set ↔ x = (t.tup, id) ∨ (x ∈ s.task_priority_set ∧ x.2 ≠ id))
    (hqueue : ∀ j, j ∈ s'.task_round_robin_queue ↔ j ∈ s.task_round_robin_queue ∧ j ≠ id) :
    s'.Inv := by
  refine ⟨hsorted, hset_sorted, hnodup, ?queued_iff, ?in_set, ?set_live, ?queue_live, ?serial_inj⟩
  case queued_iff =>
    intro j tj hj
    rw [htask] at hj
    rw [hqueue]
    split at hj
    · cases hj
      simp [‹j = id›, hflag]
    · rw [← hI.queued_iff j tj hj]
      exact and_iff_left ‹_›
  case in_set =>
    intro j tj hj hf
    rw [hset]
    rw [htask] at hj
    split at hj
    · cases hj
      exact .inl (by rw [‹j = id›])
    · exact .inr ⟨hI.in_set j tj hj hf, ‹_›⟩
  case set_live =>
    intro e he
    rcases (hset e).1 he with rfl | ⟨he, hne⟩
    · exact ⟨t, by rw [htask, if_pos rfl], rfl, hflag⟩
    · obtain ⟨te, hte, hk, hf⟩ := hI.set_live e he
      exact ⟨te, by rw [htask, if_neg hne, hte], hk, hf⟩
  case queue_live =>
    intro j hj
    obtain ⟨hj, hne⟩ := (hqueue j).1 hj
    rw [htask, if_neg hne]
    exact hI.queue_live j hj
  case serial_inj =>
    intro i j ti tj hi hj hs
    rw [htask] at hi hj
    split at hi <;> split at hj
    · subst i j
      rfl
    · cases hi
      exact absurd hs.symm (hserial j tj hj ‹_›)
    · cases hj
      exact absurd hs (hserial i ti hi ‹_›)
    · exact hI.serial_inj i j ti tj hi hj hs

/-- The calls that take task `id` out have this shape: `id` is no longer live,
and leaves the queue and the set; no other task changes. -/
theorem take {s' : Scheduler} (hI : s.Inv) (hsorted : CmpList.Sorted s'.tasks)
    (hset_sorted : CmpList.Sorted s'.task_priority_set) (hnodup : s'.task_round_robin_queue.Nodup)
    (htask : ∀ j, s'.task j = if j = id then none else s.task j)
    (hset : ∀ x, x ∈ s'.task_priority_set ↔ x ∈ s.task_priority_set ∧ x.2 ≠ id)
    (hqueue : ∀ j, j ∈ s'.task_round_robin_queue ↔ j ∈ s.task_round_robin_queue ∧ j ≠ id) :
    s'.Inv := by
  -- every task live after the call was live before, unchanged
  have hsub : ∀ j tj, s'.task j = some tj → j ≠ id ∧ s.task j = some tj := by
    intro j tj hj
    rw [htask] at hj
    split at hj
    · cases hj
    · exact ⟨‹_›, hj⟩
  refine ⟨hsorted, hset_sorted, hnodup, ?queued_iff, ?in_set, ?set_live, ?queue_live,
    hI.serial_inj_of_sub fun j tj hj => ⟨tj, (hsub j tj hj).2, rfl⟩⟩
  case queued_iff =>
    intro j tj hj
    obtain ⟨hne, hj⟩ := hsub j tj hj
    rw [hqueue, ← hI.queued_iff j tj hj]
    exact and_iff_left hne
  case in_set =>
    intro j tj hj hf
    obtain ⟨hne, hj⟩ := hsub j tj hj
    exact (hset _).2 ⟨hI.in_set j tj hj hf, hne⟩
  case set_live =>
    intro e he
    obtain ⟨he, hne⟩ := (hset e).1 he
    obtain ⟨te, hte, hk, hf⟩ := hI.set_live e he
    exact ⟨te, by rw [htask, if_neg hne, hte], hk, hf⟩
  case queue_live =>
    intro j hj
    obtain ⟨hj, hne⟩ := (hqueue j).1 hj
    rw [htask, if_neg hne]
    exact hI.queue_live j hj

/-- Inserting under a free key, when every entry of the key's task is gone. -/
theorem mem_insert_of_get_none {set : List (PriorityTup × Nat)} (hsorted : CmpList.Sorted set)
    (hget : CmpList.get compare k set = none)
    (hkey : ∀ x ∈ set, x.1 ≠ k ↔ x.2 ≠ id) (x : PriorityTup × Nat) :
    x ∈ set_insert set k id ↔ x = (k, id) ∨ (x ∈ set ∧ x.2 ≠ id) := by
  rw [set_insert, hget, CmpList.mem_insert_iff hsorted]
  exact or_congr_right (and_congr_right (hkey x))

/-! ### One lemma per call -/

/-- `on_create_task`: the new task's key is free, since no live task has its
stable serial, so it enters the set. -/
theorem on_create_task {id : Nat} {priority : Int} {stable_serial : Nat} {stable_exit : Bool}
    {random_priority : Int} (hI : s.Inv)
    (hc : s.Called (.on_create_task id priority stable_serial stable_exit random_priority)) :
    (s.on_create_task id priority stable_serial stable_exit random_priority).Inv := by
  obtain ⟨hid, hfresh⟩ := hc
  have hfresh : ∀ j tj, s.task j = some tj → tj.stable_serial ≠ stable_serial :=
    fun j tj h => hfresh (j, tj) ((CmpList.get_eq_some_iff hI.tasks_sorted).1 h)
  have hget : CmpList.get compare (RecordTask.tup ⟨if s.enable_chaos then random_priority else priority,
      stable_serial, false, stable_exit⟩) s.task_priority_set = none :=
    hI.get_set_of_fresh hfresh
  -- `id` is not live, so neither queued nor in the set
  have hid_queue : id ∉ s.task_round_robin_queue := fun h => by
    simpa [hid] using hI.queue_live id h
  have hid_set : ∀ x ∈ s.task_priority_set, x.2 ≠ id := fun x hx h => by
    obtain ⟨te, hte, -⟩ := hI.set_live x hx
    rw [h, hid] at hte
    cases hte
  refine hI.put hI.tasks_sorted.insert (sorted_set_insert hI.set_sorted _ id) hI.queue_nodup
    (task_set_task hI.tasks_sorted id _) rfl (fun j tj hj _ => hfresh j tj hj)
    (mem_insert_of_get_none hI.set_sorted hget ?_) (mem_queue_iff_of_not_mem hid_queue)
  intro x hx
  obtain ⟨te, hte, hk, -⟩ := hI.set_live x hx
  refine iff_of_true (fun h => hfresh x.2 te hte ?_) (hid_set x hx)
  exact congrArg PriorityTup.stable_serial (hk.symm.trans h)

/-- `on_destroy_task`: the task leaves the queue or its entry of the set, and
nothing else moves. -/
theorem on_destroy_task {s' : Scheduler} (hI : s.Inv) (h : s.on_destroy_task id = some s') :
    s'.Inv := by
  unfold Scheduler.on_destroy_task at h
  cases ht : s.task id with
  | none => rw [ht] at h; cases h
  | some t =>
    rw [ht] at h
    dsimp only at h
    cases hflag : t.in_round_robin_queue with
    | true =>
      -- the task leaves the queue; the set has no entry of it
      simp only [hflag, ↓reduceIte] at h
      cases h
      refine hI.take hI.tasks_sorted.remove hI.set_sorted (hI.queue_nodup.erase id)
        (task_remove hI.tasks_sorted id) (fun x => ?_)
        (fun j => hI.queue_nodup.mem_erase_iff.trans and_comm)
      exact (and_iff_left_of_imp fun hx (hi : x.2 = id) =>
        hI.not_mem_set_of_queued ht hflag x.1 (hi ▸ hx)).symm
    | false =>
      -- the task leaves the set, under the key it was put in with
      simp only [hflag, Bool.false_eq_true, ↓reduceIte] at h
      cases h
      have hid_queue : id ∉ s.task_round_robin_queue := by simp [hI.queued_iff id t ht, hflag]
      exact hI.take hI.tasks_sorted.remove hI.set_sorted.remove hI.queue_nodup
        (task_remove hI.tasks_sorted id) (hI.mem_remove_tup ht) (mem_queue_iff_of_not_mem hid_queue)

/-- `maybe_pop_round_robin_task`: the task at the front of the queue goes back
into the set; its key is free there, since a queued task has no entry. -/
theorem maybe_pop_round_robin_task {s' : Scheduler} (hI : s.Inv)
    (h : s.maybe_pop_round_robin_task id = some s') : s'.Inv := by
  unfold Scheduler.maybe_pop_round_robin_task at h
  cases ht : s.task id with
  | none => rw [ht] at h; cases h
  | some t =>
    rw [ht] at h
    dsimp only at h
    cases hq : s.task_round_robin_queue with
    | nil => rw [hq] at h; cases h; exact hI
    | cons front rest =>
      rw [hq] at h
      dsimp only at h
      by_cases hfront : front = id
      case neg => rw [if_neg hfront] at h; cases h; exact hI
      subst front
      rw [if_pos rfl] at h
      cases h
      have hflag : t.in_round_robin_queue = true :=
        (hI.queued_iff id t ht).1 (by rw [hq]; exact List.mem_cons_self)
      have hnd : (id :: rest).Nodup := hq ▸ hI.queue_nodup
      -- the set has neither an entry of `id` nor one under its serial
      have hkey : ∀ x ∈ s.task_priority_set, x.1 ≠ t.tup ∧ x.2 ≠ id := by
        intro x hx
        refine ⟨fun hk => ?_, fun hi => hI.not_mem_set_of_queued ht hflag x.1 (hi ▸ hx)⟩
        obtain ⟨-, -, hf⟩ := hI.mem_set_of_serial hx ht (by rw [hk]; rfl)
        rw [hflag] at hf
        cases hf
      have hget : CmpList.get compare t.tup s.task_priority_set = none := by
        rw [CmpList.get_eq_none_iff hI.set_sorted]
        exact fun i hi => (hkey _ hi).1 rfl
      refine hI.put hI.tasks_sorted.insert (sorted_set_insert hI.set_sorted _ id) hnd.of_cons
        (task_set_task hI.tasks_sorted id _) rfl
        (fun j tj hj hne hs => hne (hI.serial_inj j id tj t hj ht hs))
        (mem_insert_of_get_none hI.set_sorted hget fun x hx => iff_of_true (hkey x hx).1 (hkey x hx).2)
        (fun j => ?_)
      rw [hq, List.mem_cons]
      constructor
      · intro hj
        exact ⟨.inr hj, fun h => (List.nodup_cons.1 hnd).1 (h ▸ hj)⟩
      · rintro ⟨h | h, hne⟩
        · exact absurd h hne
        · exact h

/-- `update_task_priority_internal`: a queued task only changes its field; a
task in the set moves from its old key to its new one, which only it could
have had. -/
theorem update_task_priority_internal {s' : Scheduler} {value : Int} (hI : s.Inv)
    (h : s.update_task_priority_internal id value = some s') : s'.Inv := by
  unfold Scheduler.update_task_priority_internal at h
  cases ht : s.task id with
  | none => rw [ht] at h; cases h
  | some t =>
    rw [ht] at h
    dsimp only at h
    generalize (if t.stable_exit = true ∧ s.enable_chaos = false then -9999 else value) = value at h
    by_cases hp : t.priority = value
    · rw [if_pos hp] at h
      cases h
      exact hI
    rw [if_neg hp] at h
    have hserial : ∀ j tj, s.task j = some tj → j ≠ id → tj.stable_serial ≠ t.stable_serial :=
      fun j tj hj hne hs => hne (hI.serial_inj j id tj t hj ht hs)
    have htask := task_set_task (t := { t with priority := value }) hI.tasks_sorted id
    cases hflag : t.in_round_robin_queue with
    | true =>
      -- the set has no entry of the task, and its key is not read
      rw [if_pos hflag] at h
      cases h
      refine ⟨hI.tasks_sorted.insert, hI.set_sorted, hI.queue_nodup, ?queued_iff, ?in_set,
        ?set_live, ?queue_live, hI.serial_inj_of_sub fun j tj hj => ?serial⟩
      case queued_iff =>
        intro j tj hj
        rw [htask] at hj
        split at hj
        · cases hj
          subst j
          exact hI.queued_iff id t ht
        · exact hI.queued_iff j tj hj
      case in_set =>
        intro j tj hj hf
        rw [htask] at hj
        split at hj
        · cases hj
          rw [hflag] at hf
          cases hf
        · exact hI.in_set j tj hj hf
      case set_live =>
        intro e he
        obtain ⟨te, hte, hk, hf⟩ := hI.set_live e he
        have hne : e.2 ≠ id := fun hi => hI.not_mem_set_of_queued ht hflag e.1 (hi ▸ he)
        exact ⟨te, by rw [htask, if_neg hne, hte], hk, hf⟩
      case queue_live =>
        intro j hj
        rw [htask]
        split
        · rfl
        · exact hI.queue_live j hj
      case serial =>
        rw [htask] at hj
        split at hj
        · cases hj
          exact ⟨t, by rw [‹j = id›, ht], rfl⟩
        · exact ⟨tj, hj, rfl⟩
    | false =>
      rw [if_neg (by rw [hflag]; decide)] at h
      cases h
      have hid_queue : id ∉ s.task_round_robin_queue := by simp [hI.queued_iff id t ht, hflag]
      have hrem := hI.mem_remove_tup ht
      -- once the task's entry is out, no entry has its stable serial: its new key is free
      have hfree : ∀ x ∈ CmpList.remove compare t.tup s.task_priority_set,
          x.1.stable_serial ≠ t.stable_serial := by
        intro x hx hs
        obtain ⟨hx, hne⟩ := (hrem x).1 hx
        exact hne (hI.mem_set_of_serial hx ht hs).1
      have hget : CmpList.get compare (RecordTask.tup { t with priority := value })
          (CmpList.remove compare t.tup s.task_priority_set) = none := by
        rw [CmpList.get_eq_none_iff hI.set_sorted.remove]
        exact fun i hi => hfree _ hi rfl
      refine hI.put hI.tasks_sorted.insert (sorted_set_insert hI.set_sorted.remove _ id)
        hI.queue_nodup htask hflag hserial (fun x => ?_) (mem_queue_iff_of_not_mem hid_queue)
      refine (mem_insert_of_get_none hI.set_sorted.remove hget (fun y hy => ?_) x).trans ?_
      · exact iff_of_true (fun hk => hfree y hy (by rw [hk]; rfl)) ((hrem y).1 hy).2
      · rw [hrem, and_self_right]

/-- A flagged task is its own flagged copy. -/
theorem flag_self {tj : RecordTask} (h : tj.in_round_robin_queue = true) :
    { tj with in_round_robin_queue := true } = tj := by
  cases tj
  cases h
  rfl

/-- `schedule_one_round_robin`: after the pop the task is not queued, so the
loop moves the whole set behind the queue, and the task goes last; every live
task is then queued, and the set is empty. -/
theorem schedule_one_round_robin {s' : Scheduler} (hI : s.Inv)
    (h : s.schedule_one_round_robin id = some s') : s'.Inv := by
  unfold Scheduler.schedule_one_round_robin at h
  simp only [Option.bind_eq_some_iff, bind, pure] at h
  obtain ⟨s₁, h₁, t₁, ht₁, h⟩ := h
  have hI₁ := hI.maybe_pop_round_robin_task h₁
  split at h
  · cases h
  have hflag₁ : t₁.in_round_robin_queue = false := Bool.eq_false_iff.2 ‹_›
  simp only [Option.bind_eq_some_iff] at h
  obtain ⟨s₂, h₂, t₂, ht₂, h⟩ := h
  have hs' := (Option.some.inj h).symm
  -- the loop moves every task of the set, all live and unqueued
  obtain ⟨s₂', hrun, hsorted₂, -, hqueue₂, htask₂⟩ := move_to_queue_spec id hI₁.tasks_sorted
    (fun e he => (hI₁.set_live e he).imp fun _ h => ⟨h.1, h.2.2⟩) hI₁.nodup_set_tasks
  rw [hrun] at h₂
  cases h₂
  set vals := s₁.task_priority_set.map Prod.snd
  have hvals : ∀ j, j ∈ vals → ∃ tj, s₁.task j = some tj ∧ tj.in_round_robin_queue = false := by
    intro j hj
    obtain ⟨e, he, rfl⟩ := List.mem_map.1 hj
    obtain ⟨te, hte, -, hf⟩ := hI₁.set_live e he
    exact ⟨te, hte, hf⟩
  have ht₂₁ : t₁ = t₂ := by
    rw [htask₂, if_neg fun h => h.2 rfl, ht₁] at ht₂
    cases ht₂
    rfl
  subst ht₂₁
  -- every live task is the flagged copy of what it was after the pop
  have htask : ∀ j, s'.task j = (s₁.task j).map fun tj => { tj with in_round_robin_queue := true } := by
    intro j
    have h₃ : s'.task j = if j = id then some { t₁ with in_round_robin_queue := true } else s₂.task j := by
      rw [hs']
      exact task_set_task hsorted₂ id _ j
    rw [h₃, htask₂ j]
    by_cases hj : j = id
    · rw [if_pos hj, hj, ht₁]
      rfl
    rw [if_neg hj]
    by_cases hv : j ∈ vals
    · rw [if_pos ⟨hv, hj⟩]
    rw [if_neg fun h => hv h.1]
    cases htj : s₁.task j with
    | none => rfl
    | some tj =>
      have hf : tj.in_round_robin_queue = true := by
        cases hf : tj.in_round_robin_queue
        · exact absurd (List.mem_map_of_mem (hI₁.in_set j tj htj hf)) hv
        · rfl
      rw [Option.map_some, flag_self hf]
  have hlive : ∀ j tj, s'.task j = some tj →
      ∃ tj₀, s₁.task j = some tj₀ ∧ { tj₀ with in_round_robin_queue := true } = tj := fun j tj hj =>
    Option.map_eq_some_iff.1 (htask j ▸ hj)
  have hqueue : ∀ j, j ∈ s'.task_round_robin_queue ↔
      j ∈ s₁.task_round_robin_queue ∨ (j ∈ vals ∧ j ≠ id) ∨ j = id := by
    intro j
    rw [hs']
    simp [hqueue₂, vals]
  have hid_queue : id ∉ s₁.task_round_robin_queue := by simp [hI₁.queued_iff id t₁ ht₁, hflag₁]
  refine ⟨?tasks_sorted, ?set_sorted, ?queue_nodup, ?queued_iff, ?in_set, ?set_live, ?queue_live,
    hI₁.serial_inj_of_sub fun j tj hj => (hlive j tj hj).imp fun _ h => ⟨h.1, by rw [← h.2]⟩⟩
  case tasks_sorted =>
    rw [hs']
    exact hsorted₂.insert
  case set_sorted =>
    rw [hs']
    exact CmpList.Sorted.nil
  case queue_nodup =>
    rw [hs', hqueue₂]
    refine List.nodup_append.2 ⟨List.nodup_append.2 ⟨hI₁.queue_nodup, hI₁.nodup_set_tasks.filter _,
      ?_⟩, List.nodup_singleton id, ?_⟩
    · -- the set's tasks were not queued
      intro j hq j' hf hj
      subst hj
      obtain ⟨tj, htj, hf'⟩ := hvals j (List.mem_filter.1 hf).1
      rw [hI₁.queued_iff j tj htj, hf'] at hq
      cases hq
    · -- nor was the task itself, and the loop passed it over
      intro j hj j' hid hj'
      rw [List.mem_singleton] at hid
      subst hid hj'
      simp [hid_queue] at hj
  case queued_iff =>
    intro j tj hj
    obtain ⟨tj₀, htj₀, rfl⟩ := hlive j tj hj
    simp only [hqueue, iff_true]
    cases hf : tj₀.in_round_robin_queue
    · by_cases hid : j = id
      · exact .inr (.inr hid)
      · exact .inr (.inl ⟨List.mem_map_of_mem (hI₁.in_set j tj₀ htj₀ hf), hid⟩)
    · exact .inl ((hI₁.queued_iff j tj₀ htj₀).2 hf)
  case in_set =>
    intro j tj hj hf
    obtain ⟨tj₀, -, rfl⟩ := hlive j tj hj
    cases hf
  case set_live =>
    intro e he
    rw [hs'] at he
    cases he
  case queue_live =>
    intro j hj
    rw [htask, Option.isSome_map]
    rcases (hqueue j).1 hj with hj | ⟨hj, -⟩ | rfl
    · exact hI₁.queue_live j hj
    · obtain ⟨tj, htj, -⟩ := hvals j hj
      rw [htj]
      rfl
    · rw [ht₁]
      rfl

/-- Each call rd makes keeps the invariant. -/
theorem step {c : SchedulerCall} {s' : Scheduler} (hI : s.Inv) (hc : s.Called c)
    (h : s.step c = some s') : s'.Inv := by
  cases c with
  | on_create_task id priority stable_serial stable_exit random_priority =>
    cases h
    exact hI.on_create_task hc
  | on_destroy_task id => exact hI.on_destroy_task h
  | schedule_one_round_robin id => exact hI.schedule_one_round_robin h
  | maybe_pop_round_robin_task id => exact hI.maybe_pop_round_robin_task h
  | update_task_priority_internal id value => exact hI.update_task_priority_internal h

end Inv

theorem Reachable.inv {enable_chaos : Bool} {s : Scheduler} (h : Reachable enable_chaos s) : s.Inv := by
  induction h with
  | new => exact inv_new enable_chaos
  | step _ hc hs ih => exact ih.step hc hs

/-! ## The loop never meets a dead task -/

/-- `maybe_pop_round_robin_task` of a live task that is unqueued or at the front
of the queue leaves it unqueued. -/
theorem Inv.maybe_pop_unqueued {s : Scheduler} {id : Nat} {t : RecordTask} (hI : s.Inv)
    (ht : s.task id = some t)
    (hfront : t.in_round_robin_queue = true → s.task_round_robin_queue.head? = some id) :
    ∃ s₁ t₁, s.maybe_pop_round_robin_task id = some s₁ ∧ s₁.task id = some t₁ ∧
      t₁.in_round_robin_queue = false := by
  have hq := hI.queued_iff id t ht
  unfold Scheduler.maybe_pop_round_robin_task
  rw [ht]
  dsimp only
  cases hqueue : s.task_round_robin_queue with
  | nil =>
    rw [hqueue] at hq
    exact ⟨s, t, rfl, ht, by simpa using hq.symm⟩
  | cons front rest =>
    dsimp only
    by_cases h : front = id
    · rw [if_pos h]
      exact ⟨_, _, rfl, by rw [task_mk, task_set_task hI.tasks_sorted, if_pos rfl], rfl⟩
    · rw [if_neg h]
      refine ⟨s, t, rfl, ht, Bool.eq_false_iff.2 fun hf => h ?_⟩
      simpa [hqueue] using hfront hf

/-- `schedule_one_round_robin` of a live task that is unqueued or at the front
of the queue returns: the `ed_assert!` holds after the pop, and the loop over
the set meets no dead task, so no `unwrap` panics. -/
theorem Inv.schedule_one_round_robin_isSome {s : Scheduler} {id : Nat} {t : RecordTask}
    (hI : s.Inv) (ht : s.task id = some t)
    (hfront : t.in_round_robin_queue = true → s.task_round_robin_queue.head? = some id) :
    (s.schedule_one_round_robin id).isSome := by
  obtain ⟨s₁, t₁, h₁, ht₁, hf₁⟩ := hI.maybe_pop_unqueued ht hfront
  have hI₁ := hI.maybe_pop_round_robin_task h₁
  obtain ⟨s₂, hrun, -, -, -, htask₂⟩ := move_to_queue_spec id hI₁.tasks_sorted
    (fun e he => (hI₁.set_live e he).imp fun _ h => ⟨h.1, h.2.2⟩) hI₁.nodup_set_tasks
  have ht₂ : s₂.task id = some t₁ := by
    rw [htask₂, if_neg fun h => h.2 rfl, ht₁]
  simp [Scheduler.schedule_one_round_robin, h₁, ht₁, hf₁, hrun, ht₂]

/-- Two tasks created on a new scheduler: the first, not queued, is scheduled. -/
theorem schedule_one_round_robin_of_two_created :
    let s := ((new false).on_create_task 1 0 7 false 0).on_create_task 2 0 8 false 0
    s.Inv ∧ s.task 1 = some ⟨0, 7, false, false⟩ ∧
      ((⟨0, 7, false, false⟩ : RecordTask).in_round_robin_queue = true →
        s.task_round_robin_queue.head? = some 1) ∧
      (s.schedule_one_round_robin 1).isSome := by
  intro s
  have hr : Reachable false s :=
    .step (c := .on_create_task 2 0 8 false 0)
      (.step (c := .on_create_task 1 0 7 false 0) .new (by decide) rfl) (by decide) rfl
  have hI : s.Inv := hr.inv
  have ht : s.task 1 = some ⟨0, 7, false, false⟩ := by decide
  have hfront : (⟨0, 7, false, false⟩ : RecordTask).in_round_robin_queue = true →
      s.task_round_robin_queue.head? = some 1 := by
    intro h
    cases h
  exact ⟨hI, ht, hfront, Inv.schedule_one_round_robin_isSome hI ht hfront⟩

/-! ## Where the tasks are -/

/-- The bookkeeping the comment on `task_priority_set` describes: each live
task is either queued, with its flag set and no entry in the set, or in the
set under its current priority and stable serial and not queued; the queue
names each task once, and a destroyed task is in neither. -/
structure Bookkeeping (s : Scheduler) : Prop where
  queue_nodup : s.task_round_robin_queue.Nodup
  queued_iff_flag : ∀ id t, s.task id = some t →
    (id ∈ s.task_round_robin_queue ↔ t.in_round_robin_queue = true)
  queue_xor_set : ∀ id t, s.task id = some t →
    (id ∈ s.task_round_robin_queue ∧ ∀ k, (k, id) ∉ s.task_priority_set) ∨
      (id ∉ s.task_round_robin_queue ∧ (t.tup, id) ∈ s.task_priority_set)
  set_key : ∀ k id, (k, id) ∈ s.task_priority_set → ∃ t, s.task id = some t ∧ k = t.tup
  destroyed : ∀ id, s.task id = none →
    id ∉ s.task_round_robin_queue ∧ ∀ k, (k, id) ∉ s.task_priority_set

theorem Inv.bookkeeping {s : Scheduler} (hI : s.Inv) : s.Bookkeeping where
  queue_nodup := hI.queue_nodup
  queued_iff_flag := hI.queued_iff
  queue_xor_set := by
    intro id t ht
    cases hf : t.in_round_robin_queue
    · refine .inr ⟨?_, hI.in_set id t ht hf⟩
      rw [hI.queued_iff id t ht, hf]
      decide
    · exact .inl ⟨(hI.queued_iff id t ht).2 hf, hI.not_mem_set_of_queued ht hf⟩
  set_key := by
    intro k id he
    obtain ⟨t, ht, hk, -⟩ := hI.set_live _ he
    exact ⟨t, ht, hk⟩
  destroyed := by
    intro id ht
    refine ⟨fun hq => by simpa [ht] using hI.queue_live id hq, fun k he => ?_⟩
    obtain ⟨t, ht', -⟩ := hI.set_live _ he
    rw [ht] at ht'
    cases ht'

theorem reachable_bookkeeping {enable_chaos : Bool} {s : Scheduler}
    (h : Reachable enable_chaos s) : s.Bookkeeping :=
  h.inv.bookkeeping

/-- Two tasks created and the first scheduled: both are queued, the other
first, and the set is empty. -/
theorem reachable_bookkeeping_two_tasks :
    Bookkeeping ⟨[(1, ⟨0, 7, true, false⟩), (2, ⟨0, 8, true, false⟩)], [], [2, 1], false⟩ :=
  reachable_bookkeeping (.step (.step (.step (.new : Reachable false (new false))
    (c := .on_create_task 1 0 7 false 0) (by decide) rfl)
    (c := .on_create_task 2 0 8 false 0) (by decide) rfl)
    (c := .schedule_one_round_robin 1) (by decide) (by decide))

end Scheduler

end RdReplay
