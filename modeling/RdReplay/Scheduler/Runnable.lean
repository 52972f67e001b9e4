/-
  Scheduler/Runnable.lean --- the task the recording scheduler runs next.

  Source: `scheduler.rs`: `Scheduler::find_next_runnable_task`;
  `priority_tup.rs`: `PriorityTup`.

  THE SEARCH walks the priorities of `task_priority_set` upward.  For each it
  takes the range `[(priority, 0), (priority + 1, 0))` of the set, turns it so
  that the tasks after the current task come first when the current task is in
  the set at that priority, and returns the first runnable task; past the
  threshold it returns `None`.  Whether a task is runnable is a parameter
  (`is_task_runnable`, whose `by_waitpid` out-parameter is left out), and so is
  the shuffle of chaos mode.  The current task enters only through its priority
  and stable serial.

  THE ORDER.  `search_order` states, with filters, the order in which the search is
  to try the tasks: lower priorities first, and at the current task's
  priority the tasks after it, then those up to it.  The search follows it while
  `priority + 1` does not wrap (`find_next_runnable_task_of_no_wrap`).  Each turn
  cuts the list of the priorities still to try into the tasks of the lowest one
  and the rest (`split_priority`), and `search_order` cuts the same way
  (`search_order_split`).  At `i32::MAX` the `+ 1` panics in a debug build and
  wraps to `i32::MIN` in a release one, where `BTreeSet::range` panics on a
  start above its end (`find_next_runnable_task_panics_at_i32_max`).
-/
import RdReplay.Scheduler.Invariant

set_option autoImplicit false

namespace RdReplay

/-- `i32` addition, wrapping as in a release build. -/
def i32_wrapping_add (a b : Int) : Int := Int.bmod (a + b) (2 ^ 32)

theorem i32_wrapping_add_one {p : Int} (h1 : -2 ^ 31 ≤ p) (h2 : p < 2 ^ 31 - 1) :
    i32_wrapping_add p 1 = p + 1 := by
  rw [i32_wrapping_add, Int.bmod_def]
  split_ifs <;> omega

namespace PriorityTup

/-- `Ord for PriorityTup`, read back: by priority, then by stable serial. -/
theorem lt_iff {a b : PriorityTup} :
    a < b ↔ a.priority < b.priority ∨ (a.priority = b.priority ∧ a.stable_serial < b.stable_serial) :=
  Prod.Lex.toLex_lt_toLex

theorem le_iff {a b : PriorityTup} :
    a ≤ b ↔ a.priority < b.priority ∨ (a.priority = b.priority ∧ a.stable_serial ≤ b.stable_serial) :=
  Prod.Lex.toLex_le_toLex

theorem priority_le_of_lt {a b : PriorityTup} (h : a < b) : a.priority ≤ b.priority := by
  rcases lt_iff.1 h with h | ⟨h, -⟩ <;> omega

/-- Stable serials start at `0`, so `(p, 0)` is the least key of priority `p`. -/
theorem le_first_iff {p : Int} {k : PriorityTup} : (⟨p, 0⟩ : PriorityTup) ≤ k ↔ p ≤ k.priority := by
  rw [le_iff]
  dsimp only
  omega

theorem lt_first_iff {p : Int} {k : PriorityTup} : k < (⟨p, 0⟩ : PriorityTup) ↔ k.priority < p := by
  rw [lt_iff]
  dsimp only
  omega

end PriorityTup

namespace Scheduler

/-- The tasks of one priority in the order the search tries them: when the
current task is in the set at that priority, those after it and then those up to
it. -/
def same_priority_vec (s : Scheduler) (maybe_t : Option RecordTask) (priority : Int)
    (same_priority_range : List (PriorityTup × Nat)) : List (PriorityTup × Nat) :=
  match maybe_t with
  | some t =>
    if t.priority = priority ∧
        (CmpList.get compare ⟨priority, t.stable_serial⟩ s.task_priority_set).isSome then
      let (lte, gt) := same_priority_range.partition fun p => p.1 ≤ ⟨priority, t.stable_serial⟩
      gt ++ lte
    else same_priority_range
  | none => same_priority_range

/-- The loop of `find_next_runnable_task`, from `range`; `none` where it panics. -/
def find_next_runnable_task_loop (s : Scheduler) (maybe_t : Option RecordTask)
    (is_task_runnable : Nat → Bool) (shuffle : List (PriorityTup × Nat) → List (PriorityTup × Nat))
    (priority_threshold : Int) : Nat → List (PriorityTup × Nat) → Option (Option Nat)
  | 0, _ => none
  | _ + 1, [] => some none
  | fuel + 1, (k, _) :: _ =>
    let priority := k.priority
    if priority > priority_threshold then some none
    else
      let start : PriorityTup := ⟨priority, 0⟩
      let end_ : PriorityTup := ⟨i32_wrapping_add priority 1, 0⟩
      match CmpList.rangeExcl compare start end_ s.task_priority_set with
      -- `range start is greater than range end`
      | none => none
      | some same_priority_range =>
        let same_priority_vec :=
          if s.enable_chaos then shuffle same_priority_range
          else s.same_priority_vec maybe_t priority same_priority_range
        match same_priority_vec.find? fun p => is_task_runnable p.2 with
        | some p => some (some p.2)
        | none =>
          let range_start : PriorityTup := ⟨i32_wrapping_add priority 1, 0⟩
          find_next_runnable_task_loop s maybe_t is_task_runnable shuffle priority_threshold fuel
            (CmpList.lowerBound compare range_start s.task_priority_set)

/-- `find_next_runnable_task`: each turn leaves a priority behind, so a turn per
element of the set and one more suffice. -/
def find_next_runnable_task (s : Scheduler) (maybe_t : Option RecordTask)
    (is_task_runnable : Nat → Bool) (shuffle : List (PriorityTup × Nat) → List (PriorityTup × Nat))
    (priority_threshold : Int) : Option (Option Nat) :=
  s.find_next_runnable_task_loop maybe_t is_task_runnable shuffle priority_threshold
    (s.task_priority_set.length + 1) s.task_priority_set

/-! ## The order the search should follow -/

/-- The current task's key, when it is in the set. -/
def pivot (s : Scheduler) : Option RecordTask → Option PriorityTup
  | some t => if (CmpList.get compare t.tup s.task_priority_set).isSome then some t.tup else none
  | none => none

/-- The tasks of `set` of priority at most `threshold`: by priority, and at the
priority of the current task `pivot` those with a later stable serial, then
those up to it; within every other priority by stable serial. -/
def search_order (set : List (PriorityTup × Nat)) (pivot : Option PriorityTup) (threshold : Int) :
    List (PriorityTup × Nat) :=
  let below := set.filter fun e => e.1.priority ≤ threshold
  match pivot with
  | none => below
  | some k =>
    below.filter (fun e => e.1.priority < k.priority) ++
      below.filter (fun e => e.1.priority = k.priority ∧ k.stable_serial < e.1.stable_serial) ++
      below.filter (fun e => e.1.priority = k.priority ∧ e.1.stable_serial ≤ k.stable_serial) ++
      below.filter (fun e => k.priority < e.1.priority)

section Order

variable {set G B : List (PriorityTup × Nat)} {p threshold : Int}

/-- In a sorted list whose priorities are at least `p`, the tasks of priority
`p` come first. -/
theorem split_priority (hs : CmpList.Sorted set) (hp : ∀ e ∈ set, p ≤ e.1.priority) :
    set = set.filter (fun e => e.1.priority = p) ++ set.filter (fun e => p < e.1.priority) := by
  induction set with
  | nil => rfl
  | cons e l ih =>
    have hl := ih hs.of_cons fun x hx => hp x (List.mem_cons_of_mem _ hx)
    by_cases he : e.1.priority = p
    · rw [List.filter_cons_of_pos (by simpa using he), List.filter_cons_of_neg (by simp [he]),
        List.cons_append, ← hl]
    · -- the head is above `p`, so is everything after it
      have hgt : p < e.1.priority := lt_of_le_of_ne (hp e List.mem_cons_self) (Ne.symm he)
      have hnone : l.filter (fun e => e.1.priority = p) = [] := by
        refine List.filter_eq_nil_iff.2 fun x hx => ?_
        have := PriorityTup.priority_le_of_lt (hs.lt_of_mem hx)
        simp only [decide_eq_true_eq]
        omega
      have hall : l.filter (fun e => p < e.1.priority) = l := by
        refine List.filter_eq_self.2 fun x hx => ?_
        have := PriorityTup.priority_le_of_lt (hs.lt_of_mem hx)
        simp only [decide_eq_true_eq]
        omega
      rw [List.filter_cons_of_neg (by simpa using he), List.filter_cons_of_pos (by simpa using hgt),
        hnone, hall, List.nil_append]

/-- `search_order` takes the tasks of the lowest priority, in their turned
order, and then the rest. -/
theorem search_order_split (s : Scheduler) (maybe_t : Option RecordTask)
    (hG : ∀ e ∈ G, e.1.priority = p) (hB : ∀ e ∈ B, p < e.1.priority) (hp : p ≤ threshold) :
    search_order (G ++ B) (s.pivot maybe_t) threshold =
      s.same_priority_vec maybe_t p G ++ search_order B (s.pivot maybe_t) threshold := by
  have hGbelow : G.filter (fun e => e.1.priority ≤ threshold) = G :=
    List.filter_eq_self.2 fun e he => by simp only [decide_eq_true_eq, hG e he, hp]
  -- with no pivot at priority `p`, the tasks of `G` keep their order
  have hplain : search_order (G ++ B) none threshold = G ++ search_order B none threshold := by
    simp only [search_order, List.filter_append, hGbelow]
  cases maybe_t with
  | none => exact hplain
  | some t =>
    by_cases hin : (CmpList.get compare t.tup s.task_priority_set).isSome
    · have hpv : s.pivot (some t) = some t.tup := by simp [pivot, hin]
      have hB' : ∀ e ∈ B.filter (fun e => e.1.priority ≤ threshold), p < e.1.priority :=
        fun e he => hB e (List.mem_filter.1 he).1
      rw [hpv]
      simp only [search_order, List.filter_append, hGbelow]
      -- the filters read the pivot's fields, `same_priority_vec` the task's own
      have htp : t.tup.priority = t.priority := rfl
      rcases lt_trichotomy t.tup.priority p with hlt | rfl | hgt
      · -- `G` and the rest lie above the current task's priority
        have hvec : s.same_priority_vec (some t) p G = G := by
          rw [same_priority_vec, if_neg (fun h => by rw [← htp] at h; omega)]
        have habove : ∀ l : List (PriorityTup × Nat), (∀ e ∈ l, p ≤ e.1.priority) →
            l.filter (fun e => decide (e.1.priority < t.tup.priority)) = [] ∧
            l.filter (fun e => decide (e.1.priority = t.tup.priority ∧ t.tup.stable_serial < e.1.stable_serial)) = [] ∧
            l.filter (fun e => decide (e.1.priority = t.tup.priority ∧ e.1.stable_serial ≤ t.tup.stable_serial)) = [] ∧
            l.filter (fun e => decide (t.tup.priority < e.1.priority)) = l := by
          intro l hl
          refine ⟨List.filter_eq_nil_iff.2 ?_, List.filter_eq_nil_iff.2 ?_, List.filter_eq_nil_iff.2 ?_,
            List.filter_eq_self.2 ?_⟩ <;> intro e he <;> have := hl e he <;> simp <;> omega
        obtain ⟨h1, h2, h3, h4⟩ := habove G fun e he => (hG e he).ge
        obtain ⟨h1', h2', h3', -⟩ := habove _ fun e he => (hB' e he).le
        rw [h1, h2, h3, h4, h1', h2', h3', hvec]
        simp
      · -- `G` is the current task's priority: it is turned at the current task
        have hvec : s.same_priority_vec (some t) t.tup.priority G =
            G.filter (fun e => decide (e.1.priority = t.tup.priority ∧ t.tup.stable_serial < e.1.stable_serial)) ++
              G.filter (fun e => decide (e.1.priority = t.tup.priority ∧ e.1.stable_serial ≤ t.tup.stable_serial)) := by
          rw [same_priority_vec, if_pos ⟨rfl, hin⟩]
          simp only [List.partition_eq_filter_filter]
          congr 1 <;> refine List.filter_congr fun e he => ?_
          · simp only [Function.comp_apply, PriorityTup.le_iff, hG e he, RecordTask.tup, lt_self_iff_false,
              true_and, false_or, ← decide_not, Nat.not_le]
          · simp [PriorityTup.le_iff, hG e he, RecordTask.tup]
        have hG1 : G.filter (fun e => decide (e.1.priority < t.tup.priority)) = [] :=
          List.filter_eq_nil_iff.2 fun e he => by simp [hG e he]
        have hG4 : G.filter (fun e => decide (t.tup.priority < e.1.priority)) = [] :=
          List.filter_eq_nil_iff.2 fun e he => by simp [hG e he]
        have hB123 : ∀ f : PriorityTup × Nat → Bool, (∀ e, f e = true → e.1.priority ≤ t.tup.priority) →
            (B.filter fun e => e.1.priority ≤ threshold).filter f = [] :=
          fun f hf => List.filter_eq_nil_iff.2 fun e he hfe => by
            have := hf e hfe
            have := hB' e he
            omega
        have hB1 := hB123 (fun e => decide (e.1.priority < t.tup.priority)) fun e h => by simp at h; omega
        have hB2 := hB123 (fun e => decide (e.1.priority = t.tup.priority ∧ t.tup.stable_serial < e.1.stable_serial))
          fun e h => by simp at h; omega
        have hB3 := hB123 (fun e => decide (e.1.priority = t.tup.priority ∧ e.1.stable_serial ≤ t.tup.stable_serial))
          fun e h => by simp at h; omega
        rw [hG1, hG4, hvec, hB1, hB2, hB3]
        simp
      · -- `G` lies below the current task's priority: it comes first, unturned
        have hvec : s.same_priority_vec (some t) p G = G := by
          rw [same_priority_vec, if_neg (fun h => by rw [← htp] at h; omega)]
        have hG1 : G.filter (fun e => decide (e.1.priority < t.tup.priority)) = G :=
          List.filter_eq_self.2 fun e he => by simp [hG e he, hgt]
        have hG234 : ∀ f : PriorityTup × Nat → Bool, (∀ e, f e = true → t.tup.priority ≤ e.1.priority) →
            G.filter f = [] := fun f hf => List.filter_eq_nil_iff.2 fun e he hfe => by
          have := hf e hfe
          have := hG e he
          omega
        have hG2 := hG234 (fun e => decide (e.1.priority = t.tup.priority ∧ t.tup.stable_serial < e.1.stable_serial))
          fun e h => by simp at h; omega
        have hG3 := hG234 (fun e => decide (e.1.priority = t.tup.priority ∧ e.1.stable_serial ≤ t.tup.stable_serial))
          fun e h => by simp at h; omega
        have hG4 := hG234 (fun e => decide (t.tup.priority < e.1.priority)) fun e h => by simp at h; omega
        rw [hG1, hvec, hG2, hG3, hG4]
        simp
    · -- the current task is not in the set: nothing is turned
      have hpv : s.pivot (some t) = none := by simp [pivot, hin]
      have hvec : s.same_priority_vec (some t) p G = G := by
        rw [same_priority_vec, if_neg]
        rintro ⟨rfl, h⟩
        exact hin h
      rw [hpv, hvec, hplain]

/-- Every task of priority at most the threshold is tried, and no other. -/
theorem mem_search_order {x : PriorityTup × Nat} {pv : Option PriorityTup} :
    x ∈ search_order set pv threshold ↔ x ∈ set ∧ x.1.priority ≤ threshold := by
  cases pv with
  | none => simp [search_order]
  | some k =>
    simp only [search_order, List.mem_append, List.mem_filter, decide_eq_true_eq]
    by_cases hx : x ∈ set
    · simp only [hx, true_and]
      omega
    · simp only [hx, false_and, or_self]

/-- Above the threshold nothing is tried. -/
theorem search_order_eq_nil (h : ∀ e ∈ set, threshold < e.1.priority) (pv : Option PriorityTup) :
    search_order set pv threshold = [] :=
  List.eq_nil_iff_forall_not_mem.2 fun x hx => by
    have := (mem_search_order.1 hx)
    have := h x this.1
    omega

end Order

/-! ## The search follows the order -/

section Search

variable {s : Scheduler} {maybe_t : Option RecordTask} {is_task_runnable : Nat → Bool}
  {shuffle : List (PriorityTup × Nat) → List (PriorityTup × Nat)} {priority_threshold : Int}

/-- The range of one priority, while `priority + 1` does not wrap. -/
theorem rangeExcl_priority (hs : CmpList.Sorted s.task_priority_set) {p : Int} (h1 : -2 ^ 31 ≤ p)
    (h2 : p < 2 ^ 31 - 1) :
    CmpList.rangeExcl compare (⟨p, 0⟩ : PriorityTup) ⟨i32_wrapping_add p 1, 0⟩ s.task_priority_set =
      some (s.task_priority_set.filter fun e => e.1.priority = p) := by
  rw [i32_wrapping_add_one h1 h2, CmpList.rangeExcl_eq_filter hs (PriorityTup.le_first_iff.2 (show p ≤ p + 1 by omega))]
  refine congrArg some (List.filter_congr fun e _ => ?_)
  simp only [PriorityTup.le_first_iff, PriorityTup.lt_first_iff, decide_eq_decide]
  omega

/-- The search from `(q, 0)` keeps the tasks of priority at least `q`. -/
theorem lowerBound_priority (hs : CmpList.Sorted s.task_priority_set) (q : Int) :
    CmpList.lowerBound compare (⟨q, 0⟩ : PriorityTup) s.task_priority_set =
      s.task_priority_set.filter fun e => q ≤ e.1.priority := by
  rw [CmpList.lowerBound_eq_filter_le hs]
  exact List.filter_congr fun e _ => by simp only [PriorityTup.le_first_iff]

/-- From the tasks of priority at least `q`, with enough fuel and while no
priority tried is `i32::MAX`, the loop returns the first runnable task of
`search_order`. -/
theorem find_next_runnable_task_loop_spec (hs : CmpList.Sorted s.task_priority_set)
    (hchaos : s.enable_chaos = false)
    (hwrap : ∀ e ∈ s.task_priority_set, e.1.priority ≤ priority_threshold →
      -2 ^ 31 ≤ e.1.priority ∧ e.1.priority < 2 ^ 31 - 1)
    (fuel : Nat) (q : Int) (hfuel : (s.task_priority_set.filter fun e => q ≤ e.1.priority).length < fuel) :
    s.find_next_runnable_task_loop maybe_t is_task_runnable shuffle priority_threshold fuel
        (s.task_priority_set.filter fun e => q ≤ e.1.priority) =
      some (((search_order (s.task_priority_set.filter fun e => q ≤ e.1.priority) (s.pivot maybe_t)
        priority_threshold).find? fun e => is_task_runnable e.2).map Prod.snd) := by
  induction fuel generalizing q with
  | zero => omega
  | succ fuel ih =>
    cases hR : s.task_priority_set.filter (fun e => q ≤ e.1.priority) with
    | nil =>
      rw [find_next_runnable_task_loop, search_order_eq_nil (by simp) _]
      rfl
    | cons e tl =>
      obtain ⟨⟨p, serial⟩, id⟩ := e
      have hsR : CmpList.Sorted (((⟨p, serial⟩ : PriorityTup), id) :: tl) := hR ▸ hs.filter _
      have hmem : ∀ x, x ∈ ((⟨p, serial⟩ : PriorityTup), id) :: tl ↔
          x ∈ s.task_priority_set ∧ q ≤ x.1.priority := by
        intro x
        rw [← hR, List.mem_filter, decide_eq_true_eq]
      -- the head has the lowest priority still to try
      have hmin : ∀ x ∈ ((⟨p, serial⟩ : PriorityTup), id) :: tl, p ≤ x.1.priority := by
        intro x hx
        rcases List.mem_cons.1 hx with rfl | hx
        · exact le_refl _
        · exact PriorityTup.priority_le_of_lt (hsR.lt_of_mem hx)
      have hqp : q ≤ p := ((hmem _).1 List.mem_cons_self).2
      rw [find_next_runnable_task_loop]
      dsimp only
      by_cases hthr : p > priority_threshold
      · -- past the threshold: nothing is left to try
        rw [if_pos hthr, search_order_eq_nil (fun x hx => by have := hmin x hx; omega) _]
        rfl
      rw [if_neg hthr]
      obtain ⟨h1, h2⟩ := hwrap _ ((hmem _).1 List.mem_cons_self).1 (not_lt.1 hthr)
      -- the tasks of priority `p` come first, and the rest is the next range
      have hG : s.task_priority_set.filter (fun e => e.1.priority = p) =
          (((⟨p, serial⟩ : PriorityTup), id) :: tl).filter fun e => e.1.priority = p := by
        rw [← hR, List.filter_filter]
        exact List.filter_congr fun x _ => by rw [← Bool.decide_and, decide_eq_decide]; omega
      have hB : s.task_priority_set.filter (fun e => p + 1 ≤ e.1.priority) =
          (((⟨p, serial⟩ : PriorityTup), id) :: tl).filter fun e => p < e.1.priority := by
        rw [← hR, List.filter_filter]
        exact List.filter_congr fun x _ => by rw [← Bool.decide_and, decide_eq_decide]; omega
      have hsplit := search_order_split s maybe_t (G := (((⟨p, serial⟩ : PriorityTup), id) :: tl).filter
          fun e => e.1.priority = p) (B := (((⟨p, serial⟩ : PriorityTup), id) :: tl).filter
          fun e => p < e.1.priority)
        (fun x hx => by simpa using (List.mem_filter.1 hx).2)
        (fun x hx => by simpa using (List.mem_filter.1 hx).2) (not_lt.1 hthr)
      rw [← split_priority hsR hmin] at hsplit
      rw [rangeExcl_priority hs h1 h2, hG, hsplit]
      simp only [hchaos, Bool.false_eq_true, ↓reduceIte]
      rw [List.find?_append]
      cases hfind : (s.same_priority_vec maybe_t p
          ((((⟨p, serial⟩ : PriorityTup), id) :: tl).filter fun e => e.1.priority = p)).find?
            fun e => is_task_runnable e.2 with
      | some x => rfl
      | none =>
        -- nothing runnable at `p`: the loop goes on from `(p + 1, 0)`
        rw [i32_wrapping_add_one h1 h2, lowerBound_priority hs, Option.none_or, ← hB]
        refine ih (p + 1) ?_
        rw [hB, List.filter_cons_of_neg (by simp)]
        have := List.length_filter_le (fun e : PriorityTup × Nat => decide (p < e.1.priority)) tl
        simp only [hR, List.length_cons] at hfuel
        omega

/-- With chaos mode off and no task at or below the threshold at `i32::MAX` or
below `i32::MIN`, `find_next_runnable_task` returns the first runnable task of
`search_order`, and `None` exactly when no task at or below the threshold is
runnable. -/
theorem find_next_runnable_task_of_no_wrap (hI : s.Inv) (hchaos : s.enable_chaos = false)
    (hwrap : ∀ e ∈ s.task_priority_set, e.1.priority ≤ priority_threshold →
      -2 ^ 31 ≤ e.1.priority ∧ e.1.priority < 2 ^ 31 - 1) :
    s.find_next_runnable_task maybe_t is_task_runnable shuffle priority_threshold =
        some (((search_order s.task_priority_set (s.pivot maybe_t) priority_threshold).find?
          fun e => is_task_runnable e.2).map Prod.snd) ∧
      (s.find_next_runnable_task maybe_t is_task_runnable shuffle priority_threshold = some none ↔
        ∀ e ∈ s.task_priority_set, e.1.priority ≤ priority_threshold → is_task_runnable e.2 = false) := by
  -- the whole set is the range of the priorities from its first one up
  obtain ⟨q, hq⟩ : ∃ q : Int, s.task_priority_set.filter (fun e => q ≤ e.1.priority) = s.task_priority_set := by
    cases hset : s.task_priority_set with
    | nil => exact ⟨0, rfl⟩
    | cons e l =>
      have hsl : CmpList.Sorted (e :: l) := hset ▸ hI.set_sorted
      refine ⟨e.1.priority, List.filter_eq_self.2 fun x hx => ?_⟩
      rcases List.mem_cons.1 hx with rfl | hx
      · simp
      · simpa using PriorityTup.priority_le_of_lt (hsl.lt_of_mem hx)
  have hrun : s.find_next_runnable_task maybe_t is_task_runnable shuffle priority_threshold =
      some (((search_order s.task_priority_set (s.pivot maybe_t) priority_threshold).find?
        fun e => is_task_runnable e.2).map Prod.snd) := by
    have h : s.find_next_runnable_task_loop maybe_t is_task_runnable shuffle priority_threshold
        (s.task_priority_set.length + 1) (s.task_priority_set.filter fun e => q ≤ e.1.priority) = _ :=
      find_next_runnable_task_loop_spec hI.set_sorted hchaos hwrap _ q (by rw [hq]; omega)
    rw [hq] at h
    exact h
  refine ⟨hrun, ?_⟩
  rw [hrun, Option.some_inj, Option.map_eq_none_iff, List.find?_eq_none]
  simp only [mem_search_order, Bool.not_eq_true, and_imp]

/-- Two tasks of priority `0` created on a new scheduler, of which only the
second is runnable. -/
theorem find_next_runnable_task_second_of_two :
    let s := ((new false).on_create_task 1 0 7 false 0).on_create_task 2 0 8 false 0
    let runnable : Nat → Bool := fun n => n == 2
    s.Inv ∧ s.enable_chaos = false ∧
      (∀ e ∈ s.task_priority_set, e.1.priority ≤ 0 → -2 ^ 31 ≤ e.1.priority ∧ e.1.priority < 2 ^ 31 - 1) ∧
      s.find_next_runnable_task none runnable id 0 =
          some (((search_order s.task_priority_set (s.pivot none) 0).find? fun e => runnable e.2).map Prod.snd) ∧
        (s.find_next_runnable_task none runnable id 0 = some none ↔
          ∀ e ∈ s.task_priority_set, e.1.priority ≤ 0 → runnable e.2 = false) := by
  intro s runnable
  have hr : Reachable false s :=
    .step (c := .on_create_task 2 0 8 false 0)
      (.step (c := .on_create_task 1 0 7 false 0) .new (by decide) rfl) (by decide) rfl
  have hI : s.Inv := hr.inv
  have hwrap : ∀ e ∈ s.task_priority_set, e.1.priority ≤ 0 → -2 ^ 31 ≤ e.1.priority ∧ e.1.priority < 2 ^ 31 - 1 := by
    decide
  exact ⟨hI, rfl, hwrap, find_next_runnable_task_of_no_wrap hI rfl hwrap⟩

end Search


/-- One task, of priority `i32::MAX`, created on a new scheduler without chaos
mode. -/
def max_priority_scheduler : Scheduler := (new false).on_create_task 1 (2 ^ 31 - 1) 1 false 0

/-- With the threshold `i32::MAX` of `get_next_thread`, the search reaches
priority `i32::MAX`, whose `priority + 1` wraps and makes `BTreeSet::range`
panic, though the task is runnable. -/
theorem find_next_runnable_task_panics_at_i32_max :
    max_priority_scheduler.Reachable false ∧
      search_order max_priority_scheduler.task_priority_set none (2 ^ 31 - 1) = [(⟨2 ^ 31 - 1, 1⟩, 1)] ∧
      max_priority_scheduler.find_next_runnable_task none (fun _ => true) id (2 ^ 31 - 1) = none :=
  ⟨.step (c := .on_create_task 1 (2 ^ 31 - 1) 1 false 0) .new (by decide) rfl, by decide, by decide⟩

end Scheduler

end RdReplay
