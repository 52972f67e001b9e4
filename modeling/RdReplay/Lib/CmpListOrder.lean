/-
  Lib/CmpListOrder.lean --- `CmpList` over a linear order: a list with strictly
  increasing keys is a finite map, and its scans are lookup, update and erase.

  WHAT THIS FILE IS FOR.  With `compare` of a linear order, every query compares
  `gt` against exactly the keys below it, so on a sorted list the prefix
  condition of `CmpList` always holds.  The lemmas below say what `get`,
  `insert` and `remove` do in terms of membership, and that they keep the keys
  sorted; clients then reason about the map through `get` alone.
-/
import RdReplay.Lib.CmpList

set_option autoImplicit false

namespace CmpList

section Order

variable {κ ν : Type} [LinearOrder κ] {k k' : κ} {v : ν} {e x : κ × ν} {l : List (κ × ν)}

/-- The keys are strictly increasing. -/
def Sorted (l : List (κ × ν)) : Prop := l.Pairwise (fun a b => a.1 < b.1)

theorem Sorted.nil : Sorted ([] : List (κ × ν)) := List.Pairwise.nil

theorem Sorted.of_cons (h : Sorted (e :: l)) : Sorted l := List.Pairwise.of_cons h

theorem Sorted.lt_of_mem (h : Sorted (e :: l)) (hx : x ∈ l) : e.1 < x.1 :=
  List.rel_of_pairwise_cons h hx

theorem Sorted.filter (h : Sorted l) (p : κ × ν → Bool) : Sorted (l.filter p) :=
  List.Pairwise.filter p h

/-- No entry of a sorted list has a key below its head's. -/
theorem Sorted.not_mem_of_lt (h : Sorted (e :: l)) (hk : k < e.1) (v : ν) : (k, v) ∉ e :: l := by
  intro hmem
  rcases List.mem_cons.1 hmem with heq | hmem
  · rw [← heq] at hk; exact lt_irrefl _ hk
  · exact lt_asymm hk (h.lt_of_mem hmem)

/-- On a sorted list `get` is lookup. -/
theorem get_eq_some_iff (h : Sorted l) : get compare k l = some v ↔ (k, v) ∈ l := by
  induction l with
  | nil => simp
  | cons e l ih =>
    rcases lt_trichotomy k e.1 with hlt | heq | hgt
    · rw [get_cons_of_lt (compare_lt_iff_lt.2 hlt)]
      simpa using h.not_mem_of_lt hlt v
    · rw [get_cons_of_eq (compare_eq_iff_eq.2 heq)]
      have hl : (k, v) ∉ l := by
        intro hmem
        have hlt : e.1 < k := h.lt_of_mem hmem
        rw [← heq] at hlt
        exact lt_irrefl k hlt
      constructor
      · rintro ⟨⟩
        exact List.mem_cons.2 (.inl (by rw [heq]))
      · intro hmem
        rcases List.mem_cons.1 hmem with hmem | hmem
        · rw [← hmem]
        · exact absurd hmem hl
    · rw [get_cons_of_gt (compare_gt_iff_gt.2 hgt), ih h.of_cons, List.mem_cons]
      have hne : (k, v) ≠ e := by
        rintro rfl
        exact lt_irrefl k hgt
      simp [hne]

theorem get_eq_none_iff (h : Sorted l) : get compare k l = none ↔ ∀ v, (k, v) ∉ l := by
  rw [← not_iff_not]
  simp only [not_forall, not_not, ← get_eq_some_iff h, Option.ne_none_iff_exists']

/-- The head of a sorted list answers for its own key only. -/
theorem get_cons (h : Sorted (e :: l)) :
    get compare k (e :: l) = if k = e.1 then some e.2 else get compare k l := by
  rcases lt_trichotomy k e.1 with hlt | heq | hgt
  · rw [get_cons_of_lt (compare_lt_iff_lt.2 hlt), if_neg (ne_of_lt hlt)]
    symm
    rw [get_eq_none_iff h.of_cons]
    intro v hv
    exact lt_asymm hlt (h.lt_of_mem hv)
  · rw [get_cons_of_eq (compare_eq_iff_eq.2 heq), if_pos heq]
  · rw [get_cons_of_gt (compare_gt_iff_gt.2 hgt), if_neg (ne_of_gt hgt)]

/-- `insert` puts the new entry in place of any entry of its key. -/
theorem mem_insert_iff (h : Sorted l) :
    x ∈ insert compare k v l ↔ x = (k, v) ∨ (x ∈ l ∧ x.1 ≠ k) := by
  induction l with
  | nil => simp
  | cons e l ih =>
    rcases lt_trichotomy k e.1 with hlt | heq | hgt
    · rw [insert_cons_of_lt (compare_lt_iff_lt.2 hlt)]
      have hne : ∀ y ∈ e :: l, y.1 ≠ k := by
        intro y hy
        rcases List.mem_cons.1 hy with rfl | hy
        · exact ne_of_gt hlt
        · exact ne_of_gt (lt_trans hlt (h.lt_of_mem hy))
      constructor
      · intro hx
        rcases List.mem_cons.1 hx with hx | hx
        · exact .inl hx
        · exact .inr ⟨hx, hne x hx⟩
      · rintro (hx | ⟨hx, -⟩)
        · exact List.mem_cons.2 (.inl hx)
        · exact List.mem_cons_of_mem _ hx
    · rw [insert_cons_of_eq (compare_eq_iff_eq.2 heq), ← heq]
      have hl : ∀ y ∈ l, y.1 ≠ k := fun y hy => ne_of_gt (heq ▸ h.lt_of_mem hy)
      constructor
      · intro hx
        rcases List.mem_cons.1 hx with hx | hx
        · exact .inl hx
        · exact .inr ⟨List.mem_cons_of_mem _ hx, hl x hx⟩
      · rintro (hx | ⟨hx, hxk⟩)
        · exact List.mem_cons.2 (.inl hx)
        · rcases List.mem_cons.1 hx with rfl | hx
          · exact absurd heq.symm hxk
          · exact List.mem_cons_of_mem _ hx
    · rw [insert_cons_of_gt (compare_gt_iff_gt.2 hgt), List.mem_cons, ih h.of_cons, List.mem_cons]
      constructor
      · rintro (rfl | hx | ⟨hx, hxk⟩)
        · exact .inr ⟨.inl rfl, ne_of_lt hgt⟩
        · exact .inl hx
        · exact .inr ⟨.inr hx, hxk⟩
      · rintro (hx | ⟨rfl | hx, hxk⟩)
        · exact .inr (.inl hx)
        · exact .inl rfl
        · exact .inr (.inr ⟨hx, hxk⟩)

theorem Sorted.insert (h : Sorted l) : Sorted (insert compare k v l) := by
  induction l with
  | nil => exact List.pairwise_singleton _ _
  | cons e l ih =>
    rcases lt_trichotomy k e.1 with hlt | heq | hgt
    · rw [insert_cons_of_lt (compare_lt_iff_lt.2 hlt)]
      refine List.Pairwise.cons (fun y hy => ?_) h
      rcases List.mem_cons.1 hy with rfl | hy
      · exact hlt
      · exact lt_trans hlt (h.lt_of_mem hy)
    · rw [insert_cons_of_eq (compare_eq_iff_eq.2 heq)]
      exact List.Pairwise.cons (fun y hy => h.lt_of_mem hy) h.of_cons
    · rw [insert_cons_of_gt (compare_gt_iff_gt.2 hgt)]
      refine List.Pairwise.cons (fun y hy => ?_) (ih h.of_cons)
      rcases (mem_insert_iff h.of_cons).1 hy with rfl | ⟨hy, -⟩
      · exact hgt
      · exact h.lt_of_mem hy

/-- `remove` drops the entry of its key, if any. -/
theorem mem_remove_iff (h : Sorted l) : x ∈ remove compare k l ↔ x ∈ l ∧ x.1 ≠ k := by
  induction l with
  | nil => simp
  | cons e l ih =>
    rcases lt_trichotomy k e.1 with hlt | heq | hgt
    · rw [remove_cons_of_lt (compare_lt_iff_lt.2 hlt)]
      constructor
      · intro hx
        refine ⟨hx, ?_⟩
        rcases List.mem_cons.1 hx with rfl | hx
        · exact ne_of_gt hlt
        · exact ne_of_gt (lt_trans hlt (h.lt_of_mem hx))
      · exact fun hx => hx.1
    · rw [remove_cons_of_eq (compare_eq_iff_eq.2 heq)]
      constructor
      · intro hx
        exact ⟨List.mem_cons_of_mem _ hx, ne_of_gt (heq ▸ h.lt_of_mem hx)⟩
      · rintro ⟨hx, hxk⟩
        rcases List.mem_cons.1 hx with rfl | hx
        · exact absurd heq.symm hxk
        · exact hx
    · rw [remove_cons_of_gt (compare_gt_iff_gt.2 hgt), List.mem_cons, ih h.of_cons, List.mem_cons]
      constructor
      · rintro (rfl | ⟨hx, hxk⟩)
        · exact ⟨.inl rfl, ne_of_lt hgt⟩
        · exact ⟨.inr hx, hxk⟩
      · rintro ⟨rfl | hx, hxk⟩
        · exact .inl rfl
        · exact .inr ⟨hx, hxk⟩

theorem remove_sublist : (remove compare k l).Sublist l := by
  induction l with
  | nil => exact List.Sublist.refl _
  | cons e l ih =>
    rcases lt_trichotomy k e.1 with hlt | heq | hgt
    · rw [remove_cons_of_lt (compare_lt_iff_lt.2 hlt)]
    · rw [remove_cons_of_eq (compare_eq_iff_eq.2 heq)]
      exact List.sublist_cons_self e l
    · rw [remove_cons_of_gt (compare_gt_iff_gt.2 hgt)]
      exact ih.cons_cons e

theorem Sorted.remove (h : Sorted l) : Sorted (remove compare k l) :=
  List.Pairwise.sublist remove_sublist h

/-! ### Lookups after an update -/

@[simp] theorem get_insert_self (h : Sorted l) : get compare k (insert compare k v l) = some v :=
  (get_eq_some_iff h.insert).2 ((mem_insert_iff h).2 (.inl rfl))

theorem get_insert_of_ne (h : Sorted l) (hk : k' ≠ k) :
    get compare k' (insert compare k v l) = get compare k' l := by
  cases hg : get compare k' l with
  | none =>
    rw [get_eq_none_iff h.insert]
    intro w hw
    rcases (mem_insert_iff h).1 hw with hw | ⟨hw, -⟩
    · exact hk (Prod.mk.inj hw).1
    · exact (get_eq_none_iff h).1 hg w hw
  | some w =>
    rw [get_eq_some_iff h.insert, mem_insert_iff h]
    exact .inr ⟨(get_eq_some_iff h).1 hg, hk⟩

@[simp] theorem get_remove_self (h : Sorted l) : get compare k (remove compare k l) = none := by
  rw [get_eq_none_iff h.remove]
  intro w hw
  exact ((mem_remove_iff h).1 hw).2 rfl

theorem get_remove_of_ne (h : Sorted l) (hk : k' ≠ k) :
    get compare k' (remove compare k l) = get compare k' l := by
  cases hg : get compare k' l with
  | none =>
    rw [get_eq_none_iff h.remove]
    intro w hw
    exact (get_eq_none_iff h).1 hg w ((mem_remove_iff h).1 hw).1
  | some w =>
    rw [get_eq_some_iff h.remove, mem_remove_iff h]
    exact ⟨(get_eq_some_iff h).1 hg, hk⟩

/-! ## Ranges -/

/-- On a sorted list the search from `k` keeps the entries at or above `k`. -/
theorem lowerBound_eq_filter_le (h : Sorted l) (k : κ) :
    lowerBound compare k l = l.filter (fun e => k ≤ e.1) := by
  have hprefix : l.Pairwise (fun a b => compare k b.1 = .gt → compare k a.1 = .gt) :=
    h.imp fun {a b} hab hb => by
      rw [compare_gt_iff_gt] at hb ⊢
      exact lt_trans hab hb
  rw [lowerBound_eq_filter hprefix]
  exact List.filter_congr fun e _ => by simp [compare_gt_iff_gt]

/-- On a sorted list the entries below `k` are a prefix. -/
theorem takeWhile_lt_eq_filter (h : Sorted l) (k : κ) :
    l.takeWhile (fun e => compare k e.1 == .gt) = l.filter (fun e => e.1 < k) := by
  induction l with
  | nil => rfl
  | cons e l ih =>
    by_cases he : e.1 < k
    · rw [List.takeWhile_cons_of_pos (by simpa [compare_gt_iff_gt] using he),
        List.filter_cons_of_pos (by simpa using he), ih h.of_cons]
    · -- every later key is above this one, so none is kept
      rw [List.takeWhile_cons_of_neg (by simpa [compare_gt_iff_gt] using he),
        List.filter_cons_of_neg (by simpa using he)]
      refine (List.filter_eq_nil_iff.2 fun x hx => ?_).symm
      simpa using fun hxk => he (lt_trans (h.lt_of_mem hx) hxk)

/-- `range(lo..hi)` of a sorted list keeps the entries in `[lo, hi)`. -/
theorem rangeExcl_eq_filter (h : Sorted l) {lo hi : κ} (hle : lo ≤ hi) :
    rangeExcl compare lo hi l = some (l.filter fun e => lo ≤ e.1 ∧ e.1 < hi) := by
  rw [rangeExcl, if_neg (by rw [compare_gt_iff_gt]; exact not_lt.2 hle), lowerBound_eq_filter_le h,
    takeWhile_lt_eq_filter (h.filter _), List.filter_filter]
  exact congrArg some (List.filter_congr fun e _ => by rw [Bool.and_comm, Bool.decide_and])

/-- On a sorted list the search up to `k` keeps the entries at or below `k`. -/
theorem upTo_eq_filter_le (h : Sorted l) (k : κ) : upTo compare k l = l.filter (fun e => e.1 ≤ k) := by
  induction l with
  | nil => rfl
  | cons e l ih =>
    rcases lt_trichotomy e.1 k with hlt | heq | hgt
    · rw [upTo_cons_of_gt (compare_gt_iff_gt.2 hlt), List.filter_cons_of_pos (by simpa using hlt.le),
        ih h.of_cons]
    · -- the search stops at `k`, and every later key is above it
      rw [upTo_cons_of_eq (compare_eq_iff_eq.2 heq.symm), List.filter_cons_of_pos (by simpa using heq.le)]
      refine congrArg _ (List.filter_eq_nil_iff.2 fun x hx => ?_).symm
      simpa [← heq] using h.lt_of_mem hx
    · rw [upTo_cons_of_lt (compare_lt_iff_lt.2 hgt), List.filter_cons_of_neg (by simpa using hgt)]
      refine (List.filter_eq_nil_iff.2 fun x hx => ?_).symm
      simpa using lt_trans hgt (h.lt_of_mem hx)

/-- The last entry of a sorted list has the greatest key. -/
theorem Sorted.le_of_getLast? (h : Sorted l) (hlast : l.getLast? = some e) (hx : x ∈ l) : x.1 ≤ e.1 := by
  obtain ⟨init, rfl⟩ := List.getLast?_eq_some_iff.1 hlast
  rcases List.mem_append.1 hx with hx | hx
  · exact (List.pairwise_append.1 h).2.2 x hx e List.mem_cons_self |>.le
  · rw [List.mem_singleton.1 hx]

/-- `range(lo..hi)` panics when `lo` is above `hi`. -/
theorem rangeExcl_of_lt {lo hi : κ} (hlt : hi < lo) (l : List (κ × ν)) :
    rangeExcl compare lo hi l = none := by
  rw [rangeExcl, if_pos (compare_gt_iff_gt.2 hlt)]

end Order

end CmpList
