/-
  Lib/CmpList.lean --- an ordered map kept as a list of entries in key order and
  searched with a three-way comparator.

  WHAT THIS FILE IS FOR.  A B-tree map meets its keys in order.  At every node
  its search scans the node's keys for the first one the query does not compare
  `gt` against, and stops there if that key compares `eq`.  When the entries a
  query compares `gt` against form a prefix of the in-order list, every such
  descent stops at the first entry after that prefix, which is where a linear
  scan of the list stops too.  On such a list the tree's `get`, `insert`,
  `remove` and `range` are the scans below.

  THE COMPARATOR NEED NOT BE A TOTAL ORDER.  Two facts of the tree survive that
  and are kept here: `insert` of a key that compares `eq` to a present key keeps
  the PRESENT key and replaces only the value, and `range` with a lower bound
  above its upper bound panics (`none`).

  THE LEMMAS ARE PARTITION LEMMAS.  Each says what an operation does on a list
  `pre ++ post` whose every entry in `pre` compares `gt` against the query; a
  client proves that split once for its own key order and then never unfolds
  the scans.
-/
import Mathlib

set_option autoImplicit false

namespace CmpList

variable {κ ν : Type} (cmp : κ → κ → Ordering)

/-- The entries from the first one the query `q` does not compare `gt` against:
`range((Included(q), Unbounded))`. -/
def lowerBound (q : κ) : List (κ × ν) → List (κ × ν)
  | [] => []
  | e :: l => if cmp q e.1 = .gt then lowerBound q l else e :: l

/-- The entries `q` compares `gt` against, and the next one if it compares `eq`:
`range((Unbounded, Included(q)))`. -/
def upTo (q : κ) : List (κ × ν) → List (κ × ν)
  | [] => []
  | e :: l =>
    match cmp q e.1 with
    | .gt => e :: upTo q l
    | .eq => [e]
    | .lt => []

/-- `get(&q)`: the value of the entry the search stops at, if it compares `eq`. -/
def get (q : κ) (l : List (κ × ν)) : Option ν :=
  match lowerBound cmp q l with
  | e :: _ => if cmp q e.1 = .eq then some e.2 else none
  | [] => none

/-- `insert(k, v)`.  On an entry comparing `eq` the present key stays and only
the value is replaced. -/
def insert (k : κ) (v : ν) : List (κ × ν) → List (κ × ν)
  | [] => [(k, v)]
  | e :: l =>
    match cmp k e.1 with
    | .gt => e :: insert k v l
    | .eq => (e.1, v) :: l
    | .lt => (k, v) :: e :: l

/-- `remove(&k)`: drops the entry the search stops at, if it compares `eq`. -/
def remove (k : κ) : List (κ × ν) → List (κ × ν)
  | [] => []
  | e :: l =>
    match cmp k e.1 with
    | .gt => e :: remove k l
    | .eq => l
    | .lt => e :: l

/-- `range((Included(lo), Included(hi)))`; the tree panics when `lo > hi`. -/
def range (lo hi : κ) (l : List (κ × ν)) : Option (List (κ × ν)) :=
  if cmp lo hi = .gt then none else some (upTo cmp hi (lowerBound cmp lo l))

/-- `range((Included(lo), Excluded(hi)))`, as `range(lo..hi)` makes it; the
tree panics when `lo > hi`. -/
def rangeExcl (lo hi : κ) (l : List (κ × ν)) : Option (List (κ × ν)) :=
  if cmp lo hi = .gt then none else some ((lowerBound cmp lo l).takeWhile fun e => cmp hi e.1 == .gt)

/-! ## Scans on one entry -/

section Cons

variable {cmp} {q : κ} {e : κ × ν} {l : List (κ × ν)} {v : ν}

@[simp] theorem lowerBound_nil : lowerBound cmp q ([] : List (κ × ν)) = [] := rfl

theorem lowerBound_cons :
    lowerBound cmp q (e :: l) = if cmp q e.1 = .gt then lowerBound cmp q l else e :: l := rfl

theorem lowerBound_cons_of_gt (h : cmp q e.1 = .gt) :
    lowerBound cmp q (e :: l) = lowerBound cmp q l := by
  rw [lowerBound_cons, if_pos h]

theorem lowerBound_cons_of_ne (h : cmp q e.1 ≠ .gt) :
    lowerBound cmp q (e :: l) = e :: l := by
  rw [lowerBound_cons, if_neg h]

@[simp] theorem upTo_nil : upTo cmp q ([] : List (κ × ν)) = [] := rfl

theorem upTo_cons : upTo cmp q (e :: l) =
    match cmp q e.1 with
    | .gt => e :: upTo cmp q l
    | .eq => [e]
    | .lt => [] := rfl

theorem upTo_cons_of_gt (h : cmp q e.1 = .gt) : upTo cmp q (e :: l) = e :: upTo cmp q l := by
  rw [upTo_cons, h]

theorem upTo_cons_of_eq (h : cmp q e.1 = .eq) : upTo cmp q (e :: l) = [e] := by
  rw [upTo_cons, h]

theorem upTo_cons_of_lt (h : cmp q e.1 = .lt) : upTo cmp q (e :: l) = [] := by
  rw [upTo_cons, h]

theorem get_eq : get cmp q l =
    match lowerBound cmp q l with
    | e :: _ => if cmp q e.1 = .eq then some e.2 else none
    | [] => none := rfl

theorem get_cons_of_gt (h : cmp q e.1 = .gt) : get cmp q (e :: l) = get cmp q l := by
  rw [get_eq, get_eq, lowerBound_cons_of_gt h]

theorem get_cons_of_eq (h : cmp q e.1 = .eq) : get cmp q (e :: l) = some e.2 := by
  have hne : cmp q e.1 ≠ .gt := by rw [h]; decide
  rw [get_eq, lowerBound_cons_of_ne hne]
  exact if_pos h

theorem get_cons_of_lt (h : cmp q e.1 = .lt) : get cmp q (e :: l) = none := by
  have hne : cmp q e.1 ≠ .gt := by rw [h]; decide
  rw [get_eq, lowerBound_cons_of_ne hne]
  exact if_neg (by rw [h]; decide)

@[simp] theorem get_nil : get cmp q ([] : List (κ × ν)) = none := rfl

@[simp] theorem insert_nil : insert cmp q v ([] : List (κ × ν)) = [(q, v)] := rfl

theorem insert_cons : insert cmp q v (e :: l) =
    match cmp q e.1 with
    | .gt => e :: insert cmp q v l
    | .eq => (e.1, v) :: l
    | .lt => (q, v) :: e :: l := rfl

theorem insert_cons_of_gt (h : cmp q e.1 = .gt) : insert cmp q v (e :: l) = e :: insert cmp q v l := by
  rw [insert_cons, h]

theorem insert_cons_of_lt (h : cmp q e.1 = .lt) : insert cmp q v (e :: l) = (q, v) :: e :: l := by
  rw [insert_cons, h]

theorem insert_cons_of_eq (h : cmp q e.1 = .eq) : insert cmp q v (e :: l) = (e.1, v) :: l := by
  rw [insert_cons, h]

@[simp] theorem remove_nil : remove cmp q ([] : List (κ × ν)) = [] := rfl

theorem remove_cons : remove cmp q (e :: l) =
    match cmp q e.1 with
    | .gt => e :: remove cmp q l
    | .eq => l
    | .lt => e :: l := rfl

theorem remove_cons_of_gt (h : cmp q e.1 = .gt) : remove cmp q (e :: l) = e :: remove cmp q l := by
  rw [remove_cons, h]

theorem remove_cons_of_eq (h : cmp q e.1 = .eq) : remove cmp q (e :: l) = l := by
  rw [remove_cons, h]

theorem remove_cons_of_lt (h : cmp q e.1 = .lt) : remove cmp q (e :: l) = e :: l := by
  rw [remove_cons, h]

/-- `get` and `remove` stop at the same entry: a key `get` does not find removes
nothing. -/
theorem remove_of_get_none (h : get cmp q l = none) : remove cmp q l = l := by
  induction l with
  | nil => rfl
  | cons e l ih =>
    cases hc : cmp q e.1 with
    | lt => exact remove_cons_of_lt hc
    | eq => rw [get_cons_of_eq hc] at h; cases h
    | gt => rw [remove_cons_of_gt hc, ih (by rwa [get_cons_of_gt hc] at h)]

end Cons

/-! ## Partition lemmas

Every scan passes over a prefix the query compares `gt` against unchanged. -/

section Partition

variable {cmp} {q : κ} {v : ν}

/-- A prefix of entries the query compares `gt` against. -/
def Below (cmp : κ → κ → Ordering) (q : κ) (pre : List (κ × ν)) : Prop :=
  ∀ e ∈ pre, cmp q e.1 = .gt

theorem Below.nil : Below cmp q ([] : List (κ × ν)) := fun _ h => by simp at h

theorem Below.append {pre pre' : List (κ × ν)} (h : Below cmp q pre) (h' : Below cmp q pre') :
    Below cmp q (pre ++ pre') := by
  intro e he
  rcases List.mem_append.1 he with he | he
  · exact h e he
  · exact h' e he

theorem lowerBound_append {pre : List (κ × ν)} (hpre : Below cmp q pre) (post : List (κ × ν)) :
    lowerBound cmp q (pre ++ post) = lowerBound cmp q post := by
  induction pre with
  | nil => rfl
  | cons e pre ih =>
    rw [List.cons_append, lowerBound_cons_of_gt (hpre e List.mem_cons_self)]
    exact ih (fun e' he' => hpre e' (List.mem_cons_of_mem _ he'))

theorem upTo_append {pre : List (κ × ν)} (hpre : Below cmp q pre) (post : List (κ × ν)) :
    upTo cmp q (pre ++ post) = pre ++ upTo cmp q post := by
  induction pre with
  | nil => rfl
  | cons e pre ih =>
    rw [List.cons_append, upTo_cons_of_gt (hpre e List.mem_cons_self)]
    rw [ih (fun e' he' => hpre e' (List.mem_cons_of_mem _ he')), List.cons_append]

theorem get_append {pre : List (κ × ν)} (hpre : Below cmp q pre) (post : List (κ × ν)) :
    get cmp q (pre ++ post) = get cmp q post := by
  rw [get_eq, get_eq, lowerBound_append hpre]

theorem insert_append {pre : List (κ × ν)} (hpre : Below cmp q pre) (post : List (κ × ν)) :
    insert cmp q v (pre ++ post) = pre ++ insert cmp q v post := by
  induction pre with
  | nil => rfl
  | cons e pre ih =>
    have h := hpre e List.mem_cons_self
    rw [List.cons_append, List.cons_append, insert_cons_of_gt h,
      ih (fun e' he' => hpre e' (List.mem_cons_of_mem _ he'))]

theorem remove_append {pre : List (κ × ν)} (hpre : Below cmp q pre) (post : List (κ × ν)) :
    remove cmp q (pre ++ post) = pre ++ remove cmp q post := by
  induction pre with
  | nil => rfl
  | cons e pre ih =>
    have h := hpre e List.mem_cons_self
    rw [List.cons_append, List.cons_append, remove_cons_of_gt h,
      ih (fun e' he' => hpre e' (List.mem_cons_of_mem _ he'))]

/-- Where every entry the query compares `gt` against comes before every other,
the search keeps exactly the others, in order. -/
theorem lowerBound_eq_filter {l : List (κ × ν)}
    (h : l.Pairwise (fun a b => cmp q b.1 = .gt → cmp q a.1 = .gt)) :
    lowerBound cmp q l = l.filter (fun e => decide (cmp q e.1 ≠ .gt)) := by
  induction l with
  | nil => rfl
  | cons e l ih =>
    by_cases he : cmp q e.1 = .gt
    · rw [lowerBound_cons_of_gt he, List.filter_cons_of_neg (by simpa using he), ih h.of_cons]
    · -- past the first entry kept, every entry is kept
      have hkeep : l.filter (fun e => decide (cmp q e.1 ≠ .gt)) = l := by
        rw [List.filter_eq_self]
        intro b hb
        simpa using fun hgt => he (List.rel_of_pairwise_cons h hb hgt)
      rw [lowerBound_cons_of_ne he, List.filter_cons_of_pos (by simpa using he), hkeep]

end Partition

end CmpList
