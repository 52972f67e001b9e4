/-
  AddressSpace/Watchpoints.lean --- the reference counts of the watchpoints of
  an address space, against the requests of the debugger.

  Source: `session/address_space.rs`: `AddressSpace::add_watchpoint`,
  `remove_watchpoint`, `Watchpoint::watched_bits` and `all_watchpoints`
  (`get_watchpoints_internal` with `AllWatchpoints`).  `Watchpoint`, `watch`,
  `unwatch`, `access_bits_of`, `range_for_watchpoint` and the two calls on a
  `DebugState` are those of `Timeline/Breakpoints`.

  THE MAP.  `watchpoints` is a `BTreeMap<MemoryRange, Watchpoint>` under the
  order `MemoryRange` derives, so it is a `CmpList` with increasing keys.  Its
  counters are `u32`s that wrap in a release build.

  THE SPECIFICATION.  The requests not yet taken back by a remove of the same
  `(addr, num_bytes, type)` are kept as a list (`take_request`).  `Tracks ws out`
  says that the map has an entry for a range exactly when some outstanding
  request is for it, with the counts `spec_watchpoint` derives from them: exec
  from `WatchExec`, read from `WatchReadWrite`, and write from `WatchWrite` and
  `WatchReadWrite`.  An add and a matched remove keep it while the counts of
  every range sum to less than `2 ^ 32` (`SaneRun`); `2 ^ 32` adds of one exec
  watch wrap its count back to `0`.
-/
import RdReplay.Timeline.Breakpoints

set_option autoImplicit false

namespace RdReplay

namespace Watchpoint

/-- `watched_bits`. -/
def watched_bits (w : Watchpoint) : RwxBits :=
  ⟨decide (0 < w.exec_count), decide (0 < w.read_count), decide (0 < w.write_count)⟩

/-- The sum of the counts. -/
def total (w : Watchpoint) : Nat := w.exec_count + w.read_count + w.write_count

end Watchpoint

/-- The `WatchConfig`s `get_watchpoints_internal` reports for one entry. -/
def watch_configs (e : MemoryRange × Watchpoint) : List WatchConfig :=
  let watching := e.2.watched_bits
  (if watching.exec then [⟨e.1.start_, e.1.size, .WatchExec⟩] else []) ++
    if watching.read then [⟨e.1.start_, e.1.size, .WatchReadWrite⟩]
    else if watching.write then [⟨e.1.start_, e.1.size, .WatchWrite⟩] else []

/-- `all_watchpoints`. -/
def DebugState.all_watchpoints (vm : DebugState) : List WatchConfig :=
  vm.watchpoints.flatMap watch_configs

/-! ## Requests -/

/-- A request of the debugger: the arguments of `add_watchpoint` or
`remove_watchpoint`. -/
structure WatchRequest where
  addr : Nat
  num_bytes : Nat
  type_ : WatchType
  deriving DecidableEq, Repr

/-- The range a request watches. -/
def WatchRequest.range (q : WatchRequest) : MemoryRange := range_for_watchpoint q.addr q.num_bytes

/-- The calls a run is made of. -/
inductive WatchOp where
  | add_watchpoint (q : WatchRequest)
  | remove_watchpoint (q : WatchRequest)
  deriving DecidableEq, Repr

namespace WatchOp

/-- One call on the address space. -/
def apply (vm : DebugState) : WatchOp → DebugState
  | .add_watchpoint q => vm.add_watchpoint q.addr q.num_bytes q.type_
  | .remove_watchpoint q => vm.remove_watchpoint q.addr q.num_bytes q.type_

/-- A run of calls from an address space with breakpoints `bps` and no
watchpoint. -/
def run (bps : BreakpointState) (ops : List WatchOp) : DebugState := ops.foldl apply ⟨bps, []⟩

end WatchOp

/-- The outstanding requests after one more call: an add stays outstanding
until a remove of the same arguments takes it back; a remove with no such add
is unmatched. -/
def take_request (out : List WatchRequest) : WatchOp → Option (List WatchRequest)
  | .add_watchpoint q => some (q :: out)
  | .remove_watchpoint q => if q ∈ out then some (out.erase q) else none

/-- The outstanding requests for range `r` of type `t`. -/
def count_of (out : List WatchRequest) (r : MemoryRange) (t : WatchType) : Nat :=
  out.countP fun q => decide (q.range = r ∧ q.type_ = t)

/-- The counts the outstanding requests call for at `r`. -/
def spec_watchpoint (out : List WatchRequest) (r : MemoryRange) : Watchpoint :=
  ⟨count_of out r .WatchExec, count_of out r .WatchReadWrite,
    count_of out r .WatchWrite + count_of out r .WatchReadWrite⟩

/-- No range's counts reach `2 ^ 32` in sum. -/
def Fits (out : List WatchRequest) : Prop := ∀ r, (spec_watchpoint out r).total < 2 ^ 32

/-- A run of calls, each remove matched by an outstanding add of its
arguments, along which the counts fit: from `out` to `out'`. -/
inductive SaneRun : List WatchRequest → List WatchOp → List WatchRequest → Prop
  | nil (out : List WatchRequest) : SaneRun out [] out
  | cons {out out' out'' : List WatchRequest} {op : WatchOp} {ops : List WatchOp} :
      take_request out op = some out' → Fits out' → SaneRun out' ops out'' → SaneRun out (op :: ops) out''

/-- The map holds, for each range with an outstanding request, the counts those
requests call for, and nothing else. -/
structure Tracks (ws : List (MemoryRange × Watchpoint)) (out : List WatchRequest) : Prop where
  sorted : CmpList.Sorted ws
  get_eq : ∀ r, CmpList.get compare r ws =
    if ∃ q ∈ out, q.range = r then some (spec_watchpoint out r) else none

/-! ## Counting the outstanding requests -/

section Count

variable {out : List WatchRequest} {q : WatchRequest} {r : MemoryRange} {t : WatchType}

theorem count_of_cons :
    count_of (q :: out) r t = count_of out r t + if q.range = r ∧ q.type_ = t then 1 else 0 := by
  simp only [count_of, List.countP_cons, decide_eq_true_eq]

theorem count_of_erase (hq : q ∈ out) :
    count_of (out.erase q) r t = count_of out r t - if q.range = r ∧ q.type_ = t then 1 else 0 := by
  simp only [count_of, List.countP_erase, hq, true_and, decide_eq_true_eq]

/-- A request of `r` of type `t` is counted. -/
theorem count_of_pos (hq : q ∈ out) (hr : q.range = r) : 0 < count_of out r q.type_ :=
  List.countP_pos_iff.2 ⟨q, hq, by simp [hr]⟩

/-- Every request is of one of the three types, so the three counts together
count the requests of a range, and no more than the list holds. -/
theorem count_of_sum_le :
    count_of out r .WatchExec + count_of out r .WatchReadWrite + count_of out r .WatchWrite ≤
      out.length := by
  induction out with
  | nil => simp [count_of]
  | cons q out ih =>
    simp only [count_of_cons, List.length_cons]
    cases hq : q.type_ <;> split_ifs <;> simp_all <;> omega

/-- Some request of `r` is outstanding exactly when its counts are not all `0`. -/
theorem exists_range_iff_total_pos :
    (∃ q ∈ out, q.range = r) ↔ 0 < (spec_watchpoint out r).total := by
  simp only [Watchpoint.total, spec_watchpoint]
  constructor
  · rintro ⟨q, hq, hr⟩
    have hpos := count_of_pos hq hr
    cases hty : q.type_ <;> rw [hty] at hpos <;> omega
  · intro hpos
    obtain ⟨q, hq, hr⟩ : ∃ q ∈ out, decide (q.range = r ∧ q.type_ = .WatchExec) = true ∨
        decide (q.range = r ∧ q.type_ = .WatchReadWrite) = true ∨
          decide (q.range = r ∧ q.type_ = .WatchWrite) = true := by
      rcases Nat.pos_of_ne_zero (by omega : count_of out r .WatchExec + count_of out r .WatchReadWrite +
          count_of out r .WatchWrite ≠ 0) with h
      by_cases he : 0 < count_of out r .WatchExec
      · obtain ⟨q, hq, h⟩ := List.countP_pos_iff.1 he
        exact ⟨q, hq, .inl h⟩
      by_cases hrw : 0 < count_of out r .WatchReadWrite
      · obtain ⟨q, hq, h⟩ := List.countP_pos_iff.1 hrw
        exact ⟨q, hq, .inr (.inl h)⟩
      obtain ⟨q, hq, h⟩ := List.countP_pos_iff.1 (show 0 < count_of out r .WatchWrite by omega)
      exact ⟨q, hq, .inr (.inr h)⟩
    refine ⟨q, hq, ?_⟩
    simp only [decide_eq_true_eq] at hr
    rcases hr with ⟨h, -⟩ | ⟨h, -⟩ | ⟨h, -⟩ <;> exact h

/-- A list whose requests are few fits. -/
theorem fits_of_length (h : 2 * out.length < 2 ^ 32) : Fits out := by
  intro r
  have : count_of out r .WatchExec + count_of out r .WatchReadWrite + count_of out r .WatchWrite ≤
      out.length := count_of_sum_le
  simp only [Watchpoint.total, spec_watchpoint]
  omega

end Count

/-! ## One call -/

section Step

variable {vm : DebugState} {out : List WatchRequest} {q : WatchRequest}

/-- With no request of `r` outstanding, the counts called for are those of a
new entry. -/
theorem spec_watchpoint_of_not_mem {r : MemoryRange} (h : ¬ ∃ q ∈ out, q.range = r) :
    spec_watchpoint out r = Watchpoint.new := by
  have hz : ∀ t, count_of out r t = 0 := fun t =>
    List.countP_eq_zero.2 fun q hq hq' => h ⟨q, hq, by simp only [decide_eq_true_eq] at hq'; exact hq'.1⟩
  simp [spec_watchpoint, Watchpoint.new, hz]

/-- `watch` on the counts of `q`'s range adds `q`, while they fit. -/
theorem watch_spec_watchpoint (hfit : Fits (q :: out)) :
    (spec_watchpoint out q.range).watch (access_bits_of q.type_) = spec_watchpoint (q :: out) q.range := by
  have h := hfit q.range
  simp only [Watchpoint.total, spec_watchpoint, count_of_cons] at h ⊢
  cases hty : q.type_ <;>
    simp [hty, Watchpoint.watch, Watchpoint.inc, access_bits_of] at h ⊢ <;> omega

/-- `unwatch` on the counts of `q`'s range takes `q` back, and returns their sum. -/
theorem unwatch_spec_watchpoint (hq : q ∈ out) (hfit : Fits (out.erase q)) :
    (spec_watchpoint out q.range).unwatch (access_bits_of q.type_) =
      (spec_watchpoint (out.erase q) q.range, (spec_watchpoint (out.erase q) q.range).total) := by
  have h := hfit q.range
  have hpos := count_of_pos hq rfl
  simp only [Watchpoint.total, spec_watchpoint, count_of_erase hq] at h hpos ⊢
  cases hty : q.type_ <;> rw [hty] at hpos <;>
    simp only [hty, Watchpoint.unwatch, access_bits_of, Watchpoint.dec, and_self, and_false, if_true,
      if_false, reduceCtorEq, Prod.mk.injEq, Watchpoint.mk.injEq] at h ⊢ <;> omega

theorem spec_watchpoint_cons_of_ne {r : MemoryRange} (hr : q.range ≠ r) :
    spec_watchpoint (q :: out) r = spec_watchpoint out r := by
  simp [spec_watchpoint, count_of_cons, hr]

theorem spec_watchpoint_erase_of_ne {r : MemoryRange} (hq : q ∈ out) (hr : q.range ≠ r) :
    spec_watchpoint (out.erase q) r = spec_watchpoint out r := by
  simp [spec_watchpoint, count_of_erase hq, hr]

theorem Tracks.nil : Tracks [] [] := ⟨CmpList.Sorted.nil, fun r => by simp⟩

/-- An add keeps the map tracking the outstanding requests. -/
theorem Tracks.add (ht : Tracks vm.watchpoints out) (hfit : Fits (q :: out)) :
    Tracks (WatchOp.apply vm (.add_watchpoint q)).watchpoints (q :: out) := by
  -- the entry of the range, or a new one, holds the counts called for
  have hwp : (CmpList.get compare q.range vm.watchpoints).getD Watchpoint.new =
      spec_watchpoint out q.range := by
    rw [ht.get_eq]
    split_ifs with h
    · rfl
    · exact (spec_watchpoint_of_not_mem h).symm
  refine ⟨ht.sorted.insert, fun r => ?_⟩
  change CmpList.get compare r (CmpList.insert compare q.range
    (((CmpList.get compare q.range vm.watchpoints).getD Watchpoint.new).watch (access_bits_of q.type_))
      vm.watchpoints) = _
  rw [hwp]
  by_cases hr : q.range = r
  · subst hr
    rw [CmpList.get_insert_self ht.sorted, if_pos ⟨q, List.mem_cons_self, rfl⟩, watch_spec_watchpoint hfit]
  · rw [CmpList.get_insert_of_ne ht.sorted (Ne.symm hr), ht.get_eq, spec_watchpoint_cons_of_ne hr]
    simp only [List.mem_cons, exists_eq_or_imp, hr, false_or]

/-- A matched remove keeps the map tracking the outstanding requests. -/
theorem Tracks.remove (ht : Tracks vm.watchpoints out) (hq : q ∈ out) (hfit : Fits (out.erase q)) :
    Tracks (WatchOp.apply vm (.remove_watchpoint q)).watchpoints (out.erase q) := by
  have hget : CmpList.get compare q.range vm.watchpoints = some (spec_watchpoint out q.range) := by
    rw [ht.get_eq, if_pos ⟨q, hq, rfl⟩]
  -- the other ranges keep their entries and their requests
  have hother : ∀ r, q.range ≠ r → ((∃ q' ∈ out.erase q, q'.range = r) ↔ ∃ q' ∈ out, q'.range = r) := by
    intro r hr
    simp only [exists_range_iff_total_pos, spec_watchpoint_erase_of_ne hq hr]
  have hget' : CmpList.get compare (range_for_watchpoint q.addr q.num_bytes) vm.watchpoints =
      some (spec_watchpoint out q.range) := hget
  simp only [WatchOp.apply, DebugState.remove_watchpoint, hget']
  rw [unwatch_spec_watchpoint hq hfit]
  dsimp only
  split_ifs with hz
  · -- the last reference of the range went: no request of it is left
    change Tracks (CmpList.remove compare q.range vm.watchpoints) (out.erase q)
    refine ⟨ht.sorted.remove, fun r => ?_⟩
    by_cases hr : q.range = r
    · subst hr
      rw [CmpList.get_remove_self ht.sorted, if_neg (by rw [exists_range_iff_total_pos]; omega)]
    · rw [CmpList.get_remove_of_ne ht.sorted (Ne.symm hr), ht.get_eq, spec_watchpoint_erase_of_ne hq hr]
      simp only [hother r hr]
  · change Tracks (CmpList.insert compare q.range (spec_watchpoint (out.erase q) q.range) vm.watchpoints)
      (out.erase q)
    refine ⟨ht.sorted.insert, fun r => ?_⟩
    by_cases hr : q.range = r
    · subst hr
      rw [CmpList.get_insert_self ht.sorted, if_pos (by rw [exists_range_iff_total_pos]; omega)]
    · rw [CmpList.get_insert_of_ne ht.sorted (Ne.symm hr), ht.get_eq, spec_watchpoint_erase_of_ne hq hr]
      simp only [hother r hr]

/-- One call of a sane run keeps the map tracking the outstanding requests. -/
theorem Tracks.step {op : WatchOp} {out' : List WatchRequest} (ht : Tracks vm.watchpoints out)
    (h : take_request out op = some out') (hfit : Fits out') :
    Tracks (WatchOp.apply vm op).watchpoints out' := by
  cases op with
  | add_watchpoint q =>
    obtain rfl : q :: out = out' := Option.some.inj h
    exact ht.add hfit
  | remove_watchpoint q =>
    simp only [take_request] at h
    split_ifs at h with hq
    obtain rfl := Option.some.inj h
    exact ht.remove hq hfit

/-- A sane run keeps the map tracking the outstanding requests, by induction on
the run. -/
theorem Tracks.run {ops : List WatchOp} {out' : List WatchRequest} (ht : Tracks vm.watchpoints out)
    (h : SaneRun out ops out') : Tracks (ops.foldl WatchOp.apply vm).watchpoints out' := by
  induction h generalizing vm with
  | nil => exact ht
  | cons htake hfit _ ih => exact ih (ht.step htake hfit)

end Step

/-! ## What `all_watchpoints` reports -/

theorem mem_watch_configs {c : WatchConfig} {r : MemoryRange} {w : Watchpoint} :
    c ∈ watch_configs (r, w) ↔ c.addr = r.start_ ∧ c.num_bytes = r.size ∧
      ((c.type_ = .WatchExec ∧ 0 < w.exec_count) ∨ (c.type_ = .WatchReadWrite ∧ 0 < w.read_count) ∨
        (c.type_ = .WatchWrite ∧ w.read_count = 0 ∧ 0 < w.write_count)) := by
  obtain ⟨a, n, ty⟩ := c
  simp only [watch_configs, Watchpoint.watched_bits]
  by_cases he : 0 < w.exec_count <;> by_cases hr : 0 < w.read_count <;> by_cases hw : 0 < w.write_count <;>
    cases ty <;> simp [he, hr, hw] <;> omega

/-- On a tracking map, `all_watchpoints` reports the configs of the counts
called for at each range with an outstanding request. -/
theorem mem_all_watchpoints {vm : DebugState} {out : List WatchRequest}
    (ht : Tracks vm.watchpoints out) {c : WatchConfig} :
    c ∈ vm.all_watchpoints ↔ ∃ r, (∃ q ∈ out, q.range = r) ∧ c ∈ watch_configs (r, spec_watchpoint out r) := by
  simp only [DebugState.all_watchpoints, List.mem_flatMap]
  constructor
  · rintro ⟨⟨r, w⟩, he, hc⟩
    have hget := (CmpList.get_eq_some_iff ht.sorted).2 he
    rw [ht.get_eq] at hget
    split_ifs at hget with hr
    obtain rfl := Option.some.inj hget
    exact ⟨r, hr, hc⟩
  · rintro ⟨r, hr, hc⟩
    refine ⟨(r, spec_watchpoint out r), (CmpList.get_eq_some_iff ht.sorted).1 ?_, hc⟩
    rw [ht.get_eq, if_pos hr]

/-! ## Refcounts follow the requests -/

/-- Along a run of adds and removes from no watchpoint, each remove matched by
an earlier add of the same `(addr, num_bytes, type)` and no range's counts
summing to `2 ^ 32`: the map has an entry for a range exactly when an add for it
is unmatched; its exec, read and write counts are the unmatched adds watching
each access, a `WatchReadWrite` add counting for both read and write; and
`all_watchpoints` reports a range as `WatchExec` where exec is counted, as
`WatchReadWrite` where read is, and otherwise as `WatchWrite` where write is. -/
theorem watchpoint_counts_track_unmatched_adds {bps : BreakpointState} {ops : List WatchOp}
    {out : List WatchRequest} (h : SaneRun [] ops out) :
    (∀ r, (∃ q ∈ out, q.range = r) ↔ (CmpList.get compare r (WatchOp.run bps ops).watchpoints).isSome) ∧
    (∀ r wp, CmpList.get compare r (WatchOp.run bps ops).watchpoints = some wp →
      wp.exec_count = count_of out r .WatchExec ∧ wp.read_count = count_of out r .WatchReadWrite ∧
        wp.write_count = count_of out r .WatchWrite + count_of out r .WatchReadWrite) ∧
    ∀ c, c ∈ (WatchOp.run bps ops).all_watchpoints ↔ ∃ r, (∃ q ∈ out, q.range = r) ∧
      c.addr = r.start_ ∧ c.num_bytes = r.size ∧
      ((c.type_ = .WatchExec ∧ 0 < count_of out r .WatchExec) ∨
        (c.type_ = .WatchReadWrite ∧ 0 < count_of out r .WatchReadWrite) ∨
        (c.type_ = .WatchWrite ∧ count_of out r .WatchReadWrite = 0 ∧ 0 < count_of out r .WatchWrite)) := by
  have h0 : Tracks (DebugState.mk bps []).watchpoints [] := Tracks.nil
  have ht : Tracks (WatchOp.run bps ops).watchpoints out := h0.run h
  refine ⟨fun r => ?_, fun r wp hwp => ?_, fun c => ?_⟩
  · rw [ht.get_eq]
    split_ifs with hr <;> simp [hr]
  · rw [ht.get_eq] at hwp
    split_ifs at hwp
    obtain rfl := Option.some.inj hwp
    exact ⟨rfl, rfl, rfl⟩
  · rw [mem_all_watchpoints ht]
    refine exists_congr fun r => and_congr_right fun _ => ?_
    rw [mem_watch_configs]
    simp only [spec_watchpoint]
    -- with no read-write add, the write count is that of the write adds
    refine and_congr_right fun _ => and_congr_right fun _ => or_congr_right (or_congr_right ?_)
    exact and_congr_right fun _ => ⟨fun h => ⟨h.1, by omega⟩, fun h => ⟨h.1, by omega⟩⟩

/-- The debugger's `add(RW)`, `add(W)`, `remove(RW)` on one byte. -/
def read_write_then_write : List WatchOp :=
  [.add_watchpoint ⟨0x1000, 1, .WatchReadWrite⟩, .add_watchpoint ⟨0x1000, 1, .WatchWrite⟩,
    .remove_watchpoint ⟨0x1000, 1, .WatchReadWrite⟩]

/-- After `add(RW)`, `add(W)`, `remove(RW)`, exactly the write watch is left. -/
theorem read_write_then_write_leaves_write_watch :
    SaneRun [] read_write_then_write [⟨0x1000, 1, .WatchWrite⟩] ∧
      ∀ bps c, c ∈ (WatchOp.run bps read_write_then_write).all_watchpoints ↔
        c = ⟨0x1000, 1, .WatchWrite⟩ := by
  have h : SaneRun [] read_write_then_write [⟨0x1000, 1, .WatchWrite⟩] :=
    .cons rfl (fits_of_length (by decide)) (.cons rfl (fits_of_length (by decide))
      (.cons (by decide) (fits_of_length (by decide)) (.nil _)))
  refine ⟨h, fun bps c => ?_⟩
  rw [(watchpoint_counts_track_unmatched_adds h).2.2 c]
  obtain ⟨a, n, ty⟩ := c
  cases ty <;> simp [count_of, WatchRequest.range, range_for_watchpoint, MemoryRange.new_range,
    MemoryRange.size, wrapping_add, wrapping_sub]

/-- One exec watch of the byte at `0`. -/
def exec_request : WatchRequest := ⟨0, 1, .WatchExec⟩

/-- `n` adds of `exec_request` leave `n` requests outstanding, all of them
matched. -/
theorem foldlM_take_request_replicate (n : Nat) (out : List WatchRequest) :
    (List.replicate n (WatchOp.add_watchpoint exec_request)).foldlM take_request out =
      some (List.replicate n exec_request ++ out) := by
  induction n generalizing out with
  | zero => rfl
  | succ n ih =>
    rw [List.replicate_succ, List.foldlM_cons]
    simp only [take_request, Option.bind_eq_bind, Option.bind_some, ih, List.replicate_succ',
      List.append_assoc, List.singleton_append]

/-- An add on the entry of its own range watches that entry. -/
theorem apply_add_single {bps : BreakpointState} {w : Watchpoint} (q : WatchRequest) :
    WatchOp.apply ⟨bps, [(q.range, w)]⟩ (.add_watchpoint q) =
      ⟨bps, [(q.range, w.watch (access_bits_of q.type_))]⟩ := by
  have hself : compare q.range q.range = .eq := compare_eq_iff_eq.2 rfl
  change DebugState.mk bps (CmpList.insert compare q.range (((CmpList.get compare q.range [(q.range, w)]).getD
    Watchpoint.new).watch (access_bits_of q.type_)) [(q.range, w)]) = _
  rw [CmpList.get_cons_of_eq hself, Option.getD_some, CmpList.insert_cons_of_eq hself]

/-- Each add of `exec_request` counts one more exec reference, modulo `2 ^ 32`. -/
theorem foldl_add_exec_request (bps : BreakpointState) (n k : Nat) :
    (List.replicate n (WatchOp.add_watchpoint exec_request)).foldl WatchOp.apply
        ⟨bps, [(exec_request.range, ⟨k % 2 ^ 32, 0, 0⟩)]⟩ =
      ⟨bps, [(exec_request.range, ⟨(k + n) % 2 ^ 32, 0, 0⟩)]⟩ := by
  induction n generalizing k with
  | zero => rfl
  | succ n ih =>
    rw [List.replicate_succ, List.foldl_cons, apply_add_single]
    have hwatch : (⟨k % 2 ^ 32, 0, 0⟩ : Watchpoint).watch (access_bits_of exec_request.type_) =
        ⟨(k + 1) % 2 ^ 32, 0, 0⟩ := by
      simp [Watchpoint.watch, Watchpoint.inc, exec_request, access_bits_of]
    rw [hwatch, ih, Nat.add_right_comm, Nat.add_assoc]

/-- `2 ^ 32` adds of one exec watch, none removed, wrap its exec count to `0`:
the map keeps the entry, but `all_watchpoints` reports no watch at all. -/
theorem exec_watch_count_wraps :
    (List.replicate (2 ^ 32) (WatchOp.add_watchpoint exec_request)).foldlM take_request [] =
        some (List.replicate (2 ^ 32) exec_request) ∧
      count_of (List.replicate (2 ^ 32) exec_request) exec_request.range .WatchExec = 2 ^ 32 ∧
      ∀ bps, (WatchOp.run bps (List.replicate (2 ^ 32) (.add_watchpoint exec_request))).watchpoints =
          [(exec_request.range, ⟨0, 0, 0⟩)] ∧
        (WatchOp.run bps (List.replicate (2 ^ 32) (.add_watchpoint exec_request))).all_watchpoints = [] := by
  have hrun : ∀ bps, WatchOp.run bps (List.replicate (2 ^ 32) (.add_watchpoint exec_request)) =
      ⟨bps, [(exec_request.range, ⟨0, 0, 0⟩)]⟩ := by
    intro bps
    -- the first add makes the entry, the others count on it
    have hfirst : WatchOp.apply ⟨bps, []⟩ (.add_watchpoint exec_request) =
        ⟨bps, [(exec_request.range, ⟨1 % 2 ^ 32, 0, 0⟩)]⟩ := by
      change DebugState.mk bps (CmpList.insert compare exec_request.range
        (((CmpList.get compare exec_request.range []).getD Watchpoint.new).watch
          (access_bits_of exec_request.type_)) []) = _
      simp [Watchpoint.new, Watchpoint.watch, Watchpoint.inc, exec_request, access_bits_of]
    rw [WatchOp.run, show 2 ^ 32 = (2 ^ 32 - 1) + 1 from rfl, List.replicate_succ, List.foldl_cons,
      hfirst, foldl_add_exec_request]
    rfl
  refine ⟨by rw [foldlM_take_request_replicate, List.append_nil], ?_, fun bps => ⟨by rw [hrun], ?_⟩⟩
  · rw [count_of, List.countP_replicate, if_pos (decide_eq_true ⟨rfl, rfl⟩)]
  · rw [hrun]
    rfl

end RdReplay
