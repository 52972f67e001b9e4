/-
  Scheduler/Basic.lean --- where the recording scheduler keeps its tasks: a
  set ordered by priority, and a round-robin queue.

  Source: `scheduler.rs`: `Scheduler::on_create_task`, `on_destroy_task`,
  `schedule_one_round_robin`, `maybe_pop_round_robin_task` and
  `update_task_priority_internal`; `priority_tup.rs`: `PriorityTup`.

  THE TASKS are named by their `Rc` (a number here), and the scheduler reads
  and writes four fields of each: `priority`, `stable_serial`,
  `in_round_robin_queue` and `stable_exit`.  A `PriorityTup` also holds a weak
  pointer to its task, but compares and tests equal by priority and stable
  serial alone; so `task_priority_set` is a map from that pair to the task.
  `BTreeSet::insert` of an element equal to one present keeps the present one
  (`set_insert`).

  WHAT IS LEFT OUT.  `current_`, the assertion that
  `schedule_one_round_robin` is called on it, and the timeslice it expires;
  `in_exec_tgid`.  The random priority chaos mode gives a new task is a
  parameter of the call.

  `Called` says which calls rd makes: each is on a live task, and a task is
  created once, with a stable serial no live task has.  `Reachable`
  are the states such calls reach from a new scheduler.
-/
import RdReplay.Lib.CmpListOrder

set_option autoImplicit false

namespace RdReplay

/-- `RecordTask`, with the fields the scheduler reads and writes. -/
structure RecordTask where
  priority : Int
  stable_serial : Nat
  in_round_robin_queue : Bool
  stable_exit : Bool
  deriving DecidableEq, Repr

/-- `PriorityTup`, without the weak pointer its order and equality ignore. -/
structure PriorityTup where
  priority : Int
  stable_serial : Nat
  deriving DecidableEq, Repr

/-- `Ord for PriorityTup`: by priority, then by stable serial. -/
instance : LinearOrder PriorityTup :=
  LinearOrder.lift' (fun p => toLex (p.priority, p.stable_serial)) (by
    intro a b h
    cases a
    cases b
    simp_all)

/-- The `PriorityTup` of a task. -/
def RecordTask.tup (t : RecordTask) : PriorityTup := ⟨t.priority, t.stable_serial⟩

/-- The scheduler's bookkeeping of its tasks. -/
structure Scheduler where
  /-- The live tasks, by their `Rc`. -/
  tasks : List (Nat × RecordTask)
  /-- `BTreeSet<PriorityTup>`, each element with the task its weak pointer names. -/
  task_priority_set : List (PriorityTup × Nat)
  /-- `VecDeque<TaskSharedWeakPtr>`, front first. -/
  task_round_robin_queue : List Nat
  enable_chaos : Bool
  deriving DecidableEq, Repr

/-- The calls the scheduler's bookkeeping answers, with the task each is on. -/
inductive SchedulerCall where
  /-- `on_create_task` of a new task with these fields; the last is the random
  priority chaos mode would give it. -/
  | on_create_task (id : Nat) (priority : Int) (stable_serial : Nat) (stable_exit : Bool)
      (random_priority : Int)
  | on_destroy_task (id : Nat)
  | schedule_one_round_robin (id : Nat)
  /-- `maybe_pop_round_robin_task`, as `get_next_thread` makes it. -/
  | maybe_pop_round_robin_task (id : Nat)
  | update_task_priority_internal (id : Nat) (value : Int)
  deriving DecidableEq, Repr

namespace Scheduler

/-- `Scheduler::new`. -/
def new (enable_chaos : Bool) : Scheduler :=
  { tasks := [], task_priority_set := [], task_round_robin_queue := [], enable_chaos }

/-- The live task `id`, if any. -/
def task (s : Scheduler) (id : Nat) : Option RecordTask := CmpList.get compare id s.tasks

/-- Write the fields of task `id`. -/
def set_task (s : Scheduler) (id : Nat) (t : RecordTask) : Scheduler :=
  { s with tasks := CmpList.insert compare id t s.tasks }

/-- `BTreeSet::insert`: an element equal to one present is not added. -/
def set_insert (set : List (PriorityTup × Nat)) (k : PriorityTup) (id : Nat) : List (PriorityTup × Nat) :=
  match CmpList.get compare k set with
  | none => CmpList.insert compare k id set
  | some _ => set

/-- `on_create_task`: a new task goes into the priority set. -/
def on_create_task (s : Scheduler) (id : Nat) (priority : Int) (stable_serial : Nat)
    (stable_exit : Bool) (random_priority : Int) : Scheduler :=
  -- new tasks get a random priority in chaos mode
  let priority := if s.enable_chaos then random_priority else priority
  let t : RecordTask := { priority, stable_serial, in_round_robin_queue := false, stable_exit }
  { s.set_task id t with task_priority_set := set_insert s.task_priority_set t.tup id }

/-- `on_destroy_task`: the task leaves the queue or the set, whichever its flag
names, and is gone. -/
def on_destroy_task (s : Scheduler) (id : Nat) : Option Scheduler :=
  match s.task id with
  | none => none
  | some t =>
    let s :=
      if t.in_round_robin_queue then
        { s with task_round_robin_queue := s.task_round_robin_queue.erase id }
      else { s with task_priority_set := CmpList.remove compare t.tup s.task_priority_set }
    some { s with tasks := CmpList.remove compare id s.tasks }

/-- `maybe_pop_round_robin_task`: a task at the front of the queue goes back
into the priority set, under the priority it has now. -/
def maybe_pop_round_robin_task (s : Scheduler) (id : Nat) : Option Scheduler :=
  match s.task id with
  | none => none
  | some t =>
    match s.task_round_robin_queue with
    | [] => some s
    | front :: rest =>
      if front = id then
        let t := { t with in_round_robin_queue := false }
        some { s.set_task id t with
          task_round_robin_queue := rest,
          task_priority_set := set_insert s.task_priority_set t.tup id }
      else some s

/-- The loop of `schedule_one_round_robin` over `task_priority_set`: every task
of it but `id` that is not queued joins the back of the queue;
`w.upgrade().unwrap()` panics on a dead task. -/
def move_to_queue (id : Nat) (s : Scheduler) : List (PriorityTup × Nat) → Option Scheduler
  | [] => some s
  | (_, w) :: rest =>
    match s.task w with
    | none => none
    | some tt =>
      if w ≠ id ∧ tt.in_round_robin_queue = false then
        move_to_queue id
          { s.set_task w { tt with in_round_robin_queue := true } with
            task_round_robin_queue := s.task_round_robin_queue ++ [w] } rest
      else move_to_queue id s rest

/-- `schedule_one_round_robin`: pop the task if it is at the front, move the
whole priority set to the queue, and put the task last. -/
def schedule_one_round_robin (s : Scheduler) (id : Nat) : Option Scheduler := do
  let s ← s.maybe_pop_round_robin_task id
  let t ← s.task id
  -- `ed_assert!(t, !t.in_round_robin_queue.get())`
  if t.in_round_robin_queue then none
  else
    let s ← move_to_queue id s s.task_priority_set
    let t ← s.task id
    pure { s.set_task id { t with in_round_robin_queue := true } with
      task_priority_set := [],
      task_round_robin_queue := s.task_round_robin_queue ++ [id] }

/-- `update_task_priority_internal`: a queued task only changes its field; a
task in the set is taken out under its old priority and put back under the new
one. -/
def update_task_priority_internal (s : Scheduler) (id : Nat) (value : Int) : Option Scheduler :=
  match s.task id with
  | none => none
  | some t =>
    -- tasks in a stable exit have the highest priority
    let value := if t.stable_exit ∧ s.enable_chaos = false then -9999 else value
    if t.priority = value then some s
    else if t.in_round_robin_queue then some (s.set_task id { t with priority := value })
    else
      let set := CmpList.remove compare t.tup s.task_priority_set
      let t := { t with priority := value }
      some { s.set_task id t with task_priority_set := set_insert set t.tup id }

/-- One call. -/
def step (s : Scheduler) : SchedulerCall → Option Scheduler
  | .on_create_task id priority stable_serial stable_exit random_priority =>
    some (s.on_create_task id priority stable_serial stable_exit random_priority)
  | .on_destroy_task id => s.on_destroy_task id
  | .schedule_one_round_robin id => s.schedule_one_round_robin id
  | .maybe_pop_round_robin_task id => s.maybe_pop_round_robin_task id
  | .update_task_priority_internal id value => s.update_task_priority_internal id value

/-- The calls rd makes: on a live task, or creating a task under a new name and
a stable serial no live task has. -/
def Called (s : Scheduler) : SchedulerCall → Prop
  | .on_create_task id _ stable_serial _ _ =>
    s.task id = none ∧ ∀ e ∈ s.tasks, e.2.stable_serial ≠ stable_serial
  | .on_destroy_task id | .schedule_one_round_robin id | .maybe_pop_round_robin_task id
  | .update_task_priority_internal id _ => (s.task id).isSome

instance (s : Scheduler) (c : SchedulerCall) : Decidable (s.Called c) := by
  cases c <;> unfold Called <;> infer_instance

end Scheduler

/-- The states a new scheduler reaches by calls on live tasks. -/
inductive Scheduler.Reachable (enable_chaos : Bool) : Scheduler → Prop
  | new : Scheduler.Reachable enable_chaos (Scheduler.new enable_chaos)
  | step {s s' : Scheduler} {c : SchedulerCall} :
      Scheduler.Reachable enable_chaos s → s.Called c → s.step c = some s' →
      Scheduler.Reachable enable_chaos s'

end RdReplay
