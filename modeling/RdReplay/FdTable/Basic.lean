/-
  FdTable/Basic.lean --- the monitored fds of each fd table, and the
  `syscallbuf_fds_disabled` array that tells the preload library which fds not
  to buffer.

  Source: `fd_table.rs`: `FdTable::add_monitor`, `did_dup`, `did_close`,
  `clone_into_task`, `fds_to_close_after_exec`, `close_after_exec`,
  `init_syscallbuf_fds_disabled`, `update_syscallbuf_fds_disabled` and
  `is_fd_monitored_in_any_task`; `preload_interface.rs`:
  `SYSCALLBUF_FDS_DISABLED_SIZE`.

  THE TABLES.  An `FdTable` maps each monitored fd to its `FileMonitor`; the
  bookkeeping reads only which fds are monitored, so a table is the set of its
  keys and the `u32` counter of those at or above
  `SYSCALLBUF_FDS_DISABLED_SIZE`.  Tables are shared through an `Rc`, here named
  by a number.  A task is its address space and its table; the table's
  `task_set()` are the tasks whose `fd_table()` it is.  The key order of the
  `HashMap`, in which `fds_to_close_after_exec` closes, is taken ascending.

  THE ARRAY.  Each address space holds `preload_globals`, once the preload
  library has initialised; the code keeps the pointer per task, but preload
  initialisation sets it in every task of the address space, a clone copies
  its parent's, and an exec clears it with the old address space, so it is one
  flag per address space here.  `syscallbuf_fds_disabled` is tracee memory,
  written byte by byte through `write_bytes`; what `record_local` adds to the
  trace is left out.  In a replay session `update_syscallbuf_fds_disabled`
  returns at once: the array there is the one the trace recorded.
-/
import Mathlib

set_option autoImplicit false

namespace RdReplay

/-- `SYSCALLBUF_FDS_DISABLED_SIZE`. -/
def SYSCALLBUF_FDS_DISABLED_SIZE : Int := 1024

/-- `FdTable`, with the keys of `fds` and `fd_count_beyond_limit`. -/
structure FdTable where
  fds : Finset Int
  fd_count_beyond_limit : UInt32
  deriving DecidableEq

/-- What the fd bookkeeping reads of a task: `t.vm()` and `t.fd_table()`. -/
structure TaskFds where
  vm : Nat
  fd_table : Nat
  deriving DecidableEq, Repr

namespace FdTable

/-- `FdTable::create`. -/
def create : FdTable := ⟨∅, 0⟩

def is_monitoring (t : FdTable) (fd : Int) : Bool := decide (fd ∈ t.fds)

def count_beyond_limit (t : FdTable) : UInt32 := t.fd_count_beyond_limit

/-- The table's part of `add_monitor`; the `ed_assert!` that `fd` is not
monitored yet fails as `none`. -/
def add_monitor (t : FdTable) (fd : Int) : Option FdTable :=
  if t.is_monitoring fd then none
  else
    some { fds := insert fd t.fds,
           fd_count_beyond_limit :=
             if SYSCALLBUF_FDS_DISABLED_SIZE ≤ fd ∧ fd ∉ t.fds then t.fd_count_beyond_limit + 1
             else t.fd_count_beyond_limit }

/-- The table's part of `did_dup`: `to_fd` takes the monitor of `from_fd`, or
loses its own when `from_fd` has none. -/
def did_dup (t : FdTable) (from_fd to_fd : Int) : FdTable :=
  if from_fd ∈ t.fds then
    { fds := insert to_fd t.fds,
      fd_count_beyond_limit :=
        if SYSCALLBUF_FDS_DISABLED_SIZE ≤ to_fd ∧ to_fd ∉ t.fds then t.fd_count_beyond_limit + 1
        else t.fd_count_beyond_limit }
  else
    { fds := t.fds.erase to_fd,
      fd_count_beyond_limit :=
        if SYSCALLBUF_FDS_DISABLED_SIZE ≤ to_fd ∧ to_fd ∈ t.fds then t.fd_count_beyond_limit - 1
        else t.fd_count_beyond_limit }

/-- The table's part of `did_close`. -/
def did_close (t : FdTable) (fd : Int) : FdTable :=
  { fds := t.fds.erase fd,
    fd_count_beyond_limit :=
      if SYSCALLBUF_FDS_DISABLED_SIZE ≤ fd ∧ fd ∈ t.fds then t.fd_count_beyond_limit - 1
      else t.fd_count_beyond_limit }

end FdTable

/-- The slot of `syscallbuf_fds_disabled` that answers for `fd`: every fd from
`SYSCALLBUF_FDS_DISABLED_SIZE - 1` up shares the last. -/
def adjusted_fd (fd : Int) : Int :=
  if fd ≥ SYSCALLBUF_FDS_DISABLED_SIZE then SYSCALLBUF_FDS_DISABLED_SIZE - 1 else fd

/-- What the fd bookkeeping reads and writes of a session. -/
structure FdSession where
  fd_tables : Nat → FdTable
  /-- The session's tasks, in the order task sets iterate them. -/
  tasks : List TaskFds
  is_recording : Bool
  /-- Whether `preload_globals` is set in the tasks of an address space. -/
  preload_globals : Nat → Bool
  /-- `preload_globals.syscallbuf_fds_disabled` of an address space. -/
  syscallbuf_fds_disabled : Nat → Int → UInt8

/-- The calls on the fd tables, each with the table it is made on. -/
inductive FdCall where
  | add_monitor (tb : Nat) (fd : Int)
  | did_dup (tb : Nat) (from_fd to_fd : Int)
  | did_close (tb : Nat) (fd : Int)
  /-- With what `/proc/<tid>/fd` shows open after the exec. -/
  | fds_to_close_after_exec (tb : Nat) (t : TaskFds) (is_fd_open : Int → Bool)
  | close_after_exec (tb : Nat) (t : TaskFds) (fds_to_close : List Int)
  /-- `t` is the new task, and `t.fd_table` the new `Rc`. -/
  | clone_into_task (tb : Nat) (t : TaskFds)

namespace FdSession

/-- `FdTable::task_set()`. -/
def task_set (s : FdSession) (tb : Nat) : List TaskFds := s.tasks.filter fun t => t.fd_table = tb

def set_table (s : FdSession) (tb : Nat) (t : FdTable) : FdSession :=
  { s with fd_tables := Function.update s.fd_tables tb t }

/-- `write_bytes` of one byte of `syscallbuf_fds_disabled`. -/
def write_disabled (s : FdSession) (vm : Nat) (fd : Int) (v : UInt8) : FdSession :=
  { s with syscallbuf_fds_disabled :=
      Function.update s.syscallbuf_fds_disabled vm (Function.update (s.syscallbuf_fds_disabled vm) fd v) }

/-- `is_fd_monitored_in_any_task`: the fd is monitored by a task of `vm`, or it
is in the last slot and a task of `vm` monitors an fd beyond the array. -/
def is_fd_monitored_in_any_task (s : FdSession) (vm : Nat) (fd : Int) : Bool :=
  s.tasks.any fun t => decide (t.vm = vm) &&
    ((s.fd_tables t.fd_table).is_monitoring fd ||
      (decide (fd ≥ SYSCALLBUF_FDS_DISABLED_SIZE - 1) && decide ((s.fd_tables t.fd_table).count_beyond_limit > 0)))

/-- The loop of `update_syscallbuf_fds_disabled` over the table's tasks: the
first task of each address space writes the slot of `fd` there, if the preload
library has initialised.  (The source clamps its `fd` in place; clamping twice
is clamping once.) -/
def update_syscallbuf_fds_disabled_loop (fd : Int) : List TaskFds → List Nat → FdSession → FdSession
  | [], _, s => s
  | t :: rest, vms_updated, s =>
    if t.vm ∈ vms_updated then update_syscallbuf_fds_disabled_loop fd rest vms_updated s
    else
      let s :=
        if s.preload_globals t.vm then
          let fd := adjusted_fd fd
          let disable : UInt8 := if s.is_fd_monitored_in_any_task t.vm fd then 1 else 0
          s.write_disabled t.vm fd disable
        else s
      update_syscallbuf_fds_disabled_loop fd rest (t.vm :: vms_updated) s

/-- `update_syscallbuf_fds_disabled`: outside a recording the first task of the
table returns. -/
def update_syscallbuf_fds_disabled (s : FdSession) (tb : Nat) (fd : Int) : FdSession :=
  if s.is_recording then update_syscallbuf_fds_disabled_loop fd (s.task_set tb) [] s else s

def add_monitor (s : FdSession) (tb : Nat) (fd : Int) : Option FdSession :=
  ((s.fd_tables tb).add_monitor fd).map fun t => (s.set_table tb t).update_syscallbuf_fds_disabled tb fd

def did_dup (s : FdSession) (tb : Nat) (from_fd to_fd : Int) : FdSession :=
  (s.set_table tb ((s.fd_tables tb).did_dup from_fd to_fd)).update_syscallbuf_fds_disabled tb to_fd

def did_close (s : FdSession) (tb : Nat) (fd : Int) : FdSession :=
  (s.set_table tb ((s.fd_tables tb).did_close fd)).update_syscallbuf_fds_disabled tb fd

/-- `fds_to_close_after_exec`: close every monitored fd the exec closed, and
return them; `t` must use the table. -/
def fds_to_close_after_exec (s : FdSession) (tb : Nat) (t : TaskFds) (is_fd_open : Int → Bool) :
    Option (FdSession × List Int) :=
  if t ∈ s.task_set tb then
    let fds_to_close := ((s.fd_tables tb).fds.sort (· ≤ ·)).filter fun fd => !is_fd_open fd
    some (fds_to_close.foldl (fun s fd => s.did_close tb fd) s, fds_to_close)
  else none

/-- `close_after_exec`: close the fds the recording closed; `t` must use the
table. -/
def close_after_exec (s : FdSession) (tb : Nat) (t : TaskFds) (fds_to_close : List Int) :
    Option FdSession :=
  if t ∈ s.task_set tb then some (fds_to_close.foldl (fun s fd => s.did_close tb fd) s) else none

/-- `clone_into_task`: the new task gets a copy of the table, under a new
`Rc`. -/
def clone_into_task (s : FdSession) (tb : Nat) (t : TaskFds) : FdSession :=
  let file_mon : FdTable :=
    { fds := (s.fd_tables tb).fds, fd_count_beyond_limit := (s.fd_tables tb).fd_count_beyond_limit }
  { s.set_table t.fd_table file_mon with tasks := s.tasks ++ [t] }

/-- `init_syscallbuf_fds_disabled` of table `tb` for task `t`, which must use
it: the whole array of `t`'s address space, from the fds of every task there.
Indexing the array by a negative fd panics. -/
def init_syscallbuf_fds_disabled (s : FdSession) (tb : Nat) (t : TaskFds) : Option FdSession :=
  if !s.is_recording then some s
  else if t ∉ s.task_set tb then none
  else if !s.preload_globals t.vm then some s
  else
    let monitored := (s.tasks.filter fun u => u.vm = t.vm).flatMap fun u =>
      ((s.fd_tables u.fd_table).fds.sort (· ≤ ·)).map adjusted_fd
    if monitored.all (0 ≤ ·) then
      let disabled : Int → UInt8 := fun fd =>
        if 0 ≤ fd ∧ fd < SYSCALLBUF_FDS_DISABLED_SIZE then (if fd ∈ monitored then 1 else 0)
        else s.syscallbuf_fds_disabled t.vm fd
      some { s with syscallbuf_fds_disabled := Function.update s.syscallbuf_fds_disabled t.vm disabled }
    else none

/-- One call, with the fds whose slots it updates. -/
def step (s : FdSession) : FdCall → Option (FdSession × List Int)
  | .add_monitor tb fd => (s.add_monitor tb fd).map (·, [fd])
  | .did_dup tb from_fd to_fd => some (s.did_dup tb from_fd to_fd, [to_fd])
  | .did_close tb fd => some (s.did_close tb fd, [fd])
  | .fds_to_close_after_exec tb t is_fd_open => s.fds_to_close_after_exec tb t is_fd_open
  | .close_after_exec tb t fds_to_close => (s.close_after_exec tb t fds_to_close).map (·, fds_to_close)
  | .clone_into_task tb t => some (s.clone_into_task tb t, [])

end FdSession

/-- The table a call is made on. -/
def FdCall.fd_table : FdCall → Nat
  | .add_monitor tb _ | .did_dup tb _ _ | .did_close tb _ | .fds_to_close_after_exec tb _ _
  | .close_after_exec tb _ _ | .clone_into_task tb _ => tb

/-- An fd as the kernel hands it out: an `i32` at or above zero. -/
def FdCall.valid_fd (fd : Int) : Prop := 0 ≤ fd ∧ fd < 2 ^ 31

/-- The calls rd makes on a session: on fds the kernel handed out, and a
clone into a new `Rc`. -/
def FdSession.Called (s : FdSession) : FdCall → Prop
  | .add_monitor _ fd => FdCall.valid_fd fd
  | .did_dup _ _ to_fd => FdCall.valid_fd to_fd
  | .did_close _ fd => FdCall.valid_fd fd
  | .fds_to_close_after_exec _ _ _ => True
  | .close_after_exec _ _ fds_to_close => ∀ fd ∈ fds_to_close, FdCall.valid_fd fd
  | .clone_into_task _ t => ∀ u ∈ s.tasks, u.fd_table ≠ t.fd_table

/-- A session whose tables were all just created. -/
def FdSession.init (tasks : List TaskFds) (is_recording : Bool) (preload_globals : Nat → Bool)
    (syscallbuf_fds_disabled : Nat → Int → UInt8) : FdSession :=
  { fd_tables := fun _ => FdTable.create, tasks, is_recording, preload_globals, syscallbuf_fds_disabled }

/-- The sessions such calls reach. -/
inductive FdSession.Reachable : FdSession → Prop
  | init (tasks : List TaskFds) (is_recording : Bool) (preload_globals : Nat → Bool)
      (syscallbuf_fds_disabled : Nat → Int → UInt8) :
      FdSession.Reachable (FdSession.init tasks is_recording preload_globals syscallbuf_fds_disabled)
  | step {s : FdSession} {c : FdCall} {r : FdSession × List Int} :
      FdSession.Reachable s → s.Called c → s.step c = some r → FdSession.Reachable r.1

end RdReplay
