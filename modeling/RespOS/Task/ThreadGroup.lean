import RespOS.Basis.Runs
import RespOS.Task.Scheduler

/-!
# The threads of one process

A process has the task control blocks that `clone_` has made for it. Each of them runs its own code: it
makes further threads, leaves by `task_exit`, ends the process by `exit_process_group` or replaces it by
`execve`. `Pc` says which statement of these a thread executes next, and `statement` what that statement
does, as one `GroupEffect` on what the threads share: the thread group, `TASK_MANAGER`, the structures of
the scheduler, the status of the tasks and the lifecycle of the process. What a thread does elsewhere is
`Pc.user`; there it may block. Where a task stands on its way through a processor is its `Cpu`, and any
thread may be taken off its processor between any two statements.

The tables are keyed by tid: an insertion displaces the task of the same tid, a removal by tid takes
whichever task has it. Tids are not used again, but after `execve` the caller has that of the process,
which another task had before.

A failed assertion is the end of the run. Stopping and continuing by signals, changes of the scheduling
attributes, and the failing paths of `sys_clone` after `clone_` are left out.
-/

namespace RespOS.Task

open RespOS.Basis

/-- `ProcessLifecycle`. -/
inductive Lifecycle
  | running
  | exec
  | exiting
  | zombie
  | reaped
  deriving DecidableEq

/-- Where a task stands on its way through a processor; it has an owner unless it is `off`. -/
inductive Cpu
  | off
  | on
  /-- Switched out; `publish_saved_handoff` reads the status next. -/
  | handing
  /-- The task was Running and not to be terminated; `set_ready` is next. -/
  | wasRunning
  /-- The assertion of `add_task_before_owner_release` is next. -/
  | readied
  /-- The insertion in the ready queue is next. -/
  | adding
  /-- `release_cpu_owner` is next. -/
  | releasing
  deriving DecidableEq

/-- Who stops the other threads. -/
inductive Teardown
  | exit
  | exec
  deriving DecidableEq

inductive Pc
  /-- Anything else. -/
  | user
  /-- After `prepare_current_task_blocked`. -/
  | sleeping
  /-- The wait is over before the switch: `set_running` is next, after `remove_task`. -/
  | unblocked
  /-- In `clone_`, after the insertion in the thread group: `TASK_MANAGER.add`. -/
  | cloned (child : Nat)
  /-- The assertion of `add_task`. -/
  | managed (child : Nat)
  /-- The insertion of `add_task` in the ready queue. -/
  | adding (child : Nat)
  /-- In `task_exit`, with the lock of the thread group: the removal from it. -/
  | leaveChecked
  /-- In `exit_thread_inner`: `remove_task`. -/
  | leaving
  /-- `set_exited`. -/
  | leavingStatus
  /-- `TASK_MANAGER.remove`. -/
  | leavingManager
  /-- In `switch_to_next_task_after_exit`. -/
  | done
  /-- In `exit_process_group`: `begin_exit`. -/
  | exitBegin
  /-- In the loop of a caller that is not the owner of the exit. -/
  | losing
  /-- After that loop. -/
  | lost
  /-- The store of `group_exiting`. -/
  | mark
  /-- The snapshot of the thread group. -/
  | exitSnapshot
  /-- `request_termination` of the next sibling: the store of `terminate_requested`. -/
  | terminate (k : Teardown) (all rest : List Nat)
  /-- `request_termination`: `set_exited`. -/
  | terminateStatus (k : Teardown) (all : List Nat) (t : Nat) (rest : List Nat)
  /-- `remove_task` of that sibling. -/
  | terminateRemove (k : Teardown) (all : List Nat) (t : Nat) (rest : List Nat)
  /-- `has_cpu_owner` of the next sibling. -/
  | wait (k : Teardown) (all rest : List Nat)
  /-- `cleanup_exiting_thread` of the next thread: `remove_task`. -/
  | exitClean (all : List Nat) (leader : Nat) (rest : List Nat)
  /-- `set_exited` of a thread that is not the leader. -/
  | exitCleanStatus (all : List Nat) (leader t : Nat) (rest : List Nat)
  /-- `TASK_MANAGER.remove` of that thread. -/
  | exitCleanManager (all : List Nat) (leader t : Nat) (rest : List Nat)
  /-- `cleanup_exiting_thread` of a leader that was not in the snapshot. -/
  | exitCleanLeader (leader : Nat)
  /-- The thread group is cleared. -/
  | clear (leader : Nat)
  /-- `recycle_data_pages`. -/
  | recycle (leader : Nat)
  /-- `publish_zombie`. -/
  | publish (leader : Nat)
  /-- `leader.set_exited`. -/
  | exitLeader (leader : Nat)
  /-- `TASK_MANAGER.remove` of the leader. -/
  | removeLeader (leader : Nat)
  /-- In `close_other_threads_for_exec`: the snapshot. -/
  | execSnapshot
  /-- `cleanup_exiting_thread` of the next sibling: `remove_task`. -/
  | execClean (rest : List Nat)
  /-- `set_exited`. -/
  | execCleanStatus (t : Nat) (rest : List Nat)
  /-- The removal from the thread group. -/
  | execCleanGroup (t : Nat) (rest : List Nat)
  /-- `TASK_MANAGER.remove`. -/
  | execCleanManager (t : Nat) (rest : List Nat)
  /-- In `adopt_process_tgid_for_exec`: `TASK_MANAGER.remove` of the old tid. -/
  | adoptManager
  /-- The removal of the old tid from the thread group. -/
  | adoptGroup
  /-- The new tid. -/
  | adoptTid
  /-- The insertion in the thread group. -/
  | adoptInsert
  /-- `TASK_MANAGER.add`. -/
  | adoptManage
  /-- `finish_exec`. -/
  | execFinish
  deriving DecidableEq

/-- A task control block and what refers to it. -/
structure GroupTask where
  tid : Nat
  status : TaskStatus
  terminateRequested : Bool
  cpu : Cpu
  pc : Pc
  /-- In a ready queue. -/
  ready : Bool
  /-- In `blocked_tasks`. -/
  blocked : Bool
  /-- In the thread group. -/
  inGroup : Bool
  /-- In `TASK_MANAGER`. -/
  managed : Bool

/-- A process with its tasks, of which the first `count` have been made. -/
structure GroupWorld where
  tgid : Nat
  lifecycle : Lifecycle
  groupExiting : Bool
  /-- The thread that holds the lock of the thread group between two statements. -/
  groupLock : Option Nat
  /-- The next tid that has not been given out. -/
  nextTid : Nat
  count : Nat
  tasks : Nat → GroupTask

inductive GroupEffect
  | none
  | lifecycle (l : Lifecycle)
  | markExiting
  /-- The thread leaves the thread group and releases its lock. -/
  | leave
  | requestTermination (t : Nat)
  | setExited (t : Nat)
  | setRunning
  | removeTask (tid : Nat)
  | ungroup (tid : Nat)
  | unmanage (tid : Nat)
  | clearGroup
  | group (t : Nat)
  | manage (t : Nat)
  | enqueue (t : Nat)
  | block
  | adoptTid
  deriving DecidableEq

namespace GroupWorld

/-- What an effect of the thread `o` does to the task `x`. -/
def act (w : GroupWorld) (o : Nat) (e : GroupEffect) (x : Nat) (task : GroupTask) : GroupTask :=
  match e with
  | .none | .lifecycle _ | .markExiting => task
  | .leave => if task.tid = (w.tasks o).tid then { task with inGroup := false } else task
  | .requestTermination t => if x = t then { task with terminateRequested := true } else task
  | .setExited t => if x = t then { task with status := .exited } else task
  | .setRunning => if x = o then { task with status := .running } else task
  | .removeTask tid =>
    if task.tid = tid then { task with ready := false, blocked := false } else task
  | .ungroup tid => if task.tid = tid then { task with inGroup := false } else task
  | .unmanage tid => if task.tid = tid then { task with managed := false } else task
  | .clearGroup => { task with inGroup := false }
  | .group t =>
    if x = t then { task with inGroup := true }
    else if task.tid = (w.tasks t).tid then { task with inGroup := false } else task
  | .manage t =>
    if x = t then { task with managed := true }
    else if task.tid = (w.tasks t).tid then { task with managed := false } else task
  | .enqueue t =>
    if x = t then { task with ready := true }
    else if task.tid = (w.tasks t).tid then { task with ready := false } else task
  | .block =>
    if x = o then { task with blocked := true }
    else if task.tid = (w.tasks o).tid then { task with blocked := false } else task
  | .adoptTid => if x = o then { task with tid := w.tgid } else task

def perform (w : GroupWorld) (o : Nat) (e : GroupEffect) : GroupWorld :=
  { w with
    lifecycle := match e with
      | .lifecycle l => l
      | _ => w.lifecycle
    groupExiting := match e with
      | .markExiting => true
      | _ => w.groupExiting
    groupLock := match e with
      | .leave => none
      | _ => w.groupLock
    tasks := fun x ↦ w.act o e x (w.tasks x) }

def modify (w : GroupWorld) (o : Nat) (f : GroupTask → GroupTask) : GroupWorld :=
  { w with tasks := Function.update w.tasks o (f (w.tasks o)) }

def setPc (w : GroupWorld) (o : Nat) (pc : Pc) : GroupWorld :=
  w.modify o fun task ↦ { task with pc := pc }

def setCpu (w : GroupWorld) (o : Nat) (cpu : Cpu) : GroupWorld :=
  w.modify o fun task ↦ { task with cpu := cpu }

def members (w : GroupWorld) : List Nat := (List.range w.count).filter fun x ↦ (w.tasks x).inGroup

def others (w : GroupWorld) (o : Nat) (l : List Nat) : List Nat :=
  l.filter fun x ↦ (w.tasks x).tid ≠ (w.tasks o).tid

/-- The thread of a snapshot with the tid of the process, or else the caller. -/
def leaderOf (w : GroupWorld) (o : Nat) (all : List Nat) : Nat :=
  (all.find? fun x ↦ (w.tasks x).tid = w.tgid).getD o

/-- The next statement of the thread `o`: its effect and the statement after it. -/
def statement (w : GroupWorld) (o : Nat) : Pc → Option (GroupEffect × Pc)
  | .user | .done | .lost => none
  | .sleeping => if (w.tasks o).status = .running then some (.none, .user) else none
  | .unblocked => some (.setRunning, .user)
  | .cloned c => some (.manage c, .managed c)
  | .managed c => if (w.tasks c).status = .ready then some (.none, .adding c) else none
  | .adding c => some (.enqueue c, .user)
  | .leaveChecked => some (.leave, .leaving)
  | .leaving => some (.removeTask (w.tasks o).tid, .leavingStatus)
  | .leavingStatus => some (.setExited o, .leavingManager)
  | .leavingManager => some (.unmanage (w.tasks o).tid, .done)
  | .exitBegin =>
    if w.lifecycle = .running then some (.lifecycle .exiting, .mark) else some (.none, .losing)
  | .losing =>
    some (.none, if (w.tasks o).status = .exited ∨ w.lifecycle = .zombie ∨ w.lifecycle = .reaped
      then .lost else .losing)
  | .mark => some (.markExiting, .exitSnapshot)
  | .exitSnapshot =>
    if w.groupLock = none then
      some (.none, .terminate .exit w.members (w.others o w.members))
    else none
  | .terminate k all [] => some (.none, .wait k all (w.others o all))
  | .terminate k all (t :: rest) => some (.requestTermination t, .terminateStatus k all t rest)
  | .terminateStatus k all t rest => some (.setExited t, .terminateRemove k all t rest)
  | .terminateRemove k all t rest => some (.removeTask (w.tasks t).tid, .terminate k all rest)
  | .wait k all (t :: rest) =>
    -- one sibling with an owner and the loop starts again, after a yield
    some (.none, .wait k all (if (w.tasks t).cpu = .off then rest else w.others o all))
  | .wait .exit all [] => some (.none, .exitClean all (w.leaderOf o all) all)
  | .wait .exec all [] => some (.none, .execClean all)
  | .exitClean all leader [] =>
    some (.none, if all.any (fun x ↦ (w.tasks x).tid = (w.tasks leader).tid) then .clear leader
      else .exitCleanLeader leader)
  | .exitClean all leader (t :: rest) =>
    some (.removeTask (w.tasks t).tid, if (w.tasks t).tid = (w.tasks leader).tid
      then .exitClean all leader rest else .exitCleanStatus all leader t rest)
  | .exitCleanStatus all leader t rest => some (.setExited t, .exitCleanManager all leader t rest)
  | .exitCleanManager all leader t rest =>
    some (.unmanage (w.tasks t).tid, .exitClean all leader rest)
  | .exitCleanLeader leader => some (.removeTask (w.tasks leader).tid, .clear leader)
  | .clear leader => if w.groupLock = none then some (.clearGroup, .recycle leader) else none
  | .recycle leader => some (.none, .publish leader)
  | .publish leader => some (.lifecycle .zombie, .exitLeader leader)
  | .exitLeader leader => some (.setExited leader, .removeLeader leader)
  | .removeLeader leader => some (.unmanage (w.tasks leader).tid, .done)
  | .execSnapshot =>
    if w.groupLock = none then
      some (.none, .terminate .exec (w.others o w.members) (w.others o w.members))
    else none
  | .execClean [] =>
    some (.none, if (w.tasks o).tid = w.tgid then .execFinish else .adoptManager)
  | .execClean (t :: rest) => some (.removeTask (w.tasks t).tid, .execCleanStatus t rest)
  | .execCleanStatus t rest => some (.setExited t, .execCleanGroup t rest)
  | .execCleanGroup t rest =>
    if w.groupLock = none then some (.ungroup (w.tasks t).tid, .execCleanManager t rest) else none
  | .execCleanManager t rest => some (.unmanage (w.tasks t).tid, .execClean rest)
  | .adoptManager => some (.unmanage (w.tasks o).tid, .adoptGroup)
  | .adoptGroup =>
    if w.groupLock = none then some (.ungroup (w.tasks o).tid, .adoptTid) else none
  | .adoptTid => some (.adoptTid, .adoptInsert)
  | .adoptInsert => if w.groupLock = none then some (.group o, .adoptManage) else none
  | .adoptManage => some (.manage o, .execFinish)
  | .execFinish => some (.lifecycle .running, .user)

end GroupWorld

/-! ### Steps -/

inductive GroupLabel
  /-- A processor fetches the task. -/
  | claim (o : Nat)
  /-- The task is switched out. -/
  | handoff (o : Nat)
  /-- The next section of `publish_saved_handoff` for the task. -/
  | publish (o : Nat)
  /-- `prepare_current_task_blocked`. -/
  | block (o : Nat)
  /-- `remove_task` by a blocked task that finds its wait over. -/
  | unblock (o : Nat)
  /-- `wakeup_task`. -/
  | wakeup (o : Nat)
  /-- `clone_` with `CLONE_THREAD`, up to the insertion in the thread group. -/
  | clone (o tid : Nat)
  /-- `task_exit`, the test under the lock of the thread group. -/
  | taskExit (o : Nat)
  /-- A call of `exit_process_group`. -/
  | groupExit (o : Nat)
  /-- `begin_exec`. -/
  | beginExec (o : Nat)
  /-- The next statement of the thread. -/
  | step (o : Nat)
  /-- `mark_reaped`, by the parent. -/
  | reap

namespace GroupWorld

def childTask (tid : Nat) : GroupTask where
  tid := tid
  status := .ready
  terminateRequested := false
  cpu := .off
  pc := .user
  ready := false
  blocked := false
  inGroup := true
  managed := false

def At (w : GroupWorld) (o : Nat) (pc : Pc) : Prop := (w.tasks o).cpu = .on ∧ (w.tasks o).pc = pc

instance (w : GroupWorld) (o : Nat) (pc : Pc) : Decidable (w.At o pc) :=
  inferInstanceAs (Decidable (_ ∧ _))

def next (w : GroupWorld) : GroupLabel → Option GroupWorld
  | .claim o =>
    if (w.tasks o).ready = true ∧ (w.tasks o).status = .ready ∧
        (w.tasks o).terminateRequested = false ∧ (w.tasks o).cpu = .off then
      some (w.modify o fun task ↦ { task with status := .running, cpu := .on, ready := false })
    else none
  | .handoff o => if (w.tasks o).cpu = .on then some (w.setCpu o .handing) else none
  | .publish o =>
    match (w.tasks o).cpu with
    | .handing =>
      some (w.setCpu o (if (w.tasks o).status = .running ∧ (w.tasks o).terminateRequested = false
        then .wasRunning else .releasing))
    | .wasRunning => some (w.modify o fun task ↦ { task with status := .ready, cpu := .readied })
    | .readied => if (w.tasks o).status = .ready then some (w.setCpu o .adding) else none
    | .adding => some ((w.perform o (.enqueue o)).setCpu o .releasing)
    | .releasing => some (w.setCpu o .off)
    | .off | .on => none
  | .block o =>
    if w.At o .user then
      some ((w.perform o .block).modify o fun task ↦
        { task with status := .blocked, pc := .sleeping })
    else none
  | .unblock o =>
    if w.At o .sleeping then
      some ((w.perform o (.removeTask (w.tasks o).tid)).setPc o .unblocked)
    else none
  | .wakeup o =>
    if (w.tasks o).blocked = true then
      some ((w.modify o fun task ↦ { task with status := .ready, blocked := false }).perform o
        (.enqueue o))
    else none
  | .clone o tid =>
    if w.At o .user ∧ w.nextTid ≤ tid ∧ w.groupLock = none then
      some { (w.setPc o (.cloned w.count)) with
        nextTid := tid + 1
        count := w.count + 1
        tasks := Function.update (w.setPc o (.cloned w.count)).tasks w.count (childTask tid) }
    else none
  | .taskExit o =>
    if w.At o .user ∧ w.groupLock = none then
      if w.groupExiting = true ∨ w.lifecycle ≠ .running ∨ w.members.length = 1 then
        some (w.setPc o .exitBegin)
      else some { w.setPc o .leaveChecked with groupLock := some o }
    else none
  | .groupExit o => if w.At o .user then some (w.setPc o .exitBegin) else none
  | .beginExec o =>
    if w.At o .user ∧ w.lifecycle = .running then
      some { w.setPc o .execSnapshot with lifecycle := .exec }
    else none
  | .step o =>
    if (w.tasks o).cpu = .on then
      (w.statement o (w.tasks o).pc).map fun r ↦ (w.perform o r.1).setPc o r.2
    else none
  | .reap => if w.lifecycle = .zombie then some { w with lifecycle := .reaped } else none

abbrev Step (w : GroupWorld) (l : GroupLabel) (w' : GroupWorld) : Prop := w.next l = some w'

def start (tgid : Nat) : GroupWorld where
  tgid := tgid
  lifecycle := .running
  groupExiting := false
  groupLock := none
  nextTid := tgid + 1
  count := 1
  tasks x := if x = 0 then { childTask tgid with ready := true, managed := true }
    else { childTask 0 with inGroup := false }

def Init (w : GroupWorld) : Prop := ∃ tgid, w = start tgid

end GroupWorld

end RespOS.Task
