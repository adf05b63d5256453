import RespOS.Basis.Interleaving
import RespOS.Task.Scheduler

/-!
# Harts and the tasks they run

Every hart runs `run_tasks` on its idle stack: it publishes the task that was switched out last, fetches a
task and switches to it. A task runs on its own kernel stack until it hands itself back to the idle
context. `HartPc` says where a hart stands between two sections; a section is what is done under the
scheduler lock, under the processor lock, or one access to the status or the owner of a task.

Besides, any code on a hart may wake tasks, remove them from the queues, change their scheduling
attributes, and call `add_task`, `requeue_ready_task` and `wakeup_stopped_task`. These three look at the
status of the task first and take the scheduler lock afterwards; `LateOp` is such a call between the two.
A hart may be in one of them at any place, which is more than the code does.

A failed assertion leaves the hart in `HartPc.panicked`. Termination of tasks by others is not modelled:
`terminate_requested` is read but does not change.
-/

namespace RespOS.Task

open RespOS.Basis

/-- `Processor`. -/
@[ext]
structure Processor where
  current : Option Nat := none
  handoff : Option Nat := none

structure SmpState where
  tasks : Nat → TaskControlBlock
  scheduler : Scheduler := {}
  processors : Nat → Processor := fun _ ↦ {}

/-- The assertions on the way of a task through a hart. -/
inductive Assertion
  | releaseCpuOwner
  | assertCpuOwner
  | switchTo
  | handoffCurrent
  | addNotReady
  deriving DecidableEq

inductive HartPc
  /-- On the idle stack, before `publish_saved_handoff`. -/
  | idle
  /-- The handoff is taken; the status of the task is read next. -/
  | handedOff (tid : Nat)
  /-- The task was Running. -/
  | wasRunning (tid : Nat)
  /-- It has been set Ready; `add_task_before_owner_release` is next. -/
  | readied (tid : Nat)
  /-- `release_cpu_owner` is next. -/
  | releasing (tid : Nat)
  /-- Before `fetch_task`. -/
  | fetching
  /-- `fetch_task` has returned a task. -/
  | claimed (tid : Nat)
  /-- The task is current, and `__switch` is next. -/
  | switching (tid : Nat)
  /-- On the stack of the task. -/
  | running (tid : Nat)
  /-- After `prepare_current_task_blocked`, still on the stack of the task. -/
  | sleeping (tid : Nat)
  /-- The task cancels its block; `remove_task` is next. -/
  | unblocking (tid : Nat)
  /-- It has removed itself; `set_running` is next. -/
  | unblocked (tid : Nat)
  /-- The task has set itself Stopped. -/
  | stopping (tid : Nat)
  /-- The handoff is set, and `__switch` to the idle stack is next. -/
  | handing (tid : Nat)
  | panicked (assertion : Assertion)
  deriving DecidableEq

/-- A call that has looked at the status of its task and has not taken the scheduler lock yet. -/
inductive LateOp
  | addTask (tid : Nat)
  | requeue (tid : Nat)
  /-- `wakeup_stopped_task` has seen its task Stopped. -/
  | stoppedSeen (tid : Nat)
  /-- It has set it Ready. -/
  | stoppedReadied (tid : Nat)
  deriving DecidableEq

structure Hart where
  pc : HartPc := .idle
  late : Option LateOp := none
  deriving DecidableEq

inductive HartAction
  /-- The next section of `run_tasks`, or `__switch`. -/
  | advance
  | prepareBlocked
  /-- After a prepared block the task has seen itself Ready, a signal, a deadline or a ready file. -/
  | cancelBlock
  | stop
  /-- `handoff_current_to_idle`, up to the release of the processor lock. -/
  | handoff
  | wakeup (tid : Nat)
  | removeTask (tid : Nat)
  | setSched (tid policy : Nat) (priority nice : Int) (mask : Nat)
  | addTask (tid : Nat)
  | requeue (tid : Nat)
  | wakeupStopped (tid : Nat)
  /-- The late operation goes on. -/
  | late

namespace SmpState

variable (s : SmpState)

def setTask (tid : Nat) (task : TaskControlBlock) : SmpState :=
  { s with tasks := Function.update s.tasks tid task }

/-- `set_ready`, `set_running`, `set_blocked`, `set_stopped`. -/
def setStatus (tid : Nat) (status : TaskStatus) : SmpState :=
  s.setTask tid { s.tasks tid with status := status }

def setProcessor (h : Nat) (p : Processor) : SmpState :=
  { s with processors := Function.update s.processors h p }

def addTask (tid : Nat) : SmpState :=
  { s with scheduler := s.scheduler.add tid (readyQueueFor (s.tasks tid)) }

def removeTask (tid : Nat) : SmpState := { s with scheduler := s.scheduler.remove tid }

def wakeupTask (tid : Nat) : SmpState :=
  match s.scheduler.wake tid with
  | some scheduler => (({ s with scheduler := scheduler } : SmpState).setStatus tid .ready).addTask tid
  | none => s

def fetchTask (h : Nat) : SmpState × HartPc :=
  match s.scheduler.fetchForCpu s.tasks h with
  | some (tid, scheduler) =>
    match (s.tasks tid).tryClaimRunningOnCpu h with
    | some task => (({ s with scheduler := scheduler } : SmpState).setTask tid task, .claimed tid)
    | none => (({ s with scheduler := scheduler } : SmpState).addTask tid, .idle)
  | none => (s, .idle)

/-- `prepare_current_task_blocked`. -/
def prepareBlocked (tid : Nat) : SmpState :=
  { s.setStatus tid .blocked with scheduler := s.scheduler.block tid }

/-- The next section of the scheduler loop, or the switch of stacks. -/
def advance (h : Nat) : HartPc → Option (SmpState × HartPc)
  | .idle =>
    match (s.processors h).handoff with
    | some tid => some (s.setProcessor h { s.processors h with handoff := none }, .handedOff tid)
    | none => some (s, .fetching)
  | .handedOff tid =>
    some (s, if (s.tasks tid).status = .running ∧ (s.tasks tid).terminateRequested = false then
      .wasRunning tid else .releasing tid)
  | .wasRunning tid => some (s.setStatus tid .ready, .readied tid)
  | .readied tid =>
    if (s.tasks tid).status = .ready then some (s.addTask tid, .releasing tid)
    else some (s, .panicked .addNotReady)
  | .releasing tid =>
    if (s.tasks tid).cpuOwner = some h then
      some (s.setTask tid { s.tasks tid with cpuOwner := none }, .fetching)
    else some (s, .panicked .releaseCpuOwner)
  | .fetching => some (s.fetchTask h)
  | .claimed tid =>
    if (s.tasks tid).cpuOwner ≠ some h then some (s, .panicked .assertCpuOwner)
    else if (s.processors h).current ≠ none then some (s, .panicked .switchTo)
    else some (s.setProcessor h { s.processors h with current := some tid }, .switching tid)
  | .switching tid => some (s, .running tid)
  | .unblocking tid => some (s.removeTask tid, .unblocked tid)
  | .unblocked tid => some (s.setStatus tid .running, .running tid)
  | .handing _ => some (s, .idle)
  | _ => none

/-- `Processor::handoff_current`. -/
def handoffCurrent (h tid : Nat) : SmpState × HartPc :=
  if (s.processors h).current = some tid ∧ (s.processors h).handoff = none then
    (s.setProcessor h { current := none, handoff := some tid }, .handing tid)
  else (s, .panicked .handoffCurrent)

/-- The section with which a late operation goes on. -/
def late : LateOp → SmpState × Option LateOp
  | .addTask tid => (s.addTask tid, none)
  | .requeue tid => ((s.removeTask tid).addTask tid, none)
  | .stoppedSeen tid => (s.setStatus tid .ready, some (.stoppedReadied tid))
  | .stoppedReadied tid => (s.addTask tid, none)

end SmpState

def hartSection (h : Nat) (a : HartAction) (s : SmpState) (l : Hart) : Option (SmpState × Hart) :=
  match a with
  | .advance => (s.advance h l.pc).map fun r ↦ (r.1, { l with pc := r.2 })
  | .prepareBlocked =>
    match l.pc with
    | .running tid => some (s.prepareBlocked tid, { l with pc := .sleeping tid })
    | _ => none
  | .cancelBlock =>
    match l.pc with
    | .sleeping tid => some (s, { l with pc := .unblocking tid })
    | _ => none
  | .stop =>
    match l.pc with
    | .running tid => some (s.setStatus tid .stopped, { l with pc := .stopping tid })
    | _ => none
  | .handoff =>
    match l.pc with
    | .running tid => some ((s.handoffCurrent h tid).1, { l with pc := (s.handoffCurrent h tid).2 })
    | .sleeping tid => some ((s.handoffCurrent h tid).1, { l with pc := (s.handoffCurrent h tid).2 })
    | .stopping tid => some ((s.handoffCurrent h tid).1, { l with pc := (s.handoffCurrent h tid).2 })
    | _ => none
  | .wakeup tid => some (s.wakeupTask tid, l)
  | .removeTask tid => some (s.removeTask tid, l)
  | .setSched tid policy priority nice mask =>
    some (s.setTask tid { s.tasks tid with
      schedPolicy := policy, schedPriority := priority, nice := nice, cpuAffinityMask := mask }, l)
  | .addTask tid =>
    if l.late ≠ none then none
    else if (s.tasks tid).status = .ready then some (s, { l with late := some (.addTask tid) })
    else some (s, { l with pc := .panicked .addNotReady })
  | .requeue tid =>
    if l.late ≠ none then none
    else some (s, { l with late := if (s.tasks tid).status = .ready then some (.requeue tid) else none })
  | .wakeupStopped tid =>
    if l.late ≠ none then none
    else some (s, { l with
      late := if (s.tasks tid).status = .stopped then some (.stoppedSeen tid) else none })
  | .late => l.late.map fun op ↦ ((s.late op).1, { l with late := (s.late op).2 })

/-- Before the first task is added: nothing is queued or blocked, no task has an owner, and every hart is
on its idle stack. -/
structure SmpInit (c : Config SmpState Hart) : Prop where
  scheduler : c.shared.scheduler = {}
  processors : ∀ h, c.shared.processors h = {}
  owner : ∀ tid, (c.shared.tasks tid).cpuOwner = none
  hart : ∀ h, c.thread h = {}

end RespOS.Task
