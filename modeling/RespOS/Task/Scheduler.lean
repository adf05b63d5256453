import Mathlib

/-!
# The ready queues

The scheduler keeps the tasks that can run in queues, one for every real-time priority, one for every
nice value and one for `SCHED_IDLE`; `task_index` says in which queue a task is, and `blocked_tasks` holds
the tasks that wait. All of it is behind one lock, and the operations here are what is done under it. The
status of a task, its owner and its scheduling attributes are in the task itself, with locks of their own.

`Scheduler.Indexed` says that the index and the queues agree: a task is in the queue that the index names,
once, and in no other. Every operation keeps it.

The bitmaps of the nonempty queues are left out: `fetch_for_cpu` uses them to skip empty queues only.
-/

namespace RespOS.Task

open Function (update update_eq_self update_idem update_of_ne update_self)
open List

inductive TaskStatus
  | ready
  | running
  | blocked
  | stopped
  | exited
  deriving DecidableEq

inductive ReadyQueue
  | rt (idx : Nat)
  | normal (idx : Nat)
  | idle
  deriving DecidableEq

/-- What the scheduler reads of a `TaskControlBlock`. -/
structure TaskControlBlock where
  status : TaskStatus := .ready
  cpuOwner : Option Nat := none
  terminateRequested : Bool := false
  schedPolicy : Nat := 0
  schedPriority : Int := 0
  nice : Int := 0
  cpuAffinityMask : Nat := 2 ^ 64 - 1

def schedFifo : Nat := 1
def schedRr : Nat := 2
def schedIdle : Nat := 5

def clamp (lo hi x : Int) : Int := max lo (min hi x)

def readyQueueFor (task : TaskControlBlock) : ReadyQueue :=
  if task.schedPolicy = schedFifo ∨ task.schedPolicy = schedRr then
    .rt (clamp 1 99 task.schedPriority).toNat
  else if task.schedPolicy = schedIdle then .idle
  else .normal (clamp (-20) 19 task.nice + 20).toNat

namespace TaskControlBlock

variable (task : TaskControlBlock)

def canBeClaimedOnCpu (cpu : Nat) : Bool :=
  decide (cpu < 64) && task.cpuAffinityMask.testBit cpu && !task.terminateRequested &&
    decide (task.cpuOwner = none)

/-- `try_claim_running_on_cpu`: the claimed task. -/
def tryClaimRunningOnCpu (cpu : Nat) : Option TaskControlBlock :=
  if task.status ≠ .ready ∨ task.terminateRequested = true then none
  else if task.cpuOwner ≠ none then none
  else some { task with status := .running, cpuOwner := some cpu }

theorem tryClaimRunningOnCpu_eq_some {cpu : Nat} {task' : TaskControlBlock}
    (h : task.tryClaimRunningOnCpu cpu = some task') : task.status = .ready ∧ task.cpuOwner = none ∧
      task' = { task with status := .running, cpuOwner := some cpu } := by
  unfold tryClaimRunningOnCpu at h
  split_ifs at h with hstatus howner
  push Not at hstatus howner
  exact ⟨hstatus.1, howner, (Option.some.inj h).symm⟩

end TaskControlBlock

/-- `Scheduler`, with the tasks by their ids. -/
structure Scheduler where
  queues : ReadyQueue → List Nat := fun _ ↦ []
  taskIndex : Nat → Option ReadyQueue := fun _ ↦ none
  blockedTasks : Nat → Bool := fun _ ↦ false

/-- The order in which `fetch_for_cpu` looks at the queues. -/
def fetchOrder : List ReadyQueue :=
  (List.range 99).reverse.map (fun i ↦ .rt (i + 1)) ++ (List.range 40).map .normal ++ [.idle]

namespace Scheduler

variable (s : Scheduler)

def removeFromReadyQueue (tid : Nat) (queue : ReadyQueue) : Scheduler :=
  { s with queues := update s.queues queue ((s.queues queue).filter (· ≠ tid)) }

/-- The task leaves the queue in which the index has it. -/
def unqueue (tid : Nat) : Scheduler :=
  match s.taskIndex tid with
  | some queue =>
    { s.removeFromReadyQueue tid queue with taskIndex := update s.taskIndex tid none }
  | none => s

/-- `Scheduler::add`. A task that is already queued leaves its old place; a debug build stops there. -/
def add (tid : Nat) (queue : ReadyQueue) : Scheduler :=
  let s := s.unqueue tid
  { s with
    taskIndex := update s.taskIndex tid (some queue)
    queues := update s.queues queue (s.queues queue ++ [tid]) }

def remove (tid : Nat) : Scheduler :=
  let s := s.unqueue tid
  { s with blockedTasks := update s.blockedTasks tid false }

def block (tid : Nat) : Scheduler := { s with blockedTasks := update s.blockedTasks tid true }

/-- `Scheduler::wake`: the scheduler without the blocked task, if it is blocked. -/
def wake (tid : Nat) : Option Scheduler :=
  if s.blockedTasks tid then
    some { s with blockedTasks := update s.blockedTasks tid false }
  else none

/-- The first claimable task of a queue, and the scheduler without it. -/
def takeFrom (claimable : Nat → Bool) (queue : ReadyQueue) : Option (Nat × Scheduler) :=
  ((s.queues queue).find? claimable).map fun tid ↦
    (tid, { s with
      queues := update s.queues queue ((s.queues queue).eraseP claimable)
      taskIndex := update s.taskIndex tid none })

def fetchForCpu (tasks : Nat → TaskControlBlock) (cpu : Nat) : Option (Nat × Scheduler) :=
  fetchOrder.findSome? (s.takeFrom fun tid ↦ (tasks tid).canBeClaimedOnCpu cpu)

/-- The index and the queues agree. -/
def Indexed : Prop :=
  ∀ tid queue, (s.queues queue).count tid = if s.taskIndex tid = some queue then 1 else 0

variable {s} {tid u : Nat} {queue : ReadyQueue}

namespace Indexed

theorem mem_iff (h : s.Indexed) : tid ∈ s.queues queue ↔ s.taskIndex tid = some queue := by
  rw [← count_pos_iff, h tid queue]
  split_ifs with hq <;> simp [hq]

theorem place_unique (h : s.Indexed) {queue' : ReadyQueue} {i j : Nat}
    (hi : (s.queues queue)[i]? = some tid) (hj : (s.queues queue')[j]? = some tid) :
    queue = queue' ∧ i = j := by
  have hqueue : queue = queue' := Option.some.inj
    ((h.mem_iff.mp (mem_of_getElem? hi)).symm.trans (h.mem_iff.mp (mem_of_getElem? hj)))
  subst hqueue
  refine ⟨rfl, ?_⟩
  have hnodup : (s.queues queue).Nodup := nodup_iff_count_le_one.mpr fun u ↦ by
    rw [h u queue]
    split_ifs <;> omega
  obtain ⟨hi', hieq⟩ := List.getElem?_eq_some_iff.mp hi
  obtain ⟨hj', hjeq⟩ := List.getElem?_eq_some_iff.mp hj
  exact (hnodup.getElem_inj_iff).mp (hieq.trans hjeq.symm)

end Indexed

/-! ### What the operations do to the index -/

section

variable (tid : Nat)

theorem taskIndex_unqueue : (s.unqueue tid).taskIndex = update s.taskIndex tid none := by
  unfold unqueue
  split
  · rfl
  · rename_i hnone
    rw [← hnone, update_eq_self]

@[simp] theorem blockedTasks_unqueue : (s.unqueue tid).blockedTasks = s.blockedTasks := by
  unfold unqueue
  split <;> rfl

theorem taskIndex_add (queue : ReadyQueue) :
    (s.add tid queue).taskIndex = update s.taskIndex tid (some queue) := by
  simp only [add, taskIndex_unqueue, update_idem]

@[simp] theorem blockedTasks_add (queue : ReadyQueue) :
    (s.add tid queue).blockedTasks = s.blockedTasks :=
  blockedTasks_unqueue tid

theorem taskIndex_remove : (s.remove tid).taskIndex = update s.taskIndex tid none :=
  taskIndex_unqueue tid

theorem blockedTasks_remove : (s.remove tid).blockedTasks = update s.blockedTasks tid false := by
  simp only [remove, blockedTasks_unqueue]

end

variable {s' : Scheduler} {tasks : Nat → TaskControlBlock}

theorem wake_eq_some (h : s.wake tid = some s') : s.blockedTasks tid = true ∧
      s' = { s with blockedTasks := update s.blockedTasks tid false } := by
  unfold wake at h
  split_ifs at h with hblocked
  exact ⟨hblocked, (Option.some.inj h).symm⟩

theorem fetchForCpu_eq_some {cpu : Nat} (h : s.fetchForCpu tasks cpu = some (tid, s')) :
    ∃ queue before after, s.queues queue = before ++ tid :: after ∧
      s' = { s with
        queues := update s.queues queue (before ++ after)
        taskIndex := update s.taskIndex tid none } := by
  obtain ⟨queue, -, htake⟩ := exists_of_findSome?_eq_some h
  obtain ⟨found, hfind, heq⟩ := Option.map_eq_some_iff.mp htake
  obtain ⟨rfl, rfl⟩ := Prod.mk.inj heq
  obtain ⟨hclaim, before, after, hsplit, hbefore⟩ := find?_eq_some_iff_append.mp hfind
  refine ⟨queue, before, after, hsplit, ?_⟩
  rw [hsplit, eraseP_append_right _ (fun b hb ↦ by simpa using hbefore b hb),
    eraseP_cons_of_pos (p := fun tid ↦ (tasks tid).canBeClaimedOnCpu cpu) hclaim]

/-! ### The operations keep the index right -/

theorem count_filter_ne (l : List Nat) (tid u : Nat) :
    (l.filter (· ≠ tid)).count u = if u = tid then 0 else l.count u := by
  split_ifs with hu
  · subst hu
    exact count_eq_zero.mpr (by simp)
  · exact count_filter (by simpa using hu)

variable (h : s.Indexed)
include h

theorem Indexed.unqueue (tid : Nat) : (s.unqueue tid).Indexed := by
  intro u q
  rw [taskIndex_unqueue]
  unfold Scheduler.unqueue
  cases hindex : s.taskIndex tid with
  | none =>
    simp only [h u q]
    by_cases hu : u = tid
    · simp [hu, hindex]
    · rw [update_of_ne hu]
  | some old =>
    simp only [removeFromReadyQueue]
    by_cases hq : q = old
    · subst hq
      rw [update_self, count_filter_ne, h u q]
      by_cases hu : u = tid
      · simp [hu]
      · rw [update_of_ne hu, if_neg hu]
    · rw [update_of_ne hq, h u q]
      by_cases hu : u = tid
      · subst hu
        simp [hindex, Ne.symm hq]
      · rw [update_of_ne hu]

theorem Indexed.add (tid : Nat) (queue : ReadyQueue) : (s.add tid queue).Indexed := by
  intro u q
  rw [taskIndex_add]
  have hbefore := h.unqueue tid u q
  rw [taskIndex_unqueue] at hbefore
  simp only [Scheduler.add]
  by_cases hu : u = tid
  · subst hu
    rw [update_self, if_neg (by simp)] at hbefore
    by_cases hq : q = queue
    · subst hq
      rw [update_self, count_append, hbefore]
      simp
    · rw [update_of_ne hq, hbefore, if_neg (by simpa using Ne.symm hq)]
  · rw [update_of_ne hu] at hbefore ⊢
    by_cases hq : q = queue
    · subst hq
      have hnot : count u [tid] = 0 := by simp [Ne.symm hu]
      rw [update_self, count_append, hbefore, hnot, Nat.add_zero]
    · rw [update_of_ne hq, hbefore]

theorem Indexed.remove (tid : Nat) : (s.remove tid).Indexed := h.unqueue tid

theorem Indexed.fetch {cpu : Nat} (hfetch : s.fetchForCpu tasks cpu = some (tid, s')) :
    s'.Indexed ∧ (∃ queue, s.taskIndex tid = some queue) ∧
      s'.taskIndex = update s.taskIndex tid none ∧ s'.blockedTasks = s.blockedTasks := by
  obtain ⟨queue, before, after, hsplit, rfl⟩ := fetchForCpu_eq_some hfetch
  have hindex : s.taskIndex tid = some queue := h.mem_iff.mp (by simp [hsplit])
  refine ⟨fun u q ↦ ?_, ⟨queue, hindex⟩, rfl, rfl⟩
  have hcount := h u q
  by_cases hq : q = queue
  · subst hq
    rw [hsplit, count_append, count_cons] at hcount
    by_cases hu : u = tid
    · subst hu
      rw [if_pos (beq_self_eq_true u), if_pos hindex] at hcount
      have hzero : (before ++ after).count u = 0 := by
        rw [count_append]
        omega
      simpa using hzero
    · simpa [update_of_ne hu, Ne.symm hu] using hcount
  · by_cases hu : u = tid
    · subst hu
      simpa [update_of_ne hq, hindex, Ne.symm hq] using hcount
    · simpa [update_of_ne hq, update_of_ne hu] using hcount

end Scheduler

end RespOS.Task
