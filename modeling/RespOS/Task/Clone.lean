import RespOS.Base

/-!
# What a failed `clone` leaves behind

`TaskControlBlock::clone_` enters the new task into the tables of the kernel as its last act: the
children of the parent process, the thread group, the members of the process, `PROCESS_MANAGER` and
`TASK_MANAGER`. `sys_clone` then still copies the new tid to two user addresses, and an error there
returns at once. The only strong reference to the task goes with it; the entries stay.

`clone_failure_iff` says exactly when a call is free of that: `CopyFails` is the condition that
`clone_` succeeds and one of the copies does not. `failed_clone_leaves_entries` has one call that
leaves a dead thread behind and one that leaves a child nobody ever starts.

A task is known by the tid it was created with; tids are not used again. Of the resources that
`clone_` shares or copies only the two that can fail are kept, as inputs.
-/

namespace RespOS.Task

open Function (update update_of_ne update_self)

/-! ### Flags, tasks and tables -/

namespace CloneFlags

/-- Bits of `CloneFlags`. The type declares all 32, so `from_bits` accepts every word. -/
def CLONE_VM : Nat := 8
def CLONE_SIGHAND : Nat := 11
def CLONE_VFORK : Nat := 14
def CLONE_PARENT : Nat := 15
def CLONE_THREAD : Nat := 16
def CLONE_SETTLS : Nat := 19
def CLONE_PARENT_SETTID : Nat := 20
def CLONE_CHILD_CLEARTID : Nat := 21
def CLONE_CHILD_SETTID : Nat := 24
def CLONE_NEWUTS : Nat := 26

def contains (flags bit : Nat) : Bool := flags.testBit bit

end CloneFlags

open CloneFlags

/-- The fields of a `TaskControlBlock` that `sys_clone` reads or sets; `process` is its `tgid`. -/
structure TaskInfo where
  tid : Nat
  process : Nat
  euid : Nat
  setChildTid : Option Nat
  clearChildTid : Option Nat
  sp : Nat
  tp : Nat
  a0 : Nat
  vforkParent : Option Nat

/-- The tables. A table of weak references to tasks is a list of pairs of key and task; a process is
the `tgid` it is entered under. -/
structure CloneWorld where
  nextTid : Nat
  taskManager : List (Nat × Nat)
  processManager : List Nat
  threadGroup : Nat → List (Nat × Nat)
  members : Nat → List (Nat × Nat)
  children : Nat → List Nat
  parent : Nat → Option Nat
  tasks : Nat → TaskInfo
  /-- A strong reference to the task exists. -/
  alive : Nat → Bool
  /-- A task of the process was given to the scheduler. -/
  started : Nat → Bool
  ready : List Nat
  blocked : List Nat
  taskManager_lt : ∀ entry ∈ taskManager, entry.1 < nextTid

/-- What can fail around the call: the kernel stack, the copy of the address space, a word copied to
the current address space, a writable page at an address of the child's. -/
structure CloneEnv where
  kernelStack : Option Errno
  memorySet : Option Errno
  copyToUser : Nat → Option Errno
  ensureUserPageAccess : Nat → Option Errno

/-- `insert` of the maps whose values are weak references to tasks. -/
def insertTask (table : List (Nat × Nat)) (tid task : Nat) : List (Nat × Nat) :=
  (tid, task) :: table.filter fun entry ↦ decide (entry.1 ≠ tid)

/-- `insert` of the maps of processes. -/
def insertProcess (table : List Nat) (process : Nat) : List Nat :=
  if process ∈ table then table else process :: table

theorem mem_of_mem_insertTask {table : List (Nat × Nat)} {tid task : Nat} {entry : Nat × Nat}
    (h : entry ∈ insertTask table tid task) : entry = (tid, task) ∨ entry ∈ table := by
  rcases List.mem_cons.mp h with heq | hmem
  · exact .inl heq
  · exact .inr (List.mem_filter.mp hmem).1

theorem mem_of_mem_insertProcess {table : List Nat} {process p : Nat}
    (h : p ∈ insertProcess table process) : p = process ∨ p ∈ table := by
  unfold insertProcess at h
  split at h
  · exact .inr h
  · exact List.mem_cons.mp h

namespace CloneWorld

/-! ### The calls -/

/-- The process of `INITPROC`, the first task. -/
def initProcess : Nat := 1

/-- `parent_for_child` of `clone_`: with `CLONE_PARENT` the parent of the caller, if one of its
threads still exists. -/
def parentForChild (w : CloneWorld) (task flags : Nat) : Nat :=
  if contains flags CLONE_PARENT then
    match w.parent (w.tasks task).process with
    | some parent =>
      if (w.members parent).any fun entry ↦ w.alive entry.2 then parent else initProcess
    | none => initProcess
  else (w.tasks task).process

/-- `tid_alloc`: the tid is used up whatever happens next. -/
def tidAlloc (w : CloneWorld) : CloneWorld :=
  { w with
    nextTid := w.nextTid + 1
    taskManager_lt := fun entry hentry ↦ Nat.lt_succ_of_lt (w.taskManager_lt entry hentry) }

/-- The process of the task that `clone_` creates. -/
def newProcess (w : CloneWorld) (task flags : Nat) : Nat :=
  if contains flags CLONE_THREAD then (w.tasks task).process else w.nextTid

/-- The last lines of `clone_`: the new task is entered into the tables. -/
def publish (w : CloneWorld) (task flags : Nat) : CloneWorld :=
  let tid := w.nextTid
  let self := w.tasks task
  let process := w.newProcess task flags
  let parent := w.parentForChild task flags
  let info : TaskInfo := { self with
    tid := tid
    process := process
    setChildTid := none
    clearChildTid := none
    vforkParent := none }
  { w with
    nextTid := tid + 1
    tasks := update w.tasks tid info
    alive := update w.alive tid true
    children :=
      if contains flags CLONE_THREAD then w.children
      else update w.children parent (insertProcess (w.children parent) process)
    parent :=
      if contains flags CLONE_THREAD then w.parent
      else update w.parent process (some parent)
    threadGroup :=
      update w.threadGroup process
        (insertTask (if contains flags CLONE_THREAD then w.threadGroup process else []) tid tid)
    members :=
      update w.members process
        (insertTask (if contains flags CLONE_THREAD then w.members process else []) tid tid)
    processManager := insertProcess w.processManager process
    taskManager := insertTask w.taskManager tid tid
    taskManager_lt := by
      intro entry hentry
      rcases mem_of_mem_insertTask hentry with rfl | hmem
      · exact Nat.lt_succ_self _
      · exact Nat.lt_succ_of_lt (w.taskManager_lt entry hmem) }

/-- `TaskControlBlock::clone_`; it returns the new task. -/
def clone (w : CloneWorld) (env : CloneEnv) (task flags : Nat) : Outcome CloneWorld Nat :=
  match env.kernelStack with
  | some e => .err e w.tidAlloc
  | none =>
    if contains flags CLONE_VM then .ok w.nextTid (w.publish task flags)
    else
      match env.memorySet with
      | some e => .err e w.tidAlloc
      | none => .ok w.nextTid (w.publish task flags)

/-- The last reference to a task that was not started is dropped. -/
def dropTask (w : CloneWorld) (task : Nat) : CloneWorld :=
  { w with alive := update w.alive task false }

/-- The copy for `CLONE_PARENT_SETTID`. -/
def parentCopy (env : CloneEnv) (flags ptid : Nat) : Option Errno :=
  if contains flags CLONE_PARENT_SETTID ∧ ptid ≠ 0 then env.copyToUser ptid else none

/-- The copy for `CLONE_CHILD_SETTID`, into the shared address space or that of the child. -/
def childCopy (env : CloneEnv) (flags ctid : Nat) : Option Errno :=
  if contains flags CLONE_CHILD_SETTID ∧ ctid ≠ 0 then
    if contains flags CLONE_VM then env.copyToUser ctid
    else if checkedAdd ctid 4 = none then some .EFAULT
    else env.ensureUserPageAccess ctid
  else none

/-- The settings of the new task that cannot fail. -/
def prepare (info : TaskInfo) (task flags stack ctid tls : Nat) : TaskInfo :=
  let setChildTid :=
    if contains flags CLONE_CHILD_SETTID ∧ ctid ≠ 0 then some ctid else info.setChildTid
  let clearChildTid :=
    if contains flags CLONE_CHILD_CLEARTID ∧ ctid ≠ 0 then some ctid else info.clearChildTid
  let vforkParent := if contains flags CLONE_VFORK then some task else info.vforkParent
  { info with
    setChildTid := setChildTid
    clearChildTid := clearChildTid
    sp := if stack ≠ 0 then stack else info.sp
    tp := if contains flags CLONE_SETTLS then tls else info.tp
    a0 := 0
    vforkParent := vforkParent }

/-- `add_task`, after the parent of a `vfork` was blocked. -/
def addTask (w : CloneWorld) (task new flags : Nat) (info : TaskInfo) : CloneWorld :=
  { w with
    tasks := update w.tasks new info
    blocked := if contains flags CLONE_VFORK then task :: w.blocked else w.blocked
    ready := w.ready ++ [new]
    started := update w.started info.process true }

/-- `sys_clone` of the current task of the hart. On LoongArch the last two arguments change places. -/
def sysClone (w : CloneWorld) (env : CloneEnv) (loongarch : Bool) (current : Option Nat)
    (flags stack ptid arg3 arg4 : Nat) : Outcome CloneWorld Nat :=
  let ctid := if loongarch then arg3 else arg4
  let tls := if loongarch then arg4 else arg3
  if stack = 0 ∧ flags % 2 ^ 32 = 0 then .err .EINVAL w
  else if contains flags CLONE_THREAD ∧ ¬ contains flags CLONE_SIGHAND then .err .EINVAL w
  else if contains flags CLONE_SIGHAND ∧ ¬ contains flags CLONE_VM then .err .EINVAL w
  else
    match current with
    | none => .panic
    | some task =>
      if contains flags CLONE_NEWUTS ∧ (w.tasks task).euid ≠ 0 then .err .EPERM w
      else
        (w.clone env task flags).andThen fun new w ↦
          match parentCopy env flags ptid with
          | some e => .err e (w.dropTask new)
          | none =>
            match childCopy env flags ctid with
            | some e => .err e (w.dropTask new)
            | none =>
              let info := prepare (w.tasks new) task flags stack ctid tls
              -- `prepare_current_task_blocked` fails only without a current task.
              .ok new (w.addTask task new flags info)

/-! ### What the tables promise -/

/-- The four tables have the entries they had. -/
structure SameEntries (w' w : CloneWorld) : Prop where
  taskManager : ∀ entry, entry ∈ w'.taskManager ↔ entry ∈ w.taskManager
  processManager : ∀ p, p ∈ w'.processManager ↔ p ∈ w.processManager
  children : ∀ p child, child ∈ w'.children p ↔ child ∈ w.children p
  threadGroup : ∀ p entry, entry ∈ w'.threadGroup p ↔ entry ∈ w.threadGroup p

/-- `TaskManager::for_each` can upgrade every reference, `ThreadGroup::size` counts threads that
exist, and every child that `wait4` can wait for was started. -/
structure Sound (w : CloneWorld) : Prop where
  taskManager : ∀ entry ∈ w.taskManager, w.alive entry.2 = true
  threadGroup : ∀ p, ∀ entry ∈ w.threadGroup p, w.alive entry.2 = true
  children : ∀ p, ∀ child ∈ w.children p, w.started child = true

/-- The arguments pass the tests of `sys_clone`. -/
def Accepted (w : CloneWorld) (task flags stack : Nat) : Prop :=
  ¬ (stack = 0 ∧ flags % 2 ^ 32 = 0) ∧
    (contains flags CLONE_THREAD = true → contains flags CLONE_SIGHAND = true) ∧
    (contains flags CLONE_SIGHAND = true → contains flags CLONE_VM = true) ∧
    (contains flags CLONE_NEWUTS = true → (w.tasks task).euid = 0)

/-- The task is created and then one of the tids cannot be copied out. -/
def CopyFails (w : CloneWorld) (env : CloneEnv) (task flags stack ptid ctid : Nat) : Prop :=
  w.Accepted task flags stack ∧ env.kernelStack = none ∧
    (contains flags CLONE_VM = true ∨ env.memorySet = none) ∧
    (parentCopy env flags ptid ≠ none ∨ childCopy env flags ctid ≠ none)

theorem SameEntries.refl (w : CloneWorld) : SameEntries w w :=
  ⟨fun _ ↦ Iff.rfl, fun _ ↦ Iff.rfl, fun _ _ ↦ Iff.rfl, fun _ _ ↦ Iff.rfl⟩

theorem sameEntries_tidAlloc (w : CloneWorld) : SameEntries w.tidAlloc w :=
  ⟨fun _ ↦ Iff.rfl, fun _ ↦ Iff.rfl, fun _ _ ↦ Iff.rfl, fun _ _ ↦ Iff.rfl⟩

theorem Sound.tidAlloc {w : CloneWorld} (h : w.Sound) : w.tidAlloc.Sound :=
  ⟨h.taskManager, h.threadGroup, h.children⟩

theorem clone_cases (w : CloneWorld) (env : CloneEnv) (task flags : Nat) :
    (∃ e, w.clone env task flags = .err e w.tidAlloc ∧
      ¬ (env.kernelStack = none ∧ (contains flags CLONE_VM = true ∨ env.memorySet = none))) ∨
    (w.clone env task flags = .ok w.nextTid (w.publish task flags) ∧
      env.kernelStack = none ∧ (contains flags CLONE_VM = true ∨ env.memorySet = none)) := by
  unfold clone
  cases hstack : env.kernelStack with
  | some e => exact .inl ⟨e, rfl, by simp⟩
  | none =>
    by_cases hvm : contains flags CLONE_VM = true
    · simp [hvm]
    · cases hmemory : env.memorySet with
      | some e => exact .inl ⟨e, by simp [hvm], by simp [hvm]⟩
      | none => exact .inr ⟨by simp [hvm], rfl, Or.inr rfl⟩

theorem update_eq_true {f : Nat → Bool} {i j : Nat} (h : j = i ∨ f j = true) :
    update f i true j = true := by
  by_cases hj : j = i
  · rw [hj, update_self]
  · rw [update_of_ne hj]
    exact h.resolve_left hj

theorem Sound.addTask_publish {w : CloneWorld} (h : w.Sound) (task flags : Nat) (info : TaskInfo)
    (hinfo : info.process = w.newProcess task flags) :
    ((w.publish task flags).addTask task w.nextTid flags info).Sound := by
  refine ⟨?_, ?_, ?_⟩
  · intro entry hentry
    apply update_eq_true
    exact (mem_of_mem_insertTask hentry).imp (congrArg Prod.snd) (h.taskManager entry)
  · intro p entry hentry
    apply update_eq_true
    by_cases hp : p = w.newProcess task flags
    · simp only [addTask, publish, hp, update_self] at hentry
      refine (mem_of_mem_insertTask hentry).imp (congrArg Prod.snd) fun hmem ↦ ?_
      split at hmem
      · exact h.threadGroup _ entry hmem
      · simp at hmem
    · simp only [addTask, publish, update_of_ne hp] at hentry
      exact .inr (h.threadGroup p entry hentry)
  · intro p child hchild
    apply update_eq_true
    rw [hinfo]
    simp only [addTask, publish] at hchild
    split at hchild
    · exact .inr (h.children p child hchild)
    by_cases hp : p = w.parentForChild task flags
    · rw [hp, update_self] at hchild
      exact (mem_of_mem_insertProcess hchild).imp_right (h.children _ child)
    · rw [update_of_ne hp] at hchild
      exact .inr (h.children p child hchild)

/-! ### When a failed call leaves no trace -/

/-- `sys_clone` inverted: it fails with the tables untouched, or the task is published and then
dropped, or started. -/
inductive Clones (w : CloneWorld) (env : CloneEnv) (task flags stack ptid ctid : Nat) :
    Outcome CloneWorld Nat → Prop
  | refused (e : Errno) (hnot : ¬ w.CopyFails env task flags stack ptid ctid) :
    Clones w env task flags stack ptid ctid (.err e w)
  | noMemory (e : Errno) (hnot : ¬ w.CopyFails env task flags stack ptid ctid) :
    Clones w env task flags stack ptid ctid (.err e w.tidAlloc)
  | dropped (e : Errno) (hfails : w.CopyFails env task flags stack ptid ctid) :
    Clones w env task flags stack ptid ctid (.err e ((w.publish task flags).dropTask w.nextTid))
  | started (info : TaskInfo) (hinfo : info.process = w.newProcess task flags)
      (hnot : ¬ w.CopyFails env task flags stack ptid ctid) :
    Clones w env task flags stack ptid ctid
      (.ok w.nextTid ((w.publish task flags).addTask task w.nextTid flags info))

theorem sysClone_clones (w : CloneWorld) (env : CloneEnv) (loongarch : Bool)
    (task flags stack ptid arg3 arg4 : Nat) :
    Clones w env task flags stack ptid (if loongarch then arg3 else arg4)
      (w.sysClone env loongarch (some task) flags stack ptid arg3 arg4) := by
  generalize hcurrent : some task = current
  fun_cases w.sysClone env loongarch current flags stack ptid arg3 arg4 with
  | case1 _ hempty => exact .refused _ fun h ↦ h.1.1 hempty
  | case2 _ _ hthread => exact .refused _ fun h ↦ hthread.2 (h.1.2.1 hthread.1)
  | case3 _ _ _ hsighand => exact .refused _ fun h ↦ hsighand.2 (h.1.2.2.1 hsighand.1)
  | case4 => nomatch hcurrent
  | case5 _ _ _ _ huts =>
    obtain rfl := Option.some.inj hcurrent
    exact .refused _ fun h ↦ huts.2 (h.1.2.2.2 huts.1)
  | case6 ctid tls hempty hthread hsighand _ huts =>
    obtain rfl := Option.some.inj hcurrent
    rcases w.clone_cases env task flags with ⟨e, heq, hnot⟩ | ⟨heq, hstack, hmemory⟩
    · rw [heq]
      exact .noMemory e fun h ↦ hnot ⟨h.2.1, h.2.2.1⟩
    rw [heq]
    have haccepted : w.Accepted task flags stack :=
      ⟨hempty, fun h ↦ by_contra fun hn ↦ hthread ⟨h, hn⟩,
        fun h ↦ by_contra fun hn ↦ hsighand ⟨h, hn⟩, fun h ↦ by_contra fun hn ↦ huts ⟨h, hn⟩⟩
    cases hparent : parentCopy env flags ptid with
    | some e => exact .dropped e ⟨haccepted, hstack, hmemory, Or.inl (by simp [hparent])⟩
    | none =>
      cases hchild : childCopy env flags ctid with
      | some e => exact .dropped e ⟨haccepted, hstack, hmemory, Or.inr fun h ↦ nomatch hchild.symm.trans h⟩
      | none =>
        refine .started _ ?_ ?_
        · simp only [prepare, publish, update_self]
        · rintro ⟨-, -, -, hfails | hfails⟩
          · exact hfails hparent
          · exact hfails hchild

/-- A call that fails has left the tables as they were, and every call keeps their promises, exactly
if the call does not publish a task and then fail to copy a tid out. -/
theorem clone_failure_iff (w : CloneWorld) (env : CloneEnv) (loongarch : Bool)
    (task flags stack ptid arg3 arg4 : Nat) :
    ((∀ e w', w.sysClone env loongarch (some task) flags stack ptid arg3 arg4 = .err e w' →
        w'.SameEntries w) ∧
      (w.Sound → (w.sysClone env loongarch (some task) flags stack ptid arg3 arg4).Keeps Sound)) ↔
      ¬ w.CopyFails env task flags stack ptid (if loongarch then arg3 else arg4) := by
  have hcases := w.sysClone_clones env loongarch task flags stack ptid arg3 arg4
  generalize w.sysClone env loongarch (some task) flags stack ptid arg3 arg4 = outcome at hcases ⊢
  cases hcases with
  | refused e hnot =>
    refine iff_of_true ⟨?_, ?_⟩ hnot
    · rintro _ _ ⟨rfl, rfl⟩
      exact SameEntries.refl w
    · exact Outcome.keeps_err.mpr
  | noMemory e hnot =>
    refine iff_of_true ⟨?_, ?_⟩ hnot
    · rintro _ _ ⟨rfl, rfl⟩
      exact sameEntries_tidAlloc w
    · exact fun hsound ↦ Outcome.keeps_err.mpr hsound.tidAlloc
  | dropped e hfails =>
    refine iff_of_false ?_ (not_not.mpr hfails)
    rintro ⟨hsame, -⟩
    -- the tid was never in the table before
    have hold := ((hsame e _ rfl).taskManager (w.nextTid, w.nextTid)).mp List.mem_cons_self
    exact Nat.lt_irrefl _ (w.taskManager_lt _ hold)
  | started info hinfo hnot =>
    refine iff_of_true ⟨?_, ?_⟩ hnot
    · rintro _ _ ⟨⟩
    · exact fun hsound ↦ Outcome.keeps_ok.mpr (hsound.addTask_publish task flags info hinfo)

/-! ### A dead thread and a child that never runs -/

def initWorld : CloneWorld where
  nextTid := 2
  taskManager := [(1, 1)]
  processManager := [1]
  threadGroup := fun p ↦ if p = 1 then [(1, 1)] else []
  members := fun p ↦ if p = 1 then [(1, 1)] else []
  children := fun _ ↦ []
  parent := fun _ ↦ none
  tasks := fun _ ↦ ⟨1, 1, 0, none, none, 0, 0, 0, none⟩
  alive := fun task ↦ decide (task = 1)
  started := fun p ↦ decide (p = 1)
  ready := []
  blocked := []
  taskManager_lt := by simp

def readOnlyEnv : CloneEnv := ⟨none, none, fun _ ↦ some .EFAULT, fun _ ↦ some .EFAULT⟩

/-- `CLONE_VM | CLONE_SIGHAND | CLONE_THREAD | CLONE_PARENT_SETTID`. -/
def threadFlags : Nat := 2 ^ 8 + 2 ^ 11 + 2 ^ 16 + 2 ^ 20

/-- `SIGCHLD | CLONE_CHILD_SETTID`. -/
def forkFlags : Nat := 17 + 2 ^ 24

/-- Both calls return `EFAULT`. After the first the thread group counts two threads, and
`TASK_MANAGER` has a reference that `for_each` cannot upgrade; after the second process 1 has a child
that was never started, for which `wait4` waits. -/
theorem failed_clone_leaves_entries :
    (∃ w, initWorld.sysClone readOnlyEnv false (some 1) threadFlags 64 8 0 0 = .err .EFAULT w ∧
      (w.threadGroup 1).length = 2 ∧ (2, 2) ∈ w.taskManager ∧ w.alive 2 = false ∧
      ¬ w.SameEntries initWorld) ∧
    (∃ w, initWorld.sysClone readOnlyEnv false (some 1) forkFlags 0 0 0 8 = .err .EFAULT w ∧
      w.children 1 = [2] ∧ w.started 2 = false ∧ ¬ w.SameEntries initWorld) := by
  refine ⟨⟨_, rfl, by decide, by decide, by decide, ?_⟩, ⟨_, rfl, by decide, by decide, ?_⟩⟩
  · intro hsame
    exact absurd ((hsame.taskManager (2, 2)).mp (by decide)) (by decide)
  · intro hsame
    exact absurd ((hsame.taskManager (2, 2)).mp (by decide)) (by decide)

end CloneWorld

end RespOS.Task
