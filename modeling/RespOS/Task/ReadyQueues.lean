import RespOS.Task.Ownership

/-!
# The ready queues under interleaving

Under the scheduler lock a task moves between the queues, the blocked tasks and a hart together with its
status, so that a queued task is neither Running nor Blocked. `add_task`, `requeue_ready_task` and
`wakeup_stopped_task` look at the status before they take the lock. Between the two another hart can claim
the task, and the stale answer puts a running task into a queue (`running_task_queued`). The same happens
to a task that has removed itself from the queues to cancel its own block and is about to set itself
Running.

`consistent_of_run` proves the consistency of the queues in the runs in which the late sections find the
status that they act on (`Timely`). It rests on the ownership of tasks by harts, which holds in all runs.
-/

namespace RespOS.Task

open RespOS.Basis
open Function (update update_apply update_of_ne update_self)
open SmpState Option Scheduler

/-- What should hold whenever the scheduler lock is free. -/
structure Consistent (s : SmpState) : Prop where
  disjoint : ∀ tid, ¬ ((s.scheduler.taskIndex tid).isSome = true ∧
    s.scheduler.blockedTasks tid = true)
  place : ∀ tid queue queue' (i j : Nat), (s.scheduler.queues queue)[i]? = some tid →
    (s.scheduler.queues queue')[j]? = some tid → queue = queue' ∧ i = j
  status : ∀ tid queue, tid ∈ s.scheduler.queues queue →
    (s.tasks tid).status ≠ .running ∧ (s.tasks tid).status ≠ .blocked

/-- The condition: a late section that adds a task finds it Ready and not between `remove_task` and
`set_running` of its own hart, and `wakeup_stopped_task` sets a task Ready that is still Stopped. -/
def Timely (c : Config SmpState Hart) (l : Nat × HartAction) : Prop :=
  match l.2, (c.thread l.1).late with
  | .late, some (.stoppedSeen tid) => (c.shared.tasks tid).status = .stopped
  | .late, some (.addTask tid) =>
    (c.shared.tasks tid).status = .ready ∧ ∀ h, (c.thread h).pc ≠ .unblocked tid
  | .late, some (.requeue tid) =>
    (c.shared.tasks tid).status = .ready ∧ ∀ h, (c.thread h).pc ≠ .unblocked tid
  | .late, some (.stoppedReadied tid) =>
    (c.shared.tasks tid).status = .ready ∧ ∀ h, (c.thread h).pc ≠ .unblocked tid
  | _, _ => True

/-- The status of a queued and of a blocked task. -/
structure SchedOk (s : SmpState) : Prop where
  indexed : s.scheduler.Indexed
  queued : ∀ tid queue, s.scheduler.taskIndex tid = some queue →
    (s.tasks tid).status ≠ .running ∧ (s.tasks tid).status ≠ .blocked
  blocked : ∀ tid, s.scheduler.blockedTasks tid = true → (s.tasks tid).status = .blocked

/-- The task is neither queued nor blocked. -/
def Out (s : SmpState) (tid : Nat) : Prop :=
  s.scheduler.taskIndex tid = none ∧ s.scheduler.blockedTasks tid = false

/-- The status of the task that a hart has at this place. -/
def StatusAt (s : SmpState) : HartPc → Prop
  | .wasRunning tid => (s.tasks tid).status = .running
  | .claimed tid => (s.tasks tid).status = .running
  | .switching tid => (s.tasks tid).status = .running
  | .running tid => (s.tasks tid).status = .running
  | .sleeping tid => (s.tasks tid).status = .blocked ∨ (s.tasks tid).status = .ready
  | .unblocking tid => (s.tasks tid).status = .blocked ∨ (s.tasks tid).status = .ready
  | .readied tid => (s.tasks tid).status = .ready
  | .unblocked tid =>
    ((s.tasks tid).status = .blocked ∨ (s.tasks tid).status = .ready) ∧ Out s tid
  | .stopping tid => (s.tasks tid).status = .stopped ∨ (s.tasks tid).status = .ready
  | _ => True

section Sections

variable {s s' : SmpState} {h tid : Nat} {status : TaskStatus} {pc pc' : HartPc}

theorem status_setStatus (s : SmpState) (tid : Nat) (status : TaskStatus) (u : Nat) :
    ((s.setStatus tid status).tasks u).status = if u = tid then status else (s.tasks u).status := by
  by_cases hu : u = tid <;> simp [setStatus, SmpState.setTask, hu]

section

variable (hs : SchedOk s)
include hs

theorem SchedOk.setTask {task : TaskControlBlock}
    (hstatus : task.status = (s.tasks tid).status) : SchedOk (s.setTask tid task) := by
  refine ⟨hs.indexed, fun u q hu ↦ ?_, fun u hu ↦ ?_⟩
  · rw [field_setTask (·.status) hstatus u]
    exact hs.queued u q hu
  · rw [field_setTask (·.status) hstatus u]
    exact hs.blocked u hu

theorem SchedOk.index_eq_none
    (hstatus : (s.tasks tid).status = .running ∨ (s.tasks tid).status = .blocked) :
    s.scheduler.taskIndex tid = none := by
  rw [eq_none_iff_forall_ne_some]
  intro queue hqueue
  obtain ⟨hrun, hblocked⟩ := hs.queued tid queue hqueue
  exact hstatus.elim hrun hblocked

theorem SchedOk.not_blocked (hstatus : (s.tasks tid).status ≠ .blocked) :
    s.scheduler.blockedTasks tid = false := by
  rw [← Bool.not_eq_true]
  exact fun hblocked ↦ hstatus (hs.blocked tid hblocked)

theorem SchedOk.setStatus
    (hqueued : s.scheduler.taskIndex tid = none ∨ status ≠ .running ∧ status ≠ .blocked)
    (hblocked : s.scheduler.blockedTasks tid = false) : SchedOk (s.setStatus tid status) := by
  refine ⟨hs.indexed, fun u queue hu ↦ ?_, fun u hu ↦ ?_⟩
  · rw [status_setStatus]
    split_ifs with htid
    · subst htid
      obtain hnone | hstatus := hqueued
      · exact absurd (hnone.symm.trans hu) (by simp)
      · exact hstatus
    · exact hs.queued u queue hu
  · rw [status_setStatus]
    split_ifs with htid
    · subst htid
      exact absurd (hblocked.symm.trans hu) Bool.false_ne_true
    · exact hs.blocked u hu

theorem SchedOk.addTask
    (hstatus : (s.tasks tid).status ≠ .running ∧ (s.tasks tid).status ≠ .blocked) :
    SchedOk (s.addTask tid) := by
  refine ⟨hs.indexed.add tid _, fun u queue hu ↦ ?_, fun u hu ↦ hs.blocked u ?_⟩
  swap
  · simpa [SmpState.addTask] using hu
  simp only [SmpState.addTask, taskIndex_add] at hu
  by_cases htid : u = tid
  · subst htid
    exact hstatus
  · rw [update_of_ne htid] at hu
    exact hs.queued u queue hu

theorem SchedOk.removeTask (tid : Nat) : SchedOk (s.removeTask tid) := by
  refine ⟨hs.indexed.remove tid, fun u queue hu ↦ ?_, fun u hu ↦ ?_⟩
  · simp only [SmpState.removeTask, taskIndex_remove] at hu
    by_cases htid : u = tid
    · simp [htid] at hu
    · rw [update_of_ne htid] at hu
      exact hs.queued u queue hu
  · simp only [SmpState.removeTask, blockedTasks_remove] at hu
    by_cases htid : u = tid
    · simp [htid] at hu
    · rw [update_of_ne htid] at hu
      exact hs.blocked u hu

end

theorem wakeupTask_cases (s : SmpState) (tid : Nat) :
    s.wakeupTask tid = s ∨ s.scheduler.blockedTasks tid = true ∧
      s.wakeupTask tid = ((({ s with scheduler := { s.scheduler with
        blockedTasks := update s.scheduler.blockedTasks tid false } } :
          SmpState).setStatus tid .ready).addTask tid) := by
  unfold wakeupTask
  split
  · rename_i scheduler hwake
    obtain ⟨hblocked, rfl⟩ := wake_eq_some hwake
    exact .inr ⟨hblocked, rfl⟩
  · exact .inl rfl

theorem SchedOk.wakeupTask (hs : SchedOk s) (tid : Nat) : SchedOk (s.wakeupTask tid) := by
  obtain heq | ⟨hblocked, heq⟩ := wakeupTask_cases s tid
  · rwa [heq]
  have hwoken : SchedOk { s with scheduler := { s.scheduler with
      blockedTasks := update s.scheduler.blockedTasks tid false } } := by
    refine ⟨hs.indexed, hs.queued, fun u hu ↦ hs.blocked u ?_⟩
    by_cases htid : u = tid
    · rw [htid]
      exact hblocked
    · simpa [update_of_ne htid] using hu
  rw [heq]
  refine (hwoken.setStatus (.inr (by simp)) (update_self tid _ _)).addTask ?_
  simp [status_setStatus]

theorem SchedOk.prepareBlocked (hs : SchedOk s) (hstatus : (s.tasks tid).status = .running) :
    SchedOk (s.prepareBlocked tid) := by
  have hset : SchedOk (s.setStatus tid .blocked) :=
    hs.setStatus (.inl (hs.index_eq_none (.inl hstatus))) (hs.not_blocked (by simp [hstatus]))
  refine ⟨hs.indexed, hset.queued, fun u hu ↦ ?_⟩
  by_cases htid : u = tid
  · simp [htid, SmpState.prepareBlocked, status_setStatus]
  · refine hset.blocked u ?_
    change s.scheduler.blockedTasks u = true
    simpa [SmpState.prepareBlocked, block, htid] using hu

theorem SchedOk.fetchTask (hs : SchedOk s) (hfetch : s.fetchTask h = (s', pc)) :
    SchedOk s' ∧ StatusAt s' pc ∧
      ∀ u, Out s u → Out s' u := by
  unfold SmpState.fetchTask at hfetch
  split at hfetch
  · rename_i found scheduler hfound
    obtain ⟨hindexed, ⟨queue, hqueue⟩, hindex, hblocked⟩ := hs.indexed.fetch hfound
    have htaken : SchedOk { s with scheduler := scheduler } := by
      refine ⟨hindexed, fun u q hu ↦ ?_, fun u hu ↦ hs.blocked u (hblocked ▸ hu)⟩
      simp only [hindex] at hu
      by_cases hfu : u = found
      · simp [hfu] at hu
      · rw [update_of_ne hfu] at hu
        exact hs.queued u q hu
    split at hfetch
    · rename_i task hclaim
      obtain ⟨hstatus, -, rfl⟩ := (s.tasks found).tryClaimRunningOnCpu_eq_some hclaim
      obtain ⟨rfl, rfl⟩ := Prod.mk.inj hfetch
      refine ⟨⟨hindexed, fun u q hu ↦ ?_, fun u hu ↦ ?_⟩, ?_, fun u hu ↦ ?_⟩
      · have hne : u ≠ found := by
          rintro rfl
          simp [SmpState.setTask, hindex] at hu
        simpa [SmpState.setTask, hne] using htaken.queued u q hu
      · have hne : u ≠ found := by
          rintro rfl
          have := htaken.blocked u hu
          simp [hstatus] at this
        simpa [SmpState.setTask, hne] using htaken.blocked u hu
      · simp [StatusAt, SmpState.setTask]
      · simp only [Out, SmpState.setTask, hindex, hblocked, update_apply]
        exact ⟨by split_ifs <;> [rfl; exact hu.1], hu.2⟩
    · obtain ⟨rfl, rfl⟩ := Prod.mk.inj hfetch
      refine ⟨htaken.addTask (hs.queued found queue hqueue), trivial, fun u hu ↦ ?_⟩
      have hne : u ≠ found := by
        rintro rfl
        exact absurd (hu.1.symm.trans hqueue) (by simp)
      simpa [Out, SmpState.addTask, taskIndex_add, hindex, hblocked, hne] using hu
  · obtain ⟨rfl, rfl⟩ := Prod.mk.inj hfetch
    exact ⟨hs, trivial, fun _ hu ↦ hu⟩

theorem StatusAt.mono (hpc : StatusAt s pc)
    (hstatus : ∀ u, pc.task = some u → (s'.tasks u).status = (s.tasks u).status ∨
      ((s.tasks u).status = .blocked ∨ (s.tasks u).status = .stopped) ∧ (s'.tasks u).status = .ready)
    (hout : ∀ u, pc = .unblocked u → Out s u → Out s' u) : StatusAt s' pc := by
  have hsame : ∀ u, pc.task = some u → (s.tasks u).status ≠ .blocked →
      (s.tasks u).status ≠ .stopped → (s'.tasks u).status = (s.tasks u).status :=
    fun u hu hb hst ↦ (hstatus u hu).resolve_right fun hr ↦ hr.1.elim hb hst
  cases pc with
  | wasRunning u | claimed u | switching u | running u | readied u =>
    exact (hsame u rfl (by simp_all [StatusAt]) (by simp_all [StatusAt])).trans hpc
  | unblocked u =>
    refine ⟨?_, hout u rfl hpc.2⟩
    obtain heq | ⟨-, hready⟩ := hstatus u rfl
    · rw [heq]
      exact hpc.1
    · exact .inr hready
  | sleeping u | unblocking u | stopping u =>
    obtain heq | ⟨-, hready⟩ := hstatus u rfl
    · simpa [StatusAt, heq] using hpc
    · exact .inr hready
  | _ => trivial

theorem Out.addTask {u : Nat} (hne : u ≠ tid) (hout : Out s u) : Out (s.addTask tid) u := by
  simpa [Out, SmpState.addTask, taskIndex_add, hne] using hout

theorem Out.removeTask {u : Nat} (tid : Nat) (hout : u = tid ∨ Out s u) : Out (s.removeTask tid) u := by
  simp only [Out, SmpState.removeTask, taskIndex_remove, blockedTasks_remove, update_apply]
  split_ifs with hu
  · exact ⟨rfl, rfl⟩
  · exact hout.resolve_left hu

/-- The tasks of other harts keep their status and are not queued. -/
def KeepsForeign (s s' : SmpState) (h : Nat) : Prop :=
  ∀ k u, k ≠ h → (s.tasks u).cpuOwner = some k →
    (s'.tasks u).status = (s.tasks u).status ∧
      (Out s u → Out s' u)

section

variable (howner : (s.tasks tid).cpuOwner = some h)
include howner

theorem ne_of_cpuOwner {k u : Nat} (hk : k ≠ h) (hu : (s.tasks u).cpuOwner = some k) : u ≠ tid := by
  rintro rfl
  exact hk (some.inj (hu.symm.trans howner))

theorem KeepsForeign.setStatus (status : TaskStatus) : KeepsForeign s (s.setStatus tid status) h :=
  fun _ _ hk hu ↦ ⟨by rw [status_setStatus, if_neg (ne_of_cpuOwner howner hk hu)], id⟩

theorem KeepsForeign.addTask : KeepsForeign s (s.addTask tid) h :=
  fun _ _ hk hu ↦ ⟨rfl, .addTask (ne_of_cpuOwner howner hk hu)⟩

theorem KeepsForeign.prepareBlocked : KeepsForeign s (s.prepareBlocked tid) h := by
  intro k u hk hu
  refine ⟨(KeepsForeign.setStatus howner .blocked k u hk hu).1, fun hout ↦ ⟨hout.1, ?_⟩⟩
  simpa [SmpState.prepareBlocked, block, ne_of_cpuOwner howner hk hu] using hout.2

end

theorem schedOk_advance {l : Hart} (hs : SchedOk s) (hl : HartOk s h l) (hpc : StatusAt s l.pc)
    (hadv : s.advance h l.pc = some (s', pc')) :
    SchedOk s' ∧ StatusAt s' pc' ∧ KeepsForeign s s' h := by
  have howned : ∀ u, l.pc.task = some u → (s.tasks u).cpuOwner = some h :=
    fun u hu ↦ hl.owned u (.inr hu)
  have hsame : KeepsForeign s s h := fun _ _ _ _ ↦ ⟨rfl, id⟩
  generalize l.pc = place at hpc hadv howned
  revert hadv
  fun_cases s.advance h place with try rintro ⟨⟩
  | case1 =>
    exact ⟨{ hs with }, trivial, fun _ _ _ _ ↦ ⟨rfl, id⟩⟩
  | case3 tid =>
    refine ⟨hs, ?_, hsame⟩
    split_ifs with hrunning
    · exact hrunning.1
    · trivial
  | case4 tid =>
    refine ⟨hs.setStatus (.inr (by simp)) (hs.not_blocked ?_), ?_, .setStatus (howned tid rfl) _⟩
    · rw [show (s.tasks tid).status = .running from hpc]
      simp
    · simp [StatusAt, status_setStatus]
  | case5 tid hready =>
    exact ⟨hs.addTask (by simp [hready]), trivial, .addTask (howned tid rfl)⟩
  | case7 =>
    exact ⟨hs.setTask rfl, trivial, fun _ u _ _ ↦ ⟨field_setTask (·.status) (by rfl) u, id⟩⟩
  -- nothing changes, and the next section asks for no status
  | case2 | case6 | case8 | case10 | case11 | case16 =>
    exact ⟨hs, trivial, hsame⟩
  | case9 =>
    intro hadv
    have hfetch : s.fetchTask h = (s', pc') := some.inj hadv
    obtain ⟨hs', hpc', hout⟩ := hs.fetchTask hfetch
    refine ⟨hs', hpc', fun k u hk hu ↦ ⟨?_, hout u⟩⟩
    obtain ⟨-, ⟨-, htasks⟩ | ⟨tid, -, howner, -, htasks⟩⟩ := fetchTask_cases hfetch
    · rw [htasks]
    have hne : u ≠ tid := by
      rintro rfl
      exact absurd (hu.symm.trans howner) (by simp)
    rw [htasks, update_of_ne hne]
  | case12 =>
    exact ⟨{ hs with }, hpc, fun _ _ _ _ ↦ ⟨rfl, id⟩⟩
  | case13 =>
    exact ⟨hs, hpc, hsame⟩
  | case14 tid =>
    exact ⟨hs.removeTask tid, ⟨hpc, .removeTask tid (.inl rfl)⟩,
      fun _ u _ _ ↦ ⟨rfl, fun hout ↦ .removeTask tid (.inr hout)⟩⟩
  | case15 tid =>
    obtain ⟨-, hnone, hblocked⟩ := hpc
    refine ⟨hs.setStatus (.inl hnone) hblocked, ?_, .setStatus (howned tid rfl) _⟩
    simp [StatusAt, status_setStatus]

/-- A section keeps every status, except that it may wake a task. -/
def Wakes (s s' : SmpState) : Prop :=
  ∀ u, (s'.tasks u).status = (s.tasks u).status ∨
    ((s.tasks u).status = .blocked ∨ (s.tasks u).status = .stopped) ∧ (s'.tasks u).status = .ready

theorem Wakes.of_setStatus {s₀ : SmpState} (htasks : s₀.tasks = s.tasks)
    (hstatus : (s.tasks tid).status = .blocked ∨ (s.tasks tid).status = .stopped) :
    Wakes s (s₀.setStatus tid .ready) := by
  intro u
  rw [status_setStatus]
  split_ifs with hu
  · subst hu
    exact .inr ⟨hstatus, rfl⟩
  · rw [htasks]
    exact .inl rfl

theorem wakes_wakeupTask (hs : SchedOk s) (tid : Nat) : Wakes s (s.wakeupTask tid) := by
  obtain heq | ⟨hblocked, heq⟩ := wakeupTask_cases s tid
  · rw [heq]
    exact fun _ ↦ .inl rfl
  · rw [heq]
    exact .of_setStatus rfl (.inl (hs.blocked tid hblocked))

theorem Out.wakeupTask {u : Nat} (tid : Nat) (hout : Out s u) : Out (s.wakeupTask tid) u := by
  obtain heq | ⟨hblocked, heq⟩ := wakeupTask_cases s tid
  · rwa [heq]
  have hne : u ≠ tid := by
    rintro rfl
    exact absurd (hout.2.symm.trans hblocked) Bool.false_ne_true
  rw [heq]
  refine .addTask hne ⟨hout.1, ?_⟩
  simpa [SmpState.setStatus, SmpState.setTask, hne] using hout.2

end Sections

section Runs

variable {c : Config SmpState Hart} {s : SmpState} {k : Hart} {t : Nat} {a : HartAction}

structure QueuesOk (c : Config SmpState Hart) : Prop where
  sched : SchedOk c.shared
  place : ∀ h, StatusAt c.shared (c.thread h).pc

section

variable (hc : QueuesOk c)
include hc

theorem queuesOk_of_own (hown : ∀ h, HartOk c.shared h (c.thread h))
    (hsched : SchedOk s) (hplace : StatusAt s k.pc) (hkeeps : KeepsForeign c.shared s t) :
    QueuesOk ⟨s, update c.thread t k⟩ := by
  refine ⟨hsched, fun h ↦ ?_⟩
  by_cases hh : h = t
  · subst hh
    simpa using hplace
  · simp only [update_of_ne hh]
    have howner : ∀ u, (c.thread h).pc.task = some u → (c.shared.tasks u).cpuOwner = some h :=
      fun u hu ↦ (hown h).owned u (.inr hu)
    refine (hc.place h).mono (fun u hu ↦ .inl (hkeeps h u hh (howner u hu)).1) fun u hu ↦ ?_
    exact (hkeeps h u hh (howner u (by rw [hu]; rfl))).2

theorem queuesOk_of_wakes (hsched : SchedOk s) (hwakes : Wakes c.shared s)
    (hout : ∀ h u, (c.thread h).pc = .unblocked u → Out c.shared u → Out s u)
    (hpc : k.pc = (c.thread t).pc ∨ k.pc = .panicked .addNotReady) :
    QueuesOk ⟨s, update c.thread t k⟩ := by
  have hplace : ∀ h, StatusAt s (c.thread h).pc :=
    fun h ↦ (hc.place h).mono (fun u _ ↦ hwakes u) (hout h)
  refine ⟨hsched, fun h ↦ ?_⟩
  by_cases hh : h = t
  · subst hh
    simp only [update_self]
    obtain hsame | hpanic := hpc
    · rw [hsame]
      exact hplace h
    · rw [hpanic]
      trivial
  · simpa [update_of_ne hh] using hplace h

theorem queuesOk_late {op : LateOp} (hlate : (c.thread t).late = some op)
    (hok : Timely c (t, .late)) (hpc : k.pc = (c.thread t).pc) :
    QueuesOk ⟨(c.shared.late op).1, update c.thread t k⟩ := by
  simp only [Timely, hlate] at hok
  -- an addition of a Ready task
  have hadd : ∀ (s₀ : SmpState) (tid : Nat), s₀.tasks = c.shared.tasks → SchedOk s₀ →
      (∀ u, Out c.shared u → Out s₀ u) →
      (c.shared.tasks tid).status = .ready → (∀ h, (c.thread h).pc ≠ .unblocked tid) →
      QueuesOk ⟨s₀.addTask tid, update c.thread t k⟩ := by
    intro s₀ tid htasks hs₀ hout hready hnot
    refine queuesOk_of_wakes hc (hs₀.addTask (by simp [htasks, hready])) (fun u ↦ .inl ?_)
      (fun h u hu hu' ↦ .addTask ?_ (hout u hu')) (.inl hpc)
    · exact congrArg (fun tasks ↦ (tasks u).status) htasks
    · rintro rfl
      exact hnot h hu
  cases op with
  | addTask tid | stoppedReadied tid =>
    exact hadd c.shared tid rfl hc.sched (fun _ ↦ id) hok.1 hok.2
  | requeue tid =>
    exact hadd (c.shared.removeTask tid) tid rfl (hc.sched.removeTask tid)
      (fun u hu ↦ .removeTask tid (.inr hu)) hok.1 hok.2
  | stoppedSeen tid =>
    have hstopped : (c.shared.tasks tid).status = .stopped := hok
    exact queuesOk_of_wakes hc
      (hc.sched.setStatus (.inr (by simp)) (hc.sched.not_blocked (by simp [hstopped])))
      (.of_setStatus rfl (.inr hstopped)) (fun _ _ _ ↦ id) (.inl hpc)

variable (hown : ∀ h, HartOk c.shared h (c.thread h))
include hown

theorem queuesOk_handoff {tid : Nat} : QueuesOk ⟨(c.shared.handoffCurrent t tid).1,
      update c.thread t { c.thread t with pc := (c.shared.handoffCurrent t tid).2 }⟩ := by
  unfold handoffCurrent
  split_ifs
  · exact queuesOk_of_own hc hown { hc.sched with } trivial
      fun _ _ _ _ ↦ ⟨rfl, id⟩
  · exact queuesOk_of_own hc hown hc.sched trivial fun _ _ _ _ ↦ ⟨rfl, id⟩

theorem queuesOk_of_section
    (hok : Timely c (t, a)) (hsec : hartSection t a c.shared (c.thread t) = some (s, k)) :
    QueuesOk ⟨s, update c.thread t k⟩ := by
  have hplace := hc.place t
  have hsame : Wakes c.shared c.shared := fun _ ↦ .inl rfl
  revert hsec
  fun_cases hartSection t a c.shared (c.thread t) with try rintro ⟨⟩
  | case1 =>
    intro hsec
    obtain ⟨⟨s₁, pc⟩, hadv, heq⟩ := map_eq_some_iff.mp hsec
    obtain ⟨rfl, rfl⟩ := Prod.mk.inj heq
    obtain ⟨hsched, hpc, hkeeps⟩ := schedOk_advance hc.sched (hown t) hplace hadv
    exact queuesOk_of_own hc hown hsched hpc hkeeps
  | case2 tid hpc =>
    rw [hpc] at hplace
    have howner := (hown t).owned tid (.inr (by rw [hpc]; rfl))
    refine queuesOk_of_own hc hown (hc.sched.prepareBlocked hplace) (.inl ?_) (.prepareBlocked howner)
    simp [SmpState.prepareBlocked, status_setStatus]
  | case4 tid hpc =>
    rw [hpc] at hplace
    exact queuesOk_of_own hc hown hc.sched hplace fun _ _ _ _ ↦ ⟨rfl, id⟩
  | case6 tid hpc =>
    rw [hpc] at hplace
    have howner := (hown t).owned tid (.inr (by rw [hpc]; rfl))
    have hrunning : (c.shared.tasks tid).status = .running := hplace
    refine queuesOk_of_own hc hown (hc.sched.setStatus (.inr (by simp))
      (hc.sched.not_blocked (by simp [hrunning]))) (.inl ?_) (.setStatus howner _)
    simp [status_setStatus]
  | case8 | case9 | case10 =>
    exact queuesOk_handoff hc hown
  | case12 tid =>
    exact queuesOk_of_wakes hc (hc.sched.wakeupTask tid) (wakes_wakeupTask hc.sched tid)
      (fun _ _ _ hu ↦ hu.wakeupTask tid) (.inl rfl)
  | case13 tid =>
    exact queuesOk_of_wakes hc (hc.sched.removeTask tid) hsame
      (fun _ _ _ hu ↦ .removeTask tid (.inr hu)) (.inl rfl)
  | case14 tid policy priority nice mask =>
    exact queuesOk_of_wakes hc (hc.sched.setTask rfl)
      (fun u ↦ .inl (field_setTask (·.status) (by rfl) u)) (fun _ _ _ ↦ id) (.inl rfl)
  | case16 | case19 | case21 =>
    exact queuesOk_of_wakes hc hc.sched hsame (fun _ _ _ ↦ id) (.inl rfl)
  | case17 =>
    exact queuesOk_of_wakes hc hc.sched hsame (fun _ _ _ ↦ id) (.inr rfl)
  | case22 =>
    intro hsec
    obtain ⟨op, hlate, heq⟩ := map_eq_some_iff.mp hsec
    obtain ⟨rfl, rfl⟩ := Prod.mk.inj heq
    exact queuesOk_late hc hlate hok rfl

end

theorem queuesOk_of_init (hc : SmpInit c) : QueuesOk c := by
  refine ⟨⟨fun tid queue ↦ ?_, fun tid queue hq ↦ ?_, fun tid hb ↦ ?_⟩, fun h ↦ ?_⟩
  · simp [hc.scheduler]
  · simp [hc.scheduler] at hq
  · simp [hc.scheduler] at hb
  · rw [hc.hart]
    trivial

theorem queuesOk_of_run (hrun : Run SmpInit Timely (Config.Step hartSection) c) : QueuesOk c := by
  refine hrun.invariant_of_auxiliary
    (fun _ ↦ hartOk_of_run) (fun _ ↦ queuesOk_of_init) ?_
  rintro c ⟨t, a⟩ c' hown hc hok hstep
  obtain ⟨s, k, hsec, rfl⟩ := Config.step_iff.mp hstep
  exact queuesOk_of_section hc hown hok hsec

/-- In every run in which the late sections find the status that they act on, whenever the scheduler lock
is free: no task is both indexed and blocked, none has two places in the queues, and no queued task is
Running or Blocked. -/
theorem consistent_of_run (hrun : Run SmpInit Timely (Config.Step hartSection) c) :
    Consistent c.shared := by
  have hs := (queuesOk_of_run hrun).sched
  refine ⟨fun tid ⟨hindexed, hblocked⟩ ↦ ?_, fun tid queue queue' i j hi hj ↦ ?_,
    fun tid queue hmem ↦ ?_⟩
  · rw [hs.index_eq_none (.inr (hs.blocked tid hblocked))] at hindexed
    simp at hindexed
  · exact hs.indexed.place_unique hi hj
  · exact hs.queued tid queue (hs.indexed.mem_iff.mp hmem)

end Runs

/-- Hart 0 runs task 1, which adds task 2 and changes its priority. `requeue_ready_task` sees it Ready. -/
def requeueBegins : List (Nat × HartAction) :=
  firstSwitch ++ [(0, .advance), (0, .addTask 2), (0, .late), (0, .setSched 2 1 5 0 3),
    (0, .requeue 2)]

/-- Hart 1 fetches task 2 before `requeue_ready_task` takes the lock: task 2 is Running, and in a queue. -/
theorem running_task_queued : ∃ c, Run SmpInit (fun _ _ ↦ True) (Config.Step hartSection) c ∧
      2 ∈ c.shared.scheduler.queues (.rt 5) ∧ (c.shared.tasks 2).status = .running ∧
      ¬ Consistent c.shared := by
  obtain ⟨c, hc⟩ : ∃ c, bootState.runLabels hartSection
      (requeueBegins ++ [(1, .advance), (1, .advance), (0, .late)]) = some c := ⟨_, rfl⟩
  have hrun : Run SmpInit (fun _ _ ↦ True) (Config.Step hartSection) c :=
    Config.run_of_runLabels (.start init_bootState) hc
  obtain rfl := some.inj hc
  exact ⟨_, hrun, by decide +kernel, rfl,
    fun hcons ↦ (hcons.status 2 (.rt 5) (by decide +kernel)).1 rfl⟩

/-- If nobody fetches it in between, task 2 moves to the queue of its new priority. -/
theorem consistent_after_requeue :
    ∃ c, Run SmpInit Timely (Config.Step hartSection) c ∧ Consistent c.shared ∧
      c.shared.scheduler.taskIndex 2 = some (.rt 5) := by
  have hstart : Run SmpInit Timely (Config.Step hartSection) _ := .start init_bootState
  have hadd := hstart.next (0, HartAction.addTask 2) trivial rfl
  have hlate := hadd.next (0, HartAction.late) ⟨rfl, fun h ↦ by
    by_cases hh : h = 0
    · simp [hh, bootState]
    · simp [hh, bootState]⟩ rfl
  have hsched := hlate.next (0, HartAction.setSched 2 1 5 0 3) trivial rfl
  have hrequeue := hsched.next (0, HartAction.requeue 2) trivial rfl
  have hmoved := hrequeue.next (0, HartAction.late) ⟨rfl, fun h ↦ by
    by_cases hh : h = 0
    · simp [hh, bootState]
    · simp [hh, bootState]⟩ rfl
  exact ⟨_, hmoved, consistent_of_run hmoved, rfl⟩

end RespOS.Task
