import RespOS.Task.ThreadGroup

/-!
# What one step does to a task of a process

`Frame` says, for any step of the threads of a process, what it leaves of a task and the only ways in which
the task becomes more alive: it is entered in the scheduler, in `TASK_MANAGER` or in the thread group, its
status changes back from Exited, or its code moves on. `frame` proves it, and `Sound` is the part of the
invariant that needs nothing else: a task that runs is in no structure of the scheduler unless it went to
sleep, and the child of a `clone_` is inert until its maker adds it.

From these follows what stays as it is once it holds (`Parked`, `Ended`, `Quiet`): a task that is to be
terminated and off its processor does not run again, and one that has exited and left the scheduler stays
out.
-/

namespace RespOS.Task

open RespOS.Basis Option Bool

/-! ### Which statements belong to what -/

/-- The lifecycle of a process that is torn down. -/
def Teardown.lifecycle : Teardown → Lifecycle
  | exit => .exiting
  | exec => .exec

theorem Teardown.lifecycle_ne (k : Teardown) :
    Lifecycle.running ≠ k.lifecycle ∧ Lifecycle.zombie ≠ k.lifecycle := by
  cases k <;> decide

variable {pc pc' : Pc} {c : Nat} {t : GroupTask} {e : GroupEffect}

namespace Pc

/-- The child of a `clone_` that has inserted it and not yet added it to the scheduler. -/
def child : Pc → Option Nat
  | cloned c | managed c | adding c => some c
  | _ => none

/-- Out of the thread group by `task_exit`, and not at the end of `exit_thread_inner`. -/
def IsLeaving : Pc → Bool
  | leaving | leavingStatus | leavingManager => true
  | _ => false

/-- The address space is released next. -/
def AtRecycle : Pc → Bool
  | recycle _ => true
  | _ => false

/-- In `exit_process_group` after the snapshot. -/
def PastSnapshot : Pc → Bool
  | terminate k _ _ | terminateStatus k _ _ _ | terminateRemove k _ _ _ | wait k _ _ =>
    decide (k = .exit)
  | exitClean .. | exitCleanStatus .. | exitCleanManager .. | exitCleanLeader _
  | clear _ | recycle _ | publish _ | exitLeader _ | removeLeader _ => true
  | _ => false

/-- In `execve` after the snapshot. -/
def PastExecSnapshot : Pc → Bool
  | terminate k _ _ | terminateStatus k _ _ _ | terminateRemove k _ _ _ | wait k _ _ =>
    decide (k = .exec)
  | execClean _ | execCleanStatus .. | execCleanGroup .. | execCleanManager ..
  | adoptManager | adoptGroup | adoptTid | adoptInsert | adoptManage | execFinish => true
  | _ => false

/-- The owner of an exit or an `execve` is here. -/
def Active : Pc → Bool
  | mark | exitSnapshot | execSnapshot | terminate .. | terminateStatus .. | terminateRemove ..
  | wait .. => true
  | pc => pc.PastSnapshot || pc.PastExecSnapshot

/-- The lifecycles of the process when its owner is at the statement. -/
def Expects : Pc → Lifecycle → Bool
  | terminate k _ _, l | terminateStatus k _ _ _, l | terminateRemove k _ _ _, l | wait k _ _, l =>
    decide (l = k.lifecycle)
  | exitLeader _, l | removeLeader _, l => decide (l = .zombie ∨ l = .reaped)
  | mark, l | exitSnapshot, l | exitClean .., l | exitCleanStatus .., l | exitCleanManager .., l
  | exitCleanLeader _, l | clear _, l | recycle _, l | publish _, l => decide (l = .exiting)
  | execSnapshot, l | execClean _, l | execCleanStatus .., l | execCleanGroup .., l
  | execCleanManager .., l | adoptManager, l | adoptGroup, l | adoptTid, l | adoptInsert, l
  | adoptManage, l | execFinish, l => decide (l = .exec)
  | _, _ => true

theorem expects_of_not_active (h : pc.Active = false) (l : Lifecycle) : pc.Expects l = true := by
  cases pc <;> simp_all [Active, PastSnapshot, PastExecSnapshot, Expects]

theorem not_running_of_active (h : pc.Active = true) (hexpects : pc.Expects .running = true) :
    False := by
  cases pc <;> simp_all [Active, PastSnapshot, PastExecSnapshot, Expects]
  all_goals exact absurd hexpects (Teardown.lifecycle_ne _).1

theorem expects_reaped (h : pc.Expects .zombie = true) : pc.Expects .reaped = true := by
  cases pc <;> simp_all [Expects]
  all_goals exact absurd h (Teardown.lifecycle_ne _).2

theorem active_of_past (h : pc.PastSnapshot = true ∨ pc.PastExecSnapshot = true) :
    pc.Active = true := by
  cases pc <;> simp_all [Active, PastSnapshot, PastExecSnapshot]

/-- A thread that has ended stays so from here on. -/
def Closing (pc : Pc) : Bool := pc = leavingManager || pc = done || pc.PastSnapshot

theorem of_child (h : pc.child = some c) : pc.IsLeaving = false ∧ pc.Closing = false := by
  cases pc with
  | cloned | managed | adding => exact ⟨rfl, rfl⟩
  | _ => nomatch h

theorem not_ended_of_active {l : Lifecycle} (h : pc.Active = true) (hpast : pc.PastSnapshot = false)
    (hexpects : pc.Expects l = true) : l ≠ .zombie ∧ l ≠ .reaped := by
  cases pc <;> simp_all [Active, PastSnapshot, PastExecSnapshot, Expects]
  all_goals cases ‹Teardown› <;> simp_all [Teardown.lifecycle]

end Pc

/-- The thread that a label moves on in its code. -/
def GroupLabel.actor : GroupLabel → Option Nat
  | .block o | .unblock o | .clone o _ | .taskExit o | .groupExit o | .beginExec o | .step o => some o
  | .claim _ | .handoff _ | .publish _ | .wakeup _ | .reap => none

/-! ### Tasks that are stopped -/

namespace GroupTask

/-- To be terminated and off its processor: it does not run again. -/
def Dead (t : GroupTask) : Prop := t.terminateRequested = true ∧ t.cpu = .off

/-- In no structure of the scheduler. -/
def Unscheduled (t : GroupTask) : Prop := t.ready = false ∧ t.blocked = false

/-- Exited, in no structure of the scheduler and not in `TASK_MANAGER`. -/
def Gone (t : GroupTask) : Prop := t.status = .exited ∧ t.Unscheduled ∧ t.managed = false

/-- On its last statements, or past them, with nothing on the way to the ready queue. -/
def Finishing (t : GroupTask) : Prop :=
  t.pc.Closing = true ∧ (t.cpu = .on ∨ t.cpu = .handing ∨ t.cpu = .releasing ∨ t.cpu = .off)

/-- The scheduler has a task that runs in none of its structures, unless the task has gone to sleep. -/
structure Coherent (t : GroupTask) : Prop where
  exclusive : t.ready = true → t.blocked = false
  on : t.cpu = .on → t.pc ≠ .sleeping ∨ t.status = .running → t.Unscheduled
  handing : t.cpu = .handing → t.status = .running → t.Unscheduled
  publishing : t.cpu = .wasRunning ∨ t.cpu = .readied ∨ t.cpu = .adding → t.Unscheduled

end GroupTask

theorem GroupTask.Coherent.tame {t' : GroupTask} (h : t.Coherent) (hcpu : t'.cpu = t.cpu)
    (hpc : t'.pc = t.pc) (hstatus : t'.status = .running → t.status = .running)
    (hready : t'.ready = true → t.ready = true) (hblocked : t'.blocked = true → t.blocked = true) :
    t'.Coherent := by
  have hidle : t.Unscheduled → t'.Unscheduled := fun hu ↦
    ⟨eq_false_iff.mpr fun hr ↦ absurd (hready hr) (by simp [hu.1]),
      eq_false_iff.mpr fun hb ↦ absurd (hblocked hb) (by simp [hu.2])⟩
  constructor
  · intro hr
    exact eq_false_iff.mpr fun hb ↦
      absurd (hblocked hb) (by simp [h.exclusive (hready hr)])
  · intro hon hcond
    rw [hcpu] at hon
    rw [hpc] at hcond
    exact hidle (h.on hon (hcond.imp_right hstatus))
  · intro hhanding hrunning
    exact hidle (h.handing (hcpu ▸ hhanding) (hstatus hrunning))
  · intro hpub
    rw [hcpu] at hpub
    exact hidle (h.publishing hpub)

namespace GroupWorld

/-- No running thread is on the way to add the task to the scheduler. -/
def NoAdder (w : GroupWorld) (x : Nat) : Prop :=
  ∀ s, (w.tasks s).pc.child = some x → (w.tasks s).Dead

/-- Stopped by others and out of the scheduler. -/
def Parked (w : GroupWorld) (x : Nat) : Prop :=
  (w.tasks x).Dead ∧ (w.tasks x).Unscheduled ∧ w.NoAdder x

/-- Exited and out of the scheduler for good. -/
def Ended (w : GroupWorld) (x : Nat) : Prop :=
  (w.tasks x).status = .exited ∧ (w.tasks x).Unscheduled ∧ w.NoAdder x ∧
    ((w.tasks x).Dead ∨ (w.tasks x).Finishing)

/-- And out of `TASK_MANAGER`. -/
def Quiet (w : GroupWorld) (x : Nat) : Prop := w.Ended x ∧ (w.tasks x).managed = false

section Act

variable {w : GroupWorld} {o x : Nat} {e : GroupEffect} {t : GroupTask}

@[simp] theorem act_pc : (w.act o e x t).pc = t.pc := by
  unfold act
  split <;> (try split_ifs) <;> rfl

@[simp] theorem act_cpu : (w.act o e x t).cpu = t.cpu := by
  unfold act
  split <;> (try split_ifs) <;> rfl

/-- What an effect of the thread `o` leaves of a task, and the ways in which it makes it more alive. -/
structure Acts (o x : Nat) (e : GroupEffect) (t t' : GroupTask) : Prop where
  tid : t'.tid = t.tid ∨ e = .adoptTid ∧ x = o
  terminate : t.terminateRequested = true → t'.terminateRequested = true
  status : t.status = .exited → t'.status = .exited ∨ e = .setRunning ∧ x = o
  running : t'.status = .running → t.status = .running ∨ e = .setRunning ∧ x = o
  ready : t'.ready = true → t.ready = true ∨ e = .enqueue x
  blocked : t'.blocked = true → t.blocked = true ∨ e = .block ∧ x = o
  managed : t'.managed = true → t.managed = true ∨ e = .manage x
  inGroup : t'.inGroup = true → t.inGroup = true ∨ e = .group x

theorem acts : Acts o x e t (w.act o e x t) := by
  unfold act
  split <;> (try split_ifs) <;> constructor <;> simp_all

end Act

/-- Where the code has an effect, and where it goes on from there. -/
def StandsAt (w : GroupWorld) (o : Nat) (pc pc' : Pc) : GroupEffect → Prop
  | .enqueue x => pc = .adding x
  | .manage x => pc = .cloned x ∨ pc = .adoptManage ∧ x = o
  | .group x => pc = .adoptInsert ∧ x = o
  | .ungroup tid => (∃ t rest, pc = .execCleanGroup t rest ∧ tid = (w.tasks t).tid) ∨
    pc = .adoptGroup ∧ tid = (w.tasks o).tid
  | .clearGroup => ∃ leader, pc = .clear leader
  | .leave => pc = .leaveChecked
  | .lifecycle c => (w.lifecycle = .running ∧ c = .exiting) ∨
    (∃ leader, pc = .publish leader ∧ c = .zombie ∧ pc' = .exitLeader leader) ∨
    pc = .execFinish ∧ c = .running ∧ pc' = .user
  | .setRunning => pc = .unblocked
  | .adoptTid => pc = .adoptTid
  | .block => False
  | _ => True

/-- Where the code goes on after a statement. -/
structure GoesOn (w : GroupWorld) (o : Nat) (pc pc' : Pc) : Prop where
  closing : pc.Closing = true → pc'.Closing = true
  child : ∀ {x}, pc'.child = some x → pc.child = some x
  leaving : pc.IsLeaving = true → pc'.IsLeaving = true ∨ pc = .leavingManager
  active : pc'.Active = true → pc.Active = true ∨ w.lifecycle = .running
  leaveChecked : pc' ≠ .leaveChecked
  awake : pc = .sleeping → (w.tasks o).status = .running

section Statement

variable {w : GroupWorld} {o x : Nat} {pc pc' : Pc} {e : GroupEffect}
  (h : w.statement o pc = some (e, pc'))
include h

theorem statement_effect : w.StandsAt o pc pc' e := by
  unfold statement at h
  split at h
  all_goals try split_ifs at h
  all_goals cases h
  all_goals first
    | trivial
    | exact .inl rfl
    | exact ⟨rfl, rfl⟩
    | exact .inr ⟨rfl, rfl⟩
    | exact ⟨_, rfl⟩
    | exact .inl ⟨_, _, rfl, rfl⟩
    | exact .inl ⟨‹_›, rfl⟩
    | exact .inr (.inl ⟨_, rfl, rfl, rfl⟩)
    | exact .inr (.inr ⟨rfl, rfl, rfl⟩)

theorem statement_goesOn : w.GoesOn o pc pc' := by
  unfold statement at h
  split at h
  all_goals try split_ifs at h
  all_goals cases h
  all_goals constructor
  all_goals first
    | exact id
    | exact fun _ ↦ rfl
    | exact .inl rfl
    | exact .inr rfl
    | exact fun _ ↦ .inl rfl
    | exact fun _ ↦ .inr rfl
    | exact fun _ ↦ .inr ‹_›
    | exact fun _ ↦ ‹_›
    | exact nofun

end Statement

/-! ### What a step does to a task -/

/-- What any step leaves of a task, and the only ways in which it becomes more alive. -/
structure Frame (w w' : GroupWorld) (l : GroupLabel) (x : Nat) : Prop where
  tid : (w'.tasks x).tid = (w.tasks x).tid ∨ l = .step x ∧ w.At x .adoptTid
  terminate : (w.tasks x).terminateRequested = true → (w'.tasks x).terminateRequested = true
  dead : (w.tasks x).Dead → (w'.tasks x).Dead
  pc : (w'.tasks x).pc = (w.tasks x).pc ∨ l.actor = some x
  ready : (w'.tasks x).ready = true → (w.tasks x).ready = true ∨ (w.tasks x).blocked = true ∨
    (w.tasks x).cpu = .adding ∨ ∃ o, l = .step o ∧ w.At o (.adding x)
  blocked : (w'.tasks x).blocked = true → (w.tasks x).blocked = true ∨ w.At x .user
  managed : (w'.tasks x).managed = true → (w.tasks x).managed = true ∨
    (∃ o, l = .step o ∧ w.At o (.cloned x)) ∨ w.At x .adoptManage
  status : (w.tasks x).status = .exited → (w'.tasks x).status = .exited ∨
    (w.tasks x).cpu = .wasRunning ∨ (w.tasks x).blocked = true ∨ w.At x .user ∨ w.At x .unblocked
  inGroup : (w'.tasks x).inGroup = true → (w.tasks x).inGroup = true ∨
    l = .step x ∧ w.At x .adoptInsert
  finishing : (w.tasks x).status = .exited → (w.tasks x).ready = false → (w.tasks x).Finishing →
    (w'.tasks x).Finishing
  off : (w.tasks x).cpu = .off → (w.tasks x).ready = false → (w'.tasks x).cpu = .off

section Frame

variable {w w' : GroupWorld} {o x : Nat} {l : GroupLabel}

theorem Frame.of_scheduled {status : TaskStatus} {ready blocked : Bool} {cpu : Cpu} {pc : Pc}
    (h : w'.tasks x = { w.tasks x with
      status := status, ready := ready, blocked := blocked, cpu := cpu, pc := pc })
    (hpc : pc = (w.tasks x).pc ∨ l.actor = some x)
    (hready : ready = true → (w.tasks x).ready = true ∨ (w.tasks x).blocked = true ∨
      (w.tasks x).cpu = .adding ∨ ∃ o, l = .step o ∧ w.At o (.adding x))
    (hblocked : blocked = true → (w.tasks x).blocked = true ∨ w.At x .user)
    (hstatus : (w.tasks x).status = .exited → status = .exited ∨
      (w.tasks x).cpu = .wasRunning ∨ (w.tasks x).blocked = true ∨ w.At x .user ∨
      w.At x .unblocked)
    (hfin : (w.tasks x).status = .exited → (w.tasks x).Finishing →
      pc.Closing = true ∧ (cpu = .on ∨ cpu = .handing ∨ cpu = .releasing ∨ cpu = .off))
    (hoff : (w.tasks x).cpu = .off →
      (w.tasks x).terminateRequested = true ∨ (w.tasks x).ready = false → cpu = .off) :
    Frame w w' l x := by
  constructor <;> rw [h]
  · exact .inl rfl
  · exact id
  · exact fun hdead ↦ ⟨hdead.1, hoff hdead.2 (.inl hdead.1)⟩
  · exact hpc
  · exact hready
  · exact hblocked
  · exact .inl
  · exact hstatus
  · exact .inl
  · exact fun hexited _ ↦ hfin hexited
  · exact fun hcpu hready ↦ hoff hcpu (.inr hready)

theorem Frame.of_eq (h : w'.tasks x = w.tasks x) : Frame w w' l x :=
  .of_scheduled h (.inl rfl) .inl .inl .inl (fun _ ↦ id) fun hoff _ ↦ hoff

section

variable (w : GroupWorld)

theorem tasks_modify_self (o : Nat) (f : GroupTask → GroupTask) :
    (w.modify o f).tasks o = f (w.tasks o) := Function.update_self ..

theorem tasks_requeue (x : Nat) : ((w.perform x (.enqueue x)).setCpu x .releasing).tasks x =
      { w.tasks x with ready := true, cpu := .releasing } := by
  simp [GroupWorld.setCpu, tasks_modify_self, perform, act]

theorem tasks_block (x : Nat) : ((w.perform x .block).modify x fun task ↦
      { task with status := .blocked, pc := .sleeping }).tasks x =
      { w.tasks x with blocked := true, status := .blocked, pc := .sleeping } := by
  simp [tasks_modify_self, perform, act]

theorem tasks_unblock (x : Nat) :
    ((w.perform x (.removeTask (w.tasks x).tid)).setPc x .unblocked).tasks x =
      { w.tasks x with ready := false, blocked := false, pc := .unblocked } := by
  simp [GroupWorld.setPc, tasks_modify_self, perform, act]

theorem tasks_wakeup (x : Nat) :
    ((w.modify x fun task ↦ { task with status := .ready, blocked := false }).perform x
      (.enqueue x)).tasks x = { w.tasks x with status := .ready, blocked := false, ready := true } := by
  simp [perform, act, tasks_modify_self]

theorem tasks_modify_of_ne {o x : Nat} (h : x ≠ o) (f : GroupTask → GroupTask) :
    (w.modify o f).tasks x = w.tasks x := Function.update_of_ne h ..

theorem of_modify {P : GroupTask → Prop} {f : GroupTask → GroupTask}
    (hother : x ≠ o → P (w.tasks x)) (hself : x = o → P (f (w.tasks x))) :
    P ((w.modify o f).tasks x) := by
  by_cases hx : x = o
  · subst hx
    rw [tasks_modify_self]
    exact hself rfl
  · rw [tasks_modify_of_ne w hx]
    exact hother hx

theorem Frame.setCpu {cpu : Cpu} (hon : (w.tasks o).cpu ≠ .off)
    (hcpu : (w.tasks o).status = .exited → (w.tasks o).Finishing →
      cpu = .on ∨ cpu = .handing ∨ cpu = .releasing ∨ cpu = .off) : Frame w (w.setCpu o cpu) l x := by
  by_cases hx : x = o
  · subst hx
    exact .of_scheduled (tasks_modify_self ..) (.inl rfl) .inl .inl .inl
      (fun hexited hfin ↦ ⟨hfin.1, hcpu hexited hfin⟩) fun hoff ↦ absurd hoff hon
  · exact .of_eq (tasks_modify_of_ne w hx _)

end

theorem Frame.setPc (htask : w'.tasks x = (w.setPc o pc).tasks x) (hat : w.At o .user)
    (hactor : l.actor = some o) : Frame w w' l x := by
  by_cases hx : x = o
  · subst hx
    exact .of_scheduled (htask.trans (tasks_modify_self ..)) (.inr hactor) .inl .inl .inl
      (fun _ hfin ↦ absurd hfin.1 (by rw [hat.2]; decide)) fun hoff _ ↦ hoff
  · exact .of_eq (htask.trans (tasks_modify_of_ne w hx _))

theorem field_setPc {α : Type} (f : GroupTask → α) (hf : ∀ t pc, f { t with pc := pc } = f t) :
    f (((w.perform o e).setPc o pc').tasks x) = f (w.act o e x (w.tasks x)) :=
  of_modify (P := fun t ↦ f t = f (w.act o e x (w.tasks x))) _ (fun _ ↦ rfl) fun _ ↦ hf _ _

theorem Frame.of_acts (hacts : Acts o x e (w.tasks x) (w'.tasks x))
    (hcpu : (w'.tasks x).cpu = (w.tasks x).cpu)
    (hpc : (w'.tasks x).pc = (w.tasks x).pc ∨ l.actor = some x)
    (hclosing : (w.tasks x).pc.Closing = true → (w'.tasks x).pc.Closing = true)
    (htid : e = .adoptTid ∧ x = o → l = .step x ∧ w.At x .adoptTid)
    (hready : e = .enqueue x → ∃ o, l = .step o ∧ w.At o (.adding x))
    (hblocked : e = .block ∧ x = o → w.At x .user)
    (hmanaged : e = .manage x → (∃ o, l = .step o ∧ w.At o (.cloned x)) ∨ w.At x .adoptManage)
    (hstatus : e = .setRunning ∧ x = o → w.At x .unblocked)
    (hin : e = .group x → l = .step x ∧ w.At x .adoptInsert) : Frame w w' l x where
  tid := hacts.tid.imp_right htid
  terminate := hacts.terminate
  dead h := ⟨hacts.terminate h.1, hcpu.trans h.2⟩
  pc := hpc
  ready h := (hacts.ready h).imp_right fun he ↦ .inr (.inr (hready he))
  blocked h := (hacts.blocked h).imp_right hblocked
  managed h := (hacts.managed h).imp_right hmanaged
  status h := (hacts.status h).imp_right fun he ↦ .inr (.inr (.inr (hstatus he)))
  inGroup h := (hacts.inGroup h).imp_right hin
  finishing _ _ h := ⟨hclosing h.1, hcpu ▸ h.2⟩
  off h _ := hcpu.trans h

theorem Frame.statement (hon : (w.tasks o).cpu = .on)
    (h : w.statement o (w.tasks o).pc = some (e, pc')) :
    Frame w ((w.perform o e).setPc o pc') (.step o) x := by
  have hacts : Acts o x e (w.tasks x) (w.act o e x (w.tasks x)) := acts
  have hself : x = o → (((w.perform o e).setPc o pc').tasks x).pc = pc' := by
    rintro rfl
    exact congrArg GroupTask.pc (tasks_modify_self ..)
  have hother (hx : x ≠ o) : (((w.perform o e).setPc o pc').tasks x).pc = (w.tasks x).pc :=
    (congrArg GroupTask.pc (tasks_modify_of_ne _ hx _)).trans act_pc
  refine .of_acts (of_modify _ (fun _ ↦ hacts)
    fun _ ↦ { hacts with })
    ((field_setPc GroupTask.cpu fun _ _ ↦ rfl).trans act_cpu) ?_ (fun hclosing ↦ ?_) ?_ ?_ ?_ ?_ ?_ ?_
  · by_cases hx : x = o
    · exact .inr (hx ▸ rfl)
    · exact .inl (hother hx)
  · by_cases hx : x = o
    · rw [hself hx]
      exact (statement_goesOn h).closing (hx ▸ hclosing)
    · rwa [hother hx]
  · rintro ⟨rfl, rfl⟩
    exact ⟨rfl, hon, statement_effect h⟩
  · rintro rfl
    exact ⟨o, rfl, hon, statement_effect h⟩
  · rintro ⟨rfl, rfl⟩
    exact (statement_effect h).elim
  · rintro rfl
    rcases statement_effect h with hpc | ⟨hpc, rfl⟩
    · exact .inl ⟨o, rfl, hon, hpc⟩
    · exact .inr ⟨hon, hpc⟩
  · rintro ⟨rfl, rfl⟩
    exact ⟨hon, statement_effect h⟩
  · rintro rfl
    obtain ⟨hpc, rfl⟩ := statement_effect h
    exact ⟨rfl, hon, hpc⟩

theorem Frame.of_act {w₀ : GroupWorld} (htask : w'.tasks x = w₀.act o e x (w.tasks x)) (hx : x ≠ o)
    (he : e = .enqueue o ∨ e = .block ∨ ∃ tid, e = .removeTask tid) : Frame w w' l x := by
  refine .of_acts (htask ▸ acts) (htask ▸ act_cpu) (.inl (htask ▸ act_pc)) ?_
    (absurd ·.2 hx) ?_ (absurd ·.2 hx) ?_ (absurd ·.2 hx) ?_
  · rw [htask, act_pc]
    exact id
  all_goals
    rintro rfl
    simp [hx] at he

theorem step_eq (h : w.Step (.step o) w') : (w.tasks o).cpu = .on ∧ ∃ e pc',
    w.statement o (w.tasks o).pc = some (e, pc') ∧ w' = (w.perform o e).setPc o pc' := by
  simp only [Step, next] at h
  split_ifs at h with hon
  rcases map_eq_some_iff.mp h with ⟨⟨e, pc'⟩, hstatement, heq⟩
  exact ⟨hon, e, pc', hstatement, heq.symm⟩

theorem frame (h : w.Step l w') (hx : x < w.count ∨ w'.count ≤ x) : Frame w w' l x := by
  cases l with try obtain ⟨hc, rfl⟩ := of_guard h
  | claim o =>
    by_cases hxo : x = o
    · subst hxo
      exact .of_scheduled (tasks_modify_self ..) (.inl rfl) nofun .inl
        (fun hexited ↦ absurd hexited (by simp [hc.2.1]))
        (fun hexited ↦ absurd hexited (by simp [hc.2.1])) (by simp [hc.2.2.1, hc.1])
    · exact .of_eq (tasks_modify_of_ne w hxo _)
  | handoff o =>
    exact .setCpu w (by simp [hc]) fun _ _ ↦ .inr (.inl rfl)
  | publish o =>
    simp only [Step, next] at h
    split at h
    · rename_i hcpu
      obtain rfl := some.inj h
      refine .setCpu w (by simp [hcpu]) fun hexited _ ↦ ?_
      rw [if_neg (by simp [hexited])]
      exact .inr (.inr (.inl rfl))
    · rename_i hcpu
      obtain rfl := some.inj h
      by_cases hxo : x = o
      · subst hxo
        exact .of_scheduled (tasks_modify_self ..) (.inl rfl) .inl .inl (fun _ ↦ .inr (.inl hcpu))
          (fun _ hfin ↦ absurd hfin.2 (by simp [hcpu])) (by simp [hcpu])
      · exact .of_eq (tasks_modify_of_ne w hxo _)
    · rename_i hcpu
      split_ifs at h
      obtain rfl := some.inj h
      exact .setCpu w (by simp [hcpu]) fun _ hfin ↦ absurd hfin.2 (by simp [hcpu])
    · rename_i hcpu
      obtain rfl := some.inj h
      by_cases hxo : x = o
      · subst hxo
        exact .of_scheduled (tasks_requeue ..) (.inl rfl) (fun _ ↦ .inr (.inr (.inl hcpu))) .inl
          .inl (fun _ hfin ↦ absurd hfin.2 (by simp [hcpu])) (by simp [hcpu])
      · have htask : ((w.perform o (.enqueue o)).setCpu o .releasing).tasks x =
            w.act o (.enqueue o) x (w.tasks x) := tasks_modify_of_ne _ hxo _
        exact .of_act htask hxo (.inl rfl)
    · rename_i hcpu
      obtain rfl := some.inj h
      exact .setCpu w (by simp [hcpu]) fun _ _ ↦ .inr (.inr (.inr rfl))
    · nomatch h
    · nomatch h
  | block o =>
    by_cases hxo : x = o
    · subst hxo
      exact .of_scheduled (tasks_block ..) (.inr rfl) .inl (fun _ ↦ .inr hc)
        (fun _ ↦ .inr (.inr (.inr (.inl hc))))
        (fun _ hfin ↦ absurd hfin.1 (by rw [hc.2]; decide)) (by simp [hc.1])
    · exact .of_act (tasks_modify_of_ne _ hxo _) hxo (.inr (.inl rfl))
  | unblock o =>
    by_cases hxo : x = o
    · subst hxo
      exact .of_scheduled (tasks_unblock ..) (.inr rfl) nofun nofun .inl
        (fun _ hfin ↦ absurd hfin.1 (by rw [hc.2]; decide)) (by simp [hc.1])
    · have htask : ((w.perform o (.removeTask (w.tasks o).tid)).setPc o .unblocked).tasks x =
          w.act o (.removeTask (w.tasks o).tid) x (w.tasks x) := tasks_modify_of_ne _ hxo _
      exact .of_act htask hxo (.inr (.inr ⟨_, rfl⟩))
  | wakeup o =>
    by_cases hxo : x = o
    · subst hxo
      exact .of_scheduled (tasks_wakeup ..) (.inl rfl) (fun _ ↦ .inr (.inl hc)) nofun
        (fun _ ↦ .inr (.inr (.inl hc))) (fun _ ↦ id) fun hoff _ ↦ hoff
    · generalize hw : (w.modify o fun task ↦ { task with status := .ready, blocked := false }) = w₀
      have hsame : w₀.tasks x = w.tasks x := hw ▸ tasks_modify_of_ne w hxo _
      have htask : (w₀.perform o (.enqueue o)).tasks x = w₀.act o (.enqueue o) x (w.tasks x) :=
        congrArg (w₀.act o (.enqueue o) x) hsame
      exact .of_act htask hxo (.inl rfl)
  | clone o tid =>
    have hne : x ≠ w.count := by
      rcases hx with hx | hx
      · exact Nat.ne_of_lt hx
      · exact Nat.ne_of_gt hx
    exact .setPc (Function.update_of_ne hne ..) hc.1 rfl
  | taskExit o =>
    simp only [Step, next] at h
    split_ifs at h with hc hexit
    all_goals
      obtain rfl := some.inj h
      exact .setPc rfl hc.1 rfl
  | groupExit o =>
    exact .setPc rfl hc rfl
  | beginExec o =>
    exact .setPc rfl hc.1 rfl
  | step o =>
    obtain ⟨hon, e, pc', hstatement, rfl⟩ := step_eq h
    exact .statement hon hstatement
  | reap =>
    exact .of_eq rfl

end Frame

/-! ### The scheduler and the threads in the middle of a `clone_` -/

/-- Every task is coherent; a task that is not made yet does nothing, and neither does the child of a
`clone_` that has not added it, of which there is one thread in the middle of it. -/
structure Sound (w : GroupWorld) : Prop where
  coherent : ∀ x, (w.tasks x).Coherent
  unmade : ∀ x, w.count ≤ x → (w.tasks x).cpu = .off ∧ (w.tasks x).Unscheduled ∧
    (w.tasks x).pc = .user ∧ (w.tasks x).inGroup = false
  child : ∀ s c, (w.tasks s).pc.child = some c → c < w.count ∧ (w.tasks c).cpu = .off ∧
    (w.tasks c).Unscheduled ∧ (w.tasks c).pc = .user
  child_unique : ∀ s s' c, (w.tasks s).pc.child = some c → (w.tasks s').pc.child = some c → s = s'

section Sound

variable {w w' : GroupWorld} {l : GroupLabel} {o x : Nat}

theorem Sound.lt_of_pc (hS : w.Sound) (h : (w.tasks x).pc ≠ .user) : x < w.count :=
  Nat.lt_of_not_le fun hge ↦ h (hS.unmade x hge).2.2.1

theorem Sound.lt_of_inGroup (hS : w.Sound) (h : (w.tasks x).inGroup = true) : x < w.count :=
  Nat.lt_of_not_le fun hge ↦ by simp [(hS.unmade x hge).2.2.2] at h

theorem coherent_perform (w : GroupWorld) (h : (w.tasks x).Coherent) (hx : x ≠ o)
    (he : e ≠ .enqueue x) : ((w.perform o e).tasks x).Coherent :=
  h.tame act_cpu act_pc (fun hr ↦ (acts.running hr).resolve_right fun hself ↦ hx hself.2)
    (fun hr ↦ (acts.ready hr).resolve_right he)
    (fun hb ↦ (acts.blocked hb).resolve_right fun hself ↦ hx hself.2)

theorem coherent_on (hon : t.cpu = .on) (hidle : t.Unscheduled) : t.Coherent where
  exclusive hr := absurd hr (by simp [hidle.1])
  on _ _ := hidle
  handing hh := absurd hh (by simp [hon])
  publishing hp := absurd hp (by simp [hon])

theorem coherent_setPc (w : GroupWorld) (hC : ∀ y, (w.tasks y).Coherent) (hat : w.At o .user)
    (x : Nat) : ((w.setPc o pc).tasks x).Coherent := by
  refine of_modify w (fun _ ↦ hC x) fun hx ↦ ?_
  subst hx
  exact coherent_on hat.1 ((hC x).on hat.1 (.inl (by simp [hat.2])))

theorem Sound.coherent_step (hS : w.Sound) (h : w.Step l w') (x : Nat) : (w'.tasks x).Coherent := by
  have hC := hS.coherent x
  cases l with try obtain ⟨hc, rfl⟩ := of_guard h
  | claim o =>
    refine of_modify w (fun _ ↦ hC) fun hx ↦ ?_
    subst hx
    exact coherent_on rfl ⟨rfl, hC.exclusive hc.1⟩
  | handoff o =>
    refine of_modify w (fun _ ↦ hC) fun hx ↦ ?_
    subst hx
    exact ⟨hC.exclusive, nofun, fun _ hrunning ↦ hC.on hc (.inr hrunning), nofun⟩
  | publish o =>
    simp only [Step, next] at h
    split at h
    · rename_i hcpu
      obtain rfl := some.inj h
      refine of_modify w (fun _ ↦ hC) fun hx ↦ ?_
      subst hx
      split_ifs with hrunning
      · exact ⟨hC.exclusive, nofun, nofun, fun _ ↦ hC.handing hcpu hrunning.1⟩
      · exact ⟨hC.exclusive, nofun, nofun, nofun⟩
    · rename_i hcpu
      obtain rfl := some.inj h
      refine of_modify w (fun _ ↦ hC) fun hx ↦ ?_
      subst hx
      exact ⟨hC.exclusive, nofun, nofun, fun _ ↦ hC.publishing (.inl hcpu)⟩
    · rename_i hcpu
      split_ifs at h
      obtain rfl := some.inj h
      refine of_modify (P := GroupTask.Coherent) w (fun _ ↦ hC) fun hx ↦ ?_
      subst hx
      exact ⟨hC.exclusive, nofun, nofun, fun _ ↦ hC.publishing (.inr (.inl hcpu))⟩
    · rename_i hcpu
      obtain rfl := some.inj h
      by_cases hx : x = o
      · subst hx
        rw [tasks_requeue]
        exact ⟨fun _ ↦ (hC.publishing (.inr (.inr hcpu))).2, nofun, nofun, nofun⟩
      · rw [GroupWorld.setCpu, tasks_modify_of_ne _ hx]
        exact coherent_perform w hC hx (by simpa using Ne.symm hx)
    · rename_i hcpu
      obtain rfl := some.inj h
      exact of_modify (P := GroupTask.Coherent) w (fun _ ↦ hC) fun _ ↦ ⟨hC.exclusive, nofun, nofun, nofun⟩
    · nomatch h
    · nomatch h
  | block o =>
    by_cases hx : x = o
    · subst hx
      have hidle := hC.on hc.1 (.inl (by simp [hc.2]))
      rw [tasks_block]
      exact ⟨fun hr ↦ absurd hr (by simp [hidle.1]), fun _ hcond ↦ absurd hcond (by simp),
        fun hh ↦ absurd hh (by simp [hc.1]), fun hp ↦ absurd hp (by simp [hc.1])⟩
    · rw [tasks_modify_of_ne _ hx]
      exact coherent_perform w hC hx (by simp)
  | unblock o =>
    by_cases hx : x = o
    · subst hx
      rw [tasks_unblock]
      exact coherent_on hc.1 ⟨rfl, rfl⟩
    · rw [GroupWorld.setPc, tasks_modify_of_ne _ hx]
      exact coherent_perform w hC hx (by simp)
  | wakeup o =>
    by_cases hx : x = o
    · subst hx
      have hnot : ¬ (w.tasks x).Unscheduled := fun hidle ↦ absurd hc (by simp [hidle.2])
      rw [tasks_wakeup]
      refine ⟨fun _ ↦ rfl, fun hon hcond ↦ ?_, fun _ hrunning ↦ (nomatch hrunning),
        fun hp ↦ absurd (hC.publishing hp) hnot⟩
      rcases hcond with hpc | hrunning
      · exact absurd (hC.on hon (.inl hpc)) hnot
      · nomatch hrunning
    · rw [← tasks_modify_of_ne w hx] at hC
      exact coherent_perform _ hC hx (by simpa using Ne.symm hx)
  | clone o tid =>
    show (Function.update (w.setPc o _).tasks w.count _ x).Coherent
    by_cases hnew : x = w.count
    · subst hnew
      rw [Function.update_self]
      exact ⟨nofun, nofun, nofun, nofun⟩
    · rw [Function.update_of_ne hnew]
      exact coherent_setPc w hS.coherent hc.1 x
  | taskExit o =>
    simp only [Step, next] at h
    split_ifs at h with hc hexit
    all_goals
      obtain rfl := some.inj h
      exact coherent_setPc w hS.coherent hc.1 x
  | groupExit o =>
    exact coherent_setPc w hS.coherent hc x
  | beginExec o =>
    exact coherent_setPc w hS.coherent hc.1 x
  | step o =>
    obtain ⟨hon, e, pc', hstatement, rfl⟩ := step_eq h
    -- the child of a `clone_` is the one task that enters the scheduler here
    have hchild : e = .enqueue x → (w.tasks x).cpu = .off ∧ (w.tasks x).Unscheduled := by
      rintro rfl
      have hc := hS.child o x (by rw [statement_effect hstatement]; rfl)
      exact ⟨hc.2.1, hc.2.2.1⟩
    by_cases hx : x = o
    · subst hx
      have hidle := hC.on hon (by
        by_cases hsleep : (w.tasks x).pc = .sleeping
        · exact .inr ((statement_goesOn hstatement).awake hsleep)
        · exact .inl hsleep)
      rw [GroupWorld.setPc, tasks_modify_self]
      refine coherent_on (act_cpu.trans hon) ⟨?_, ?_⟩
      · refine eq_false_iff.mpr fun hr ↦ ?_
        rcases acts.ready hr with hold | heq
        · exact absurd hold (by simp [hidle.1])
        · exact absurd (hchild heq).1 (by simp [hon])
      · refine eq_false_iff.mpr fun hb ↦ ?_
        rcases acts.blocked hb with hold | ⟨rfl, -⟩
        · exact absurd hold (by simp [hidle.2])
        · exact statement_effect hstatement
    · rw [GroupWorld.setPc, tasks_modify_of_ne _ hx]
      by_cases he : e = .enqueue x
      · rcases hchild he with ⟨hoff, hidle⟩
        have hcpu : ((w.perform o e).tasks x).cpu = .off := act_cpu.trans hoff
        refine ⟨fun _ ↦ ?_, fun hon ↦ absurd hon (by simp [hcpu]),
          fun hh ↦ absurd hh (by simp [hcpu]), fun hp ↦ absurd hp (by simp [hcpu])⟩
        refine eq_false_iff.mpr fun hb ↦ ?_
        rcases acts.blocked hb with hold | ⟨rfl, -⟩
        · exact absurd hold (by simp [hidle.2])
        · exact statement_effect hstatement
      · exact coherent_perform w hC hx he
  | reap =>
    exact hC

theorem pc_setPc_self (w : GroupWorld) (o : Nat) (pc : Pc) : ((w.setPc o pc).tasks o).pc = pc :=
  congrArg GroupTask.pc (tasks_modify_self ..)

section

variable (h : w.Step l w')
include h

theorem on_of_actor (hactor : l.actor = some x) : (w.tasks x).cpu = .on := by
  cases l with cases hactor
  | block | unblock | groupExit =>
    simp only [Step, next] at h
    split_ifs at h with hc
    exact hc.1
  | clone | taskExit | beginExec =>
    simp only [Step, next] at h
    split_ifs at h with hc <;> exact hc.1.1
  | step => exact (step_eq h).1

theorem inert_step (hx : x < w.count ∨ w'.count ≤ x)
    (hoff : (w.tasks x).cpu = .off) (hidle : (w.tasks x).Unscheduled)
    (hadder : ∀ o, l = .step o → ¬ w.At o (.adding x)) :
    (w'.tasks x).cpu = .off ∧ (w'.tasks x).Unscheduled ∧ (w'.tasks x).pc = (w.tasks x).pc := by
  have hf := frame h hx
  refine ⟨hf.off hoff hidle.1, ⟨?_, ?_⟩, ?_⟩
  · refine eq_false_iff.mpr fun hr ↦ ?_
    rcases hf.ready hr with hold | hold | hold | ⟨o, hl, hadd⟩
    · exact absurd hold (by simp [hidle.1])
    · exact absurd hold (by simp [hidle.2])
    · exact absurd hold (by simp [hoff])
    · exact hadder o hl hadd
  · refine eq_false_iff.mpr fun hb ↦ ?_
    rcases hf.blocked hb with hold | hat
    · exact absurd hold (by simp [hidle.2])
    · exact absurd hat.1 (by simp [hoff])
  · rcases hf.pc with heq | hactor
    · exact heq
    · exact absurd (on_of_actor h hactor) (by simp [hoff])

theorem count_step : w'.count = w.count ∨ ∃ o tid, l = .clone o tid ∧ w'.count = w.count + 1 ∧
      w'.tasks w.count = childTask tid := by
  revert h
  unfold Step
  fun_cases next w l with try rintro ⟨⟩
  | case19 o tid => exact .inr ⟨o, tid, rfl, rfl, Function.update_self ..⟩
  | case28 o =>
    intro h
    obtain ⟨_, -, rfl⟩ := Option.map_eq_some_iff.mp h
    exact .inl rfl
  | _ => exact .inl rfl

theorem count_le : w.count ≤ w'.count := by
  rcases count_step h with heq | ⟨-, -, -, heq, -⟩ <;> omega

theorem made (x : Nat) : (x < w.count ∨ w'.count ≤ x) ∨
      ∃ o tid, l = .clone o tid ∧ x = w.count ∧ w'.tasks x = childTask tid := by
  rcases count_step h with heq | ⟨o, tid, rfl, heq, htask⟩
  · left
    omega
  · by_cases hx : x = w.count
    · exact .inr ⟨o, tid, rfl, hx, hx ▸ htask⟩
    · left
      omega

end

/-- The labels with which a thread enters a path of its code, from where to where. -/
inductive Begins (w : GroupWorld) (x : Nat) : GroupLabel → Pc → Pc → Prop
  | block : Begins w x (.block x) .user .sleeping
  | unblock : Begins w x (.unblock x) .sleeping .unblocked
  | clone (tid : Nat) : Begins w x (.clone x tid) .user (.cloned w.count)
  | taskExit : Begins w x (.taskExit x) .user .exitBegin
  | leave : w.lifecycle = .running → w.groupLock = none → Begins w x (.taskExit x) .user .leaveChecked
  | groupExit : Begins w x (.groupExit x) .user .exitBegin
  | beginExec : w.lifecycle = .running → Begins w x (.beginExec x) .user .execSnapshot

section

variable (hS : w.Sound) (h : w.Step l w')
include hS h

theorem pc_of_actor (hactor : l.actor = some x) :
    (∃ e pc', l = .step x ∧ w.statement x (w.tasks x).pc = some (e, pc') ∧
      (w'.tasks x).pc = pc' ∧ w' = (w.perform x e).setPc x pc') ∨
    ∃ old new, w.Begins x l old new ∧ (w.tasks x).pc = old ∧ (w'.tasks x).pc = new := by
  have hon := on_of_actor h hactor
  cases l with (cases hactor; try obtain ⟨hc, rfl⟩ := of_guard h)
  | block =>
    exact .inr ⟨_, _, .block, hc.2, congrArg GroupTask.pc (tasks_modify_self ..)⟩
  | unblock =>
    exact .inr ⟨_, _, .unblock, hc.2, pc_setPc_self ..⟩
  | clone _ tid =>
    have hne : x ≠ w.count := fun heq ↦ by
      have hoff := (hS.unmade x (Nat.le_of_eq heq.symm)).1
      exact absurd hoff (by simp [hon])
    refine .inr ⟨_, _, .clone tid, hc.1.2, ?_⟩
    show (Function.update (w.setPc x _).tasks w.count (childTask tid) x).pc = _
    rw [Function.update_of_ne hne]
    exact pc_setPc_self ..
  | taskExit =>
    simp only [Step, next] at h
    split_ifs at h with hc hexit
    · obtain rfl := some.inj h
      exact .inr ⟨_, _, .taskExit, hc.1.2, pc_setPc_self ..⟩
    · obtain rfl := some.inj h
      push Not at hexit
      exact .inr ⟨_, _, .leave hexit.2.1 hc.2, hc.1.2, pc_setPc_self w x _⟩
  | groupExit =>
    exact .inr ⟨_, _, .groupExit, hc.2, pc_setPc_self ..⟩
  | beginExec =>
    exact .inr ⟨_, _, .beginExec hc.2, hc.1.2, pc_setPc_self w x _⟩
  | step =>
    rcases step_eq h with ⟨-, e, pc', hstatement, rfl⟩
    exact .inl ⟨e, pc', rfl, hstatement, pc_setPc_self .., rfl⟩

theorem Sound.pc_frame (x : Nat) : (w'.tasks x).pc = (w.tasks x).pc ∨ l.actor = some x := by
  rcases made h x with hx | ⟨_, _, -, rfl, htask⟩
  · exact (frame h hx).pc
  · left
    rw [htask, (hS.unmade _ (Nat.le_refl _)).2.2.1]
    rfl

theorem Sound.pc_step (x : Nat) : (w'.tasks x).pc = (w.tasks x).pc ∨
    (∃ e pc', l = .step x ∧ w.statement x (w.tasks x).pc = some (e, pc') ∧
      (w'.tasks x).pc = pc' ∧ w' = (w.perform x e).setPc x pc') ∨
    ∃ old new, w.Begins x l old new ∧ (w.tasks x).pc = old ∧ (w'.tasks x).pc = new :=
  (hS.pc_frame h x).imp_right (pc_of_actor hS h)

theorem Sound.child_of_step {s : Nat} (hchild : (w'.tasks s).pc.child = some c) :
    (w.tasks s).pc.child = some c ∨ ∃ tid, l = .clone s tid ∧ c = w.count := by
  rcases hS.pc_step h s with heq | ⟨e, pc', -, hstatement, hpc, -⟩ | ⟨_, new, hb, -, hpc⟩
  · exact .inl (heq ▸ hchild)
  · exact .inl ((statement_goesOn hstatement).child (hpc ▸ hchild))
  rw [hpc] at hchild
  cases hb with
  | clone tid => exact .inr ⟨tid, rfl, (some.inj hchild).symm⟩
  | block | unblock | taskExit | leave | groupExit | beginExec => nomatch hchild

theorem Sound.step : w'.Sound where
  coherent := hS.coherent_step h
  unmade x hx := by
    have hle := count_le h
    have hold := hS.unmade x (by omega)
    have hadder : ∀ o, l = .step o → ¬ w.At o (.adding x) := by
      rintro o - hat
      have hlt := (hS.child o x (by rw [hat.2]; rfl)).1
      omega
    rcases inert_step h (.inr hx) hold.1 hold.2.1 hadder with ⟨hoff, hidle, hpc⟩
    refine ⟨hoff, hidle, hpc.trans hold.2.2.1, eq_false_iff.mpr fun hin ↦ ?_⟩
    rcases (frame h (.inr hx)).inGroup hin with hin | ⟨-, hat⟩
    · exact absurd hin (by simp [hold.2.2.2])
    · exact absurd hat.1 (by simp [hold.1])
  child s c hchild := by
    rcases hS.child_of_step h hchild with hold | ⟨tid, rfl, rfl⟩
    · rcases hS.child s c hold with ⟨hlt, hoff, hidle, hpc⟩
      have hadder : ∀ o, l = .step o → ¬ w.At o (.adding c) := by
        rintro o rfl hat
        obtain rfl := hS.child_unique s o c hold (by rw [hat.2]; rfl)
        rcases step_eq h with ⟨-, e, pc', hstatement, rfl⟩
        rw [hat.2] at hstatement
        cases hstatement
        rw [pc_setPc_self] at hchild
        nomatch hchild
      rcases inert_step h (.inl hlt) hoff hidle hadder with ⟨hoff', hidle', hpc'⟩
      exact ⟨Nat.lt_of_lt_of_le hlt (count_le h), hoff', hidle', hpc'.trans hpc⟩
    · rcases count_step h with heq | ⟨o, t, hl, heq, htask⟩
      · have hcount : w'.count = w.count + 1 := by
          obtain ⟨-, rfl⟩ := of_guard h
          rfl
        omega
      · rw [htask]
        exact ⟨by omega, rfl, ⟨rfl, rfl⟩, rfl⟩
  child_unique s s' c hs hs' := by
    rcases hS.child_of_step h hs with hold | ⟨tid, rfl, rfl⟩
    · rcases hS.child_of_step h hs' with hold' | ⟨tid, -, rfl⟩
      · exact hS.child_unique s s' c hold hold'
      · have hlt := (hS.child s w.count hold).1
        omega
    · rcases hS.child_of_step h hs' with hold' | ⟨tid', hl, -⟩
      · have hlt := (hS.child s' w.count hold').1
        omega
      · cases hl
        rfl

end

/-! ### What has stopped stays stopped -/

theorem Sound.noAdder_step (hS : w.Sound) (h : w.Step l w') (hx : x < w.count)
    (hn : w.NoAdder x) : w'.NoAdder x := by
  intro s hs
  rcases hS.child_of_step h hs with hold | ⟨tid, -, rfl⟩
  · rcases made h s with hmade | ⟨o, tid, -, -, htask⟩
    · exact (frame h hmade).dead (hn s hold)
    · rw [htask] at hs
      nomatch hs
  · exact absurd hx (Nat.lt_irrefl _)

theorem NoAdder.not_at (hn : w.NoAdder x) (hpc : pc.child = some x) (hat : w.At o pc) : False := by
  have hdead := hn o (by rw [hat.2]; exact hpc)
  exact absurd hdead.2 (by simp [hat.1])

theorem Sound.parked_step (hS : w.Sound) (h : w.Step l w') (hx : x < w.count)
    (hp : w.Parked x) : w'.Parked x := by
  have hinert := inert_step h (.inl hx) hp.1.2 hp.2.1 fun o _ hat ↦ hp.2.2.not_at rfl hat
  exact ⟨(frame h (.inl hx)).dead hp.1, hinert.2.1, hS.noAdder_step h hx hp.2.2⟩

theorem Ended.not_at (he : w.Ended x) (hpc : pc.Closing = false) (hat : w.At x pc) : False := by
  rcases he.2.2.2 with hdead | hfin
  · exact absurd hdead.2 (by simp [hat.1])
  · exact absurd hfin.1 (by simp [hat.2, hpc])

theorem Ended.cpu {cpu : Cpu} (he : w.Ended x) (hcpu : (w.tasks x).cpu = cpu)
    (hnot : ¬ (cpu = .on ∨ cpu = .handing ∨ cpu = .releasing ∨ cpu = .off)) : False := by
  rcases he.2.2.2 with hdead | hfin
  · exact hnot (.inr (.inr (.inr (hcpu ▸ hdead.2))))
  · exact hnot (hcpu ▸ hfin.2)

theorem Sound.ended_step (hS : w.Sound) (h : w.Step l w') (hx : x < w.count)
    (he : w.Ended x) : w'.Ended x := by
  have hf := frame h (.inl hx)
  refine ⟨?_, ⟨?_, ?_⟩, hS.noAdder_step h hx he.2.2.1, ?_⟩
  · rcases hf.status he.1 with hkept | hcpu | hblocked | hat | hat
    · exact hkept
    · exact (he.cpu hcpu (by simp)).elim
    · exact absurd hblocked (by simp [he.2.1.2])
    · exact (he.not_at rfl hat).elim
    · exact (he.not_at rfl hat).elim
  · refine eq_false_iff.mpr fun hr ↦ ?_
    rcases hf.ready hr with hready | hblocked | hcpu | ⟨o, -, hat⟩
    · exact absurd hready (by simp [he.2.1.1])
    · exact absurd hblocked (by simp [he.2.1.2])
    · exact he.cpu hcpu (by simp)
    · exact he.2.2.1.not_at rfl hat
  · refine eq_false_iff.mpr fun hb ↦ ?_
    rcases hf.blocked hb with hblocked | hat
    · exact absurd hblocked (by simp [he.2.1.2])
    · exact he.not_at rfl hat
  · exact he.2.2.2.imp hf.dead (hf.finishing he.1 he.2.1.1)

theorem Sound.quiet_step (hS : w.Sound) (h : w.Step l w') (hx : x < w.count)
    (hq : w.Quiet x) : w'.Quiet x := by
  refine ⟨hS.ended_step h hx hq.1, eq_false_iff.mpr fun hm ↦ ?_⟩
  rcases (frame h (.inl hx)).managed hm with hmanaged | ⟨o, -, hat⟩ | hat
  · exact absurd hmanaged (by simp [hq.2])
  · exact hq.1.2.2.1.not_at rfl hat
  · exact hq.1.not_at rfl hat

theorem managed_unmanage {tid : Nat} (htid : (w.tasks x).tid = tid) :
    (((w.perform o (.unmanage tid)).setPc o pc).tasks x).managed = false := by
  rw [field_setPc GroupTask.managed fun _ _ ↦ rfl]
  simp [act, htid]

theorem Sound.leaving_step (hS : w.Sound) (h : w.Step l w') (hx : x < w.count)
    (hl : (w.tasks x).pc.IsLeaving = true) (hend : (w.tasks x).pc = .leavingManager → w.Ended x) :
    (w'.tasks x).pc.IsLeaving = true ∨ w'.Quiet x := by
  rcases hS.pc_step h x with heq | ⟨e, pc', -, hstatement, hpc, heq⟩ | ⟨old, _, hb, hpc, -⟩
  · exact .inl (heq ▸ hl)
  · rcases (statement_goesOn hstatement).leaving hl with hleaving | hlast
    · exact .inl (hpc ▸ hleaving)
    · refine .inr ⟨hS.ended_step h hx (hend hlast), ?_⟩
      rw [hlast] at hstatement
      cases hstatement
      rw [heq]
      exact managed_unmanage rfl
  · rw [hpc] at hl
    cases hb <;> nomatch hl

end Sound

end GroupWorld

end RespOS.Task
