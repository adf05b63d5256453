import RespOS.Task.Hart

/-!
# A task runs on one hart

A task may be back in the ready queues while the hart that ran it is still on its stack: a waker puts it
there as soon as it is Blocked. What keeps a second hart from resuming it is `cpu_owner`. A fetch takes a
task without an owner only and makes the fetching hart its owner under the scheduler lock; the owner is
released on the idle stack, after the handoff is taken.

`exclusive_of_run` is the result, for all interleavings of any number of harts.
-/

namespace RespOS.Task

open RespOS.Basis Option Function HartPc

/-- The hart has the task as its current task or as its pending handoff. -/
def Has (s : SmpState) (h tid : Nat) : Prop :=
  (s.processors h).current = some tid ∨ (s.processors h).handoff = some tid

/-- The task on whose kernel stack the hart is. -/
def HartPc.onStack : HartPc → Option Nat
  | .running tid => some tid
  | .sleeping tid => some tid
  | .unblocking tid => some tid
  | .unblocked tid => some tid
  | .stopping tid => some tid
  | .handing tid => some tid
  | _ => none

/-- The task that the hart owns at this place. -/
def HartPc.task : HartPc → Option Nat
  | .handedOff tid => some tid
  | .wasRunning tid => some tid
  | .readied tid => some tid
  | .releasing tid => some tid
  | .claimed tid => some tid
  | .switching tid => some tid
  | pc => pc.onStack

/-- What a hart at this place has in its processor. -/
def HartPc.Matches (p : Processor) : HartPc → Prop
  | .idle => p.current = none
  | .switching tid => p = ⟨some tid, none⟩
  | .running tid => p = ⟨some tid, none⟩
  | .sleeping tid => p = ⟨some tid, none⟩
  | .unblocking tid => p = ⟨some tid, none⟩
  | .unblocked tid => p = ⟨some tid, none⟩
  | .stopping tid => p = ⟨some tid, none⟩
  | .handing tid => p = ⟨none, some tid⟩
  | .panicked assertion => assertion = .addNotReady
  | _ => p = {}

/-- A task on one hart at most. -/
structure Exclusive (c : Config SmpState Hart) : Prop where
  unique : ∀ h h' tid, Has c.shared h tid → Has c.shared h' tid → h = h'
  owner : ∀ h tid, Has c.shared h tid → (c.shared.tasks tid).cpuOwner = some h
  left : ∀ h tid, (c.thread h).pc = .switching tid → ∀ h', (c.thread h').pc.onStack ≠ some tid ∧
    (c.shared.processors h').handoff ≠ some tid
  asserted : ∀ h assertion, (c.thread h).pc = .panicked assertion → assertion = .addNotReady

structure HartOk (s : SmpState) (h : Nat) (l : Hart) : Prop where
  owned : ∀ tid, Has s h tid ∨ l.pc.task = some tid → (s.tasks tid).cpuOwner = some h
  place : l.pc.Matches (s.processors h)

section Sections

variable {s s' : SmpState} {h : Nat} {l l' : Hart} {a : HartAction}

open SmpState

theorem field_setTask {α : Type} (f : TaskControlBlock → α) {s : SmpState} {tid : Nat}
    {task : TaskControlBlock} (hf : f task = f (s.tasks tid)) (u : Nat) :
    f ((s.setTask tid task).tasks u) = f (s.tasks u) := by
  by_cases hu : u = tid
  · simp [setTask, hu, hf]
  · simp [setTask, hu]

@[simp] theorem cpuOwner_setStatus (s : SmpState) (tid u : Nat) (status : TaskStatus) :
    ((s.setStatus tid status).tasks u).cpuOwner = (s.tasks u).cpuOwner :=
  field_setTask (·.cpuOwner) (by rfl) u

@[simp] theorem cpuOwner_wakeupTask (s : SmpState) (tid u : Nat) :
    ((s.wakeupTask tid).tasks u).cpuOwner = (s.tasks u).cpuOwner := by
  unfold wakeupTask
  split
  · exact cpuOwner_setStatus _ tid u .ready
  · rfl

@[simp] theorem processors_wakeupTask (s : SmpState) (tid : Nat) :
    (s.wakeupTask tid).processors = s.processors := by
  unfold wakeupTask
  split <;> rfl

theorem fetchTask_cases {pc : HartPc} (hfetch : s.fetchTask h = (s', pc)) :
    s'.processors = s.processors ∧
      (pc = .idle ∧ s'.tasks = s.tasks ∨
        ∃ tid, pc = .claimed tid ∧ (s.tasks tid).cpuOwner = none ∧ (s.tasks tid).status = .ready ∧
          s'.tasks = update s.tasks tid
            { s.tasks tid with status := .running, cpuOwner := some h }) := by
  unfold fetchTask at hfetch
  split at hfetch
  · rename_i tid scheduler _
    split at hfetch
    · rename_i task hclaim
      obtain ⟨hstatus, howner, rfl⟩ := (s.tasks tid).tryClaimRunningOnCpu_eq_some hclaim
      obtain ⟨rfl, rfl⟩ := Prod.mk.inj hfetch
      exact ⟨rfl, .inr ⟨tid, rfl, howner, hstatus, rfl⟩⟩
    · obtain ⟨rfl, rfl⟩ := Prod.mk.inj hfetch
      exact ⟨rfl, .inl ⟨rfl, rfl⟩⟩
  · obtain ⟨rfl, rfl⟩ := Prod.mk.inj hfetch
    exact ⟨rfl, .inl ⟨rfl, rfl⟩⟩

theorem hartOk_of_same (hl : HartOk s h l) (hproc : s'.processors h = s.processors h)
    (howner : ∀ tid, (s'.tasks tid).cpuOwner = (s.tasks tid).cpuOwner)
    (htask : ∀ tid, l'.pc.task = some tid → Has s h tid ∨ l.pc.task = some tid)
    (hplace : l'.pc.Matches (s.processors h)) : HartOk s' h l' := by
  refine ⟨fun tid htid ↦ ?_, by rwa [hproc]⟩
  rw [howner]
  refine hl.owned tid ?_
  obtain hhas | hpc := htid
  · left
    simpa [Has, hproc] using hhas
  · exact htask tid hpc

theorem hartOk_advance {pc : HartPc} (hl : HartOk s h l) (hadv : s.advance h l.pc = some (s', pc)) :
    HartOk s' h { l with pc := pc } := by
  have hplace := hl.place
  have howned : ∀ tid, l.pc.task = some tid → (s.tasks tid).cpuOwner = some h :=
    fun tid htid ↦ hl.owned tid (.inr htid)
  obtain ⟨place, late⟩ := l
  revert hadv
  fun_cases s.advance h place with try rintro ⟨⟩
  | case1 tid hhandoff =>
    -- the handoff is taken
    have hcurrent : (s.processors h).current = none := hplace
    refine ⟨fun u hu ↦ ?_, ?_⟩
    · refine hl.owned u (.inl (.inr ?_))
      simpa [Has, setProcessor, hcurrent, task, hhandoff] using hu
    · simp [HartPc.Matches, setProcessor, hcurrent]
  | case2 hhandoff =>
    refine hartOk_of_same hl rfl (fun _ ↦ rfl) (fun u hu ↦ absurd hu (by simp [task,
      onStack])) (Processor.ext hplace hhandoff)
  | case3 tid =>
    refine hartOk_of_same hl rfl (fun _ ↦ rfl) (fun u hu ↦ .inr ?_) ?_
    · split_ifs at hu <;> exact hu
    · split_ifs <;> exact hplace
  | case4 tid =>
    exact hartOk_of_same hl rfl (fun u ↦ cpuOwner_setStatus s tid u .ready) (fun _ ↦ .inr) hplace
  | case5 | case13 | case14 =>
    exact hartOk_of_same hl rfl (fun _ ↦ rfl) (fun _ ↦ .inr) hplace
  | case6 =>
    exact hartOk_of_same hl rfl (fun _ ↦ rfl) (fun u hu ↦ absurd hu (by simp [task, onStack])) rfl
  | case7 tid =>
    have hproc : s.processors h = {} := hplace
    refine ⟨fun u hu ↦ ?_, hplace⟩
    simp [Has, setTask, hproc, task, onStack] at hu
  | case8 tid hnot | case10 tid hnot => exact absurd (howned tid rfl) hnot
  | case9 =>
    intro hadv
    have hfetch : s.fetchTask h = (s', pc) := some.inj hadv
    have hproc : s.processors h = {} := hplace
    obtain ⟨hprocs, ⟨rfl, htasks⟩ | ⟨tid, rfl, -, -, htasks⟩⟩ := fetchTask_cases hfetch
    · refine hartOk_of_same hl (by rw [hprocs]) (fun u ↦ by rw [htasks]) (fun u hu ↦ ?_) ?_
      · simp [task, onStack] at hu
      · simp [HartPc.Matches, hproc]
    · refine ⟨fun u hu ↦ ?_, ?_⟩
      · have htid : u = tid := by
          simpa [Has, hprocs, hproc, task, eq_comm] using hu
        rw [htasks, htid, update_self]
      · simp [hprocs, HartPc.Matches, hproc]
  | case11 tid _ hbusy =>
    have hproc : s.processors h = {} := hplace
    exact absurd (by rw [hproc]) hbusy
  | case12 tid =>
    have hproc : s.processors h = {} := hplace
    refine ⟨fun u hu ↦ ?_, ?_⟩
    · have htid : u = tid := by
        simpa [Has, setProcessor, hproc, task, eq_comm] using hu
      exact htid ▸ howned tid rfl
    · simp [HartPc.Matches, setProcessor, hproc]
  | case15 tid =>
    exact hartOk_of_same hl rfl (fun u ↦ cpuOwner_setStatus s tid u .running) (fun _ ↦ .inr) hplace
  | case16 tid =>
    have hproc : s.processors h = ⟨none, some tid⟩ := hplace
    refine hartOk_of_same hl rfl (fun _ ↦ rfl) (fun u hu ↦ ?_) ?_
    · simp [task, onStack] at hu
    · simp [HartPc.Matches, hproc]

theorem hartOk_handoff {tid : Nat} (hl : HartOk s h l) (hpc : l.pc.task = some tid)
    (hproc : s.processors h = ⟨some tid, none⟩) :
    HartOk (s.handoffCurrent h tid).1 h { l with pc := (s.handoffCurrent h tid).2 } := by
  have howner := hl.owned tid (.inr hpc)
  have heq : s.handoffCurrent h tid =
      (s.setProcessor h { current := none, handoff := some tid }, .handing tid) := by
    simp [handoffCurrent, hproc]
  rw [heq]
  refine ⟨fun u hu ↦ ?_, ?_⟩
  · have htid : u = tid := by
      simpa [Has, setProcessor, task, onStack, eq_comm] using hu
    rw [htid]
    exact howner
  · simp [HartPc.Matches, setProcessor]

theorem cpuOwner_late (s : SmpState) (op : LateOp) (u : Nat) :
    ((s.late op).1.tasks u).cpuOwner = (s.tasks u).cpuOwner := by
  cases op with
  | stoppedSeen tid => exact cpuOwner_setStatus s tid u .ready
  | addTask tid | requeue tid | stoppedReadied tid => rfl

theorem processors_late (s : SmpState) (op : LateOp) : (s.late op).1.processors = s.processors := by
  cases op <;> rfl

/-- What a section does to the owners and the processors: a section of the scheduler loop, the handoff of
the task on whose stack the hart is, or nothing. -/
theorem section_cases (hsec : hartSection h a s l = some (s', l')) :
    (∃ pc, s.advance h l.pc = some (s', pc) ∧ l' = { l with pc := pc }) ∨
    (∃ tid, l.pc.task = some tid ∧
      (l.pc.Matches (s.processors h) → s.processors h = ⟨some tid, none⟩) ∧
      s' = (s.handoffCurrent h tid).1 ∧ l' = { l with pc := (s.handoffCurrent h tid).2 }) ∨
    s'.processors = s.processors ∧ (∀ u, (s'.tasks u).cpuOwner = (s.tasks u).cpuOwner) ∧
      (∀ u, l'.pc.task = some u → l.pc.task = some u) ∧
      (l.pc.Matches (s.processors h) → l'.pc.Matches (s.processors h)) := by
  revert hsec
  fun_cases hartSection h a s l with try rintro ⟨⟩
  | case1 =>
    intro hsec
    obtain ⟨⟨s₁, pc⟩, hadv, heq⟩ := map_eq_some_iff.mp hsec
    obtain ⟨rfl, rfl⟩ := Prod.mk.inj heq
    exact .inl ⟨pc, hadv, rfl⟩
  | case2 tid hpc =>
    rw [hpc]
    exact .inr (.inr ⟨rfl, fun u ↦ cpuOwner_setStatus s tid u .blocked, fun _ ↦ id, id⟩)
  | case4 tid hpc =>
    rw [hpc]
    exact .inr (.inr ⟨rfl, fun _ ↦ rfl, fun _ ↦ id, id⟩)
  | case6 tid hpc =>
    rw [hpc]
    exact .inr (.inr ⟨rfl, fun u ↦ cpuOwner_setStatus s tid u .stopped, fun _ ↦ id, id⟩)
  | case8 tid hpc | case9 tid hpc | case10 tid hpc =>
    rw [hpc]
    exact .inr (.inl ⟨tid, rfl, id, rfl, rfl⟩)
  | case12 tid =>
    exact .inr (.inr ⟨processors_wakeupTask s tid, cpuOwner_wakeupTask s tid, fun _ ↦ id, id⟩)
  | case14 =>
    exact .inr (.inr ⟨rfl, field_setTask (·.cpuOwner) (by rfl), fun _ ↦ id, id⟩)
  | case13 | case16 | case19 | case21 =>
    exact .inr (.inr ⟨rfl, fun _ ↦ rfl, fun _ ↦ id, id⟩)
  | case17 =>
    exact .inr (.inr ⟨rfl, fun _ ↦ rfl,
      fun u hu ↦ absurd hu (by simp [task, onStack]), fun _ ↦ rfl⟩)
  | case22 =>
    intro hsec
    obtain ⟨op, -, heq⟩ := map_eq_some_iff.mp hsec
    obtain ⟨rfl, rfl⟩ := Prod.mk.inj heq
    exact .inr (.inr ⟨processors_late s op, cpuOwner_late s op, fun _ ↦ id, id⟩)

theorem hartOk_of_section (hl : HartOk s h l) (hsec : hartSection h a s l = some (s', l')) :
    HartOk s' h l' := by
  rcases section_cases hsec with ⟨pc, hadv, rfl⟩ | ⟨tid, htask, hplace, rfl, rfl⟩ |
    ⟨hproc, howner, htask, hplace⟩
  · exact hartOk_advance hl hadv
  · exact hartOk_handoff hl htask (hplace hl.place)
  · exact hartOk_of_same hl (by rw [hproc]) howner (fun u hu ↦ .inr (htask u hu)) (hplace hl.place)

/-- The processor of another hart is left alone, and a task that has another owner keeps it. -/
def LeavesOthers (s s' : SmpState) (h : Nat) : Prop :=
  ∀ u, u ≠ h → s'.processors u = s.processors u ∧
    ∀ tid, (s.tasks tid).cpuOwner = some u → (s'.tasks tid).cpuOwner = some u

theorem LeavesOthers.of_owner (hproc : s'.processors = s.processors)
    (howner : ∀ tid, (s'.tasks tid).cpuOwner = (s.tasks tid).cpuOwner) : LeavesOthers s s' h :=
  fun u _ ↦ ⟨by rw [hproc], fun tid htid ↦ (howner tid).trans htid⟩

theorem LeavesOthers.setProcessor (s : SmpState) (h : Nat) (p : Processor) :
    LeavesOthers s (s.setProcessor h p) h :=
  fun _ hu ↦ ⟨update_of_ne hu _ _, fun _ htid ↦ htid⟩

theorem LeavesOthers.update {tid : Nat} {task : TaskControlBlock}
    (hproc : s'.processors = s.processors) (htasks : s'.tasks = update s.tasks tid task)
    (howner : ∀ u, u ≠ h → (s.tasks tid).cpuOwner ≠ some u) : LeavesOthers s s' h := by
  refine fun u hu ↦ ⟨by rw [hproc], fun v hv ↦ ?_⟩
  have hne : v ≠ tid := by
    rintro rfl
    exact howner u hu hv
  rw [htasks, update_of_ne hne]
  exact hv

theorem leavesOthers_advance {pc : HartPc} (hadv : s.advance h l.pc = some (s', pc)) :
    LeavesOthers s s' h := by
  generalize l.pc = place at hadv
  revert hadv
  fun_cases s.advance h place with try rintro ⟨⟩
  | case1 | case12 =>
    exact .setProcessor s h _
  | case4 | case15 =>
    exact .of_owner rfl fun u ↦ cpuOwner_setStatus s _ u _
  | case7 tid howner =>
    refine .update rfl rfl fun u hu hother ↦ hu ?_
    exact some.inj (hother.symm.trans howner)
  | case9 =>
    intro hadv
    obtain ⟨hprocs, ⟨-, htasks⟩ | ⟨tid, -, howner, -, htasks⟩⟩ :=
      fetchTask_cases (some.inj hadv)
    · exact .of_owner hprocs fun u ↦ by rw [htasks]
    · exact .update hprocs htasks fun u _ ↦ by simp [howner]
  -- at most the queues change
  | _ =>
    exact .of_owner rfl fun _ ↦ rfl

theorem leavesOthers_handoff (s : SmpState) (h tid : Nat) :
    LeavesOthers s (s.handoffCurrent h tid).1 h := by
  unfold handoffCurrent
  split_ifs
  · exact .setProcessor s h _
  · exact .of_owner rfl fun _ ↦ rfl

variable (hsec : hartSection h a s l = some (s', l'))
include hsec

theorem leavesOthers_of_section : LeavesOthers s s' h := by
  rcases section_cases hsec with ⟨pc, hadv, -⟩ | ⟨tid, -, -, rfl, -⟩ | ⟨hproc, howner, -, -⟩
  · exact leavesOthers_advance hadv
  · exact leavesOthers_handoff s h tid
  · exact .of_owner hproc howner

theorem hartOk_of_other {u : Nat} {k : Hart} (hu : u ≠ h) (hk : HartOk s u k) : HartOk s' u k := by
  obtain ⟨hproc, howner⟩ := leavesOthers_of_section hsec u hu
  refine ⟨fun tid htid ↦ howner tid (hk.owned tid ?_), ?_⟩
  · simpa [Has, hproc] using htid
  · rw [hproc]
    exact hk.place

end Sections

theorem hartOk_of_run {c : Config SmpState Hart} {ok : Config SmpState Hart → Nat × HartAction → Prop}
    (hrun : Run SmpInit ok (Config.Step hartSection) c) (h : Nat) :
    HartOk c.shared h (c.thread h) := by
  refine (Config.invariant (J := HartOk) (fun c hc ↦ ⟨trivial, fun h ↦ ?_⟩)
    (fun c t a s' k _ hJ _ hsec ↦ ⟨trivial, hartOk_of_section (hJ t) hsec⟩)
    (fun c t a s' k u _ hJ _ hsec hu ↦ hartOk_of_other hsec hu (hJ u)) hrun).2 h
  rw [hc.hart]
  exact ⟨by simp [Has, hc.processors, task, onStack], by simp [HartPc.Matches, hc.processors]⟩

/-- In every interleaving of the harts: a task is current or handed off on one hart at most, which is its
owner; when it is resumed no hart is on its stack or has its handoff pending; and none of the assertions on
owners and processors fails. -/
theorem exclusive_of_run {c : Config SmpState Hart}
    (hrun : Run SmpInit (fun _ _ ↦ True) (Config.Step hartSection) c) : Exclusive c := by
  have hok := hartOk_of_run hrun
  have howner : ∀ h tid, Has c.shared h tid → (c.shared.tasks tid).cpuOwner = some h :=
    fun h tid hhas ↦ (hok h).owned tid (.inl hhas)
  refine ⟨fun h h' tid hh hh' ↦ ?_, howner, fun h tid hpc h' ↦ ?_, fun h assertion hpc ↦ ?_⟩
  · exact some.inj ((howner h tid hh).symm.trans (howner h' tid hh'))
  · -- the resuming hart is the owner, so another hart cannot be on the stack
    have hplace := (hok h).place
    rw [hpc] at hplace
    have hmine := (hok h).owned tid (.inr (by rw [hpc]; rfl))
    refine ⟨fun hstack ↦ ?_, fun hhandoff ↦ ?_⟩
    · have htask : (c.thread h').pc.task = some tid := by
        cases hpc' : (c.thread h').pc <;> simp_all [onStack, task]
      obtain rfl := some.inj (hmine.symm.trans ((hok h').owned tid (.inr htask)))
      simp [hpc, onStack] at hstack
    · obtain rfl := some.inj (hmine.symm.trans (howner h' tid (.inr hhandoff)))
      rw [show c.shared.processors h = ⟨some tid, none⟩ from hplace] at hhandoff
      simp at hhandoff
  · have hplace := (hok h).place
    rwa [hpc] at hplace

def bootState : Config SmpState Hart := ⟨{ tasks := fun _ ↦ {} }, fun _ ↦ {}⟩

theorem init_bootState : SmpInit bootState := ⟨rfl, fun _ ↦ rfl, fun _ ↦ rfl, fun _ ↦ rfl⟩

def firstSwitch : List (Nat × HartAction) :=
  [(0, .addTask 1), (0, .late), (0, .advance), (0, .advance), (0, .advance)]

/-- Hart 0 runs task 1, which prepares to block and cancels its block for a signal. Meanwhile hart 1 has
woken it and finds it in a queue, but does not get it. -/
theorem exclusive_at_cancel :
    ∃ c, Run SmpInit (fun _ _ ↦ True) (Config.Step hartSection) c ∧ Exclusive c ∧
      (c.thread 0).pc = .unblocking 1 ∧ (c.thread 1).pc = .idle ∧ Has c.shared 0 1 ∧
      (c.shared.tasks 1).status = .ready ∧ (c.shared.scheduler.taskIndex 1).isSome ∧
      ∀ h, Has c.shared h 1 → h = 0 := by
  obtain ⟨c, hc⟩ : ∃ c, bootState.runLabels hartSection (firstSwitch ++ [(0, .advance),
    (0, .prepareBlocked), (0, .cancelBlock), (1, .wakeup 1), (1, .advance), (1, .advance)]) = some c :=
    ⟨_, rfl⟩
  have hrun : Run SmpInit (fun _ _ ↦ True) (Config.Step hartSection) c :=
    Config.run_of_runLabels (.start init_bootState) hc
  have hexcl := exclusive_of_run hrun
  refine ⟨c, hrun, hexcl, ?_⟩
  obtain rfl := some.inj hc
  exact ⟨rfl, rfl, .inl rfl, rfl, rfl, fun h hh ↦ hexcl.unique h 0 1 hh (.inl rfl)⟩

end RespOS.Task
