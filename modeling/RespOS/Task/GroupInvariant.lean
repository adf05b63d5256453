import RespOS.Task.GroupFrame

/-!
# The invariant of an exit and of an `execve`

`Inv` ties the lifecycle of a process, its thread group and the place of each thread in its code: one thread
at a time owns an exit or an `execve` (`single`), the lock of the thread group belongs to the thread that is
about to leave it (`lock`), no two members have one tid (`keys`), every task that is not in the thread group
is on its way out or out (`placed`), and at each statement of the owner holds what the statements before it
have achieved (`Phase`). `Closed` is the condition under which a step keeps all of this.

Here every part but `phase` and `ended` is carried over a step; those follow in `GroupExit`.
-/

namespace RespOS.Task

open RespOS.Basis GroupTask Option

namespace GroupWorld

/-! ### The invariant -/

/-- The snapshot of the exit has been taken. -/
def Sealed (w : GroupWorld) : Prop :=
  w.lifecycle = .zombie ∨ w.lifecycle = .reaped ∨
    ∃ o ∈ List.range w.count, (w.tasks o).pc.PastSnapshot = true

instance (w : GroupWorld) : Decidable w.Sealed := inferInstanceAs (Decidable (_ ∨ _ ∨ _))

/-- Where a task is as long as no exit has taken its snapshot: in the thread group, on its way out of the
process, out of it, or in between for a moment in `execve`. -/
def Placed (w : GroupWorld) (x : Nat) : Prop :=
  (w.tasks x).inGroup = true ∨ (w.tasks x).pc.IsLeaving = true ∨ w.Quiet x ∨
    ((w.tasks x).pc = .adoptTid ∨ (w.tasks x).pc = .adoptInsert) ∨
    ∃ e rest, (w.tasks e).pc = .execCleanManager x rest

/-- The snapshot of an exit has every thread that is not on its way out. -/
structure ExitCover (w : GroupWorld) (o : Nat) (all : List Nat) : Prop where
  self : o ∈ all
  made : ∀ t ∈ all, t < w.count
  distinct : ∀ a ∈ all, ∀ b ∈ all, (w.tasks a).tid = (w.tasks b).tid → a = b
  placed : ∀ x, x < w.count → x ∈ all ∨ (w.tasks x).pc.IsLeaving = true ∨ w.Quiet x

/-- The threads that hold the tid of the process are the caller and those of a list. -/
def Heads (w : GroupWorld) (o : Nat) (l : List Nat) : Prop :=
  ∀ x, (w.tasks x).inGroup = true → (w.tasks x).tid = w.tgid → x = o ∨ x ∈ l

structure ExecCover (w : GroupWorld) (o : Nat) (all : List Nat) : Prop where
  nodup : all.Nodup
  made : ∀ t ∈ all, t < w.count
  apart : ∀ t ∈ all, (w.tasks t).tid ≠ (w.tasks o).tid
  inGroup : ∀ t ∈ all, (w.tasks t).inGroup = true
  adders : ∀ t ∈ all, ∀ s, (w.tasks s).pc.child = some t → s ∈ all ∨ (w.tasks s).Dead
  heads : w.Heads o all

def Cover (w : GroupWorld) (o : Nat) : Teardown → List Nat → Prop
  | .exit, all => w.ExitCover o all
  | .exec, all => w.ExecCover o all

/-- The siblings of an `execve` that are stopped and not yet removed. -/
structure ExecRest (w : GroupWorld) (o : Nat) (rest : List Nat) : Prop where
  nodup : rest.Nodup
  made : ∀ t ∈ rest, t < w.count
  inGroup : ∀ t ∈ rest, (w.tasks t).inGroup = true
  dead : ∀ t ∈ rest, (w.tasks t).Dead
  noAdder : ∀ t ∈ rest, w.NoAdder t
  heads : w.Heads o rest

/-- After `cleanup_exiting_thread`. -/
def Swept (w : GroupWorld) (o t : Nat) : Prop := t = o ∨ w.Parked t

/-- Out of the process, or the leader, for which the last statements do that. -/
def Cleaned (w : GroupWorld) (o leader t : Nat) : Prop := w.Quiet t ∨ t = leader ∧ w.Swept o t

/-- What holds when the owner of an exit is cleaning up. -/
structure Cleaning (w : GroupWorld) (o : Nat) (all : List Nat) (leader : Nat) (rest : List Nat) :
    Prop where
  cover : w.ExitCover o all
  dead : ∀ t ∈ all, t = o ∨ (w.tasks t).Dead
  leader : leader ∈ all
  sub : ∀ t ∈ rest, t ∈ all

/-- What holds when the thread `o` is at a statement. -/
def Phase (w : GroupWorld) (o : Nat) : Pc → Prop
  | .leavingManager => w.Ended o
  | .terminate k all rest | .terminateStatus k all _ rest | .terminateRemove k all _ rest =>
    w.Cover o k all ∧ ∀ t ∈ all, t = o ∨ t ∈ rest ∨ (w.tasks t).terminateRequested = true
  | .wait k all rest =>
    w.Cover o k all ∧ (∀ t ∈ all, t = o ∨ (w.tasks t).terminateRequested = true) ∧
      ∀ t ∈ all, t = o ∨ t ∈ rest ∨ (w.tasks t).Dead
  | .exitClean all leader rest =>
    w.Cleaning o all leader rest ∧ ∀ t ∈ all, t ∈ rest ∨ w.Cleaned o leader t
  | .exitCleanStatus all leader t rest =>
    w.Cleaning o all leader rest ∧ t ∈ all ∧ w.Swept o t ∧
      ∀ u ∈ all, u = t ∨ u ∈ rest ∨ w.Cleaned o leader u
  | .exitCleanManager all leader t rest =>
    w.Cleaning o all leader rest ∧ t ∈ all ∧ w.Ended t ∧
      ∀ u ∈ all, u = t ∨ u ∈ rest ∨ w.Cleaned o leader u
  | .exitCleanLeader _ => False
  | .clear leader | .recycle leader =>
    leader < w.count ∧ ∀ x, x < w.count → (w.tasks x).pc.IsLeaving = true ∨ w.Cleaned o leader x
  | .publish leader | .exitLeader leader =>
    leader < w.count ∧ ∀ x, x < w.count → w.Cleaned o leader x
  | .removeLeader leader => ∀ x, x < w.count → w.Quiet x ∨ x = leader ∧ w.Ended x
  | .execClean rest => w.ExecRest o rest
  | .execCleanStatus t rest => w.ExecRest o (t :: rest) ∧ w.Parked t
  | .execCleanGroup t rest => w.ExecRest o (t :: rest) ∧ w.Ended t
  | .execCleanManager t rest => w.ExecRest o rest ∧ t < w.count ∧ w.Ended t
  | .adoptManager | .adoptGroup => w.Heads o []
  | .adoptTid => w.Heads o [] ∧ (w.tasks o).inGroup = false
  | .adoptInsert => w.Heads o [] ∧ (w.tasks o).inGroup = false ∧ (w.tasks o).tid = w.tgid
  | _ => True

structure Inv (w : GroupWorld) : Prop where
  sound : w.Sound
  tgid : w.tgid < w.nextTid
  tids : ∀ x, x < w.count → (w.tasks x).tid < w.nextTid
  keys : ∀ a b, (w.tasks a).inGroup = true → (w.tasks b).inGroup = true →
    (w.tasks a).tid = (w.tasks b).tid → a = b
  lock : ∀ x, w.groupLock = some x ↔ (w.tasks x).pc = .leaveChecked
  single : ∀ a b, (w.tasks a).pc.Active = true → (w.tasks b).pc.Active = true → a = b
  expects : ∀ o, (w.tasks o).pc.Expects w.lifecycle = true
  unlocked : ∀ o, (w.tasks o).pc.PastSnapshot = true ∨ (w.tasks o).pc.PastExecSnapshot = true →
    w.groupLock = none
  placed : ¬ w.Sealed → ∀ x, x < w.count → w.Placed x
  phase : ∀ o, w.Phase o (w.tasks o).pc
  ended : w.lifecycle = .zombie ∨ w.lifecycle = .reaped →
    (∃ o leader, (w.tasks o).pc = .exitLeader leader ∨ (w.tasks o).pc = .removeLeader leader) ∨
      ∀ x, x < w.count → w.Quiet x

/-- The condition: no thread is made after the snapshot of an exit, and when the address space is released
no thread is on its way out of the process by itself. -/
def Closed (w : GroupWorld) : GroupLabel → Prop
  | .clone _ _ => ¬ w.Sealed
  | .step o =>
    (w.tasks o).pc.AtRecycle = true → ∀ x ∈ List.range w.count, (w.tasks x).pc.IsLeaving = false
  | _ => True

instance (w : GroupWorld) : (l : GroupLabel) → Decidable (w.Closed l)
  | .clone _ _ => inferInstanceAs (Decidable (¬ _))
  | .step _ => inferInstanceAs (Decidable (_ → _))
  | .claim _ | .handoff _ | .publish _ | .block _ | .unblock _ | .wakeup _ | .taskExit _ |
    .groupExit _ | .beginExec _ | .reap => isTrue trivial

/-! ### One owner at a time -/

section Owner

variable {w w' : GroupWorld} {l : GroupLabel} {o x : Nat} {pc pc' : Pc} {e : GroupEffect}

theorem statement_past (h : w.statement o pc = some (e, pc')) :
    (pc.Expects w.lifecycle = true → pc'.Expects (w.perform o e).lifecycle = true) ∧
    (pc'.PastSnapshot = true ∨ pc'.PastExecSnapshot = true →
      (pc.PastSnapshot = true ∨ pc.PastExecSnapshot = true) ∨ w.groupLock = none) ∧
    (pc.PastSnapshot = true → pc'.PastSnapshot = true ∨ ∃ leader, pc = .removeLeader leader) := by
  unfold statement at h
  split at h
  all_goals try split_ifs at h
  all_goals cases h
  all_goals refine ⟨?_, ?_, ?_⟩
  all_goals first
    | exact id
    | exact .inl
    | exact fun _ ↦ rfl
    | exact fun _ ↦ .inr ‹_›
    | exact fun _ ↦ .inl (.inl rfl)
    | exact fun _ ↦ .inl (.inr rfl)
    | exact fun _ ↦ .inl rfl
    | exact fun _ ↦ .inr ⟨_, rfl⟩

theorem lifecycle_step (h : w.Step l w') : w'.lifecycle = w.lifecycle ∨
    (w.lifecycle = .running ∧ (w'.lifecycle = .exiting ∨ w'.lifecycle = .exec)) ∨
    (w.lifecycle = .zombie ∧ w'.lifecycle = .reaped) ∨
    (∃ o leader, (w.tasks o).pc = .publish leader ∧ (w'.tasks o).pc = .exitLeader leader) ∨
    ∃ o, (w.tasks o).pc = .execFinish ∧ (w'.tasks o).pc = .user ∧ w'.lifecycle = .running := by
  revert h
  unfold Step
  fun_cases next w l with try rintro ⟨⟩
  | case28 o =>
    intro h
    obtain ⟨⟨e, pc'⟩, hstatement, rfl⟩ := Option.map_eq_some_iff.mp h
    cases e with
    | lifecycle c =>
      rcases statement_effect hstatement with ⟨hrunning, rfl⟩ | ⟨leader, hpc, -, rfl⟩ |
        ⟨hpc, rfl, rfl⟩
      · exact .inr (.inl ⟨hrunning, .inl rfl⟩)
      · exact .inr (.inr (.inr (.inl ⟨o, leader, hpc, pc_setPc_self ..⟩)))
      · exact .inr (.inr (.inr (.inr ⟨o, hpc, pc_setPc_self .., rfl⟩)))
    | none | markExiting | leave | requestTermination | setExited | setRunning | removeTask | ungroup
    | unmanage | clearGroup | group | manage | enqueue | block | adoptTid => exact .inl rfl
  | case26 o hc => exact .inr (.inl ⟨hc.2, .inr rfl⟩)
  | case30 hc => exact .inr (.inr (.inl ⟨hc, rfl⟩))
  | _ => exact .inl rfl

theorem active_step (hS : w.Sound) (h : w.Step l w') (hactive : (w'.tasks x).pc.Active = true) :
    (w.tasks x).pc.Active = true ∨ l.actor = some x ∧ w.lifecycle = .running := by
  rcases hS.pc_step h x with heq | ⟨e, pc', rfl, hstatement, hpc, -⟩ | ⟨_, _, hb, -, hpc⟩
  · exact .inl (heq ▸ hactive)
  · rcases (statement_goesOn hstatement).active (hpc ▸ hactive) with hold | hrunning
    · exact .inl hold
    · exact .inr ⟨rfl, hrunning⟩
  · rw [hpc] at hactive
    cases hb with
    | beginExec hrunning => exact .inr ⟨rfl, hrunning⟩
    | block | unblock | clone | taskExit | leave | groupExit => nomatch hactive

theorem Inv.single_step (hI : w.Inv) (h : w.Step l w') (a b : Nat)
    (ha : (w'.tasks a).pc.Active = true) (hb : (w'.tasks b).pc.Active = true) : a = b := by
  have hbusy : ∀ c, (w.tasks c).pc.Active = true → w.lifecycle ≠ .running := fun c hc hrunning ↦
    Pc.not_running_of_active hc (hrunning ▸ hI.expects c)
  rcases active_step hI.sound h ha with ha | ⟨ha, hrunning⟩
  · rcases active_step hI.sound h hb with hb | ⟨-, hrunning⟩
    · exact hI.single a b ha hb
    · exact absurd hrunning (hbusy a ha)
  · rcases active_step hI.sound h hb with hb | ⟨hb, -⟩
    · exact absurd hrunning (hbusy b hb)
    · exact some.inj (ha.symm.trans hb)

theorem Inv.expects_step (hI : w.Inv) (h : w.Step l w') (x : Nat) :
    (w'.tasks x).pc.Expects w'.lifecycle = true := by
  rcases hI.sound.pc_step h x with heq | ⟨e, pc', -, hstatement, hpc, rfl⟩ | ⟨_, new, hb, -, hpc⟩
  · rw [heq]
    by_cases hactive : (w.tasks x).pc.Active = true
    · rcases lifecycle_step h with hsame | ⟨hrunning, -⟩ | ⟨hzombie, hreaped⟩ |
        ⟨o, leader, ho, ho'⟩ | ⟨o, ho, ho', -⟩
      · exact hsame ▸ hI.expects x
      · exact (Pc.not_running_of_active hactive (hrunning ▸ hI.expects x)).elim
      · exact hreaped ▸ Pc.expects_reaped (hzombie ▸ hI.expects x)
      · obtain rfl := hI.single x o hactive (by rw [ho]; rfl)
        simp [ho, ho'] at heq
      · obtain rfl := hI.single x o hactive (by rw [ho]; rfl)
        simp [ho, ho'] at heq
    · exact Pc.expects_of_not_active (Bool.eq_false_iff.mpr hactive) _
  · rw [hpc]
    exact (statement_past hstatement).1 (hI.expects x)
  · rw [hpc]
    cases hb with
    | beginExec =>
      obtain ⟨-, rfl⟩ := of_guard h
      rfl
    | block | unblock | clone | taskExit | leave | groupExit => exact Pc.expects_of_not_active rfl _

end Owner

/-! ### The lock and the keys of the thread group -/

section Keys

variable {w w' : GroupWorld} {l : GroupLabel} {o x : Nat} {pc pc' : Pc} {e : GroupEffect}

theorem groupLock_step (hS : w.Sound) (h : w.Step l w') :
    (w'.groupLock = w.groupLock ∧ ∀ x, l.actor = some x →
      (w.tasks x).pc ≠ .leaveChecked ∧ (w'.tasks x).pc ≠ .leaveChecked) ∨
    (∃ o, l = .step o ∧ w.At o .leaveChecked ∧ (w'.tasks o).pc = .leaving ∧ w'.groupLock = none) ∨
    ∃ o, l = .taskExit o ∧ w.groupLock = none ∧ w.lifecycle = .running ∧ w'.groupLock = some o ∧
      (w'.tasks o).pc = .leaveChecked := by
  -- the other ways into a path of the code begin and end elsewhere
  have hbegins : (∀ o, l ≠ .step o ∧ l ≠ .taskExit o) → ∀ x, l.actor = some x →
      (w.tasks x).pc ≠ .leaveChecked ∧ (w'.tasks x).pc ≠ .leaveChecked := by
    intro hl x hactor
    rcases pc_of_actor hS h hactor with ⟨_, _, hstep, -⟩ | ⟨old, new, hb, hold, hnew⟩
    · exact absurd hstep (hl x).1
    rw [hold, hnew]
    cases hb with
    | block | unblock | clone | groupExit | beginExec => exact ⟨by simp, by simp⟩
    | taskExit | leave => exact absurd rfl (hl x).2
  cases l with
  | step o =>
    rcases step_eq h with ⟨hon, e, pc', hstatement, rfl⟩
    by_cases hpc : (w.tasks o).pc = .leaveChecked
    · rw [hpc] at hstatement
      cases hstatement
      exact .inr (.inl ⟨o, rfl, ⟨hon, hpc⟩, pc_setPc_self .., rfl⟩)
    refine .inl ⟨?_, fun x hactor ↦ ?_⟩
    · cases e with
      | leave => exact absurd (statement_effect hstatement) hpc
      | none | lifecycle | markExiting | requestTermination | setExited | setRunning | removeTask
      | ungroup | unmanage | clearGroup | group | manage | enqueue | block | adoptTid => rfl
    · obtain rfl := some.inj hactor
      rw [pc_setPc_self]
      exact ⟨hpc, (statement_goesOn hstatement).leaveChecked⟩
  | taskExit o =>
    simp only [Step, next] at h
    split_ifs at h with hc hexit
    · obtain rfl := some.inj h
      refine .inl ⟨rfl, fun x hactor ↦ ?_⟩
      obtain rfl := some.inj hactor
      rw [pc_setPc_self, hc.1.2]
      exact ⟨by simp, by simp⟩
    · obtain rfl := some.inj h
      push Not at hexit
      exact .inr (.inr ⟨o, rfl, hc.2, hexit.2.1, rfl, pc_setPc_self w o _⟩)
  | publish o =>
    refine .inl ⟨?_, hbegins (by simp)⟩
    simp only [Step, next] at h
    split at h <;> (try split_ifs at h) <;> first | (cases h; rfl) | cases h
  | claim | handoff | block | unblock | wakeup | clone | beginExec | groupExit | reap =>
    refine .inl ⟨?_, hbegins (by simp)⟩
    obtain ⟨-, rfl⟩ := of_guard h
    rfl

theorem Inv.lock_step (hI : w.Inv) (h : w.Step l w') (x : Nat) :
    w'.groupLock = some x ↔ (w'.tasks x).pc = .leaveChecked := by
  rcases groupLock_step hI.sound h with ⟨hsame, hactors⟩ | ⟨o, rfl, hat, hpc, hnone⟩ |
    ⟨o, rfl, hnone, -, hsome, hpc⟩
  · rw [hsame, hI.lock x]
    rcases hI.sound.pc_frame h x with heq | hactor
    · rw [heq]
    · exact iff_of_false (hactors x hactor).1 (hactors x hactor).2
  · rw [hnone]
    refine iff_of_false (by simp) fun hx ↦ ?_
    have hold : (w.tasks x).pc = .leaveChecked := by
      rcases hI.sound.pc_frame h x with heq | hactor
      · exact heq ▸ hx
      · obtain rfl := some.inj hactor
        exact hat.2
    have hxo : x = o := some.inj (((hI.lock x).mpr hold).symm.trans ((hI.lock o).mpr hat.2))
    rw [hxo, hpc] at hx
    nomatch hx
  · rw [hsome]
    constructor
    · intro heq
      rw [← some.inj heq]
      exact hpc
    · intro hx
      rcases hI.sound.pc_frame h x with heq | hactor
      · have hlocked := (hI.lock x).mpr (heq ▸ hx)
        rw [hnone] at hlocked
        nomatch hlocked
      · exact hactor

theorem Inv.unlocked_step (hI : w.Inv) (h : w.Step l w') (x : Nat)
    (hpast : (w'.tasks x).pc.PastSnapshot = true ∨ (w'.tasks x).pc.PastExecSnapshot = true) :
    w'.groupLock = none := by
  have hbefore : ((w.tasks x).pc.PastSnapshot = true ∨ (w.tasks x).pc.PastExecSnapshot = true) ∨
      w.groupLock = none ∧ l = .step x := by
    rcases hI.sound.pc_step h x with heq | ⟨e, pc', hl, hstatement, hpc, -⟩ | ⟨_, new, hb, -, hpc⟩
    · exact .inl (heq ▸ hpast)
    · exact ((statement_past hstatement).2.1 (hpc ▸ hpast)).imp_right fun hnone ↦ ⟨hnone, hl⟩
    · rw [hpc] at hpast
      cases hb <;> simp [Pc.PastSnapshot, Pc.PastExecSnapshot] at hpast
  rcases groupLock_step hI.sound h with ⟨hsame, -⟩ | ⟨_, -, -, -, hnone⟩ | ⟨o, rfl, -, hrunning, -⟩
  · rw [hsame]
    rcases hbefore with hpast | ⟨hnone, -⟩
    · exact hI.unlocked x hpast
    · exact hnone
  · exact hnone
  · rcases hbefore with hpast | ⟨-, hl⟩
    · exact (Pc.not_running_of_active (Pc.active_of_past hpast) (hrunning ▸ hI.expects x)).elim
    · cases hl

theorem nextTid_step (h : w.Step l w') : w.nextTid ≤ w'.nextTid ∧ w'.tgid = w.tgid ∧
    ∀ o tid, l = .clone o tid → w.nextTid ≤ tid ∧ tid < w'.nextTid := by
  revert h
  unfold Step
  fun_cases next w l with try rintro ⟨⟩
  | case19 o tid hc =>
    refine ⟨Nat.le_succ_of_le hc.2.1, rfl, fun o' tid' heq ↦ ?_⟩
    cases heq
    exact ⟨hc.2.1, Nat.lt_succ_self tid⟩
  | case28 =>
    intro h
    obtain ⟨_, -, rfl⟩ := Option.map_eq_some_iff.mp h
    exact ⟨Nat.le_refl _, rfl, by rintro _ _ ⟨⟩⟩
  | _ => exact ⟨Nat.le_refl _, rfl, by rintro _ _ ⟨⟩⟩

theorem tid_adopt (h : w.Step (.step x) w') (hat : w.At x .adoptTid) : (w'.tasks x).tid = w.tgid := by
  rcases step_eq h with ⟨-, e, pc', hstatement, rfl⟩
  rw [hat.2] at hstatement
  cases hstatement
  rw [field_setPc tid fun _ _ ↦ rfl]
  simp [act]

theorem Inv.tids_step (hI : w.Inv) (h : w.Step l w') (x : Nat) (hx : x < w'.count) :
    (w'.tasks x).tid < w'.nextTid := by
  have hnext := nextTid_step h
  rcases made h x with hmade | ⟨o, tid, hl, -, htask⟩
  · have hlt : x < w.count := by omega
    rcases (frame h hmade).tid with heq | ⟨rfl, hat⟩
    · rw [heq]
      exact Nat.lt_of_lt_of_le (hI.tids x hlt) hnext.1
    · rw [tid_adopt h hat]
      exact Nat.lt_of_lt_of_le hI.tgid hnext.1
  · rw [htask]
    exact (hnext.2.2 o tid hl).2

/-- A thread in the thread group that was made before is there under its old tid, or it has just
inserted itself and displaced who had its tid. -/
theorem Inv.keys_step (hI : w.Inv) (h : w.Step l w') (a b : Nat)
    (ha : (w'.tasks a).inGroup = true) (hb : (w'.tasks b).inGroup = true)
    (htid : (w'.tasks a).tid = (w'.tasks b).tid) : a = b := by
  have hold : ∀ x, (x < w.count ∨ w'.count ≤ x) → (w'.tasks x).inGroup = true →
      (w.tasks x).inGroup = true ∧ (w'.tasks x).tid = (w.tasks x).tid ∨
        l = .step x ∧ w.At x .adoptInsert := by
    intro x hmade hin
    rcases (frame h hmade).inGroup hin with hin | hat
    · rcases (frame h hmade).tid with heq | ⟨-, hat⟩
      · exact .inl ⟨hin, heq⟩
      · have hphase := hI.phase x
        rw [hat.2] at hphase
        exact absurd hin (by simp [hphase.2])
    · exact .inr hat
  have hinsert : ∀ x y, l = .step x → w.At x .adoptInsert → (w'.tasks y).inGroup = true →
      (w'.tasks x).tid = (w'.tasks y).tid → x = y := by
    rintro x y rfl hat hin heq
    rcases step_eq h with ⟨-, e, pc', hstatement, rfl⟩
    rw [hat.2] at hstatement
    obtain ⟨-, ⟨⟩⟩ := of_guard hstatement
    by_contra hne
    have hne' : ¬ y = x := fun heq ↦ hne heq.symm
    rw [field_setPc tid fun _ _ ↦ rfl, field_setPc tid fun _ _ ↦ rfl] at heq
    rw [field_setPc inGroup fun _ _ ↦ rfl] at hin
    simp only [act, hne', if_true, if_false] at heq hin
    split_ifs at heq hin with hsame
    exact hsame heq.symm
  have hfresh : ∀ x y o tid, l = .clone o tid → w'.tasks x = childTask tid →
      (y < w.count ∨ w'.count ≤ y) → (w'.tasks y).inGroup = true →
      (w'.tasks x).tid = (w'.tasks y).tid → False := by
    intro x y o tid hl htask hmade hin heq
    rcases hold y hmade hin with ⟨hin, htid⟩ | ⟨hstep, -⟩
    · have hbound := hI.tids y (hI.sound.lt_of_inGroup hin)
      have hge := ((nextTid_step h).2.2 o tid hl).1
      rw [htask, htid] at heq
      have heq : tid = (w.tasks y).tid := heq
      omega
    · rw [hl] at hstep
      cases hstep
  rcases made h a with hma | ⟨o, tid, hl, hca, hta⟩
  · rcases made h b with hmb | ⟨o, tid, hl, -, htb⟩
    · rcases hold a hma ha with ⟨ha₀, hta⟩ | ⟨hl, hat⟩
      · rcases hold b hmb hb with ⟨hb₀, htb⟩ | ⟨hl, hat⟩
        · exact hI.keys a b ha₀ hb₀ (hta ▸ htb ▸ htid)
        · exact (hinsert b a hl hat ha htid.symm).symm
      · exact hinsert a b hl hat hb htid
    · exact (hfresh b a o tid hl htb hma ha htid.symm).elim
  · rcases made h b with hmb | ⟨_, _, -, hcb, -⟩
    · exact (hfresh a b o tid hl hta hmb hb htid).elim
    · exact hca.trans hcb.symm

end Keys

/-! ### Who is in the thread group -/

section Placed

variable {w w' : GroupWorld} {l : GroupLabel} {o x : Nat} {pc pc' : Pc} {e : GroupEffect}

/-- The statements of the thread `o` that take the task `x` out of the thread group. -/
inductive Removes (w : GroupWorld) (o x : Nat) : Pc → Prop
  | leave : (w.tasks x).tid = (w.tasks o).tid → Removes w o x .leaveChecked
  | clear (leader : Nat) : Removes w o x (.clear leader)
  | clean (t : Nat) (rest : List Nat) : (w.tasks x).tid = (w.tasks t).tid →
    Removes w o x (.execCleanGroup t rest)
  | adopt : (w.tasks x).tid = (w.tasks o).tid → Removes w o x .adoptGroup
  | insert : x ≠ o → (w.tasks x).tid = (w.tasks o).tid → Removes w o x .adoptInsert

theorem act_removed {t : GroupTask} (hin : t.inGroup = true) :
    (w.act o e x t).inGroup = true ∨ e = .leave ∧ t.tid = (w.tasks o).tid ∨ e = .ungroup t.tid ∨
      e = .clearGroup ∨ ∃ u, e = .group u ∧ x ≠ u ∧ t.tid = (w.tasks u).tid := by
  unfold act
  split <;> (try split_ifs) <;> simp_all

theorem statement_removes (h : w.statement o pc = some (e, pc')) (hin : (w.tasks x).inGroup = true) :
    (w.act o e x (w.tasks x)).inGroup = true ∨ w.Removes o x pc := by
  rcases act_removed (w := w) (o := o) (x := x) (e := e) hin with hkept | ⟨rfl, htid⟩ | rfl | rfl |
    ⟨u, rfl, hne, htid⟩
  · exact .inl hkept
  · rw [statement_effect h]
    exact .inr (.leave htid)
  · rcases statement_effect h with ⟨t, rest, rfl, htid⟩ | ⟨rfl, htid⟩
    · exact .inr (.clean t rest htid)
    · exact .inr (.adopt htid)
  · rcases statement_effect h with ⟨leader, rfl⟩
    exact .inr (.clear leader)
  · rcases statement_effect h with ⟨rfl, rfl⟩
    exact .inr (.insert hne htid)

theorem inGroup_step (h : w.Step l w') (hx : x < w.count) (hin : (w.tasks x).inGroup = true) :
    (w'.tasks x).inGroup = true ∨
      ∃ o, l = .step o ∧ (w.tasks o).cpu = .on ∧ w.Removes o x (w.tasks o).pc := by
  have hmodify : ∀ (v : GroupWorld) (y : Nat) (f : GroupTask → GroupTask),
      (v.tasks x).inGroup = true → (∀ t, (f t).inGroup = t.inGroup) →
      ((v.modify y f).tasks x).inGroup = true := fun v y f hv hf ↦
    of_modify (P := (·.inGroup = true)) v (fun _ ↦ hv) fun _ ↦ (hf _).trans hv
  have hact : ∀ (v : GroupWorld) (y : Nat) (e : GroupEffect), (v.tasks x).inGroup = true →
      (e = .block ∨ e = .enqueue y ∨ ∃ tid, e = .removeTask tid) →
      ((v.perform y e).tasks x).inGroup = true := by
    intro v y e hv he
    rcases act_removed (e := e) hv with hkept | ⟨rfl, -⟩ | rfl | rfl |
      ⟨u, rfl, -⟩
    · exact hkept
    all_goals simp at he
  revert h
  unfold Step
  fun_cases next w l with try rintro ⟨⟩
  | case1 | case3 | case5 | case6 | case7 | case10 => exact .inl (hmodify _ _ _ hin fun _ ↦ rfl)
  | case9 => exact .inl (hmodify _ _ _ (hact _ _ _ hin (.inr (.inl rfl))) fun _ ↦ rfl)
  | case13 => exact .inl (hmodify _ _ _ (hact _ _ _ hin (.inl rfl)) fun _ ↦ rfl)
  | case15 => exact .inl (hmodify _ _ _ (hact _ _ _ hin (.inr (.inr ⟨_, rfl⟩))) fun _ ↦ rfl)
  | case17 => exact .inl (hact _ _ _ (hmodify _ _ _ hin fun _ ↦ rfl) (.inr (.inl rfl)))
  | case19 o tid =>
    left
    show (Function.update (w.setPc o _).tasks w.count (childTask tid) x).inGroup = true
    rw [Function.update_of_ne (Nat.ne_of_lt hx)]
    exact hmodify w _ _ hin fun _ ↦ rfl
  | case21 o | case22 o | case24 o | case26 o =>
    have hset (pc : Pc) : ((w.setPc o pc).tasks x).inGroup = true := hmodify w o _ hin fun _ ↦ rfl
    exact .inl (hset _)
  | case28 o hon =>
    intro h
    obtain ⟨⟨e, pc'⟩, hstatement, rfl⟩ := Option.map_eq_some_iff.mp h
    rw [field_setPc inGroup fun _ _ ↦ rfl]
    exact (statement_removes hstatement hin).imp_right fun hremoves ↦ ⟨o, rfl, hon, hremoves⟩
  | case30 => exact .inl hin

/-! The owner of an exit that has its snapshot keeps the process from all that. -/

theorem sealed_of_past (hS : w.Sound) (h : (w.tasks o).pc.PastSnapshot = true) : w.Sealed := by
  refine .inr (.inr ⟨o, List.mem_range.mpr (hS.lt_of_pc fun hpc ↦ ?_), h⟩)
  rw [hpc] at h
  nomatch h

variable (hI : w.Inv)
include hI

theorem Inv.zombie_step (h : w.Step l w')
    (hzombie : w.lifecycle = .zombie ∨ w.lifecycle = .reaped) :
    w'.lifecycle = .zombie ∨ w'.lifecycle = .reaped := by
  rcases lifecycle_step h with hsame | ⟨hrunning, -⟩ | ⟨-, hreaped⟩ | ⟨o, leader, ho, -⟩ | ⟨o, ho, -⟩
  · rwa [hsame]
  · simp [hrunning] at hzombie
  · exact .inr hreaped
  all_goals
    have hexpects := hI.expects o
    rw [ho] at hexpects
    have hlife := of_decide_eq_true hexpects
    simp [hlife] at hzombie

theorem Inv.sealed_step (h : w.Step l w') (hs : w.Sealed) : w'.Sealed := by
  have hpublished (hzombie : w.lifecycle = .zombie ∨ w.lifecycle = .reaped) : w'.Sealed :=
    (hI.zombie_step h hzombie).imp_right .inl
  rcases hs with hzombie | hreaped | ⟨o, -, hpast⟩
  · exact hpublished (.inl hzombie)
  · exact hpublished (.inr hreaped)
  rcases hI.sound.pc_step h o with heq | ⟨e, pc', -, hstatement, hpc, -⟩ | ⟨old, _, hb, hpc, -⟩
  · exact sealed_of_past (hI.sound.step h) (heq ▸ hpast)
  · rcases (statement_past hstatement).2.2 hpast with hpast' | ⟨leader, hlast⟩
    · exact sealed_of_past (hI.sound.step h) (hpc ▸ hpast')
    · have hexpects := hI.expects o
      rw [hlast] at hexpects
      exact hpublished (of_decide_eq_true hexpects)
  · rw [hpc] at hpast
    cases hb <;> nomatch hpast

theorem Inv.live_inGroup (hs : ¬ w.Sealed) (hat : w.At x pc)
    (hclosing : pc.Closing = false) (hleaving : pc.IsLeaving = false)
    (hadopt : pc ≠ .adoptTid ∧ pc ≠ .adoptInsert) : (w.tasks x).inGroup = true := by
  have hx : x < w.count := by
    by_contra hge
    have hoff := (hI.sound.unmade x (Nat.le_of_not_lt hge)).1
    exact absurd hat.1 (by simp [hoff])
  rcases hI.placed hs x hx with hin | hleave | hquiet | hpc | ⟨e, rest, he⟩
  · exact hin
  · rw [hat.2, hleaving] at hleave
    nomatch hleave
  · exact (hquiet.1.not_at hclosing hat).elim
  · rw [hat.2] at hpc
    exact (hpc.elim hadopt.1 hadopt.2).elim
  · have hphase := hI.phase e
    rw [he] at hphase
    exact (hphase.2.2.not_at hclosing hat).elim

theorem Inv.placed_of_removes (h : w.Step (.step o) w') (hs : ¬ w.Sealed)
    (hin : (w.tasks x).inGroup = true) (hremoves : w.Removes o x (w.tasks o).pc) : w'.Placed x := by
  rcases step_eq h with ⟨hon, e, pc', hstatement, rfl⟩
  generalize hpc : (w.tasks o).pc = pc at hremoves
  rw [hpc] at hstatement
  cases hremoves with
  | leave htid =>
    have hself := hI.live_inGroup hs ⟨hon, hpc⟩ rfl rfl (by simp)
    obtain rfl := hI.keys x o hin hself htid
    cases hstatement
    refine .inr (.inl ?_)
    rw [pc_setPc_self]
    rfl
  | clear leader => exact absurd (sealed_of_past hI.sound (by rw [hpc]; rfl)) hs
  | clean t rest htid =>
    have hphase := hI.phase o
    rw [hpc] at hphase
    obtain rfl := hI.keys x t hin (hphase.1.inGroup t List.mem_cons_self) htid
    obtain ⟨-, ⟨⟩⟩ := of_guard hstatement
    exact .inr (.inr (.inr (.inr ⟨o, rest, pc_setPc_self ..⟩)))
  | adopt htid =>
    have hself := hI.live_inGroup hs ⟨hon, hpc⟩ rfl rfl (by simp)
    obtain rfl := hI.keys x o hin hself htid
    obtain ⟨-, ⟨⟩⟩ := of_guard hstatement
    exact .inr (.inr (.inr (.inl (.inl (pc_setPc_self ..)))))
  | insert hne htid =>
    have hphase := hI.phase o
    rw [hpc] at hphase
    rcases hphase.1 x hin (htid.trans hphase.2.2) with heq | hnil
    · exact absurd heq hne
    · nomatch hnil

theorem Inv.placed_step (h : w.Step l w') (hs : ¬ w'.Sealed) (hx : x < w'.count) : w'.Placed x := by
  have hs₀ : ¬ w.Sealed := fun hs₀ ↦ hs (hI.sealed_step h hs₀)
  rcases made h x with hmade | ⟨_, _, -, -, htask⟩
  · have hlt : x < w.count := by omega
    rcases hI.placed hs₀ x hlt with hin | hleaving | hquiet | hadopt | ⟨o, rest, ho⟩
    · rcases inGroup_step h hlt hin with hkept | ⟨o, rfl, hon, hremoves⟩
      · exact .inl hkept
      · exact hI.placed_of_removes h hs₀ hin hremoves
    · have hend (hpc : (w.tasks x).pc = .leavingManager) : w.Ended x := by
        have hphase := hI.phase x
        rwa [hpc] at hphase
      rcases hI.sound.leaving_step h hlt hleaving hend with hleaving | hquiet
      · exact .inr (.inl hleaving)
      · exact .inr (.inr (.inl hquiet))
    · exact .inr (.inr (.inl (hI.sound.quiet_step h hlt hquiet)))
    · rcases hI.sound.pc_step h x with heq | ⟨e, pc', -, hstatement, hpc, hw'⟩ | ⟨old, _, hb, hpc, -⟩
      · exact .inr (.inr (.inr (.inl (heq ▸ hadopt))))
      · rcases hadopt with hadopt | hadopt
        · rw [hadopt] at hstatement
          cases hstatement
          exact .inr (.inr (.inr (.inl (.inr hpc))))
        · rw [hadopt] at hstatement
          obtain ⟨-, ⟨⟩⟩ := of_guard hstatement
          refine .inl ?_
          rw [hw', field_setPc inGroup fun _ _ ↦ rfl]
          simp [act]
      · rw [hpc] at hadopt
        cases hb <;> simp at hadopt
    · rcases hI.sound.pc_step h o with heq | ⟨e, pc', -, hstatement, hpc, hw'⟩ | ⟨old, _, hb, hpc, -⟩
      · exact .inr (.inr (.inr (.inr ⟨o, rest, heq.trans ho⟩)))
      · have hphase := hI.phase o
        rw [ho] at hphase hstatement
        cases hstatement
        refine .inr (.inr (.inl ⟨hI.sound.ended_step h hlt hphase.2.2, ?_⟩))
        rw [hw']
        exact managed_unmanage rfl
      · rw [hpc] at ho
        cases hb <;> cases ho
  · refine .inl ?_
    rw [htask]
    rfl

end Placed

end GroupWorld

end RespOS.Task
