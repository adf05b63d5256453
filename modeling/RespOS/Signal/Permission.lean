import RespOS.Signal.Mask

/-!
# Who may signal whom

Five calls reach another process: `sys_kill` through the process table, `sys_tkill` and `sys_tgkill`
through the task table, `sys_rt_sigqueueinfo` through the process table, `sys_prlimit64` for its limits.
`sys_kill` and `sys_rt_sigqueueinfo` compare the credentials of the caller with those of the target
process; the other three do not.

`Processes` is the part of the system that these calls read and do not change: credentials, families,
the two tables. `SignalWorld` is what they change. `call_unchanged_iff` says exactly when a call of an
unprivileged caller leaves a process of another user as it was: `SigCall.Touches` lists what reaches it
otherwise. `unprivileged_tkill_reaches` is a `tkill` of another user's thread, and a lowered limit.

Stopped means stopped by job control. Wake-ups of blocked threads, and the wait event that a parent
reads, are left out.
-/

namespace RespOS.Signal

open RespOS.Outcome (keeps_err keeps_ok)
open Function (update update_eq_self update_of_ne update_self)
open SigPending Option

/-! ### Processes and what signals change -/

/-- Credentials, families and tables. Processes are named by their `tgid`, threads by their `tid`. -/
structure Processes where
  uid : Nat → Nat
  euid : Nat → Nat
  suid : Nat → Nat
  pgid : Nat → Nat
  parent : Nat → Option Nat
  /-- `ProcessState::members`. -/
  members : Nat → List Nat
  /-- `SA_NOCLDSTOP` of the action for `SIGCHLD`. -/
  nocldstop : Nat → Bool
  /-- The processes of `PROCESS_MANAGER`, in the order of its iteration. -/
  manager : List Nat
  /-- The threads of `TASK_MANAGER`. -/
  tasks : List Nat
  tgid : Nat → Nat
  /-- The file table of a thread, which has the `RLIMIT_NOFILE` pair. -/
  fdTable : Nat → Nat
  members_tgid : ∀ g, ∀ tid ∈ members g, tgid tid = g

/-- Pending queues, realtime counts, limits and stopped threads. -/
structure SignalWorld where
  pending : Nat → SigPending
  queuedRt : Nat → Nat
  limits : Nat → Nat → Nat × Nat
  nofile : Nat → Nat × Nat
  threadPending : Nat → SigPending
  stopped : Nat → Bool

def RLIMIT_COUNT : Nat := 16
def RLIMIT_NOFILE : Nat := 7
def RLIMIT_SIGPENDING : Nat := 11
def FTB_RLIMIT : Nat := 1024

/-- `SigInfo::USER`, `SigInfo::TKILL` and `SigInfo::CLD_CONTINUED`. -/
def codeUser : Int := 0
def codeTkill : Int := -6
def codeContinued : Int := 6

namespace Processes

variable (P : Processes)

/-- `ProcessState::signal_target`. -/
def signalTarget (g : Nat) : Option Nat := if g ∈ P.members g then some g else (P.members g).head?

/-- The credential test of `sys_kill` and `sys_rt_sigqueueinfo`. -/
def permitted (caller g : Nat) : Bool :=
  let c := P.tgid caller
  decide (P.euid c = 0) || decide (P.euid c = P.uid g) || decide (P.euid c = P.suid g) ||
    decide (P.uid c = P.uid g) || decide (P.uid c = P.suid g)

/-- `try_receive_siginfo`: the queues it writes and whether the signal was taken. -/
def tryReceiveSiginfo (w : SignalWorld) (tid : Nat) (siginfo : SigInfo) (threadLevel : Bool)
    (rtLimit : Nat) : SignalWorld × Bool :=
  let g := P.tgid tid
  let realtime := decide (SIGLEGACYMAX < siginfo.signo)
  if realtime = true ∧ rtLimit ≤ w.queuedRt g then (w, false)
  else
    let queuedRt := if realtime then update w.queuedRt g (w.queuedRt g + 1) else w.queuedRt
    if threadLevel then
      ({ w with
          queuedRt := queuedRt
          threadPending := update w.threadPending tid
            ((w.threadPending tid).addSignal siginfo).1 }, true)
    else
      ({ w with
          queuedRt := queuedRt
          pending := update w.pending g ((w.pending g).addSignal siginfo).1 }, true)

/-- `receive_siginfo` for the process. -/
def receiveSiginfo (w : SignalWorld) (tid : Nat) (siginfo : SigInfo) : SignalWorld :=
  (P.tryReceiveSiginfo w tid siginfo false (usizeSize - 1)).1

def notifyParentSigchld (w : SignalWorld) (g : Nat) (code : Int) : SignalWorld :=
  match P.parent g with
  | none => w
  | some parent =>
    match P.signalTarget parent with
    | none => w
    | some tid =>
      if P.nocldstop parent then w else P.receiveSiginfo w tid ⟨SIGCHLD, code, some g⟩

/-- The body of the loop of `sys_kill` for a process that may be signalled. -/
def killProcess (w : SignalWorld) (caller g : Nat) (sig : Sig) : SignalWorld :=
  match P.signalTarget g with
  | none => w
  | some task =>
    let w := P.receiveSiginfo w task ⟨sig, codeUser, some (P.tgid caller)⟩
    if sig = SIGCONT ∧ w.stopped task then
      let w := P.notifyParentSigchld w g codeContinued
      -- `wakeup_stopped_task`
      { w with stopped := update w.stopped task false }
    else w

def killLoop (caller : Nat) (signum : Int) : List Nat → SignalWorld → SignalWorld
  | [], w => w
  | g :: targets, w =>
    if P.permitted caller g then
      killLoop caller signum targets
        (if signum = 0 then w else P.killProcess w caller g signum.toNat)
    else killLoop caller signum targets w

/-- The processes `sys_kill` selects. -/
def killTargets (caller : Nat) (pid : Int) : List Nat :=
  if 0 < pid then P.manager.filter fun g ↦ decide (g = pid.toNat)
  else
    let pgid := if pid = 0 then P.pgid (P.tgid caller) else (-pid).toNat
    P.manager.filter fun g ↦ (decide (pid = -1) || decide (P.pgid g = pgid)) &&
      !(decide (pid = -1) && decide (g = P.tgid caller))

def sysKill (w : SignalWorld) (caller : Nat) (pid signum : Int) : Outcome SignalWorld Unit :=
  if signum ≠ 0 ∧ isValid signum = false then .err .EINVAL w
  else
    let targets := P.killTargets caller pid
    if targets.isEmpty then .err .ESRCH w
    else
      let w := P.killLoop caller signum targets w
      if targets.any (P.permitted caller) then .ok () w else .err .EPERM w

def sysTkill (w : SignalWorld) (caller : Nat) (tid signum : Int) : Outcome SignalWorld Unit :=
  if tid ≤ 0 then .err .EINVAL w
  else if signum ≠ 0 ∧ isValid signum = false then .err .EINVAL w
  else if tid.toNat ∈ P.tasks then
    if signum = 0 then .ok () w
    else
      let limit := (w.limits (P.tgid tid.toNat) RLIMIT_SIGPENDING).1
      let (w, taken) := P.tryReceiveSiginfo w tid.toNat ⟨signum.toNat, codeTkill, some caller⟩ true limit
      if taken then .ok () w else .err .EAGAIN w
  else .err .ESRCH w

def sysTgkill (w : SignalWorld) (caller : Nat) (tgid tid signum : Int) : Outcome SignalWorld Unit :=
  if tgid ≤ 0 ∨ tid ≤ 0 then .err .EINVAL w
  else if tid.toNat ∈ P.tasks then
    if P.tgid tid.toNat ≠ tgid.toNat then .err .ESRCH w
    else if signum = 0 then .ok () w
    else P.sysTkill w caller tid signum
  else .err .ESRCH w

/-- `sys_rt_sigqueueinfo`; of the user's `siginfo` the code is read. -/
def sysRtSigqueueinfo (w : SignalWorld) (caller tgid : Nat) (signum : Int) (uinfo : UserRead Int) :
    Outcome SignalWorld Unit :=
  if tgid = 0 ∨ 2 ^ 63 ≤ tgid then .err .EINVAL w
  else if signum ≠ 0 ∧ isValid signum = false then .err .EINVAL w
  else if tgid ∈ P.manager then
    if P.permitted caller tgid = false then .err .EPERM w
    else
      match uinfo with
      | .value code =>
        if signum = 0 then .ok () w
        else if tgid ≠ P.tgid caller ∧ 0 ≤ code then .err .EPERM w
        else
          match P.signalTarget tgid with
          | none => .ok () w
          | some task =>
            let limit := (w.limits tgid RLIMIT_SIGPENDING).1
            let (w, taken) := P.tryReceiveSiginfo w task ⟨signum.toNat, code, none⟩ false limit
            if taken then .ok () w else .err .EAGAIN w
      | _ => .err .EFAULT w
  else .err .ESRCH w

/-- `TaskControlBlock::rlimit`: the limit on open files is kept in the file table. -/
def rlimit (w : SignalWorld) (task resource : Nat) : Nat × Nat :=
  if resource = RLIMIT_NOFILE then w.nofile (P.fdTable task) else w.limits (P.tgid task) resource

/-- `TaskControlBlock::set_rlimit` on values that `validate_rlimit` accepts. -/
def setRlimit (w : SignalWorld) (task resource : Nat) (limit : Nat × Nat) : SignalWorld :=
  if resource = RLIMIT_NOFILE then
    { w with nofile := update w.nofile (P.fdTable task) limit }
  else
    let limits := update (w.limits (P.tgid task)) resource limit
    { w with limits := update w.limits (P.tgid task) limits }

/-- The task whose limits `sys_prlimit64` reads and sets. -/
def limitTask (caller pid : Nat) : Option Nat :=
  if pid = 0 then some caller else if pid ∈ P.manager then P.signalTarget pid else none

def sysPrlimit64 (w : SignalWorld) (caller pid resource : Nat) (newLimit : UserRead (Nat × Nat))
    (oldLimit : UserWrite) : Outcome SignalWorld Unit :=
  match P.limitTask caller pid with
  | none => .err .ESRCH w
  | some task =>
    if RLIMIT_COUNT ≤ resource then .err .EINVAL w
    else if pid ≠ 0 ∧ P.tgid task ≠ pid then .err .ESRCH w
    else
      match newLimit with
      | .fault => .err .EFAULT w
      | .null => if oldLimit = .fault then .err .EFAULT w else .ok () w
      | .value (cur, max) =>
        if max < cur then .err .EINVAL w
        else if (P.rlimit w task resource).2 < max ∧ P.euid (P.tgid caller) ≠ 0 then .err .EPERM w
        else if resource = RLIMIT_NOFILE ∧ FTB_RLIMIT < max then .err .EINVAL w
        else if oldLimit = .fault then .err .EFAULT w
        else .ok () (P.setRlimit w task resource (cur, max))

end Processes

/-- The five calls with their arguments; `pid`, `tgid` and `tid` of the signal calls as `isize`. -/
inductive SigCall
  | kill (pid signum : Int)
  | tkill (tid signum : Int)
  | tgkill (tgid tid signum : Int)
  | rtSigqueueinfo (tgid : Nat) (signum : Int) (uinfo : UserRead Int)
  | prlimit64 (pid resource : Nat) (newLimit : UserRead (Nat × Nat)) (oldLimit : UserWrite)

def Processes.call (P : Processes) (w : SignalWorld) (caller : Nat) :
    SigCall → Outcome SignalWorld Unit
  | .kill pid signum => P.sysKill w caller pid signum
  | .tkill tid signum => P.sysTkill w caller tid signum
  | .tgkill tgid tid signum => P.sysTgkill w caller tgid tid signum
  | .rtSigqueueinfo tgid signum uinfo => P.sysRtSigqueueinfo w caller tgid signum uinfo
  | .prlimit64 pid resource newLimit oldLimit =>
    P.sysPrlimit64 w caller pid resource newLimit oldLimit

/-- The queues, stopped threads and limits of process `g` are the same. -/
structure Processes.Unchanged (P : Processes) (g : Nat) (w w' : SignalWorld) : Prop where
  pending : w'.pending g = w.pending g
  limits : w'.limits g = w.limits g
  threadPending : ∀ tid, P.tgid tid = g → w'.threadPending tid = w.threadPending tid
  stopped : ∀ tid, P.tgid tid = g → w'.stopped tid = w.stopped tid
  nofile : ∀ tid, P.tgid tid = g → w'.nofile (P.fdTable tid) = w.nofile (P.fdTable tid)

/-- A standard signal that is pending already: another one is merged into it. -/
def SigPending.Holds (p : SigPending) (sig : Sig) : Prop :=
  sig ≤ SIGLEGACYMAX ∧ p.info sig ≠ [] ∧ p.pending.containSignal sig = true

/-- The `SIGCONT` for `child` continues it, and its parent `g` is told. -/
def Processes.Notifies (P : Processes) (w : SignalWorld) (g child : Nat) (sig : Sig) : Prop :=
  sig = SIGCONT ∧ P.parent child = some g ∧
    (∃ task, P.signalTarget child = some task ∧ w.stopped task = true) ∧
      (P.signalTarget g).isSome = true ∧ P.nocldstop g = false

/-- Every way in which one of the calls changes process `g` of another user: the two calls that name a
thread make no test of credentials, nor does `prlimit64` unless the hard limit is raised; and the parent
of a process that `kill` continues gets `SIGCHLD`. -/
def SigCall.Touches (P : Processes) (w : SignalWorld) (caller g : Nat) : SigCall → Prop
  | .kill pid signum => ¬ (w.pending g).Holds SIGCHLD ∧ ∃ child ∈ P.killTargets caller pid,
      P.permitted caller child = true ∧ P.Notifies w g child signum.toNat
  | .tkill tid signum => threadTouched tid signum
  | .tgkill tgid tid signum => tgid.toNat = g ∧ 0 < tgid ∧ threadTouched tid signum
  | .rtSigqueueinfo _ _ _ => False
  | .prlimit64 pid resource newLimit oldLimit => ∃ cur max task, newLimit = .value (cur, max) ∧
      P.limitTask caller pid = some task ∧ oldLimit ≠ .fault ∧ resource < RLIMIT_COUNT ∧ cur ≤ max ∧
      max ≤ (P.rlimit w task resource).2 ∧ (resource = RLIMIT_NOFILE → max ≤ FTB_RLIMIT) ∧
      (cur, max) ≠ P.rlimit w task resource ∧
      if resource = RLIMIT_NOFILE then ∃ tid, P.tgid tid = g ∧ P.fdTable tid = P.fdTable task
      else P.tgid task = g
where
  /-- A valid signal reaches the queue of a thread of `g`. -/
  threadTouched (tid signum : Int) : Prop :=
    0 < tid ∧ isValid signum = true ∧ tid.toNat ∈ P.tasks ∧ P.tgid tid.toNat = g ∧
      (SIGLEGACYMAX < signum.toNat → w.queuedRt g < (w.limits g RLIMIT_SIGPENDING).1) ∧
      ¬ (w.threadPending tid.toNat).Holds signum.toNat

theorem SigSet.containSignal_addSignal (set : SigSet) (sig : Sig) :
    (set.addSignal sig).containSignal sig = true := by
  simp only [SigSet.containSignal, SigSet.addSignal, beq_iff_eq]
  apply BitVec.eq_of_getLsbD_eq
  intro i _
  simp only [BitVec.getLsbD_and, BitVec.getLsbD_or]
  cases (SigSet.bit sig).getLsbD i <;> simp

theorem SigPending.addSignal_eq_self_iff {p : SigPending} {siginfo : SigInfo} :
    (p.addSignal siginfo).1 = p ↔ p.Holds siginfo.signo := by
  unfold addSignal SigPending.Holds
  dsimp only
  constructor
  · intro heq
    have hinfo := congrFun (congrArg info heq) siginfo.signo
    have hpending := congrArg pending heq
    split at hinfo
    · have hlength := congrArg List.length hinfo
      simp at hlength
    · rename_i hqueued
      simp only [Bool.or_eq_true, decide_eq_true_eq, List.isEmpty_iff, not_or, Nat.not_lt] at hqueued
      refine ⟨hqueued.1, hqueued.2, ?_⟩
      rw [← hpending]
      exact p.pending.containSignal_addSignal _
  · rintro ⟨hlegacy, hinfo, hbit⟩
    have hqueued : ¬ (decide (SIGLEGACYMAX < siginfo.signo) || (p.info siginfo.signo).isEmpty) =
        true := by
      simp only [Bool.or_eq_true, decide_eq_true_eq, List.isEmpty_iff, not_or, Nat.not_lt]
      exact ⟨hlegacy, hinfo⟩
    have hset : p.pending.addSignal siginfo.signo = p.pending := by
      simp only [SigSet.containSignal, beq_iff_eq] at hbit
      rw [SigSet.addSignal, ← hbit]
      apply BitVec.eq_of_getLsbD_eq
      intro i _
      simp only [BitVec.getLsbD_and, BitVec.getLsbD_or]
      cases p.pending.getLsbD i <;> simp
    rw [if_neg hqueued, hset, update_eq_self]

theorem SigPending.holds_addSignal {p : SigPending} {siginfo : SigInfo}
    (h : siginfo.signo ≤ SIGLEGACYMAX) : (p.addSignal siginfo).1.Holds siginfo.signo := by
  refine ⟨h, ?_, ?_⟩
  · simp only [addSignal, update_self]
    split
    · simp
    · rename_i hqueued
      simp only [Bool.or_eq_true, decide_eq_true_eq, List.isEmpty_iff, not_or] at hqueued
      exact hqueued.2
  · exact p.pending.containSignal_addSignal _

/-! ### What each function leaves alone -/

section Frames

variable {P : Processes} {w : SignalWorld} {g : Nat}

theorem signalTarget_tgid {tid : Nat} (h : P.signalTarget g = some tid) : P.tgid tid = g := by
  unfold Processes.signalTarget at h
  split at h
  · rename_i hmem
    rw [← some.inj h]
    exact P.members_tgid g g hmem
  · exact P.members_tgid g tid (List.mem_of_head? h)

section

variable (w : SignalWorld) (tid : Nat) (siginfo : SigInfo) (limit : Nat)

theorem tryReceiveSiginfo_process :
    ∃ queuedRt pending, (P.tryReceiveSiginfo w tid siginfo false limit).1 =
        { w with queuedRt := queuedRt, pending := pending } ∧
      (∀ g, g ≠ P.tgid tid → pending g = w.pending g) ∧
      (siginfo.signo ≤ SIGLEGACYMAX →
        pending (P.tgid tid) = ((w.pending (P.tgid tid)).addSignal siginfo).1) := by
  unfold Processes.tryReceiveSiginfo
  dsimp only
  split
  · rename_i hrefused
    refine ⟨w.queuedRt, w.pending, rfl, fun _ _ ↦ rfl, fun hlegacy ↦ ?_⟩
    exact absurd (of_decide_eq_true hrefused.1) (Nat.not_lt.mpr hlegacy)
  · exact ⟨_, _, rfl, fun g hg ↦ update_of_ne hg _ _, fun _ ↦ update_self _ _ _⟩

theorem tryReceiveSiginfo_thread :
    ∃ queuedRt threadPending, (P.tryReceiveSiginfo w tid siginfo true limit).1 =
        { w with queuedRt := queuedRt, threadPending := threadPending } ∧
      (∀ t, t ≠ tid → threadPending t = w.threadPending t) ∧
      (threadPending tid = w.threadPending tid ↔
        ¬ (SIGLEGACYMAX < siginfo.signo → w.queuedRt (P.tgid tid) < limit) ∨
          (w.threadPending tid).Holds siginfo.signo) := by
  unfold Processes.tryReceiveSiginfo
  dsimp only
  split
  · rename_i hrefused
    refine ⟨w.queuedRt, w.threadPending, rfl, fun _ _ ↦ rfl, ?_⟩
    simp only [true_iff]
    exact .inl fun htaken ↦
      absurd (htaken (of_decide_eq_true hrefused.1)) (Nat.not_lt.mpr hrefused.2)
  · rename_i htaken
    refine ⟨_, _, rfl, fun t ht ↦ update_of_ne ht _ _, ?_⟩
    rw [update_self, addSignal_eq_self_iff]
    constructor
    · exact .inr
    · rintro (hlimit | hholds)
      · exfalso
        apply hlimit
        intro hrealtime
        by_contra hnot
        exact htaken ⟨decide_eq_true hrealtime, Nat.not_lt.mp hnot⟩
      · exact hholds

end

/-- The notice a child's stop or continuation gives its parent: nothing but the parent's queue
changes, and it holds `SIGCHLD` then unless the parent has no thread or asked for no notice. -/
theorem notifyParentSigchld_spec (w : SignalWorld) (child : Nat) (code : Int) :
    ∃ queuedRt pending, P.notifyParentSigchld w child code =
        { w with queuedRt := queuedRt, pending := pending } ∧
      (∀ g, pending g = w.pending g ∨ (¬ (w.pending g).Holds SIGCHLD ∧
        P.parent child = some g ∧ (P.signalTarget g).isSome = true ∧ P.nocldstop g = false)) ∧
      (∀ g, P.nocldstop g = false → (P.signalTarget g).isSome = true →
        P.parent child = some g → (pending g).Holds SIGCHLD) := by
  fun_cases P.notifyParentSigchld w child code with
  | case1 hparent => exact ⟨_, _, rfl, fun _ ↦ Or.inl rfl, by simp [hparent]⟩
  | case2 parent hparent hptarget =>
    refine ⟨_, _, rfl, fun _ ↦ Or.inl rfl, ?_⟩
    rintro g - hsome hg
    obtain rfl := some.inj (hparent.symm.trans hg)
    simp [hptarget] at hsome
  | case3 parent hparent tid _ hno =>
    refine ⟨_, _, rfl, fun _ ↦ Or.inl rfl, ?_⟩
    rintro g hfalse - hg
    obtain rfl := some.inj (hparent.symm.trans hg)
    simp [hno] at hfalse
  | case4 parent hparent tid hptarget hno =>
    rcases tryReceiveSiginfo_process w tid ⟨SIGCHLD, code, some child⟩
      (usizeSize - 1) with ⟨queuedRt, pending, heq, hothers, hself⟩
    rw [signalTarget_tgid hptarget] at hothers hself
    have hholds : (pending parent).Holds SIGCHLD := by
      rw [hself (show SIGCHLD ≤ SIGLEGACYMAX by decide)]
      exact holds_addSignal (show SIGCHLD ≤ SIGLEGACYMAX by decide)
    refine ⟨queuedRt, pending, heq, fun g ↦ ?_, ?_⟩
    · by_cases hpg : g = parent
      · rw [hpg, hself (show SIGCHLD ≤ SIGLEGACYMAX by decide)]
        by_cases hmerged : (w.pending parent).Holds SIGCHLD
        · exact .inl (addSignal_eq_self_iff.mpr hmerged)
        · exact .inr ⟨hmerged, hparent, by simp [hptarget], by simpa using hno⟩
      · exact .inl (hothers g hpg)
    · rintro g - - hg
      obtain rfl := some.inj (hparent.symm.trans hg)
      exact hholds

/-- What a `kill` of one process does outside that process: nothing, unless it continues a stopped
child, and then the queue of the parent holds `SIGCHLD`. -/
structure Killed (P : Processes) (w w' : SignalWorld) (child : Nat) (sig : Sig) : Prop where
  limits : w'.limits = w.limits
  nofile : w'.nofile = w.nofile
  threadPending : w'.threadPending = w.threadPending
  stopped : ∀ tid, P.tgid tid ≠ child → w'.stopped tid = w.stopped tid
  cleared : ∀ tid, w'.stopped tid = true → w.stopped tid = true
  pending : ∀ g, g ≠ child → w'.pending g = w.pending g ∨
    (¬ (w.pending g).Holds SIGCHLD ∧ P.Notifies w g child sig)
  notified : ∀ g, P.Notifies w g child sig → (w'.pending g).Holds SIGCHLD

theorem killed_killProcess (P : Processes) (w : SignalWorld) (caller child : Nat) (sig : Sig) :
    Killed P w (P.killProcess w caller child sig) child sig := by
  unfold Processes.killProcess
  match htarget : P.signalTarget child with
  | none =>
    refine ⟨rfl, rfl, rfl, fun _ _ ↦ rfl, fun _ h ↦ h, fun _ _ ↦ Or.inl rfl, ?_⟩
    intro g hnotifies
    simp [Processes.Notifies, htarget] at hnotifies
  | some task =>
    have htask : P.tgid task = child := signalTarget_tgid htarget
    rcases tryReceiveSiginfo_process w task ⟨sig, codeUser, some (P.tgid caller)⟩
      (usizeSize - 1) with ⟨queuedRt, pending, heq, hothers, -⟩
    rw [htask] at hothers
    dsimp only [Processes.receiveSiginfo]
    rw [heq]
    split_ifs with hcont
    · rcases notifyParentSigchld_spec { w with queuedRt := queuedRt, pending := pending }
        child codeContinued with ⟨queuedRt', pending', hnotify, hpending, hnotified⟩
      rw [hnotify]
      refine ⟨rfl, rfl, rfl, ?_, ?_, ?_, ?_⟩
      · intro tid htid
        apply update_of_ne
        rintro rfl
        exact htid htask
      · intro tid hstopped
        by_cases htid : tid = task
        · rw [htid]
          exact hcont.2
        · dsimp only at hstopped
          rwa [update_of_ne htid] at hstopped
      · intro g hg
        rcases hpending g with hsame | ⟨hmerged, hparent, hsome, hno⟩
        · exact .inl (hsame.trans (hothers g hg))
        · rw [← hothers g hg]
          exact .inr ⟨hmerged, hcont.1, hparent, ⟨task, htarget, hcont.2⟩, hsome, hno⟩
      · rintro g ⟨-, hparent, -, hsome, hno⟩
        exact hnotified g hno hsome hparent
    · refine ⟨rfl, rfl, rfl, fun _ _ ↦ rfl, fun _ h ↦ h, fun g hg ↦ Or.inl (hothers g hg), ?_⟩
      rintro g ⟨hsig, -, ⟨task', htask', hstopped⟩, -⟩
      rw [htarget] at htask'
      rw [← some.inj htask'] at hstopped
      exact absurd ⟨hsig, hstopped⟩ hcont

/-- What the loop of `kill` does to a process that it must not signal. -/
structure Spared (P : Processes) (w w' : SignalWorld) (g : Nat) (touched : Prop) : Prop where
  limits : w'.limits = w.limits
  nofile : w'.nofile = w.nofile
  threadPending : w'.threadPending = w.threadPending
  stopped : ∀ tid, P.tgid tid = g → w'.stopped tid = w.stopped tid
  pending : w'.pending g = w.pending g ∨ (¬ (w.pending g).Holds SIGCHLD ∧ touched)
  notified : touched → (w'.pending g).Holds SIGCHLD

theorem Spared.unchanged_iff {w' : SignalWorld} {touched : Prop} (h : Spared P w w' g touched) :
    P.Unchanged g w w' ↔ ¬ (¬ (w.pending g).Holds SIGCHLD ∧ touched) := by
  constructor
  · rintro hsame ⟨hmerged, htouched⟩
    apply hmerged
    rw [← hsame.pending]
    exact h.notified htouched
  · intro hnot
    refine ⟨h.pending.resolve_right hnot, by rw [h.limits], fun _ _ ↦ by rw [h.threadPending],
      h.stopped, fun _ _ ↦ by rw [h.nofile]⟩

theorem Killed.notifies {w' : SignalWorld} {child other : Nat} {sig : Sig}
    (h : Killed P w w' child sig) (hnotifies : P.Notifies w' g other sig) :
    P.Notifies w g other sig := by
  rcases hnotifies with ⟨hsig, hparent, ⟨task, htask, hstopped⟩, htarget⟩
  exact ⟨hsig, hparent, ⟨task, htask, h.cleared task hstopped⟩, htarget⟩

theorem Killed.notifies_of_ne {w' : SignalWorld} {child other : Nat} {sig : Sig}
    (h : Killed P w w' child sig) (hother : other ≠ child) (hnotifies : P.Notifies w g other sig) :
    P.Notifies w' g other sig := by
  rcases hnotifies with ⟨hsig, hparent, ⟨task, htask, hstopped⟩, htarget⟩
  refine ⟨hsig, hparent, ⟨task, htask, ?_⟩, htarget⟩
  rw [h.stopped task (by rwa [signalTarget_tgid htask])]
  exact hstopped

/-- By induction on the processes selected: one that continues a child tells the parent, and the
later ones find the parent's `SIGCHLD` pending. -/
theorem spared_killLoop {caller : Nat} {signum : Int} (hsignum : signum ≠ 0)
    (hdenied : P.permitted caller g = false) (targets : List Nat) (w : SignalWorld) :
    Spared P w (P.killLoop caller signum targets w) g
      (∃ child ∈ targets, P.permitted caller child = true ∧ P.Notifies w g child signum.toNat) := by
  induction targets generalizing w with
  | nil => exact ⟨rfl, rfl, rfl, fun _ _ ↦ rfl, Or.inl rfl, by simp⟩
  | cons child targets ih =>
    rw [Processes.killLoop]
    by_cases hpermitted : P.permitted caller child = true
    · rw [if_pos hpermitted, if_neg hsignum]
      have hkilled := killed_killProcess P w caller child signum.toNat
      have hrest := ih (P.killProcess w caller child signum.toNat)
      have hne : g ≠ child := by
        rintro rfl
        rw [hdenied] at hpermitted
        simp at hpermitted
      refine ⟨hrest.limits.trans hkilled.limits, hrest.nofile.trans hkilled.nofile,
        hrest.threadPending.trans hkilled.threadPending, ?_, ?_, ?_⟩
      · intro tid htid
        rw [hrest.stopped tid htid, hkilled.stopped tid (by rwa [htid])]
      · rcases hkilled.pending g hne with hsame | ⟨hmerged, hnotifies⟩
        · rcases hrest.pending with hrest | ⟨hmerged, other, hmem, hother, hnotifies⟩
          · exact .inl (hrest.trans hsame)
          · rw [hsame] at hmerged
            exact .inr ⟨hmerged, other, List.mem_cons_of_mem _ hmem, hother,
              hkilled.notifies hnotifies⟩
        · exact .inr ⟨hmerged, child, List.mem_cons_self, hpermitted, hnotifies⟩
      · rintro ⟨other, hmem, hother, hnotifies⟩
        by_cases hchild : other = child
        · rw [hchild] at hnotifies
          have hholds := hkilled.notified g hnotifies
          rcases hrest.pending with hsame | ⟨hmerged, -⟩
          · rwa [hsame]
          · exact absurd hholds hmerged
        · have htail := (List.mem_cons.mp hmem).resolve_left hchild
          exact hrest.notified ⟨other, htail, hother, hkilled.notifies_of_ne hchild hnotifies⟩
    · have hskip : (∃ other ∈ child :: targets, P.permitted caller other = true ∧
          P.Notifies w g other signum.toNat) ↔
          ∃ other ∈ targets, P.permitted caller other = true ∧ P.Notifies w g other signum.toNat := by
        simp [hpermitted]
      rw [if_neg hpermitted, hskip]
      exact ih w

theorem killLoop_zero (caller : Nat) (targets : List Nat) (w : SignalWorld) :
    P.killLoop caller 0 targets w = w := by
  induction targets with
  | nil => rfl
  | cons child targets ih => simp [Processes.killLoop, ih]

end Frames

/-! ### The five calls -/

section Calls

variable {P : Processes} {w : SignalWorld} {caller g : Nat}

theorem Processes.Unchanged.refl (P : Processes) (g : Nat) (w : SignalWorld) : P.Unchanged g w w :=
  ⟨rfl, rfl, fun _ _ ↦ rfl, fun _ _ ↦ rfl, fun _ _ ↦ rfl⟩

theorem refused_iff {c touched : Prop} [Decidable c] {e : Errno} {o : Outcome SignalWorld Unit}
    (hrefused : c → ¬ touched) (hrest : ¬ c → (o.Keeps (P.Unchanged g w) ↔ ¬ touched)) :
    (if c then .err e w else o).Keeps (P.Unchanged g w) ↔ ¬ touched := by
  split_ifs with hc
  · exact iff_of_true (keeps_err.mpr (.refl P g w)) (hrefused hc)
  · exact hrest hc

theorem killLoop_unchanged_iff (hdenied : P.permitted caller g = false) (pid signum : Int) :
    P.Unchanged g w (P.killLoop caller signum (P.killTargets caller pid) w) ↔
      ¬ (SigCall.kill pid signum).Touches P w caller g := by
  by_cases hzero : signum = 0
  · rw [hzero, killLoop_zero]
    have hnot : ¬ (SigCall.kill pid 0).Touches P w caller g := by
      rintro ⟨-, child, -, -, hsig, -⟩
      simp [SIGCONT] at hsig
    simp only [hnot, not_false_eq_true, iff_true]
    exact Processes.Unchanged.refl P g w
  · exact (spared_killLoop hzero hdenied (P.killTargets caller pid) w).unchanged_iff

theorem sysKill_unchanged_iff (hdenied : P.permitted caller g = false) (pid signum : Int) :
    (P.sysKill w caller pid signum).Keeps (P.Unchanged g w) ↔
      ¬ (SigCall.kill pid signum).Touches P w caller g := by
  refine refused_iff (fun hinvalid ↦ ?_) fun _ ↦ ?_
  · rintro ⟨-, child, -, -, hsig, -⟩
    have htoNat : signum.toNat = 18 := hsig
    have hcont : signum = 18 := by omega
    rw [hcont] at hinvalid
    exact absurd hinvalid.2 (by decide)
  · refine refused_iff (fun hempty ↦ ?_) fun _ ↦ ?_
    · rintro ⟨-, child, hchild, -⟩
      rw [List.isEmpty_iff.mp hempty] at hchild
      simp at hchild
    · rw [← killLoop_unchanged_iff hdenied pid signum]
      split
      · exact keeps_ok
      · exact keeps_err

theorem receive_thread_unchanged_iff (tid : Nat) (siginfo : SigInfo) (limit : Nat) :
    P.Unchanged g w (P.tryReceiveSiginfo w tid siginfo true limit).1 ↔
      ¬ (P.tgid tid = g ∧ (SIGLEGACYMAX < siginfo.signo → w.queuedRt g < limit) ∧
        ¬ (w.threadPending tid).Holds siginfo.signo) := by
  rcases tryReceiveSiginfo_thread w tid siginfo limit with
    ⟨queuedRt, threadPending, heq, hothers, hself⟩
  rw [heq]
  constructor
  · rintro hsame ⟨htid, htaken, hmerged⟩
    rcases hself.mp (hsame.threadPending tid htid) with hrefused | hholds
    · rw [htid] at hrefused
      exact hrefused htaken
    · exact hmerged hholds
  · intro hnot
    refine ⟨rfl, rfl, ?_, fun _ _ ↦ rfl, fun _ _ ↦ rfl⟩
    intro other hother
    by_cases heqtid : other = tid
    · rw [heqtid] at hother ⊢
      apply hself.mpr
      by_contra hneither
      rw [not_or, not_not] at hneither
      rw [hother] at hneither
      exact hnot ⟨hother, hneither⟩
    · exact hothers other heqtid

theorem sysTkill_unchanged_iff (tid signum : Int) :
    (P.sysTkill w caller tid signum).Keeps (P.Unchanged g w) ↔
      ¬ SigCall.Touches.threadTouched P w g tid signum := by
  unfold Processes.sysTkill SigCall.Touches.threadTouched
  refine refused_iff (fun htid h ↦ absurd h.1 (by omega)) fun htid ↦ ?_
  refine refused_iff (fun hinvalid h ↦ by simp [hinvalid.2] at h) fun hinvalid ↦ ?_
  by_cases htask : tid.toNat ∈ P.tasks
  · split_ifs with hzero
    · rw [keeps_ok]
      refine iff_of_true (Processes.Unchanged.refl P g w) fun h ↦ ?_
      simp [hzero, isValid] at h
    have hvalid : isValid signum = true := by
      cases hvalid : isValid signum
      · exact absurd ⟨hzero, hvalid⟩ hinvalid
      · rfl
    have hunchanged := receive_thread_unchanged_iff (P := P) (w := w) (g := g) tid.toNat
      ⟨signum.toNat, codeTkill, some caller⟩ (w.limits (P.tgid tid.toNat) RLIMIT_SIGPENDING).1
    refine Iff.trans ?_ (hunchanged.trans (not_congr ⟨?_, ?_⟩))
    · dsimp only
      split
      · exact keeps_ok
      · exact keeps_err
    · rintro ⟨htgid, hlimit, hmerged⟩
      rw [htgid] at hlimit
      exact ⟨by omega, hvalid, htask, htgid, hlimit, hmerged⟩
    · rintro ⟨-, -, -, htgid, hlimit, hmerged⟩
      exact ⟨htgid, by rwa [htgid], hmerged⟩
  · rw [if_neg htask, keeps_err]
    exact iff_of_true (Processes.Unchanged.refl P g w) fun h ↦ absurd h.2.2.1 htask

theorem sysTgkill_unchanged_iff (tgid tid signum : Int) :
    (P.sysTgkill w caller tgid tid signum).Keeps (P.Unchanged g w) ↔
      ¬ (SigCall.tgkill tgid tid signum).Touches P w caller g := by
  refine refused_iff (fun hpositive ↦ ?_) fun hpositive ↦ ?_
  · rintro ⟨-, htgid, htid, -⟩
    omega
  by_cases htask : tid.toNat ∈ P.tasks
  · rw [if_pos htask]
    refine refused_iff (fun hgroup ↦ ?_) fun hgroup ↦ ?_
    · rintro ⟨hg, -, -, -, -, htgid, -⟩
      exact hgroup (htgid.trans hg.symm)
    · split_ifs with hzero
      · rw [keeps_ok]
        refine iff_of_true (Processes.Unchanged.refl P g w) ?_
        rintro ⟨-, -, -, hvalid, -⟩
        simp [hzero, isValid] at hvalid
      · rw [sysTkill_unchanged_iff, not_iff_not]
        constructor
        · intro htouched
          refine ⟨?_, by omega, htouched⟩
          rw [← not_not.mp hgroup]
          exact htouched.2.2.2.1
        · exact fun h ↦ h.2.2
  · rw [if_neg htask, keeps_err]
    refine iff_of_true (Processes.Unchanged.refl P g w) ?_
    rintro ⟨-, -, -, -, hmem, -⟩
    exact htask hmem

theorem sysRtSigqueueinfo_unchanged (hdenied : P.permitted caller g = false) (tgid : Nat)
    (signum : Int) (uinfo : UserRead Int) :
    (P.sysRtSigqueueinfo w caller tgid signum uinfo).Keeps (P.Unchanged g w) := by
  have hsame := Processes.Unchanged.refl P g w
  unfold Processes.sysRtSigqueueinfo
  by_cases hpermitted : P.permitted caller tgid = false
  · split_ifs <;> rwa [keeps_err]
  have hne : g ≠ tgid := by
    rintro rfl
    exact hpermitted hdenied
  cases uinfo with
  | value code =>
    dsimp only
    cases htarget : P.signalTarget tgid with
    | none => split_ifs <;> simpa using hsame
    | some task =>
      rcases tryReceiveSiginfo_process w task ⟨signum.toNat, code, none⟩
        (w.limits tgid RLIMIT_SIGPENDING).1 with ⟨queuedRt, pending, heq, hothers, -⟩
      rw [signalTarget_tgid htarget] at hothers
      have hqueued : P.Unchanged g w (P.tryReceiveSiginfo w task ⟨signum.toNat, code, none⟩ false
          (w.limits tgid RLIMIT_SIGPENDING).1).1 := by
        rw [heq]
        exact ⟨hothers g hne, rfl, fun _ _ ↦ rfl, fun _ _ ↦ rfl, fun _ _ ↦ rfl⟩
      dsimp only
      split_ifs <;> simp only [keeps_ok, keeps_err] <;> assumption
  | null | fault => split_ifs <;> simpa using hsame

theorem setRlimit_unchanged_iff (task resource : Nat) (limit : Nat × Nat) :
    P.Unchanged g w (P.setRlimit w task resource limit) ↔
      ¬ (limit ≠ P.rlimit w task resource ∧
        if resource = RLIMIT_NOFILE then ∃ tid, P.tgid tid = g ∧ P.fdTable tid = P.fdTable task
        else P.tgid task = g) := by
  unfold Processes.setRlimit Processes.rlimit
  by_cases hnofile : resource = RLIMIT_NOFILE
  · simp only [if_pos hnofile]
    constructor
    · rintro hsame ⟨hne, tid, htid, htable⟩
      have hupdated := hsame.nofile tid htid
      dsimp only at hupdated
      rw [htable, update_self] at hupdated
      exact hne hupdated
    · intro hnot
      refine ⟨rfl, rfl, fun _ _ ↦ rfl, fun _ _ ↦ rfl, fun tid htid ↦ ?_⟩
      by_cases htable : P.fdTable tid = P.fdTable task
      · dsimp only
        rw [htable, update_self]
        by_contra hne
        exact hnot ⟨hne, tid, htid, htable⟩
      · exact update_of_ne htable _ _
  · simp only [if_neg hnofile]
    constructor
    · rintro hsame ⟨hne, htask⟩
      have hupdated := congrFun hsame.limits resource
      dsimp only at hupdated
      rw [htask, update_self, update_self] at hupdated
      rw [htask] at hne
      exact hne hupdated
    · intro hnot
      refine ⟨rfl, ?_, fun _ _ ↦ rfl, fun _ _ ↦ rfl, fun _ _ ↦ rfl⟩
      by_cases htask : P.tgid task = g
      · have heq : limit = w.limits (P.tgid task) resource := by
          by_contra hne
          exact hnot ⟨hne, htask⟩
        dsimp only
        rw [heq, htask, update_self, update_eq_self]
      · exact update_of_ne (Ne.symm htask) _ _

theorem sysPrlimit64_unchanged_iff (hcaller : P.euid (P.tgid caller) ≠ 0) (pid resource : Nat)
    (newLimit : UserRead (Nat × Nat)) (oldLimit : UserWrite) :
    (P.sysPrlimit64 w caller pid resource newLimit oldLimit).Keeps (P.Unchanged g w) ↔
      ¬ (SigCall.prlimit64 pid resource newLimit oldLimit).Touches P w caller g := by
  have hsame := Processes.Unchanged.refl P g w
  unfold Processes.sysPrlimit64
  cases htask : P.limitTask caller pid with
  | none =>
    exact iff_of_true (keeps_err.mpr hsame) (by simp [SigCall.Touches, htask])
  | some task =>
    refine refused_iff (fun hresource ↦ ?_) fun hresource ↦ ?_
    · rintro ⟨-, -, -, -, -, -, hlt, -⟩
      exact absurd hlt (Nat.not_lt.mpr hresource)
    have hpid : ¬ (pid ≠ 0 ∧ P.tgid task ≠ pid) := by
      rintro ⟨hpid, hne⟩
      rw [Processes.limitTask, if_neg hpid] at htask
      split at htask
      · exact hne (signalTarget_tgid htask)
      · simp at htask
    rw [if_neg hpid]
    match newLimit with
    | .fault => simpa [SigCall.Touches] using hsame
    | .null =>
      split_ifs <;> simpa [SigCall.Touches] using hsame
    | .value (cur, max) =>
      dsimp only
      simp only [SigCall.Touches, htask, UserRead.value.injEq, Prod.mk.injEq, some.injEq, and_assoc,
        exists_and_left, exists_eq_left']
      refine refused_iff (fun horder ⟨_, _, hle, _⟩ ↦ by omega) fun horder ↦ ?_
      refine refused_iff (fun hraised ⟨_, _, _, hle, _⟩ ↦ by omega) fun hraised ↦ ?_
      refine refused_iff (fun htable ⟨_, _, _, _, hmax, _⟩ ↦ ?_) fun htable ↦ ?_
      · exact absurd (hmax htable.1) (by omega)
      refine refused_iff (fun hold htouched ↦ htouched.1 hold) fun hold ↦ ?_
      rw [keeps_ok, setRlimit_unchanged_iff, not_iff_not]
      constructor
      · intro hreaches
        refine ⟨hold, by omega, by omega, by omega, fun hnofile ↦ ?_, hreaches⟩
        by_contra hmax
        exact htable ⟨hnofile, by omega⟩
      · exact fun htouched ↦ htouched.2.2.2.2.2

end Calls

/-- A call of an unprivileged caller leaves a process of another user as it was exactly if it is none
of the calls that `SigCall.Touches` lists. -/
theorem call_unchanged_iff (P : Processes) (w : SignalWorld) (caller g : Nat) (op : SigCall)
    (hcaller : P.euid (P.tgid caller) ≠ 0)
    (huid : P.uid g ≠ P.uid (P.tgid caller) ∧ P.uid g ≠ P.euid (P.tgid caller))
    (hsuid : P.suid g ≠ P.uid (P.tgid caller) ∧ P.suid g ≠ P.euid (P.tgid caller)) :
    (P.call w caller op).Keeps (P.Unchanged g w) ↔ ¬ op.Touches P w caller g := by
  have hdenied : P.permitted caller g = false := by
    simp only [Processes.permitted, Bool.or_eq_false_iff, decide_eq_false_iff_not]
    exact ⟨⟨⟨⟨hcaller, huid.2.symm⟩, hsuid.2.symm⟩, huid.1.symm⟩, hsuid.1.symm⟩
  cases op with
  | kill pid signum => exact sysKill_unchanged_iff hdenied pid signum
  | tkill tid signum => exact sysTkill_unchanged_iff tid signum
  | tgkill tgid tid signum => exact sysTgkill_unchanged_iff tgid tid signum
  | rtSigqueueinfo tgid signum uinfo =>
    exact iff_of_true (sysRtSigqueueinfo_unchanged hdenied tgid signum uinfo) id
  | prlimit64 pid resource newLimit oldLimit =>
    exact sysPrlimit64_unchanged_iff hcaller pid resource newLimit oldLimit

/-- Process 1 of user 1, and process 2 of user 2 with the thread 3 besides its leader. -/
def twoUsers : Processes where
  uid := id
  euid := id
  suid := id
  pgid := id
  parent := fun _ ↦ none
  members
    | 1 => [1]
    | 2 => [2, 3]
    | _ => []
  nocldstop := fun _ ↦ false
  manager := [1, 2]
  tasks := [1, 2, 3]
  tgid := fun tid ↦ if tid = 3 then 2 else tid
  fdTable := id
  members_tgid := by
    intro g tid hmem
    split at hmem
    · simp_all
    · simp only [List.mem_cons, List.not_mem_nil, or_false] at hmem
      split <;> omega
    · simp at hmem

def quietWorld : SignalWorld where
  pending := fun _ ↦ .withMask 0
  queuedRt := fun _ ↦ 0
  limits := fun _ _ ↦ (1024, 4096)
  nofile := fun _ ↦ (256, 1024)
  threadPending := fun _ ↦ .withMask 0
  stopped := fun _ ↦ false

/-- User 1 kills a thread of user 2 with `tkill`, and takes the stack limit of process 2 away with
`prlimit64`; `kill` of the same process is refused. -/
theorem unprivileged_tkill_reaches :
    (twoUsers.call quietWorld 1 (.kill 2 SIGKILL) = .err .EPERM quietWorld) ∧
    (∃ w, twoUsers.call quietWorld 1 (.tkill 3 SIGKILL) = .ok () w ∧
      (w.threadPending 3).pending.containSignal SIGKILL = true ∧ ¬ twoUsers.Unchanged 2 quietWorld w) ∧
    (∃ w, twoUsers.call quietWorld 1 (.prlimit64 2 3 (.value (0, 0)) .null) = .ok () w ∧
      w.limits 2 3 = (0, 0) ∧ ¬ twoUsers.Unchanged 2 quietWorld w) := by
  refine ⟨rfl, ⟨_, rfl, by decide, ?_⟩, ⟨_, rfl, by decide, ?_⟩⟩
  · intro hsame
    have hpending := congrArg pending (hsame.threadPending 3 rfl)
    revert hpending
    decide
  · intro hsame
    have hlimits := congrFun hsame.limits 3
    revert hlimits
    decide

/-- Process 2 is out of reach of the signal that its own user may send. -/
theorem call_unchanged_kill :
    twoUsers.euid 1 ≠ 0 ∧ ¬ (SigCall.kill 2 SIGKILL).Touches twoUsers quietWorld 1 2 ∧
      (twoUsers.call quietWorld 1 (.kill 2 SIGKILL)).Keeps (twoUsers.Unchanged 2 quietWorld) := by
  have hnot : ¬ (SigCall.kill 2 SIGKILL).Touches twoUsers quietWorld 1 2 := by
    rintro ⟨-, child, -, -, -, hparent, -⟩
    simp [twoUsers] at hparent
  exact ⟨by decide, hnot, (call_unchanged_iff twoUsers quietWorld 1 2 (.kill 2 SIGKILL) (by decide)
    (by decide) (by decide)).mpr hnot⟩

end RespOS.Signal
