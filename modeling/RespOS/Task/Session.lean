import RespOS.Base
import RespOS.Basis.Runs

/-!
# Process groups and sessions

A process carries the number of its group and of its session. `fork` copies both, `sys_setpgid` moves a
process into a group of its session or into the group named by its own number, `sys_setsid` makes the
caller the leader of a session and of the group named by its number. Groups and sessions are nothing but
these numbers: whether a group exists is found by scanning `PROCESS_MANAGER`, which has zombies until
they are reaped.

`ProcessTable` is that table with the parent of each process. `Coherent` says that the members of a
group share a session, that the members of a group named by a process are in the session of that
process, and that a session leader is in its own group. `groups_within_sessions` proves it for every run
in which `setsid` is called only when no other process of the table is in the group named by the
caller. The code compares that number with the caller's own group only: `group_spans_sessions` is a run
in which the group has been left by its leader and kept by a child.

Numbers are never used again (`TidHandle` does not return them), so a new process has a number that no
group carries. Controlling terminals and the signals to orphaned groups change neither number and are
left out.
-/

namespace RespOS.Task

open RespOS.Basis
open RespOS.Outcome (keeps_err keeps_ok)
open Option List

/-! ### The process table -/

/-- What `ProcessState` and the tables around it say about a process. -/
structure Process where
  tgid : Nat
  pgid : Nat
  sid : Nat
  /-- The process whose children table has it. -/
  parent : Nat
  didExec : Bool
  /-- The thread whose number is the process's is still a member. -/
  leaderThread : Bool
  zombie : Bool
  deriving DecidableEq

/-- `PROCESS_MANAGER` and the counter of `TidAllocator`. -/
structure ProcessTable where
  procs : List Process
  current : Nat

def initPid : Nat := 1

namespace ProcessTable

def boot : ProcessTable where
  procs := [⟨initPid, initPid, initPid, 0, false, true, false⟩]
  current := 2

def get (s : ProcessTable) (tgid : Nat) : Option Process :=
  s.procs.find? fun p ↦ decide (p.tgid = tgid)

/-- `process_task`: a process that still has members. -/
def processTask (s : ProcessTable) (tgid : Nat) : Option Process :=
  (s.get tgid).filter fun p ↦ !p.zombie

def modify (s : ProcessTable) (tgid : Nat) (f : Process → Process) : ProcessTable :=
  { s with procs := s.procs.map fun p ↦ if p.tgid = tgid then f p else p }

def setProcessPgid (s : ProcessTable) (tgid pgid : Nat) : ProcessTable :=
  s.modify tgid fun p ↦ { p with pgid := pgid }

def setProcessSid (s : ProcessTable) (tgid sid : Nat) : ProcessTable :=
  s.modify tgid fun p ↦ { p with sid := sid }

def isNegative (n : Nat) : Bool := decide (2 ^ 63 ≤ n)

/-- `group_exists_in_session` of `sys_setpgid`. -/
def groupExistsInSession (s : ProcessTable) (sid pgid : Nat) : Bool :=
  s.procs.any fun p ↦ decide (p.sid = sid) && decide (p.pgid = pgid)

/-- `sys_setpgid` after its target has been found. -/
def setpgidTarget (s : ProcessTable) (current target : Process) (pgid : Nat) :
    Outcome ProcessTable Unit :=
  if target.leaderThread = false then .err .ESRCH s
  else if target.tgid ≠ current.tgid ∧ target.parent ≠ current.tgid then .err .ESRCH s
  else if target.tgid ≠ current.tgid ∧ target.didExec then .err .EACCES s
  else if target.sid ≠ current.sid then .err .EPERM s
  else if target.sid = target.tgid then .err .EPERM s
  else
    let newPgid := if pgid = 0 then target.tgid else pgid
    if newPgid ≠ target.tgid ∧ s.groupExistsInSession current.sid newPgid = false then .err .EPERM s
    else .ok () (s.setProcessPgid target.tgid newPgid)

def sysSetpgid (s : ProcessTable) (current : Process) (pid pgid : Nat) : Outcome ProcessTable Unit :=
  if isNegative pgid then .err .EINVAL s
  else if isNegative pid then .err .ESRCH s
  else if pid = 0 then s.setpgidTarget current current pgid
  else
    match s.processTask pid with
    | none => .err .ESRCH s
    | some target => s.setpgidTarget current target pgid

def sysSetsid (s : ProcessTable) (current : Process) : Outcome ProcessTable Nat :=
  if current.pgid = current.tgid then .err .EPERM s
  else .ok current.tgid
    ((s.setProcessSid current.tgid current.tgid).setProcessPgid current.tgid current.tgid)

/-- The parent `clone_` gives a new process. -/
def parentForChild (s : ProcessTable) (current : Process) (cloneParent : Bool) : Nat :=
  if cloneParent then
    match s.processTask current.parent with
    | some parent => parent.tgid
    | none => initPid
  else current.tgid

/-- `clone_` of a new process. -/
def fork (s : ProcessTable) (current : Process) (cloneParent : Bool) : ProcessTable where
  procs := s.procs ++ [{
    tgid := s.current
    pgid := current.pgid
    sid := current.sid
    parent := s.parentForChild current cloneParent
    didExec := false
    leaderThread := true
    zombie := false }]
  current := s.current + 1

/-- `exit_process_group`: the process becomes a zombie and its children go to `INITPROC`. -/
def exit (s : ProcessTable) (current : Process) : ProcessTable :=
  { s with procs := s.procs.map fun p ↦
      if p.tgid = current.tgid then { p with zombie := true }
      else if p.parent = current.tgid then { p with parent := initPid }
      else p }

/-- A zombie leaves the table, by `wait4` or because the parent ignores `SIGCHLD`. -/
def reap (s : ProcessTable) (child : Process) : ProcessTable :=
  { s with procs := s.procs.filter fun p ↦ decide (p.tgid ≠ child.tgid) }

end ProcessTable

/-- What processes do to the table; `caller` is the process that acts. -/
inductive SessionEvent
  | fork (caller : Nat) (cloneParent : Bool)
  | setpgid (caller pid pgid : Nat)
  | setsid (caller : Nat)
  | exec (caller : Nat)
  | leaderExit (caller : Nat)
  | exit (caller : Nat)
  | reap (child : Nat)

namespace ProcessTable

/-- The table after an event; none where the acting process is not there to act. -/
def next (s : ProcessTable) : SessionEvent → Option ProcessTable
  | .fork caller cloneParent => (s.processTask caller).map fun p ↦ s.fork p cloneParent
  | .setpgid caller pid pgid => (s.processTask caller).bind fun p ↦ (s.sysSetpgid p pid pgid).state?
  | .setsid caller => (s.processTask caller).bind fun p ↦ (s.sysSetsid p).state?
  | .exec caller => (s.processTask caller).map fun p ↦
      s.modify p.tgid fun p ↦ { p with didExec := true, leaderThread := true }
  | .leaderExit caller => (s.processTask caller).map fun p ↦
      s.modify p.tgid fun p ↦ { p with leaderThread := false }
  | .exit caller => (s.processTask caller).map fun p ↦ s.exit p
  | .reap child => ((s.get child).filter fun p ↦ p.zombie).map fun p ↦ s.reap p

def Step (s : ProcessTable) (e : SessionEvent) (s' : ProcessTable) : Prop := s.next e = some s'

end ProcessTable

/-! ### Coherent tables -/

/-- Groups do not span sessions, zombies included, and the numbers in use have been given out. -/
structure Coherent (procs : List Process) (current : Nat) : Prop where
  sameSession : ∀ p ∈ procs, ∀ q ∈ procs, p.pgid = q.pgid → p.sid = q.sid
  namedGroup : ∀ p ∈ procs, ∀ q ∈ procs, q.pgid = p.tgid → q.sid = p.sid
  leader : ∀ p ∈ procs, p.sid = p.tgid → p.pgid = p.tgid
  used : ∀ p ∈ procs, p.tgid < current ∧ p.pgid < current ∧ p.sid < current
  distinct : ∀ p ∈ procs, ∀ q ∈ procs, p.tgid = q.tgid → p = q

namespace Coherent

variable {procs : List Process} {current : Nat}

theorem boot : Coherent ProcessTable.boot.procs ProcessTable.boot.current := by
  constructor <;> simp [ProcessTable.boot, initPid]

variable (h : Coherent procs current)
include h

theorem map_same {f : Process → Process}
    (hf : ∀ p, (f p).tgid = p.tgid ∧ (f p).pgid = p.pgid ∧ (f p).sid = p.sid) :
    Coherent (procs.map f) current := by
  have hmem : ∀ {P : Process → Prop}, (∀ p ∈ procs, P (f p)) → ∀ p ∈ procs.map f, P p :=
    fun hP p hp ↦ forall_mem_map.mpr hP p hp
  constructor
  · refine hmem fun p hp ↦ hmem fun q hq ↦ ?_
    rw [(hf p).2.1, (hf q).2.1, (hf p).2.2, (hf q).2.2]
    exact h.sameSession p hp q hq
  · refine hmem fun p hp ↦ hmem fun q hq ↦ ?_
    rw [(hf p).1, (hf q).2.1, (hf p).2.2, (hf q).2.2]
    exact h.namedGroup p hp q hq
  · refine hmem fun p hp ↦ ?_
    rw [(hf p).1, (hf p).2.1, (hf p).2.2]
    exact h.leader p hp
  · refine hmem fun p hp ↦ ?_
    rw [(hf p).1, (hf p).2.1, (hf p).2.2]
    exact h.used p hp
  · refine hmem fun p hp ↦ hmem fun q hq ↦ ?_
    rw [(hf p).1, (hf q).1]
    exact fun heq ↦ congrArg f (h.distinct p hp q hq heq)

theorem filter (keep : Process → Bool) : Coherent (procs.filter keep) current := by
  have hmem : ∀ {p}, p ∈ procs.filter keep → p ∈ procs := fun hp ↦ (mem_filter.mp hp).1
  exact ⟨fun p hp q hq ↦ h.sameSession p (hmem hp) q (hmem hq),
    fun p hp q hq ↦ h.namedGroup p (hmem hp) q (hmem hq), fun p hp ↦ h.leader p (hmem hp),
    fun p hp ↦ h.used p (hmem hp), fun p hp q hq ↦ h.distinct p (hmem hp) q (hmem hq)⟩

/-- One process, old or new, stands in the table with numbers of its own: it is enough that the other
processes that share a group with it, or are named by one, are in its session. -/
theorem put {procs' : List Process} {current' : Nat} {p : Process}
    (hle : current ≤ current') (hcases : ∀ q ∈ procs', q = p ∨ q ∈ procs ∧ q.tgid ≠ p.tgid)
    (hshared : ∀ q ∈ procs, q.tgid ≠ p.tgid →
      q.pgid = p.pgid ∨ q.tgid = p.pgid ∨ q.pgid = p.tgid → q.sid = p.sid)
    (hleader : p.sid = p.tgid → p.pgid = p.tgid)
    (hused : p.tgid < current' ∧ p.pgid < current' ∧ p.sid < current') : Coherent procs' current' := by
  constructor
  · intro a ha b hb heq
    rcases hcases a ha with rfl | ⟨ha, hane⟩ <;> rcases hcases b hb with rfl | ⟨hb, hbne⟩
    · rfl
    · exact (hshared b hb hbne (.inl heq.symm)).symm
    · exact hshared a ha hane (.inl heq)
    · exact h.sameSession a ha b hb heq
  · intro a ha b hb heq
    rcases hcases a ha with rfl | ⟨ha, hane⟩ <;> rcases hcases b hb with rfl | ⟨hb, hbne⟩
    · rfl
    · exact hshared b hb hbne (.inr (.inr heq))
    · exact (hshared a ha hane (.inr (.inl heq.symm))).symm
    · exact h.namedGroup a ha b hb heq
  · intro a ha
    rcases hcases a ha with rfl | ⟨ha, -⟩
    · exact hleader
    · exact h.leader a ha
  · intro a ha
    rcases hcases a ha with rfl | ⟨ha, -⟩
    · exact hused
    · have := h.used a ha
      omega
  · intro a ha b hb heq
    rcases hcases a ha with rfl | ⟨ha, hane⟩ <;> rcases hcases b hb with rfl | ⟨hb, hbne⟩
    · rfl
    · exact absurd heq.symm hbne
    · exact absurd heq hane
    · exact h.distinct a ha b hb heq

theorem append {p child : Process} (hp : p ∈ procs)
    (htgid : child.tgid = current) (hpgid : child.pgid = p.pgid) (hsid : child.sid = p.sid) :
    Coherent (procs ++ [child]) (current + 1) := by
  have hpused := h.used p hp
  have hold : ∀ q ∈ procs, q.tgid < child.tgid ∧ q.pgid < child.tgid := fun q hq ↦
    htgid ▸ ⟨(h.used q hq).1, (h.used q hq).2.1⟩
  refine h.put (p := child) (by omega) (fun q hq ↦ ?_) ?_ (by omega) (by omega)
  · rcases mem_append.mp hq with hq | hq
    · exact .inr ⟨hq, Nat.ne_of_lt (hold q hq).1⟩
    · exact .inl (mem_singleton.mp hq)
  · rintro q hq - (heq | heq | heq)
    · rw [hsid]
      exact h.sameSession q hq p hp (heq.trans hpgid)
    · rw [hsid]
      exact (h.namedGroup q hq p hp (hpgid.symm.trans heq.symm)).symm
    · exact absurd heq (Nat.ne_of_lt (hold q hq).2)

end Coherent

/-! ### The two system calls -/

section Calls

open ProcessTable

variable {s : ProcessTable} {current target : Process}

theorem ProcessTable.mem_of_processTask {tgid : Nat} {p : Process}
    (h : s.processTask tgid = some p) : p ∈ s.procs ∧ p.tgid = tgid := by
  have hfind := (filter_eq_some_iff.mp h).1
  exact ⟨mem_of_find?_eq_some hfind, by simpa using find?_some hfind⟩

theorem ProcessTable.of_mem_modify {tgid : Nat} {f : Process → Process} {q : Process}
    (hq : q ∈ (s.modify tgid f).procs) :
    ∃ p ∈ s.procs, (p.tgid = tgid ∧ q = f p) ∨ (p.tgid ≠ tgid ∧ q = p) := by
  obtain ⟨p, hp, rfl⟩ := mem_map.mp hq
  refine ⟨p, hp, ?_⟩
  by_cases h : p.tgid = tgid <;> simp [h]

variable (h : Coherent s.procs s.current)
include h

theorem Coherent.setpgid (htarget : target ∈ s.procs) {pgid : Nat} (hnot : target.sid ≠ target.tgid)
    (hgroup : pgid = target.tgid ∨ ∃ r ∈ s.procs, r.sid = target.sid ∧ r.pgid = pgid) :
    Coherent (s.setProcessPgid target.tgid pgid).procs s.current := by
  have hjoin : ∀ q ∈ s.procs, q.pgid = pgid → q.sid = target.sid := by
    intro q hq heq
    rcases hgroup with rfl | ⟨r, hr, hrsid, hrpgid⟩
    · exact h.namedGroup target htarget q hq heq
    · rw [← hrsid]
      exact h.sameSession q hq r hr (heq.trans hrpgid.symm)
  have hname : ∀ p ∈ s.procs, p.tgid = pgid → p.sid = target.sid := by
    intro p hp heq
    rcases hgroup with rfl | ⟨r, hr, hrsid, hrpgid⟩
    · rw [h.distinct p hp target htarget heq]
    · rw [← hrsid]
      exact (h.namedGroup p hp r hr (hrpgid.trans heq.symm)).symm
  have hbound : pgid < s.current := by
    rcases hgroup with rfl | ⟨r, hr, -, hrpgid⟩
    · exact (h.used target htarget).1
    · exact hrpgid ▸ (h.used r hr).2.1
  have hused := h.used target htarget
  refine h.put (p := { target with pgid := pgid }) Nat.le.refl (fun q hq ↦ ?_) ?_
    (fun heq ↦ absurd heq hnot) ⟨hused.1, hbound, hused.2.2⟩
  · rcases of_mem_modify hq with ⟨p, hp, ⟨heq, rfl⟩ | ⟨hne, rfl⟩⟩
    · rw [h.distinct p hp target htarget heq]
      exact .inl rfl
    · exact .inr ⟨hp, hne⟩
  · rintro q hq - (heq | heq | heq)
    · exact hjoin q hq heq
    · exact hname q hq heq
    · exact h.namedGroup target htarget q hq heq

theorem Coherent.setpgidTarget (htarget : target ∈ s.procs) (pgid : Nat) :
    (s.setpgidTarget current target pgid).Keeps fun s' ↦ Coherent s'.procs s'.current := by
  fun_cases s.setpgidTarget current target pgid with
  | case7 _ _ _ hsid hnot newPgid hexists =>
    rw [keeps_ok]
    apply h.setpgid htarget hnot
    by_cases hown : newPgid = target.tgid
    · exact Or.inl hown
    refine Or.inr ?_
    have hgroup : s.groupExistsInSession current.sid newPgid = true := by
      by_contra hno
      exact hexists ⟨hown, by simpa using hno⟩
    simp only [groupExistsInSession, List.any_eq_true, Bool.and_eq_true, decide_eq_true_eq] at hgroup
    rcases hgroup with ⟨r, hr, hrsid, hrpgid⟩
    exact ⟨r, hr, by rw [hrsid]; exact (not_not.mp hsid).symm, hrpgid⟩
  | _ => exact keeps_err.mpr h

theorem Coherent.sysSetpgid (hcurrent : current ∈ s.procs) (pid pgid : Nat) :
    (s.sysSetpgid current pid pgid).Keeps fun s' ↦ Coherent s'.procs s'.current := by
  unfold ProcessTable.sysSetpgid
  split
  · exact keeps_err.mpr h
  split
  · exact keeps_err.mpr h
  split
  · exact h.setpgidTarget hcurrent pgid
  match htask : s.processTask pid with
  | none => exact keeps_err.mpr h
  | some target => exact h.setpgidTarget (mem_of_processTask htask).1 pgid

theorem Coherent.sysSetsid (hcurrent : current ∈ s.procs)
    (halone : ∀ q ∈ s.procs, q.pgid = current.tgid → q.tgid = current.tgid) :
    (s.sysSetsid current).Keeps fun s' ↦ Coherent s'.procs s'.current := by
  unfold ProcessTable.sysSetsid
  split
  · exact keeps_err.mpr h
  rw [keeps_ok]
  have hused := h.used current hcurrent
  refine h.put (p := { current with pgid := current.tgid, sid := current.tgid }) Nat.le.refl
    (fun q hq ↦ ?_) ?_ (fun _ ↦ rfl) ⟨hused.1, hused.1, hused.1⟩
  · rcases of_mem_modify hq with ⟨p, hp, hpq⟩
    rcases of_mem_modify hp with ⟨r, hr, ⟨heq, rfl⟩ | ⟨hne, rfl⟩⟩
    · rcases hpq with ⟨-, rfl⟩ | ⟨hne, -⟩
      · rw [h.distinct r hr current hcurrent heq]
        exact .inl rfl
      · exact absurd heq hne
    · rcases hpq with ⟨heq, -⟩ | ⟨-, rfl⟩
      · exact absurd heq hne
      · exact .inr ⟨hr, hne⟩
  · rintro q hq hne (heq | heq | heq)
    · exact absurd (halone q hq heq) hne
    · exact absurd heq hne
    · exact absurd (halone q hq heq) hne

end Calls

/-! ### Runs -/

/-- `setsid` is called only by a process whose number no other process of the table, zombies included,
has as its group; a caller in that group itself is refused by the code. -/
def SessionEvent.Alone (s : ProcessTable) : SessionEvent → Prop
  | .setsid caller => ∀ q ∈ s.procs, q.pgid = caller → q.tgid = caller
  | _ => True

instance (s : ProcessTable) (e : SessionEvent) : Decidable (e.Alone s) := by
  cases e <;> unfold SessionEvent.Alone <;> infer_instance

namespace ProcessTable

theorem coherent_step {s s' : ProcessTable} {e : SessionEvent} (h : Coherent s.procs s.current)
    (hok : e.Alone s) (hstep : s.Step e s') : Coherent s'.procs s'.current := by
  cases e with try obtain ⟨p, hp, rfl⟩ := map_eq_some_iff.mp hstep
  | fork caller cloneParent =>
    exact h.append (mem_of_processTask hp).1 rfl rfl rfl
  | setpgid caller pid pgid =>
    rcases bind_eq_some_iff.mp hstep with ⟨p, hp, hcall⟩
    exact h.sysSetpgid (mem_of_processTask hp).1 pid pgid s' hcall
  | setsid caller =>
    rcases bind_eq_some_iff.mp hstep with ⟨p, hp, hcall⟩
    have hmem := mem_of_processTask hp
    refine h.sysSetsid hmem.1 ?_ s' hcall
    rw [hmem.2]
    exact hok
  | exec caller | leaderExit caller =>
    apply h.map_same
    intro q
    split <;> exact ⟨rfl, rfl, rfl⟩
  | exit caller =>
    apply h.map_same
    intro q
    split
    · exact ⟨rfl, rfl, rfl⟩
    · split <;> exact ⟨rfl, rfl, rfl⟩
  | reap child =>
    exact h.filter _

/-- In every run whose `setsid` calls meet the condition, live processes of one group are in one session
and a session leader is in the group named by its number. -/
theorem groups_within_sessions {s : ProcessTable}
    (hrun : Run (· = boot) (fun s e ↦ e.Alone s) Step s) :
    (∀ p ∈ s.procs, ∀ q ∈ s.procs, p.zombie = false → q.zombie = false → p.pgid = q.pgid →
      p.sid = q.sid) ∧ ∀ p ∈ s.procs, p.zombie = false → p.sid = p.tgid → p.pgid = p.tgid := by
  have hcoherent : Coherent s.procs s.current := by
    apply Run.invariant ?_ ?_ hrun
    · rintro s rfl
      exact Coherent.boot
    · intro s e s' h hok hstep
      exact coherent_step h hok hstep
  exact ⟨fun p hp q hq _ _ ↦ hcoherent.sameSession p hp q hq, fun p hp _ ↦ hcoherent.leader p hp⟩

/-- Process 2 makes a group of its own, forks process 3 into it, goes back to the group of process 1 and
calls `setsid`: group 2 now has members in the sessions 1 and 2. -/
theorem group_spans_sessions : ∃ s, Run (· = boot) (fun _ _ ↦ True) Step s ∧
    ∃ p ∈ s.procs, ∃ q ∈ s.procs, p.zombie = false ∧ q.zombie = false ∧ p.pgid = q.pgid ∧
      p.sid ≠ q.sid := by
  have hfacts : (runWhile (fun _ _ ↦ True) next [.fork 1 false, .setpgid 2 0 0, .fork 2 false,
      .setpgid 2 0 1, .setsid 2] boot).map ProcessTable.procs = some
        [⟨1, 1, 1, 0, false, true, false⟩, ⟨2, 2, 2, 1, false, true, false⟩,
          ⟨3, 2, 1, 2, false, true, false⟩] := by
    decide +kernel
  rcases map_eq_some_iff.mp hfacts with ⟨s, hs, hprocs⟩
  have hstart : Run (· = boot) (fun _ _ ↦ True) Step boot := .start rfl
  refine ⟨s, hstart.of_runWhile hs, ⟨2, 2, 2, 1, false, true, false⟩, by simp [hprocs],
    ⟨3, 2, 1, 2, false, true, false⟩, by simp [hprocs], rfl, rfl, rfl, by decide⟩

/-- A shell's pipeline of two processes in a group of their own, beside a daemon in its own session. -/
theorem groups_within_sessions_pipeline : ∃ s : ProcessTable, s.procs.length = 4 ∧
    ∀ p ∈ s.procs, ∀ q ∈ s.procs, p.zombie = false → q.zombie = false → p.pgid = q.pgid →
      p.sid = q.sid := by
  have hfacts : (runWhile (fun s e ↦ SessionEvent.Alone s e) next [.fork 1 false, .fork 1 false,
      .fork 1 false, .setpgid 1 2 2, .setpgid 1 3 2, .setsid 4] boot).map (fun s ↦ s.procs.length) =
      some 4 := by
    decide +kernel
  rcases map_eq_some_iff.mp hfacts with ⟨s, hs, hlength⟩
  have hstart : Run (· = boot) (fun s e ↦ SessionEvent.Alone s e) Step boot := .start rfl
  exact ⟨s, hlength, (groups_within_sessions (hstart.of_runWhile hs)).1⟩

end ProcessTable

end RespOS.Task
