import RespOS.Basis.Runs
import RespOS.Signal.Pending

/-!
# The blocked mask of a thread

A thread's mask is written by `sys_sigprocmask`, by `sys_rt_sigsuspend` and the polling calls (which put
a temporary mask in place), by `handle_signal` (which blocks the signals of the handler's action and
saves the old mask in the frame on the user's stack) and by `sys_sigreturn`, which takes the mask back
from that frame. Everything that comes from the user passes `withoutKillStop`, except what comes from a
signal frame.

`masks_clean` proves that no mask ever has `SIGKILL` or `SIGSTOP` in it, in every run in which the
frames given to `sys_sigreturn` carry such a mask. `forged_frame_blocks_kill` is a run with a forged
frame.

The frame that `sys_sigreturn` reads is arbitrary, since the user may write it.
-/

namespace RespOS.Signal

open RespOS.Basis
open RespOS.Outcome (keeps_err keeps_ok keeps_panic)
open Option Function SigSet

/-! ### Threads, processes and user arguments -/

/-- A pointer argument to data the kernel reads. -/
inductive UserRead (α : Type)
  | null
  | fault
  | value (a : α)

/-- A pointer argument to memory the kernel writes. -/
inductive UserWrite
  | null | fault | writable
  deriving DecidableEq

/-- `TrapContext`: the registers `x0` to `x31` and the program counter. -/
structure TrapContext where
  x : Nat → Nat
  sepc : Nat

structure SigThread where
  group : Nat
  pending : SigPending
  /-- `sigsuspend_saved_mask`. -/
  savedMask : Option SigSet
  /-- Inside `sys_ppoll`, `sys_pselect6` or `sys_epoll_pwait`: the mask to restore, if one was given. -/
  poll : Option (Option SigSet)
  trapCx : TrapContext
  sigstack : Option (Nat × Nat)

/-- The process-level part: the pending queue and the table of actions. -/
structure SigGroup where
  pending : SigPending
  handler : Sig → SigAction

structure SignalState where
  threads : Nat → Option SigThread
  groups : Nat → SigGroup

namespace SignalState

def setThread (s : SignalState) (tid : Nat) (t : Option SigThread) : SignalState :=
  { s with threads := Function.update s.threads tid t }

def setGroup (s : SignalState) (g : Nat) (group : SigGroup) : SignalState :=
  { s with groups := Function.update s.groups g group }

end SignalState

def sigsetSize : Nat := 8

/-! ### Calls that set the mask -/

/-- `sys_sigprocmask` on the mask of the thread. -/
def sysSigprocmask (t : SigThread) (how : Nat) (set : UserRead SigSet) (oldset : UserWrite)
    (sigsetsize : Nat) : Outcome SigThread Unit :=
  if sigsetsize ≠ sigsetSize then .err .EINVAL t
  else if oldset = .fault then .err .EFAULT t
  else
    match set with
    | .null => .ok () t
    | .fault => if 2 < how then .err .EINVAL t else .err .EFAULT t
    | .value new =>
      if 2 < how then .err .EINVAL t
      else
        let newMask := new.withoutKillStop
        let mask :=
          if how = 0 then t.pending.mask ||| newMask
          else if how = 1 then t.pending.mask &&& ~~~ newMask
          else newMask
        .ok () { t with pending := { t.pending with mask := mask } }

/-- `sys_sigaction` on the table of actions. -/
def sysSigaction (g : SigGroup) (signum : Int) (act : UserRead SigAction) (oldact : UserWrite)
    (sigsetsize : Nat) : Outcome SigGroup Unit :=
  if sigsetsize ≠ sigsetSize then .err .EINVAL g
  else if signum ≤ 0 ∨ 64 < signum then .err .EINVAL g
  else if isKillOrStop signum.toNat then .err .EINVAL g
  else
    match act with
    | .fault => .err .EFAULT g
    | .null => if oldact = .fault then .err .EFAULT g else .ok () g
    | .value new =>
      if oldact = .fault then .err .EFAULT g
      else
        let newAction := { new with mask := new.mask.withoutKillStop }
        .ok () { g with handler := Function.update g.handler signum.toNat newAction }

/-- `sys_rt_sigsuspend` up to its wait; the wait ends with `EINTR` and leaves the mask in place. -/
def sysRtSigsuspend (t : SigThread) (mask : UserRead SigSet) (sigsetsize : Nat) :
    Outcome SigThread Unit :=
  if sigsetsize ≠ sigsetSize then .err .EINVAL t
  else
    match mask with
    | .value new => .err .EINTR { t with
        savedMask := some t.pending.mask
        pending := { t.pending with mask := new.withoutKillStop } }
    | _ => .err .EFAULT t

/-- `ppoll_sigmask` and `epoll_sigmask`. -/
def pollSigmask (sigmask : UserRead SigSet) (sigsetsize : Nat) : Except Errno (Option SigSet) :=
  match sigmask with
  | .null => .ok none
  | .fault => if sigsetsize ≠ sigsetSize then .error .EINVAL else .error .EFAULT
  | .value mask => if sigsetsize ≠ sigsetSize then .error .EINVAL else .ok (some mask.withoutKillStop)

/-- `pselect_sigmask`: the mask is behind a second pointer. -/
def pselectSigmask (sigmask : UserRead (UserRead SigSet × Nat)) : Except Errno (Option SigSet) :=
  match sigmask with
  | .null => .ok none
  | .fault => .error .EFAULT
  | .value (inner, sigsetsize) => pollSigmask inner sigsetsize

/-- The polling calls put the temporary mask in place. -/
def enterPoll (t : SigThread) : Except Errno (Option SigSet) → SigThread
  | .error _ => t
  | .ok none => { t with poll := some none }
  | .ok (some mask) =>
    { t with poll := some (some t.pending.mask), pending := { t.pending with mask := mask } }

/-- The polling calls restore the mask on every way out. -/
def leavePoll (t : SigThread) : Option SigSet → SigThread
  | none => { t with poll := none }
  | some origin => { t with poll := none, pending := { t.pending with mask := origin } }

/-! ### Delivery -/

/-- The thread's own queue gives its first deliverable signal. -/
def fetchThreadSignal (t : SigThread) (g : SigGroup) :
    Outcome (SigThread × SigGroup) (Option (Sig × SigInfo)) :=
  match t.pending.findSignal with
  | none => .ok none (t, g)
  | some sig =>
    match t.pending.popSignalInfo sig with
    | none => .panic
    | some (siginfo, pending) => .ok (some (sig, siginfo)) ({ t with pending := pending }, g)

/-- `fetch_pending_signal`: the lower of the thread's and the process's first deliverable signals. -/
def fetchPendingSignal (t : SigThread) (g : SigGroup) :
    Outcome (SigThread × SigGroup) (Option (Sig × SigInfo)) :=
  match g.pending.findSignalWithMask t.pending.mask with
  | none => fetchThreadSignal t g
  | some process =>
    if (t.pending.findSignal).all fun thread ↦ decide (process < thread) then
      match g.pending.popSignalInfo process with
      | none => .panic
      | some (siginfo, pending) => .ok (some (process, siginfo)) (t, { g with pending := pending })
    else fetchThreadSignal t g

/-- `SigContext` of rv64: `gregs[0]` is the program counter. -/
structure SigContext where
  gregs : Nat → Nat
  mask : SigSet
  info : Nat

/-- What delivery writes to the user's stack. -/
inductive WrittenFrame
  | normal (ctx : SigContext)
  | rt (ctx : SigContext) (ucSigmask : SigSet) (siginfo : SigInfo)

def TRAMPOLINE : Nat := 0x3fffffe000

def sigContextSize : Nat := 272
def linuxSigInfoSize : Nat := 128
def uContextSize : Nat := 448
def frameFlagsSize : Nat := 16

/-- `(sp - size) & !0xF` on a `usize`. -/
def pushAligned (sp size : Nat) : Nat :=
  let sp := (sp + usizeSize - size) % usizeSize
  sp - sp % 16

def TrapContext.setX (cx : TrapContext) (i v : Nat) : TrapContext :=
  { cx with x := Function.update cx.x i v }

def makeSigContext (cx : TrapContext) (mask : SigSet) (info : Nat) : SigContext :=
  ⟨Function.update cx.x 0 cx.sepc, mask, info⟩

/-- The call is made again: `a0` and the program counter are put back. -/
def restartSyscall (cx : TrapContext) (action : SigAction) (restart : Option Nat) : TrapContext :=
  match action.restart, restart with
  | true, some arg0 => { cx.setX 10 arg0 with sepc := cx.sepc - 4 }
  | _, _ => cx

/-- The mask while the handler runs. -/
def handlerMask (mask : SigSet) (action : SigAction) (sig : Sig) : SigSet :=
  (if action.nodefer then mask else mask.addSignal sig) ||| action.mask

/-- The part of `handle_signal` that runs a user handler: the thread, and the frame it has written. -/
def runHandler (t : SigThread) (action : SigAction) (sig : Sig) (siginfo : SigInfo)
    (oldMask : SigSet) (restart : Option Nat) : SigThread × WrittenFrame :=
  let cx := restartSyscall t.trapCx action restart
  let top :=
    match action.onstack, t.sigstack with
    | true, some (base, size) => base + size
    | _, _ => cx.x 2
  let ctxSp := pushAligned top sigContextSize
  let pending := { t.pending with mask := handlerMask t.pending.mask action sig }
  let enter (cx : TrapContext) (sp : Nat) : TrapContext :=
    { ((cx.setX 10 sig).setX 1 TRAMPOLINE).setX 2 sp with sepc := action.saHandler }
  if action.siginfo then
    let siginfoSp := pushAligned ctxSp linuxSigInfoSize
    let ucontextSp := pushAligned siginfoSp uContextSize
    let sp := pushAligned ucontextSp frameFlagsSize
    let cx' := (cx.setX 11 siginfoSp).setX 12 ucontextSp
    ({ t with pending := pending, trapCx := enter cx' sp },
      .rt (makeSigContext cx oldMask 1) oldMask siginfo)
  else
    let sp := pushAligned ctxSp frameFlagsSize
    ({ t with pending := pending, trapCx := enter cx sp }, .normal (makeSigContext cx oldMask 0))

/-- `handle_signal`: none for the thread means that the process exits. `writable` says whether the frame
can be written to the user's stack. -/
def handleSignal (t : SigThread) (g : SigGroup) (restart : Option Nat) (writable : Bool) :
    Outcome (Option SigThread × SigGroup) (Option WrittenFrame) :=
  match fetchPendingSignal t g with
  | .panic => .panic
  | .err e (t, g) => .err e (some t, g)
  | .ok none (t, g) => .ok none (some t, g)
  | .ok (some (sig, siginfo)) (t, g) =>
    let oldMask := t.savedMask.getD t.pending.mask
    let t := { t with savedMask := none }
    let action := g.handler sig
    if action.isUser then
      if writable then
        let (t, frame) := runHandler t action sig siginfo oldMask restart
        let handler :=
          if action.resethand then Function.update g.handler sig .default else g.handler
        .ok (some frame) (some t, { g with handler := handler })
      else .ok none (none, g)
    else if action.saHandler = 0 ∧
        (ActionType.ofSig sig = .Term ∨ ActionType.ofSig sig = .Core) then
      .ok none (none, g)
    else .ok none (some t, g)

/-! ### Return from a handler -/

def normalFlag : Nat := 0x66666666
def rtFlag : Nat := 0x77777777

/-- What can be read at the user's stack pointer: the marker, a `SigFrame` there, a `SigRTFrame` there. -/
structure UserFrame where
  flag : Option Nat
  normal : Option SigContext
  rt : Option (SigContext × SigSet)

def restoreSigContext (ctx : SigContext) : TrapContext where
  x := fun i ↦ if i = 0 then 0 else ctx.gregs i
  sepc := ctx.gregs 0

/-- The mask `sys_sigreturn` takes from a frame, with the registers. -/
def UserFrame.restored (frame : UserFrame) : Option (SigContext × SigSet) :=
  frame.flag.bind fun flag ↦
    if flag = rtFlag then frame.rt else frame.normal.map fun ctx ↦ (ctx, ctx.mask)

def sysSigreturn (t : SigThread) (frame : UserFrame) : Outcome SigThread Nat :=
  match frame.flag with
  | none => .err .EFAULT t
  | some flag =>
    if flag = rtFlag then
      match frame.rt with
      | none => .err .EFAULT t
      | some (ctx, ucSigmask) =>
        .ok ((restoreSigContext ctx).x 10) { t with
          trapCx := restoreSigContext ctx
          pending := { t.pending with mask := ucSigmask } }
    else
      match frame.normal with
      | none => .err .EFAULT t
      | some ctx =>
        .ok ((restoreSigContext ctx).x 10) { t with
          trapCx := restoreSigContext ctx
          pending := { t.pending with mask := ctx.mask } }

/-! ### The system -/

inductive SignalEvent
  | sigprocmask (tid how : Nat) (set : UserRead SigSet) (oldset : UserWrite) (sigsetsize : Nat)
  | sigaction (tid : Nat) (signum : Int) (act : UserRead SigAction) (oldact : UserWrite)
      (sigsetsize : Nat)
  | sigsuspend (tid : Nat) (mask : UserRead SigSet) (sigsetsize : Nat)
  /-- `sys_ppoll` or `sys_epoll_pwait`. -/
  | poll (tid : Nat) (sigmask : UserRead SigSet) (sigsetsize : Nat)
  | pselect (tid : Nat) (sigmask : UserRead (UserRead SigSet × Nat))
  | pollReturn (tid : Nat)
  | post (tid : Nat) (threadLevel : Bool) (siginfo : SigInfo)
  | deliver (tid : Nat) (restart : Option Nat) (writable : Bool)
  | sigreturn (tid : Nat) (frame : UserFrame)
  | clone (tid child group : Nat) (thread : Bool)

/-- The signal state `clone_` gives a new thread: the mask is inherited, nothing is pending. -/
def SigThread.cloned (t : SigThread) (group : Nat) : SigThread :=
  { t with group := group, pending := .withMask t.pending.mask, savedMask := none }

namespace SignalState

/-- Thread `tid` makes a call that changes its own signal state. -/
def call (s : SignalState) (tid : Nat) (f : SigThread → Option SigThread) : Option SignalState :=
  (s.threads tid).bind fun t ↦
    if t.poll.isSome then none else (f t).map fun t' ↦ s.setThread tid (some t')

/-- The state after an event; none where the event cannot happen. -/
def next (s : SignalState) : SignalEvent → Option SignalState
  | .sigprocmask tid how set oldset size => s.call tid fun t ↦
      (sysSigprocmask t how set oldset size).state?
  | .sigaction tid signum act oldact size => (s.threads tid).bind fun t ↦
      (sysSigaction (s.groups t.group) signum act oldact size).state?.map fun g ↦ s.setGroup t.group g
  | .sigsuspend tid mask size => s.call tid fun t ↦ (sysRtSigsuspend t mask size).state?
  | .poll tid sigmask size => s.call tid fun t ↦ some (enterPoll t (pollSigmask sigmask size))
  | .pselect tid sigmask => s.call tid fun t ↦ some (enterPoll t (pselectSigmask sigmask))
  | .pollReturn tid => (s.threads tid).bind fun t ↦
      t.poll.map fun origin ↦ s.setThread tid (some (leavePoll t origin))
  | .post tid threadLevel siginfo => (s.threads tid).map fun t ↦
      if threadLevel then
        s.setThread tid (some { t with pending := (t.pending.addSignal siginfo).1 })
      else
        let g := s.groups t.group
        s.setGroup t.group { g with pending := (g.pending.addSignal siginfo).1 }
  | .deliver tid restart writable => (s.threads tid).bind fun t ↦
      if t.poll.isSome then none
      else (handleSignal t (s.groups t.group) restart writable).state?.map fun (t', g) ↦
        (s.setThread tid t').setGroup t.group g
  | .sigreturn tid frame => s.call tid fun t ↦ (sysSigreturn t frame).state?
  | .clone tid child group thread => (s.threads tid).bind fun t ↦
      if (s.threads child).isSome ∨ t.poll.isSome then none
      else
        let s' := s.setThread child (some (t.cloned (if thread then t.group else group)))
        if thread then some s'
        else some (s'.setGroup group
          { pending := .withMask 0, handler := (s.groups t.group).handler })

def Step (s : SignalState) (e : SignalEvent) (s' : SignalState) : Prop := s.next e = some s'

def boot : SignalState where
  threads := fun tid ↦ if tid = 1 then some
    { group := 1, pending := .withMask 0, savedMask := none, poll := none,
      trapCx := ⟨fun _ ↦ 0, 0⟩, sigstack := none } else none
  groups := fun _ ↦ { pending := .withMask 0, handler := fun _ ↦ .default }

end SignalState

/-! ### Clean masks -/

/-- Every mask a thread has or will restore is clean. -/
structure SigThread.Clean (t : SigThread) : Prop where
  mask : t.pending.mask.Clean
  savedMask : ∀ m ∈ t.savedMask, SigSet.Clean m
  poll : ∀ m, t.poll = some (some m) → SigSet.Clean m

/-- No action blocks the two signals, and they have no handler. -/
structure SigGroup.Clean (g : SigGroup) : Prop where
  mask : ∀ sig, (g.handler sig).mask.Clean
  handler : ∀ sig, isKillOrStop sig = true → (g.handler sig).isUser = false

structure SignalState.Clean (s : SignalState) : Prop where
  threads : ∀ tid t, s.threads tid = some t → t.Clean
  groups : ∀ g, (s.groups g).Clean

theorem SigThread.Clean.withMask {t : SigThread} (h : t.Clean) {p : SigPending}
    (hmask : p.mask.Clean) : ({ t with pending := p } : SigThread).Clean :=
  ⟨hmask, h.savedMask, h.poll⟩

theorem SigGroup.Clean.update {g : SigGroup} (h : g.Clean) {sig : Sig} {action : SigAction}
    (hkill : isKillOrStop sig = false) (hmask : action.mask.Clean) :
    ({ g with handler := update g.handler sig action } : SigGroup).Clean := by
  refine ⟨fun sig' ↦ ?_, fun sig' hsig' ↦ ?_⟩
  · by_cases heq : sig' = sig
    · simpa [heq] using hmask
    · simpa [update_of_ne heq] using h.mask sig'
  · have hne : sig' ≠ sig := fun heq ↦ by simp [heq, hkill] at hsig'
    simpa [update_of_ne hne] using h.handler sig' hsig'

section Calls

variable {t : SigThread} {g : SigGroup}

theorem clean_sysSigprocmask (h : t.Clean) (how : Nat) (set : UserRead SigSet) (oldset : UserWrite)
    (size : Nat) : (sysSigprocmask t how set oldset size).Keeps SigThread.Clean := by
  fun_cases sysSigprocmask t how set oldset size with
  | case3 => exact keeps_ok.mpr h
  | case7 _ _ new _ newMask mask =>
    rw [keeps_ok]
    apply h.withMask
    have hnew := clean_withoutKillStop new
    dsimp only [mask]
    split_ifs
    · exact h.mask.or hnew
    · exact h.mask.and_left _
    · exact hnew
  | _ => exact keeps_err.mpr h

theorem clean_sysSigaction (h : g.Clean) (signum : Int) (act : UserRead SigAction)
    (oldact : UserWrite) (size : Nat) :
    (sysSigaction g signum act oldact size).Keeps SigGroup.Clean := by
  fun_cases sysSigaction g signum act oldact size with
  | case6 => exact keeps_ok.mpr h
  | case8 _ _ hkill new =>
    exact keeps_ok.mpr (h.update (Bool.eq_false_iff.mpr hkill) (clean_withoutKillStop new.mask))
  | _ => exact keeps_err.mpr h

theorem clean_sysRtSigsuspend (h : t.Clean) (mask : UserRead SigSet) (size : Nat) :
    (sysRtSigsuspend t mask size).Keeps SigThread.Clean := by
  unfold sysRtSigsuspend
  split
  · exact keeps_err.mpr h
  match mask with
  | .null | .fault => exact keeps_err.mpr h
  | .value new =>
    rw [keeps_err]
    refine ⟨clean_withoutKillStop new, ?_, h.poll⟩
    intro m hm
    rw [← some.inj hm]
    exact h.mask

theorem clean_pollSigmask {sigmask : UserRead SigSet} {size : Nat} {mask : SigSet}
    (hmask : pollSigmask sigmask size = .ok (some mask)) : mask.Clean := by
  unfold pollSigmask at hmask
  match sigmask with
  | .null => simp at hmask
  | .fault =>
    dsimp only at hmask
    split at hmask <;> simp at hmask
  | .value new =>
    dsimp only at hmask
    split at hmask
    · simp at hmask
    · simp only [Except.ok.injEq, some.injEq] at hmask
      rw [← hmask]
      exact clean_withoutKillStop new

theorem clean_pselectSigmask {sigmask : UserRead (UserRead SigSet × Nat)} {mask : SigSet}
    (hmask : pselectSigmask sigmask = .ok (some mask)) : mask.Clean := by
  unfold pselectSigmask at hmask
  match sigmask with
  | .null | .fault => simp at hmask
  | .value (inner, size) => exact clean_pollSigmask hmask

theorem clean_enterPoll (h : t.Clean) {answer : Except Errno (Option SigSet)}
    (hanswer : ∀ mask, answer = .ok (some mask) → mask.Clean) : (enterPoll t answer).Clean := by
  match answer with
  | .error _ => exact h
  | .ok none => exact ⟨h.mask, h.savedMask, by simp [enterPoll]⟩
  | .ok (some mask) =>
    refine ⟨hanswer mask rfl, h.savedMask, ?_⟩
    intro m hm
    simp only [enterPoll, some.injEq] at hm
    rw [← hm]
    exact h.mask

theorem clean_leavePoll (h : t.Clean) {origin : Option SigSet} (hpoll : t.poll = some origin) :
    (leavePoll t origin).Clean := by
  match origin with
  | none => exact ⟨h.mask, h.savedMask, by simp [leavePoll]⟩
  | some mask => exact ⟨h.poll mask hpoll, h.savedMask, by simp [leavePoll]⟩

/-- Fetching a signal leaves the masks alone and yields a signal number. -/
def FetchesClean (o : Outcome (SigThread × SigGroup) (Option (Sig × SigInfo))) : Prop :=
  o.Ensures (fun fetched s ↦ (s.1.Clean ∧ s.2.Clean) ∧ ∀ f ∈ fetched, 0 < f.1)
    (fun s ↦ s.1.Clean ∧ s.2.Clean)

theorem clean_fetchThreadSignal (ht : t.Clean) (hg : g.Clean) :
    FetchesClean (fetchThreadSignal t g) := by
  unfold fetchThreadSignal
  match hfind : t.pending.findSignal with
  | none => exact ⟨⟨ht, hg⟩, by simp⟩
  | some sig =>
    dsimp only
    match hpop : t.pending.popSignalInfo sig with
    | none => trivial
    | some (siginfo, pending) =>
      refine ⟨⟨ht.withMask ?_, hg⟩, ?_⟩
      · rw [SigPending.mask_popSignalInfo hpop]
        exact ht.mask
      · intro f hf
        rw [← some.inj hf]
        exact SigPending.findSignalWithMask_pos hfind

theorem clean_fetchPendingSignal (ht : t.Clean) (hg : g.Clean) :
    FetchesClean (fetchPendingSignal t g) := by
  unfold fetchPendingSignal
  match hfind : g.pending.findSignalWithMask t.pending.mask with
  | none => exact clean_fetchThreadSignal ht hg
  | some process =>
    dsimp only
    split
    · match hpop : g.pending.popSignalInfo process with
      | none => trivial
      | some (siginfo, pending) =>
        refine ⟨⟨ht, ⟨hg.mask, hg.handler⟩⟩, ?_⟩
        intro f hf
        rw [← some.inj hf]
        exact SigPending.findSignalWithMask_pos hfind
    · exact clean_fetchThreadSignal ht hg

theorem clean_runHandler (h : t.Clean) {action : SigAction} {sig : Sig} (siginfo : SigInfo)
    (oldMask : SigSet) (restart : Option Nat) (hsig : 0 < sig) (hkill : isKillOrStop sig = false)
    (haction : action.mask.Clean) : (runHandler t action sig siginfo oldMask restart).1.Clean := by
  have hmask : (handlerMask t.pending.mask action sig).Clean := by
    unfold handlerMask
    split
    · exact h.mask.or haction
    · exact (h.mask.addSignal hsig hkill).or haction
  unfold runHandler
  dsimp only
  split <;> exact ⟨hmask, h.savedMask, h.poll⟩

theorem clean_handleSignal (ht : t.Clean) (hg : g.Clean) (restart : Option Nat) (writable : Bool) :
    (handleSignal t g restart writable).Keeps fun s ↦ (∀ t' ∈ s.1, t'.Clean) ∧ s.2.Clean := by
  have hfetch := clean_fetchPendingSignal ht hg
  unfold handleSignal
  generalize fetchPendingSignal t g = fetched at hfetch
  match fetched with
  | .panic => exact keeps_panic
  | .err e (t, g) =>
    rw [keeps_err]
    exact ⟨by simpa using hfetch.1, hfetch.2⟩
  | .ok none (t, g) =>
    rw [keeps_ok]
    exact ⟨by simpa using hfetch.1.1, hfetch.1.2⟩
  | .ok (some (sig, siginfo)) (t, g) =>
    have ht' : ({ t with savedMask := none } : SigThread).Clean :=
      ⟨hfetch.1.1.mask, by simp, hfetch.1.1.poll⟩
    have hg' := hfetch.1.2
    have hsig : 0 < sig := hfetch.2 (sig, siginfo) rfl
    dsimp only
    by_cases huser : (g.handler sig).isUser = true
    · rw [if_pos huser]
      by_cases hwritable : writable = true
      · rw [if_pos hwritable, keeps_ok]
        have hkill : isKillOrStop sig = false := by
          by_contra hno
          rw [Bool.not_eq_false] at hno
          rw [hg'.handler sig hno] at huser
          simp at huser
        refine ⟨?_, ?_⟩
        · intro t'' ht''
          rw [← some.inj ht'']
          exact clean_runHandler ht' siginfo _ restart hsig hkill (hg'.mask sig)
        · split
          · exact hg'.update hkill clean_zero
          · exact hg'
      · rw [if_neg hwritable, keeps_ok]
        exact ⟨by simp, hg'⟩
    · rw [if_neg huser]
      split
      · rw [keeps_ok]
        exact ⟨by simp, hg'⟩
      · rw [keeps_ok]
        exact ⟨by simpa using ht', hg'⟩

theorem sysSigreturn_eq (t : SigThread) (frame : UserFrame) : sysSigreturn t frame =
    match frame.restored with
    | none => .err .EFAULT t
    | some (ctx, mask) => .ok ((restoreSigContext ctx).x 10) { t with
        trapCx := restoreSigContext ctx
        pending := { t.pending with mask := mask } } := by
  obtain ⟨flag | flag, normal, rt⟩ := frame
  · rfl
  unfold sysSigreturn UserFrame.restored
  simp only [bind_some]
  split_ifs
  · cases rt <;> rfl
  · cases normal <;> rfl

theorem clean_sysSigreturn (h : t.Clean) {frame : UserFrame}
    (hframe : ∀ r ∈ frame.restored, SigSet.Clean r.2) :
    (sysSigreturn t frame).Keeps SigThread.Clean := by
  rw [sysSigreturn_eq]
  split
  · exact keeps_err.mpr h
  · rename_i ctx mask hread
    exact keeps_ok.mpr ⟨hframe (ctx, mask) hread, h.savedMask, h.poll⟩

end Calls

/-! ### Runs -/

/-- The condition on runs: a frame that `sys_sigreturn` can read has a clean mask in the place it is
taken from. Nothing is asked of frames that cannot be read, nor of registers. -/
def SignalEvent.HonestFrame : SignalEvent → Prop
  | .sigreturn _ frame => ∀ r ∈ frame.restored, SigSet.Clean r.2
  | _ => True

instance (e : SignalEvent) : Decidable e.HonestFrame := by
  cases e <;> unfold SignalEvent.HonestFrame <;> infer_instance

namespace SignalState

theorem clean_boot : boot.Clean := by
  constructor
  · intro tid t ht
    simp only [boot, ite_none_right_eq_some, some.injEq] at ht
    rw [← ht.2]
    exact ⟨clean_zero, by simp, by simp⟩
  · intro g
    exact ⟨fun _ ↦ clean_zero, fun _ _ ↦ rfl⟩

variable {s s' : SignalState}

section

variable (h : s.Clean)
include h

theorem Clean.setThread (tid : Nat) {t : Option SigThread} (ht : ∀ t' ∈ t, t'.Clean) :
    (s.setThread tid t).Clean := by
  refine ⟨(forall_update_iff s.threads fun _ t ↦ ∀ t', t = some t' → t'.Clean).mpr ?_, h.groups⟩
  exact ⟨ht, fun tid' _ ↦ h.threads tid'⟩

theorem Clean.setSome (tid : Nat) {t : SigThread} (ht : t.Clean) : (s.setThread tid (some t)).Clean := by
  refine h.setThread tid fun t' ht' ↦ ?_
  rw [← some.inj ht']
  exact ht

theorem Clean.setGroup (g : Nat) {group : SigGroup} (hg : group.Clean) : (s.setGroup g group).Clean := by
  refine ⟨h.threads, (forall_update_iff s.groups fun _ g ↦ g.Clean).mpr ?_⟩
  exact ⟨hg, fun g' _ ↦ h.groups g'⟩

theorem Clean.call {tid : Nat} {f : SigThread → Option SigThread}
    (hf : ∀ t t', t.Clean → f t = some t' → t'.Clean) (hcall : s.call tid f = some s') : s'.Clean := by
  rcases bind_eq_some_iff.mp hcall with ⟨t, ht, hrest⟩
  split at hrest
  · simp at hrest
  · rcases map_eq_some_iff.mp hrest with ⟨t', ht', rfl⟩
    exact h.setSome tid (hf t t' (h.threads tid t ht) ht')

theorem Clean.step {e : SignalEvent} (hok : e.HonestFrame) (hstep : s.Step e s') : s'.Clean := by
  cases e with
  | sigprocmask tid how set oldset size =>
    exact h.call (fun t t' ht ↦ clean_sysSigprocmask ht how set oldset size t') hstep
  | sigaction tid signum act oldact size =>
    rcases bind_eq_some_iff.mp hstep with ⟨t, ht, hrest⟩
    rcases map_eq_some_iff.mp hrest with ⟨g, hg, rfl⟩
    exact h.setGroup _ (clean_sysSigaction (h.groups _) signum act oldact size g hg)
  | sigsuspend tid mask size =>
    exact h.call (fun t t' ht ↦ clean_sysRtSigsuspend ht mask size t') hstep
  | poll tid sigmask size =>
    refine h.call (fun t t' ht heq ↦ ?_) hstep
    rw [← some.inj heq]
    exact clean_enterPoll ht fun mask ↦ clean_pollSigmask
  | pselect tid sigmask =>
    refine h.call (fun t t' ht heq ↦ ?_) hstep
    rw [← some.inj heq]
    exact clean_enterPoll ht fun mask ↦ clean_pselectSigmask
  | pollReturn tid =>
    rcases bind_eq_some_iff.mp hstep with ⟨t, ht, hrest⟩
    rcases map_eq_some_iff.mp hrest with ⟨origin, hpoll, rfl⟩
    exact h.setSome tid (clean_leavePoll (h.threads tid t ht) hpoll)
  | post tid threadLevel siginfo =>
    rcases map_eq_some_iff.mp hstep with ⟨t, ht, rfl⟩
    split
    · exact h.setSome tid ((h.threads tid t ht).withMask (h.threads tid t ht).mask)
    · exact h.setGroup _ ⟨(h.groups _).mask, (h.groups _).handler⟩
  | deliver tid restart writable =>
    rcases bind_eq_some_iff.mp hstep with ⟨t, ht, hrest⟩
    split at hrest
    · simp at hrest
    rcases map_eq_some_iff.mp hrest with ⟨⟨t', g⟩, hcall, rfl⟩
    have hclean := clean_handleSignal (h.threads tid t ht) (h.groups t.group) restart writable _ hcall
    exact (h.setThread tid hclean.1).setGroup _ hclean.2
  | sigreturn tid frame =>
    exact h.call (fun t t' ht ↦ clean_sysSigreturn ht hok t') hstep
  | clone tid child group thread =>
    rcases bind_eq_some_iff.mp hstep with ⟨t, ht, hrest⟩
    have htclean := h.threads tid t ht
    split at hrest
    · simp at hrest
    have hchild : ∀ g, (t.cloned g).Clean := fun g ↦
      ⟨htclean.mask, by simp [SigThread.cloned], htclean.poll⟩
    split at hrest
    · rw [← some.inj hrest]
      exact h.setSome child (hchild _)
    · rw [← some.inj hrest]
      exact (h.setSome child (hchild _)).setGroup group
        ⟨(h.groups t.group).mask, (h.groups t.group).handler⟩

end

/-- In every run whose frames meet the condition no thread blocks `SIGKILL` or `SIGSTOP`. And
`sys_sigreturn` on a frame with neither marker fails without a change exactly if the marker or the frame
behind it cannot be read. -/
theorem masks_clean (s : SignalState) (t : SigThread) (frame : UserFrame) :
    (Run (· = boot) (fun _ e ↦ e.HonestFrame) Step s →
      ∀ tid t, s.threads tid = some t → t.pending.mask.containSignal SIGKILL = false ∧
        t.pending.mask.containSignal SIGSTOP = false) ∧
    ((∀ flag ∈ frame.flag, flag ≠ normalFlag ∧ flag ≠ rtFlag) →
      ((∃ e, sysSigreturn t frame = .err e t) ↔ frame.flag = none ∨ frame.normal = none)) := by
  constructor
  · intro hrun tid t ht
    have hclean : s.Clean := by
      apply Run.invariant ?_ ?_ hrun
      · rintro s rfl
        exact clean_boot
      · intro s e s' h hok hstep
        exact h.step hok hstep
    exact (hclean.threads tid t ht).mask
  · intro hmarker
    unfold sysSigreturn
    match hflag : frame.flag with
    | none => simp
    | some flag =>
      have hnotRt : flag ≠ rtFlag := (hmarker flag hflag).2
      match hread : frame.normal with
      | none | some ctx => simp [hnotRt]

/-- A frame whose marker is neither of the two and whose mask has every signal in it. -/
def forgedFrame : UserFrame where
  flag := some 0
  normal := some ⟨fun _ ↦ 0x1000, BitVec.allOnes 64, 0⟩
  rt := none

/-- Thread 1 calls `sigreturn` with it: both signals are blocked, and the registers are the frame's. -/
theorem forged_frame_blocks_kill : ∃ s t, Run (· = boot) (fun _ _ ↦ True) Step s ∧
    s.threads 1 = some t ∧ t.pending.mask.containSignal SIGKILL = true ∧
    t.pending.mask.containSignal SIGSTOP = true ∧ t.trapCx.sepc = 0x1000 := by
  have hfacts : ((runWhile (fun _ _ ↦ True) next [.sigreturn 1 forgedFrame] boot).bind
      fun s ↦ s.threads 1 |>.map fun t ↦ (t.pending.mask, t.trapCx.sepc)) =
      some (BitVec.allOnes 64, 0x1000) := by
    decide +kernel
  rcases bind_eq_some_iff.mp hfacts with ⟨s, hs, hthread⟩
  rcases map_eq_some_iff.mp hthread with ⟨t, ht, heq⟩
  rw [Prod.mk.injEq] at heq
  have hstart : Run (· = boot) (fun _ _ ↦ True) Step boot := .start rfl
  refine ⟨s, t, hstart.of_runWhile hs, ht, ?_, ?_, heq.2⟩
  · rw [heq.1]
    decide
  · rw [heq.1]
    decide

/-- A handler for signal 10 is run and returns through the frame it was given. -/
theorem masks_clean_handler : (∃ (s : SignalState) (t : SigThread), s.threads 1 = some t ∧ t.pending.mask = 0 ∧
      t.pending.mask.containSignal SIGKILL = false ∧ t.pending.mask.containSignal SIGSTOP = false) ∧
    ¬ ∃ e, sysSigreturn (⟨1, .withMask 0, none, none, ⟨fun _ ↦ 0, 0⟩, none⟩) forgedFrame =
      .err e ⟨1, .withMask 0, none, none, ⟨fun _ ↦ 0, 0⟩, none⟩ := by
  have hfacts : ((runWhile (fun _ (e : SignalEvent) ↦ e.HonestFrame) next
      [.sigaction 1 10 (.value { SigAction.default with saHandler := 0x4000, mask := BitVec.allOnes 64 })
          .null 8,
        .post 1 false ⟨10, 0, none⟩, .deliver 1 none true,
        .sigreturn 1 ⟨some normalFlag, some ⟨fun _ ↦ 0, 0, 0⟩, none⟩] boot).bind
      fun s ↦ s.threads 1 |>.map fun t ↦ t.pending.mask) = some 0 := by
    decide +kernel
  rcases bind_eq_some_iff.mp hfacts with ⟨s, hs, hthread⟩
  rcases map_eq_some_iff.mp hthread with ⟨t, ht, hmask⟩
  have hstart : Run (· = boot) (fun _ (e : SignalEvent) ↦ e.HonestFrame) Step boot := .start rfl
  refine ⟨⟨s, t, ht, hmask, (masks_clean s t forgedFrame).1 (hstart.of_runWhile hs) 1 t ht⟩, ?_⟩
  rw [(masks_clean s _ forgedFrame).2 (by simp [forgedFrame, normalFlag, rtFlag])]
  simp [forgedFrame]

end SignalState

end RespOS.Signal
