import RespOS.Signal.Interruption

/-!
# Signal frames and `sigreturn`

The frame of a handler on the two architectures: which registers carry the arguments, how large the structs
are, and how `make_sig_context` and `restore_sig_context` lay the registers out. `sigreturn_delivers` says
that `sys_sigreturn` on the frame undoes the delivery, and that the handler's arguments point into the
frame. The mask that comes back is that of `sigsuspend_saved_mask` where there is one.
-/

namespace RespOS.Signal

inductive Arch
  | rv64 | loongarch64

namespace Arch

def sp : Arch → Nat
  | rv64 => 2
  | loongarch64 => 3

/-- `a1` and `a2` follow. -/
def a0 : Arch → Nat
  | rv64 => 10
  | loongarch64 => 4

/-- The size of `SigContext`, field by field. -/
def sigContextSize : Arch → Nat
  | rv64 => 32 * 8 + 8 + 8
  | loongarch64 => 8 + 32 * 8 + 4 + 4 + 8 + 8

def uContextSize (arch : Arch) : Nat := 8 + 8 + 24 + 8 + 16 * 8 + arch.sigContextSize

/-- `make_sig_context`. On LoongArch `gregs` stands for the words from `pc` on. -/
def makeSigContext (cx : TrapContext) (mask : SigSet) (info : Nat) : Arch → SigContext
  | rv64 => Signal.makeSigContext cx mask info
  | loongarch64 => ⟨fun i ↦ if i = 0 then cx.sepc else cx.x (i - 1), mask, info⟩

def restoreSigContext (ctx : SigContext) : Arch → TrapContext
  | rv64 => Signal.restoreSigContext ctx
  | loongarch64 => ⟨fun i ↦ ctx.gregs (i + 1), ctx.gregs 0⟩

variable (arch : Arch)

def restartSyscall (cx : TrapContext) (action : SigAction) (restart : Option Nat) : TrapContext :=
  match action.restart, restart with
  | true, some arg0 => { cx.setX arch.a0 arg0 with sepc := cx.sepc - 4 }
  | _, _ => cx

/-- The branch of `handle_signal` for a signal with a handler. -/
def deliver (t : SigThread) (action : SigAction) (sig : Sig) (siginfo : SigInfo)
    (restart : Option Nat) : SigThread × WrittenFrame :=
  let oldMask := t.savedMask.getD t.pending.mask
  let cx := arch.restartSyscall t.trapCx action restart
  let top :=
    match action.onstack, t.sigstack with
    | true, some (base, size) => base + size
    | _, _ => cx.x arch.sp
  let ctxSp := pushAligned top arch.sigContextSize
  let enter (cx : TrapContext) (sp : Nat) : SigThread :=
    { t with
      savedMask := none
      pending := { t.pending with mask := handlerMask t.pending.mask action sig }
      trapCx := { ((cx.setX arch.a0 sig).setX 1 TRAMPOLINE).setX arch.sp sp with
        sepc := action.saHandler } }
  if action.siginfo then
    let siginfoSp := pushAligned ctxSp linuxSigInfoSize
    let ucontextSp := pushAligned siginfoSp arch.uContextSize
    (enter ((cx.setX (arch.a0 + 1) siginfoSp).setX (arch.a0 + 2) ucontextSp)
      (pushAligned ucontextSp frameFlagsSize), .rt (arch.makeSigContext cx oldMask 1) oldMask siginfo)
  else (enter cx (pushAligned ctxSp frameFlagsSize), .normal (arch.makeSigContext cx oldMask 0))

def sysSigreturn (t : SigThread) (frame : UserFrame) : Outcome SigThread Nat :=
  match frame.restored with
  | none => .err .EFAULT t
  | some (ctx, mask) => .ok ((arch.restoreSigContext ctx).x arch.a0) { t with
      trapCx := arch.restoreSigContext ctx
      pending := { t.pending with mask := mask } }

theorem deliver_rv64 (t : SigThread) (action : SigAction) (sig : Sig) (siginfo : SigInfo)
    (restart : Option Nat) : rv64.deliver t action sig siginfo restart =
      runHandler { t with savedMask := none } action sig siginfo (t.savedMask.getD t.pending.mask)
        restart := rfl

theorem sysSigreturn_rv64 (t : SigThread) (frame : UserFrame) :
    rv64.sysSigreturn t frame = Signal.sysSigreturn t frame := (Signal.sysSigreturn_eq t frame).symm

theorem restoreSigContext_make (cx : TrapContext) (mask : SigSet) (info : Nat) :
    (arch.makeSigContext cx mask info).mask = mask ∧
      (arch.restoreSigContext (arch.makeSigContext cx mask info)).sepc = cx.sepc ∧
      ∀ i ≠ 0, (arch.restoreSigContext (arch.makeSigContext cx mask info)).x i = cx.x i := by
  cases arch with
  | rv64 => exact ⟨rfl, rfl, fun i hi ↦ (if_neg hi).trans (Function.update_of_ne hi _ _)⟩
  | loongarch64 => exact ⟨rfl, rfl, fun i _ ↦ rfl⟩

end Arch

theorem pushAligned_pushAligned (sp n : Nat) {size : Nat} (hsize : size % 16 = 0)
    (hle : size ≤ usizeSize) :
    (pushAligned (pushAligned sp n) size + size) % usizeSize = pushAligned sp n := by
  simp only [pushAligned, usizeSize] at *
  omega

/-- `sys_sigreturn` on the frame that delivery wrote restores the program counter, the registers and the
mask of the delivery, and `a1` and `a2` of a handler with `SA_SIGINFO` point at the frame's `siginfo` and
`ucontext`. -/
theorem sigreturn_delivers (arch : Arch) (t u : SigThread) (action : SigAction) (sig : Sig)
    (siginfo : SigInfo) (restart : Option Nat) :
    let cx := arch.restartSyscall t.trapCx action restart
    let (t', frame) := arch.deliver t action sig siginfo restart
    (∃ u', arch.sysSigreturn u frame.onStack = .ok (cx.x arch.a0) u' ∧ u'.trapCx.sepc = cx.sepc ∧
      (∀ i ≠ 0, u'.trapCx.x i = cx.x i) ∧ u'.pending.mask = t.savedMask.getD t.pending.mask) ∧
    (action.siginfo = true →
      (t'.trapCx.x arch.sp + frameFlagsSize) % usizeSize = t'.trapCx.x (arch.a0 + 2) ∧
      (t'.trapCx.x (arch.a0 + 2) + arch.uContextSize) % usizeSize = t'.trapCx.x (arch.a0 + 1)) := by
  intro cx
  have ha0 : arch.a0 ≠ 0 := by cases arch <;> decide
  have hrestore (info : Nat) :=
    arch.restoreSigContext_make cx (t.savedMask.getD t.pending.mask) info
  unfold Arch.deliver
  dsimp only
  split_ifs with hinfo
  · refine ⟨⟨_, by rw [← (hrestore 1).2.2 _ ha0]; rfl, (hrestore 1).2.1, (hrestore 1).2.2, rfl⟩,
      fun _ ↦ ?_⟩
    cases arch <;> simp only [TrapContext.setX, Arch.sp, Arch.a0, Function.update_apply, Nat.reduceAdd,
      Nat.reduceEqDiff, if_true, if_false] <;>
    exact ⟨pushAligned_pushAligned _ _ (by decide) (by decide),
      pushAligned_pushAligned _ _ (by decide) (by decide)⟩
  · exact ⟨⟨_, by rw [← (hrestore 0).2.2 _ ha0]; rfl, (hrestore 0).2.1, (hrestore 0).2.2,
      (hrestore 0).1⟩, fun h ↦ absurd h hinfo⟩

/-- After a handler that ended `sys_rt_sigsuspend`, the mask of that call does not come back. -/
theorem sigreturn_after_sigsuspend :
    let t := idle 0 (some (SigSet.bit 12))
    let (t', frame) := Arch.rv64.deliver t ⟨4096, false, false, false, false, false, false, 0⟩ 10
      ⟨10, 0, none⟩ none
    sysRtSigsuspend (idle (SigSet.bit 12) none) (.value 0) sigsetSize = .err .EINTR t ∧
      ∃ v u, Arch.rv64.sysSigreturn t' frame.onStack = .ok v u ∧ u.pending.mask ≠ t.pending.mask :=
  ⟨rfl, _, _, rfl, by decide⟩

end RespOS.Signal
