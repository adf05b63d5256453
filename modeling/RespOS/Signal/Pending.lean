import RespOS.Base

/-!
# Signal sets, pending queues and actions (`signal/sig_struct.rs`, `signal/sig_handler.rs`)

A signal set is a word with bit `n - 1` for signal `n`. `SigPending` has the set of pending signals, the
mask of the thread and a queue of `siginfo` for each pending number: a standard signal has at most one
entry, a realtime signal one for each instance. `SigSet.Clean` is the property of a set that `SIGKILL`
and `SIGSTOP` are not in it, with one lemma for each operation the kernel uses on masks.
-/

namespace RespOS.Signal

/-! ### Signal sets -/

/-- Signal numbers; the valid ones are `1` to `64`. -/
abbrev Sig := Nat

def SIGKILL : Sig := 9
def SIGCHLD : Sig := 17
def SIGCONT : Sig := 18
def SIGSTOP : Sig := 19
def SIGLEGACYMAX : Sig := 32
def MAX_SIGNUM : Nat := 64

/-- `Sig::is_valid` of a user's `i32`. -/
def isValid (signum : Int) : Bool := decide (0 < signum) && decide (signum ≤ MAX_SIGNUM)

/-- `Sig::is_kill_or_stop`. -/
def isKillOrStop (sig : Sig) : Bool := sig == SIGKILL || sig == SIGSTOP

abbrev SigSet := BitVec 64

namespace SigSet

/-- `1 << sig.index()`. -/
def bit (sig : Sig) : SigSet := 1#64 <<< (sig - 1)

def addSignal (set : SigSet) (sig : Sig) : SigSet := set ||| bit sig

def containSignal (set : SigSet) (sig : Sig) : Bool := set &&& bit sig == bit sig

def removeSignal (set : SigSet) (sig : Sig) : SigSet := set &&& ~~~ bit sig

/-- What every system call that takes a mask from the user does to it. -/
def withoutKillStop (set : SigSet) : SigSet := (set.removeSignal SIGKILL).removeSignal SIGSTOP

theorem getLsbD_bit (sig : Sig) (i : Nat) :
    (bit sig).getLsbD i = (decide (i < 64) && decide (i = sig - 1)) := by
  simp only [bit, BitVec.getLsbD_shiftLeft, BitVec.getLsbD_one]
  by_cases hi : i < 64 <;> by_cases heq : i = sig - 1 <;> simp [hi, heq]
  omega

/-- Neither `SIGKILL` nor `SIGSTOP` is in the set. -/
def Clean (set : SigSet) : Prop :=
  set.containSignal SIGKILL = false ∧ set.containSignal SIGSTOP = false

instance (set : SigSet) : Decidable set.Clean := by
  unfold Clean
  infer_instance

theorem containSignal_eq_getLsbD (set : SigSet) {sig : Sig} (h : sig - 1 < 64) :
    set.containSignal sig = set.getLsbD (sig - 1) := by
  rw [Bool.eq_iff_iff, containSignal, beq_iff_eq]
  constructor
  · intro heq
    have hbit := congrArg (·.getLsbD (sig - 1)) heq
    simpa [getLsbD_bit, h] using hbit
  · intro hbit
    apply BitVec.eq_of_getLsbD_eq
    intro i hi
    rw [BitVec.getLsbD_and, getLsbD_bit]
    by_cases heq : i = sig - 1
    · simp [heq, hbit]
    · simp [heq]

theorem clean_iff {set : SigSet} : set.Clean ↔ set.getLsbD 8 = false ∧ set.getLsbD 18 = false := by
  rw [Clean, containSignal_eq_getLsbD set (by decide), containSignal_eq_getLsbD set (by decide)]
  rfl

theorem clean_zero : Clean 0#64 := by decide

theorem clean_withoutKillStop (set : SigSet) : set.withoutKillStop.Clean := by
  rw [clean_iff]
  simp only [withoutKillStop, removeSignal, BitVec.getLsbD_and, BitVec.getLsbD_not, getLsbD_bit,
    SIGKILL, SIGSTOP]
  constructor <;> simp

theorem Clean.or {a b : SigSet} (ha : a.Clean) (hb : b.Clean) : Clean (a ||| b) := by
  rw [clean_iff] at *
  simp only [BitVec.getLsbD_or, ha.1, ha.2, hb.1, hb.2, Bool.or_self, and_self]

theorem Clean.and_left {a : SigSet} (ha : a.Clean) (b : SigSet) : Clean (a &&& b) := by
  rw [clean_iff] at *
  simp only [BitVec.getLsbD_and, ha.1, ha.2, Bool.false_and, and_self]

theorem Clean.addSignal {a : SigSet} (ha : a.Clean) {sig : Nat} (hpos : 0 < sig)
    (h : isKillOrStop sig = false) : (a.addSignal sig).Clean := by
  have hkill : sig ≠ 9 := fun heq ↦ by simp [isKillOrStop, heq, SIGKILL] at h
  have hstop : sig ≠ 19 := fun heq ↦ by simp [isKillOrStop, heq, SIGSTOP] at h
  have hbit : ¬ 8 = sig - 1 ∧ ¬ 18 = sig - 1 := by omega
  rw [clean_iff] at *
  simp only [SigSet.addSignal, BitVec.getLsbD_or, getLsbD_bit, ha.1, ha.2, hbit.1, hbit.2,
    decide_false, Bool.and_false, Bool.or_self, and_self]

end SigSet

/-! ### Pending signals -/

/-- `SigInfo`: the number, the code and the sender. -/
structure SigInfo where
  signo : Sig
  code : Int
  sender : Option Nat
  deriving DecidableEq

structure SigPending where
  pending : SigSet
  mask : SigSet
  info : Sig → List SigInfo

namespace SigPending

def withMask (mask : SigSet) : SigPending := ⟨0, mask, fun _ ↦ []⟩

/-- `SigPending::add_signal`: a standard signal that is pending already is not queued again. -/
def addSignal (p : SigPending) (siginfo : SigInfo) : SigPending × Bool :=
  let sig := siginfo.signo
  let queued := decide (SIGLEGACYMAX < sig) || (p.info sig).isEmpty
  ({ p with
      pending := p.pending.addSignal sig
      info := Function.update p.info sig
        (if queued then p.info sig ++ [siginfo] else p.info sig) }, queued)

/-- `SigPending::find_signal_with_mask`: the lowest pending signal that the mask does not block. -/
def findSignalWithMask (p : SigPending) (mask : SigSet) : Option Sig :=
  ((List.range MAX_SIGNUM).find? fun pos ↦ p.pending.getLsbD pos &&
    (!mask.containSignal (pos + 1) || pos + 1 == SIGKILL || pos + 1 == SIGSTOP)).map (· + 1)

def findSignal (p : SigPending) : Option Sig := p.findSignalWithMask p.mask

/-- `SigPending::pop_signal_info`; none where a pending signal has no `siginfo` and `expect` panics. -/
def popSignalInfo (p : SigPending) (sig : Sig) : Option (SigInfo × SigPending) :=
  match p.info sig with
  | [] => none
  | siginfo :: queue => some (siginfo, { p with
      pending := if queue.isEmpty then p.pending.removeSignal sig else p.pending
      info := Function.update p.info sig queue })

theorem findSignalWithMask_pos {p : SigPending} {mask : SigSet} {sig : Sig}
    (h : p.findSignalWithMask mask = some sig) : 0 < sig := by
  rcases Option.map_eq_some_iff.mp h with ⟨pos, -, rfl⟩
  exact Nat.succ_pos pos

theorem mask_popSignalInfo {p p' : SigPending} {sig : Sig} {siginfo : SigInfo}
    (h : p.popSignalInfo sig = some (siginfo, p')) : p'.mask = p.mask := by
  unfold popSignalInfo at h
  split at h
  · simp at h
  · simp only [Option.some.injEq, Prod.mk.injEq] at h
    rw [← h.2]

end SigPending

/-- `SigAction`; of the flags those that delivery reads. -/
structure SigAction where
  saHandler : Nat
  nodefer : Bool
  onstack : Bool
  siginfo : Bool
  restart : Bool
  resethand : Bool
  nocldstop : Bool
  mask : SigSet

/-- `SigAction::new`. -/
def SigAction.default : SigAction := ⟨0, false, false, false, false, false, false, 0⟩

def SigAction.isUser (a : SigAction) : Bool := a.saHandler != 0 && a.saHandler != 1

inductive ActionType
  | Ignore | Term | Stop | Cont | Core
  deriving DecidableEq

/-- `ActionType::default`. -/
def ActionType.ofSig (sig : Sig) : ActionType :=
  if sig ∈ [6, 7, 8, 4, 3, 11, 5, 24, 25, 31] then .Core
  else if sig ∈ [19, 20, 21, 22] then .Stop
  else if sig ∈ [17, 23, 28] then .Ignore
  else if sig = 18 then .Cont
  else .Term

end RespOS.Signal
