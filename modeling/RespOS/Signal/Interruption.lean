import RespOS.Signal.TemporaryMask

/-!
# What ends a wait, and the mask after it

`check_signal_interrupt` looks at the lowest deliverable signal only, and at its action afterwards.
`checkSignalInterrupt_iff` says in which states that is the same as looking at all of them;
`ignored_hides_handled` is a state in which it is not.

`sys_rt_sigsuspend` leaves its mask in place and the mask of the caller in `sigsuspend_saved_mask`.
`handle_signal` takes it back for the first signal it fetches, and only a signal with a handler has a frame
that it is written to. `sigsuspend_restores_iff` follows the thread through any number of nested handlers
up to the next user code outside of them.
-/

namespace RespOS.Signal

/-- The action of the signal is neither `SIG_IGN` nor to be ignored by default. -/
def SigGroup.heeds (g : SigGroup) (sig : Sig) : Bool :=
  (g.handler sig).saHandler != 1 && ((g.handler sig).saHandler != 0 || ActionType.ofSig sig != .Ignore)

def checkSignalInterrupt (t : SigThread) (g : SigGroup) (interruptible : Bool) : Bool :=
  if !interruptible then false
  else
    match findPendingSignal t g with
    | some sig => g.heeds sig
    | none => false

theorem checkSignalInterrupt_eq_true_iff {t : SigThread} {g : SigGroup} :
    checkSignalInterrupt t g true = true ↔
      ∃ sig, IsLeast {x | Deliverable t g x} sig ∧ g.heeds sig = true := by
  simp only [← (finds_findPendingSignal t g).eq_some_iff, checkSignalInterrupt]
  cases findPendingSignal t g <;> simp

/-- While the thread is interruptible, the answer is that of all deliverable signals together exactly if
the lowest of them is heeded or none is. -/
theorem checkSignalInterrupt_iff (t : SigThread) (g : SigGroup) :
    (checkSignalInterrupt t g true = true ↔ ∃ sig, Deliverable t g sig ∧ g.heeds sig = true) ↔
      ∀ low, Deliverable t g low → (∀ x, Deliverable t g x → low ≤ x) → g.heeds low = false →
        ∀ sig, Deliverable t g sig → g.heeds sig = false := by
  rw [checkSignalInterrupt_eq_true_iff]
  constructor
  · intro hiff low hlow hmin hdeaf sig hsig
    by_contra hheeds
    obtain ⟨y, hy, hyheeds⟩ := hiff.mpr ⟨sig, hsig, by simpa using hheeds⟩
    obtain rfl := hy.unique ⟨hlow, hmin⟩
    simp [hdeaf] at hyheeds
  · intro hcond
    refine ⟨fun ⟨sig, hsig, hheeds⟩ ↦ ⟨sig, hsig.1, hheeds⟩, fun ⟨sig, hsig, hheeds⟩ ↦ ?_⟩
    obtain ⟨low, -, hfind⟩ := (finds_findPendingSignal t g).exists_le hsig
    have hlow := (finds_findPendingSignal t g).eq_some_iff.mp hfind
    refine ⟨low, hlow, ?_⟩
    by_contra hdeaf
    simp [hcond low hlow.1 hlow.2 (by simpa using hdeaf) sig hsig] at hheeds

/-- `SIGCHLD`, which is ignored by default, is pending, and above it a signal with a handler. -/
theorem ignored_hides_handled : ∃ t g, Deliverable t g 34 ∧ (g.handler 34).isUser = true ∧
    checkSignalInterrupt t g true = false := by
  refine ⟨waiting 0 0 SIGCHLD 34, { handlesAll with
    handler := Function.update handlesAll.handler SIGCHLD .default }, ⟨.inl ?_, ?_⟩, ?_, ?_⟩
  · exact (queued_bothPending (by decide) (by decide) (by decide)).mpr (.inr rfl)
  · decide
  · decide
  · decide +kernel

/-! ### The mask after `sys_rt_sigsuspend` -/

/-- A thread with the handlers it has entered since the call and not returned from, innermost first. -/
structure Handling where
  thread : SigThread
  frames : List WrittenFrame

namespace Handling

/-- The way back to user mode: whatever is queued by now, `handle_signal` takes one signal at most, and
the process does not exit. -/
def Delivers (s s' : Handling) : Prop :=
  ∃ pending g restart writable frame g', pending.mask = s.thread.pending.mask ∧
    handleSignal { s.thread with pending := pending } g restart writable =
      .ok frame (some s'.thread, g') ∧ s'.frames = frame.toList ++ s.frames

/-- A handler runs up to its next return to user mode. `sys_sigreturn` reads the frame that was written;
any other call may do what it likes, but only `sys_rt_sigsuspend` saves a mask. -/
inductive Step : Handling → Handling → Prop
  | call {t t' frame frames s} (hsaved : t'.savedMask = t.savedMask)
      (hdelivers : Delivers ⟨t', frame :: frames⟩ s) : Step ⟨t, frame :: frames⟩ s
  | sigreturn {t t' frame frames s v} (hreturn : sysSigreturn t frame.onStack = .ok v t')
      (hdelivers : Delivers ⟨t', frames⟩ s) : Step ⟨t, frame :: frames⟩ s

/-- Whenever user code next runs outside the handlers, the mask is `original`. -/
def Restores (original : SigSet) (s : Handling) : Prop :=
  ∀ s', Relation.ReflTransGen Step s s' → s'.frames = [] → s'.thread.pending.mask = original

/-- The mask is `original` once all handlers have returned, and no other waits to be restored. -/
def Held (original : SigSet) (s : Handling) : Prop :=
  s.thread.savedMask = none ∧
    s.frames.foldl (fun _ frame ↦ frame.savedMask) s.thread.pending.mask = original

variable {s s' : Handling} {original : SigSet}

variable (h : s.Held original)
include h

theorem Held.delivers (hdelivers : s.Delivers s') : s'.Held original := by
  obtain ⟨pending, g, restart, writable, frame, g', hmask, hhandle, hframes⟩ := hdelivers
  obtain ⟨hnone, hspec⟩ := handleSignal_spec hhandle
  refine ⟨hnone h.1, ?_⟩
  rw [hframes]
  obtain ⟨rfl, hkept, -⟩ | ⟨-, -, f, rfl, hf⟩ := hspec
  · rw [hkept, hmask]
    exact h.2
  · rw [Option.toList_some, List.singleton_append, List.foldl_cons, hf, h.1, hmask]
    exact h.2

theorem Held.step (hstep : s.Step s') : s'.Held original := by
  cases hstep with
  | @call t t' frame frames _ hsaved hdelivers =>
    have hheld : Held original ⟨t', frame :: frames⟩ := ⟨hsaved.trans h.1, h.2⟩
    exact hheld.delivers hdelivers
  | @sigreturn t t' frame frames _ v hreturn hdelivers =>
    obtain ⟨v', t'', heq, hmask, hsaved⟩ := sigreturn_onStack t frame
    cases heq.symm.trans hreturn
    refine Held.delivers ⟨hsaved.trans h.1, ?_⟩ hdelivers
    rw [hmask]
    exact h.2

theorem Held.restores : s.Restores original := by
  intro s' hrun hout
  have hheld : s'.Held original := by
    clear hout
    induction hrun with
    | refl => exact h
    | tail _ hstep ih => exact ih.step hstep
  simpa [hout] using hheld.2

end Handling

/-- The mask from before `sys_rt_sigsuspend` is restored exactly if the signal that is found on its return
to user mode has a handler, or the two masks are the same. -/
theorem sigsuspend_restores_iff {t t₁ t' : SigThread} {mask : SigSet} {pending : SigPending}
    {g g' : SigGroup} {restart : Option Nat} {writable : Bool} {frame : Option WrittenFrame}
    (hcall : sysRtSigsuspend t (.value mask) sigsetSize = .err .EINTR t₁)
    (hpending : pending.mask = t₁.pending.mask)
    (hhandle : handleSignal { t₁ with pending := pending } g restart writable =
      .ok frame (some t', g')) :
    (⟨t', frame.toList⟩ : Handling).Restores t.pending.mask ↔
      (∃ sig, findPendingSignal { t₁ with pending := pending } g = some sig ∧
        (g.handler sig).isUser = true) ∨ mask.withoutKillStop = t.pending.mask := by
  cases hcall
  obtain ⟨-, ⟨rfl, hkept, hnot⟩ | ⟨hsaved, huser, f, rfl, hf⟩⟩ := handleSignal_spec hhandle
  · have hmask : t'.pending.mask = mask.withoutKillStop := hkept.trans hpending
    rw [or_iff_right fun ⟨sig, hsig, huser⟩ ↦ by simp [hnot sig hsig] at huser]
    refine ⟨fun h ↦ hmask.symm.trans (h _ .refl rfl), fun heq s' hrun _ ↦ ?_⟩
    -- user code runs at once, so there is no further step
    obtain rfl | ⟨s₁, hstep, -⟩ := hrun.cases_head
    · exact hmask.trans heq
    · cases hstep
  · exact iff_of_true (Handling.Held.restores ⟨hsaved, hf⟩) (.inl huser)

def idle (mask : SigSet) (saved : Option SigSet) : SigThread :=
  ⟨0, .withMask mask, saved, none, ⟨fun _ ↦ 0, 0⟩, none⟩

/-- `SIGUSR1` with a handler ends the wait of a thread that blocks `SIGUSR2` outside the call; `SIGCHLD`
is pending too. -/
theorem sigsuspend_handled : sysRtSigsuspend (idle (SigSet.bit 12) none) (.value 0) sigsetSize =
      .err .EINTR (idle 0 (some (SigSet.bit 12))) ∧
    ∃ t' frame g', handleSignal { idle 0 (some (SigSet.bit 12)) with
      pending := bothPending 0 10 SIGCHLD } handlesAll none true = .ok frame (some t', g') ∧
        (⟨t', frame.toList⟩ : Handling).Restores (SigSet.bit 12) := by
  obtain ⟨t', frame, g', hhandle⟩ : ∃ t' frame g', handleSignal { idle 0 (some (SigSet.bit 12)) with
      pending := bothPending 0 10 SIGCHLD } handlesAll none true = .ok frame (some t', g') :=
    ⟨_, _, _, rfl⟩
  have hiff := @sigsuspend_restores_iff (idle (SigSet.bit 12) none) _ t' 0 (bothPending 0 10 SIGCHLD)
    handlesAll g' none true frame rfl rfl hhandle
  exact ⟨rfl, t', frame, g', hhandle, hiff.mpr (.inl ⟨10, by decide +kernel, rfl⟩)⟩

/-- `SIGCONT` with its default action ends the wait, and the mask of the call stays. -/
theorem sigsuspend_continued : sysRtSigsuspend (idle (SigSet.bit 12) none) (.value 0) sigsetSize =
      .err .EINTR (idle 0 (some (SigSet.bit 12))) ∧
    ∃ s, Handling.Delivers ⟨idle 0 (some (SigSet.bit 12)), []⟩ s ∧ s.frames = [] ∧
      s.thread.pending.mask = 0 :=
  ⟨rfl, ⟨_, _⟩, ⟨bothPending 0 SIGCONT SIGCONT, ⟨.withMask 0, fun _ ↦ .default⟩, none, true, none, _,
    rfl, rfl, rfl⟩, rfl, rfl⟩

end RespOS.Signal
