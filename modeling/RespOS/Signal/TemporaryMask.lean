import RespOS.Signal.Mask

/-!
# Temporary masks

`sys_ppoll`, `sys_pselect6` and `sys_epoll_pwait` wait under a mask of their own. When
`check_signal_interrupt` finds a signal under that mask the call ends with `EINTR`; it puts the
original mask back, and `handle_signal` chooses under the original mask. (`sys_rt_sigsuspend` leaves
the choice to `handle_signal` under the temporary mask, and saves the original for the frame.)

`admitted_iff` says in which states an admitted signal reaches its handler.
`admitted_signal_stays_pending` is the ordinary use of such a call, with a signal that is blocked
outside it.

`handle_signal` takes one signal at most before the thread returns to user mode, so a signal without a
handler that is found first costs the admitted one its turn (`Delivery`). A process that exits does not
return to user mode.
-/

namespace RespOS.Signal

open SigPending Option Nat

/-! ### The signals a mask admits -/

/-- The mask lets the signal through; nothing blocks `SIGKILL` and `SIGSTOP`. -/
def SigSet.admits (mask : SigSet) (sig : Nat) : Bool :=
  !mask.containSignal sig || sig == SIGKILL || sig == SIGSTOP

def SigPending.Queued (p : SigPending) (sig : Nat) : Prop :=
  0 < sig ∧ sig ≤ MAX_SIGNUM ∧ p.pending.getLsbD (sig - 1) = true

/-- A search that finds the least element of a set, and nothing only if the set is empty. -/
def Finds : Option Nat → Set Nat → Prop
  | some sig, S => IsLeast S sig
  | none, S => S = ∅

namespace Finds

variable {found : Option Nat} {S : Set Nat} {sig x : Nat}

theorem eq_some_iff (h : Finds found S) : found = some sig ↔ IsLeast S sig := by
  cases found with
  | none =>
    obtain rfl : S = ∅ := h
    simp [IsLeast]
  | some y => exact some_inj.trans (IsLeast.isLeast_iff_eq h).symm

theorem exists_le (h : Finds found S) (hx : x ∈ S) : ∃ sig ≤ x, found = some sig := by
  cases found with
  | none =>
    obtain rfl : S = ∅ := h
    exact absurd hx (Set.notMem_empty x)
  | some y => exact ⟨y, h.2 hx, rfl⟩

end Finds

namespace SigPending

theorem finds_findSignalWithMask (p : SigPending) (mask : SigSet) :
    Finds (p.findSignalWithMask mask) {x | p.Queued x ∧ mask.admits x = true} := by
  unfold findSignalWithMask
  cases hfind : (List.range MAX_SIGNUM).find? _ with
  | none =>
    refine Set.eq_empty_iff_forall_notMem.mpr fun x ⟨⟨hpos, hmax, hbit⟩, hlets⟩ ↦ ?_
    have hnone := List.find?_eq_none.mp hfind (x - 1) (List.mem_range.mpr (by omega))
    rw [Nat.sub_add_cancel hpos, hbit, Bool.true_and] at hnone
    exact hnone hlets
  | some pos =>
    obtain ⟨hfound, hmem, hlow⟩ := List.find?_range_eq_some.mp hfind
    rw [Bool.and_eq_true] at hfound
    refine ⟨⟨⟨succ_pos pos, List.mem_range.mp hmem, hfound.1⟩, hfound.2⟩,
      fun x ⟨⟨hpos, hmax, hbit⟩, hlets⟩ ↦ not_lt.mp fun hlt : x < pos + 1 ↦ ?_⟩
    have hbelow := hlow (x - 1) (by omega)
    rw [Nat.sub_add_cancel hpos, hbit, Bool.true_and, Bool.not_eq_true'] at hbelow
    exact absurd hlets (by simp [SigSet.admits, hbelow])

end SigPending

/-! ### The interrupted call -/

def findPendingSignal (t : SigThread) (g : SigGroup) : Option Sig :=
  match t.pending.findSignal, g.pending.findSignalWithMask t.pending.mask with
  | some thread, some process => if process < thread then some process else some thread
  | some thread, none => some thread
  | none, process => process

/-- The signal is pending for the thread or for its process. -/
def Awaits (t : SigThread) (g : SigGroup) (sig : Sig) : Prop :=
  t.pending.Queued sig ∨ g.pending.Queued sig

/-- The signal is pending, and the thread does not block it. -/
def Deliverable (t : SigThread) (g : SigGroup) (sig : Sig) : Prop :=
  Awaits t g sig ∧ t.pending.mask.admits sig = true

/-- A signal arrives for the thread or for the process. -/
def post (t : SigThread) (g : SigGroup) (threadLevel : Bool) (siginfo : SigInfo) :
    SigThread × SigGroup :=
  if threadLevel then ({ t with pending := (t.pending.addSignal siginfo).1 }, g)
  else (t, { g with pending := (g.pending.addSignal siginfo).1 })

def postAll (t : SigThread) (g : SigGroup) (arrivals : List (Bool × SigInfo)) : SigThread × SigGroup :=
  arrivals.foldl (fun s a ↦ post s.1 s.2 a.1 a.2) (t, g)

/-- The call is about to return `EINTR` for `sig`: under the temporary mask it is the signal
`check_signal_interrupt` finds, and it has a handler, which `sys_sigaction` refuses for `SIGKILL` and
`SIGSTOP`. -/
structure Interrupted (original temporary : SigSet) (t : SigThread) (g : SigGroup) (sig : Sig) :
    Prop where
  poll : t.poll = some (some original)
  mask : t.pending.mask = temporary
  unsaved : t.savedMask = none
  found : findPendingSignal t g = some sig
  handled : (g.handler sig).isUser = true
  blockable : isKillOrStop sig = false

/-- How `handle_signal` ends when the thread returns to user mode: without a handler, or with the frame
for the handler of the signal it has taken. -/
inductive Delivery (restart : Option Nat) (writable : Bool) (t : SigThread) (g : SigGroup) :
    Option (Sig × WrittenFrame) → Prop
  | unframed {t' g'} : handleSignal t g restart writable = .ok none (some t', g') →
      Delivery restart writable t g none
  | handler {sig siginfo s frame t' g'} : fetchPendingSignal t g = .ok (some (sig, siginfo)) s →
      handleSignal t g restart writable = .ok (some frame) (some t', g') →
      Delivery restart writable t g (some (sig, frame))

/-- The frame as `sys_sigreturn` finds it. -/
def WrittenFrame.onStack : WrittenFrame → UserFrame
  | .normal ctx => ⟨some normalFlag, some ctx, none⟩
  | .rt ctx ucSigmask _ => ⟨some rtFlag, some ctx, some (ctx, ucSigmask)⟩

/-- The mask that `sys_sigreturn` takes from the frame. -/
def WrittenFrame.savedMask : WrittenFrame → SigSet
  | .normal ctx => ctx.mask
  | .rt _ ucSigmask _ => ucSigmask

/-- The return to user mode runs the handler of a signal that the temporary mask admits, and the return
from the handler restores the original mask. -/
def Serves (original temporary : SigSet) : Option (Sig × WrittenFrame) → Prop
  | none => False
  | some (sig, frame) => temporary.admits sig = true ∧
      ∀ t, ∃ v t', sysSigreturn t frame.onStack = .ok v t' ∧ t'.pending.mask = original

/-! ### What delivery chooses -/

section Delivered

variable {t t' : SigThread} {g g' : SigGroup} {sig : Nat} {siginfo : SigInfo}

theorem finds_findPendingSignal (t : SigThread) (g : SigGroup) :
    Finds (findPendingSignal t g) {x | Deliverable t g x} := by
  have hthread := t.pending.finds_findSignalWithMask t.pending.mask
  have hprocess := g.pending.finds_findSignalWithMask t.pending.mask
  have hunion : {x | Deliverable t g x} =
      {x | t.pending.Queued x ∧ t.pending.mask.admits x = true} ∪
        {x | g.pending.Queued x ∧ t.pending.mask.admits x = true} :=
    Set.ext fun _ ↦ or_and_right
  rw [hunion]
  unfold findPendingSignal findSignal
  generalize t.pending.findSignalWithMask _ = thread, g.pending.findSignalWithMask _ = process at *
  cases thread with
  | none =>
    rw [show _ = ∅ from hthread, Set.empty_union]
    exact hprocess
  | some thread =>
    cases process with
    | none =>
      rw [show _ = ∅ from hprocess, Set.union_empty]
      exact hthread
    | some process =>
      have hmin := IsLeast.union hthread hprocess
      dsimp only
      split_ifs with hlt
      · rwa [min_eq_right hlt.le] at hmin
      · rwa [min_eq_left (not_lt.mp hlt)] at hmin

variable {x : Nat} {fetched : Option (Sig × SigInfo)}

theorem fetchThreadSignal_spec (h : fetchThreadSignal t g = .ok fetched (t', g')) :
    t.pending.findSignal = fetched.map Prod.fst ∧ t'.pending.mask = t.pending.mask ∧
      t'.savedMask = t.savedMask ∧ g'.handler = g.handler := by
  unfold fetchThreadSignal at h
  split at h
  · rename_i hnone
    cases h
    exact ⟨hnone, rfl, rfl, rfl⟩
  · rename_i sig hfound
    split at h
    · cases h
    · rename_i hpop
      cases h
      exact ⟨hfound, mask_popSignalInfo hpop, rfl, rfl⟩

theorem fetchPendingSignal_spec (h : fetchPendingSignal t g = .ok fetched (t', g')) :
    findPendingSignal t g = fetched.map Prod.fst ∧ t'.pending.mask = t.pending.mask ∧
      t'.savedMask = t.savedMask ∧ g'.handler = g.handler := by
  unfold fetchPendingSignal at h
  unfold findPendingSignal
  split at h
  · rename_i hprocess
    obtain ⟨hfind, hkept⟩ := fetchThreadSignal_spec h
    rw [hfind, hprocess]
    cases fetched <;> exact ⟨rfl, hkept⟩
  rename_i process hprocess
  rw [hprocess]
  split_ifs at h with hlower
  · split at h
    · cases h
    · cases h
      refine ⟨?_, rfl, rfl, rfl⟩
      cases hthread : t.pending.findSignal with
      | none => rfl
      | some thread =>
        rw [hthread, all_some, decide_eq_true_eq] at hlower
        exact if_pos hlower
  · obtain ⟨hfind, hkept⟩ := fetchThreadSignal_spec h
    rw [hfind] at hlower ⊢
    cases fetched with
    | none => simp at hlower
    | some f => exact ⟨if_neg (by simpa using hlower), hkept⟩

/-! ### When the handler runs -/

variable {original temporary : SigSet} {restart : Option Nat} {writable : Bool}

theorem sigreturn_onStack (t : SigThread) (frame : WrittenFrame) :
    ∃ v t', sysSigreturn t frame.onStack = .ok v t' ∧ t'.pending.mask = frame.savedMask ∧
      t'.savedMask = t.savedMask := by
  cases frame <;> exact ⟨_, _, rfl, rfl, rfl⟩

theorem runHandler_masks (t : SigThread) (action : SigAction) (sig : Sig) (siginfo : SigInfo)
    (oldMask : SigSet) (restart : Option Nat) :
    (runHandler t action sig siginfo oldMask restart).1.savedMask = t.savedMask ∧
      (runHandler t action sig siginfo oldMask restart).2.savedMask = oldMask := by
  unfold runHandler
  split_ifs <;> exact ⟨rfl, rfl⟩

theorem handleSignal_spec {frame : Option WrittenFrame}
    (h : handleSignal t g restart writable = .ok frame (some t', g')) :
    (t.savedMask = none → t'.savedMask = none) ∧
      (frame = none ∧ t'.pending.mask = t.pending.mask ∧
          (∀ sig, findPendingSignal t g = some sig → (g.handler sig).isUser = false) ∨
        t'.savedMask = none ∧
          (∃ sig, findPendingSignal t g = some sig ∧ (g.handler sig).isUser = true) ∧
          ∃ f, frame = some f ∧ f.savedMask = t.savedMask.getD t.pending.mask) := by
  cases hfetch : fetchPendingSignal t g with
  | panic | err e s => simp [handleSignal, hfetch] at h
  | ok fetched s =>
    rw [handleSignal, hfetch] at h
    obtain ⟨hfound, hmask, hsaved, hhandler⟩ := fetchPendingSignal_spec hfetch
    cases fetched with
    | none =>
      cases h
      exact ⟨hsaved.trans, .inl ⟨rfl, hmask, by simp [hfound]⟩⟩
    | some f =>
      dsimp only at h
      rw [← hsaved, ← hmask, ← hhandler]
      have hrun := runHandler_masks { s.1 with savedMask := none } (s.2.handler f.1) f.1 f.2
        (s.1.savedMask.getD s.1.pending.mask) restart
      split_ifs at h with huser
      all_goals cases h
      · exact ⟨fun _ ↦ hrun.1, .inr ⟨hrun.1, ⟨_, hfound, huser⟩, _, rfl, hrun.2⟩⟩
      · exact ⟨fun _ ↦ hrun.1, .inr ⟨hrun.1, ⟨_, hfound, huser⟩, _, rfl, hrun.2⟩⟩
      · refine ⟨fun _ ↦ rfl, .inl ⟨rfl, rfl, fun sig hsig ↦ ?_⟩⟩
        obtain rfl := some.inj (hfound.symm.trans hsig)
        simpa using huser

theorem savedMask_postAll (arrivals : List (Bool × SigInfo)) (h : postAll t g arrivals = (t', g')) :
    t'.savedMask = t.savedMask := by
  induction arrivals generalizing t g with
  | nil =>
    cases h
    rfl
  | cons a arrivals ih =>
    refine (@ih (post t g a.1 a.2).1 (post t g a.1 a.2).2 h).trans ?_
    unfold post
    split_ifs <;> rfl

/-- An interrupted call is followed by the handler of an admitted signal exactly if the lowest pending
signal that the original mask admits has a handler and is admitted by the temporary mask. -/
theorem admitted_iff {arrivals : List (Bool × SigInfo)} {r : Option (Sig × WrittenFrame)}
    (hint : Interrupted original temporary t g sig) (harrive : postAll t g arrivals = (t', g'))
    (hdelivery : Delivery restart writable (leavePoll t' (some original)) g' r) :
    Serves original temporary r ↔
      ∃ low, IsLeast {x | Awaits t' g' x ∧ original.admits x = true} low ∧
        (g'.handler low).isUser = true ∧ temporary.admits low = true := by
  have hfinds : Finds (findPendingSignal (leavePoll t' (some original)) g')
      {x | Awaits t' g' x ∧ original.admits x = true} := finds_findPendingSignal _ g'
  have hnone : (leavePoll t' (some original)).savedMask = none :=
    (savedMask_postAll arrivals harrive).trans hint.unsaved
  cases hdelivery with
  | unframed hhandle =>
    obtain ⟨-, ⟨-, -, hnot⟩ | ⟨-, -, f, hf, -⟩⟩ := handleSignal_spec hhandle
    · refine iff_of_false id ?_
      rintro ⟨low, hlow, huser, -⟩
      simp [hnot low (hfinds.eq_some_iff.mpr hlow)] at huser
    · cases hf
  | @handler found siginfo s frame t₁ g₁ hfetch hhandle =>
    have hfound := (fetchPendingSignal_spec hfetch).1
    obtain ⟨-, ⟨hf, -⟩ | ⟨-, ⟨low, hlow, huser⟩, f, hf, hframe⟩⟩ := handleSignal_spec hhandle
    · cases hf
    · cases hf
      obtain rfl := some.inj (hlow.symm.trans hfound)
      rw [hnone] at hframe
      have hleast := hfinds.eq_some_iff.mp hlow
      refine ⟨fun h ↦ ⟨low, hleast, huser, h.1⟩, ?_⟩
      rintro ⟨low', hleast', -, hadmits⟩
      obtain rfl := hleast'.unique hleast
      refine ⟨hadmits, fun u ↦ ?_⟩
      obtain ⟨v, u', hreturn, hmask, -⟩ := sigreturn_onStack u frame
      exact ⟨v, u', hreturn, hmask.trans hframe⟩

end Delivered

/-! ### When it does not -/

section Missed

variable {original temporary mask : SigSet} {x sig y : Nat}

def bothPending (mask : SigSet) (x sig : Nat) : SigPending :=
  ⟨SigSet.bit x ||| SigSet.bit sig, mask, fun y ↦ [⟨y, 0, none⟩]⟩

def waiting (original temporary : SigSet) (x sig : Nat) : SigThread :=
  ⟨0, bothPending temporary x sig, none, some (some original), ⟨fun _ ↦ 0, 0⟩, none⟩

def handlesAll : SigGroup := ⟨.withMask 0, fun _ ↦ { SigAction.default with saHandler := 4096 }⟩

theorem queued_bothPending (hx : 0 < x) (hxs : x ≤ sig) (hs : sig ≤ MAX_SIGNUM) :
    (bothPending mask x sig).Queued y ↔ y = x ∨ y = sig := by
  unfold SigPending.Queued bothPending
  simp only [BitVec.getLsbD_or, SigSet.getLsbD_bit]
  unfold MAX_SIGNUM at *
  simp only [Bool.or_eq_true, Bool.and_eq_true, decide_eq_true_eq]
  omega

theorem find_handlesAll : handlesAll.pending.findSignalWithMask mask = none := by
  cases h : handlesAll.pending.findSignalWithMask mask with
  | none => rfl
  | some y =>
    have hbit := ((finds_findSignalWithMask _ _).eq_some_iff.mp h).1.1.2.2
    simp [handlesAll, withMask] at hbit

theorem fetch_handlesAll (t : SigThread) :
    fetchPendingSignal t handlesAll = fetchThreadSignal t handlesAll := by
  rw [fetchPendingSignal, find_handlesAll]

theorem find_bothPending (hx : 0 < x) (hxs : x ≤ sig) (hs : sig ≤ MAX_SIGNUM)
    (hy : y = x ∨ y = sig) (hlets : mask.admits y = true) (hlow : x = y ∨ mask.admits x = false) :
    (bothPending temporary x sig).findSignalWithMask mask = some y := by
  refine (finds_findSignalWithMask _ _).eq_some_iff.mpr
    ⟨⟨(queued_bothPending hx hxs hs).mpr hy, hlets⟩, fun z ⟨hq, hz⟩ ↦ ?_⟩
  rcases (queued_bothPending hx hxs hs).mp hq with rfl | rfl
  · exact (hlow.resolve_right (by simp [hz])).ge
  · omega

theorem interrupted_waiting (hx : 0 < x) (hxs : x ≤ sig) (hs : sig ≤ MAX_SIGNUM)
    (hblock : isKillOrStop sig = false) (hlets : temporary.admits sig = true)
    (hlow : x = sig ∨ temporary.admits x = false) :
    Interrupted original temporary (waiting original temporary x sig) handlesAll sig where
  poll := rfl
  mask := rfl
  unsaved := rfl
  found := by
    have hthread : (waiting original temporary x sig).pending.findSignal = some sig :=
      find_bothPending hx hxs hs (.inr rfl) hlets hlow
    rw [findPendingSignal, hthread, find_handlesAll]
  handled := rfl
  blockable := hblock

theorem delivery_nothing (restart : Option Nat) (writable : Bool) (hpos : 0 < sig)
    (hs : sig ≤ MAX_SIGNUM) (hblocked : original.admits sig = false) :
    Delivery restart writable (leavePoll (waiting original temporary sig sig) (some original))
      handlesAll none := by
  have hnone : (leavePoll (waiting original temporary sig sig) (some original)).pending.findSignal =
      none := by
    refine eq_none_iff_forall_ne_some.mpr fun y hy ↦ ?_
    obtain ⟨⟨hq, hadmits⟩, -⟩ := (finds_findSignalWithMask _ _).eq_some_iff.mp hy
    obtain rfl := or_self_iff.mp ((queued_bothPending hpos (le_refl _) hs).mp hq)
    exact absurd hadmits (by simp [leavePoll, hblocked])
  exact .unframed (by rw [handleSignal, fetch_handlesAll, fetchThreadSignal, hnone])

theorem delivery_lower (temporary : SigSet) (restart : Option Nat) (hx : 0 < x) (hxs : x < sig)
    (hs : sig ≤ MAX_SIGNUM) (hlets : original.admits x = true) :
    ∃ frame, Delivery restart true (leavePoll (waiting original temporary x sig) (some original))
      handlesAll (some (x, frame)) := by
  have hfind : (leavePoll (waiting original temporary x sig) (some original)).pending.findSignal =
      some x :=
    find_bothPending hx (le_of_lt hxs) hs (.inl rfl) hlets (.inl rfl)
  have hfetch : ∃ siginfo s, fetchPendingSignal
      (leavePoll (waiting original temporary x sig) (some original)) handlesAll =
        .ok (some (x, siginfo)) s ∧ s.2 = handlesAll := by
    rw [fetch_handlesAll, fetchThreadSignal, hfind]
    exact ⟨_, _, rfl, rfl⟩
  obtain ⟨siginfo, s, hfetch, hs2⟩ := hfetch
  have hhandle : ∃ frame t' g', handleSignal
      (leavePoll (waiting original temporary x sig) (some original)) handlesAll restart true =
        .ok (some frame) (some t', g') := by
    rw [handleSignal, hfetch]
    dsimp only
    rw [hs2]
    exact ⟨_, _, _, rfl⟩
  obtain ⟨frame, t', g', hhandle⟩ := hhandle
  exact ⟨frame, .handler hfetch hhandle⟩

/-- `SIGUSR1` and `SIGUSR2` are pending for a thread that blocks `SIGUSR2` outside the call. -/
theorem admitted_beside_blocked : ∃ r,
    Interrupted (SigSet.bit 12) 0 (waiting (SigSet.bit 12) 0 10 12) handlesAll 10 ∧
      Delivery none true (leavePoll (waiting (SigSet.bit 12) 0 10 12) (some (SigSet.bit 12))) handlesAll r ∧
      Serves (SigSet.bit 12) 0 r := by
  have hint : Interrupted (SigSet.bit 12) 0 (waiting (SigSet.bit 12) 0 10 12) handlesAll 10 :=
    ⟨rfl, rfl, rfl, by decide +kernel, rfl, by decide⟩
  obtain ⟨frame, hdelivery⟩ := @delivery_lower (SigSet.bit 12) 10 12 0 none (by decide) (by decide)
    (by decide) (by decide)
  have hfound : findPendingSignal (leavePoll (waiting (SigSet.bit 12) 0 10 12) (some (SigSet.bit 12)))
      handlesAll = some 10 := by
    decide +kernel
  have hleast := (finds_findPendingSignal _ _).eq_some_iff.mp hfound
  exact ⟨_, hint, hdelivery, (@admitted_iff _ _ _ _ _ _ _ _ _ [] _ hint rfl hdelivery).mpr
    ⟨10, hleast, rfl, by decide⟩⟩

/-- `SIGUSR1`, blocked outside the call and admitted by its empty mask, ends the call with `EINTR`; its
handler does not run, and it is still pending. -/
theorem admitted_signal_stays_pending :
    Interrupted (SigSet.bit 10) 0 (waiting (SigSet.bit 10) 0 10 10) handlesAll 10 ∧
    Delivery none true (leavePoll (waiting (SigSet.bit 10) 0 10 10) (some (SigSet.bit 10)))
      handlesAll none :=
  ⟨interrupted_waiting (by decide) (le_refl _) (by decide) (by decide) (by decide) (.inl rfl),
    delivery_nothing none true (by decide) (by decide) (by decide)⟩

end Missed

end RespOS.Signal
