import RespOS.Fs.Epoll

/-!
# The result of `ppoll`

`sys_ppoll` scans its array until an entry is ready. A round of its loop that finds none waits, and the
wait scans the array once more after the thread is published as blocked. A wait that ends in a timeout
returns 0 with whatever this scan has left in the array; `ppollLoop_count` says when the result is the
number of ready entries. The checks before the loop, which only fail, are left out.
-/

namespace RespOS.Fs

def POLLNVAL : Events := 0x020

structure PollFd where
  fd : Int
  events : Events
  revents : Events

/-- The scan of an entry, with what its file answers if the descriptor is open. -/
def PollFd.scan (p : PollFd) (file : Option EpollRound) : PollFd :=
  { p with revents := if p.fd < 0 then 0 else file.elim POLLNVAL (·.ready p.events) }

/-- `ppoll_scan_ready`: the entries with their events, and the number of those that are ready. -/
def ppollScanReady (files : Nat → Option EpollRound) : List PollFd → List PollFd × Nat
  | [] => ([], 0)
  | p :: ps =>
    let scanned := p.scan (files 0)
    let rest := ppollScanReady (fun k ↦ files (k + 1)) ps
    (scanned :: rest.1, if scanned.revents ≠ 0 then rest.2 + 1 else rest.2)

/-- What a round of the loop meets: the answers to its two scans, whether the deadline has passed after the
first scan and after the wait, whether the thread blocks (all files are event-driven), the signals before,
in and after the wait, and whether the array can be written back. -/
structure PollRound where
  files : Nat → Option EpollRound
  recheck : Nat → Option EpollRound
  expired : Bool
  timedOut : Bool
  blocks : Bool
  interrupted : Bool
  woken : Bool
  signalled : Bool
  writable : Bool

/-- `ppoll_write_back`. -/
def PollRound.writeBack (r : PollRound) (n : Nat) (ps : List PollFd) : Except Errno (Nat × List PollFd) :=
  if ps.isEmpty ∨ r.writable then .ok (n, ps) else .error .EFAULT

/-- The loop of `sys_ppoll`, with the array that is written back; none if it is still waiting. -/
def ppollLoop (timeout : Option Nat) :
    List PollRound → List PollFd → Option (Except Errno (Nat × List PollFd))
  | [], _ => none
  | r :: rounds, ps =>
    let (ps₁, ready) := ppollScanReady r.files ps
    if 0 < ready then some (r.writeBack ready ps₁)
    else if timeout.any fun t ↦ t = 0 ∨ r.expired then some (r.writeBack 0 ps₁)
    else if r.interrupted then some (.error .EINTR)
    else if r.blocks then
      -- `block_for_poll`
      let ps₂ := (ppollScanReady r.recheck ps₁).1
      if r.woken then some (.error .EINTR)
      else if timeout.isSome ∧ r.timedOut then some (r.writeBack 0 ps₂)
      else if r.signalled then some (.error .EINTR)
      else ppollLoop timeout rounds ps₂
    else if r.signalled then some (.error .EINTR)
    else ppollLoop timeout rounds ps₁

variable {ps written : List PollFd} {files files' : Nat → Option EpollRound} {n m : Nat}

def readyCount (ps : List PollFd) : Nat := ps.countP (·.revents ≠ 0)

theorem readyCount_scan : readyCount (ppollScanReady files ps).1 = (ppollScanReady files ps).2 := by
  induction ps generalizing files with
  | nil => rfl
  | cons p ps ih => simp [readyCount, ppollScanReady, List.countP_cons, ← ih, apply_ite]

theorem scan_scan :
    ppollScanReady files (ppollScanReady files' ps).1 = ppollScanReady files ps := by
  induction ps generalizing files files' with
  | nil => rfl
  | cons p ps ih => simp [ppollScanReady, PollFd.scan, ih]

theorem of_writeBack {r : PollRound} (h : some (r.writeBack m ps) = some (.ok (n, written))) :
    m = n ∧ ps = written := by
  unfold PollRound.writeBack at h
  split_ifs at h
  · simpa using h
  · simp at h

/-- The deadline has passed after the wait of the round. -/
def PollRound.TimesOut (timeout : Option Nat) (ps : List PollFd) (r : PollRound) : Prop :=
  (ppollScanReady r.files ps).2 = 0 ∧ (timeout.any fun t ↦ t = 0 ∨ r.expired) = false ∧
    r.blocks = true ∧ timeout.isSome ∧ r.timedOut = true

theorem forall_reached_cons {timeout : Option Nat} {r : PollRound} {rounds : List PollRound}
    {P : PollRound → Prop} :
    (∀ before r', before ++ [r'] <+: r :: rounds → ppollLoop timeout before ps = none → P r') ↔
      P r ∧ ∀ before r', before ++ [r'] <+: rounds → ppollLoop timeout (r :: before) ps = none → P r' := by
  constructor
  · exact fun h ↦ ⟨h [] r (by simp) rfl, fun before r' hb ↦ h (r :: before) r' (by simpa using hb)⟩
  · rintro ⟨hr, h⟩ before r' hb hnone
    rcases before with - | ⟨b, before⟩
    · obtain rfl : r' = r := by simpa using hb
      exact hr
    · rw [List.cons_append, List.cons_prefix_cons] at hb
      obtain ⟨rfl, hb⟩ := hb
      exact h before r' hb hnone

/-- The result is the number of ready entries of the array that is written back, if and only if in no
round that the call reaches the second scan of a wait that ends in a timeout found one. -/
theorem ppollLoop_count {timeout : Option Nat} {rounds : List PollRound}
    (h : ppollLoop timeout rounds ps = some (.ok (n, written))) :
    n = readyCount written ↔ ∀ before r, before ++ [r] <+: rounds → ppollLoop timeout before ps = none →
      r.TimesOut timeout ps → (ppollScanReady r.recheck ps).2 = 0 := by
  induction rounds generalizing ps with
  | nil => simp [ppollLoop] at h
  | cons r rounds ih =>
    rw [forall_reached_cons]
    simp only [ppollLoop, PollRound.TimesOut] at h ih ⊢
    split_ifs at h ⊢ with hready hexpired hsignal hblocks hwoken htimeout hsignalled hsignalled
    · obtain ⟨rfl, rfl⟩ := of_writeBack h
      exact iff_of_true readyCount_scan.symm ⟨fun ht ↦ absurd ht.1 hready.ne', fun _ _ _ hf ↦ hf.elim⟩
    · obtain ⟨rfl, rfl⟩ := of_writeBack h
      refine iff_of_true ?_ ⟨fun ht ↦ absurd (ht.2.1.symm.trans hexpired) (by decide),
        fun _ _ _ hf ↦ hf.elim⟩
      rw [readyCount_scan]
      omega
    · simp at h
    · simp at h
    · obtain ⟨rfl, rfl⟩ := of_writeBack h
      rw [scan_scan, readyCount_scan]
      refine ⟨fun hzero ↦ ⟨fun _ ↦ hzero.symm, fun _ _ _ hf ↦ hf.elim⟩, fun hquiet ↦ (hquiet.1 ?_).symm⟩
      exact ⟨by omega, Bool.not_eq_true _ ▸ hexpired, hblocks, htimeout⟩
    · simp at h
    · simp only [ih h, scan_scan]
      exact ⟨fun hall ↦ ⟨fun ht ↦ absurd ht.2.2.2 htimeout, hall⟩, And.right⟩
    · simp at h
    · simp only [ih h, scan_scan]
      exact ⟨fun hall ↦ ⟨fun ht ↦ absurd ht.2.2.1 hblocks, hall⟩, And.right⟩

/-- A wait for one descriptor that ends in a timeout; in the second scan it is readable or not. -/
def timedOutRound (readable : Bool) : PollRound :=
  ⟨fun _ ↦ some ⟨false, false, false, false, false, false⟩,
    fun _ ↦ some ⟨readable, false, false, false, false, false⟩,
    false, true, true, false, false, false, true⟩

theorem quiet_timeout : ∃ ps, ppollLoop (some 1) [timedOutRound false] [⟨3, EPOLLIN, 0⟩] =
    some (.ok (0, ps)) ∧ 0 = readyCount ps := by
  refine ⟨[⟨3, EPOLLIN, 0⟩], ?hreturns, (ppollLoop_count ?hreturns).mpr fun before r hb _ _ ↦ ?hquiet⟩
  · rfl
  · obtain ⟨-, rfl⟩ : before = [] ∧ r = timedOutRound false := by
      simpa [List.prefix_cons_iff, List.append_eq_singleton_iff] using hb
    rfl

/-- The descriptor becomes readable before the second scan, and the deadline passes: the result is 0, and the
array that is written back has a ready entry. -/
theorem ready_at_timeout : ppollLoop (some 1) [timedOutRound true] [⟨3, EPOLLIN, 0⟩] =
      some (.ok (0, [⟨3, EPOLLIN, EPOLLIN⟩])) ∧ readyCount [⟨3, EPOLLIN, EPOLLIN⟩] = 1 :=
  ⟨rfl, rfl⟩

end RespOS.Fs
