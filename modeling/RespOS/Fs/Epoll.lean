import RespOS.Base
import RespOS.Basis.Runs

/-!
# Edge-triggered epoll

One interest of an epoll file, as the loops of `scan_ready` and `commit_ready` treat it. The scan of an
interest with `EPOLLET` reports the ready bits that are not in `last_ready`, which is replaced as a
whole: when a report is committed, and when no bit is ready. `edge_reported_iff` says when a bit that
was away for some rounds is reported when it comes back.

The last part has the other threads: `commit_ready` recognises an interest by its key and generation, which
recur when it is removed and added again. `commit_of_run` says when the commit is right.
-/

namespace RespOS.Fs

open RespOS.Basis Option

abbrev Events := BitVec 32

def EPOLLIN : Events := 0x001
def EPOLLOUT : Events := 0x004
def EPOLLERR : Events := 0x008
def EPOLLHUP : Events := 0x010
def EPOLLRDHUP : Events := 0x2000
def EPOLLONESHOT : Events := 1 <<< 30
def EPOLLET : Events := 1 <<< 31

/-- What the file answers to a scan, and whether a report is copied to the user and committed. -/
structure EpollRound where
  readReady : Bool
  writeReady : Bool
  pollError : Bool
  pollHup : Bool
  pollRdhup : Bool
  copied : Bool

def EpollRound.ready (r : EpollRound) (events : Events) : Events :=
  (if events &&& EPOLLIN ≠ 0 ∧ r.readReady then EPOLLIN else 0) |||
    (if events &&& EPOLLOUT ≠ 0 ∧ r.writeReady then EPOLLOUT else 0) |||
    (if r.pollError then EPOLLERR else 0) ||| (if r.pollHup then EPOLLHUP else 0) |||
    (if events &&& EPOLLRDHUP ≠ 0 ∧ r.pollRdhup then EPOLLRDHUP else 0)

structure EpollInterest where
  events : Events
  lastReady : Events
  disabled : Bool

namespace EpollInterest

variable (i : EpollInterest) (r : EpollRound)

def report : Events :=
  if i.disabled then 0
  else if i.events &&& EPOLLET ≠ 0 then r.ready i.events &&& ~~~i.lastReady else r.ready i.events

def reported : Events := i.report r &&& (i.events ||| EPOLLERR ||| EPOLLHUP)

/-- The interest after `scan_ready` and, if a report is copied out, `commit_ready`. -/
def round : EpollInterest :=
  let scanned := if ¬ i.disabled ∧ i.events &&& EPOLLET ≠ 0 ∧ r.ready i.events = 0 then
    { i with lastReady := 0 } else i
  if i.report r ≠ 0 ∧ r.copied then
    { scanned with
      lastReady := if i.events &&& EPOLLET ≠ 0 then r.ready i.events else i.lastReady
      disabled := i.disabled || i.events &&& EPOLLONESHOT ≠ 0 }
  else scanned

/-- The round replaces `last_ready`. -/
def Refreshes : Prop := r.ready i.events = 0 ∨ i.report r ≠ 0 ∧ r.copied = true

variable {i r} {b : Nat} {rounds : List EpollRound}

theorem disabled_of_round (h : (i.round r).disabled = false) : i.disabled = false := by
  unfold EpollInterest.round at h
  split_ifs at h <;> simp_all

theorem disabled_of_foldl (h : (rounds.foldl round i).disabled = false) : i.disabled = false := by
  induction rounds generalizing i with
  | nil => exact h
  | cons r rounds ih => exact disabled_of_round (ih h)

theorem round_eq (hedge : i.events &&& EPOLLET ≠ 0) (hlive : (i.round r).disabled = false) :
    i.Refreshes r ∧ i.round r = { i with lastReady := r.ready i.events } ∨
      ¬ i.Refreshes r ∧ i.round r = i := by
  have henabled := disabled_of_round hlive
  unfold Refreshes
  unfold EpollInterest.round at hlive ⊢
  by_cases hnone : r.ready i.events = 0
  · have hreport : i.report r = 0 := by simp [report, hnone]
    rw [if_neg fun hc ↦ hc.1 hreport, if_pos ⟨by simp [henabled], hedge, hnone⟩, hnone]
    exact .inl ⟨.inl rfl, rfl⟩
  rw [if_neg fun hc : ¬ i.disabled ∧ _ ↦ hnone hc.2.2] at hlive ⊢
  by_cases hcommit : i.report r ≠ 0 ∧ r.copied = true
  · rw [if_pos hcommit] at hlive ⊢
    rw [if_pos hedge, show (i.disabled || _) = _ from hlive, ← henabled]
    exact .inl ⟨.inr hcommit, rfl⟩
  · rw [if_neg hcommit]
    exact .inr ⟨fun hrefresh ↦ hrefresh.elim hnone hcommit, rfl⟩

theorem forgets (hedge : i.events &&& EPOLLET ≠ 0) (hlive : (rounds.foldl round i).disabled = false)
    (haway : ∀ r ∈ rounds, (r.ready i.events).getLsbD b = false) :
    (rounds.foldl round i).events = i.events ∧ ((rounds.foldl round i).lastReady.getLsbD b = false ↔
      i.lastReady.getLsbD b = false ∨ ∃ r ∈ rounds, i.Refreshes r) := by
  induction rounds generalizing i with
  | nil => simp
  | cons r rounds ih =>
    obtain ⟨hr, haway⟩ := List.forall_mem_cons.mp haway
    simp only [List.foldl_cons, List.mem_cons, exists_eq_or_imp] at hlive ⊢
    rcases round_eq hedge (disabled_of_foldl hlive) with ⟨hrefresh, heq⟩ | ⟨hkept, heq⟩
    · obtain ⟨hevents, hiff⟩ := ih (i := i.round r) (heq ▸ hedge) hlive (heq ▸ haway)
      refine ⟨hevents.trans (heq ▸ rfl), iff_of_true (hiff.mpr (.inl ?_)) (.inr (.inl hrefresh))⟩
      rw [heq]
      exact hr
    · rw [heq, or_iff_right hkept]
      exact ih hedge (heq ▸ hlive) haway

/-- A bit of the mask that was away in some rounds and is ready again is reported if and only if it was not
remembered or one of these rounds replaced `last_ready`. The interest is still enabled: with `EPOLLONESHOT`
it has not reported yet. -/
theorem edge_reported_iff (hedge : i.events &&& EPOLLET ≠ 0)
    (hlive : (rounds.foldl round i).disabled = false)
    (hmask : (i.events ||| EPOLLERR ||| EPOLLHUP).getLsbD b = true)
    (haway : ∀ r ∈ rounds, (r.ready i.events).getLsbD b = false)
    (hback : (r.ready i.events).getLsbD b = true) :
    ((rounds.foldl round i).reported r).getLsbD b = true ↔
      i.lastReady.getLsbD b = false ∨ ∃ r ∈ rounds, i.Refreshes r := by
  obtain ⟨hevents, hiff⟩ := forgets hedge hlive haway
  rw [← hiff, reported, report, hlive, if_neg Bool.false_ne_true, hevents, if_pos hedge,
    BitVec.getLsbD_and, hmask, BitVec.getLsbD_and, hback, BitVec.getLsbD_not]
  simp [BitVec.lt_of_getLsbD hback]

/-- `EPOLLIN` goes away and comes back while no bit is ready in between. -/
theorem edge_reported_after_quiet : ((List.foldl round ⟨EPOLLET ||| EPOLLONESHOT ||| EPOLLIN, EPOLLIN, false⟩
    [⟨false, true, false, false, false, true⟩]).reported
      ⟨true, true, false, false, false, true⟩).getLsbD 0 = true :=
  (edge_reported_iff (by decide) (by decide) (by decide) (by decide) (by decide)).mpr
    (.inr ⟨_, List.mem_singleton_self _, .inl rfl⟩)

/-- `EPOLLIN` goes away and comes back while `EPOLLOUT` stays ready: nothing is reported. -/
theorem edge_missed :
    let i : EpollInterest := ⟨EPOLLET ||| EPOLLIN ||| EPOLLOUT, 0, false⟩
    let both : EpollRound := ⟨true, true, false, false, false, true⟩
    let i₁ := i.round both
    let i₂ := i₁.round { both with readReady := false }
    i.reported both = EPOLLIN ||| EPOLLOUT ∧ i₁.reported { both with readReady := false } = 0 ∧
      i₂.reported both = 0 := by
  decide

end EpollInterest

/-! ### The commit of a report

A thread copies its reports to the user between the scan and the commit, while `epoll_ctl` may run. What the
table has under one key is followed, with the report of it that each thread has still to commit. -/

structure Registration extends EpollInterest where
  generation : Nat

/-- A report, as far as the commit reads it. `current` is not in the code: the interest has been neither
removed nor modified since the scan. -/
structure EpollReady where
  observedReady : Events
  generation : Nat
  current : Bool

structure EpollTable where
  interest : Option Registration := none
  ready : Nat → Option EpollReady := fun _ ↦ none

/-- `ctl` adds or modifies. An interest is also removed when its file is closed, and a thread drops a report
that it cannot copy and that of the scan after it decided to sleep. -/
inductive EpollAction
  | ctl (modifies : Bool) (events : Events)
  | remove
  | scan (t : Nat) (r : EpollRound)
  | commit (t : Nat)
  | drop (t : Nat)

namespace EpollTable

variable (s : EpollTable)

/-- The generation is 0 in an addition and counted on in a modification. -/
def nextGeneration : Nat := s.interest.elim 0 fun i ↦ (i.generation + 1) % usizeSize

def write (interest : Option Registration) : EpollTable where
  interest := interest
  ready t := (s.ready t).map fun e ↦ { e with current := false }

def setReady (t : Nat) (e : Option EpollReady) (interest : Option Registration) : EpollTable :=
  ⟨interest, Function.update s.ready t e⟩

def committed (e : EpollReady) (i : Registration) : Registration :=
  if i.generation ≠ e.generation then i else
    { i with
      lastReady := if i.events &&& EPOLLET ≠ 0 then e.observedReady else i.lastReady
      disabled := i.disabled || i.events &&& EPOLLONESHOT ≠ 0 }

def next : EpollAction → EpollTable
  -- otherwise EEXIST or ENOENT
  | .ctl modifies events => if s.interest.isSome = modifies then
      s.write (some ⟨⟨events, 0, false⟩, s.nextGeneration⟩) else s
  | .remove => s.write none
  | .scan t r => s.setReady t
      (s.interest.bind fun i ↦ if i.report r = 0 then none else
        some ⟨r.ready i.events, i.generation, true⟩)
      (s.interest.map fun i ↦ { i with toEpollInterest := i.round { r with copied := false } })
  | .commit t => s.setReady t none (s.interest.map ((s.ready t).elim id committed))
  | .drop t => s.setReady t none s.interest

/-- No interest is written under a generation that a report under way has. -/
def Distinct : EpollAction → Prop
  | .ctl .. => ∀ t e, s.ready t = some e → e.generation ≠ s.nextGeneration
  | _ => True

/-- A report with the generation of the interest is about it. -/
def Tagged : Prop :=
  ∀ t e i, s.ready t = some e → s.interest = some i → i.generation = e.generation → e.current = true

variable {s}

theorem of_setReady {t u : Nat} {e : EpollReady} {new : Option EpollReady} {i : Option Registration}
    (h : (s.setReady u new i).ready t = some e) : s.ready t = some e ∨ new = some e := by
  simp only [setReady, Function.update_apply] at h
  split_ifs at h
  · exact .inr h
  · exact .inl h

theorem Tagged.next {a : EpollAction} (hs : s.Tagged) (hok : s.Distinct a) : (s.next a).Tagged := by
  intro t e i he hi hgen
  cases a with
  | ctl modifies events =>
    simp only [EpollTable.next] at he hi
    split_ifs at he hi
    · obtain ⟨e₀, he₀, rfl⟩ := map_eq_some_iff.mp he
      obtain rfl := some.inj hi
      exact absurd hgen.symm (hok t e₀ he₀)
    · exact hs t e i he hi hgen
  | remove => nomatch hi
  | scan u r =>
    obtain ⟨i₀, hi₀, rfl⟩ := map_eq_some_iff.mp hi
    rcases of_setReady he with hold | hnew
    · exact hs t e i₀ hold hi₀ hgen
    obtain ⟨_, -, heq⟩ := bind_eq_some_iff.mp hnew
    split_ifs at heq
    obtain rfl := some.inj heq
    rfl
  | commit u =>
    obtain ⟨i₀, hi₀, rfl⟩ := map_eq_some_iff.mp hi
    refine hs t e i₀ ((of_setReady he).resolve_right nofun) hi₀ ?_
    cases hu : s.ready u with
    | none => simpa [hu] using hgen
    | some e' =>
      simp only [hu, elim_some, committed] at hgen
      split_ifs at hgen <;> exact hgen
  | drop u => exact hs t e i ((of_setReady he).resolve_right nofun) hi hgen

/-- In every run in which no interest is written under a generation that a report under way has, a commit changes
the interest only if it was neither removed nor modified since the scan; and what a call writes starts with no
ready bit and enabled. -/
theorem commit_of_run (hrun : Run (· = ({} : EpollTable)) Distinct (fun s a s' ↦ s' = s.next a) s) :
    (∀ t, (s.next (.commit t)).interest ≠ s.interest → ∃ e, s.ready t = some e ∧ e.current = true) ∧
    ∀ events, ∃ i, (s.next (.ctl s.interest.isSome events)).interest = some i ∧ i.lastReady = 0 ∧
      i.disabled = false := by
  have hs : s.Tagged := hrun.invariant (fun s hs t e i he ↦ by simp [hs] at he)
    fun s a s' hs hok heq ↦ heq ▸ hs.next hok
  refine ⟨fun t hne ↦ ?_, fun events ↦ ⟨_, by simp [next, write]; rfl, rfl, rfl⟩⟩
  cases he : s.ready t with
  | none => simp [next, setReady, he] at hne
  | some e =>
    cases hi : s.interest with
    | none => simp [next, setReady, hi] at hne
    | some i =>
      refine ⟨e, rfl, hs t e i he hi (by_contra fun hgen ↦ hne ?_)⟩
      simp [next, setReady, he, hi, committed, hgen]

/-- An edge-triggered interest that was found ready. -/
def scanned : EpollTable :=
  (({} : EpollTable).next (.ctl false (EPOLLET ||| EPOLLIN))).next
    (.scan 0 ⟨true, false, false, false, false, true⟩)

theorem commit_of_scanned : ∃ e, scanned.ready 0 = some e ∧ e.current = true := by
  have hadded : ({} : EpollTable).Distinct (.ctl false (EPOLLET ||| EPOLLIN)) := fun _ _ h ↦ nomatch h
  exact (commit_of_run (.next (.scan 0 _) (.next _ (.start rfl) hadded rfl) trivial rfl)).1 0
    fun h ↦ absurd (congrArg (·.map (·.lastReady)) h) (by decide)

/-- The interest is removed and added again before the commit, which ends the edge of the new one. -/
theorem commit_of_readded :
    let s := (scanned.next .remove).next (.ctl false (EPOLLET ||| EPOLLIN))
    Run (· = ({} : EpollTable)) (fun _ _ ↦ True) (fun s a s' ↦ s' = s.next a) s ∧
      (s.ready 0).map (·.current) = some false ∧ s.interest.map (·.lastReady) = some 0 ∧
      (s.next (.commit 0)).interest.map (·.lastReady) = some EPOLLIN :=
  ⟨.next _ (.next _ (.next _ (.next _ (.start rfl) trivial rfl) trivial rfl) trivial rfl) trivial rfl,
    by decide⟩

end EpollTable

end RespOS.Fs
