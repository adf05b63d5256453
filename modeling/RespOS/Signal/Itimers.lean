import RespOS.Base
import RespOS.Basis.Runs

/-!
# Interval timers (`task/task.rs`)

The deadlines of a process are atomics that its threads and the checks of all harts share, and
`ACTIVE_ITIMER_TASKS` says which processes the checks look at. A hart takes one access at a time here,
so any interleaving is a run. `active_of_run` says in which runs an armed timer is checked.
`unregistered` has a run for each condition in which one is lost.
-/

namespace RespOS.Signal

open RespOS.Basis Function

/-- Where a hart stands in `set_itimer_ms` or `check_active_itimers`; a loop over the timers has those that
are left. After `hasActive []` the tgid is removed, and `lookup` is before the look into `TASK_MANAGER`. -/
inductive ItimerPc
  | idle
  | storeInterval (which : Fin 3) (deadline intervalMs : Nat)
  | register (deadline : Nat)
  | hasActive (left : List (Fin 3))
  | lookup
  | check (left : List (Fin 3))
  | loadInterval (which : Fin 3) (deadline : Nat) (left : List (Fin 3))
  | exchange (which : Fin 3) (deadline nextDeadline : Nat) (left : List (Fin 3))
  deriving DecidableEq

/-- The timers of a process, whether its tgid is in `ACTIVE_ITIMER_TASKS` and in `TASK_MANAGER`, and the
harts. -/
structure TaskTimers (H : Type) where
  deadlineMs : Fin 3 → Nat := fun _ ↦ 0
  intervalMs : Fin 3 → Nat := fun _ ↦ 0
  active : Bool := false
  leader : Bool := true
  pc : H → ItimerPc := fun _ ↦ .idle

/-- A call runs up to its first access that others see; a thread other than the leader leaves nothing when it
exits. -/
inductive ItimerAction (H : Type)
  | set (h : H) (which : Fin 3) (valueMs intervalMs nowMs : Nat)
  | check (h : H)
  | step (h : H) (nowMs : Nat)
  | exit (leader : Bool)

namespace TaskTimers

variable {H : Type} [DecidableEq H] (s : TaskTimers H)

def timeoutAfter (nowMs ms : Nat) : Nat := if ms = 0 then 0 else saturatingAdd nowMs ms

def move (h : H) (p : ItimerPc) : TaskTimers H := { s with pc := update s.pc h p }

def advance (h : H) (nowMs : Nat) : ItimerPc → TaskTimers H
  | .idle => s
  | .storeInterval w d i => { s with intervalMs := update s.intervalMs w i }.move h (.register d)
  | .register d => if d ≠ 0 then { s with active := true }.move h .idle else s.move h (.hasActive [0, 1, 2])
  | .hasActive [] => { s with active := false }.move h .idle
  | .hasActive (w :: left) => s.move h (if s.deadlineMs w ≠ 0 then .idle else .hasActive left)
  | .lookup => s.move h (if s.leader then .check [0, 1, 2] else .hasActive [])
  | .check [] => s.move h (.hasActive [0, 1, 2])
  | .check (w :: left) => s.move h
      (if s.deadlineMs w = 0 ∨ nowMs < s.deadlineMs w then .check left
        else .loadInterval w (s.deadlineMs w) left)
  | .loadInterval w d left => s.move h (.exchange w d (timeoutAfter nowMs (s.intervalMs w)) left)
  | .exchange w d d' left =>
    { s with deadlineMs := if s.deadlineMs w = d then update s.deadlineMs w d' else s.deadlineMs }.move h
      (.check left)

def next : ItimerAction H → TaskTimers H
  | .set h w valueMs intervalMs nowMs => if s.pc h ≠ .idle then s else
      let d := timeoutAfter nowMs valueMs
      { s with deadlineMs := update s.deadlineMs w d }.move h (.storeInterval w d intervalMs)
  | .check h => if s.pc h = .idle ∧ s.active then s.move h .lookup else s
  | .step h nowMs => s.advance h nowMs (s.pc h)
  | .exit leader => { s with leader := s.leader && !leader }

/-- What a hart knows of the deadlines `d`. -/
def Knows (d : Fin 3 → Nat) : ItimerPc → Prop
  | .hasActive left => ∀ w ∉ left, d w = 0
  | .loadInterval _ d' _ | .exchange _ d' _ _ => d' ≠ 0
  | _ => True

/-- No timer is armed while a hart tests for an active one or has found none, and the leader stays. -/
def Apart : ItimerAction H → Prop
  | .set _ _ valueMs _ _ => valueMs = 0 ∨ ∀ h left, s.pc h ≠ .hasActive left
  | .exit leader => leader = false
  | _ => True

/-- The hart has stored a deadline and will insert the tgid. -/
def Inserts : ItimerPc → Prop
  | .storeInterval _ d _ | .register d => d ≠ 0
  | _ => False

structure Registered : Prop where
  knows : ∀ h, Knows s.deadlineMs (s.pc h)
  active : ∀ w, s.deadlineMs w ≠ 0 → s.active = true ∨ ∃ h, Inserts (s.pc h)
  leader : s.leader = true

variable {s}

theorem Knows.mono {d d' : Fin 3 → Nat} (h : ∀ w, d w = 0 → d' w = 0) {p : ItimerPc} (hp : Knows d p) :
    Knows d' p := by
  cases p with
  | hasActive left => exact fun w hw ↦ h w (hp w hw)
  | _ => exact hp

theorem knows_all (d : Fin 3 → Nat) : Knows d (.hasActive [0, 1, 2]) := by
  intro w hw
  exact absurd ((by decide : ∀ w : Fin 3, w ∈ [0, 1, 2]) w) hw

section

variable (hs : s.Registered)
include hs

theorem Registered.write (h : H) {p : ItimerPc} {d i : Fin 3 → Nat} {a : Bool}
    (hknows : ∀ g, Knows d (s.pc g)) (hp : Knows d p)
    (ha : ∀ w, d w ≠ 0 → a = true ∨ Inserts p ∨ s.deadlineMs w ≠ 0 ∧ a = s.active ∧ ¬ Inserts (s.pc h)) :
    Registered { s with deadlineMs := d, intervalMs := i, active := a, pc := update s.pc h p } where
  knows g := by
    simp only [update_apply]
    split_ifs
    exacts [hp, hknows g]
  active w hw := by
    rcases ha w hw with ha | hp | ⟨hold, rfl, hh⟩
    · exact .inl ha
    · exact .inr ⟨h, by simpa using hp⟩
    · refine (hs.active w hold).imp_right fun ⟨g, hg⟩ ↦ ⟨g, ?_⟩
      have hne : g ≠ h := fun heq ↦ hh (heq ▸ hg)
      simpa [hne] using hg
  leader := hs.leader

theorem Registered.move {h : H} {p : ItimerPc} {d : Fin 3 → Nat}
    (hzero : ∀ w, s.deadlineMs w = 0 → d w = 0) (hp : Knows d p) (hh : ¬ Inserts (s.pc h)) :
    ({ s with deadlineMs := d }.move h p).Registered :=
  hs.write h (fun g ↦ (hs.knows g).mono hzero) hp fun v hv ↦ .inr (.inr ⟨mt (hzero v) hv, rfl, hh⟩)

theorem Registered.advance (h : H) (nowMs : Nat) : (s.advance h nowMs (s.pc h)).Registered := by
  have hknows := hs.knows h
  have hmove {p : ItimerPc} (hp : Knows s.deadlineMs p) := hs.move (h := h) (fun _ ↦ id) hp
  cases hpc : s.pc h with rw [hpc] at hknows hmove
  | idle => exact hs
  | storeInterval w d i =>
    refine hs.write h hs.knows trivial fun w hw ↦ ?_
    by_cases hd : d = 0
    · exact .inr (.inr ⟨hw, rfl, by simp [hpc, Inserts, hd]⟩)
    · exact .inr (.inl hd)
  | register d =>
    simp only [TaskTimers.advance]
    split_ifs with hd
    · exact hs.write h hs.knows trivial fun _ _ ↦ .inl rfl
    · exact hmove (knows_all _) hd
  | hasActive left =>
    cases left with
    | nil => exact hs.write h hs.knows trivial fun w hw ↦ absurd (hknows w nofun) hw
    | cons w left =>
      refine hmove ?_ id
      split_ifs with hw
      · trivial
      · intro w' hw'
        by_cases heq : w' = w
        · exact heq ▸ not_not.mp hw
        · exact hknows w' (by simp [heq, hw'])
  | lookup => exact hmove (by simp [hs.leader, Knows]) id
  | check left =>
    cases left with
    | nil => exact hmove (knows_all _) id
    | cons w left =>
      refine hmove ?_ id
      split_ifs with hw
      · trivial
      · exact fun h0 ↦ hw (.inl h0)
  | loadInterval w d left => exact hmove hknows id
  | exchange w d d' left =>
    have hzero : ∀ v, s.deadlineMs v = 0 →
        (if s.deadlineMs w = d then update s.deadlineMs w d' else s.deadlineMs) v = 0 := by
      intro v hv
      split_ifs with hw
      · have hne : v ≠ w := fun heq ↦ hknows (hw ▸ heq ▸ hv)
        simpa [hne] using hv
      · exact hv
    exact hs.move hzero trivial (by simp [hpc, Inserts])

theorem Registered.next {a : ItimerAction H} (hok : s.Apart a) : (s.next a).Registered := by
  cases a with
  | set h w valueMs intervalMs nowMs =>
    simp only [TaskTimers.next]
    split_ifs with hidle
    · exact hs
    have hnot : ¬ Inserts (s.pc h) := by simp [not_not.mp hidle, Inserts]
    by_cases hd : timeoutAfter nowMs valueMs = 0
    · have hzero : ∀ v, s.deadlineMs v = 0 → update s.deadlineMs w (timeoutAfter nowMs valueMs) v = 0 := by
        intro v hv
        by_cases heq : v = w <;> simp [heq, hd, hv]
      exact hs.move hzero trivial hnot
    · refine hs.write h (fun g ↦ ?_) trivial fun _ _ ↦ .inr (.inl hd)
      -- arming is apart from every test, so nothing read is out of date
      have htest := hok.resolve_left (fun h0 ↦ hd (if_pos h0)) g
      have hg := hs.knows g
      cases hpc : s.pc g with rw [hpc] at hg
      | hasActive left => exact absurd hpc (htest left)
      | _ => exact hg
  | check h =>
    simp only [TaskTimers.next]
    split_ifs with hc
    · exact hs.move (fun _ ↦ id) trivial (by simp [hc.1, Inserts])
    · exact hs
  | step h nowMs => exact hs.advance h nowMs
  | exit leader =>
    obtain rfl : leader = false := hok
    exact ⟨hs.knows, hs.active, by simp [TaskTimers.next, hs.leader]⟩

end

/-- In every run in which no timer is armed between a test for an active one and the removal, and the leader
stays, a process with an armed timer is registered once no call is under way, and a check looks at its
timers. -/
theorem active_of_run (hrun : Run (· = ({} : TaskTimers H)) Apart (fun s a s' ↦ s' = s.next a) s)
    (hidle : ∀ h, s.pc h = .idle) {w : Fin 3} (hw : s.deadlineMs w ≠ 0) :
    s.active = true ∧ ∀ h nowMs, ((s.next (.check h)).next (.step h nowMs)).pc h = .check [0, 1, 2] := by
  have hs : s.Registered := by
    refine hrun.invariant (fun s hs ↦ ?_) fun s a s' hs hok heq ↦ heq ▸ hs.next hok
    subst hs
    exact ⟨fun _ ↦ trivial, fun w hw ↦ absurd rfl hw, rfl⟩
  have hactive : s.active = true := by
    rcases hs.active w hw with h | ⟨h, hh⟩
    · exact h
    · simp [hidle h, Inserts] at hh
  exact ⟨hactive, fun h nowMs ↦ by simp [next, move, advance, hidle h, hactive, hs.leader]⟩

def arm (h : H) (valueMs nowMs : Nat) : List (ItimerAction H) :=
  [.set h 0 valueMs 0 nowMs, .step h nowMs, .step h nowMs]

def afterCheck (n : Nat) : TaskTimers Bool :=
  List.foldl next {} (arm false 5 0 ++ .check true :: List.replicate n (.step true 1))

/-- A timer is armed on one hart, and a check on another one runs before it is due. -/
theorem active_of_alarm : (afterCheck 6).active = true := by
  have hok : ({} : TaskTimers Bool).Apart (.set false 0 5 0 0) := .inr nofun
  have hrun : ∀ n, Run (· = ({} : TaskTimers Bool)) Apart (fun s a s' ↦ s' = s.next a) (afterCheck n) := by
    intro n
    induction n with
    | zero =>
      exact .next (.check true) (.next (.step false 0) (.next (.step false 0)
        (.next _ (.start rfl) hok rfl) trivial rfl) trivial rfl) trivial rfl
    | succ n ih =>
      refine .next (.step true 1) ih trivial ?_
      simp [afterCheck, List.replicate_succ']
  exact (active_of_run (hrun 6) (by decide) (w := 0) (by decide)).1

def Lost (actions : List (ItimerAction Bool)) : Prop :=
  let s : TaskTimers Bool := actions.foldl next {}
  (∀ h, s.pc h = .idle) ∧ s.deadlineMs 0 ≠ 0 ∧ s.active = false

/-- The check of an expired timer finds none active, the timer is armed again, and the check removes the
process; or the leader exits, and a check removes the process. -/
theorem unregistered :
    Lost (arm false 1 0 ++ .check true :: List.replicate 10 (.step true 1) ++ arm false 5 1 ++
      [.step true 1]) ∧
    Lost (arm false 1 0 ++ [.exit true, .check true, .step true 0, .step true 0]) := by
  unfold Lost
  decide

end TaskTimers

end RespOS.Signal
