import RespOS.Basis.Interleaving

/-!
# The sleeping lock (`mutex/sleep.rs`)

A call of `lock` is a future. Its `poll` reads its grant without the inner lock, and then, under it, takes
the free lock or joins the queue. A guard that is dropped passes the lock on to the first in the queue, and
so does a future that is dropped after the lock was passed to it.

`owned_of_run` says what holds in every interleaving.
-/

namespace RespOS.Mutex

open RespOS.Basis

/-- `SleepMutex` with the `GrantInfo` of every future. -/
structure SleepMutex where
  isLocked : Bool := false
  waitQueue : List Nat := []
  isGranted : Nat → Bool := fun _ ↦ false
  waker : Nat → Bool := fun _ ↦ false
  /-- The task of the future has been woken and not been polled since. -/
  woken : Nat → Bool := fun _ ↦ false

inductive Stage
  /-- Not polled yet, or after a `Poll::Pending`. -/
  | pending
  /-- In `poll`, before it takes the inner lock. -/
  | polling
  | guard
  | dropped
  deriving DecidableEq

structure SleepMutexFuture where
  queued : Bool := false
  stage : Stage := .pending

inductive LockAction
  | poll | lockInner | dropFuture | dropGuard

def wakeNextOrUnlock (s : SleepMutex) : SleepMutex :=
  match s.waitQueue with
  | waiter :: rest =>
    { s with
      waitQueue := rest
      isGranted := Function.update s.isGranted waiter true
      waker := Function.update s.waker waiter false
      woken := Function.update s.woken waiter (s.waker waiter || s.woken waiter) }
  | [] => { s with isLocked := false }

/-- The atomic sections of `SleepMutexFuture::poll` and of the two `Drop`s. -/
def lockSection (t : Nat) (a : LockAction) (s : SleepMutex) (f : SleepMutexFuture) :
    Option (SleepMutex × SleepMutexFuture) :=
  match a, f.stage with
  | .poll, .pending =>
    some ({ s with woken := Function.update s.woken t false },
      { f with stage := if s.isGranted t then .guard else .polling })
  | .lockInner, .polling =>
    if !s.isLocked then
      some ({ s with isLocked := true, isGranted := Function.update s.isGranted t true },
        { f with stage := .guard })
    else
      some ({ s with
          waker := Function.update s.waker t true
          waitQueue := if f.queued then s.waitQueue else s.waitQueue ++ [t] },
        { queued := true, stage := .pending })
  | .dropFuture, .pending =>
    some (if s.isGranted t then wakeNextOrUnlock s
      else if f.queued then { s with waitQueue := s.waitQueue.erase t } else s,
      { f with stage := .dropped })
  | .dropGuard, .guard => some (wakeNextOrUnlock s, { f with stage := .dropped })
  | _, _ => none

def LockInit (c : Config SleepMutex SleepMutexFuture) : Prop := c = ⟨{}, fun _ ↦ {}⟩

variable {c : Config SleepMutex SleepMutexFuture}

/-- The lock has been taken by the future or passed to it, and not been given back. -/
def Owns (c : Config SleepMutex SleepMutexFuture) (t : Nat) : Prop :=
  c.shared.isGranted t = true ∧ (c.thread t).stage ≠ .dropped

structure LockInv (c : Config SleepMutex SleepMutexFuture) : Prop where
  owned : c.shared.isLocked = true → ∃ t, Owns c t
  locked : ∀ t, Owns c t → c.shared.isLocked = true
  unique : ∀ t u, Owns c t → Owns c u → t = u
  nodup : c.shared.waitQueue.Nodup
  waiting : ∀ t, t ∈ c.shared.waitQueue ↔
    (c.thread t).queued = true ∧ c.shared.isGranted t = false ∧ (c.thread t).stage ≠ .dropped
  taken : c.shared.waitQueue ≠ [] → c.shared.isLocked = true
  waker : ∀ t ∈ c.shared.waitQueue, c.shared.waker t = true
  guard : ∀ t, (c.thread t).stage = .guard → c.shared.isGranted t = true
  woken : ∀ t, Owns c t → (c.thread t).stage ≠ .guard →
    (c.thread t).queued = true ∧ c.shared.woken t = true

theorem LockInv.release (h : LockInv c) {t : Nat} (ht : Owns c t) :
    LockInv ⟨wakeNextOrUnlock c.shared,
      Function.update c.thread t { c.thread t with stage := .dropped }⟩ := by
  obtain ⟨howned, hlocked, hunique, hnodup, hwaiting, htaken, hwaker, hguard, hwoken⟩ := h
  simp only [Owns] at *
  fun_cases wakeNextOrUnlock c.shared with
  | case1 waiter rest hqueue =>
    -- The first in the queue has a waker: it becomes the owner, awake.
    refine ⟨fun _ ↦ ⟨waiter, ?_⟩, ?_, ?_, ?_, ?_, ?_, ?_, ?_, ?_⟩ <;>
      simp only [Owns, Function.update_apply] <;> grind
  | case2 hqueue =>
    constructor <;> simp only [Owns, Function.update_apply] <;> grind

theorem LockInv.leave (h : LockInv c) {t : Nat} (ht : c.shared.isGranted t = false) :
    LockInv ⟨{ c.shared with waitQueue := c.shared.waitQueue.erase t },
      Function.update c.thread t { c.thread t with stage := .dropped }⟩ := by
  obtain ⟨howned, hlocked, hunique, hnodup, hwaiting, htaken, hwaker, hguard, hwoken⟩ := h
  simp only [Owns] at *
  constructor <;> simp only [Owns, Function.update_apply, hnodup.mem_erase_iff] <;> grind

theorem LockInv.of_section (h : LockInv c) {t : Nat} {a : LockAction} {s : SleepMutex}
    {k : SleepMutexFuture} (hsec : lockSection t a c.shared (c.thread t) = some (s, k)) :
    LockInv ⟨s, Function.update c.thread t k⟩ := by
  obtain ⟨howned, hlocked, hunique, hnodup, hwaiting, htaken, hwaker, hguard, hwoken⟩ := id h
  simp only [Owns] at *
  revert hsec
  fun_cases lockSection t a c.shared (c.thread t) with rintro ⟨⟩
  | case1 hstage => constructor <;> simp only [Owns, Function.update_apply] <;> grind
  | case2 hstage hfree =>
    -- A free lock has neither an owner nor a queue.
    refine ⟨fun _ ↦ ⟨t, ?_⟩, ?_, ?_, ?_, ?_, ?_, ?_, ?_, ?_⟩ <;>
      simp only [Owns, Function.update_apply] <;> grind
  | case3 hstage hheld =>
    -- A future that was granted the lock since its read is queued already, and awake.
    constructor <;> simp only [Owns, Function.update_apply] <;> grind
  | case4 hstage =>
    split_ifs with hgranted hqueued
    · exact h.release ⟨hgranted, by simp [hstage]⟩
    · exact h.leave (by simpa using hgranted)
    · have hout : t ∉ c.shared.waitQueue := by simp [hwaiting, hqueued]
      have hleave := h.leave (by simpa using hgranted)
      rwa [List.erase_of_not_mem hout] at hleave
  | case5 hstage => exact h.release ⟨hguard t hstage, by simp [hstage]⟩

/-- In every interleaving at most one guard is alive; a lock that is taken has an owner, whose task has
been woken unless it has its guard; and a future that waits is in the queue, once, of a lock that is taken,
so that none overtakes it. -/
theorem owned_of_run {ok : Config SleepMutex SleepMutexFuture → Nat × LockAction → Prop}
    (hrun : Run LockInit ok (Config.Step lockSection) c) :
    (∀ t u, (c.thread t).stage = .guard → (c.thread u).stage = .guard → t = u) ∧
    (c.shared.isLocked = true → ∃ t, Owns c t ∧
      ((c.thread t).stage = .guard ∨ c.shared.woken t = true)) ∧
    ∀ t, (c.thread t).queued = true → (c.thread t).stage = .pending → c.shared.isGranted t = false →
      c.shared.waitQueue.count t = 1 ∧ c.shared.isLocked = true := by
  have h : LockInv c := by
    refine hrun.invariant ?_ ?_
    · rintro c rfl
      constructor <;> simp [Owns]
    · rintro c ⟨t, a⟩ c' hc - hstep
      obtain ⟨s, k, hsec, rfl⟩ := Config.step_iff.mp hstep
      exact hc.of_section hsec
  have howns (t : Nat) (ht : (c.thread t).stage = .guard) : Owns c t := ⟨h.guard t ht, by simp [ht]⟩
  refine ⟨fun t u ht hu ↦ h.unique t u (howns t ht) (howns u hu), fun hlocked ↦ ?_,
    fun t hqueued hpending hwaits ↦ ?_⟩
  · obtain ⟨t, ht⟩ := h.owned hlocked
    by_cases hguard : (c.thread t).stage = .guard
    · exact ⟨t, ht, .inl hguard⟩
    · exact ⟨t, ht, .inr (h.woken t ht hguard).2⟩
  · have hmem : t ∈ c.shared.waitQueue := (h.waiting t).mpr ⟨hqueued, hwaits, by simp [hpending]⟩
    exact ⟨List.count_eq_one_of_mem h.nodup hmem, h.taken (List.ne_nil_of_mem hmem)⟩

/-- The first future has its guard and the second waits. -/
theorem owned_while_waiting : ∃ c : Config SleepMutex SleepMutexFuture,
    Run LockInit (fun _ _ ↦ True) (Config.Step lockSection) c ∧ (c.thread 0).stage = .guard ∧
      c.shared.waitQueue.count 1 = 1 ∧ ∀ t, (c.thread t).stage = .guard → t = 0 := by
  obtain ⟨c, hc⟩ : ∃ c, Config.runLabels lockSection ⟨{}, fun _ ↦ {}⟩
      [(0, .poll), (0, .lockInner), (1, .poll), (1, .lockInner)] = some c := ⟨_, rfl⟩
  have hrun : Run LockInit (fun _ _ ↦ True) (Config.Step lockSection) c :=
    Config.run_of_runLabels (.start rfl) hc
  obtain ⟨hunique, -, hqueue⟩ := owned_of_run hrun
  obtain rfl := Option.some.inj hc
  exact ⟨_, hrun, rfl, (hqueue 1 rfl rfl rfl).1, fun t ht ↦ hunique t 0 ht rfl⟩

end RespOS.Mutex
