import RespOS.Base

/-!
# The futex queue and the table of waits

Two tables describe who waits on a futex. `FutexQueues` has an entry for every waiter, in the bucket that
the hash of the futex address selects; `FutexWaits` has a record for every waiting thread, which says how
the wait ended, and an index of the records by deadline. The first is behind the lock `FUTEX_QUEUES`, the
second behind `FUTEX_WAITS`; what is here is done under those locks.

`FutexQueues.Loses` and `FutexWaits.Ends` say what the operations that end waits have in common: some
threads lose their entries and their pending records, and nothing else changes. `wakeLoop_exact` is the
loop of `futex_wake_common` and of the first half of `futex_requeue_common`, `expire_ends` the loop over
the deadlines.

The B-tree maps from deadlines to threads are lists in the order of the deadlines.
-/

namespace RespOS.Task

open Function (update update_eq_self update_idem update_of_ne update_self)
open List

/-! ### The queue -/

def futexHashSize : Nat := 256

structure FutexKey where
  scope : Nat
  uaddr : Nat
  deriving DecidableEq

structure FutexQ where
  key : FutexKey
  tid : Nat
  bitset : BitVec 32
  deriving DecidableEq

def futexHash (uaddr : Nat) : Fin futexHashSize :=
  ⟨(uaddr * 0x9e370001 % usizeSize) >>> 12 &&& (futexHashSize - 1),
    Nat.lt_of_le_of_lt Nat.and_le_right (by decide)⟩

def futexHashIdx (key : FutexKey) : Fin futexHashSize := futexHash key.uaddr

structure FutexQueues where
  buckets : Fin futexHashSize → List FutexQ

variable {queues : FutexQueues} {q : FutexQ} {tid : Nat} {tids : List Nat}

namespace FutexQueues

def new : FutexQueues := ⟨fun _ ↦ []⟩

/-- The queues with another content in one bucket, as `bucket_by_idx` gives access to it. -/
def setBucket (queues : FutexQueues) (idx : Fin futexHashSize) (bucket : List FutexQ) :
    FutexQueues :=
  ⟨update queues.buckets idx bucket⟩

def pushBack (queues : FutexQueues) (idx : Fin futexHashSize) (q : FutexQ) : FutexQueues :=
  queues.setBucket idx (queues.buckets idx ++ [q])

/-- `retain(|q| !(q.tid == tid && q.key == key))` on a bucket. -/
def retainOthers (queues : FutexQueues) (idx : Fin futexHashSize) (tid : Nat) (key : FutexKey) :
    FutexQueues :=
  queues.setBucket idx ((queues.buckets idx).filter fun q ↦ !(q.tid == tid && q.key == key))

def removeTid (queues : FutexQueues) (tid : Nat) : FutexQueues :=
  ⟨fun i ↦ (queues.buckets i).filter fun q ↦ q.tid ≠ tid⟩

def entries (queues : FutexQueues) : List FutexQ :=
  (List.finRange futexHashSize).flatMap queues.buckets

theorem mem_entries : q ∈ queues.entries ↔ ∃ i, q ∈ queues.buckets i := by
  simp [entries]

theorem buckets_setBucket (queues : FutexQueues) (idx i : Fin futexHashSize)
    (bucket : List FutexQ) :
    (queues.setBucket idx bucket).buckets i = if i = idx then bucket else queues.buckets i := by
  split_ifs with h
  · subst h
    exact update_self ..
  · exact update_of_ne h ..

def Queued (queues : FutexQueues) (tid : Nat) : Prop := ∃ q ∈ queues.entries, q.tid = tid

theorem queued_iff : queues.Queued tid ↔ ∃ i, ∃ q ∈ queues.buckets i, q.tid = tid := by
  constructor
  · rintro ⟨q, hq, htid⟩
    rcases mem_entries.mp hq with ⟨i, hi⟩
    exact ⟨i, q, hi, htid⟩
  · rintro ⟨i, q, hq, htid⟩
    exact ⟨q, mem_entries.mpr ⟨i, hq⟩, htid⟩

/-- The entries of the threads `tids` are gone and the others are as before. -/
def Loses (tids : List Nat) (queues queues' : FutexQueues) : Prop :=
  ∀ i, queues'.buckets i = (queues.buckets i).filter fun q ↦ q.tid ∉ tids

theorem Loses.of_not_queued (h : ∀ t ∈ tids, ¬ queues.Queued t) : queues.Loses tids queues := by
  intro i
  refine (filter_eq_self.mpr fun q hq ↦ ?_).symm
  simp only [decide_eq_true_eq]
  exact fun hmem ↦ h _ hmem (queued_iff.mpr ⟨i, q, hq, rfl⟩)

theorem loses_removeTid (queues : FutexQueues) (tid : Nat) :
    queues.Loses [tid] (queues.removeTid tid) := by
  intro i
  simp [removeTid]

theorem loses_foldl_removeTid (tids : List Nat) (queues : FutexQueues) :
    queues.Loses tids (tids.foldl removeTid queues) := by
  induction tids generalizing queues with
  | nil => exact .of_not_queued fun _ h ↦ nomatch h
  | cons tid tids ih =>
    intro i
    rw [foldl_cons, ih, loses_removeTid, filter_filter]
    refine filter_congr fun q _ ↦ ?_
    simp [Bool.and_comm]

theorem Loses.queued {queues' : FutexQueues} (h : queues.Loses tids queues') (t : Nat) :
    queues'.Queued t ↔ queues.Queued t ∧ t ∉ tids := by
  simp only [queued_iff, h _, mem_filter, decide_eq_true_eq]
  constructor
  · rintro ⟨i, q, ⟨hq, hkept⟩, rfl⟩
    exact ⟨⟨i, q, hq, rfl⟩, hkept⟩
  · rintro ⟨⟨i, q, hq, rfl⟩, hkept⟩
    exact ⟨i, q, ⟨hq, hkept⟩, rfl⟩

theorem Loses.mem {queues' : FutexQueues} (h : queues.Loses tids queues') {i : Fin futexHashSize}
    (hq : q ∈ queues'.buckets i) : q ∈ queues.buckets i := by
  rw [h i] at hq
  exact (mem_filter.mp hq).1

theorem filter_others (h : ¬ queues.Queued tid) (idx : Fin futexHashSize) (key : FutexKey) :
    (queues.buckets idx).filter (fun q ↦ !(q.tid == tid && q.key == key)) = queues.buckets idx := by
  refine filter_eq_self.mpr fun q hq ↦ ?_
  have htid : q.tid ≠ tid := fun heq ↦ h (queued_iff.mpr ⟨idx, q, hq, heq⟩)
  simp [htid]

theorem retainOthers_of_not_queued (h : ¬ queues.Queued tid) (idx : Fin futexHashSize)
    (key : FutexKey) : queues.retainOthers idx tid key = queues := by
  unfold retainOthers setBucket
  rw [filter_others h, update_eq_self]

theorem retainOthers_pushBack (h : ¬ queues.Queued q.tid) (idx : Fin futexHashSize) :
    (queues.pushBack idx q).retainOthers idx q.tid q.key = queues := by
  simp only [retainOthers, pushBack, setBucket, update_self, update_idem,
    filter_append, filter_others h]
  simp

end FutexQueues

/-! ### The table of waits -/

inductive WaitCompletion
  | pending
  | woken
  | timedOut
  | interrupted
  deriving DecidableEq

/-- A point in time in microseconds, on the clock of the user or on the clock of timeouts. -/
inductive FutexDeadline
  | userClock (us : Nat)
  | timeoutClock (us : Nat)
  deriving DecidableEq

structure FutexWait where
  deadline : Option FutexDeadline
  completion : WaitCompletion
  deriving DecidableEq

/-- The threads to wake at each deadline, earliest first. -/
abbrev Deadlines := List (Nat × List Nat)

namespace Deadlines

/-- `entry(us).or_default().push(tid)`. -/
def push (us tid : Nat) : Deadlines → Deadlines
  | [] => [(us, [tid])]
  | (d, tids) :: rest =>
    if us < d then (us, [tid]) :: (d, tids) :: rest
    else if us = d then (d, tids ++ [tid]) :: rest
    else (d, tids) :: push us tid rest

/-- The thread is taken from the deadline, and the deadline with its last thread. -/
def remove (us tid : Nat) : Deadlines → Deadlines
  | [] => []
  | (d, tids) :: rest =>
    if d = us then
      if tids.filter (· ≠ tid) = [] then rest else (d, tids.filter (· ≠ tid)) :: rest
    else (d, tids) :: remove us tid rest

end Deadlines

structure FutexWaits where
  waits : Nat → Option FutexWait
  userDeadlines : Deadlines
  timeoutDeadlines : Deadlines

namespace FutexWaits

def new : FutexWaits := ⟨fun _ ↦ none, [], []⟩

def insert (w : FutexWaits) (tid : Nat) (wait : Option FutexWait) : FutexWaits :=
  { w with waits := update w.waits tid wait }

def removeDeadline (w : FutexWaits) (tid : Nat) : Option FutexDeadline → FutexWaits
  | some (.userClock us) => { w with userDeadlines := w.userDeadlines.remove us tid }
  | some (.timeoutClock us) => { w with timeoutDeadlines := w.timeoutDeadlines.remove us tid }
  | none => w

def pushDeadline (w : FutexWaits) (tid : Nat) : Option FutexDeadline → FutexWaits
  | some (.userClock us) => { w with userDeadlines := w.userDeadlines.push us tid }
  | some (.timeoutClock us) => { w with timeoutDeadlines := w.timeoutDeadlines.push us tid }
  | none => w

def cancel (w : FutexWaits) (tid : Nat) : FutexWaits :=
  match w.waits tid with
  | none => w
  | some wait => (w.insert tid none).removeDeadline tid wait.deadline

def register (w : FutexWaits) (tid : Nat) (deadline : Option FutexDeadline) : FutexWaits :=
  ((w.cancel tid).insert tid (some ⟨deadline, .pending⟩)).pushDeadline tid deadline

/-- `complete`: whether the record was still pending. -/
def complete (w : FutexWaits) (tid : Nat) (completion : WaitCompletion) : Bool × FutexWaits :=
  match w.waits tid with
  | none => (false, w)
  | some wait =>
    if wait.completion = .pending then
      (true, (w.insert tid (some { wait with completion := completion })).removeDeadline tid
        wait.deadline)
    else (false, w)

def finish (w : FutexWaits) (tid : Nat) : Option WaitCompletion × FutexWaits :=
  match w.waits tid with
  | none => (none, w)
  | some wait => (some wait.completion, (w.insert tid none).removeDeadline tid wait.deadline)

/-- The inner loop of `expire_clock`, over the threads of one deadline. -/
def expireTids (deadline : FutexDeadline) :
    List Nat → (Nat → Option FutexWait) → List Nat × (Nat → Option FutexWait)
  | [], waits => ([], waits)
  | tid :: tids, waits =>
    if waits tid = some ⟨some deadline, .pending⟩ then
      let rest := expireTids deadline tids (update waits tid (some ⟨none, .timedOut⟩))
      (tid :: rest.1, rest.2)
    else expireTids deadline tids waits

/-- `expire_clock`; the result is the expired threads, the deadlines left and the records. -/
def expireClock (clock : Nat → FutexDeadline) (now : Nat) :
    Deadlines → (Nat → Option FutexWait) → List Nat × Deadlines × (Nat → Option FutexWait)
  | [], waits => ([], [], waits)
  | (us, tids) :: rest, waits =>
    if now < us then ([], (us, tids) :: rest, waits)
    else
      let here := expireTids (clock us) tids waits
      let later := expireClock clock now rest here.2
      (here.1 ++ later.1, later.2.1, later.2.2)

def expire (w : FutexWaits) (nowUser nowTimeout : Nat) : List Nat × FutexWaits :=
  let user := expireClock .userClock nowUser w.userDeadlines w.waits
  let timeout := expireClock .timeoutClock nowTimeout w.timeoutDeadlines user.2.2
  (user.1 ++ timeout.1, ⟨timeout.2.2, user.2.1, timeout.2.1⟩)

/-- How the wait of a thread stands, if there is a record. -/
def completion (w : FutexWaits) (tid : Nat) : Option WaitCompletion :=
  (w.waits tid).map FutexWait.completion

def Pending (w : FutexWaits) (tid : Nat) : Prop := w.completion tid = some .pending

instance (w : FutexWaits) (tid : Nat) : Decidable (w.Pending tid) :=
  inferInstanceAs (Decidable (_ = _))

section

variable (w : FutexWaits) (tid : Nat)

@[simp] theorem waits_removeDeadline (d : Option FutexDeadline) :
    (w.removeDeadline tid d).waits = w.waits := by
  rcases d with _ | _ | _ <;> rfl

@[simp] theorem waits_pushDeadline (d : Option FutexDeadline) :
    (w.pushDeadline tid d).waits = w.waits := by
  rcases d with _ | _ | _ <;> rfl

@[simp] theorem waits_insert (wait : Option FutexWait) :
    (w.insert tid wait).waits = update w.waits tid wait := rfl

@[simp] theorem waits_cancel : (w.cancel tid).waits = update w.waits tid none := by
  unfold cancel
  split
  · rename_i h
    rw [← h, update_eq_self]
  · simp

@[simp] theorem waits_register (d : Option FutexDeadline) :
    (w.register tid d).waits = update w.waits tid (some ⟨d, .pending⟩) := by
  simp [register]

@[simp] theorem waits_finish : (w.finish tid).2.waits = update w.waits tid none := by
  unfold finish
  split
  · rename_i h
    rw [← h, update_eq_self]
  · simp

end

variable {w : FutexWaits}

theorem pending_iff : w.Pending tid ↔ ∃ d, w.waits tid = some ⟨d, .pending⟩ := by
  unfold Pending completion
  constructor
  · intro h
    rcases Option.map_eq_some_iff.mp h with ⟨⟨d, c⟩, hwait, rfl⟩
    exact ⟨d, hwait⟩
  · rintro ⟨d, h⟩
    rw [h]
    rfl

/-- Of the pending records those of the threads `tids` are no longer pending, and no record is new. -/
structure Ends (tids : List Nat) (w w' : FutexWaits) : Prop where
  pending : ∀ t, w'.Pending t ↔ w.Pending t ∧ t ∉ tids
  present : ∀ t, w'.waits t ≠ none → w.waits t ≠ none

theorem Ends.refl (w : FutexWaits) : w.Ends [] w := ⟨fun _ ↦ by simp, fun _ h ↦ h⟩

theorem Ends.trans {tids' : List Nat} {w₁ w₂ w₃ : FutexWaits} (h : w₁.Ends tids w₂)
    (h' : w₂.Ends tids' w₃) : w₁.Ends (tids ++ tids') w₃ := by
  refine ⟨fun t ↦ ?_, fun t ht ↦ h.present t (h'.present t ht)⟩
  rw [h'.pending, h.pending, mem_append, not_or, and_assoc]

theorem ends_of_update {w' : FutexWaits} {wait : Option FutexWait}
    (h : w'.waits = update w.waits tid wait) (hdone : wait.map FutexWait.completion ≠ some .pending)
    (hpresent : wait ≠ none → w.waits tid ≠ none) : w.Ends [tid] w' := by
  constructor
  · intro t
    unfold Pending completion
    rw [h]
    rcases eq_or_ne t tid with rfl | hne
    · simpa using hdone
    · simp [hne]
  · intro t ht
    rw [h] at ht
    rcases eq_or_ne t tid with rfl | hne
    · rw [update_self] at ht
      exact hpresent ht
    · rwa [update_of_ne hne] at ht

theorem ends_cancel (w : FutexWaits) (tid : Nat) : w.Ends [tid] (w.cancel tid) :=
  ends_of_update (w.waits_cancel tid) (by simp) (fun h ↦ absurd rfl h)

theorem ends_finish (w : FutexWaits) (tid : Nat) : w.Ends [tid] (w.finish tid).2 :=
  ends_of_update (w.waits_finish tid) (by simp) (fun h ↦ absurd rfl h)

theorem complete_of_pending (h : w.Pending tid) {c : WaitCompletion} (hc : c ≠ .pending) :
    (w.complete tid c).1 = true ∧ w.Ends [tid] (w.complete tid c).2 ∧
      (w.complete tid c).2.completion tid = some c := by
  rcases pending_iff.mp h with ⟨d, hwait⟩
  have hwaits : (w.complete tid c).2.waits = update w.waits tid (some ⟨d, c⟩) := by
    simp [complete, hwait]
  refine ⟨by simp [complete, hwait], ends_of_update hwaits ?_ fun _ ↦ by simp [hwait], ?_⟩
  · simpa using hc
  · simp [completion, hwaits]

/-- The records of the threads `tids` say that they are woken, and all others are as before. -/
def Woke (tids : List Nat) (w w' : FutexWaits) : Prop :=
  ∀ t, w'.waits t = if t ∈ tids then (w.waits t).map fun wait ↦ { wait with completion := .woken }
    else w.waits t

theorem Woke.ends {w' : FutexWaits} (h : w.Woke tids w') : w.Ends tids w' := by
  refine ⟨fun t ↦ ?_, fun t ↦ ?_⟩
  · unfold Pending completion
    rw [h t]
    by_cases ht : t ∈ tids <;> simp [ht]
  · rw [h t]
    by_cases ht : t ∈ tids <;> simp [ht]

theorem waits_complete_of_ne {t : Nat} (h : t ≠ tid) (c : WaitCompletion) :
    (w.complete tid c).2.waits t = w.waits t := by
  unfold complete
  split
  · rfl
  · split_ifs <;> simp [h]

theorem woke_complete (w : FutexWaits) (h : w.Pending tid) :
    w.Woke [tid] (w.complete tid .woken).2 := by
  intro t
  obtain ⟨d, hwait⟩ := pending_iff.mp h
  by_cases ht : t = tid
  · simp [ht, complete, hwait]
  · simp [ht, waits_complete_of_ne ht]

theorem complete_of_not_pending (h : ¬ w.Pending tid) (c : WaitCompletion) :
    w.complete tid c = (false, w) := by
  unfold complete
  split
  · rfl
  · rename_i wait hwait
    refine if_neg fun hpending ↦ h (pending_iff.mpr ⟨wait.deadline, ?_⟩)
    rw [hwait, ← hpending]

theorem expireTids_ends (deadline : FutexDeadline) (tids : List Nat) (w : FutexWaits) :
    w.Ends (expireTids deadline tids w.waits).1
      { w with waits := (expireTids deadline tids w.waits).2 } := by
  induction tids generalizing w with
  | nil => exact .refl w
  | cons tid tids ih =>
    unfold expireTids
    split_ifs with h
    · have hfirst : w.Ends [tid] (w.insert tid (some ⟨none, .timedOut⟩)) :=
        ends_of_update rfl (by simp) fun _ ↦ by simp [h]
      exact hfirst.trans (ih (w.insert tid (some ⟨none, .timedOut⟩)))
    · exact ih w

theorem expireClock_ends (clock : Nat → FutexDeadline) (now : Nat) (deadlines : Deadlines)
    (w : FutexWaits) : w.Ends (expireClock clock now deadlines w.waits).1
      { w with waits := (expireClock clock now deadlines w.waits).2.2 } := by
  induction deadlines generalizing w with
  | nil => exact .refl w
  | cons first rest ih =>
    rcases first with ⟨us, tids⟩
    unfold expireClock
    split_ifs with h
    · exact .refl w
    · exact (expireTids_ends (clock us) tids w).trans
        (ih { w with waits := (expireTids (clock us) tids w.waits).2 })

theorem expire_ends (w : FutexWaits) (nowUser nowTimeout : Nat) :
    w.Ends (w.expire nowUser nowTimeout).1 (w.expire nowUser nowTimeout).2 := by
  have huser := expireClock_ends .userClock nowUser w.userDeadlines w
  have htimeout := expireClock_ends .timeoutClock nowTimeout w.timeoutDeadlines
    { w with waits := (expireClock .userClock nowUser w.userDeadlines w.waits).2.2 }
  have hboth := huser.trans htimeout
  exact ⟨hboth.pending, hboth.present⟩

end FutexWaits

/-! ### The loops over a bucket -/

/-- What the loop that wakes leaves: the entries it passed over, those it did not come to, the threads
whose wait it ended, and the table of waits. -/
structure WakeLoop where
  passed : List FutexQ
  rest : List FutexQ
  woken : List Nat
  waits : FutexWaits

/-- The loop of `futex_wake_common`: up to `nr` waits of selected entries end. -/
def wakeLoop (selected : FutexQ → Bool) : Nat → List FutexQ → FutexWaits → WakeLoop
  | _, [], waits => ⟨[], [], [], waits⟩
  | 0, q :: rest, waits => ⟨[], q :: rest, [], waits⟩
  | nr + 1, q :: rest, waits =>
    if selected q then
      if (waits.complete q.tid .woken).1 then
        let r := wakeLoop selected nr rest (waits.complete q.tid .woken).2
        { r with woken := q.tid :: r.woken }
      else wakeLoop selected (nr + 1) rest (waits.complete q.tid .woken).2
    else
      let r := wakeLoop selected (nr + 1) rest waits
      { r with passed := q :: r.passed }

/-- The second loop of `futex_requeue_common`: the entries that stay and those that move. -/
def moveLoop (source target : FutexKey) : Nat → List FutexQ → List FutexQ × List FutexQ
  | _, [] => ([], [])
  | 0, q :: rest => (q :: rest, [])
  | nr + 1, q :: rest =>
    if q.key = source then
      let r := moveLoop source target nr rest
      (r.1, { q with key := target } :: r.2)
    else
      let r := moveLoop source target (nr + 1) rest
      (q :: r.1, r.2)

/-- What the loop that wakes does to a bucket of pending waits, one entry for each thread. -/
structure WakeLoop.Exact (selected : FutexQ → Bool) (nr : Nat) (bucket : List FutexQ)
    (waits : FutexWaits) (r : WakeLoop) : Prop where
  woken : r.woken = ((bucket.filter selected).take nr).map FutexQ.tid
  kept : r.passed ++ r.rest = bucket.filter fun q ↦ q.tid ∉ r.woken
  due : r.rest.filter selected = (bucket.filter selected).drop nr
  waits : waits.Woke r.woken r.waits

section Loops

variable {selected : FutexQ → Bool} {nr : Nat} {bucket : List FutexQ} {waits : FutexWaits}
  {source target : FutexKey}

theorem exists_of_mem_take {t : Nat} (h : t ∈ ((bucket.filter selected).take nr).map FutexQ.tid) :
    ∃ q ∈ bucket, selected q ∧ q.tid = t := by
  obtain ⟨q, hq, rfl⟩ := mem_map.mp h
  obtain ⟨hq, hsel⟩ := mem_filter.mp (mem_of_mem_take hq)
  exact ⟨q, hq, hsel, rfl⟩

theorem wakeLoop_exact (hnodup : (bucket.map FutexQ.tid).Nodup)
    (hpending : ∀ q ∈ bucket, waits.Pending q.tid) :
    (wakeLoop selected nr bucket waits).Exact selected nr bucket waits := by
  fun_induction wakeLoop selected nr bucket waits with
  | case1 | case2 => exact ⟨by simp, by simp, by simp, fun t ↦ by simp⟩
  | case3 nr q rest waits hsel hdone r ih =>
    rw [map_cons, nodup_cons] at hnodup
    have hne : ∀ e ∈ rest, e.tid ≠ q.tid := fun e he heq ↦ hnodup.1 (heq ▸ mem_map_of_mem he)
    have hfirst := waits.woke_complete (hpending q mem_cons_self)
    have hrest := ih hnodup.2 fun e he ↦ (hfirst.ends.pending _).mpr
      ⟨hpending e (mem_cons_of_mem _ he), by simpa using hne e he⟩
    refine ⟨by simp [hsel, hrest.woken, r], ?_, by simpa [hsel] using hrest.due, fun t ↦ ?_⟩
    · rw [hrest.kept, filter_cons_of_neg (by simp)]
      refine filter_congr fun e he ↦ ?_
      simp [hne e he, r]
    · rw [hrest.waits t, hfirst t]
      by_cases ht : t = q.tid <;> simp [ht, r, Function.comp_def]
  | case4 nr q rest waits hsel hdone ih =>
    exact absurd (waits.complete_of_pending (hpending q mem_cons_self) (by decide)).1 hdone
  | case5 nr q rest waits hsel r ih =>
    rw [map_cons, nodup_cons] at hnodup
    have hrest := ih hnodup.2 fun e he ↦ hpending e (mem_cons_of_mem _ he)
    -- the entry passed over is not one of those removed further on
    have hkept : q.tid ∉ r.woken := fun hmem ↦ by
      obtain ⟨e, he, -, heq⟩ := exists_of_mem_take (hrest.woken ▸ hmem)
      exact hnodup.1 (heq ▸ mem_map_of_mem he)
    refine ⟨by simpa [hsel] using hrest.woken, ?_, by simpa [hsel] using hrest.due, hrest.waits⟩
    rw [cons_append, hrest.kept, filter_cons_of_pos (by simpa using hkept)]

theorem moved_eq : (moveLoop source target nr bucket).2 =
    ((bucket.filter (·.key == source)).take nr).map fun q ↦ { q with key := target } := by
  fun_induction moveLoop source target nr bucket with
  | case1 | case2 => simp
  | case3 nr q rest hkey r ih | case4 nr q rest hkey r ih => simp [hkey, ih, r]

theorem stayed_eq (hnodup : (bucket.map FutexQ.tid).Nodup) : (moveLoop source target nr bucket).1 =
    bucket.filter fun q ↦ q.tid ∉ (moveLoop source target nr bucket).2.map FutexQ.tid := by
  fun_induction moveLoop source target nr bucket with
  | case1 | case2 => simp
  | case3 nr q rest hkey r ih =>
    rw [map_cons, nodup_cons] at hnodup
    have hne : ∀ e ∈ rest, e.tid ≠ q.tid := fun e he heq ↦ hnodup.1 (heq ▸ mem_map_of_mem he)
    rw [ih hnodup.2, filter_cons_of_neg (by simp)]
    refine filter_congr fun e he ↦ ?_
    simp [hne e he, r]
  | case4 nr q rest hkey r ih =>
    rw [map_cons, nodup_cons] at hnodup
    have hkept : q.tid ∉ r.2.map FutexQ.tid := fun hmem ↦ by
      simp only [r, moved_eq, map_map] at hmem
      obtain ⟨e, he, -, heq⟩ := exists_of_mem_take hmem
      exact hnodup.1 (heq ▸ mem_map_of_mem he)
    rw [ih hnodup.2, filter_cons_of_pos (by simpa using hkept)]

end Loops

end RespOS.Task
