import RespOS.Basis.Runs
import RespOS.Task.Futex.Queue

/-!
# Futex wait, wake and requeue

A wait compares the futex word, queues an entry and registers a record in one hold of `FUTEX_QUEUES`, and
then gives up the processor. A thread that is resumed removes its record, which needs only `FUTEX_WAITS`,
and then, in another hold of `FUTEX_QUEUES`, the entries under the key it was called with. Whoever ends a
wait (a wake, the timer, a signal) does it in one hold of both locks, and calls `wakeup_task` later, when
the locks are free; so a `wakeup_task` may come at any time, for an earlier wait too.

The steps of `FutexWorld.next` are those holds, and `wakeup_task`. `agree_of_run` proves that between
them the queue and the table agree. This holds in every run in which no thread comes to remove its
record while that is still pending. `stale_entry_takes_wake` is a run in which a late `wakeup_task`
makes one do so after a requeue. `wake_requeue_exact` says which entries a wake and a requeue take and
move, from any state in which each queued thread has one entry and a pending record.

The reads of the futex word, of the clocks and of the signal state are arguments of the steps, and so are
the keys of the user's addresses.
-/

namespace RespOS.Task

open RespOS.Basis
open Function (update update_eq_self update_of_ne update_self)
open FutexQueues List Option FutexWaits

/-! ### The calls -/

def futexBitsetMatchAny : BitVec 32 := BitVec.allOnes 32

structure FutexState where
  queues : FutexQueues
  waits : FutexWaits

/-- What a wait sees under the lock besides the two tables. -/
structure WaitSight where
  /-- `read_user_u32_nofault`. -/
  word : Except Errno (BitVec 32)
  /-- `check_signal_interrupt` after the entry is queued. -/
  signalled : Bool
  /-- `prepare_current_task_blocked`. -/
  prepared : Bool
  /-- `is_interrupted` or `check_signal_interrupt` after the thread is marked blocked. -/
  interrupted : Bool

/-- How the locked section of a wait ends. -/
inductive WaitEnd
  | failed (e : Errno)
  /-- A timed wait yields and starts again. -/
  | retry
  | blocked

/-- The locked section of `futex_wait_common`, and with a deadline of `futex_wait_timed_common`. -/
def futexWait (s : FutexState) (tid : Nat) (key : FutexKey) (expected bitset : BitVec 32)
    (deadline : Option FutexDeadline) (sight : WaitSight) : WaitEnd × FutexState :=
  if bitset = 0 then (.failed .EINVAL, s)
  else
    match sight.word with
    | .error e => (.failed e, s)
    | .ok actual =>
      if actual ≠ expected then (.failed .EAGAIN, s)
      else
        let idx := futexHashIdx key
        let queues := s.queues.pushBack idx ⟨key, tid, bitset⟩
        let waits := s.waits.register tid deadline
        let interrupted : FutexState :=
          ⟨queues.retainOthers idx tid key, ((waits.complete tid .interrupted).2.finish tid).2⟩
        if sight.signalled then (.failed .EINTR, interrupted)
        else if !sight.prepared then
          (if deadline.isSome then .retry else .failed .EAGAIN,
            ⟨queues.retainOthers idx tid key, waits.cancel tid⟩)
        else if sight.interrupted then (.failed .EINTR, interrupted)
        else (.blocked, ⟨queues, waits⟩)

/-- What a wait returns after `finish` gave the completion. -/
def waitResult : Option WaitCompletion → Except Errno Nat
  | some .interrupted => .error .EINTR
  | some .timedOut => .error .ETIMEDOUT
  | some .woken | some .pending | none => .ok 0

/-- The result of a call that wakes, and the threads for which it calls `wakeup_task` afterwards. -/
structure WakeResult where
  result : Except Errno Nat
  woken : List Nat
  state : FutexState

/-- `futex_wake_common`. -/
def futexWake (s : FutexState) (key : FutexKey) (nrWake : Nat) (bitset : BitVec 32) : WakeResult :=
  if bitset = 0 then ⟨.error .EINVAL, [], s⟩
  else
    let idx := futexHashIdx key
    let r := wakeLoop (fun q ↦ q.key == key && q.bitset &&& bitset != 0) nrWake
      (s.queues.buckets idx) s.waits
    ⟨.ok r.woken.length, r.woken, ⟨s.queues.setBucket idx (r.passed ++ r.rest), r.waits⟩⟩

/-- The result of a requeue, with the entries it moved. -/
structure RequeueResult extends WakeResult where
  moved : List FutexQ

/-- The part of `futex_requeue_common` after the comparison. -/
def requeueQueues (s : FutexState) (source target : FutexKey) (nrWake nrRequeue : Nat) :
    RequeueResult :=
  let sourceIdx := futexHashIdx source
  let targetIdx := futexHashIdx target
  let r := wakeLoop (fun q ↦ q.key == source) nrWake (s.queues.buckets sourceIdx) s.waits
  let m := if source = target then (r.rest, []) else moveLoop source target nrRequeue r.rest
  let queues := s.queues.setBucket sourceIdx (r.passed ++ m.1)
  ⟨⟨.ok (r.woken.length + m.2.length), r.woken,
    ⟨queues.setBucket targetIdx (queues.buckets targetIdx ++ m.2), r.waits⟩⟩, m.2⟩

/-- `futex_requeue_common`; the addresses have the keys `source` and `target`. -/
def futexRequeue (s : FutexState) (uaddr uaddr2 : Nat) (source target : FutexKey)
    (nrWake nrRequeue : Nat) (expected : Option (BitVec 32)) (word : Except Errno (BitVec 32)) :
    RequeueResult :=
  if uaddr = 0 ∨ uaddr2 = 0 then ⟨⟨.error .EINVAL, [], s⟩, []⟩
  else
    match expected, word with
    | none, _ => requeueQueues s source target nrWake nrRequeue
    | some _, .error e => ⟨⟨.error e, [], s⟩, []⟩
    | some expected, .ok actual =>
      if actual ≠ expected then ⟨⟨.error .EAGAIN, [], s⟩, []⟩
      else requeueQueues s source target nrWake nrRequeue

/-- `check_futex_timeouts`, with the threads that are woken afterwards. -/
def checkFutexTimeouts (s : FutexState) (nowUser nowTimeout : Nat) : List Nat × FutexState :=
  let e := s.waits.expire nowUser nowTimeout
  (e.1, ⟨e.1.foldl FutexQueues.removeTid s.queues, e.2⟩)

def interruptFutexWait (s : FutexState) (tid : Nat) : Bool × FutexState :=
  if (s.waits.complete tid .interrupted).1 then
    (true, ⟨s.queues.removeTid tid, (s.waits.complete tid .interrupted).2⟩)
  else (false, ⟨s.queues, (s.waits.complete tid .interrupted).2⟩)

def removeFutexWaiter (s : FutexState) (tid : Nat) : FutexState :=
  ⟨s.queues.removeTid tid, s.waits.cancel tid⟩

/-! ### Wake and requeue are exact -/

variable {i : Fin futexHashSize} {q : FutexQ}

namespace FutexState

/-- Every queued thread has one entry, and its record is pending. -/
structure Tidy (s : FutexState) : Prop where
  once : ∀ i, ((s.queues.buckets i).map FutexQ.tid).Nodup
  apart : ∀ i j, ∀ q ∈ s.queues.buckets i, ∀ e ∈ s.queues.buckets j, q.tid = e.tid → i = j
  pending : ∀ i, ∀ q ∈ s.queues.buckets i, s.waits.Pending q.tid

/-- The entries in the bucket of a futex that a wake selects. Entries are pushed to the bucket of their
key, so there are no others with the key. -/
def waiters (s : FutexState) (key : FutexKey) (bitset : BitVec 32) : List FutexQ :=
  (s.queues.buckets (futexHashIdx key)).filter fun q ↦ q.key == key && q.bitset &&& bitset != 0

def sourceWaiters (s : FutexState) (source : FutexKey) : List FutexQ :=
  (s.queues.buckets (futexHashIdx source)).filter (·.key == source)

structure Wakes (key : FutexKey) (nrWake : Nat) (bitset : BitVec 32) (s : FutexState)
    (r : WakeResult) : Prop where
  result : r.result = if bitset = 0 then .error .EINVAL
    else .ok (min nrWake (s.waiters key bitset).length)
  woken : r.woken = ((s.waiters key bitset).take nrWake).map FutexQ.tid
  queues : s.queues.Loses r.woken r.state.queues
  waits : s.waits.Woke r.woken r.state.waits

/-- What a requeue does that is not refused. -/
structure Requeues (source target : FutexKey) (nrWake nrRequeue : Nat) (s : FutexState)
    (r : RequeueResult) : Prop where
  result : r.result = .ok (r.woken.length + r.moved.length)
  woken : r.woken = ((s.sourceWaiters source).take nrWake).map FutexQ.tid
  moved : r.moved = if source = target then [] else
    (((s.sourceWaiters source).drop nrWake).take nrRequeue).map fun q ↦ { q with key := target }
  queues : ∀ i, r.state.queues.buckets i =
    (s.queues.buckets i).filter (fun q ↦ q.tid ∉ r.woken ++ r.moved.map FutexQ.tid) ++
      if i = futexHashIdx target then r.moved else []
  waits : s.waits.Woke r.woken r.state.waits

variable {s : FutexState} {key source target : FutexKey} {nrWake nrRequeue : Nat}

theorem Tidy.filter_eq (h : s.Tidy) {idx : Fin futexHashSize} (hi : i ≠ idx) {tids : List Nat}
    (htids : ∀ t ∈ tids, ∃ q ∈ s.queues.buckets idx, q.tid = t) :
    (s.queues.buckets i).filter (fun q ↦ q.tid ∉ tids) = s.queues.buckets i := by
  refine filter_eq_self.mpr fun e he ↦ decide_eq_true fun hmem ↦ ?_
  obtain ⟨q, hq, htid⟩ := htids _ hmem
  exact hi (h.apart i idx e he q hq htid.symm)

theorem Tidy.wakeLoop (h : s.Tidy) (selected : FutexQ → Bool) (nr : Nat) (idx : Fin futexHashSize) :
    (Task.wakeLoop selected nr (s.queues.buckets idx) s.waits).Exact selected nr
      (s.queues.buckets idx) s.waits :=
  wakeLoop_exact (h.once idx) (h.pending idx)

theorem Tidy.loses (h : s.Tidy) {selected : FutexQ → Bool} {nr : Nat} {idx : Fin futexHashSize}
    {r : WakeLoop} (hr : r.Exact selected nr (s.queues.buckets idx) s.waits) :
    s.queues.Loses r.woken (s.queues.setBucket idx (r.passed ++ r.rest)) := by
  intro i
  rw [buckets_setBucket]
  split_ifs with hi
  · rw [hi, hr.kept]
  · refine (h.filter_eq hi fun t ht ↦ ?_).symm
    obtain ⟨q, hq, -, htid⟩ := exists_of_mem_take (hr.woken ▸ ht)
    exact ⟨q, hq, htid⟩

theorem Tidy.wakes (h : s.Tidy) (key : FutexKey) (nrWake : Nat) (bitset : BitVec 32) :
    Wakes key nrWake bitset s (futexWake s key nrWake bitset) := by
  unfold futexWake
  split_ifs with hzero
  · have hnone : s.waiters key bitset = [] := by simp [waiters, hzero]
    exact ⟨by simp [hzero], by simp [hnone], .of_not_queued fun _ ht ↦ (nomatch ht), fun t ↦ by simp⟩
  · have hr := h.wakeLoop (fun q ↦ q.key == key && q.bitset &&& bitset != 0) nrWake (futexHashIdx key)
    refine ⟨?_, hr.woken, h.loses hr, hr.waits⟩
    rw [if_neg hzero]
    show Except.ok (Task.wakeLoop ..).woken.length = _
    rw [hr.woken]
    simp [waiters]

theorem move_eq {m : List FutexQ × List FutexQ} {rest : List FutexQ}
    (hnodup : (rest.map FutexQ.tid).Nodup)
    (hm : m = if source = target then (rest, []) else moveLoop source target nrRequeue rest) :
    m.1 = rest.filter (fun q ↦ q.tid ∉ m.2.map FutexQ.tid) ∧ m.2 = if source = target then [] else
      ((rest.filter (·.key == source)).take nrRequeue).map fun q ↦ { q with key := target } := by
  split_ifs at hm ⊢ with hsame
  · simp [hm]
  · rw [hm]
    exact ⟨stayed_eq hnodup, moved_eq⟩

theorem Tidy.requeues (h : s.Tidy) (source target : FutexKey) (nrWake nrRequeue : Nat) :
    Requeues source target nrWake nrRequeue s
      (requeueQueues s source target nrWake nrRequeue) := by
  have hr := h.wakeLoop (fun q ↦ q.key == source) nrWake (futexHashIdx source)
  have hloses := h.loses hr
  unfold requeueQueues
  dsimp only
  generalize Task.wakeLoop _ nrWake _ s.waits = r at hr hloses ⊢
  have hall : ((r.passed ++ r.rest).map FutexQ.tid).Nodup := by
    rw [hr.kept]
    exact (h.once _).sublist (filter_sublist.map _)
  rw [map_append, nodup_append] at hall
  generalize hm : (if source = target then _ else moveLoop source target nrRequeue r.rest) = m
  obtain ⟨hstay, hmoved⟩ := move_eq hall.2.1 hm.symm
  have hfrom : ∀ t ∈ m.2.map FutexQ.tid, ∃ q ∈ r.rest, q.tid = t := by
    intro t ht
    rw [hmoved] at ht
    split_ifs at ht
    · nomatch ht
    · rw [List.map_map] at ht
      obtain ⟨q, hq, -, htid⟩ := exists_of_mem_take ht
      exact ⟨q, hq, htid⟩
  refine ⟨rfl, hr.woken, ?_, fun i ↦ ?_, hr.waits⟩
  · rw [hmoved, hr.due]
    rfl
  -- without the moved entries every bucket is what the wake left of it
  have hleft : ∀ i, (if i = futexHashIdx source then r.passed ++ m.1 else s.queues.buckets i) =
      (s.queues.buckets i).filter fun q ↦ q.tid ∉ r.woken ++ m.2.map FutexQ.tid := by
    intro i
    have hsplit : (s.queues.buckets i).filter (fun q ↦ q.tid ∉ r.woken ++ m.2.map FutexQ.tid) =
        ((s.queues.setBucket (futexHashIdx source) (r.passed ++ r.rest)).buckets i).filter
          fun q ↦ q.tid ∉ m.2.map FutexQ.tid := by
      rw [hloses i, List.filter_filter]
      refine filter_congr fun q _ ↦ ?_
      rw [Bool.eq_iff_iff]
      simp [and_comm]
    rw [hsplit, buckets_setBucket]
    split_ifs with hi
    · have hpassed : r.passed.filter (fun q ↦ q.tid ∉ m.2.map FutexQ.tid) = r.passed := by
        refine filter_eq_self.mpr fun q hq ↦ decide_eq_true fun hmem ↦ ?_
        obtain ⟨e, he, htid⟩ := hfrom _ hmem
        exact hall.2.2 _ (mem_map_of_mem hq) _ (mem_map_of_mem he) htid.symm
      rw [filter_append, ← hstay, hpassed]
    · refine (h.filter_eq hi fun t ht ↦ ?_).symm
      obtain ⟨q, hq, htid⟩ := hfrom t ht
      have hmem : q ∈ r.passed ++ r.rest := mem_append_right _ hq
      rw [hr.kept] at hmem
      exact ⟨q, (mem_filter.mp hmem).1, htid⟩
  rw [← hleft]
  simp only [buckets_setBucket]
  split_ifs <;> simp_all

/-! A requeue neither loses nor duplicates a waiter. -/

section Requeued

variable {r : RequeueResult} (h : s.Tidy) (hr : Requeues source target nrWake nrRequeue s r)
include hr

theorem Requeues.exists_of_moved (hq : q ∈ r.moved) :
    ∃ e ∈ s.queues.buckets (futexHashIdx source), e.key = source ∧ q = { e with key := target } := by
  rw [hr.moved] at hq
  split_ifs at hq
  · nomatch hq
  · obtain ⟨e, he, rfl⟩ := mem_map.mp hq
    obtain ⟨he, hkey⟩ := mem_filter.mp (mem_of_mem_drop (mem_of_mem_take he))
    exact ⟨e, he, by simpa using hkey, rfl⟩

theorem Requeues.mem_iff : q ∈ r.state.queues.buckets i ↔
    (q ∈ s.queues.buckets i ∧ q.tid ∉ r.woken ∧ q.tid ∉ r.moved.map FutexQ.tid) ∨
      (i = futexHashIdx target ∧ q ∈ r.moved) := by
  rw [hr.queues i, mem_append, mem_filter]
  split_ifs with hi <;> simp [hi]

include h

theorem Requeues.nodup : (r.woken ++ r.moved.map FutexQ.tid).Nodup := by
  have hall : (((s.sourceWaiters source).take nrWake ++ (s.sourceWaiters source).drop nrWake).map
      FutexQ.tid).Nodup := by
    rw [take_append_drop]
    exact (h.once _).sublist (filter_sublist.map _)
  rw [map_append] at hall
  refine hall.sublist ?_
  rw [hr.woken, hr.moved]
  refine Sublist.append (.refl _) ?_
  split_ifs
  · exact nil_sublist _
  · rw [List.map_map]
    exact (take_sublist ..).map _

theorem Requeues.queued (t : Nat) : r.state.queues.Queued t ↔ s.queues.Queued t ∧ t ∉ r.woken := by
  rw [queued_iff, queued_iff]
  constructor
  · rintro ⟨i, q, hq, rfl⟩
    rcases hr.mem_iff.mp hq with ⟨hold, hwoken, -⟩ | ⟨-, hnew⟩
    · exact ⟨⟨i, q, hold, rfl⟩, hwoken⟩
    · obtain ⟨e, he, -, rfl⟩ := hr.exists_of_moved hnew
      exact ⟨⟨_, e, he, rfl⟩, fun hmem ↦
        (nodup_append.mp (hr.nodup h)).2.2 _ hmem _ (mem_map_of_mem hnew) rfl⟩
  · rintro ⟨⟨i, q, hq, rfl⟩, hwoken⟩
    by_cases hmoved : q.tid ∈ r.moved.map FutexQ.tid
    · obtain ⟨e, he, htid⟩ := mem_map.mp hmoved
      exact ⟨_, e, hr.mem_iff.mpr (.inr ⟨rfl, he⟩), htid⟩
    · exact ⟨i, q, hr.mem_iff.mpr (.inl ⟨hq, hwoken, hmoved⟩), rfl⟩

theorem Requeues.tidy : r.state.Tidy where
  once i := by
    rw [hr.queues i, map_append, nodup_append]
    refine ⟨(h.once i).sublist (filter_sublist.map _), ?_, ?_⟩
    · split_ifs
      · exact (nodup_append.mp (hr.nodup h)).2.1
      · exact nodup_nil
    · rintro t ht t' ht' rfl
      obtain ⟨q, hq, rfl⟩ := mem_map.mp ht
      split_ifs at ht'
      · have hkept := (mem_filter.mp hq).2
        simp only [decide_eq_true_eq, mem_append, not_or] at hkept
        exact hkept.2 ht'
      · nomatch ht'
  apart i j q hq e he htid := by
    rcases hr.mem_iff.mp hq with ⟨hold, -, hstays⟩ | ⟨rfl, hmoved⟩
    · rcases hr.mem_iff.mp he with ⟨hold', -⟩ | ⟨-, hmoved⟩
      · exact h.apart i j q hold e hold' htid
      · exact absurd (htid ▸ mem_map_of_mem hmoved) hstays
    · rcases hr.mem_iff.mp he with ⟨-, -, hstays⟩ | ⟨rfl, -⟩
      · exact absurd (htid ▸ mem_map_of_mem hmoved) hstays
      · rfl
  pending i q hq := by
    have hqueued := (hr.queued h q.tid).mp (queued_iff.mpr ⟨i, q, hq, rfl⟩)
    obtain ⟨⟨j, e, he, htid⟩, hwoken⟩ := And.imp_left queued_iff.mp hqueued
    exact (hr.waits.ends.pending _).mpr ⟨htid ▸ h.pending j e he, hwoken⟩

end Requeued

end FutexState

/-! ### Threads -/

inductive FutexTask
  /-- Outside a wait; with the result of the last call, if it was a wait. -/
  | running (last : Option (Except Errno Nat))
  /-- In `switch_to_next_task`, called with the key. -/
  | blocked (key : FutexKey)
  /-- Back from `switch_to_next_task`. -/
  | resumed (key : FutexKey)
  /-- After `finish_futex_wait`, before the clean-up of the queue. -/
  | finished (key : FutexKey) (completion : Option WaitCompletion)

/-- The thread is in a wait and has not removed its record. -/
def FutexTask.InWait : FutexTask → Prop
  | blocked _ | resumed _ => True
  | running _ | finished _ _ => False

/-- The two tables and the threads. `futex` is not in the source: it is the futex a waiting thread waits
on, which is that of its call until a requeue moves the thread. -/
structure FutexWorld extends FutexState where
  tasks : Nat → FutexTask
  futex : Nat → Option FutexKey

inductive FutexLabel
  | wait (tid : Nat) (key : FutexKey) (expected bitset : BitVec 32)
      (deadline : Option FutexDeadline) (sight : WaitSight)
  | wakeupTask (tid : Nat)
  | finish (tid : Nat)
  | cleanup (tid : Nat)
  | wake (key : FutexKey) (nrWake : Nat) (bitset : BitVec 32)
  | requeue (uaddr uaddr2 : Nat) (source target : FutexKey) (nrWake nrRequeue : Nat)
      (expected : Option (BitVec 32)) (word : Except Errno (BitVec 32))
  | checkTimeouts (nowUser nowTimeout : Nat)
  | interrupt (tid : Nat)
  | exit (tid : Nat)

namespace FutexWorld

def setTask (w : FutexWorld) (tid : Nat) (task : FutexTask) : FutexWorld :=
  { w with tasks := Function.update w.tasks tid task }

/-- A thread whose entry moved and that waited on the source waits on the target. -/
def requeued (w : FutexWorld) (source target : FutexKey) (moved : List FutexQ) (tid : Nat) :
    Option FutexKey :=
  if tid ∈ moved.map FutexQ.tid ∧ w.futex tid = some source then some target else w.futex tid

/-- One step. A thread takes those of its own wait in order; everything else can happen at any time. After
`exit` the number may be given to a new thread. -/
def next (w : FutexWorld) : FutexLabel → Option FutexWorld
  | .wait tid key expected bitset deadline sight =>
    match w.tasks tid with
    | .running _ =>
      match futexWait w.toFutexState tid key expected bitset deadline sight with
      | (.blocked, s) =>
        some ⟨s, Function.update w.tasks tid (.blocked key), Function.update w.futex tid (some key)⟩
      | (.retry, s) => some { w with toFutexState := s }
      | (.failed e, s) => some ({ w with toFutexState := s }.setTask tid (.running (some (.error e))))
    | _ => none
  | .wakeupTask tid =>
    match w.tasks tid with
    | .blocked key => some (w.setTask tid (.resumed key))
    | _ => some w
  | .finish tid =>
    match w.tasks tid with
    | .resumed key =>
      some ({ w with waits := (w.waits.finish tid).2 }.setTask tid
        (.finished key (w.waits.finish tid).1))
    | _ => none
  | .cleanup tid =>
    match w.tasks tid with
    | .finished key completion =>
      some ({ w with queues := w.queues.retainOthers (futexHashIdx key) tid key }.setTask tid
        (.running (some (waitResult completion))))
    | _ => none
  | .wake key nrWake bitset =>
    some { w with toFutexState := (futexWake w.toFutexState key nrWake bitset).state }
  | .requeue uaddr uaddr2 source target nrWake nrRequeue expected word =>
    let r := futexRequeue w.toFutexState uaddr uaddr2 source target nrWake nrRequeue expected word
    some ⟨r.state, w.tasks, w.requeued source target r.moved⟩
  | .checkTimeouts nowUser nowTimeout =>
    some { w with toFutexState := (checkFutexTimeouts w.toFutexState nowUser nowTimeout).2 }
  | .interrupt tid => some { w with toFutexState := (interruptFutexWait w.toFutexState tid).2 }
  | .exit tid =>
    some ({ w with toFutexState := removeFutexWaiter w.toFutexState tid }.setTask tid
      (.running none))

abbrev Step (w : FutexWorld) (l : FutexLabel) (w' : FutexWorld) : Prop := w.next l = some w'

def Init (w : FutexWorld) : Prop := w.toFutexState = ⟨.new, .new⟩ ∧ ∀ t, ¬ (w.tasks t).InWait

/-- A thread removes its record only when that is no longer pending. -/
def Settled (w : FutexWorld) : FutexLabel → Prop
  | .finish tid => ¬ w.waits.Pending tid
  | _ => True

instance (w : FutexWorld) : (l : FutexLabel) → Decidable (w.Settled l)
  | .finish tid => inferInstanceAs (Decidable (¬ w.waits.Pending tid))
  | .wait .. | .wakeupTask _ | .cleanup _ | .wake .. | .requeue .. | .checkTimeouts .. |
    .interrupt _ | .exit _ => isTrue trivial

/-- The thread waits on the futex: its record is pending. -/
def WaitsOn (w : FutexWorld) (tid : Nat) (key : FutexKey) : Prop :=
  w.waits.Pending tid ∧ w.futex tid = some key

instance (w : FutexWorld) (t : Nat) (key : FutexKey) : Decidable (w.WaitsOn t key) :=
  inferInstanceAs (Decidable (_ ∧ _))

/-! ### The invariant -/

structure Agree (w : FutexWorld) : Prop where
  placed : ∀ i, ∀ q ∈ w.queues.buckets i, futexHashIdx q.key = i
  once : ∀ i, ((w.queues.buckets i).map FutexQ.tid).Nodup
  current : ∀ i, ∀ q ∈ w.queues.buckets i, w.futex q.tid = some q.key
  selectable : ∀ i, ∀ q ∈ w.queues.buckets i, q.bitset ≠ 0
  pending : ∀ t, w.queues.Queued t ↔ w.waits.Pending t
  inWait : ∀ t, w.waits.waits t ≠ none → (w.tasks t).InWait

variable {w w' : FutexWorld} {t tid : Nat}

theorem Agree.pending_of_mem (h : w.Agree) (hq : q ∈ w.queues.buckets i) : w.waits.Pending q.tid :=
  (h.pending q.tid).mp (queued_iff.mpr ⟨i, q, hq, rfl⟩)

theorem Agree.bucket_unique (h : w.Agree) {j : Fin futexHashSize} {e : FutexQ}
    (hq : q ∈ w.queues.buckets i) (he : e ∈ w.queues.buckets j) (htid : q.tid = e.tid) : i = j := by
  have hkey : q.key = e.key := by
    have hcurrent := h.current i q hq
    rw [htid, h.current j e he] at hcurrent
    exact (some.inj hcurrent).symm
  rw [← h.placed i q hq, ← h.placed j e he, hkey]

theorem Agree.not_queued (h : w.Agree) (ht : ¬ (w.tasks t).InWait) : ¬ w.queues.Queued t := by
  intro hqueued
  rcases pending_iff.mp ((h.pending t).mp hqueued) with ⟨d, hwait⟩
  exact ht (h.inWait t (by simp [hwait]))

/-- The waits of the threads `tids` ended, with their entries. -/
structure Drops (tids : List Nat) (w w' : FutexWorld) : Prop where
  queues : w.queues.Loses tids w'.queues
  waits : w.waits.Ends tids w'.waits
  futex : w'.futex = w.futex
  inWait : ∀ t, w'.waits.waits t ≠ none → (w.tasks t).InWait → (w'.tasks t).InWait

theorem Agree.drops {tids : List Nat} (h : w.Agree) (hd : w.Drops tids w') : w'.Agree where
  placed i q hq := h.placed i q (hd.queues.mem hq)
  once i := by
    rw [hd.queues i]
    exact (h.once i).sublist (filter_sublist.map _)
  current i q hq := by
    rw [hd.futex]
    exact h.current i q (hd.queues.mem hq)
  selectable i q hq := h.selectable i q (hd.queues.mem hq)
  pending t := by rw [hd.queues.queued, hd.waits.pending, h.pending]
  inWait t ht := hd.inWait t ht (h.inWait t (hd.waits.present t ht))

/-! ### What each step does -/

/-- A wait that blocks has queued one entry and registered one record; any other leaves the entries and
the records as they were. -/
theorem futexWait_cases {s : FutexState} (hqueue : ¬ s.queues.Queued tid)
    (hrecord : s.waits.waits tid = none) (key : FutexKey) (expected bitset : BitVec 32)
    (deadline : Option FutexDeadline) (sight : WaitSight) :
    ((futexWait s tid key expected bitset deadline sight) = (.blocked,
        ⟨s.queues.pushBack (futexHashIdx key) ⟨key, tid, bitset⟩, s.waits.register tid deadline⟩) ∧
      bitset ≠ 0) ∨ ((futexWait s tid key expected bitset deadline sight).1 ≠ .blocked ∧
      (futexWait s tid key expected bitset deadline sight).2.queues = s.queues ∧
      (futexWait s tid key expected bitset deadline sight).2.waits.waits = s.waits.waits) := by
  have hback : (s.queues.pushBack (futexHashIdx key) ⟨key, tid, bitset⟩).retainOthers
      (futexHashIdx key) tid key = s.queues :=
    retainOthers_pushBack hqueue (futexHashIdx key)
  have hcancel : ((s.waits.register tid deadline).cancel tid).waits = s.waits.waits := by
    have hsame : update s.waits.waits tid none = s.waits.waits := by
      rw [← hrecord, update_eq_self]
    simp [hsame]
  have hfinish : (((s.waits.register tid deadline).complete tid .interrupted).2.finish
      tid).2.waits = s.waits.waits := by
    funext t
    rcases eq_or_ne t tid with rfl | hne
    · simp [hrecord]
    · simp [hne, waits_complete_of_ne hne]
  fun_cases futexWait s tid key expected bitset deadline sight with
  | case1 | case2 | case3 => exact .inr ⟨by simp, rfl, rfl⟩
  | case4 | case6 => exact .inr ⟨by simp, hback, hfinish⟩
  | case5 => exact .inr ⟨by cases deadline <;> simp, hback, hcancel⟩
  | case7 hbitset => exact .inl ⟨rfl, hbitset⟩

theorem Agree.enqueue (h : w.Agree) (htask : ¬ (w.tasks tid).InWait) (key : FutexKey)
    {bitset : BitVec 32} (hbitset : bitset ≠ 0) (deadline : Option FutexDeadline) :
    Agree ⟨⟨w.queues.pushBack (futexHashIdx key) ⟨key, tid, bitset⟩,
      w.waits.register tid deadline⟩, update w.tasks tid (.blocked key),
      update w.futex tid (some key)⟩ := by
  have hnot := h.not_queued htask
  have hother : ∀ {i q}, q ∈ w.queues.buckets i → q.tid ≠ tid := fun hq heq ↦
    hnot (queued_iff.mpr ⟨_, _, hq, heq⟩)
  have hmem : ∀ {i q}, q ∈ (w.queues.pushBack (futexHashIdx key) ⟨key, tid, bitset⟩).buckets i ↔
      q ∈ w.queues.buckets i ∨ (i = futexHashIdx key ∧ q = ⟨key, tid, bitset⟩) := by
    intro i q
    unfold pushBack
    rw [buckets_setBucket]
    split_ifs with hi
    · subst hi
      simp
    · simp [hi]
  constructor
  · intro i q hq
    rcases hmem.mp hq with hq | ⟨rfl, rfl⟩
    · exact h.placed i q hq
    · rfl
  · intro i
    unfold pushBack
    rw [buckets_setBucket]
    split_ifs with hi
    · subst hi
      rw [map_append, nodup_append]
      refine ⟨h.once _, by simp, ?_⟩
      intro a ha b hb
      rcases mem_map.mp ha with ⟨q, hq, rfl⟩
      obtain rfl : b = tid := by simpa using hb
      exact hother hq
    · exact h.once i
  · intro i q hq
    rcases hmem.mp hq with hq | ⟨rfl, rfl⟩
    · exact (update_of_ne (hother hq) ..).trans (h.current i q hq)
    · exact update_self ..
  · intro i q hq
    rcases hmem.mp hq with hq | ⟨rfl, rfl⟩
    · exact h.selectable i q hq
    · exact hbitset
  · intro t
    show FutexQueues.Queued _ t ↔ FutexWaits.Pending _ t
    rw [queued_iff, pending_iff, waits_register]
    rcases eq_or_ne t tid with rfl | hne
    · simp only [update_self]
      exact ⟨fun _ ↦ ⟨deadline, rfl⟩, fun _ ↦ ⟨_, _, hmem.mpr (.inr ⟨rfl, rfl⟩), rfl⟩⟩
    rw [update_of_ne hne, ← pending_iff, ← h.pending, queued_iff]
    constructor
    · rintro ⟨i, q, hq, rfl⟩
      rcases hmem.mp hq with hq | ⟨rfl, rfl⟩
      · exact ⟨i, q, hq, rfl⟩
      · exact absurd rfl hne
    · rintro ⟨i, q, hq, rfl⟩
      exact ⟨i, q, hmem.mpr (.inl hq), rfl⟩
  · intro t ht
    show (update w.tasks tid _ t).InWait
    rcases eq_or_ne t tid with rfl | hne
    · rw [update_self]
      trivial
    · rw [update_of_ne hne]
      refine h.inWait t ?_
      simpa [hne] using ht

theorem Agree.tidy (h : w.Agree) : w.toFutexState.Tidy :=
  ⟨h.once, fun _ _ _ hq _ he ↦ h.bucket_unique hq he, fun _ _ hq ↦ h.pending_of_mem hq⟩

theorem Agree.requeueQueues (h : w.Agree) (source target : FutexKey) (nrWake nrRequeue : Nat) :
    Agree ⟨(RespOS.Task.requeueQueues w.toFutexState source target nrWake nrRequeue).state, w.tasks,
      w.requeued source target
        (RespOS.Task.requeueQueues w.toFutexState source target nrWake nrRequeue).moved⟩ := by
  have hr := h.tidy.requeues source target nrWake nrRequeue
  generalize RespOS.Task.requeueQueues _ _ _ _ _ = r at hr ⊢
  constructor
  · intro i q hq
    rcases hr.mem_iff.mp hq with ⟨hold, -⟩ | ⟨hi, hnew⟩
    · exact h.placed i q hold
    · obtain ⟨e, -, -, rfl⟩ := hr.exists_of_moved hnew
      exact hi.symm
  · exact (hr.tidy h.tidy).once
  · intro i q hq
    rcases hr.mem_iff.mp hq with ⟨hold, -, hstays⟩ | ⟨-, hnew⟩
    · exact (if_neg fun hcond ↦ hstays hcond.1).trans (h.current i q hold)
    · obtain ⟨e, he, hkey, rfl⟩ := hr.exists_of_moved hnew
      exact if_pos ⟨mem_map_of_mem hnew, hkey ▸ h.current _ e he⟩
  · intro i q hq
    rcases hr.mem_iff.mp hq with ⟨hold, -⟩ | ⟨-, hnew⟩
    · exact h.selectable i q hold
    · obtain ⟨e, he, -, rfl⟩ := hr.exists_of_moved hnew
      exact h.selectable _ e he
  · intro t
    rw [hr.queued h.tidy, hr.waits.ends.pending, h.pending]
  · exact fun t ht ↦ h.inWait t (hr.waits.ends.present t ht)

theorem Agree.congr (h : w.Agree) (hqueues : w'.queues = w.queues)
    (hwaits : w'.waits.waits = w.waits.waits) (hfutex : w'.futex = w.futex)
    (hin : ∀ t, w.waits.waits t ≠ none → (w.tasks t).InWait → (w'.tasks t).InWait) : w'.Agree := by
  have hdrops : w.Drops [] w' := by
    refine ⟨?_, ⟨fun t ↦ ?_, fun t ht ↦ hwaits ▸ ht⟩, hfutex, fun t ht ↦ hin t (hwaits ▸ ht)⟩
    · rw [hqueues]
      exact .of_not_queued fun _ ht ↦ (nomatch ht)
    · rw [pending_iff, pending_iff, hwaits]
      simp
  exact h.drops hdrops

theorem inWait_setTask (hrecord : w.waits.waits tid = none) (task : FutexTask)
    (ht : w.waits.waits t ≠ none) (hin : (w.tasks t).InWait) :
    ((w.setTask tid task).tasks t).InWait := by
  have hne : t ≠ tid := fun heq ↦ ht (heq ▸ hrecord)
  show (update w.tasks tid task t).InWait
  rwa [update_of_ne hne]

theorem Agree.record_eq_none (h : w.Agree) (hnot : ¬ (w.tasks tid).InWait) :
    w.waits.waits tid = none := by
  by_contra hsome
  exact hnot (h.inWait tid hsome)

theorem Agree.step {l : FutexLabel} (h : w.Agree) (hok : w.Settled l) (hstep : w.Step l w') :
    w'.Agree := by
  cases l with try obtain rfl := some.inj hstep
  | wait tid key expected bitset deadline sight =>
    simp only [Step, next] at hstep
    split at hstep
    · rename_i last htask
      have hnot : ¬ (w.tasks tid).InWait := by
        rw [htask]
        exact fun hin ↦ hin
      have hrecord := h.record_eq_none hnot
      rcases futexWait_cases (h.not_queued hnot) hrecord key expected bitset deadline sight with
        ⟨hblocked, hbitset⟩ | ⟨hends, hqueues, hwaits⟩
      · rw [hblocked] at hstep
        obtain rfl := some.inj hstep
        exact h.enqueue hnot key hbitset deadline
      rcases hresult : futexWait w.toFutexState tid key expected bitset deadline sight with ⟨r, s⟩
      rw [hresult] at hstep hends hqueues hwaits
      cases r with
      | blocked => exact absurd rfl hends
      | retry =>
        obtain rfl := some.inj hstep
        exact h.congr hqueues hwaits rfl fun _ _ hin ↦ hin
      | failed e =>
        obtain rfl := some.inj hstep
        exact h.congr hqueues hwaits rfl fun _ ht ↦ inWait_setTask hrecord _ ht
    · nomatch hstep
  | wakeupTask tid =>
    simp only [Step, next] at hstep
    split at hstep
    · obtain rfl := some.inj hstep
      refine h.congr rfl rfl rfl fun t _ hin ↦ ?_
      show (update w.tasks tid _ t).InWait
      rcases eq_or_ne t tid with rfl | hne
      · rw [update_self]
        trivial
      · rwa [update_of_ne hne]
    · obtain rfl := some.inj hstep
      exact h
  | finish tid =>
    simp only [Step, next] at hstep
    split at hstep
    · obtain rfl := some.inj hstep
      have hdrops : w.Drops [tid] { w with waits := (w.waits.finish tid).2 } := by
        refine ⟨.of_not_queued fun t ht ↦ ?_, w.waits.ends_finish tid, rfl, fun _ _ hin ↦ hin⟩
        rw [mem_singleton.mp ht, h.pending]
        exact hok
      refine (h.drops hdrops).congr rfl rfl rfl fun t ht ↦ inWait_setTask ?_ _ ht
      simp
    · nomatch hstep
  | cleanup tid =>
    simp only [Step, next] at hstep
    split at hstep
    · rename_i key completion htask
      obtain rfl := some.inj hstep
      have hnot : ¬ (w.tasks tid).InWait := by
        rw [htask]
        exact fun hin ↦ hin
      exact h.congr (retainOthers_of_not_queued (h.not_queued hnot) _ _) rfl rfl
        fun t ht ↦ inWait_setTask (h.record_eq_none hnot) _ ht
    · nomatch hstep
  | wake key nrWake bitset =>
    have hr := h.tidy.wakes key nrWake bitset
    exact h.drops ⟨hr.queues, hr.waits.ends, rfl, fun _ _ hin ↦ hin⟩
  | requeue uaddr uaddr2 source target nrWake nrRequeue expected word =>
    have hfutex : w.requeued source target [] = w.futex := by
      funext t
      simp [requeued]
    have hnone : Agree ⟨w.toFutexState, w.tasks, w.requeued source target []⟩ :=
      h.congr rfl rfl hfutex fun _ _ hin ↦ hin
    unfold futexRequeue
    split_ifs
    · exact hnone
    split
    · exact h.requeueQueues source target nrWake nrRequeue
    · exact hnone
    · split_ifs
      · exact hnone
      · exact h.requeueQueues source target nrWake nrRequeue
  | checkTimeouts nowUser nowTimeout =>
    exact h.drops ⟨loses_foldl_removeTid _ _, w.waits.expire_ends nowUser nowTimeout,
      rfl, fun _ _ hin ↦ hin⟩
  | interrupt tid =>
    unfold interruptFutexWait
    by_cases hpending : w.waits.Pending tid
    · have hdone := w.waits.complete_of_pending hpending (c := .interrupted) (by decide)
      rw [if_pos hdone.1]
      exact h.drops ⟨w.queues.loses_removeTid tid, hdone.2.1, rfl, fun _ _ hin ↦ hin⟩
    · rw [complete_of_not_pending hpending]
      exact h
  | exit tid =>
    have hdrops : w.Drops [tid] { w with toFutexState := removeFutexWaiter w.toFutexState tid } :=
      ⟨w.queues.loses_removeTid tid, w.waits.ends_cancel tid, rfl, fun _ _ hin ↦ hin⟩
    refine (h.drops hdrops).congr rfl rfl rfl fun t ht ↦ inWait_setTask ?_ _ ht
    simp [removeFutexWaiter]

theorem agree_init (h : w.Init) : w.Agree := by
  rcases w with ⟨s, tasks, futex⟩
  rcases h with ⟨hstate, htasks⟩
  cases hstate
  exact ⟨fun _ _ hq ↦ (nomatch hq), fun _ ↦ nodup_nil, fun _ _ hq ↦ (nomatch hq),
    fun _ _ hq ↦ (nomatch hq), fun t ↦ by
      rw [queued_iff, pending_iff]
      exact ⟨fun ⟨_, _, hq, _⟩ ↦ (nomatch hq), fun ⟨_, hwait⟩ ↦ (nomatch hwait)⟩,
    fun _ ht ↦ absurd rfl ht⟩

theorem Agree.nodup_entries (h : w.Agree) : (w.queues.entries.map FutexQ.tid).Nodup := by
  unfold entries
  rw [map_flatMap, nodup_flatMap]
  refine ⟨fun i _ ↦ h.once i, (nodup_finRange _).imp fun {i j} hne ↦ ?_⟩
  intro t hi hj
  rcases mem_map.mp hi with ⟨q, hq, rfl⟩
  rcases mem_map.mp hj with ⟨e, he, htid⟩
  exact hne (h.bucket_unique hq he htid.symm)

theorem Agree.wake_one (h : w.Agree) {key : FutexKey} (ht : w.WaitsOn t key) :
    ∃ t', w.WaitsOn t' key ∧
      (futexWake w.toFutexState key 1 futexBitsetMatchAny).woken = [t'] ∧
      (futexWake w.toFutexState key 1 futexBitsetMatchAny).state.waits.completion t' =
        some .woken := by
  rcases queued_iff.mp ((h.pending t).mpr ht.1) with ⟨i, q, hq, rfl⟩
  have hkey : q.key = key := some.inj ((h.current i q hq).symm.trans ht.2)
  have hi : futexHashIdx key = i := hkey ▸ h.placed i q hq
  have hselected : ∃ e ∈ w.queues.buckets i,
      (e.key == key && e.bitset &&& futexBitsetMatchAny != 0) = true := by
    have hmask : q.bitset &&& futexBitsetMatchAny = q.bitset := BitVec.and_allOnes
    refine ⟨q, hq, ?_⟩
    rw [hmask]
    simpa [hkey] using h.selectable i q hq
  have hr := h.tidy.wakes key 1 futexBitsetMatchAny
  obtain ⟨e, rest, hfirst⟩ : ∃ e rest, w.waiters key futexBitsetMatchAny = e :: rest := by
    refine exists_cons_of_ne_nil fun hnil ↦ ?_
    obtain ⟨e, he, hsel⟩ := hselected
    exact filter_eq_nil_iff.mp hnil e (hi ▸ he) hsel
  have hwoken : (futexWake w.toFutexState key 1 futexBitsetMatchAny).woken = [e.tid] := by
    simpa [hfirst] using hr.woken
  obtain ⟨he, hsel⟩ := mem_filter.mp (hfirst ▸ mem_cons_self : e ∈ w.waiters key futexBitsetMatchAny)
  rw [hi] at he
  simp only [Bool.and_eq_true, beq_iff_eq] at hsel
  have hpending := h.pending_of_mem he
  refine ⟨e.tid, ⟨hpending, hsel.1 ▸ h.current i e he⟩, hwoken, ?_⟩
  obtain ⟨d, hwait⟩ := pending_iff.mp hpending
  simp [completion, hr.waits e.tid, hwoken, hwait]

theorem Agree.of_run (hrun : Run Init Settled Step w) : w.Agree :=
  hrun.invariant (fun _ hinit ↦ agree_init hinit) fun _ _ _ hI hok hstep ↦ hI.step hok hstep

/-- In every run in which no thread removes a record that is still pending, and between any two steps: a
thread has an entry exactly when its record is pending, it has one at most, under the futex it waits on,
and a wake of one thread on a futex with a waiter ends the wait of a thread that waits there. -/
theorem agree_of_run {w : FutexWorld} (hrun : Run Init Settled Step w) :
    (∀ t, w.queues.Queued t ↔ w.waits.Pending t) ∧ (w.queues.entries.map FutexQ.tid).Nodup ∧
      (∀ q ∈ w.queues.entries, w.futex q.tid = some q.key) ∧
      ∀ key t, w.WaitsOn t key → ∃ t', w.WaitsOn t' key ∧
        (futexWake w.toFutexState key 1 futexBitsetMatchAny).woken = [t'] ∧
        (futexWake w.toFutexState key 1 futexBitsetMatchAny).state.waits.completion t' =
          some .woken := by
  have h := Agree.of_run hrun
  refine ⟨h.pending, h.nodup_entries, fun q hq ↦ ?_, fun key t ht ↦ h.wake_one ht⟩
  rcases mem_entries.mp hq with ⟨i, hi⟩
  exact h.current i q hi

/-! ### Concrete runs -/

def idle : FutexWorld := ⟨⟨.new, .new⟩, fun _ ↦ .running none, fun _ ↦ none⟩

theorem init_idle : idle.Init := ⟨rfl, fun _ hin ↦ hin⟩

def futexAt (page : Nat) : FutexKey := ⟨7, page * 4096⟩

/-- A wait without a deadline that finds the expected value and blocks. -/
def waitAt (tid page : Nat) : FutexLabel :=
  .wait tid (futexAt page) 0 futexBitsetMatchAny none ⟨.ok 0, false, true, false⟩

/-- Thread 1 is woken twice for its first wait: at once by a signal, and later by the waker, when it waits
again and a requeue from futex 2 to futex 3 has moved it. -/
def lateWakeup : List FutexLabel :=
  [waitAt 1 1, .wake (futexAt 1) 1 futexBitsetMatchAny, .wakeupTask 1, .finish 1, .cleanup 1,
    waitAt 1 2, .requeue 8192 12288 (futexAt 2) (futexAt 3) 0 1 none (.ok 0), .wakeupTask 1,
    .finish 1, .cleanup 1, waitAt 2 3, waitAt 1 4]

/-- Thread 1 waits on futex 4 and still has an entry under futex 3, on which thread 2 waits. A wake of one
thread on futex 3 ends the wait of thread 1. -/
theorem stale_entry_takes_wake : ∃ w, Run Init (fun _ _ ↦ True) Step w ∧
    w.WaitsOn 1 (futexAt 4) ∧ w.WaitsOn 2 (futexAt 3) ∧ ¬ (w.queues.entries.map FutexQ.tid).Nodup ∧
    (futexWake w.toFutexState (futexAt 3) 1 futexBitsetMatchAny).woken = [1] ∧
    (futexWake w.toFutexState (futexAt 3) 1 futexBitsetMatchAny).state.waits.Pending 2 :=
  Run.exists_of_runWhile init_idle lateWakeup (by decide +kernel)

/-- Two threads wait on one futex, are moved to another by a requeue, and the first of them is woken. -/
theorem agree_after_requeue : ∃ w, Run Init Settled Step w ∧ w.WaitsOn 2 (futexAt 3) ∧
    ∃ t', w.WaitsOn t' (futexAt 3) ∧
      (futexWake w.toFutexState (futexAt 3) 1 futexBitsetMatchAny).woken = [t'] := by
  obtain ⟨w, hrun, hcheck⟩ : ∃ w, Run Init Settled Step w ∧ w.WaitsOn 2 (futexAt 3) :=
    Run.exists_of_runWhile init_idle
      [waitAt 1 2, waitAt 2 2, .requeue 8192 12288 (futexAt 2) (futexAt 3) 0 2 none (.ok 0),
        .wakeupTask 1, .interrupt 1, .finish 1, .cleanup 1, waitAt 1 3] (by decide +kernel)
  rcases (agree_of_run hrun).2.2.2 (futexAt 3) 2 hcheck with ⟨t', ht, hwoken, -⟩
  exact ⟨w, hrun, hcheck, t', ht, hwoken⟩

/-- In a state where every queued thread has one entry and a pending record, a wake ends the waits of the
first entries it selects and changes nothing else; a requeue wakes the first waiters of the source, moves
the next ones to the end of the target's bucket, and no waiter is lost or duplicated; a requeue that fails,
and one whose comparison fails, changes nothing. -/
theorem wake_requeue_exact {s : FutexState} (h : s.Tidy) :
    (∀ key nrWake bitset, FutexState.Wakes key nrWake bitset s (futexWake s key nrWake bitset)) ∧
    ∀ uaddr uaddr2 source target nrWake nrRequeue expected word,
      let r := futexRequeue s uaddr uaddr2 source target nrWake nrRequeue expected word
      (uaddr ≠ 0 → uaddr2 ≠ 0 → (∀ e, expected = some e → word = .ok e) →
        FutexState.Requeues source target nrWake nrRequeue s r ∧ r.state.Tidy ∧
          ∀ t, r.state.queues.Queued t ↔ s.queues.Queued t ∧ t ∉ r.woken) ∧
      ((uaddr = 0 ∨ uaddr2 = 0 ∨ ∃ e, expected = some e ∧ word ≠ .ok e) →
        (∃ e, r.result = .error e) ∧ r.woken = [] ∧ r.moved = [] ∧ r.state = s) := by
  refine ⟨h.wakes, fun uaddr uaddr2 source target nrWake nrRequeue expected word ↦ ?_⟩
  have hr := h.requeues source target nrWake nrRequeue
  have hdone := And.intro hr (And.intro (hr.tidy h) (hr.queued h))
  unfold futexRequeue
  split_ifs with haddr
  · exact ⟨fun h₁ h₂ ↦ absurd haddr (by tauto), fun _ ↦ ⟨⟨_, rfl⟩, rfl, rfl, rfl⟩⟩
  match expected, word with
  | none, _ => exact ⟨fun _ _ _ ↦ hdone, by simp; tauto⟩
  | some e, .error e' => exact ⟨fun _ _ hword ↦ (nomatch hword e rfl), fun _ ↦ ⟨⟨_, rfl⟩, rfl, rfl, rfl⟩⟩
  | some e, .ok actual =>
    dsimp only
    split_ifs with hactual
    · refine ⟨fun _ _ hword ↦ ?_, fun _ ↦ ⟨⟨_, rfl⟩, rfl, rfl, rfl⟩⟩
      exact absurd (Except.ok.inj (hword e rfl)) hactual
    · exact ⟨fun _ _ _ ↦ hdone, by simp at hactual; simp [hactual]; tauto⟩

/-- Threads 1 and 3 wait on futex 2 and thread 2 on futex 258 in the same bucket: a requeue of one to futex
258 wakes thread 1 and moves thread 3 behind thread 2. -/
theorem requeue_within_bucket : ∃ s : FutexState, s.Tidy ∧
    (s.queues.buckets (futexHashIdx (futexAt 258))).map FutexQ.tid = [1, 2, 3] ∧
    let r := futexRequeue s 8192 1056768 (futexAt 2) (futexAt 258) 1 1 none (.ok 0)
    r.woken = [1] ∧ r.moved.map FutexQ.tid = [3] ∧ r.state.Tidy := by
  obtain ⟨w, hrun, hbucket, hwaiters⟩ : ∃ w, Run Init Settled Step w ∧
      (w.queues.buckets (futexHashIdx (futexAt 258))).map FutexQ.tid = [1, 2, 3] ∧
      (w.sourceWaiters (futexAt 2)).map FutexQ.tid = [1, 3] :=
    Run.exists_of_runWhile init_idle [waitAt 1 2, waitAt 2 258, waitAt 3 2] (by decide +kernel)
  have htidy := (Agree.of_run hrun).tidy
  obtain ⟨hr, hafter, -⟩ := ((wake_requeue_exact htidy).2 8192 1056768 (futexAt 2) (futexAt 258) 1 1 none
    (.ok 0)).1 (by decide) (by decide) (by simp)
  refine ⟨w.toFutexState, htidy, hbucket, ?_, ?_, hafter⟩
  · rw [hr.woken, map_take, hwaiters]
    rfl
  · rw [hr.moved, if_neg (by decide), List.map_map]
    show map FutexQ.tid (take 1 (drop 1 _)) = _
    rw [map_take, map_drop, hwaiters]
    rfl

end FutexWorld

end RespOS.Task
