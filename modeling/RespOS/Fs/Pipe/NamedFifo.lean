import RespOS.Basis.Counting
import RespOS.Basis.Runs
import RespOS.Fs.Pipe.RingBuffer

/-!
# Named FIFOs: the table of open ends

`NAMED_FIFOS` has one entry for every path at which a FIFO is open or being opened, with the number of
readable and of writable ends. `open_named_fifo` counts its end first, then meets the other side: it
wakes the openers that wait for it and waits itself if nobody is there. A signal takes the count back;
so does the drop of an end, which also marks its side of the buffer closed when it was the last.

A state of the system is the table together with the calls of `open_named_fifo` in progress and the ends
that are open; every lock section, and every wake-up between two of them, is a step. `Accounted` is what
the table should say of this state. Three exits break it: a nonblocking write-only open leaves the entry
it made behind (`entry_without_end`), an interrupted open takes the count of its side to zero without
closing that side, and a nonblocking read-only open finishes although no writer has been there to close
its side. `accounted_of_run` proves the accounting in the runs without these exits (`Orderly`).
-/

namespace RespOS.Fs

open RespOS.Basis List Option Function

inductive Side
  | reader
  | writer
  deriving DecidableEq

instance (p : Side → Prop) [DecidablePred p] : Decidable (∀ side, p side) :=
  decidable_of_iff (p .reader ∧ p .writer)
    ⟨fun h side ↦ by cases side; exacts [h.1, h.2], fun h ↦ ⟨h .reader, h .writer⟩⟩

def Side.other : Side → Side
  | reader => writer
  | writer => reader

/-- The bits of `OpenFlags` that `open_named_fifo` looks at. -/
structure FifoFlags where
  wronly : Bool
  rdwr : Bool
  nonblock : Bool

namespace FifoFlags

def readable (flags : FifoFlags) : Bool := !flags.wronly || flags.rdwr

def writable (flags : FifoFlags) : Bool := flags.wronly || flags.rdwr

def holds (flags : FifoFlags) : Side → Bool
  | .reader => flags.readable
  | .writer => flags.writable

theorem exists_holds (flags : FifoFlags) : ∃ side, flags.holds side = true := by
  cases h : flags.wronly with
  | false => exact ⟨.reader, by simp [holds, readable, h]⟩
  | true => exact ⟨.writer, by simp [holds, writable, h]⟩

end FifoFlags

structure NamedFifo where
  buffer : PipeRingBuffer
  readers : Nat := 0
  writers : Nat := 0
  readerOpenWaiters : List Nat := []
  writerOpenWaiters : List Nat := []

variable {flags : FifoFlags} {tid : Nat} {side : Side} {fifo' fifo : NamedFifo}

namespace NamedFifo

variable (f : NamedFifo)

def count : Side → Nat
  | .reader => f.readers
  | .writer => f.writers

def closed : Side → Bool
  | .reader => f.buffer.readClosed
  | .writer => f.buffer.writeClosed

/-- The end is counted, and its side of the buffer is open. -/
def enter (flags : FifoFlags) : NamedFifo :=
  let f := if flags.readable then
    { f with readers := f.readers + 1, buffer := { f.buffer with readClosed := false } } else f
  if flags.writable then
    { f with writers := f.writers + 1, buffer := { f.buffer with writeClosed := false } } else f

/-- Neither side waits for the opener of this thread any more. -/
def retain (tid : Nat) : NamedFifo :=
  { f with
    readerOpenWaiters := f.readerOpenWaiters.filter (· ≠ tid)
    writerOpenWaiters := f.writerOpenWaiters.filter (· ≠ tid) }

/-- The meeting of the two sides: the openers to wake, whether this one has to wait, and the entry in
which the first have left their queue and this one has joined one. -/
def rendezvous (flags : FifoFlags) (tid : Nat) : List Nat × Bool × NamedFifo :=
  let meetsWriter := flags.readable && decide (0 < f.writers)
  let meetsReader := flags.writable && decide (0 < f.readers)
  let tids := (if meetsWriter then f.writerOpenWaiters else []) ++
    if meetsReader then f.readerOpenWaiters else []
  let readerOpenWaiters := if meetsReader then [] else f.readerOpenWaiters
  let writerOpenWaiters := if meetsWriter then [] else f.writerOpenWaiters
  let waitForWriter :=
    flags.readable && !flags.writable && !flags.nonblock && decide (f.writers = 0)
  let waitForReader := flags.writable && !flags.readable && decide (f.readers = 0)
  let push := fun waiters : List Nat ↦ if tid ∈ waiters then waiters else waiters ++ [tid]
  (tids, waitForWriter || waitForReader,
    { f with
      readerOpenWaiters := if waitForWriter then push readerOpenWaiters else readerOpenWaiters
      writerOpenWaiters := if !waitForWriter && waitForReader then push writerOpenWaiters
        else writerOpenWaiters })

/-- The check between publishing `Blocked` and sleeping. -/
def counterpartPresent (flags : FifoFlags) : Bool :=
  flags.readable && decide (0 < f.writers) || flags.writable && decide (0 < f.readers)

/-- An interrupted opener takes back its waiter and its count. -/
def interrupt (flags : FifoFlags) (tid : Nat) : NamedFifo :=
  let f := f.retain tid
  let f := if flags.readable then { f with readers := f.readers - 1 } else f
  if flags.writable then { f with writers := f.writers - 1 } else f

/-- The drop of an end: the last end of a side closes it. -/
def leave (flags : FifoFlags) : NamedFifo :=
  let f := if flags.readable && decide (0 < f.readers) then
    { f with
      readers := f.readers - 1
      buffer := if f.readers = 1 then f.buffer.closeRead.2 else f.buffer } else f
  if flags.writable && decide (0 < f.writers) then
    { f with
      writers := f.writers - 1
      buffer := if f.writers = 1 then f.buffer.closeWrite.2 else f.buffer } else f

/-- An entry without ends is removed from the table. -/
def unlessUnused : Option NamedFifo := if f.readers = 0 ∧ f.writers = 0 then none else some f

/-- A side without ends is closed. -/
def Settled : Prop := ∀ side, f.count side = 0 → f.closed side = true

variable {f}

theorem count_enter (flags : FifoFlags) (side : Side) :
    (f.enter flags).count side = f.count side + if flags.holds side then 1 else 0 := by
  cases hr : flags.readable <;> cases hw : flags.writable <;> cases side <;>
    simp [enter, count, FifoFlags.holds, hr, hw]

theorem closed_enter (flags : FifoFlags) (side : Side) :
    (f.enter flags).closed side = if flags.holds side then false else f.closed side := by
  cases hr : flags.readable <;> cases hw : flags.writable <;> cases side <;>
    simp [enter, closed, FifoFlags.holds, hr, hw]

def SameSides (f f' : NamedFifo) : Prop :=
  ∀ side, f'.count side = f.count side ∧ f'.closed side = f.closed side

theorem sameSides_retain (tid : Nat) : f.SameSides (f.retain tid) := by
  rintro (_ | _) <;> exact ⟨rfl, rfl⟩

section

variable (flags : FifoFlags)

theorem sameSides_rendezvous (tid : Nat) : f.SameSides (f.rendezvous flags tid).2.2 := by
  rintro (_ | _) <;> exact ⟨rfl, rfl⟩

theorem count_interrupt (tid : Nat) (side : Side) :
    (f.interrupt flags tid).count side = f.count side - if flags.holds side then 1 else 0 := by
  cases hr : flags.readable <;> cases hw : flags.writable <;> cases side <;>
    simp [interrupt, retain, count, FifoFlags.holds, hr, hw]

theorem closed_interrupt (tid : Nat) (side : Side) :
    (f.interrupt flags tid).closed side = f.closed side := by
  cases hr : flags.readable <;> cases hw : flags.writable <;> cases side <;>
    simp [interrupt, retain, closed, hr, hw]

theorem count_leave (side : Side) :
    (f.leave flags).count side = f.count side - if flags.holds side then 1 else 0 := by
  cases hr : flags.readable <;> cases hw : flags.writable <;> cases side <;>
    simp only [leave, count, FifoFlags.holds, hr, hw, Bool.true_and, Bool.false_and,
      decide_eq_true_eq] <;>
    split_ifs <;> simp_all

theorem closed_leave (side : Side) : (f.leave flags).closed side =
      if flags.holds side = true ∧ f.count side = 1 then true else f.closed side := by
  cases hr : flags.readable <;> cases hw : flags.writable <;> cases side <;>
    simp only [leave, closed, count, FifoFlags.holds, hr, hw, Bool.true_and, Bool.false_and,
      decide_eq_true_eq, PipeRingBuffer.closeRead, PipeRingBuffer.closeWrite] <;>
    split_ifs <;> simp_all

end

theorem unlessUnused_eq_some {f' : NamedFifo} (h : f.unlessUnused = some f') :
    f = f' ∧ ∃ side, 0 < f.count side := by
  unfold unlessUnused at h
  split_ifs at h with hunused
  refine ⟨some.inj h, ?_⟩
  by_cases hr : f.readers = 0
  · exact ⟨.writer, Nat.pos_of_ne_zero fun hw ↦ hunused ⟨hr, hw⟩⟩
  · exact ⟨.reader, Nat.pos_of_ne_zero hr⟩

theorem unlessUnused_eq_none (h : f.unlessUnused = none) (side : Side) : f.count side = 0 := by
  unfold unlessUnused at h
  split_ifs at h with hunused
  cases side
  · exact hunused.1
  · exact hunused.2

def Meets (f : NamedFifo) (flags : FifoFlags) : Prop :=
  flags.readable = true ∧ 0 < f.writers ∨ flags.writable = true ∧ 0 < f.readers

theorem meets_of_rendezvous_ne_nil (h : (f.rendezvous flags tid).1 ≠ []) : f.Meets flags := by
  contrapose! h
  simp only [Meets, not_or, not_and] at h
  simp only [rendezvous, Bool.and_eq_true, decide_eq_true_eq]
  rw [if_neg fun hw ↦ h.1 hw.1 hw.2, if_neg fun hr ↦ h.2 hr.1 hr.2, append_nil]

/-- An opener that goes on without waiting meets the other side, has both sides itself, or opens for
reading only without blocking. -/
theorem of_rendezvous_eq_false (h : (f.rendezvous flags tid).2.1 = false) :
    f.Meets flags ∨ (flags.readable = true ∧ flags.writable = true) ∨
      flags.readable = true ∧ flags.writable = false ∧ flags.nonblock = true := by
  obtain ⟨side, hside⟩ := flags.exists_holds
  cases hr : flags.readable <;> cases hw : flags.writable
  · cases side <;> simp [FifoFlags.holds, hr, hw] at hside
  · have hreaders : f.readers ≠ 0 := by simpa [rendezvous, hr, hw] using h
    exact .inl (.inr ⟨hw, Nat.pos_of_ne_zero hreaders⟩)
  · cases hn : flags.nonblock with
    | true => exact .inr (.inr ⟨rfl, rfl, rfl⟩)
    | false =>
      have hwriters : f.writers ≠ 0 := by simpa [rendezvous, hr, hw, hn] using h
      exact .inl (.inl ⟨hr, Nat.pos_of_ne_zero hwriters⟩)
  · exact .inr (.inl ⟨rfl, rfl⟩)

theorem meets_of_counterpartPresent (h : f.counterpartPresent flags = true) : f.Meets flags := by
  simpa [counterpartPresent, Meets] using h

theorem settled_of_pos (h : ∀ side, 0 < f.count side) : f.Settled :=
  fun side hzero ↦ absurd hzero (Nat.ne_of_gt (h side))

end NamedFifo

/-! ### The openers in progress and the open ends -/

/-- Where a call of `open_named_fifo` stands. -/
inductive OpenStage
  /-- Its end is counted. -/
  | counted
  /-- It has left the meeting section and wakes the openers it met. -/
  | waking (tids : List Nat) (wait : Bool)
  /-- It has published `Blocked` and is going to check once more for the other side. -/
  | waiting
  | blocked
  /-- It is runnable again. -/
  | woken
  /-- It has left the loop. -/
  | matched

structure Opener where
  tid : Nat
  path : String
  flags : FifoFlags
  stage : OpenStage := .counted
  interrupted : Bool := false

namespace Opener

/-- `wakeup_task`: it makes a blocked task runnable. -/
def wake (o : Opener) : Opener :=
  match o.stage with
  | .waiting => { o with stage := .woken }
  | .blocked => { o with stage := .woken }
  | _ => o

theorem path_wake (o : Opener) : o.wake.path = o.path := by
  unfold wake
  split <;> rfl

theorem flags_wake (o : Opener) : o.wake.flags = o.flags := by
  unfold wake
  split <;> rfl

def wakesNext (o : Opener) : Option Nat :=
  match o.stage with
  | .waking tids _ => tids.head?
  | _ => none

/-- The opener is going to succeed unless a signal arrives, or it is about to wake one that will. -/
def Joined (o : Opener) : Prop :=
  match o.stage with
  | .waking tids wait => tids ≠ [] ∨ wait = false
  | .woken => o.interrupted = false
  | .matched => True
  | _ => False

end Opener

structure NamedFifoEnd where
  path : String
  flags : FifoFlags

/-- The table, the calls in progress and the open ends. -/
structure FifoState where
  table : String → Option NamedFifo
  openers : List Opener
  ends : List NamedFifoEnd

/-- The steps. The natural numbers are positions in the lists of openers and of ends. -/
inductive FifoAction
  | openNamedFifo (tid : Nat) (path : String) (flags : FifoFlags) (fsuid pipeMaxSize : Nat)
  | rendezvous (i : Nat)
  | wake (i : Nat)
  | recheck (i : Nat)
  | signal (i : Nat)
  | resume (i : Nat)
  | finish (i : Nat)
  | drop (j : Nat)

namespace FifoState

variable (s : FifoState)

def setEntry (path : String) (entry : Option NamedFifo) : FifoState :=
  { s with table := Function.update s.table path entry }

def setOpener (i : Nat) (o : Opener) : FifoState := { s with openers := s.openers.set i o }

def next : FifoAction → Option FifoState
  | .openNamedFifo tid path flags fsuid pipeMaxSize =>
    if s.openers.any (·.tid = tid) then none else
    let fifo := (s.table path).getD { buffer := .new fsuid pipeMaxSize }
    if flags.writable && !flags.readable && flags.nonblock && decide (fifo.readers = 0) then
      -- `ENXIO`
      some (s.setEntry path (some fifo))
    else
      let s := s.setEntry path (some (fifo.enter flags))
      some { s with openers := s.openers ++ [{ tid := tid, path := path, flags := flags }] }
  | .rendezvous i =>
    match s.openers[i]? with
    | some o =>
      match o.stage, s.table o.path with
      | .counted, some fifo =>
        let r := fifo.rendezvous o.flags o.tid
        some ((s.setEntry o.path (some r.2.2)).setOpener i { o with stage := .waking r.1 r.2.1 })
      | .counted, none => some { s with openers := s.openers.eraseIdx i }
      | _, _ => none
    | none => none
  | .wake i =>
    match s.openers[i]? with
    | some o =>
      match o.stage with
      | .waking (tid :: tids) wait =>
        let s := { s with openers := s.openers.map fun u : Opener ↦ if u.tid = tid then u.wake else u }
        some (s.setOpener i { o with stage := .waking tids wait })
      | .waking [] wait => some (s.setOpener i { o with stage := if wait then .waiting else .matched })
      | _ => none
    | none => none
  | .recheck i =>
    match s.openers[i]? with
    | some o =>
      match o.stage with
      | .waiting =>
        let present := (s.table o.path).any (·.counterpartPresent o.flags)
        some (s.setOpener i { o with stage := if present || o.interrupted then .woken else .blocked })
      | _ => none
    | none => none
  | .signal i =>
    (s.openers[i]?).map fun o ↦ s.setOpener i { o.wake with interrupted := true }
  | .resume i =>
    match s.openers[i]? with
    | some o =>
      match o.stage with
      | .woken =>
        if o.interrupted then
          let s := { s with openers := s.openers.eraseIdx i }
          -- `EINTR`
          some (s.setEntry o.path
            ((s.table o.path).bind fun fifo ↦ (fifo.interrupt o.flags o.tid).unlessUnused))
        else some (s.setOpener i { o with stage := .matched })
      | _ => none
    | none => none
  | .finish i =>
    match s.openers[i]? with
    | some o =>
      match o.stage with
      | .matched =>
        let s := s.setEntry o.path ((s.table o.path).map (·.retain o.tid))
        some { s with openers := s.openers.eraseIdx i, ends := s.ends ++ [⟨o.path, o.flags⟩] }
      | _ => none
    | none => none
  | .drop j =>
    (s.ends[j]?).map fun e ↦
      let s := { s with ends := s.ends.eraseIdx j }
      s.setEntry e.path ((s.table e.path).bind fun fifo ↦ (fifo.leave e.flags).unlessUnused)

def Step (s : FifoState) (a : FifoAction) (s' : FifoState) : Prop := s.next a = some s'

/-- The live ends of one kind at a path together with the openers of that kind in progress. -/
def live (path : String) (side : Side) : Nat :=
  s.ends.countP (fun e ↦ decide (e.path = path) && e.flags.holds side) +
    s.openers.countP fun o ↦ decide (o.path = path) && o.flags.holds side

/-- What the table should say. -/
structure Accounted : Prop where
  present : ∀ path, (s.table path).isSome = true ↔
    (∃ e ∈ s.ends, e.path = path) ∨ ∃ o ∈ s.openers, o.path = path
  readers : ∀ path fifo, s.table path = some fifo → fifo.readers = s.live path .reader
  writers : ∀ path fifo, s.table path = some fifo → fifo.writers = s.live path .writer
  closed : ∀ path fifo, s.table path = some fifo → (∃ e ∈ s.ends, e.path = path) →
    (fifo.buffer.readClosed = true ↔ fifo.readers = 0) ∧
    (fifo.buffer.writeClosed = true ↔ fifo.writers = 0)

structure Init : Prop where
  table : ∀ path, s.table path = none
  openers : s.openers = []
  ends : s.ends = []

/-- The condition on the steps: a nonblocking write-only open finds an entry at its path; a nonblocking
read-only open meets a writer, or a side that a writer has closed; a wake-up finds its opener at the
path it was collected at; and an interrupted opener is not the last end of its side while the other side
has ends. -/
def Orderly (s : FifoState) : FifoAction → Prop
  | .openNamedFifo _ path flags _ _ => flags.writable = true → flags.readable = false →
      flags.nonblock = true → (s.table path).isSome = true
  | .rendezvous i => ∀ o ∈ s.openers[i]?, ∀ fifo ∈ s.table o.path,
      o.flags.writable = false → o.flags.nonblock = true →
        0 < fifo.writers ∨ fifo.buffer.writeClosed = true
  | .wake i => ∀ o ∈ s.openers[i]?, ∀ tid ∈ o.wakesNext, ∀ u ∈ s.openers, u.tid = tid →
      u.path = o.path
  | .resume i => ∀ o ∈ s.openers[i]?, o.interrupted = true → ∀ fifo ∈ s.table o.path,
      ∀ side, o.flags.holds side = true → fifo.count side = 1 → fifo.count side.other = 0
  | _ => True

instance (s : FifoState) (a : FifoAction) : Decidable (Orderly s a) := by
  cases a <;> unfold Orderly <;> infer_instance

end FifoState

/-! ### One path -/

/-- What is known of the entry of a path: it counts the ends and the openers there, a side with ends is
not closed, and once somebody has met the other side a side without ends is. -/
structure EntryOk (entry : Option NamedFifo) (live : Side → Nat) (joined : Prop) : Prop where
  count : ∀ side, entry.elim 0 (·.count side) = live side
  used : ∀ fifo, entry = some fifo → ∃ side, 0 < fifo.count side
  opened : ∀ fifo, entry = some fifo → ∀ side, 0 < fifo.count side → fifo.closed side = false
  settled : joined → ∀ fifo, entry = some fifo → fifo.Settled

namespace EntryOk

variable {entry : Option NamedFifo} {live live' : Side → Nat} {joined joined' : Prop}
  {fifo : NamedFifo} {flags : FifoFlags}

theorem count_eq (h : EntryOk (some fifo) live joined) (side : Side) : fifo.count side = live side :=
  h.count side

theorem exists_of_live (h : EntryOk entry live joined) (hlive : 0 < live side) :
    ∃ fifo, entry = some fifo := by
  cases entry with
  | none => exact absurd (h.count side) (Nat.ne_of_lt hlive)
  | some fifo => exact ⟨fifo, rfl⟩

theorem same (h : EntryOk (some fifo) live joined) (hsame : fifo.SameSides fifo')
    (hlive : ∀ side, live' side = live side) (hjoined : joined' → joined ∨ fifo.Settled) :
    EntryOk (some fifo') live' joined' := by
  refine ⟨fun side ↦ ?_, fun f hf ↦ ?_, fun f hf side hpos ↦ ?_, fun hj f hf side hzero ↦ ?_⟩
  · rw [hlive, ← h.count side]
    exact (hsame side).1
  · obtain rfl := some.inj hf
    obtain ⟨side, hpos⟩ := h.used fifo rfl
    exact ⟨side, by rwa [(hsame side).1]⟩
  · obtain rfl := some.inj hf
    rw [(hsame side).1] at hpos
    rw [(hsame side).2]
    exact h.opened fifo rfl side hpos
  · obtain rfl := some.inj hf
    rw [(hsame side).1] at hzero
    rw [(hsame side).2]
    obtain hold | hnew := hjoined hj
    · exact h.settled hold fifo rfl side hzero
    · exact hnew side hzero

theorem enter {new : NamedFifo} (h : EntryOk entry live joined) (hnew : ∀ side, new.count side = 0)
    (hlive : ∀ side, live' side = live side + if flags.holds side then 1 else 0)
    (hjoined : joined' → joined ∧ ∃ side, 0 < live side) :
    EntryOk (some ((entry.getD new).enter flags)) live' joined' := by
  have hcount : ∀ side, (entry.getD new).count side = live side := fun side ↦ by
    cases entry with
    | none => exact (hnew side).trans (h.count side)
    | some fifo => exact h.count side
  refine ⟨fun side ↦ ?_, fun f hf ↦ ?_, fun f hf side hpos ↦ ?_, fun hj f hf side hzero ↦ ?_⟩
  · exact (NamedFifo.count_enter flags side).trans (by rw [hcount, hlive])
  · obtain rfl := some.inj hf
    obtain ⟨side, hside⟩ := flags.exists_holds
    exact ⟨side, by rw [NamedFifo.count_enter, if_pos hside]; omega⟩
  · obtain rfl := some.inj hf
    rw [NamedFifo.closed_enter]
    split_ifs with hside
    · rfl
    · rw [NamedFifo.count_enter, if_neg hside, hcount, Nat.add_zero] at hpos
      obtain ⟨fifo, rfl⟩ := h.exists_of_live hpos
      exact h.opened fifo rfl side (by rwa [h.count_eq])
  · obtain rfl := some.inj hf
    obtain ⟨hold, other, hpos⟩ := hjoined hj
    obtain ⟨fifo, rfl⟩ := h.exists_of_live hpos
    rw [NamedFifo.count_enter] at hzero
    rw [NamedFifo.closed_enter, if_neg (by split_ifs at hzero with hside; exact hside)]
    exact h.settled hold fifo rfl side (Nat.eq_zero_of_add_eq_zero_right hzero)

section Removed

variable (h : EntryOk (some fifo) live joined)
  (hlive : ∀ side, live' side + (if flags.holds side then 1 else 0) = live side)
include h hlive

theorem remove
    (hcount : ∀ side, fifo'.count side = fifo.count side - if flags.holds side then 1 else 0)
    (hopened : ∀ side, 0 < fifo'.count side → fifo'.closed side = fifo.closed side)
    (hsettled : joined' → (∃ side, 0 < fifo'.count side) → fifo'.Settled) :
    EntryOk fifo'.unlessUnused live' joined' := by
  have hcount' : ∀ side, fifo'.count side = live' side := fun side ↦ by
    have := hlive side
    rw [hcount, h.count_eq]
    omega
  refine ⟨fun side ↦ ?_, fun f hf ↦ ?_, fun f hf side hpos ↦ ?_, fun hj f hf ↦ ?_⟩
  · cases hunused : fifo'.unlessUnused with
    | none => rw [← hcount' side, NamedFifo.unlessUnused_eq_none hunused side]; rfl
    | some f =>
      obtain ⟨rfl, -⟩ := NamedFifo.unlessUnused_eq_some hunused
      exact hcount' side
  · obtain ⟨rfl, hpos⟩ := NamedFifo.unlessUnused_eq_some hf
    exact hpos
  · obtain ⟨rfl, -⟩ := NamedFifo.unlessUnused_eq_some hf
    rw [hopened side hpos]
    exact h.opened fifo rfl side (Nat.lt_of_lt_of_le hpos (by rw [hcount]; omega))
  · obtain ⟨rfl, hpos⟩ := NamedFifo.unlessUnused_eq_some hf
    exact hsettled hj hpos

theorem leave (hjoined : joined) : EntryOk (fifo.leave flags).unlessUnused live' joined' := by
  refine h.remove hlive (NamedFifo.count_leave flags) (fun side hpos ↦ ?_) fun _ _ side hzero ↦ ?_
  · rw [NamedFifo.closed_leave, if_neg]
    rintro ⟨hside, hone⟩
    rw [NamedFifo.count_leave, hone, if_pos hside] at hpos
    omega
  · rw [NamedFifo.closed_leave]
    split_ifs with hlast
    · rfl
    refine h.settled hjoined fifo rfl side ?_
    rw [NamedFifo.count_leave] at hzero
    split_ifs at hzero with hside
    · have : fifo.count side ≠ 1 := fun hone ↦ hlast ⟨hside, hone⟩
      omega
    · exact hzero

theorem interrupt (hjoined : joined' → joined)
    (hlast : ∀ side, flags.holds side = true → fifo.count side = 1 → fifo.count side.other = 0) :
    EntryOk (fifo.interrupt flags tid).unlessUnused live' joined' := by
  refine h.remove hlive (NamedFifo.count_interrupt flags tid)
    (fun side _ ↦ NamedFifo.closed_interrupt flags tid side) fun hj hused side hzero ↦ ?_
  rw [NamedFifo.closed_interrupt]
  rw [NamedFifo.count_interrupt] at hzero
  refine h.settled (hjoined hj) fifo rfl side ?_
  split_ifs at hzero with hside
  · -- the last end of its side leaves only together with the entry
    by_contra hne
    have hone : fifo.count side = 1 := by omega
    obtain ⟨used, hpos⟩ := hused
    rw [NamedFifo.count_interrupt] at hpos
    have hother := hlast side hside hone
    cases side <;> cases used <;> simp only [Side.other] at hother <;> split_ifs at hpos <;> omega
  · exact hzero

end Removed

end EntryOk

/-! ### The steps -/

namespace FifoState

open NamedFifo

section Steps

variable {s s' : FifoState} {path : String} {i : Nat} {o o' : Opener}

/-- Somebody at the path has met the other side. -/
def JoinedAt (s : FifoState) (path : String) : Prop :=
  (∃ e ∈ s.ends, e.path = path) ∨ ∃ o ∈ s.openers, o.path = path ∧ o.Joined

def Inv (s : FifoState) : Prop := ∀ path, EntryOk (s.table path) (s.live path) (s.JoinedAt path)

theorem live_pos_of_opener (ho : o ∈ s.openers) (hside : o.flags.holds side = true) :
    0 < s.live o.path side :=
  Nat.add_pos_right _ (countP_pos_iff.mpr ⟨o, ho, by simp [hside]⟩)

theorem live_pos_of_end {e : NamedFifoEnd} (he : e ∈ s.ends) (hside : e.flags.holds side = true) :
    0 < s.live e.path side :=
  Nat.add_pos_left (countP_pos_iff.mpr ⟨e, he, by simp [hside]⟩) _

theorem live_pos_of_joinedAt (h : s.JoinedAt path) : ∃ side, 0 < s.live path side := by
  obtain ⟨e, he, rfl⟩ | ⟨o, ho, rfl, -⟩ := h
  · exact e.flags.exists_holds.imp fun side hside ↦ live_pos_of_end he hside
  · exact o.flags.exists_holds.imp fun side hside ↦ live_pos_of_opener ho hside

theorem live_setOpener (ho : s.openers[i]? = some o) (hpath : o'.path = o.path)
    (hflags : o'.flags = o.flags) (path : String) (side : Side) :
    (s.setOpener i o').live path side = s.live path side := by
  have hset := countP_set_add (b := o')
    (fun o : Opener ↦ decide (o.path = path) && o.flags.holds side) ho
  simp only [hpath, hflags] at hset
  simp only [live, setOpener]
  omega

theorem live_eraseOpener (ho : s.openers[i]? = some o) (path : String) (side : Side) :
    ({ s with openers := s.openers.eraseIdx i } : FifoState).live path side +
      (if decide (o.path = path) && o.flags.holds side then 1 else 0) = s.live path side := by
  have herase := countP_eraseIdx_add
    (fun o : Opener ↦ decide (o.path = path) && o.flags.holds side) ho
  simp only [live]
  omega

theorem live_appendOpener (o : Opener) (path : String) (side : Side) :
    ({ s with openers := s.openers ++ [o] } : FifoState).live path side =
      s.live path side + if decide (o.path = path) && o.flags.holds side then 1 else 0 := by
  simp only [live, countP_append, countP_singleton]
  omega

theorem joinedAt_of_setOpener (h : (s.setOpener i o').JoinedAt path) :
    s.JoinedAt path ∨ o'.path = path ∧ o'.Joined := by
  obtain hend | ⟨u, hu, hpath, hjoined⟩ := h
  · exact .inl (.inl hend)
  · obtain hold | rfl := mem_or_eq_of_mem_set hu
    · exact .inl (.inr ⟨u, hold, hpath, hjoined⟩)
    · exact .inr ⟨hpath, hjoined⟩

theorem joinedAt_of_eraseOpener
    (h : ({ s with openers := s.openers.eraseIdx i } : FifoState).JoinedAt path) :
    s.JoinedAt path :=
  h.imp id fun ⟨u, hu, hjoined⟩ ↦ ⟨u, mem_of_mem_eraseIdx hu, hjoined⟩

theorem joinedAt_of_appendOpener (ho : ¬ o.Joined)
    (h : ({ s with openers := s.openers ++ [o] } : FifoState).JoinedAt path) : s.JoinedAt path := by
  refine h.imp id fun ⟨u, hu, hpath, hjoined⟩ ↦ ⟨u, ?_, hpath, hjoined⟩
  obtain hold | hnew := mem_append.mp hu
  · exact hold
  · obtain rfl := mem_singleton.mp hnew
    exact absurd hjoined ho

theorem inv_of_entry {entry : Option NamedFifo} (hinv : s.Inv)
    (htable : s'.table = update s.table path entry)
    (hlive : ∀ q, q ≠ path → ∀ side, s'.live q side = s.live q side)
    (hjoined : ∀ q, q ≠ path → s'.JoinedAt q → s.JoinedAt q)
    (hpath : EntryOk entry (s'.live path) (s'.JoinedAt path)) : s'.Inv := by
  intro q
  rw [htable]
  by_cases hq : q = path
  · rwa [hq, update_self]
  have h := hinv q
  rw [update_of_ne hq]
  exact ⟨fun side ↦ (h.count side).trans (hlive q hq side).symm, h.used, h.opened,
    fun hj ↦ h.settled (hjoined q hq hj)⟩

section Kept

variable (hinv : s.Inv)

include hinv

theorem Inv.entryOk (hfifo : s.table path = some fifo) :
    EntryOk (some fifo) (s.live path) (s.JoinedAt path) :=
  hfifo ▸ hinv path

theorem Inv.entry (ho : o ∈ s.openers) : ∃ fifo, s.table o.path = some fifo := by
  obtain ⟨side, hside⟩ := o.flags.exists_holds
  exact (hinv o.path).exists_of_live (live_pos_of_opener ho hside)

section

variable (ho : s.openers[i]? = some o) (hpath : o'.path = o.path) (hflags : o'.flags = o.flags)
include ho hpath hflags

theorem inv_setOpener (hfifo : s.table o.path = some fifo) (hsame : fifo.SameSides fifo')
    (hjoined : o'.Joined → o.Joined ∨ fifo.Settled) :
    ((s.setEntry o.path (some fifo')).setOpener i o').Inv := by
  have hlive : ∀ q side, ((s.setEntry o.path (some fifo')).setOpener i o').live q side =
      s.live q side := live_setOpener ho hpath hflags
  refine inv_of_entry hinv rfl (fun q _ ↦ hlive q) (fun q hq hj ↦ ?_) ?_
  · obtain hold | ⟨hat, -⟩ := joinedAt_of_setOpener hj
    · exact hold
    · exact absurd (hat.symm.trans hpath) hq
  · refine (hinv.entryOk hfifo).same hsame (hlive o.path) fun hj ↦ ?_
    obtain hold | ⟨-, hnew⟩ := joinedAt_of_setOpener hj
    · exact .inl hold
    · exact (hjoined hnew).imp (fun hold ↦ .inr ⟨o, mem_of_getElem? ho, rfl, hold⟩) id

theorem inv_setOpener_of_entry
    (hjoined : o'.Joined → o.Joined ∨ ∀ fifo, s.table o.path = some fifo → fifo.Settled) :
    (s.setOpener i o').Inv := by
  obtain ⟨fifo, hfifo⟩ := hinv.entry (mem_of_getElem? ho)
  have hsame : s.setEntry o.path (some fifo) = s := by
    rw [← hfifo, setEntry, update_eq_self]
  rw [← hsame]
  exact inv_setOpener hinv ho hpath hflags hfifo (fun _ ↦ ⟨rfl, rfl⟩)
    fun hj ↦ (hjoined hj).imp id fun hsettled ↦ hsettled fifo hfifo

end

theorem Inv.count_pos (ho : o ∈ s.openers) (hfifo : s.table o.path = some fifo)
    (side : Side) (hside : o.flags.holds side = true) : 0 < fifo.count side := by
  rw [(hinv.entryOk hfifo).count_eq]
  exact live_pos_of_opener ho hside

theorem settled_of_counterpart (ho : o ∈ s.openers)
    (hfifo : s.table o.path = some fifo) (hmeets : fifo.Meets o.flags) : fifo.Settled := by
  have hown := hinv.count_pos ho hfifo
  refine settled_of_pos fun side ↦ ?_
  obtain ⟨hreadable, hwriters⟩ | ⟨hwritable, hreaders⟩ := hmeets
  · cases side with
    | reader => exact hown .reader hreadable
    | writer => exact hwriters
  · cases side with
    | reader => exact hreaders
    | writer => exact hown .writer hwritable

theorem inv_open {buffer : PipeRingBuffer} :
    ({ s.setEntry path (some (((s.table path).getD { buffer := buffer }).enter flags)) with
      openers := s.openers ++ [{ tid := tid, path := path, flags := flags }] } : FifoState).Inv := by
  have hlive := live_appendOpener (s := s) { tid := tid, path := path, flags := flags }
  have hjoined : ∀ q, _ → s.JoinedAt q := fun q ↦ joinedAt_of_appendOpener
    (o := { tid := tid, path := path, flags := flags }) id
  refine inv_of_entry hinv rfl (fun q hq side ↦ ?_) (fun q _ ↦ hjoined q) ?_
  · exact (hlive q side).trans (by simp [Ne.symm hq])
  · refine (hinv path).enter (fun side ↦ by cases side <;> rfl) (fun side ↦ ?_)
      fun hj ↦ ⟨hjoined path hj, live_pos_of_joinedAt (hjoined path hj)⟩
    exact (hlive path side).trans (by simp)

theorem settled_of_rendezvous (hok : Orderly s (.rendezvous i)) (ho : s.openers[i]? = some o)
    (hfifo : s.table o.path = some fifo) (hj : (fifo.rendezvous o.flags o.tid).1 ≠ [] ∨
      (fifo.rendezvous o.flags o.tid).2.1 = false) : fifo.Settled := by
  have hmem := mem_of_getElem? ho
  have hmeets := settled_of_counterpart hinv hmem hfifo
  have hown := hinv.count_pos hmem hfifo
  obtain hwakes | hgoes := hj
  · exact hmeets (meets_of_rendezvous_ne_nil hwakes)
  obtain hm | ⟨hr, hw⟩ | ⟨hr, hw, hn⟩ := of_rendezvous_eq_false hgoes
  · exact hmeets hm
  · exact hmeets (.inl ⟨hr, hown .writer hw⟩)
  obtain hwriters | hclosed := hok o ho fifo hfifo hw hn
  · exact hmeets (.inl ⟨hr, hwriters⟩)
  intro side hzero
  cases side with
  | reader => exact absurd hzero (Nat.ne_of_gt (hown .reader hr))
  | writer => exact hclosed

theorem inv_map_setOpener {g : Opener → Opener} (ho : s.openers[i]? = some o)
    (hjoined : o.Joined) (hpaths : ∀ u, (g u).path = u.path) (hflags : ∀ u, (g u).flags = u.flags)
    (hg : ∀ u ∈ s.openers, u.path ≠ o.path → g u = u) (hpath : o'.path = o.path)
    (hflags' : o'.flags = o.flags) :
    (({ s with openers := s.openers.map g } : FifoState).setOpener i o').Inv := by
  have hget : (s.openers.map g)[i]? = some (g o) := by rw [getElem?_map, ho]; rfl
  have hlive : ∀ q side, (({ s with openers := s.openers.map g } : FifoState).setOpener i o').live q
      side = s.live q side := fun q side ↦ by
    rw [live_setOpener hget (hpath.trans (hpaths o).symm) (hflags'.trans (hflags o).symm)]
    simp only [live, countP_map, comp_def, hpaths, hflags]
  have htable : s.table = update s.table o.path (s.table o.path) := (update_eq_self _ _).symm
  refine inv_of_entry hinv htable (fun q _ ↦ hlive q) (fun q hq hj ↦ ?_) ?_
  · obtain hold | ⟨hat, -⟩ := joinedAt_of_setOpener hj
    · refine hold.imp id fun ⟨u, hu, hat, huj⟩ ↦ ?_
      obtain ⟨v, hv, rfl⟩ := mem_map.mp hu
      have hvpath : v.path = q := (hpaths v).symm.trans hat
      rw [hg v hv (hvpath ▸ hq)] at huj
      exact ⟨v, hv, hvpath, huj⟩
    · exact absurd (hat.symm.trans hpath) hq
  · have h := hinv o.path
    exact ⟨fun side ↦ (h.count side).trans (hlive o.path side).symm, h.used, h.opened,
      fun _ ↦ h.settled (.inr ⟨o, mem_of_getElem? ho, rfl, hjoined⟩)⟩

theorem inv_interrupt (hok : Orderly s (.resume i)) (ho : s.openers[i]? = some o)
    (hint : o.interrupted = true) : (setEntry { s with openers := s.openers.eraseIdx i } o.path
      ((s.table o.path).bind fun fifo ↦ (fifo.interrupt o.flags o.tid).unlessUnused)).Inv := by
  obtain ⟨fifo, hfifo⟩ := hinv.entry (mem_of_getElem? ho)
  refine inv_of_entry hinv rfl (fun q hq side ↦ ?_) (fun q _ hj ↦ joinedAt_of_eraseOpener hj) ?_
  · have hlive := live_eraseOpener ho q side
    rwa [if_neg (by simp [Ne.symm hq])] at hlive
  · rw [hfifo]
    refine (hinv.entryOk hfifo).interrupt (fun side ↦ ?_) (fun hj ↦ joinedAt_of_eraseOpener hj)
      (hok o ho hint fifo hfifo)
    have hlive := live_eraseOpener ho o.path side
    rwa [decide_eq_true rfl, Bool.true_and] at hlive

theorem inv_finish (ho : s.openers[i]? = some o) (hjoined : o.Joined) :
    ({ s.setEntry o.path ((s.table o.path).map (·.retain o.tid)) with
      openers := s.openers.eraseIdx i, ends := s.ends ++ [⟨o.path, o.flags⟩] } : FifoState).Inv := by
  have hmem := mem_of_getElem? ho
  obtain ⟨fifo, hfifo⟩ := hinv.entry hmem
  have hlive : ∀ q side, s.ends.countP (fun e ↦ decide (e.path = q) && e.flags.holds side) +
      (if decide (o.path = q) && o.flags.holds side then 1 else 0) +
      (s.openers.eraseIdx i).countP (fun o ↦ decide (o.path = q) && o.flags.holds side) =
      s.live q side := fun q side ↦ by
    have := live_eraseOpener ho q side
    simp only [live] at this ⊢
    omega
  refine inv_of_entry hinv rfl (fun q _ side ↦ ?_) (fun q hq hj ↦ ?_) ?_
  · rw [← hlive q side]
    simp only [live, countP_append, countP_singleton]
  · obtain ⟨e, he, hat⟩ | ⟨u, hu, huj⟩ := hj
    · obtain hold | hnew := mem_append.mp he
      · exact .inl ⟨e, hold, hat⟩
      · obtain rfl := mem_singleton.mp hnew
        exact absurd hat.symm hq
    · exact .inr ⟨u, mem_of_mem_eraseIdx hu, huj⟩
  · rw [hfifo]
    refine (hinv.entryOk hfifo).same (sameSides_retain o.tid) (fun side ↦ ?_)
      fun _ ↦ .inl (.inr ⟨o, hmem, rfl, hjoined⟩)
    rw [← hlive o.path side]
    simp only [live, countP_append, countP_singleton]

theorem inv_drop {j : Nat} {e : NamedFifoEnd} (he : s.ends[j]? = some e) :
    (setEntry { s with ends := s.ends.eraseIdx j } e.path
      ((s.table e.path).bind fun fifo ↦ (fifo.leave e.flags).unlessUnused)).Inv := by
  have hmem := mem_of_getElem? he
  obtain ⟨side, hside⟩ := e.flags.exists_holds
  obtain ⟨fifo, hfifo⟩ := (hinv e.path).exists_of_live (live_pos_of_end hmem hside)
  have hentry := hinv.entryOk hfifo
  have hlive : ∀ q side, ({ s with ends := s.ends.eraseIdx j } : FifoState).live q side +
      (if decide (e.path = q) && e.flags.holds side then 1 else 0) = s.live q side := fun q side ↦ by
    have := countP_eraseIdx_add
      (fun e : NamedFifoEnd ↦ decide (e.path = q) && e.flags.holds side) he
    simp only [live]
    omega
  refine inv_of_entry hinv rfl (fun q hq side ↦ ?_) (fun q _ hj ↦ ?_) ?_
  · have := hlive q side
    rwa [if_neg (by simp [Ne.symm hq])] at this
  · exact hj.imp (fun ⟨u, hu, hat⟩ ↦ ⟨u, mem_of_mem_eraseIdx hu, hat⟩) id
  · rw [hfifo]
    refine hentry.leave (fun side ↦ ?_) (.inl ⟨e, hmem, rfl⟩)
    have := hlive e.path side
    rwa [decide_eq_true rfl, Bool.true_and] at this

end Kept

theorem inv_of_step {a : FifoAction} (hinv : s.Inv) (hok : Orderly s a) (h : s.Step a s') :
    s'.Inv := by
  revert h
  unfold Step
  fun_cases next s a with try rintro ⟨⟩
  | case2 tid path flags fsuid pipeMaxSize hbusy fifo hnxio =>
    -- `ENXIO` at a path that has an entry
    simp only [Bool.and_eq_true, Bool.not_eq_true', decide_eq_true_eq] at hnxio
    obtain ⟨⟨⟨hwritable, hreadable⟩, hnonblock⟩, -⟩ := hnxio
    obtain ⟨f, hf⟩ := isSome_iff_exists.mp (hok hwritable hreadable hnonblock)
    rwa [show some fifo = s.table path by simp [fifo, hf], setEntry, update_eq_self]
  | case3 => exact inv_open hinv
  | case4 i o ho fifo hfifo hstage r =>
    exact inv_setOpener hinv ho rfl rfl hfifo (sameSides_rendezvous _ _) fun hj ↦
      .inr (settled_of_rendezvous hinv hok ho hfifo hj)
  | case5 i o ho hnone =>
    obtain ⟨fifo, hfifo⟩ := hinv.entry (mem_of_getElem? ho)
    exact absurd (hfifo.symm.trans hnone) (by simp)
  | case8 i o ho tid tids wait hstage =>
    have hjoined : o.Joined := by simp [Opener.Joined, hstage]
    refine inv_map_setOpener hinv ho hjoined (fun u ↦ ?_) (fun u ↦ ?_) (fun u hu hne ↦ ?_) rfl rfl
    · split_ifs
      · exact u.path_wake
      · rfl
    · split_ifs
      · exact u.flags_wake
      · rfl
    · rw [if_neg fun htid ↦ hne (hok o ho tid (by simp [Opener.wakesNext, hstage]) u hu htid)]
  | case9 i o ho wait hstage =>
    refine inv_setOpener_of_entry hinv ho rfl rfl fun hj ↦ .inl ?_
    cases wait <;> simp_all [Opener.Joined]
  | case12 i o ho hstage present =>
    refine inv_setOpener_of_entry hinv ho rfl rfl fun hj ↦ .inr fun fifo hfifo ↦ ?_
    refine settled_of_counterpart hinv (mem_of_getElem? ho) hfifo (meets_of_counterpartPresent ?_)
    by_contra hpresent
    cases hint : o.interrupted <;> simp [Opener.Joined, present, hfifo, hpresent, hint] at hj
  | case15 =>
    intro h
    obtain ⟨o, ho, rfl⟩ := map_eq_some_iff.mp h
    refine inv_setOpener_of_entry hinv ho o.path_wake o.flags_wake fun hj ↦ .inl ?_
    cases hstage : o.stage <;> simp_all [Opener.wake, Opener.Joined]
  | case16 i o ho hstage hint => exact inv_interrupt hinv hok ho hint
  | case17 i o ho hstage hint =>
    refine inv_setOpener_of_entry hinv ho rfl rfl fun _ ↦ .inl ?_
    simpa [Opener.Joined, hstage] using hint
  | case20 i o ho hstage => exact inv_finish hinv ho (by simp [Opener.Joined, hstage])
  | case23 =>
    intro h
    obtain ⟨e, he, rfl⟩ := map_eq_some_iff.mp h
    exact inv_drop hinv he

theorem inv_of_init (hinit : s.Init) : s.Inv := by
  intro path
  rw [hinit.table]
  refine ⟨fun side ↦ ?_, by simp, by simp, by simp⟩
  simp [live, hinit.openers, hinit.ends]

theorem inv_of_run (hrun : Run Init Orderly Step s) : s.Inv :=
  hrun.invariant (I := Inv) (fun _ ↦ inv_of_init) fun _ _ _ ↦ inv_of_step

theorem accounted_of_inv (hinv : s.Inv) : s.Accounted := by
  have hcount : ∀ path fifo, s.table path = some fifo → ∀ side, fifo.count side = s.live path side :=
    fun path fifo hfifo ↦ (hinv.entryOk hfifo).count_eq
  refine ⟨fun path ↦ ⟨fun hsome ↦ ?_, fun hany ↦ ?_⟩, fun path fifo hfifo ↦ hcount path fifo hfifo .reader,
    fun path fifo hfifo ↦ hcount path fifo hfifo .writer, fun path fifo hfifo hend ↦ ?_⟩
  · obtain ⟨fifo, hfifo⟩ := isSome_iff_exists.mp hsome
    obtain ⟨side, hpos⟩ := (hinv path).used fifo hfifo
    rw [hcount path fifo hfifo] at hpos
    obtain hends | hopeners := Nat.add_pos_iff_pos_or_pos.mp hpos
    · obtain ⟨e, he, hat⟩ := countP_pos_iff.mp hends
      exact .inl ⟨e, he, by simp_all⟩
    · obtain ⟨o, ho, hat⟩ := countP_pos_iff.mp hopeners
      exact .inr ⟨o, ho, by simp_all⟩
  · rw [isSome_iff_exists]
    obtain ⟨e, he, rfl⟩ | ⟨o, ho, rfl⟩ := hany
    · obtain ⟨side, hside⟩ := e.flags.exists_holds
      exact (hinv e.path).exists_of_live (live_pos_of_end he hside)
    · exact hinv.entry ho
  · have hiff : ∀ side, fifo.closed side = true ↔ fifo.count side = 0 := fun side ↦ by
      refine ⟨fun hclosed ↦ ?_, (hinv path).settled (.inl hend) fifo hfifo side⟩
      by_contra hne
      have hopen := (hinv path).opened fifo hfifo side (Nat.pos_of_ne_zero hne)
      exact Bool.false_ne_true (hopen.symm.trans hclosed)
    exact ⟨hiff .reader, hiff .writer⟩

end Steps

/-! ### The exits that are not orderly -/

def empty : FifoState := ⟨fun _ ↦ none, [], []⟩

theorem init_empty : empty.Init := ⟨fun _ ↦ rfl, rfl, rfl⟩

/-- A reader opens and waits until a writer has come; both open, and the writer closes. -/
def readerMetByWriter : List FifoAction :=
  [.openNamedFifo 1 "/fifo" ⟨false, false, false⟩ 0 0, .rendezvous 0, .wake 0, .recheck 0,
    .openNamedFifo 2 "/fifo" ⟨true, false, false⟩ 0 0, .rendezvous 1, .wake 1, .wake 1,
    .resume 0, .finish 0, .finish 0, .drop 1]

end FifoState

end RespOS.Fs
