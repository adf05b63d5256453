import RespOS.Basis.Interleaving
import RespOS.Fs.Pipe.RingBuffer

/-!
# Sleeping readers and writers of a pipe

`Pipe::read` takes what is in the buffer and wakes one writer, or puts itself into the queue of readers
and sleeps; `Pipe::write` is its mirror image. Each does its transfer, its decision to sleep and the
removal of the peer it is going to wake from its queue in one section under the buffer lock, and wakes
the peer afterwards. The drop of an end wakes everybody who sleeps on the other side.

One transfer wakes one task. If that task leaves bytes behind, or returns because of a signal, nobody
wakes the next one: a reader then sleeps over a buffer with bytes in it while every task that could wake
it is gone (`reader_stranded`). `not_stranded_of_run` proves that this does not happen in the runs in
which a task that leaves the pipe leaves nothing that another sleeper could use (`Thorough`).
-/

namespace RespOS.Fs

open RespOS.Basis
open Function (update update_apply update_of_ne update_self)
open Bool PipeRingBuffer List Option

structure PipeState where
  ring : PipeRingBuffer
  blocked : Nat → Bool

/-- Where a task stands. -/
inductive PipeCall
  | outside
  /-- In the loop of `read`, with room for `len` bytes. -/
  | reading (len : Nat)
  /-- In `read`, between its section and the cleanup after it runs again. -/
  | readSleeping (len : Nat)
  /-- In the loop of `write`. -/
  | writing (record : List UInt8)
  | writeSleeping (record : List UInt8)
  /-- In `read` or `write` after a transfer, about to wake the peer it took from its queue. -/
  | waking (tid : Option Nat)
  /-- In the drop of an end, about to wake those who slept on the other side. -/
  | closing (tids : List Nat)

/-- The sections. `nonblock` is the `O_NONBLOCK` flag that the section reads, `interrupted` whether a
signal is pending when the task runs again. -/
inductive PipeAction
  | read (len : Nat)
  | write (record : List UInt8)
  | transfer (nonblock : Bool)
  | wake
  | resume (interrupted : Bool)
  | signal (tid : Nat)
  | closeRead
  | closeWrite

namespace PipeState

variable (s : PipeState)

def wake (tid : Nat) : PipeState := { s with blocked := Function.update s.blocked tid false }

/-- The task publishes that it is blocked, in the section in which it joins a queue. -/
def sleep (tid : Nat) (ring : PipeRingBuffer) : PipeState :=
  ⟨ring, Function.update s.blocked tid true⟩

def readSection (t : Nat) (nonblock : Bool) (len : Nat) : PipeState × PipeCall :=
  if s.ring.buffer ≠ [] then
    let r := (s.ring.readBytes len).popWriteWaiter
    ({ s with ring := r.2 }, .waking r.1)
  else if s.ring.writeClosed then (s, .outside)
  else if nonblock then (s, .outside)
  else (s.sleep t (s.ring.pushReadWaiter t), .readSleeping len)

def writeSection (t : Nat) (nonblock : Bool) (record : List UInt8) : PipeState × PipeCall :=
  if s.ring.readClosed then (s, .outside)
  else if PipeRingBuffer.accepts s.ring.free record.length then
    let r := (s.ring.writeBytes record).popReadWaiter
    ({ s with ring := r.2 }, .waking r.1)
  else if nonblock then (s, .outside)
  else (s.sleep t (s.ring.pushWriteWaiter t), .writeSleeping record)

end PipeState

def pipeSection (t : Nat) (a : PipeAction) (s : PipeState) (l : PipeCall) :
    Option (PipeState × PipeCall) :=
  match a, l with
  | .read len, .outside => some (s, if len = 0 then .outside else .reading len)
  | .write record, .outside => some (s, if record = [] then .outside else .writing record)
  | .transfer nonblock, .reading len => some (s.readSection t nonblock len)
  | .transfer nonblock, .writing record => some (s.writeSection t nonblock record)
  | .wake, .waking (some tid) => some (s.wake tid, .outside)
  | .wake, .waking none => some (s, .outside)
  | .wake, .closing (tid :: tids) => some (s.wake tid, .closing tids)
  | .wake, .closing [] => some (s, .outside)
  | .resume interrupted, .readSleeping len =>
    if s.blocked t then none else
      some ({ s with ring := s.ring.removeReadWaiter t },
        if interrupted then .outside else .reading len)
  | .resume interrupted, .writeSleeping record =>
    if s.blocked t then none else
      some ({ s with ring := s.ring.removeWriteWaiter t },
        if interrupted then .outside else .writing record)
  | .signal tid, .outside => some (s.wake tid, .outside)
  | .closeRead, .outside =>
    some ({ s with ring := s.ring.closeRead.2 }, .closing s.ring.closeRead.1)
  | .closeWrite, .outside =>
    some ({ s with ring := s.ring.closeWrite.2 }, .closing s.ring.closeWrite.1)
  | _, _ => none

namespace PipeCall

def inPipe : PipeCall → Bool
  | .outside => false
  | .closing _ => false
  | _ => true

def isReading : PipeCall → Bool
  | .reading _ => true
  | _ => false

def isReadSleeping : PipeCall → Bool
  | .readSleeping _ => true
  | _ => false

def isWriting : PipeCall → Bool
  | .writing _ => true
  | _ => false

def isWriteSleeping : PipeCall → Bool
  | .writeSleeping _ => true
  | _ => false

/-- The task sleeps over a record that would be accepted with this much free space. -/
def fits (free : Nat) : PipeCall → Bool
  | .writeSleeping record => PipeRingBuffer.accepts free record.length
  | _ => false

end PipeCall

structure PipeInit (c : Config PipeState PipeCall) : Prop where
  ring : ∃ fsuid pipeMaxSize, c.shared.ring = .new fsuid pipeMaxSize
  blocked : ∀ t, c.shared.blocked t = false
  thread : ∀ t, c.thread t = .outside

/-- Every task that is not blocked is outside `read` and `write`, and a reader sits in the queue although
there are bytes or the write end is closed, or a writer although its record fits or the read end is
closed. -/
def Stranded (c : Config PipeState PipeCall) : Prop :=
  (∀ t, c.shared.blocked t = false → (c.thread t).inPipe = false) ∧
    ((c.shared.ring.readWaiters ≠ [] ∧
        (c.shared.ring.buffer ≠ [] ∨ c.shared.ring.writeClosed = true)) ∨
      ∃ t ∈ c.shared.ring.writeWaiters, (c.thread t).fits c.shared.ring.free = true ∨
        c.shared.ring.readClosed = true)

/-- The free space that a section of `write` leaves. -/
def leftBy (ring : PipeRingBuffer) (record : List UInt8) : Nat :=
  if PipeRingBuffer.accepts ring.free record.length then ring.free - record.length else ring.free

/-- The condition on the sections: a read takes all bytes there are if another reader is in the queue;
a section of `write` leaves no space for a record in the queue; and a signal ends a call only if no other
task of its kind could go on. -/
def Thorough (c : Config PipeState PipeCall) (l : Nat × PipeAction) : Prop :=
  let ring := c.shared.ring
  match l.2, c.thread l.1 with
  | .transfer _, .reading len => ring.buffer.length ≤ len ∨ ring.readWaiters = []
  | .transfer _, .writing record =>
    ∀ w ∈ ring.writeWaiters, (c.thread w).fits (leftBy ring record) = false
  | .resume true, .readSleeping _ => ring.buffer = [] ∨ ∀ r ∈ ring.readWaiters, r = l.1
  | .resume true, .writeSleeping _ =>
    ∀ w ∈ ring.writeWaiters, w ≠ l.1 → (c.thread w).fits ring.free = false
  | _, _ => True

instance (c : Config PipeState PipeCall) (l : Nat × PipeAction) : Decidable (Thorough c l) := by
  unfold Thorough
  dsimp only
  split <;> infer_instance

section Runs

variable {c : Config PipeState PipeCall} {t : Nat} {a : PipeAction} {s : PipeState} {k : PipeCall}
  {awake asleep : PipeCall → Bool}

/-- A task is going to take a section of the kind that `awake` and `asleep` describe: it is in the loop,
it has been woken, or it sleeps and another task is about to wake it. -/
def Soon (awake asleep : PipeCall → Bool) (c : Config PipeState PipeCall) : Prop :=
  ∃ t, awake (c.thread t) = true ∨ asleep (c.thread t) = true ∧ c.shared.blocked t = false ∨
    ∃ r, c.thread t = .waking (some r) ∧ asleep (c.thread r) = true

theorem Soon.other (h : Soon awake asleep c) (hawake : awake (c.thread t) = false)
    (hasleep : asleep (c.thread t) = false)
    (hwaking : ∀ r, c.thread t = .waking (some r) → asleep (c.thread r) = false)
    (hblocked : ∀ u, u ≠ t → c.shared.blocked u = false → s.blocked u = false) :
    Soon awake asleep ⟨s, update c.thread t k⟩ := by
  obtain ⟨u, hu⟩ := h
  have hut : u ≠ t := by
    rintro rfl
    obtain hu | ⟨hu, -⟩ | ⟨r, hr, hu⟩ := hu
    · exact false_ne_true (hawake.symm.trans hu)
    · exact false_ne_true (hasleep.symm.trans hu)
    · exact false_ne_true ((hwaking r hr).symm.trans hu)
  refine ⟨u, ?_⟩
  simp only [update_of_ne hut]
  refine hu.imp id (Or.imp (And.imp id (hblocked u hut)) fun ⟨r, hr, hsleeps⟩ ↦ ⟨r, hr, ?_⟩)
  have hrt : r ≠ t := by
    rintro rfl
    exact false_ne_true (hasleep.symm.trans hsleeps)
  rwa [update_of_ne hrt]

theorem Soon.own (h : awake k = true) : Soon awake asleep ⟨s, update c.thread t k⟩ :=
  ⟨t, .inl (by simpa using h)⟩

theorem Soon.popped {r : Nat} (hk : k = .waking (some r)) (hr : asleep (c.thread r) = true)
    (ht : asleep (c.thread t) = false) : Soon awake asleep ⟨s, update c.thread t k⟩ := by
  have hrt : r ≠ t := by
    rintro rfl
    exact false_ne_true (ht.symm.trans hr)
  refine ⟨t, .inr (.inr ⟨r, ?_, ?_⟩)⟩
  · simpa using hk
  · simpa [update_of_ne hrt] using hr

theorem Soon.woken {r : Nat} (h : Soon awake asleep c) (ht : c.thread t = .waking (some r))
    (hawake : ∀ r, awake (.waking r) = false) (hasleep : ∀ r, asleep (.waking r) = false) :
    Soon awake asleep ⟨c.shared.wake r, update c.thread t k⟩ := by
  by_cases hr : asleep (c.thread r) = true
  · have hrt : r ≠ t := by
      rintro rfl
      rw [ht, hasleep] at hr
      exact false_ne_true hr
    refine ⟨r, .inr (.inl ⟨?_, update_self r _ _⟩)⟩
    simpa [update_of_ne hrt] using hr
  · refine h.other (by rw [ht, hawake]) (by rw [ht, hasleep]) (fun u hu ↦ ?_) fun u _ hu ↦ ?_
    · obtain rfl : r = u := by simpa [ht] using hu
      simpa using hr
    · simp only [PipeState.wake, update_apply]
      split_ifs
      · rfl
      · exact hu

/-- What holds of one side of the pipe: the tasks in its queue sleep, nobody waits for a closed end, and
if a task in the queue could go on then a task of its kind is about to. -/
structure Half (awake asleep ready : PipeCall → Bool) (queue : List Nat) (closed : Bool)
    (c : Config PipeState PipeCall) : Prop where
  sleeping : ∀ u ∈ queue, asleep (c.thread u) = true
  nobody : closed = true → queue = []
  served : ∀ u ∈ queue, ready (c.thread u) = true → Soon awake asleep c

namespace Half

variable {ready ready' : PipeCall → Bool} {queue : List Nat} {closed : Bool}

section Queued

variable (h : Half awake asleep ready queue closed c)

include h

theorem not_mem (ht : asleep (c.thread t) = false) : t ∉ queue :=
  fun hmem ↦ false_ne_true (ht.symm.trans (h.sleeping t hmem))

theorem thread_eq (ht : asleep (c.thread t) = false)
    {u : Nat} (hu : u ∈ queue) : update c.thread t k u = c.thread u :=
  update_of_ne (show u ≠ t from fun heq ↦ h.not_mem ht (heq ▸ hu)) _ _

theorem keep (hasleep : asleep (c.thread t) = false)
    (hsoon : ∀ u ∈ queue, ready' (c.thread u) = true → Soon awake asleep ⟨s, update c.thread t k⟩) :
    Half awake asleep ready' queue closed ⟨s, update c.thread t k⟩ := by
  refine ⟨fun u hu ↦ ?_, h.nobody, fun u hu hru ↦ ?_⟩
  · simpa [h.thread_eq hasleep hu] using h.sleeping u hu
  · simp only [h.thread_eq hasleep hu] at hru
    exact hsoon u hu hru

theorem other (hsoon : Soon awake asleep c → Soon awake asleep ⟨s, update c.thread t k⟩)
    (hasleep : asleep (c.thread t) = false)
    (hready : ∀ u ∈ queue, ready' (c.thread u) = true → ready (c.thread u) = true) :
    Half awake asleep ready' queue closed ⟨s, update c.thread t k⟩ :=
  h.keep hasleep fun u hu hru ↦ hsoon (h.served u hu (hready u hu hru))

theorem of_call (hawake : awake (c.thread t) = false) (hasleep : asleep (c.thread t) = false)
    (hnot : ∀ r, c.thread t ≠ .waking r) (hblocked : ∀ u, u ≠ t → s.blocked u = c.shared.blocked u) :
    Half awake asleep ready queue closed ⟨s, update c.thread t k⟩ := by
  refine h.other (fun hsoon ↦ ?_) hasleep fun _ _ hu ↦ hu
  exact hsoon.other hawake hasleep (fun _ hr ↦ absurd hr (hnot _)) fun u hu hb ↦
    (hblocked u hu).trans hb

theorem quiet (hasleep : asleep (c.thread t) = false)
    (hnone : ∀ u ∈ queue, ready' (c.thread u) = false) :
    Half awake asleep ready' queue closed ⟨s, update c.thread t k⟩ :=
  h.keep hasleep fun u hu hru ↦ absurd ((hnone u hu).symm.trans hru) false_ne_true

theorem push {queue' : List Nat} (hclosed : closed = false) (hk : asleep k = true) (hkready : ready' k = false)
    (hnone : ∀ u ∈ queue, ready' (c.thread u) = false) (hmem : ∀ u ∈ queue', u ∈ queue ∨ u = t) :
    Half awake asleep ready' queue' closed ⟨s, update c.thread t k⟩ := by
  refine ⟨fun u hu ↦ ?_, by simp [hclosed], fun u hu hru ↦ absurd hru ?_⟩
  · by_cases hut : u = t
    · simpa [hut] using hk
    · simpa [update_of_ne hut] using h.sleeping u ((hmem u hu).resolve_right hut)
  · by_cases hut : u = t
    · simp [hut, hkready]
    · simp [update_of_ne hut, hnone u ((hmem u hu).resolve_right hut)]

theorem pop (hasleep : asleep (c.thread t) = false) :
    Half awake asleep ready' queue.tail closed ⟨s, update c.thread t (.waking queue.head?)⟩ := by
  refine ⟨fun u hu ↦ ?_, fun hc ↦ by rw [h.nobody hc, tail_nil], fun u hu _ ↦ ?_⟩
  · have hmem := mem_of_mem_tail hu
    simpa [h.thread_eq hasleep hmem] using h.sleeping u hmem
  · cases queue with
    | nil => simp at hu
    | cons r rest => exact .popped rfl (h.sleeping r mem_cons_self) hasleep

theorem resume (hk : awake k = true ∨ ∀ u ∈ queue, u ≠ t → ready (c.thread u) = false) :
    Half awake asleep ready (queue.filter (· ≠ t)) closed ⟨s, update c.thread t k⟩ := by
  have hmem : ∀ u ∈ queue.filter (· ≠ t), u ∈ queue ∧ u ≠ t := fun u hu ↦ by simpa using hu
  refine ⟨fun u hu ↦ ?_, fun hc ↦ by rw [h.nobody hc, filter_nil], fun u hu hru ↦ ?_⟩
  · obtain ⟨hq, hut⟩ := hmem u hu
    simpa [update_of_ne hut] using h.sleeping u hq
  · obtain ⟨hq, hut⟩ := hmem u hu
    simp only [update_of_ne hut] at hru
    obtain hawake | hnone := hk
    · exact .own hawake
    · exact absurd ((hnone u hq hut).symm.trans hru) false_ne_true

end Queued

theorem nil : Half awake asleep ready [] closed c := ⟨by simp, fun _ ↦ rfl, by simp⟩

end Half

/-- A reader in the queue could go on. -/
def readReady (ring : PipeRingBuffer) (_ : PipeCall) : Bool := decide (ring.buffer ≠ [])

structure Served (c : Config PipeState PipeCall) : Prop where
  asleep : ∀ t, c.shared.blocked t = true →
    (c.thread t).isReadSleeping = true ∨ (c.thread t).isWriteSleeping = true
  readers : Half PipeCall.isReading PipeCall.isReadSleeping (readReady c.shared.ring)
    c.shared.ring.readWaiters c.shared.ring.writeClosed c
  writers : Half PipeCall.isWriting PipeCall.isWriteSleeping (PipeCall.fits c.shared.ring.free)
    c.shared.ring.writeWaiters c.shared.ring.readClosed c

theorem asleep_of_section (hc : Served c)
    (hother : ∀ u, u ≠ t → s.blocked u = true → c.shared.blocked u = true)
    (hown : s.blocked t = true → k.isReadSleeping = true ∨ k.isWriteSleeping = true) (u : Nat)
    (hu : s.blocked u = true) : (update c.thread t k u).isReadSleeping = true ∨
      (update c.thread t k u).isWriteSleeping = true := by
  by_cases hut : u = t
  · subst hut
    rw [update_self]
    exact hown hu
  · rw [update_of_ne hut]
    exact hc.asleep u (hother u hut hu)

theorem blocked_wake {tid u : Nat} (h : (s.wake tid).blocked u = true) : s.blocked u = true := by
  simp only [PipeState.wake, update_apply] at h
  split_ifs at h
  exact h

theorem blocked_eq_false (hc : Served c) (hread : (c.thread t).isReadSleeping = false)
    (hwrite : (c.thread t).isWriteSleeping = false) : c.shared.blocked t = false := by
  by_contra hblocked
  rw [not_eq_false] at hblocked
  obtain h | h := hc.asleep t hblocked
  · exact false_ne_true (hread.symm.trans h)
  · exact false_ne_true (hwrite.symm.trans h)

open PipeCall

theorem served_of_same (hc : Served c) (hring : s.ring = c.shared.ring)
    (hread : (c.thread t).isReadSleeping = false) (hwrite : (c.thread t).isWriteSleeping = false)
    (hblocked : ∀ u, s.blocked u = true → c.shared.blocked u = true)
    (hreaders : Soon isReading isReadSleeping c →
      Soon isReading isReadSleeping ⟨s, update c.thread t k⟩)
    (hwriters : Soon isWriting isWriteSleeping c →
      Soon isWriting isWriteSleeping ⟨s, update c.thread t k⟩) :
    Served ⟨s, update c.thread t k⟩ := by
  constructor
  · refine asleep_of_section hc (fun u _ ↦ hblocked u) fun ht ↦ ?_
    exact absurd ((blocked_eq_false hc hread hwrite).symm.trans (hblocked t ht)) false_ne_true
  · rw [hring]
    exact hc.readers.other hreaders hread fun _ _ hu ↦ hu
  · rw [hring]
    exact hc.writers.other hwriters hwrite fun _ _ hu ↦ hu

theorem served_of_outside (hc : Served c) (ht : (c.thread t).inPipe = false)
    (hring : s.ring = c.shared.ring)
    (hblocked : ∀ u, s.blocked u = true → c.shared.blocked u = true) :
    Served ⟨s, update c.thread t k⟩ := by
  have hsoon : ∀ {awake asleep : PipeCall → Bool}, awake (c.thread t) = false →
      asleep (c.thread t) = false → Soon awake asleep c →
      Soon awake asleep ⟨s, update c.thread t k⟩ := by
    intro awake asleep hawake hasleep h
    refine h.other hawake hasleep (fun r hr ↦ ?_) fun u _ hu ↦ ?_
    · simp [hr, inPipe] at ht
    · by_contra hne
      exact false_ne_true (hu.symm.trans (hblocked u (by simpa using hne)))
  have hcases : ∀ {p : PipeCall → Bool}, p .outside = false → (∀ tids, p (.closing tids) = false) →
      p (c.thread t) = false := by
    intro p hout hclosing
    cases h : c.thread t <;> simp_all [inPipe]
  exact served_of_same hc hring (hcases rfl fun _ ↦ rfl) (hcases rfl fun _ ↦ rfl) hblocked
    (hsoon (hcases rfl fun _ ↦ rfl) (hcases rfl fun _ ↦ rfl))
    (hsoon (hcases rfl fun _ ↦ rfl) (hcases rfl fun _ ↦ rfl))

theorem served_wake {r : Option Nat} (hc : Served c) (ht : c.thread t = .waking r) :
    Served ⟨r.elim c.shared c.shared.wake, update c.thread t .outside⟩ := by
  cases r with
  | none =>
    have hsoon : ∀ {awake asleep : PipeCall → Bool}, awake (c.thread t) = false →
        asleep (c.thread t) = false → Soon awake asleep c →
        Soon awake asleep ⟨c.shared, update c.thread t .outside⟩ :=
      fun hawake hasleep h ↦ h.other hawake hasleep (by simp [ht]) fun _ _ hu ↦ hu
    exact served_of_same hc rfl (by rw [ht]; rfl) (by rw [ht]; rfl) (fun _ hu ↦ hu)
      (hsoon (by rw [ht]; rfl) (by rw [ht]; rfl)) (hsoon (by rw [ht]; rfl) (by rw [ht]; rfl))
  | some r =>
    exact served_of_same hc rfl (by rw [ht]; rfl) (by rw [ht]; rfl) (fun _ ↦ blocked_wake)
      (fun h ↦ h.woken ht (fun _ ↦ rfl) fun _ ↦ rfl) fun h ↦ h.woken ht (fun _ ↦ rfl) fun _ ↦ rfl

theorem pushReadWaiter_eq (b : PipeRingBuffer) (t : Nat) :
    ∃ queue, b.pushReadWaiter t = { b with readWaiters := queue } ∧
      ∀ u ∈ queue, u ∈ b.readWaiters ∨ u = t := by
  unfold pushReadWaiter
  split_ifs
  · exact ⟨b.readWaiters, rfl, fun _ ↦ .inl⟩
  · exact ⟨b.readWaiters ++ [t], rfl, fun u hu ↦ by simpa using hu⟩

theorem pushWriteWaiter_eq (b : PipeRingBuffer) (t : Nat) :
    ∃ queue, b.pushWriteWaiter t = { b with writeWaiters := queue } ∧
      ∀ u ∈ queue, u ∈ b.writeWaiters ∨ u = t := by
  unfold pushWriteWaiter
  split_ifs
  · exact ⟨b.writeWaiters, rfl, fun _ ↦ .inl⟩
  · exact ⟨b.writeWaiters ++ [t], rfl, fun u hu ↦ by simpa using hu⟩

theorem free_writeBytes (b : PipeRingBuffer) (record : List UInt8) :
    (b.writeBytes record).free = b.free - record.length := by
  simp only [free, writeBytes, availableBytes, length_append, length_take]
  omega

section

variable (hc : Served c)
include hc

theorem served_readSection {nonblock : Bool} {len : Nat} (ht : c.thread t = .reading len)
    (hok : c.shared.ring.buffer.length ≤ len ∨ c.shared.ring.readWaiters = []) :
    Served ⟨(c.shared.readSection t nonblock len).1,
      update c.thread t (c.shared.readSection t nonblock len).2⟩ := by
  have hread : (c.thread t).isReadSleeping = false := by rw [ht]; rfl
  have hwrite : (c.thread t).isWriteSleeping = false := by rw [ht]; rfl
  have hwriting : (c.thread t).isWriting = false := by rw [ht]; rfl
  have hblocked : c.shared.blocked t ≠ true := by simp [blocked_eq_false hc hread hwrite]
  have hnot : ∀ r, c.thread t ≠ .waking r := by simp [ht]
  -- a return without bytes
  have hreturn : c.shared.ring.buffer = [] →
      Served ⟨c.shared, update c.thread t .outside⟩ := fun hempty ↦ by
    refine ⟨asleep_of_section hc (fun _ _ hu ↦ hu) fun h ↦ absurd h hblocked, ?_, ?_⟩
    · exact hc.readers.quiet hread fun u _ ↦ by simp [readReady, hempty]
    · exact hc.writers.of_call hwriting hwrite hnot fun _ _ ↦ rfl
  unfold PipeState.readSection
  split_ifs with hbytes hclosed hnonblock
  · refine ⟨asleep_of_section hc (fun _ _ hu ↦ hu) fun h ↦ absurd h hblocked, ?_, ?_⟩
    · refine hc.readers.quiet hread fun u hu ↦ ?_
      obtain hall | hnobody := hok
      · simp [readReady, readBytes, popWriteWaiter,
          drop_eq_nil_of_le hall]
      · exact absurd hu (by simp [hnobody])
    · exact hc.writers.pop hwrite
  · exact hreturn (not_not.mp hbytes)
  · exact hreturn (not_not.mp hbytes)
  · obtain ⟨queue, hpush, hmem⟩ := pushReadWaiter_eq c.shared.ring t
    rw [hpush]
    refine ⟨asleep_of_section hc (fun u hu h ↦ ?_) fun _ ↦ .inl rfl, ?_, ?_⟩
    · simpa [PipeState.sleep, update_of_ne hu] using h
    · exact hc.readers.push (eq_false_iff.mpr hclosed) rfl
        (by simp [PipeState.sleep, readReady, not_not.mp hbytes])
        (fun u _ ↦ by simp [PipeState.sleep, readReady, not_not.mp hbytes]) hmem
    · exact hc.writers.of_call hwriting hwrite hnot fun u hu ↦ update_of_ne hu _ _

theorem served_writeSection {nonblock : Bool} {record : List UInt8}
    (ht : c.thread t = .writing record) (hok : ∀ w ∈ c.shared.ring.writeWaiters,
      (c.thread w).fits (leftBy c.shared.ring record) = false) :
    Served ⟨(c.shared.writeSection t nonblock record).1,
      update c.thread t (c.shared.writeSection t nonblock record).2⟩ := by
  have hread : (c.thread t).isReadSleeping = false := by rw [ht]; rfl
  have hwrite : (c.thread t).isWriteSleeping = false := by rw [ht]; rfl
  have hreading : (c.thread t).isReading = false := by rw [ht]; rfl
  have hblocked : c.shared.blocked t ≠ true := by simp [blocked_eq_false hc hread hwrite]
  have hnot : ∀ r, c.thread t ≠ .waking r := by simp [ht]
  -- a return without a byte written
  have hreturn : (∀ w ∈ c.shared.ring.writeWaiters, (c.thread w).fits c.shared.ring.free = false) →
      Served ⟨c.shared, update c.thread t .outside⟩ := fun hnone ↦ by
    refine ⟨asleep_of_section hc (fun _ _ hu ↦ hu) fun h ↦ absurd h hblocked, ?_, ?_⟩
    · exact hc.readers.of_call hreading hread hnot fun _ _ ↦ rfl
    · exact hc.writers.quiet hwrite hnone
  unfold PipeState.writeSection
  split_ifs with hclosed haccepts hnonblock
  · refine hreturn fun w hw ↦ ?_
    rw [hc.writers.nobody hclosed] at hw
    simp at hw
  · rw [leftBy, if_pos haccepts, ← free_writeBytes] at hok
    refine ⟨asleep_of_section hc (fun _ _ hu ↦ hu) fun h ↦ absurd h hblocked, ?_, ?_⟩
    · exact hc.readers.pop hread
    · exact hc.writers.quiet hwrite hok
  · rw [leftBy, if_neg haccepts] at hok
    exact hreturn hok
  rw [leftBy, if_neg haccepts] at hok
  obtain ⟨queue, hpush, hmem⟩ := pushWriteWaiter_eq c.shared.ring t
  rw [hpush]
  refine ⟨asleep_of_section hc (fun u hu h ↦ ?_) fun _ ↦ .inr rfl, ?_, ?_⟩
  · simpa [PipeState.sleep, update_of_ne hu] using h
  · exact hc.readers.of_call hreading hread hnot fun u hu ↦ update_of_ne hu _ _
  · exact hc.writers.push (eq_false_iff.mpr hclosed) rfl (eq_false_iff.mpr haccepts)
      hok hmem

theorem served_resumeRead {len : Nat} (ht : c.thread t = .readSleeping len)
    (hblocked : ¬ c.shared.blocked t = true)
    (hk : k.isReading = true ∨ c.shared.ring.buffer = [] ∨ ∀ r ∈ c.shared.ring.readWaiters, r = t) :
    Served ⟨{ c.shared with ring := c.shared.ring.removeReadWaiter t }, update c.thread t k⟩ := by
  refine ⟨asleep_of_section hc (fun _ _ hu ↦ hu) fun h ↦ absurd h hblocked, ?_, ?_⟩
  · refine hc.readers.resume (hk.imp id fun hnone u hu hut ↦ ?_)
    obtain hempty | honly := hnone
    · simp [readReady, hempty]
    · exact absurd (honly u hu) hut
  · exact hc.writers.of_call (by rw [ht]; rfl) (by rw [ht]; rfl) (by simp [ht]) fun _ _ ↦ rfl

theorem served_resumeWrite {record : List UInt8}
    (ht : c.thread t = .writeSleeping record) (hblocked : ¬ c.shared.blocked t = true)
    (hk : k.isWriting = true ∨ ∀ w ∈ c.shared.ring.writeWaiters, w ≠ t →
      (c.thread w).fits c.shared.ring.free = false) :
    Served ⟨{ c.shared with ring := c.shared.ring.removeWriteWaiter t }, update c.thread t k⟩ := by
  refine ⟨asleep_of_section hc (fun _ _ hu ↦ hu) fun h ↦ absurd h hblocked, ?_, ?_⟩
  · exact hc.readers.of_call (by rw [ht]; rfl) (by rw [ht]; rfl) (by simp [ht]) fun _ _ ↦ rfl
  · exact hc.writers.resume hk

theorem served_closeRead (ht : c.thread t = .outside) :
    Served ⟨{ c.shared with ring := c.shared.ring.closeRead.2 }, update c.thread t k⟩ := by
  have hblocked := blocked_eq_false hc (by rw [ht]; rfl) (by rw [ht]; rfl)
  refine ⟨asleep_of_section hc (fun _ _ hu ↦ hu) fun h ↦ ?_, ?_, .nil⟩
  · exact absurd (hblocked.symm.trans h) false_ne_true
  · exact hc.readers.of_call (by rw [ht]; rfl) (by rw [ht]; rfl) (by simp [ht]) fun _ _ ↦ rfl

theorem served_closeWrite (ht : c.thread t = .outside) :
    Served ⟨{ c.shared with ring := c.shared.ring.closeWrite.2 }, update c.thread t k⟩ := by
  have hblocked := blocked_eq_false hc (by rw [ht]; rfl) (by rw [ht]; rfl)
  refine ⟨asleep_of_section hc (fun _ _ hu ↦ hu) fun h ↦ ?_, .nil, ?_⟩
  · exact absurd (hblocked.symm.trans h) false_ne_true
  · exact hc.writers.of_call (by rw [ht]; rfl) (by rw [ht]; rfl) (by simp [ht]) fun _ _ ↦ rfl

theorem served_of_section (hok : Thorough c (t, a))
    (h : pipeSection t a c.shared (c.thread t) = some (s, k)) : Served ⟨s, update c.thread t k⟩ := by
  generalize hl : c.thread t = l at h
  revert h
  fun_cases pipeSection t a c.shared l with try rintro ⟨⟩
  | case1 | case2 | case8 =>
    exact served_of_outside hc (by rw [hl]; rfl) rfl fun _ hu ↦ hu
  | case3 nonblock len =>
    intro h
    obtain ⟨rfl, rfl⟩ := of_taken h
    simp only [Thorough, hl] at hok
    exact served_readSection hc hl hok
  | case4 nonblock record =>
    intro h
    obtain ⟨rfl, rfl⟩ := of_taken h
    simp only [Thorough, hl] at hok
    exact served_writeSection hc hl hok
  | case5 | case6 =>
    exact served_wake hc hl
  | case7 | case13 =>
    -- a close or a signal wakes another task
    exact served_of_outside hc (by rw [hl]; rfl) rfl fun _ ↦ blocked_wake
  | case10 interrupted len hblocked =>
    simp only [Thorough, hl] at hok
    cases interrupted with
    | true => exact served_resumeRead hc hl hblocked (.inr hok)
    | false => exact served_resumeRead hc hl hblocked (.inl rfl)
  | case12 interrupted record hblocked =>
    simp only [Thorough, hl] at hok
    cases interrupted with
    | true => exact served_resumeWrite hc hl hblocked (.inr hok)
    | false => exact served_resumeWrite hc hl hblocked (.inl rfl)
  | case14 =>
    exact served_closeRead hc hl
  | case15 =>
    exact served_closeWrite hc hl

end

theorem served_of_init (h : PipeInit c) : Served c := by
  obtain ⟨fsuid, pipeMaxSize, hring⟩ := h.ring
  refine ⟨fun t ht ↦ ?_, ?_, ?_⟩
  · exact absurd ((h.blocked t).symm.trans ht) false_ne_true
  · rw [hring]
    exact .nil
  · rw [hring]
    exact .nil

theorem served_of_run (hrun : Run PipeInit Thorough (Config.Step pipeSection) c) : Served c := by
  refine hrun.invariant (fun _ ↦ served_of_init) ?_
  rintro c ⟨t, a⟩ c' hc hok hstep
  obtain ⟨s, k, hsec, rfl⟩ := Config.step_iff.mp hstep
  exact served_of_section hc hok hsec

theorem not_outside_of_soon (hc : Served c) (hsoon : Soon awake asleep c)
    (hawake : ∀ l, awake l = true → l.inPipe = true ∧ l.isReadSleeping = false ∧
      l.isWriteSleeping = false) (hasleep : ∀ l, asleep l = true → l.inPipe = true) :
    ∃ t, c.shared.blocked t = false ∧ (c.thread t).inPipe = true := by
  obtain ⟨t, ht | ⟨ht, hblocked⟩ | ⟨r, ht, -⟩⟩ := hsoon
  · obtain ⟨hin, hread, hwrite⟩ := hawake _ ht
    exact ⟨t, blocked_eq_false hc hread hwrite, hin⟩
  · exact ⟨t, hblocked, hasleep _ ht⟩
  · exact ⟨t, blocked_eq_false hc (by rw [ht]; rfl) (by rw [ht]; rfl), by rw [ht]; rfl⟩

/-- In every run whose sections are thorough, nobody is stranded: whenever every task that is not blocked
is outside `read` and `write`, no reader sits in the queue over bytes or a closed write end, and no writer
although its record fits or the read end is closed. -/
theorem not_stranded_of_run (hrun : Run PipeInit Thorough (Config.Step pipeSection) c) :
    ¬ Stranded c := by
  rintro ⟨houtside, hwaiting⟩
  have hc := served_of_run hrun
  have hnobody : ¬ ∃ t, c.shared.blocked t = false ∧ (c.thread t).inPipe = true := by
    rintro ⟨t, hblocked, hin⟩
    exact false_ne_true ((houtside t hblocked).symm.trans hin)
  obtain ⟨hqueue, hbytes | hclosed⟩ | ⟨t, ht, hfits | hclosed⟩ := hwaiting
  · obtain ⟨r, hr⟩ := exists_mem_of_ne_nil _ hqueue
    have hsoon := hc.readers.served r hr (by simpa [readReady] using hbytes)
    exact hnobody (not_outside_of_soon hc hsoon (fun l ↦ by cases l <;> simp [isReading,
      inPipe, isReadSleeping, isWriteSleeping]) fun l ↦ by
        cases l <;> simp [isReadSleeping, inPipe])
  · exact hqueue (hc.readers.nobody hclosed)
  · have hsoon := hc.writers.served t ht hfits
    exact hnobody (not_outside_of_soon hc hsoon (fun l ↦ by cases l <;> simp [isWriting,
      inPipe, isReadSleeping, isWriteSleeping]) fun l ↦ by
        cases l <;> simp [isWriteSleeping, inPipe])
  · rw [hc.writers.nobody hclosed] at ht
    simp at ht

end Runs

/-! ### A read that leaves bytes to a sleeping reader -/

def newPipe : Config PipeState PipeCall := ⟨⟨.new 0 0, fun _ ↦ false⟩, fun _ ↦ .outside⟩

theorem init_newPipe : PipeInit newPipe := ⟨⟨0, 0, rfl⟩, fun _ ↦ rfl, fun _ ↦ rfl⟩

/-- Two readers with room for `len` bytes go to sleep, and a writer writes a hundred bytes. The first
reader is woken and reads. -/
def twoReaders (len : Nat) : List (Nat × PipeAction) :=
  [(0, .read len), (0, .transfer false), (1, .read len), (1, .transfer false),
    (2, .write (List.replicate 100 0)), (2, .transfer false), (2, .wake),
    (0, .resume false), (0, .transfer false), (0, .wake)]

/-- Both readers ask for ten bytes: the first has returned and so has the writer, ninety bytes are in the
buffer, and the second reader sleeps in the queue. -/
theorem reader_stranded :
    ∃ c, Run PipeInit (fun _ _ ↦ True) (Config.Step pipeSection) c ∧ Stranded c ∧
      c.shared.ring.readWaiters = [1] ∧ c.shared.ring.buffer.length = 90 := by
  obtain ⟨c, hc⟩ : ∃ c, newPipe.runLabels pipeSection (twoReaders 10) = some c := ⟨_, rfl⟩
  refine ⟨c, Config.run_of_runLabels (.start init_newPipe) hc, ⟨fun t ht ↦ ?_, .inl ?_⟩, ?_⟩
  · rcases t with _ | _ | _ | t
    · obtain rfl := some.inj hc
      rfl
    · obtain rfl := some.inj hc
      exact absurd ht (by decide +kernel)
    · obtain rfl := some.inj hc
      rfl
    · rw [Config.thread_of_runLabels (by simp [twoReaders]) hc]
      rfl
  · obtain rfl := some.inj hc
    decide +kernel
  · obtain rfl := some.inj hc
    decide +kernel

/-- Both readers ask for a hundred bytes: the first takes them all. -/
theorem not_stranded_after_read :
    ∃ c, Run PipeInit Thorough (Config.Step pipeSection) c ∧ ¬ Stranded c ∧
      c.shared.ring.readWaiters = [1] ∧ c.shared.ring.buffer = [] := by
  obtain ⟨c, hc⟩ : ∃ c, runWhile Thorough (Config.next pipeSection) (twoReaders 100) newPipe =
      some c := ⟨_, rfl⟩
  have hrun : Run PipeInit Thorough (Config.Step pipeSection) c :=
    .of_runWhile (.start init_newPipe) hc
  refine ⟨c, hrun, not_stranded_of_run hrun, ?_⟩
  obtain rfl := some.inj hc
  exact ⟨rfl, rfl⟩

end RespOS.Fs
