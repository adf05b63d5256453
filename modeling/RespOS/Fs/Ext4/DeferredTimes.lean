import RespOS.Basis.Interleaving
import RespOS.Basis.WriteBehind
import RespOS.Fs.Ext4.Inode

/-!
# Deferred timestamps

Reads and writes defer their timestamps: `defer_atime` and `note_data_write` store them in the
`MetadataState`, and `flush_pending_times` and `flush_pending_atime` write them to the lower inode. A
flush takes the metadata lock twice and commits in between without it. In its second section it removes
a pending value if the generation is still the one it has read.

The generation is kept in the pending value itself and starts again from one when nothing is pending.
So a flush can find a generation it has read on a value it has not: `atime_dropped` is the run in which
two flushes overlap and a value deferred between their second sections is removed unwritten. A flush
can also commit an older value after a newer one. In the other runs (`Undisturbed`) the lower
timestamps end up at the last deferred values (`deferred_of_run`).

The two pending values are two instances of `WriteBehind`; a flush may carry both. The numbers of the
deferred values and of those committed are history, and no section reads them.
-/

namespace RespOS.Fs.Ext4

open RespOS.Basis
open Function (update update_eq_self_iff)
open MetadataState

/-- The inode, and the history of its deferred timestamps: all deferred values, and the numbers of
those that the last commits have written. -/
structure TimesState where
  metadata : MetadataState := {}
  lower : LowerInode
  atimes : List TimeSpec := []
  dataTimes : List (TimeSpec × TimeSpec) := []
  atimeCommitted : Nat := 0
  dataCommitted : Nat := 0

/-- A flush under way: what it has read in its first section, with the numbers of the values. -/
inductive Flush
  | idle
  | snapshot (atime : Option (PendingAtime × Nat)) (data : Option (PendingDataTimes × Nat))
  | committed (atime : Option (PendingAtime × Nat)) (data : Option (PendingDataTimes × Nat))

/-- The sections. A call of `defer_atime` or `note_data_write` is its last section here, with what the
earlier reads of the call returned. -/
inductive TimesAction
  | deferAtime (atime : TimeSpec) (extraMask : Nat) (times : InodeTimes) (nowUs : Nat)
  | noteDataWrite (time : TimeSpec) (extraMask : Nat) (times : InodeTimes)
  | flushPendingTimes
  | flushPendingAtime
  | commit (succeeds : Bool)
  | clear

namespace TimesState

def deferAtime (s : TimesState) (atime : TimeSpec) (extraMask : Nat) (times : InodeTimes)
    (nowUs : Nat) : TimesState :=
  { s with
    metadata := s.metadata.deferAtime atime extraMask times nowUs
    atimes := s.atimes ++ [truncateLowerTime atime (extraMask &&& atimeExtra ≠ 0)] }

def noteDataWrite (s : TimesState) (time : TimeSpec) (extraMask : Nat) (times : InodeTimes) :
    TimesState :=
  { s with
    metadata := s.metadata.noteDataWrite time extraMask times
    dataTimes := s.dataTimes ++ [(truncateLowerTime time (extraMask &&& mtimeExtra ≠ 0),
      truncateLowerTime time (extraMask &&& ctimeExtra ≠ 0))] }

def commit (s : TimesState) (atime : Option (PendingAtime × Nat))
    (data : Option (PendingDataTimes × Nat)) : TimesState :=
  { s with
    lower := s.lower.setattr none none (atime.map (·.1.atime)) (data.map (·.1.mtime))
      (data.map (·.1.ctime))
    atimeCommitted := atime.elim s.atimeCommitted Prod.snd
    dataCommitted := data.elim s.dataCommitted Prod.snd }

/-- The second lock section of a flush. -/
def clear (s : TimesState) (atime : Option (PendingAtime × Nat))
    (data : Option (PendingDataTimes × Nat)) : TimesState :=
  { s with
    metadata := (s.metadata.clearAtime (atime.map Prod.fst)).clearDataTimes (data.map Prod.fst) }

def pendingAtime (s : TimesState) : Option (PendingAtime × Nat) :=
  s.metadata.pendingAtime.map fun pending ↦ (pending, s.atimes.length)

def pendingDataTimes (s : TimesState) : Option (PendingDataTimes × Nat) :=
  s.metadata.pendingDataTimes.map fun pending ↦ (pending, s.dataTimes.length)

end TimesState

def timesSection (_ : Nat) (a : TimesAction) (s : TimesState) (l : Flush) :
    Option (TimesState × Flush) :=
  match a, l with
  | .deferAtime atime extraMask times nowUs, .idle =>
    some (s.deferAtime atime extraMask times nowUs, .idle)
  | .noteDataWrite time extraMask times, .idle =>
    some (s.noteDataWrite time extraMask times, .idle)
  | .flushPendingTimes, .idle =>
    if s.pendingAtime.isNone && s.pendingDataTimes.isNone then some (s, .idle)
    else some (s, .snapshot s.pendingAtime s.pendingDataTimes)
  | .flushPendingAtime, .idle =>
    if s.pendingAtime.isNone then some (s, .idle) else some (s, .snapshot s.pendingAtime none)
  | .commit succeeds, .snapshot atime data =>
    if succeeds then some (s.commit atime data, .committed atime data) else some (s, .idle)
  | .clear, .committed atime data => some (s.clear atime data, .idle)
  | _, _ => none

structure TimesInit (c : Config TimesState Flush) : Prop where
  shared : ∃ lower, c.shared = { lower := lower }
  thread : ∀ t, c.thread t = .idle

namespace Flush

def atimeFlight : Flush → Flight TimeSpec
  | .snapshot (some (pending, number)) _ => .read pending.generation pending.atime number
  | .committed (some (pending, number)) _ => .wrote pending.generation number
  | _ => .idle

def dataFlight : Flush → Flight (TimeSpec × TimeSpec)
  | .snapshot _ (some (pending, number)) =>
    .read pending.generation (pending.mtime, pending.ctime) number
  | .committed _ (some (pending, number)) => .wrote pending.generation number
  | _ => .idle

end Flush

def nextAtimeGeneration (m : MetadataState) : Nat :=
  m.pendingAtime.elim 1 fun pending ↦ (pending.generation + 1) % usizeSize

/-- The generation that `note_data_write` will use. -/
def nextDataGeneration (m : MetadataState) : Nat :=
  m.pendingDataTimes.elim 1 fun pending ↦ (pending.generation + 1) % usizeSize

/-- Every flush that has still to commit an access time has read the pending one. -/
def AtimeNewest (c : Config TimesState Flush) : Prop :=
  ∀ pending, c.shared.metadata.pendingAtime = some pending →
    ∀ t g x n, (c.thread t).atimeFlight = .read g x n → pending.generation = g

/-- Every flush that has still to commit data times has read the pending ones. -/
def DataNewest (c : Config TimesState Flush) : Prop :=
  ∀ pending, c.shared.metadata.pendingDataTimes = some pending →
    ∀ t g x n, (c.thread t).dataFlight = .read g x n → pending.generation = g

/-- A value is deferred only under a generation that no flush under way has read, and a flush begins
only when no other flush has still to commit an older value. -/
def Undisturbed (c : Config TimesState Flush) (l : Nat × TimesAction) : Prop :=
  match l.2 with
  | .deferAtime .. => ∀ t,
      (∀ x n, (c.thread t).atimeFlight ≠ .read (nextAtimeGeneration c.shared.metadata) x n) ∧
        ∀ n, (c.thread t).atimeFlight ≠ .wrote (nextAtimeGeneration c.shared.metadata) n
  | .noteDataWrite .. => ∀ t,
      (∀ x n, (c.thread t).dataFlight ≠ .read (nextDataGeneration c.shared.metadata) x n) ∧
        ∀ n, (c.thread t).dataFlight ≠ .wrote (nextDataGeneration c.shared.metadata) n
  | .flushPendingTimes => AtimeNewest c ∧ DataNewest c
  | .flushPendingAtime => AtimeNewest c
  | _ => True

/-! ### The two deferred values -/

section Views

variable {c c' : Config TimesState Flush} {t : Nat} {a : TimesAction} {s : TimesState} {k : Flush}

def atimeView (c : Config TimesState Flush) : WriteBehind TimeSpec where
  pending := c.shared.metadata.pendingAtime.map fun pending ↦ (pending.generation, pending.atime)
  lower := c.shared.lower.atime
  log := c.shared.atimes
  committed := c.shared.atimeCommitted
  flight t := (c.thread t).atimeFlight

def dataView (c : Config TimesState Flush) : WriteBehind (TimeSpec × TimeSpec) where
  pending := c.shared.metadata.pendingDataTimes.map fun pending ↦
    (pending.generation, (pending.mtime, pending.ctime))
  lower := (c.shared.lower.mtime, c.shared.lower.ctime)
  log := c.shared.dataTimes
  committed := c.shared.dataCommitted
  flight t := (c.thread t).dataFlight

theorem atimeView_update : atimeView ⟨s, update c.thread t k⟩ =
    { pending := s.metadata.pendingAtime.map fun pending ↦ (pending.generation, pending.atime)
      lower := s.lower.atime
      log := s.atimes
      committed := s.atimeCommitted
      flight := update (atimeView c).flight t k.atimeFlight } :=
  WriteBehind.ext rfl rfl rfl rfl (Function.comp_update Flush.atimeFlight c.thread t k)

theorem dataView_update : dataView ⟨s, update c.thread t k⟩ =
    { pending := s.metadata.pendingDataTimes.map fun pending ↦
        (pending.generation, (pending.mtime, pending.ctime))
      lower := (s.lower.mtime, s.lower.ctime)
      log := s.dataTimes
      committed := s.dataCommitted
      flight := update (dataView c).flight t k.dataFlight } :=
  WriteBehind.ext rfl rfl rfl rfl (Function.comp_update Flush.dataFlight c.thread t k)

inductive TimesAdvance (c : Config TimesState Flush) (t : Nat) (a : TimesAction) (s : TimesState)
    (k : Flush) : Prop
  | deferAtime {atime : TimeSpec} {extraMask : Nat} {times : InodeTimes} {nowUs : Nat}
      (ha : a = .deferAtime atime extraMask times nowUs) (hl : c.thread t = .idle)
      (hs : s = c.shared.deferAtime atime extraMask times nowUs) (hk : k = .idle)
  | noteDataWrite {time : TimeSpec} {extraMask : Nat} {times : InodeTimes}
      (ha : a = .noteDataWrite time extraMask times) (hl : c.thread t = .idle)
      (hs : s = c.shared.noteDataWrite time extraMask times) (hk : k = .idle)
  | nothing (hl : c.thread t = .idle) (hs : s = c.shared) (hk : k = .idle)
  | flushTimes (ha : a = .flushPendingTimes) (hl : c.thread t = .idle) (hs : s = c.shared)
      (hk : k = .snapshot c.shared.pendingAtime c.shared.pendingDataTimes)
  | flushAtime (ha : a = .flushPendingAtime) (hl : c.thread t = .idle) (hs : s = c.shared)
      (hk : k = .snapshot c.shared.pendingAtime none)
  | failed {atime : Option (PendingAtime × Nat)} {data : Option (PendingDataTimes × Nat)}
      (hl : c.thread t = .snapshot atime data) (hs : s = c.shared) (hk : k = .idle)
  | committed {atime : Option (PendingAtime × Nat)} {data : Option (PendingDataTimes × Nat)}
      (hl : c.thread t = .snapshot atime data) (hs : s = c.shared.commit atime data)
      (hk : k = .committed atime data)
  | cleared {atime : Option (PendingAtime × Nat)} {data : Option (PendingDataTimes × Nat)}
      (hl : c.thread t = .committed atime data) (hs : s = c.shared.clear atime data)
      (hk : k = .idle)

theorem timesAdvance_of_section (h : timesSection t a c.shared (c.thread t) = some (s, k)) :
    TimesAdvance c t a s k := by
  generalize hl : c.thread t = l at h
  revert h
  fun_cases timesSection t a c.shared l with rintro ⟨⟩
  | case1 =>
    exact .deferAtime rfl hl rfl rfl
  | case2 =>
    exact .noteDataWrite rfl hl rfl rfl
  | case3 | case5 =>
    exact .nothing hl rfl rfl
  | case4 =>
    exact .flushTimes rfl hl rfl rfl
  | case6 =>
    exact .flushAtime rfl hl rfl rfl
  | case7 =>
    exact .committed hl rfl rfl
  | case8 =>
    exact .failed hl rfl rfl
  | case9 =>
    exact .cleared hl rfl rfl

section

variable (atime : Option (PendingAtime × Nat)) (data : Option (PendingDataTimes × Nat))

theorem pendingAtime_clear : (c.shared.clear atime data).metadata.pendingAtime =
      (c.shared.metadata.clearAtime (atime.map Prod.fst)).pendingAtime := by
  unfold TimesState.clear clearDataTimes
  split
  · rfl
  · split_ifs <;> rfl

theorem pendingDataTimes_clear : (c.shared.clear atime data).metadata.pendingDataTimes =
      (c.shared.metadata.clearDataTimes (data.map Prod.fst)).pendingDataTimes := by
  have hsame : (c.shared.metadata.clearAtime (atime.map Prod.fst)).pendingDataTimes =
      c.shared.metadata.pendingDataTimes := by
    unfold clearAtime
    split
    · rfl
    · split_ifs <;> rfl
  unfold TimesState.clear clearDataTimes
  split
  · exact hsame
  rw [hsame]
  split_ifs
  · rfl
  · exact hsame

end

theorem atimeView_begin (hsafe : (atimeView c).Safe) (hnewest : AtimeNewest c)
    (data : Option (PendingDataTimes × Nat)) : (atimeView c).Moves
      (atimeView ⟨c.shared, update c.thread t (.snapshot c.shared.pendingAtime data)⟩) := by
  rw [atimeView_update, TimesState.pendingAtime]
  cases hpending : c.shared.metadata.pendingAtime with
  | none =>
    refine .fail t (WriteBehind.ext ?_ rfl rfl rfl rfl)
    simp [atimeView, hpending]
  | some pending =>
    have hview : (atimeView c).pending = some (pending.generation, pending.atime) := by
      simp [atimeView, hpending]
    refine .begin t _ _ hview (fun u g x n hu ↦ ?_) (WriteBehind.ext hview.symm rfl rfl rfl rfl)
    obtain rfl := hnewest pending hpending u g x n hu
    exact (hsafe.read u _ x n hu).2.2.2.2 pending.atime hview

theorem atimeView_moves (h : TimesAdvance c t a s k) (hok : Undisturbed c (t, a))
    (hsafe : (atimeView c).Safe) : (atimeView c).Moves (atimeView ⟨s, update c.thread t k⟩) := by
  cases h with
  | @deferAtime atime extraMask times nowUs ha hl hs hk =>
    subst ha hs hk
    rw [atimeView_update]
    refine .defer (nextAtimeGeneration c.shared.metadata) _ (fun u ↦ (hok u).1)
      (fun u ↦ (hok u).2) (WriteBehind.ext ?_ rfl rfl rfl ?_)
    · cases hpending : c.shared.metadata.pendingAtime <;>
        simp [TimesState.deferAtime, deferAtime, nextAtimeGeneration, hpending]
    · exact update_eq_self_iff.mpr (by simp [atimeView, hl, Flush.atimeFlight])
  | flushTimes ha hl hs hk =>
    subst ha hs hk
    exact atimeView_begin hsafe hok.1 _
  | flushAtime ha hl hs hk =>
    subst ha hs hk
    exact atimeView_begin hsafe hok none
  -- nothing of the value is under way afterwards, as where a commit fails
  | noteDataWrite _ _ hs hk | nothing _ hs hk | failed _ hs hk =>
    subst hs hk
    exact .fail t atimeView_update
  | @committed atime data hl hs hk =>
    subst hs hk
    rw [atimeView_update]
    cases atime with
    | none => exact .fail t rfl
    | some read =>
      exact .commit t read.1.generation read.2 read.1.atime (by simp [atimeView, hl, Flush.atimeFlight])
        rfl
  | @cleared atime data hl hs hk =>
    subst hs hk
    rw [atimeView_update]
    cases atime with
    | none =>
      refine .fail t (WriteBehind.ext ?_ rfl rfl rfl rfl)
      rw [pendingAtime_clear]
      rfl
    | some read =>
      refine .finish t read.1.generation read.2 (by simp [atimeView, hl, Flush.atimeFlight])
        (WriteBehind.ext ?_ rfl rfl rfl rfl)
      rw [pendingAtime_clear]
      cases hpending : c.shared.metadata.pendingAtime with
      | none => simp [clearAtime, atimeView, hpending]
      | some pending =>
        by_cases hgen : pending.generation = read.1.generation <;>
          simp [clearAtime, atimeView, hpending, hgen]

theorem dataView_begin (hsafe : (dataView c).Safe) (hnewest : DataNewest c)
    (atime : Option (PendingAtime × Nat)) : (dataView c).Moves (dataView
      ⟨c.shared, update c.thread t (.snapshot atime c.shared.pendingDataTimes)⟩) := by
  rw [dataView_update, TimesState.pendingDataTimes]
  cases hpending : c.shared.metadata.pendingDataTimes with
  | none =>
    refine .fail t (WriteBehind.ext ?_ rfl rfl rfl rfl)
    simp [dataView, hpending]
  | some pending =>
    have hview : (dataView c).pending = some (pending.generation, (pending.mtime, pending.ctime)) := by
      simp [dataView, hpending]
    refine .begin t _ _ hview (fun u g x n hu ↦ ?_) (WriteBehind.ext hview.symm rfl rfl rfl rfl)
    obtain rfl := hnewest pending hpending u g x n hu
    exact (hsafe.read u _ x n hu).2.2.2.2 _ hview

theorem dataView_moves (h : TimesAdvance c t a s k) (hok : Undisturbed c (t, a))
    (hsafe : (dataView c).Safe) : (dataView c).Moves (dataView ⟨s, update c.thread t k⟩) := by
  cases h with
  | noteDataWrite ha hl hs hk =>
    subst ha hs hk
    rw [dataView_update]
    refine .defer (nextDataGeneration c.shared.metadata) _ (fun u ↦ (hok u).1)
      (fun u ↦ (hok u).2) (WriteBehind.ext rfl rfl rfl rfl ?_)
    exact update_eq_self_iff.mpr (by simp [dataView, hl, Flush.dataFlight])
  | flushTimes ha hl hs hk =>
    subst ha hs hk
    exact dataView_begin hsafe hok.2 _
  | flushAtime _ _ hs hk =>
    subst hs hk
    rw [dataView_update]
    cases c.shared.pendingAtime <;> exact .fail t rfl
  | deferAtime _ _ hs hk | nothing _ hs hk | failed _ hs hk =>
    subst hs hk
    exact .fail t dataView_update
  | @committed atime data hl hs hk =>
    subst hs hk
    rw [dataView_update]
    cases data with
    | none => cases atime <;> exact .fail t rfl
    | some read =>
      exact .commit t read.1.generation read.2 (read.1.mtime, read.1.ctime)
        (by cases atime <;> simp [dataView, hl, Flush.dataFlight]) (by cases atime <;> rfl)
  | @cleared atime data hl hs hk =>
    subst hs hk
    rw [dataView_update]
    cases data with
    | none =>
      refine .fail t (WriteBehind.ext ?_ rfl rfl rfl rfl)
      rw [pendingDataTimes_clear]
      rfl
    | some read =>
      refine .finish t read.1.generation read.2
        (by cases atime <;> simp [dataView, hl, Flush.dataFlight])
        (WriteBehind.ext ?_ rfl rfl rfl rfl)
      rw [pendingDataTimes_clear]
      cases hpending : c.shared.metadata.pendingDataTimes with
      | none => simp [clearDataTimes, dataView, hpending]
      | some pending =>
        by_cases hgen : pending.generation = read.1.generation <;>
          simp [clearDataTimes, dataView, hpending, hgen]

theorem safe_of_run (hrun : Run TimesInit Undisturbed (Config.Step timesSection) c) :
    (atimeView c).Safe ∧ (dataView c).Safe := by
  refine hrun.invariant (I := fun c ↦ (atimeView c).Safe ∧ (dataView c).Safe) (fun c hc ↦ ?_) ?_
  · obtain ⟨⟨lower, hshared⟩, hthread⟩ := hc
    obtain ⟨s, thread⟩ := c
    obtain rfl : s = { lower := lower } := hshared
    obtain rfl : thread = fun _ ↦ .idle := funext hthread
    exact ⟨WriteBehind.safe_start _, WriteBehind.safe_start _⟩
  · rintro c ⟨t, a⟩ c' ⟨hatime, hdata⟩ hok hstep
    obtain ⟨s, k, hsec, rfl⟩ := Config.step_iff.mp hstep
    have hadv := timesAdvance_of_section hsec
    exact ⟨hatime.moves (atimeView_moves hadv hok hatime), hdata.moves (dataView_moves hadv hok hdata)⟩

/-- In every run in which no value is deferred under a generation that a flush under way has read and
no flush begins while another one has still to commit an older value: when a pending value is removed,
the last commit has written it, and whenever nothing is pending the lower timestamps are those deferred
last. -/
theorem deferred_of_run (hrun : Run TimesInit Undisturbed (Config.Step timesSection) c) :
    (∀ l c', Undisturbed c l → c.Step timesSection l c' →
      (∀ pending, c.shared.metadata.pendingAtime = some pending →
        c'.shared.metadata.pendingAtime = none →
          c.shared.atimes.getLast? = some pending.atime ∧
          c.shared.atimeCommitted = c.shared.atimes.length) ∧
      ∀ pending, c.shared.metadata.pendingDataTimes = some pending →
        c'.shared.metadata.pendingDataTimes = none →
          c.shared.dataTimes.getLast? = some (pending.mtime, pending.ctime) ∧
          c.shared.dataCommitted = c.shared.dataTimes.length) ∧
    (c.shared.metadata.pendingAtime = none →
      ∀ atime, c.shared.atimes.getLast? = some atime → c.shared.lower.atime = atime) ∧
    (c.shared.metadata.pendingDataTimes = none →
      ∀ mtime ctime, c.shared.dataTimes.getLast? = some (mtime, ctime) →
        c.shared.lower.mtime = mtime ∧ c.shared.lower.ctime = ctime) := by
  obtain ⟨hatime, hdata⟩ := safe_of_run hrun
  refine ⟨?_, fun hnone atime hlast ↦ ?_, fun hnone mtime ctime hlast ↦ ?_⟩
  · rintro ⟨t, a⟩ c' hok hstep
    obtain ⟨s, k, hsec, rfl⟩ := Config.step_iff.mp hstep
    have hadv := timesAdvance_of_section hsec
    refine ⟨fun pending hpending hnone ↦ ?_, fun pending hpending hnone ↦ ?_⟩
    · exact hatime.of_removed (atimeView_moves hadv hok hatime) (g := pending.generation)
        (by simp [atimeView, hpending]) (by simpa [atimeView] using hnone)
    · exact hdata.of_removed (dataView_moves hadv hok hdata) (g := pending.generation)
        (by simp [dataView, hpending]) (by simpa [dataView] using hnone)
  · exact hatime.lower_eq (by simp [atimeView, hnone]) hlast
  · exact Prod.mk.inj (hdata.lower_eq (by simp [dataView, hnone]) hlast)

end Views

/-! ### Two flushes that overlap -/

def blankInode : LowerInode := ⟨0o100644, 0, 0, 0, ⟨0, 0⟩, ⟨0, 0⟩, ⟨0, 0⟩, 7, 0, 0, 1⟩

def blankTimes : Config TimesState Flush := ⟨{ lower := blankInode }, fun _ ↦ .idle⟩

theorem init_blankTimes : TimesInit blankTimes := ⟨⟨blankInode, rfl⟩, fun _ ↦ rfl⟩

def accessAt (sec : Int) : TimesAction := .deferAtime ⟨sec, 0⟩ 7 ⟨⟨0, 0⟩, ⟨0, 0⟩, ⟨0, 0⟩⟩ 0

/-- Two flushes read and commit the first access. The one that ends first removes it. The second access
is then deferred under the same generation, and the flush that ends last removes it unwritten. -/
def overlappingFlushes : List (Nat × TimesAction) :=
  [(0, accessAt 1), (1, .flushPendingAtime), (2, .flushPendingAtime), (1, .commit true),
    (2, .commit true), (1, .clear), (0, accessAt 2), (2, .clear)]

/-- No flush is running and nothing is pending, but the lower access time is not the last deferred one,
which was never committed. -/
theorem atime_dropped :
    ∃ c, Run TimesInit (fun _ _ ↦ True) (Config.Step timesSection) c ∧ (∀ t, c.thread t = .idle) ∧
      c.shared.metadata.pendingAtime = none ∧ c.shared.metadata.pendingDataTimes = none ∧
      c.shared.atimes = [⟨1, 0⟩, ⟨2, 0⟩] ∧ c.shared.atimeCommitted = 1 ∧
      c.shared.lower.atime = ⟨1, 0⟩ := by
  obtain ⟨c, hc⟩ : ∃ c, blankTimes.runLabels timesSection overlappingFlushes = some c := ⟨_, rfl⟩
  refine ⟨c, Config.run_of_runLabels (.start init_blankTimes) hc, fun t ↦ ?_, ?_⟩
  · rcases t with _ | _ | _ | t
    · obtain rfl := Option.some.inj hc
      rfl
    · obtain rfl := Option.some.inj hc
      rfl
    · obtain rfl := Option.some.inj hc
      rfl
    · exact Config.thread_of_runLabels (by simp [overlappingFlushes]) hc
  · obtain rfl := Option.some.inj hc
    exact ⟨rfl, rfl, rfl, rfl, rfl⟩

/-- A flush commits an access, another access is deferred, and a second flush begins and ends after the
first has left the new value. -/
theorem atime_flushed : ∃ c, Run TimesInit Undisturbed (Config.Step timesSection) c ∧
      c.shared.metadata.pendingAtime = none ∧ c.shared.atimes = [⟨1, 0⟩, ⟨2, 0⟩] ∧
      c.shared.lower.atime = ⟨2, 0⟩ := by
  have hstart : Run TimesInit Undisturbed (Config.Step timesSection) _ := .start init_blankTimes
  have hdefer := hstart.next (0, accessAt 1) (fun t ↦ ⟨nofun, nofun⟩) rfl
  have hbegin := hdefer.next (1, TimesAction.flushPendingAtime) (fun _ _ t g x n ht ↦ by
    rcases t with _ | t <;> cases ht) rfl
  have hcommit := hbegin.next (1, TimesAction.commit true) trivial rfl
  have hagain := hcommit.next (0, accessAt 2) (fun t ↦ by
    rcases t with _ | _ | t <;> refine ⟨fun x n h ↦ ?_, fun n h ↦ ?_⟩ <;> cases h) rfl
  have hbegin₂ := hagain.next (2, TimesAction.flushPendingAtime) (fun _ _ t g x n ht ↦ by
    rcases t with _ | _ | t <;> cases ht) rfl
  have hclear := hbegin₂.next (1, TimesAction.clear) trivial rfl
  have hcommit₂ := hclear.next (2, TimesAction.commit true) trivial rfl
  have hclear₂ := hcommit₂.next (2, TimesAction.clear) trivial rfl
  exact ⟨_, hclear₂, rfl, rfl, (deferred_of_run hclear₂).2.1 rfl _ rfl⟩

end RespOS.Fs.Ext4
