import RespOS.Fs.RecordLocks

/-!
# Exclusion of advisory locks (`syscall/fs.rs`)

`POSIX_LOCKS` and `FLOCKS` keep, under the key of a file, its record locks and its `flock` locks. Record
locks belong to processes, `flock` locks to open file descriptions, which the table knows by address and by
a weak reference. A closed description leaves its entry behind, and the next `set_flock` on the file
removes it.

`exclusion_of_run` proves the exclusion for both kinds of locks. The weak reference is needed for the
second: while an entry has it, the address is not given to a new description, which would bring the
entry back to life.

A blocking request is a sequence of tries, each of which is one action here. `FdLocks` adds
the descriptors: `close` and `exit` end the record locks of a process, `dup3` and `execve` do not.
-/

namespace RespOS.Fs

open RespOS.Basis List
open Function (update update_of_ne forall_update_iff)

/-- `flock_key`: the device and the inode, or the address of the file where the inode is zero. -/
abbrev FlockKey := Nat × Nat

/-- `FlockEntry`; whether `owner_ref` still upgrades is `live` of the state. -/
structure FlockEntry where
  owner : Nat
  kind : FlockKind
  deriving DecidableEq

def flockConflicts (entries : List FlockEntry) (owner : Nat) (kind : FlockKind) : Bool :=
  entries.any fun entry ↦ decide (entry.owner ≠ owner) &&
    (decide (entry.kind = .Exclusive) || decide (kind = .Exclusive))

/-- `set_flock`, on the entries of the file. -/
def setFlock (live : Nat → Bool) (owner : Nat) (kind : FlockKind) (entries : List FlockEntry) :
    Except Errno Unit × List FlockEntry :=
  let entries := entries.filter fun entry ↦ live entry.owner
  if flockConflicts entries owner kind then (.error .EAGAIN, entries)
  else (.ok (), entries.filter (fun entry ↦ decide (entry.owner ≠ owner)) ++ [⟨owner, kind⟩])

/-- The two tables, and the open file descriptions that have a reference left. -/
structure AdvisoryLocks where
  posix : FlockKey → List PosixLockEntry := fun _ ↦ []
  flocks : FlockKey → List FlockEntry := fun _ ↦ []
  live : Nat → Bool := fun _ ↦ false

/-- A hold of one of the two locks, and the beginning and the end of an open file description. -/
inductive LockAction
  | setlk (key : FlockKey) (request : LockRequest)
  | flock (key : FlockKey) (owner : Nat) (kind : FlockKind)
  | unlock (key : FlockKey) (owner : Nat)
  | close (key : FlockKey) (pid : Nat)
  | exit (pid : Nat)
  | opened (owner : Nat)
  | dropped (owner : Nat)

/-- Two record locks that may stand in one table. -/
def PosixLockEntry.Agrees (e e' : PosixLockEntry) : Prop :=
  e.ownerPid ≠ e'.ownerPid → rangesOverlap e.start e.stop e'.start e'.stop = true →
    e.kind = .Shared ∧ e'.kind = .Shared

/-- Two `flock` locks that may stand in one table. -/
def FlockEntry.Agrees (live : Nat → Bool) (e e' : FlockEntry) : Prop :=
  e.owner ≠ e'.owner → live e.owner = true → live e'.owner = true → e.kind = .Shared ∧ e'.kind = .Shared

instance : Std.Symm PosixLockEntry.Agrees where
  symm _ _ h hne hoverlap := (h hne.symm (by simpa [rangesOverlap, and_comm] using hoverlap)).symm

instance (live : Nat → Bool) : Std.Symm (FlockEntry.Agrees live) where
  symm _ _ h hne hlive hlive' := (h hne.symm hlive' hlive).symm

theorem FlockKind.not_clashes_iff {k k' : FlockKind} : ¬ k.Clashes k' ↔ k = .Shared ∧ k' = .Shared := by
  cases k <;> cases k' <;> simp [Clashes]

theorem agrees_setlk {entries : List PosixLockEntry} (r : LockRequest)
    (h : entries.Pairwise PosixLockEntry.Agrees) :
    ((r.setlk entries).state?.getD entries).Pairwise PosixLockEntry.Agrees := by
  rcases setlk_cases r entries with ⟨-, e, -, hout⟩ | ⟨-, first, stop, -, hgranted⟩
  · rw [hout]
    exact h
  have hothers : (others entries r.pid first stop).Pairwise PosixLockEntry.Agrees := h.filter _
  generalize r.setlk entries = out at hgranted
  cases hgranted with
  | unlocked | refused => exact hothers
  | locked k hkind hfree =>
    refine pairwise_append.mpr ⟨hothers, pairwise_singleton _ _, fun e he e' he' hne hoverlap ↦ ?_⟩
    obtain rfl := mem_singleton.mp he'
    exact FlockKind.not_clashes_iff.mp fun hclash ↦
      hfree ⟨e, (mem_others.mp he).1, hne, hoverlap, hclash⟩

theorem agrees_setFlock {live : Nat → Bool} {entries : List FlockEntry} (owner : Nat) (kind : FlockKind)
    (h : entries.Pairwise (FlockEntry.Agrees live)) :
    (setFlock live owner kind entries).2.Pairwise (FlockEntry.Agrees live) := by
  unfold setFlock
  dsimp only
  split_ifs with hconflict
  · exact h.filter _
  · refine pairwise_append.mpr ⟨(h.filter _).filter _, pairwise_singleton _ _, fun e he e' he' hne _ _ ↦ ?_⟩
    obtain rfl := mem_singleton.mp he'
    simp only [flockConflicts, any_eq_true, not_exists, not_and] at hconflict
    refine FlockKind.not_clashes_iff.mp ?_
    simpa [FlockKind.Clashes, show e.owner ≠ owner from hne] using hconflict e (mem_filter.mp he).1

namespace AdvisoryLocks

/-- The state after an action: a try of `F_SETLK` or `F_SETLKW`, a try of `set_flock`,
`release_flock_for_file`, `release_posix_locks_for_file`, `release_posix_locks_for_process`. -/
def next (s : AdvisoryLocks) : LockAction → AdvisoryLocks
  | .setlk key r =>
    { s with posix := update s.posix key ((r.setlk (s.posix key)).state?.getD (s.posix key)) }
  | .flock key owner kind =>
    { s with flocks := update s.flocks key (setFlock s.live owner kind (s.flocks key)).2 }
  | .unlock key owner =>
    { s with flocks := update s.flocks key ((s.flocks key).filter fun e ↦ decide (e.owner ≠ owner)) }
  | .close key pid =>
    { s with posix := update s.posix key ((s.posix key).filter fun e ↦ decide (e.ownerPid ≠ pid)) }
  | .exit pid => { s with posix := fun key ↦ (s.posix key).filter fun e ↦ decide (e.ownerPid ≠ pid) }
  | .opened owner => { s with live := update s.live owner true }
  | .dropped owner => { s with live := update s.live owner false }

/-- A call of `flock` has a reference to its description; a new description gets an address that no entry
has a weak reference to. -/
def Enabled (s : AdvisoryLocks) : LockAction → Prop
  | .flock _ owner _ => s.live owner = true
  | .opened owner => ∀ key, ∀ e ∈ s.flocks key, e.owner ≠ owner
  | _ => True

def Step (s : AdvisoryLocks) (a : LockAction) (s' : AdvisoryLocks) : Prop := s.next a = s'

/-- On every file the entries agree. -/
structure Exclusive (s : AdvisoryLocks) : Prop where
  posix : ∀ key, (s.posix key).Pairwise PosixLockEntry.Agrees
  flocks : ∀ key, (s.flocks key).Pairwise (FlockEntry.Agrees s.live)

section Exclusive

variable {s : AdvisoryLocks} (h : s.Exclusive)
include h

theorem Exclusive.setPosix (key : FlockKey) {entries : List PosixLockEntry}
    (hentries : entries.Pairwise PosixLockEntry.Agrees) :
    Exclusive { s with posix := update s.posix key entries } :=
  ⟨(forall_update_iff s.posix fun _ l ↦ List.Pairwise PosixLockEntry.Agrees l).mpr
    ⟨hentries, fun key' _ ↦ h.posix key'⟩, h.flocks⟩

theorem Exclusive.setFlocks (key : FlockKey) {entries : List FlockEntry}
    (hentries : entries.Pairwise (FlockEntry.Agrees s.live)) :
    Exclusive { s with flocks := update s.flocks key entries } :=
  ⟨h.posix, (forall_update_iff s.flocks fun _ l ↦ List.Pairwise (FlockEntry.Agrees s.live) l).mpr
    ⟨hentries, fun key' _ ↦ h.flocks key'⟩⟩

theorem Exclusive.next {a : LockAction} (hok : s.Enabled a) : (s.next a).Exclusive := by
  cases a with
  | setlk key r => exact h.setPosix key (agrees_setlk r (h.posix key))
  | flock key owner kind => exact h.setFlocks key (agrees_setFlock owner kind (h.flocks key))
  | unlock key owner => exact h.setFlocks key ((h.flocks key).filter _)
  | close key pid => exact h.setPosix key ((h.posix key).filter _)
  | exit pid => exact ⟨fun key ↦ (h.posix key).filter _, h.flocks⟩
  | opened owner =>
    -- no entry has the new address, so no entry becomes live
    refine ⟨h.posix, fun key ↦ (h.flocks key).imp_of_mem fun he he' hagrees hne hlive hlive' ↦ ?_⟩
    simp only [AdvisoryLocks.next, update_of_ne (hok key _ he)] at hlive
    simp only [AdvisoryLocks.next, update_of_ne (hok key _ he')] at hlive'
    exact hagrees hne hlive hlive'
  | dropped owner =>
    have hsub : ∀ u, update s.live owner false u = true → s.live u = true := by
      intro u hu
      by_cases huo : u = owner <;> simp_all
    exact ⟨h.posix, fun key ↦ (h.flocks key).imp fun hagrees hne hlive hlive' ↦
      hagrees hne (hsub _ hlive) (hsub _ hlive')⟩

end Exclusive

/-- In every state reached by requests, closes and exits: on each file two record locks of different
processes overlap only if both are shared, and two `flock` locks of different live descriptions are both
shared. -/
theorem exclusion_of_run {s : AdvisoryLocks} (hrun : Run (· = {}) Enabled Step s) (key : FlockKey) :
    (∀ e ∈ s.posix key, ∀ e' ∈ s.posix key, e.ownerPid ≠ e'.ownerPid →
      rangesOverlap e.start e.stop e'.start e'.stop = true → e.kind = .Shared ∧ e'.kind = .Shared) ∧
    ∀ e ∈ s.flocks key, ∀ e' ∈ s.flocks key, e.owner ≠ e'.owner → s.live e.owner = true →
      s.live e'.owner = true → e.kind = .Shared ∧ e'.kind = .Shared := by
  have hs : s.Exclusive := by
    refine hrun.invariant ?_ fun s a s' h hok hstep ↦ hstep ▸ h.next hok
    rintro s rfl
    exact ⟨fun _ ↦ .nil, fun _ ↦ .nil⟩
  refine ⟨fun e he e' he' ↦ ?_, fun e he e' he' ↦ ?_⟩
  · exact (hs.posix key).forall_of_forall (fun e _ hne ↦ absurd rfl hne) he he'
  · exact (hs.flocks key).forall_of_forall (fun e _ hne ↦ absurd rfl hne) he he'

/-- Processes 1 and 2 lock overlapping ranges for reading, and two descriptions share a `flock`; an
exclusive `flock` of the first is refused. -/
theorem exclusion_of_readers : ∃ s, Run (· = {}) Enabled Step s ∧
    s.posix (1, 2) = [⟨1, 0, some 9, .Shared⟩, ⟨2, 5, none, .Shared⟩] ∧
    s.flocks (1, 2) = [⟨16, .Shared⟩, ⟨32, .Shared⟩] ∧
    ∀ e ∈ s.flocks (1, 2), ∀ e' ∈ s.flocks (1, 2), e.owner ≠ e'.owner → s.live e.owner = true →
      s.live e'.owner = true → e.kind = .Shared ∧ e'.kind = .Shared := by
  have hstart : Run (· = {}) Enabled Step {} := .start rfl
  have hopened := (hstart.next (.opened 16) (by simp [Enabled]) rfl).next (.opened 32)
    (by simp [Enabled, next]) rfl
  have hposix := (hopened.next (.setlk (1, 2) (LockTable.request 1 F_RDLCK 0 10)) (by trivial) rfl).next
    (.setlk (1, 2) (LockTable.request 2 F_RDLCK 5 0)) (by trivial) rfl
  have hrun := ((hposix.next (.flock (1, 2) 16 .Shared) (by rfl) rfl).next (.flock (1, 2) 32 .Shared)
    (by rfl) rfl).next (.flock (1, 2) 16 .Exclusive) (by rfl) rfl
  exact ⟨_, hrun, rfl, rfl, (exclusion_of_run hrun (1, 2)).2⟩

end AdvisoryLocks

/-! ### The end of record locks -/

/-- `FdEntry`, of which the file and `O_CLOEXEC` matter here. -/
structure FdLocks.FdEntry where
  key : FlockKey
  cloexec : Bool

/-- The tables with the descriptors of the processes, the calls of `close` that have still to remove theirs,
and of the past: whether the owner of a record lock has closed a descriptor of its file since the lock came
into the table. -/
structure FdLocks extends AdvisoryLocks where
  fds : Nat → Nat → Option FdLocks.FdEntry := fun _ _ ↦ none
  closing : List (Nat × Nat) := []
  closedSince : FlockKey → PosixLockEntry → Prop := fun _ _ ↦ False

namespace FdLocks

/-- A call with descriptors below the limit of the process. `close` releases the locks and then removes the
descriptor, and other threads run in between. `close_range` is `close` for each of its descriptors, or with
`CLOSE_RANGE_CLOEXEC` `setCloexec`. -/
inductive Call
  /-- `open`, `dup`, `fork` and the like, which take free descriptors. -/
  | alloc (pid fd : Nat) (entry : FdEntry)
  | dup3 (pid src dst : Nat) (cloexec : Bool)
  | release (pid fd : Nat)
  | remove (pid fd : Nat)
  /-- Also `F_SETFD`. -/
  | setCloexec (pid fd : Nat) (cloexec : Bool)
  | setlk (fd : Nat) (request : LockRequest)
  | execve (pid : Nat)
  | exit (pid : Nat)

variable (s : FdLocks)

/-- `set_fd`, and for no entry `close` of the table. -/
def setFd (pid fd : Nat) (entry : Option FdEntry) : FdLocks :=
  { s with fds := update s.fds pid (update (s.fds pid) fd entry) }

/-- A section on the tables of locks. -/
def locks (a : LockAction) : FdLocks := { s with toAdvisoryLocks := s.toAdvisoryLocks.next a }

/-- The descriptors and the locks after a call. -/
def call : Call → FdLocks
  | .alloc pid fd entry => if (s.fds pid fd).isSome then s else s.setFd pid fd entry
  | .dup3 pid src dst cloexec =>
    match s.fds pid src with
    | some entry => if src = dst then s else s.setFd pid dst (some { entry with cloexec := cloexec })
    | none => s
  | .release pid fd =>
    { (s.fds pid fd).elim s fun entry ↦ s.locks (.close entry.key pid) with
      closing := (pid, fd) :: s.closing }
  | .remove pid fd =>
    if (pid, fd) ∈ s.closing then { s.setFd pid fd none with closing := s.closing.erase (pid, fd) } else s
  | .setCloexec pid fd cloexec =>
    s.setFd pid fd ((s.fds pid fd).map fun entry ↦ { entry with cloexec := cloexec })
  | .setlk fd r =>
    match s.fds r.pid fd with
    | some entry => s.locks (.setlk entry.key r)
    | none => s
  | .execve pid =>
    { s with fds := update s.fds pid fun fd ↦ (s.fds pid fd).filter fun entry ↦ !entry.cloexec }
  | .exit pid => { s.locks (.exit pid) with fds := update s.fds pid fun _ ↦ none }

/-- The call closes a descriptor of the file in the process. -/
def Closes (pid : Nat) (key : FlockKey) : Call → Prop
  | .dup3 p src dst _ => p = pid ∧ src ≠ dst ∧ (s.fds p src).isSome ∧
    ∃ entry ∈ s.fds p dst, entry.key = key
  | .remove p fd => p = pid ∧ (p, fd) ∈ s.closing ∧ ∃ entry ∈ s.fds p fd, entry.key = key
  | .execve p => p = pid ∧ ∃ fd, ∃ entry ∈ s.fds p fd, entry.cloexec = true ∧ entry.key = key
  | _ => False

/-- A call with what it adds to the past. -/
def next (a : Call) : FdLocks :=
  { s.call a with
    closedSince := fun key e ↦ e ∈ s.posix key ∧ (s.closedSince key e ∨ s.Closes e.ownerPid key a) }

def Step (a : Call) (s' : FdLocks) : Prop := s.next a = s'

/-- The process has no locks on a file of which it is about to remove a descriptor. -/
def Released : Prop :=
  ∀ p ∈ s.closing, ∀ entry ∈ s.fds p.1 p.2, ∀ e ∈ s.posix entry.key, e.ownerPid ≠ p.1

/-- `dup3` and `execve` close no descriptor of a file on which the process has locks, and no call comes
between the two sections of `close` with a lock on the file, or with a locked file in its place. -/
def Careful (a : Call) : Prop :=
  match a with
  | .release .. | .remove .. => True
  | _ => (∀ key, ∀ e ∈ s.posix key, ¬ s.Closes e.ownerPid key a) ∧ (s.call a).Released

variable {s} {a : Call}

theorem Released.release (h : s.Released) (pid fd : Nat) : (s.call (.release pid fd)).Released := by
  cases hfd : s.fds pid fd with
  | none =>
    simp only [call, hfd, Option.elim_none]
    refine forall_mem_cons.mpr ⟨fun entry hentry ↦ ?_, h⟩
    simp [hfd] at hentry
  | some old =>
    simp only [call, hfd, Option.elim_some, locks, AdvisoryLocks.next]
    refine forall_mem_cons.mpr ⟨fun entry hentry e he ↦ ?_, fun p hp entry hentry e he ↦ ?_⟩
    · obtain rfl : entry = old := Option.some.inj (hentry.symm.trans hfd)
      simp only [Function.update_self, mem_filter, decide_eq_true_eq] at he
      exact he.2
    · by_cases hkey : entry.key = old.key
      · simp only [hkey, Function.update_self, mem_filter] at he
        exact h p hp entry hentry e (hkey ▸ he.1)
      · simp only [update_of_ne hkey] at he
        exact h p hp entry hentry e he

theorem Released.remove (h : s.Released) (pid fd : Nat) : (s.call (.remove pid fd)).Released := by
  simp only [call]
  split_ifs
  · intro p hp entry hentry
    refine h p (mem_of_mem_erase hp) entry ?_
    by_cases hpid : p.1 = pid
    · by_cases hfd : p.2 = fd
      · simp [setFd, hpid, hfd] at hentry
      · simpa [setFd, hpid, hfd] using hentry
    · simpa [setFd, hpid] using hentry
  · exact h

theorem Released.call (h : s.Released) (hok : s.Careful a) : (s.call a).Released := by
  cases a with
  | release pid fd => exact h.release pid fd
  | remove pid fd => exact h.remove pid fd
  | alloc | dup3 | setCloexec | setlk | execve | exit => exact hok.2

theorem not_closes (hs : s.Released) (hok : s.Careful a) {key : FlockKey} {e : PosixLockEntry}
    (hold : e ∈ s.posix key) : ¬ s.Closes e.ownerPid key a := by
  cases a with
  | remove pid fd =>
    rintro ⟨rfl, hclosing, entry, hentry, rfl⟩
    exact hs _ hclosing entry hentry e hold rfl
  | release => exact id
  | alloc | dup3 | setCloexec | setlk | execve | exit => exact hok.1 key e hold

/-- Process 1 locks ten bytes of a file; it has another one open. -/
def locked : FdLocks :=
  [.alloc 1 0 ⟨(1, 2), true⟩, .alloc 1 1 ⟨(3, 4), false⟩,
    .setlk 0 (LockTable.request 1 F_RDLCK 0 10)].foldl next {}

end FdLocks

end RespOS.Fs
