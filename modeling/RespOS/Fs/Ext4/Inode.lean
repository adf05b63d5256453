import RespOS.Base

/-!
# The ext4 inode and its metadata

An `Ext4Inode` keeps a `MetadataState` under its metadata lock: the metadata last read from the lower
inode, the timestamps that `stat` reports, and the timestamps that have been deferred. The lower inode
is changed under the global ext4 lock, never under the metadata lock, so each lock section below is a
function of its own, and the modules that follow interleave them.

The lower inode stands in decoded form: the bits of its timestamps and of its owner are not modelled.
-/

namespace RespOS.Fs

inductive InodeType
  | unknown | fifo | charDevice | directory | blockDevice | regular | symLink | socket
  deriving DecidableEq, Repr

structure TimeSpec where
  sec : Int
  nsec : Int
  deriving DecidableEq, Repr

namespace Ext4

/-- `ATIME_EXTRA`, `MTIME_EXTRA` and `CTIME_EXTRA`. -/
def atimeExtra : Nat := 1
@[inherit_doc atimeExtra] def mtimeExtra : Nat := 2
@[inherit_doc atimeExtra] def ctimeExtra : Nat := 4

/-- `truncate_lower_time`: what the lower inode can store of a time. -/
def truncateLowerTime (time : TimeSpec) (hasExtra : Bool) : TimeSpec :=
  let minSec := -2147483648
  let maxSec := if hasExtra then 15032385535 else 2147483647
  let sec := max minSec (min time.sec maxSec)
  ⟨sec, if !hasExtra || sec = minSec || sec = maxSec then 0 else time.nsec⟩

structure InodeTimes where
  atime : TimeSpec
  mtime : TimeSpec
  ctime : TimeSpec
  deriving DecidableEq, Repr

structure PendingDataTimes where
  generation : Nat
  mtime : TimeSpec
  ctime : TimeSpec
  deriving DecidableEq, Repr

structure PendingAtime where
  generation : Nat
  atime : TimeSpec
  dirtiedAtUs : Nat
  deriving DecidableEq, Repr

structure LowerInode where
  mode : Nat
  uid : Nat
  gid : Nat
  rdev : Nat
  atime : TimeSpec
  mtime : TimeSpec
  ctime : TimeSpec
  timestampExtraMask : Nat
  size : Nat
  blocks : Nat
  nlink : Nat
  deriving DecidableEq, Repr

/-- `RawInodeMetadata`: metadata read from the lower inode, stamped with the namespace generation at
which they were published. -/
structure RawInodeMetadata extends LowerInode where
  namespaceGeneration : Nat
  deriving DecidableEq, Repr

/-- `MetadataState`, as `Ext4Inode::new` starts it. -/
structure MetadataState where
  raw : Option RawInodeMetadata := none
  times : Option InodeTimes := none
  generation : Nat := 1
  pendingDataTimes : Option PendingDataTimes := none
  pendingAtime : Option PendingAtime := none
  deriving DecidableEq, Repr

/-- `ext4_setattr_ino`, called by `commit_lower_setattr`: the attributes that are given replace those
of the lower inode; of the mode, only the permission bits. -/
def LowerInode.setattr (i : LowerInode) (mode : Option Nat) (owner : Option (Nat × Nat))
    (atime mtime ctime : Option TimeSpec) : LowerInode :=
  { i with
    mode := mode.elim i.mode fun m ↦ i.mode / 4096 * 4096 + m % 4096
    uid := owner.elim i.uid Prod.fst
    gid := owner.elim i.gid Prod.snd
    atime := atime.getD i.atime
    mtime := mtime.getD i.mtime
    ctime := ctime.getD i.ctime }

namespace MetadataState

/-- The lock section of `defer_atime`. The mask and the times are those its reads before the section
returned, and `nowUs` is `get_timeout_us`. -/
def deferAtime (m : MetadataState) (atime : TimeSpec) (extraMask : Nat) (times : InodeTimes)
    (nowUs : Nat) : MetadataState :=
  let atime := truncateLowerTime atime (extraMask &&& atimeExtra ≠ 0)
  let (generation, dirtiedAtUs) := m.pendingAtime.elim (1, nowUs) fun pending ↦
    ((pending.generation + 1) % usizeSize, pending.dirtiedAtUs)
  { m with
    times := some { times with atime := atime }
    pendingAtime := some ⟨generation, atime, dirtiedAtUs⟩ }

/-- The lock section of `note_data_write`. -/
def noteDataWrite (m : MetadataState) (time : TimeSpec) (extraMask : Nat) (times : InodeTimes) :
    MetadataState :=
  let mtime := truncateLowerTime time (extraMask &&& mtimeExtra ≠ 0)
  let ctime := truncateLowerTime time (extraMask &&& ctimeExtra ≠ 0)
  let generation := m.pendingDataTimes.elim 1 fun pending ↦ (pending.generation + 1) % usizeSize
  { m with
    times := some { times with mtime := mtime, ctime := ctime }
    pendingDataTimes := some ⟨generation, mtime, ctime⟩ }

/-- The removal of a flushed access time, unless it has been deferred again. -/
def clearAtime (m : MetadataState) (pending : Option PendingAtime) : MetadataState :=
  match pending with
  | none => m
  | some pending =>
    if m.pendingAtime.any (·.generation = pending.generation) then { m with pendingAtime := none }
    else m

/-- The removal of flushed data times, unless they have been deferred again. -/
def clearDataTimes (m : MetadataState) (pending : Option PendingDataTimes) : MetadataState :=
  match pending with
  | none => m
  | some pending =>
    if m.pendingDataTimes.any (·.generation = pending.generation) then
      { m with pendingDataTimes := none }
    else m

/-! ### The metadata cache -/

def invalidateRawMetadata (m : MetadataState) : MetadataState := { m with raw := none }

def namespaceChanged (m : MetadataState) : MetadataState :=
  { m with generation := (m.generation + 1) % usizeSize, raw := none }

end MetadataState

def cacheable (ty : InodeType) : Bool := ty = .regular || ty = .symLink || ty = .directory

namespace MetadataState

/-- The cached metadata that `raw_metadata` would return. -/
def cachedRaw (m : MetadataState) (ty : InodeType) : Option RawInodeMetadata :=
  if cacheable ty then
    m.raw.filter fun raw ↦ ty ≠ .directory || raw.namespaceGeneration = m.generation
  else none

/-- The first lock section of `raw_metadata` when it finds nothing to return: a directory's metadata of
an older generation are dropped. -/
def missRaw (m : MetadataState) (ty : InodeType) : MetadataState :=
  if cacheable ty then { m with raw := none } else m

/-- The second lock section of `raw_metadata`: what has been read is stamped with the generation of the
moment and published. -/
def publishRaw (m : MetadataState) (ty : InodeType) (lower : LowerInode) : MetadataState :=
  if cacheable ty then { m with raw := some ⟨lower, m.generation⟩ } else m

end MetadataState

end Ext4

end RespOS.Fs
