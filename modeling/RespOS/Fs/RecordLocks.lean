import RespOS.Base
import RespOS.Basis.Runs

/-!
# POSIX record locks (`syscall/fs.rs`)

`POSIX_LOCKS` keeps, for each file, a list of entries: owner, first byte, last byte or none for the end
of the file, kind. `F_SETLK` normalises the user's `struct flock` to absolute offsets
(`normalize_flock`), drops the caller's entries that overlap the request, and for a lock adds one entry
unless an entry of another process conflicts (`set_posix_lock`).

What it is for is a map from processes and bytes to lock kinds, in which a request replaces the kind of
the bytes in its range: `LockRequest.kindOf` reads that map off the requests that succeeded, on the
integer ranges the user asked for. `locks_refine_map` says in which runs the list refines it.
`partial_unlock_drops_lock` shows both ways it fails otherwise: the code drops an overlapped entry
whole, and does so before it looks for conflicts.

The integers are the source's: `l_start` and `l_len` are `Int64` and pass through the casts to and from
`u64` that `normalize_flock` makes.
-/

namespace RespOS.Fs

open RespOS.Basis Option List

/-! ### Requests and ranges -/

def F_RDLCK : Int := 0
def F_WRLCK : Int := 1
def F_UNLCK : Int := 2
def SEEK_SET : Int := 0
def SEEK_CUR : Int := 1
def SEEK_END : Int := 2

def u64Max : Nat := 2 ^ 64 - 1

inductive FlockKind
  | Shared | Exclusive
  deriving DecidableEq, Repr

structure PosixLockEntry where
  ownerPid : Nat
  start : Nat
  stop : Option Nat
  kind : FlockKind
  deriving DecidableEq

/-- `LinuxFlock`; `l_pid` is not read by `F_SETLK`. -/
structure LinuxFlock where
  lType : Int
  lWhence : Int
  lStart : Int64
  lLen : Int64
  deriving DecidableEq

/-- What the lock functions ask of the file: its offset, and the size or the error of `get_stat`, which
never is EAGAIN. -/
structure LockedFile where
  offset : Nat
  size : Except { e : Errno // e ≠ .EAGAIN } Nat

/-- `lock_range`: the first and the last byte, no last byte meaning to the end of the file. -/
def lockRange (start : Nat) (len : Int64) : Except Errno (Nat × Option Nat) :=
  if len = 0 then .ok (start, none)
  else if 0 < len then
    match checkedAdd start len.toUInt64.toNat with
    | some stop => if 1 ≤ stop then .ok (start, some (stop - 1)) else .error .EINVAL
    | none => .error .EINVAL
  else
    let back := (-len).toUInt64.toNat
    if start < back then .error .EINVAL
    else .ok (start - back, if 1 ≤ start then some (start - 1) else none)

/-- The length `normalize_flock` writes back for a range. -/
def rangeLen (first : Nat) : Option Nat → Int64
  | some last => Int64.ofNat (saturatingAdd (last - first) 1)
  | none => 0

/-- `base` of `normalize_flock`. -/
def flockBase (file : LockedFile) (whence : Int) : Except Errno Int :=
  if whence = SEEK_SET then .ok 0
  else if whence = SEEK_CUR then .ok (file.offset : Int)
  else
    match file.size with
    | .ok size => .ok (size : Int)
    | .error e => .error e

def normalizeFlock (file : LockedFile) (lock : LinuxFlock) : Except Errno LinuxFlock :=
  if (lock.lWhence ≠ SEEK_SET ∧ lock.lWhence ≠ SEEK_CUR ∧ lock.lWhence ≠ SEEK_END) ∨
      (lock.lType ≠ F_RDLCK ∧ lock.lType ≠ F_WRLCK ∧ lock.lType ≠ F_UNLCK) then
    .error .EINVAL
  else
    match flockBase file lock.lWhence with
    | .error e => .error e
    | .ok base =>
      let start := base + lock.lStart.toInt
      if start < 0 ∨ (u64Max : Int) < start then .error .EINVAL
      else
        match lockRange start.toNat lock.lLen with
        | .error e => .error e
        | .ok (first, last) =>
          .ok { lock with
            lWhence := SEEK_SET
            lStart := Int64.ofNat first
            lLen := rangeLen first last }

def lastByte (stop : Option Nat) : Nat := stop.getD u64Max

def rangesOverlap (aStart : Nat) (aStop : Option Nat) (bStart : Nat) (bStop : Option Nat) : Bool :=
  decide (aStart ≤ lastByte bStop) && decide (bStart ≤ lastByte aStop)

def posixLockConflict (entries : List PosixLockEntry) (ownerPid : Nat) (requested : LinuxFlock) :
    Except Errno (Option PosixLockEntry) := do
  let start := requested.lStart.toUInt64.toNat
  let (_, stop) ← lockRange start requested.lLen
  let conflicts (kind : FlockKind) : Option PosixLockEntry :=
    entries.find? fun entry ↦ decide (entry.ownerPid ≠ ownerPid) &&
      rangesOverlap entry.start entry.stop start stop &&
      (decide (entry.kind = .Exclusive) || decide (kind = .Exclusive))
  if requested.lType = F_RDLCK then .ok (conflicts .Shared)
  else if requested.lType = F_WRLCK then .ok (conflicts .Exclusive)
  else if requested.lType = F_UNLCK then .ok none
  else .error .EINVAL

/-- `set_posix_lock`, on the entries of the file. -/
def setPosixLock (file : LockedFile) (ownerPid : Nat) (lock : LinuxFlock)
    (entries : List PosixLockEntry) : Outcome (List PosixLockEntry) Unit :=
  match file.size with
  | .error e => .err e entries
  | .ok _ =>
    let start := lock.lStart.toUInt64.toNat
    match lockRange start lock.lLen with
    | .error e => .err e entries
    | .ok (_, stop) =>
      -- The caller's overlapping entries go before the request is known to succeed.
      let kept := entries.filter fun entry ↦
        decide (entry.ownerPid ≠ ownerPid) || !rangesOverlap entry.start entry.stop start stop
      if lock.lType = F_UNLCK then .ok () kept
      else
        match posixLockConflict kept ownerPid lock with
        | .error e => .err e kept
        | .ok (some _) => .err .EAGAIN kept
        | .ok none =>
          let kind : FlockKind := if lock.lType = F_RDLCK then .Shared else .Exclusive
          .ok () (kept ++ [⟨ownerPid, start, stop, kind⟩])

structure LockRequest where
  pid : Nat
  file : LockedFile
  flock : LinuxFlock

/-- The `F_SETLK` arm of `sys_fcntl`. -/
def LockRequest.setlk (r : LockRequest) (entries : List PosixLockEntry) :
    Outcome (List PosixLockEntry) Unit :=
  match normalizeFlock r.file r.flock with
  | .error e => .err e entries
  | .ok lock => setPosixLock r.file r.pid lock entries

/-! ### The map from bytes to lock kinds -/

namespace LockRequest

/-- The offset the range of a request is counted from. -/
def origin (r : LockRequest) : Int :=
  r.flock.lStart.toInt +
    if r.flock.lWhence = SEEK_SET then 0
    else if r.flock.lWhence = SEEK_CUR then (r.file.offset : Int)
    else ((r.file.size.toOption.getD 0 : Nat) : Int)

/-- The first byte a request asks for: a negative length counts back from the origin. -/
def first (r : LockRequest) : Int :=
  if r.flock.lLen.toInt < 0 then r.origin + r.flock.lLen.toInt else r.origin

/-- The last byte a request asks for: length zero is to the end of the file. -/
def last (r : LockRequest) : Int :=
  if r.flock.lLen.toInt = 0 then u64Max
  else if r.flock.lLen.toInt < 0 then r.origin - 1
  else r.origin + r.flock.lLen.toInt - 1

/-- The bytes a request asks for. -/
def Covers (r : LockRequest) (b : Nat) : Prop := r.first ≤ b ∧ (b : Int) ≤ r.last

instance (r : LockRequest) (b : Nat) : Decidable (r.Covers b) := by
  unfold Covers
  infer_instance

/-- The kind a request sets on its bytes, none for an unlock. -/
def kind (r : LockRequest) : Option FlockKind :=
  if r.flock.lType = F_RDLCK then some .Shared
  else if r.flock.lType = F_WRLCK then some .Exclusive
  else none

/-- The map after the successful requests of a log: the last one that covers the byte decides. -/
def kindOf (log : List LockRequest) (p b : Nat) : Option FlockKind :=
  log.foldl (fun k r ↦ if r.pid = p ∧ r.Covers b then r.kind else k) none

/-- A request that is not rejected for its form: known type and origin, a range of file offsets. -/
@[mk_iff]
structure Valid (r : LockRequest) : Prop where
  whence : r.flock.lWhence = SEEK_SET ∨ r.flock.lWhence = SEEK_CUR ∨ r.flock.lWhence = SEEK_END
  type : r.flock.lType = F_RDLCK ∨ r.flock.lType = F_WRLCK ∨ r.flock.lType = F_UNLCK
  size : r.file.size.isOk = true
  origin_nonneg : 0 ≤ r.origin
  origin_le : r.origin ≤ u64Max
  ahead : 0 < r.flock.lLen.toInt → r.origin + r.flock.lLen.toInt ≤ u64Max
  back : r.flock.lLen.toInt < 0 → -2 ^ 63 < r.flock.lLen.toInt ∧ 0 ≤ r.origin + r.flock.lLen.toInt

instance (r : LockRequest) : Decidable r.Valid := decidable_of_iff _ (valid_iff r).symm

end LockRequest

/-- The lock kinds the table records for a process and a byte. -/
def Records (entries : List PosixLockEntry) (p b : Nat) (k : FlockKind) : Prop :=
  ∃ e ∈ entries, e.ownerPid = p ∧ (e.start ≤ b ∧ b ≤ lastByte e.stop) ∧ e.kind = k

/-- Two kinds that two processes cannot hold on one byte. -/
def FlockKind.Clashes (k k' : FlockKind) : Prop := k = .Exclusive ∨ k' = .Exclusive

/-! ### The ranges of the code are the ranges of the request -/

theorem toNat_toUInt64_ofNat {n : Nat} (h : n ≤ u64Max) : (Int64.ofNat n).toUInt64.toNat = n := by
  simp only [u64Max] at h
  simp
  omega

variable {len : Int64} {r : LockRequest} {stop : Option Nat} {entries : List PosixLockEntry}
  {pid : Nat} {k : FlockKind}

theorem toNat_toUInt64_of_pos (h : 0 < len.toInt) : len.toUInt64.toNat = len.toInt.toNat := by
  change len.toBitVec.toNat = len.toBitVec.toInt.toNat
  change 0 < len.toBitVec.toInt at h
  rw [BitVec.toInt_eq_toNat_cond] at *
  split at h <;> omega

theorem toNat_toUInt64_neg (h : len.toInt < 0) : (-len).toUInt64.toNat = (-len.toInt).toNat := by
  change (-len.toBitVec).toNat = (-len.toBitVec.toInt).toNat
  change len.toBitVec.toInt < 0 at h
  rw [BitVec.toNat_neg]
  rw [BitVec.toInt_eq_toNat_cond] at *
  split at h <;> omega

theorem toInt_bounds (len : Int64) : -2 ^ 63 ≤ len.toInt ∧ len.toInt < 2 ^ 63 :=
  ⟨Int64.le_toInt len, Int64.toInt_lt len⟩

/-- How `lock_range` answers, in integers. -/
inductive Ranges (start : Nat) (len : Int) : Except Errno (Nat × Option Nat) → Prop
  | toEnd : len = 0 → Ranges start len (.ok (start, none))
  | ahead : 0 < len → start + len ≤ u64Max →
      Ranges start len (.ok (start, some (start + len.toNat - 1)))
  | back : len < 0 → 0 ≤ start + len →
      Ranges start len (.ok (start - (-len).toNat, some (start - 1)))
  | rejected : (0 < len → (u64Max : Int) < start + len) → (len < 0 → start + len < 0) → len ≠ 0 →
      Ranges start len (.error .EINVAL)

theorem lockRange_spec (start : Nat) (len : Int64) : Ranges start len.toInt (lockRange start len) := by
  unfold lockRange
  by_cases hzero : len = 0
  · rw [if_pos hzero]
    exact .toEnd (by simp [hzero])
  rw [if_neg hzero]
  have hne : len.toInt ≠ 0 := fun h ↦ hzero (Int64.toInt_inj.mp (by simpa using h))
  by_cases hpos : 0 < len
  · have hlen : 0 < len.toInt := by simpa using Int64.lt_iff_toInt_lt.mp hpos
    rw [toNat_toUInt64_of_pos hlen, checkedAdd]
    split_ifs with hfits
    · dsimp only
      rw [if_pos (by omega)]
      exact .ahead hlen (by simp only [usizeSize, u64Max] at hfits ⊢; omega)
    · refine .rejected (fun _ ↦ ?_) (fun h ↦ absurd h (by omega)) hne
      simp only [usizeSize, u64Max] at hfits ⊢
      omega
  · rw [if_neg hpos]
    have hneg : len.toInt < 0 := by
      have hnpos : ¬ (0 : Int) < len.toInt := fun h ↦ hpos (Int64.lt_iff_toInt_lt.mpr (by simpa using h))
      omega
    rw [toNat_toUInt64_neg hneg]
    by_cases hback : start < (-len.toInt).toNat
    · rw [if_pos hback]
      exact .rejected (fun h ↦ absurd h (by omega)) (fun _ ↦ by omega) hne
    · rw [if_neg hback, if_pos (by omega : 1 ≤ start)]
      exact .back hneg (by omega)

/-- The range of a request as the table stores it. -/
structure RangeOf (r : LockRequest) (first : Nat) (stop : Option Nat) : Prop where
  nonempty : first ≤ lastByte stop
  bounded : lastByte stop ≤ u64Max
  first_eq : (first : Int) = r.first
  last_eq : (lastByte stop : Int) = r.last

open LockRequest

theorem RangeOf.of_ranges {first : Nat} (hnonneg : 0 ≤ r.origin) (hle : r.origin ≤ u64Max)
    (h : Ranges r.origin.toNat r.flock.lLen.toInt (.ok (first, stop))) : RangeOf r first stop := by
  have horigin : (r.origin.toNat : Int) = r.origin := Int.toNat_of_nonneg hnonneg
  cases h with
  | toEnd hlen =>
    have hnneg : ¬ r.flock.lLen.toInt < 0 := by omega
    constructor <;>
      simp only [lastByte, getD_none, first, last, if_pos hlen, if_neg hnneg] <;> omega
  | ahead hlen hfits =>
    have hne : r.flock.lLen.toInt ≠ 0 := by omega
    have hnneg : ¬ r.flock.lLen.toInt < 0 := by omega
    constructor <;>
      simp only [lastByte, getD_some, first, last, if_neg hne, if_neg hnneg] <;> omega
  | back hlen hfits =>
    have hne : r.flock.lLen.toInt ≠ 0 := by omega
    constructor <;>
      simp only [lastByte, getD_some, first, last, if_neg hne, if_pos hlen] <;> omega

/-- The normalised request has the range of the original one, except that the length `i64::MIN`
survives the casts and is rejected. -/
theorem lockRange_normalized {start : Nat} (hstart : start ≤ u64Max) {first : Nat}
    (h : lockRange start len = .ok (first, stop)) : (len.toInt = -2 ^ 63 ∧
        lockRange (Int64.ofNat first).toUInt64.toNat (rangeLen first stop) = .error .EINVAL) ∨
      (len.toInt ≠ -2 ^ 63 ∧ (Int64.ofNat first).toUInt64.toNat = first ∧
        lockRange first (rangeLen first stop) = .ok (first, stop)) := by
  have hspec := lockRange_spec start len
  have hbounds := toInt_bounds len
  rw [h] at hspec
  cases hspec with
  | toEnd hlen =>
    exact .inr ⟨by omega, toNat_toUInt64_ofNat hstart, by simp [rangeLen, lockRange]⟩
  | ahead hlen hfits =>
    refine Or.inr ⟨by omega, toNat_toUInt64_ofNat hstart, ?_⟩
    have hsame : rangeLen start (some (start + len.toInt.toNat - 1)) = len := by
      have hcount : saturatingAdd (start + len.toInt.toNat - 1 - start) 1 = len.toInt.toNat := by
        simp only [saturatingAdd, usizeSize]
        omega
      rw [rangeLen, hcount]
      apply Int64.toInt_inj.mp
      rw [Int64.toInt_ofNat_of_lt (by omega)]
      omega
    rw [hsame, h]
  | back hlen hfits =>
    have hcount : saturatingAdd (start - 1 - (start - (-len.toInt).toNat)) 1 = (-len.toInt).toNat := by
      simp only [saturatingAdd, usizeSize]
      omega
    have hfirst : start - (-len.toInt).toNat ≤ u64Max := by omega
    rw [rangeLen, hcount, toNat_toUInt64_ofNat hfirst]
    by_cases hmin : len.toInt = -2 ^ 63
    · refine Or.inl ⟨hmin, ?_⟩
      have hlenMin : Int64.ofNat (-len.toInt).toNat = Int64.minValue := by
        rw [hmin]
        decide
      rw [hlenMin]
      have hspec' := lockRange_spec (start - (-len.toInt).toNat) Int64.minValue
      have hvalue : Int64.minValue.toInt = -2 ^ 63 := by decide
      simp only [u64Max] at hstart
      generalize lockRange (start - (-len.toInt).toNat) Int64.minValue = answer at hspec'
      cases hspec' with
      | toEnd h0 | ahead h0 _ | back _ h1 => omega
      | rejected => rfl
    · refine Or.inr ⟨hmin, rfl, ?_⟩
      have hlenPos : (Int64.ofNat (-len.toInt).toNat).toInt = -len.toInt := by
        rw [Int64.toInt_ofNat_of_lt (by omega)]
        omega
      have hspec' := lockRange_spec (start - (-len.toInt).toNat) (Int64.ofNat (-len.toInt).toNat)
      rw [hlenPos] at hspec'
      generalize lockRange (start - (-len.toInt).toNat) (Int64.ofNat (-len.toInt).toNat) = answer
        at hspec'
      cases hspec' with
      | toEnd h0 => omega
      | ahead _ _ =>
        have hlast : start - (-len.toInt).toNat + (-len.toInt).toNat - 1 = start - 1 := by omega
        rw [hlast]
      | back h0 _ => omega
      | rejected hover _ _ =>
        have := hover (by omega)
        omega

/-! ### What a request does to the table -/

/-- The entries a request leaves in place. -/
def others (entries : List PosixLockEntry) (pid first : Nat) (stop : Option Nat) :
    List PosixLockEntry :=
  entries.filter fun entry ↦
    decide (entry.ownerPid ≠ pid) || !rangesOverlap entry.start entry.stop first stop

/-- An entry of another process stands in the way of a lock of the given kind. -/
def Conflict (entries : List PosixLockEntry) (pid first : Nat) (stop : Option Nat)
    (k : FlockKind) : Prop :=
  ∃ e ∈ entries, e.ownerPid ≠ pid ∧ rangesOverlap e.start e.stop first stop = true ∧ e.kind.Clashes k

theorem mem_others {first : Nat} {e : PosixLockEntry} : e ∈ others entries pid first stop ↔
      e ∈ entries ∧ (e.ownerPid ≠ pid ∨ rangesOverlap e.start e.stop first stop = false) := by
  simp [others]

theorem conflict_others {first : Nat} : Conflict (others entries pid first stop) pid first stop k ↔
      Conflict entries pid first stop k := by
  constructor
  · rintro ⟨e, he, hrest⟩
    exact ⟨e, (mem_others.mp he).1, hrest⟩
  · rintro ⟨e, he, howner, hrest⟩
    exact ⟨e, mem_others.mpr ⟨he, Or.inl howner⟩, howner, hrest⟩

/-- How a request with a range ends. -/
inductive Granted (r : LockRequest) (first : Nat) (stop : Option Nat)
    (entries : List PosixLockEntry) : Outcome (List PosixLockEntry) Unit → Prop
  | unlocked : r.kind = none → Granted r first stop entries (.ok () (others entries r.pid first stop))
  | refused (k : FlockKind) : r.kind = some k → Conflict entries r.pid first stop k →
      Granted r first stop entries (.err .EAGAIN (others entries r.pid first stop))
  | locked (k : FlockKind) : r.kind = some k → ¬ Conflict entries r.pid first stop k →
      Granted r first stop entries
        (.ok () (others entries r.pid first stop ++ [⟨r.pid, first, stop, k⟩]))

theorem find_conflict {first : Nat} : (entries.find? fun entry ↦ decide (entry.ownerPid ≠ pid) &&
        rangesOverlap entry.start entry.stop first stop &&
        (decide (entry.kind = .Exclusive) || decide (k = .Exclusive))).isSome = true ↔
      Conflict entries pid first stop k := by
  rw [find?_isSome]
  constructor
  · rintro ⟨e, he, hcond⟩
    simp only [Bool.and_eq_true, Bool.or_eq_true, decide_eq_true_eq] at hcond
    exact ⟨e, he, hcond.1.1, hcond.1.2, hcond.2⟩
  · rintro ⟨e, he, howner, hoverlap, hkind⟩
    refine ⟨e, he, ?_⟩
    simp only [Bool.and_eq_true, Bool.or_eq_true, decide_eq_true_eq]
    exact ⟨⟨howner, hoverlap⟩, hkind⟩

theorem posixLockConflict_spec {first : Nat} {lock : LinuxFlock}
    (hstart : lock.lStart.toUInt64.toNat = first)
    (hrange : lockRange first lock.lLen = .ok (first, stop))
    (hkind : lock.lType = F_RDLCK ∧ k = .Shared ∨ lock.lType = F_WRLCK ∧ k = .Exclusive) :
    ∃ found, posixLockConflict entries pid lock = .ok found ∧
      (found.isSome = true ↔ Conflict entries pid first stop k) := by
  refine ⟨_, ?_, find_conflict⟩
  unfold posixLockConflict
  simp only [hstart, hrange]
  rcases hkind with ⟨htype, rfl⟩ | ⟨htype, rfl⟩
  · simp [bind, Except.bind, htype]
  · simp [bind, Except.bind, htype, F_RDLCK, F_WRLCK]

theorem setPosixLock_spec {lock : LinuxFlock} {first : Nat} (entries : List PosixLockEntry)
    {size : Nat} (hsize : r.file.size = .ok size) (htype : lock.lType = r.flock.lType)
    (hvalid : r.flock.lType = F_RDLCK ∨ r.flock.lType = F_WRLCK ∨ r.flock.lType = F_UNLCK)
    (hstart : lock.lStart.toUInt64.toNat = first)
    (hrange : lockRange first lock.lLen = .ok (first, stop)) :
    Granted r first stop entries (setPosixLock r.file r.pid lock entries) := by
  unfold setPosixLock
  rw [hsize]
  simp only [hstart, hrange]
  change Granted r first stop entries (if lock.lType = F_UNLCK then
    .ok () (others entries r.pid first stop) else _)
  by_cases hunlock : lock.lType = F_UNLCK
  · rw [if_pos hunlock]
    apply Granted.unlocked
    simp [kind, ← htype, hunlock, F_UNLCK, F_RDLCK, F_WRLCK]
  rw [if_neg hunlock]
  have hkind : ∃ k : FlockKind, r.kind = some k ∧
      (if lock.lType = F_RDLCK then FlockKind.Shared else .Exclusive) = k ∧
      (lock.lType = F_RDLCK ∧ k = .Shared ∨ lock.lType = F_WRLCK ∧ k = .Exclusive) := by
    rw [← htype] at hvalid
    rcases hvalid with hrd | hwr | hun
    · exact ⟨.Shared, by simp [kind, ← htype, hrd], by simp [hrd], Or.inl ⟨hrd, rfl⟩⟩
    · exact ⟨.Exclusive, by simp [kind, ← htype, hwr, F_WRLCK, F_RDLCK],
        by simp [hwr, F_WRLCK, F_RDLCK], Or.inr ⟨hwr, rfl⟩⟩
    · exact absurd hun hunlock
  rcases hkind with ⟨k, hk, hentry, htypes⟩
  have hsearch : ∃ found, posixLockConflict (others entries r.pid first stop) r.pid lock = .ok found ∧
      (found.isSome = true ↔ Conflict (others entries r.pid first stop) r.pid first stop k) :=
    posixLockConflict_spec hstart hrange htypes
  rcases hsearch with ⟨found, hfound, hiff⟩
  rw [conflict_others] at hiff
  change Granted r first stop entries (match posixLockConflict (others entries r.pid first stop) r.pid
    lock with | .error e => _ | .ok (some _) => _ | .ok none => _)
  rw [hfound]
  match found with
  | some e => exact .refused k hk (hiff.mp rfl)
  | none =>
    rw [hentry]
    exact .locked k hk fun hconflict ↦ by simpa using hiff.mpr hconflict

theorem normalizeFlock_cases (r : LockRequest) :
    (¬ r.Valid ∧ ∃ e, e ≠ Errno.EAGAIN ∧ normalizeFlock r.file r.flock = .error e) ∨
      ∃ first stop, 0 ≤ r.origin ∧ r.origin ≤ u64Max ∧
        (r.flock.lWhence = SEEK_SET ∨ r.flock.lWhence = SEEK_CUR ∨ r.flock.lWhence = SEEK_END) ∧
        (r.flock.lType = F_RDLCK ∨ r.flock.lType = F_WRLCK ∨ r.flock.lType = F_UNLCK) ∧
        lockRange r.origin.toNat r.flock.lLen = .ok (first, stop) ∧
        normalizeFlock r.file r.flock = .ok { r.flock with
          lWhence := SEEK_SET
          lStart := Int64.ofNat first
          lLen := rangeLen first stop } := by
  unfold normalizeFlock
  split_ifs with hform
  · refine Or.inl ⟨?_, .EINVAL, by decide, rfl⟩
    intro hvalid
    have hwhence := hvalid.whence
    have htype := hvalid.type
    tauto
  have hbase : (∃ e, e ≠ Errno.EAGAIN ∧ flockBase r.file r.flock.lWhence = .error e ∧
      r.file.size.isOk = false) ∨ ∃ base, flockBase r.file r.flock.lWhence = .ok base ∧
        base + r.flock.lStart.toInt = r.origin := by
    unfold flockBase origin
    by_cases hset : r.flock.lWhence = SEEK_SET
    · exact .inr ⟨0, by simp [hset], by simp [hset]⟩
    by_cases hcur : r.flock.lWhence = SEEK_CUR
    · rw [if_neg hset, if_pos hcur, if_neg hset, if_pos hcur]
      exact .inr ⟨r.file.offset, rfl, Int.add_comm _ _⟩
    rw [if_neg hset, if_neg hcur, if_neg hset, if_neg hcur]
    match hsize : r.file.size with
    | .ok size => exact .inr ⟨size, rfl, Int.add_comm _ _⟩
    | .error e => exact .inl ⟨e, e.2, rfl, rfl⟩
  rcases hbase with ⟨e, hne, hbase, hsize⟩ | ⟨base, hbase, horigin⟩
  · rw [hbase]
    refine Or.inl ⟨?_, e, hne, rfl⟩
    intro hvalid
    simpa [hsize] using hvalid.size
  rw [hbase]
  dsimp only
  rw [horigin]
  split_ifs with hout
  · refine Or.inl ⟨?_, .EINVAL, by decide, rfl⟩
    intro hvalid
    have hnonneg := hvalid.origin_nonneg
    have hle := hvalid.origin_le
    omega
  have hspec := lockRange_spec r.origin.toNat r.flock.lLen
  match hrange : lockRange r.origin.toNat r.flock.lLen with
  | .ok (first, stop) =>
    exact .inr ⟨first, stop, by omega, by omega, by tauto, by tauto, rfl, rfl⟩
  | .error e =>
    rw [hrange] at hspec
    cases hspec with
    | rejected hahead hback hne =>
      refine Or.inl ⟨?_, .EINVAL, by decide, rfl⟩
      intro hvalid
      have hahead' := hvalid.ahead
      have hback' := hvalid.back
      omega

theorem setlk_cases (r : LockRequest) (entries : List PosixLockEntry) :
    (¬ r.Valid ∧ ∃ e, e ≠ Errno.EAGAIN ∧ r.setlk entries = .err e entries) ∨
      (r.Valid ∧ ∃ first stop, RangeOf r first stop ∧
        Granted r first stop entries (r.setlk entries)) := by
  unfold setlk
  rcases normalizeFlock_cases r with ⟨hinvalid, e, hne, hnorm⟩ |
    ⟨first, stop, hnonneg, hle, hwhence, htype, hrange, hnorm⟩
  · exact .inl ⟨hinvalid, e, hne, by rw [hnorm]⟩
  rw [hnorm]
  rcases hsize : r.file.size with e | size
  · refine Or.inl ⟨fun hvalid ↦ ?_, e, e.2, by simp [setPosixLock, hsize]⟩
    have := hvalid.size
    simp [hsize, Except.isOk, Except.toBool] at this
  · have hspec := lockRange_spec r.origin.toNat r.flock.lLen
    rcases lockRange_normalized (by omega) hrange with ⟨hmin, herror⟩ | ⟨hmin, hstart, hagain⟩
    · refine Or.inl ⟨?_, .EINVAL, by decide, ?_⟩
      · intro hvalid
        have hback := hvalid.back
        omega
      · simp only [setPosixLock, hsize, herror]
    · rw [hrange] at hspec
      have hvalid : r.Valid := by
        refine ⟨hwhence, htype, by rw [hsize]; rfl, hnonneg, hle, ?_, ?_⟩
        · intro hlen
          cases hspec <;> omega
        · intro hlen
          have hbounds := toInt_bounds r.flock.lLen
          cases hspec <;> omega
      exact .inr ⟨hvalid, first, stop, .of_ranges hnonneg hle hspec,
        setPosixLock_spec entries hsize rfl htype hstart hagain⟩

/-! ### Runs of requests -/

/-- The entries of the file and the requests that have succeeded. -/
structure LockTable where
  entries : List PosixLockEntry
  log : List LockRequest

namespace LockTable

def start : LockTable := ⟨[], []⟩

def next (s : LockTable) (r : LockRequest) : Option LockTable :=
  match r.setlk s.entries with
  | .ok _ entries => some ⟨entries, s.log ++ [r]⟩
  | .err _ entries => some ⟨entries, s.log⟩
  | .panic => none

def Step (s : LockTable) (r : LockRequest) (s' : LockTable) : Prop := s.next r = some s'

end LockTable

/-- An entry and a request have a byte in common. -/
def PosixLockEntry.Meets (e : PosixLockEntry) (r : LockRequest) : Prop :=
  (e.start : Int) ≤ r.last ∧ r.first ≤ lastByte e.stop

/-- An entry of another process stands in the way of the request. -/
def PosixLockEntry.Blocks (e : PosixLockEntry) (r : LockRequest) : Prop :=
  e.ownerPid ≠ r.pid ∧ e.Meets r ∧
    (r.kind = some .Exclusive ∨ r.kind = some .Shared ∧ e.kind = .Exclusive)

/-- The condition under which the code is right: the caller's entries that the request meets lie inside
its range, and there are none if an entry of another process stands in the way. -/
def LockRequest.Swallows (r : LockRequest) (entries : List PosixLockEntry) : Prop :=
  r.Valid → ∀ e ∈ entries, e.ownerPid = r.pid → e.Meets r →
    (r.first ≤ e.start ∧ (lastByte e.stop : Int) ≤ r.last) ∧ ∀ e' ∈ entries, ¬ e'.Blocks r

instance (r : LockRequest) (entries : List PosixLockEntry) : Decidable (r.Swallows entries) := by
  unfold LockRequest.Swallows PosixLockEntry.Blocks PosixLockEntry.Meets
  infer_instance

section Range

variable {r : LockRequest} {first : Nat} {stop : Option Nat} {entries : List PosixLockEntry}
  (hrange : RangeOf r first stop)
include hrange

theorem RangeOf.overlap_iff (e : PosixLockEntry) :
    rangesOverlap e.start e.stop first stop = true ↔ e.Meets r := by
  have hfirst := hrange.first_eq
  have hlast := hrange.last_eq
  simp only [rangesOverlap, PosixLockEntry.Meets, Bool.and_eq_true, decide_eq_true_eq]
  omega

theorem RangeOf.covers_iff (b : Nat) : r.Covers b ↔ first ≤ b ∧ b ≤ lastByte stop := by
  have hfirst := hrange.first_eq
  have hlast := hrange.last_eq
  unfold LockRequest.Covers
  omega

theorem RangeOf.blocks_of_conflict (hk : r.kind = some k)
    (hconflict : Conflict entries r.pid first stop k) : ∃ e ∈ entries, e.Blocks r := by
  obtain ⟨e, he, howner, hoverlap, hkind⟩ := hconflict
  refine ⟨e, he, howner, (hrange.overlap_iff e).mp hoverlap, ?_⟩
  rw [hk]
  match k with
  | .Exclusive => exact .inl rfl
  | .Shared => exact .inr ⟨rfl, by simpa [FlockKind.Clashes] using hkind⟩

theorem records_others (hinside : ∀ e ∈ entries, e.ownerPid = r.pid → e.Meets r →
      r.first ≤ e.start ∧ (lastByte e.stop : Int) ≤ r.last) (p b : Nat) (k : FlockKind) :
    Records (others entries r.pid first stop) p b k ↔
      Records entries p b k ∧ ¬ (r.pid = p ∧ r.Covers b) := by
  constructor
  · rintro ⟨e, he, hp, hb, hk⟩
    have hmem := mem_others.mp he
    refine ⟨⟨e, hmem.1, hp, hb, hk⟩, ?_⟩
    rintro ⟨hpid, hcovers⟩
    rcases hmem.2 with howner | hoverlap
    · exact howner (hp.trans hpid.symm)
    have hmeets : e.Meets r := by
      unfold PosixLockEntry.Meets
      unfold LockRequest.Covers at hcovers
      omega
    rw [(hrange.overlap_iff e).mpr hmeets] at hoverlap
    simp at hoverlap
  · rintro ⟨⟨e, he, hp, hb, hk⟩, hnot⟩
    refine ⟨e, mem_others.mpr ⟨he, ?_⟩, hp, hb, hk⟩
    by_cases howner : e.ownerPid = r.pid
    · refine Or.inr ?_
      rw [← Bool.not_eq_true, hrange.overlap_iff]
      intro hmeets
      have hin := hinside e he howner hmeets
      apply hnot
      refine ⟨howner.symm.trans hp, ?_⟩
      unfold LockRequest.Covers
      omega
    · exact .inl howner

theorem others_of_conflict (hvalid : r.Valid) (hok : r.Swallows entries)
    (hk : r.kind = some k) (hconflict : Conflict entries r.pid first stop k) :
    others entries r.pid first stop = entries := by
  rcases hrange.blocks_of_conflict hk hconflict with ⟨e', he', hblocks⟩
  apply filter_eq_self.mpr
  intro e he
  by_cases howner : e.ownerPid = r.pid
  · have hoverlap : rangesOverlap e.start e.stop first stop = false := by
      rw [← Bool.not_eq_true, hrange.overlap_iff]
      exact fun hmeets ↦ (hok hvalid e he howner hmeets).2 e' he' hblocks
    simp [hoverlap]
  · simp [howner]

end Range

theorem records_append {e : PosixLockEntry} {p b : Nat} :
    Records (entries ++ [e]) p b k ↔ Records entries p b k ∨
      (e.ownerPid = p ∧ (e.start ≤ b ∧ b ≤ lastByte e.stop) ∧ e.kind = k) := by
  constructor
  · rintro ⟨x, hx, hrest⟩
    rcases mem_append.mp hx with hold | hnew
    · exact .inl ⟨x, hold, hrest⟩
    · rw [mem_singleton.mp hnew] at hrest
      exact .inr hrest
  · rintro (⟨x, hx, hrest⟩ | hrest)
    · exact ⟨x, mem_append_left _ hx, hrest⟩
    · exact ⟨e, by simp, hrest⟩

theorem LockRequest.kindOf_append (log : List LockRequest) (r : LockRequest) (p b : Nat) :
    kindOf (log ++ [r]) p b = if r.pid = p ∧ r.Covers b then r.kind else kindOf log p b := by
  simp [kindOf]

namespace LockTable

/-- The invariant of the table: it refines the map, and its ranges are not empty. -/
structure Refines (s : LockTable) : Prop where
  kinds : ∀ p b k, Records s.entries p b k ↔ LockRequest.kindOf s.log p b = some k
  nonempty : ∀ e ∈ s.entries, e.start ≤ lastByte e.stop

theorem refines_start : start.Refines := by
  constructor
  · intro p b k
    simp [start, Records, kindOf]
  · simp [start]

theorem Refines.step {s s' : LockTable} (h : s.Refines) (hok : r.Swallows s.entries)
    (hstep : s.Step r s') : s'.Refines := by
  unfold Step next at hstep
  rcases setlk_cases r s.entries with ⟨-, e, -, hout⟩ | ⟨hvalid, first, stop, hrange, hgranted⟩
  · rw [hout] at hstep
    rw [← some.inj hstep]
    exact h
  have hinside := fun e he howner hmeets ↦ (hok hvalid e he howner hmeets).1
  have hnonempty : ∀ e ∈ others s.entries r.pid first stop, e.start ≤ lastByte e.stop :=
    fun e he ↦ h.nonempty e (mem_others.mp he).1
  generalize r.setlk s.entries = out at hstep hgranted
  cases hgranted with
  | unlocked hkind =>
    rw [← some.inj hstep]
    refine ⟨?_, hnonempty⟩
    intro p b k
    rw [records_others hrange hinside, kindOf_append, h.kinds p b k, hkind]
    by_cases hown : r.pid = p ∧ r.Covers b <;> simp [hown]
  | refused k hkind hconflict =>
    rw [← some.inj hstep]
    rw [others_of_conflict hrange hvalid hok hkind hconflict]
    exact h
  | locked k hkind hfree =>
    rw [← some.inj hstep]
    refine ⟨?_, ?_⟩
    · intro p b k'
      rw [records_append, records_others hrange hinside, kindOf_append, h.kinds p b k',
        hkind, ← hrange.covers_iff b]
      by_cases hown : r.pid = p ∧ r.Covers b
      · simp [hown]
      · simp only [hown, not_false_eq_true, and_true, if_neg]
        tauto
    · intro e he
      rcases mem_append.mp he with hold | hnew
      · exact hnonempty e hold
      · rw [mem_singleton.mp hnew]
        exact hrange.nonempty

/-- A request fails with `EAGAIN` exactly when it is a lock request with a range of file offsets and
another process holds a clashing lock on one of its bytes. -/
theorem Refines.again_iff {s : LockTable} (h : s.Refines) (r : LockRequest) :
    (∃ entries, r.setlk s.entries = .err .EAGAIN entries) ↔
      r.Valid ∧ ∃ k, r.kind = some k ∧ ∃ p b k', p ≠ r.pid ∧ r.Covers b ∧
        Records s.entries p b k' ∧ k'.Clashes k := by
  have hblocks : ∀ first stop, RangeOf r first stop → ∀ k, r.kind = some k →
      (Conflict s.entries r.pid first stop k ↔ ∃ p b k', p ≠ r.pid ∧ r.Covers b ∧
        Records s.entries p b k' ∧ k'.Clashes k) := by
    intro first stop hrange k hk
    constructor
    · rintro ⟨e, he, howner, hoverlap, hclash⟩
      have hlo := h.nonempty e he
      have hne := hrange.nonempty
      simp only [rangesOverlap, Bool.and_eq_true, decide_eq_true_eq] at hoverlap
      refine ⟨e.ownerPid, max e.start first, e.kind, howner, ?_, ⟨e, he, rfl, ?_, rfl⟩, hclash⟩
      · rw [hrange.covers_iff]
        omega
      · omega
    · rintro ⟨p, b, k', hp, hcovers, ⟨e, he, howner, hb, hkind⟩, hclash⟩
      rw [hrange.covers_iff] at hcovers
      refine ⟨e, he, by rw [howner]; exact hp, ?_, by rw [hkind]; exact hclash⟩
      simp only [rangesOverlap, Bool.and_eq_true, decide_eq_true_eq]
      omega
  rcases setlk_cases r s.entries with ⟨hinvalid, e, hne, hout⟩ |
    ⟨hvalid, first, stop, hrange, hgranted⟩
  · rw [hout]
    constructor
    · rintro ⟨entries, heq⟩
      simp only [Outcome.err.injEq] at heq
      exact absurd heq.1 hne
    · exact fun hvalid ↦ absurd hvalid.1 hinvalid
  · generalize r.setlk s.entries = out at hgranted
    cases hgranted with
    | unlocked hkind => simp [hkind]
    | refused k hkind hconflict =>
      exact ⟨fun _ ↦ ⟨hvalid, k, hkind, (hblocks first stop hrange k hkind).mp hconflict⟩,
        fun _ ↦ ⟨_, rfl⟩⟩
    | locked k hkind hfree =>
      constructor
      · rintro ⟨entries, heq⟩
        simp at heq
      · rintro ⟨-, k', hk', hheld⟩
        rw [hkind, some.injEq] at hk'
        rw [← hk'] at hheld
        exact absurd ((hblocks first stop hrange k hkind).mpr hheld) hfree

/-- In every run whose requests meet the condition, the table refines the map of the requests that
have succeeded, `EAGAIN` is returned exactly for a clash with another process, and a request that fails
so leaves the table as it was. -/
theorem locks_refine_map {s : LockTable}
    (hrun : Run (· = start) (fun s r ↦ r.Swallows s.entries) Step s) :
    (∀ p b k, Records s.entries p b k ↔ LockRequest.kindOf s.log p b = some k) ∧ ∀ r : LockRequest,
      ((∃ entries, r.setlk s.entries = .err .EAGAIN entries) ↔
        r.Valid ∧ ∃ k, r.kind = some k ∧ ∃ p b k', p ≠ r.pid ∧ r.Covers b ∧
          Records s.entries p b k' ∧ k'.Clashes k) ∧
      (r.Swallows s.entries →
        ∀ entries, r.setlk s.entries = .err .EAGAIN entries → entries = s.entries) := by
  have hrefines : s.Refines := by
    apply Run.invariant ?_ ?_ hrun
    · rintro s rfl
      exact refines_start
    · intro s r s' h hok hstep
      exact h.step hok hstep
  refine ⟨hrefines.kinds, fun r ↦ ⟨hrefines.again_iff r, ?_⟩⟩
  intro hok entries hout
  rcases setlk_cases r s.entries with ⟨-, e, hne, herr⟩ | ⟨hvalid, first, stop, hrange, hgranted⟩
  · rw [herr, Outcome.err.injEq] at hout
    exact hout.2.symm
  · rw [hout] at hgranted
    cases hgranted with
    | refused k hkind hconflict => exact others_of_conflict hrange hvalid hok hkind hconflict

def smallFile : LockedFile := ⟨0, .ok 100⟩

def request (pid : Nat) (lType : Int) (start len : Int64) : LockRequest :=
  ⟨pid, smallFile, ⟨lType, SEEK_SET, start, len⟩⟩

/-- Process 1 locks bytes 0 to 9 and unlocks byte 5: the table has no lock of process 1 on byte 0.
And process 1, with a read lock on bytes 0 to 9, fails to lock them for writing against the reader
process 2: its read lock is gone. -/
theorem partial_unlock_drops_lock : (∃ s, Run (· = start) (fun _ _ ↦ True) Step s ∧
      LockRequest.kindOf s.log 1 0 = some .Exclusive ∧ ∀ k, ¬ Records s.entries 1 0 k) ∧
    ∃ s, Run (· = start) (fun _ _ ↦ True) Step s ∧
      ∃ entries, (request 1 F_WRLCK 0 10).setlk s.entries = .err .EAGAIN entries ∧
        entries ≠ s.entries := by
  have hstart : Run (· = start) (fun _ _ ↦ True) Step start := .start rfl
  have hsplit : (runWhile (fun _ _ ↦ True) next
      [request 1 F_WRLCK 0 10, request 1 F_UNLCK 5 1] start).map (fun s ↦
        (s.entries, kindOf s.log 1 0)) = some ([], some .Exclusive) := by
    decide +kernel
  have hfailed : (runWhile (fun _ _ ↦ True) next
      [request 1 F_RDLCK 0 10, request 2 F_RDLCK 0 10] start).map LockTable.entries =
      some [⟨1, 0, some 9, .Shared⟩, ⟨2, 0, some 9, .Shared⟩] := by
    decide +kernel
  have hagain : (request 1 F_WRLCK 0 10).setlk [⟨1, 0, some 9, .Shared⟩, ⟨2, 0, some 9, .Shared⟩] =
      .err .EAGAIN [⟨2, 0, some 9, .Shared⟩] := by
    rfl
  rcases map_eq_some_iff.mp hsplit with ⟨s, hs, hfacts⟩
  rcases map_eq_some_iff.mp hfailed with ⟨s', hs', hfacts'⟩
  rw [Prod.mk.injEq] at hfacts
  refine ⟨⟨s, hstart.of_runWhile hs, hfacts.2, ?_⟩, s', hstart.of_runWhile hs', _,
    by rw [hfacts']; exact hagain, by rw [hfacts']; simp⟩
  intro k hrecords
  rw [hfacts.1] at hrecords
  simp [Records] at hrecords

/-- Process 1 locks bytes 0 to 9, extends the lock to the end of the file, and process 2 is refused. -/
theorem locks_refine_map_extended : ∃ s : LockTable, s.entries = [⟨1, 0, none, .Exclusive⟩] ∧
    (∀ p b k, Records s.entries p b k ↔ LockRequest.kindOf s.log p b = some k) ∧
    (request 2 F_RDLCK 50 1).setlk s.entries = .err .EAGAIN s.entries := by
  have hfacts : (runWhile (fun s (r : LockRequest) ↦ r.Swallows s.entries) next
      [request 1 F_RDLCK 0 10, request 2 F_RDLCK 50 5, request 2 F_UNLCK 40 (-20),
        request 2 F_UNLCK 50 0, request 1 F_WRLCK 0 0] start).map LockTable.entries =
      some [⟨1, 0, none, .Exclusive⟩] := by
    decide +kernel
  rcases map_eq_some_iff.mp hfacts with ⟨s, hs, hentries⟩
  have hstart : Run (· = start) (fun s (r : LockRequest) ↦ r.Swallows s.entries) Step start :=
    .start rfl
  refine ⟨s, hentries, (locks_refine_map (hstart.of_runWhile hs)).1, ?_⟩
  rw [hentries]
  rfl

end LockTable

end RespOS.Fs
