import RespOS.Basis.Interleaving
import RespOS.Fs.Dentry

/-!
# The dentry cache under concurrent lookups and changes of the namespace

A lookup takes no lock for the whole of its way: it probes the cache, asks the lower file system, makes a
dentry and puts it into the cache under the path the dentry has by then. `filename_unlink`,
`filename_create` and `filename_rename` hold `NAMEI_MUTATION_LOCK`; each changes the lower file system first
and takes the dentries away from the cache afterwards. Each of these is one section here, and the runs are
all interleavings of any number of threads.

What a lookup has found is not looked at again before it is cached: a file that is unlinked between the two
stays in the cache (`cached_after_unlink`). The same happens to the name that a rename gives its replaced
target for a while, and to a file whose creation is taken back, because no dentry is removed from the cache
for them. In the runs in which no lookup is caught in the middle like that (`Settles`), the cache agrees with
the lower file system whenever no call is under way (`coherent_of_run`).

The walk to the parent directory is a sequence of lookups, so a lookup may start at any dentry. Permissions
and the other checks that only make a call return are the action `unlock`.
-/

namespace RespOS.Fs

open RespOS.Basis
open Function (forall_update_iff update update_of_ne update_self)
open LowerTree Dcache Option List Config

/-- What the calls share. `mutation` is the thread that holds `NAMEI_MUTATION_LOCK`. -/
structure Namespace where
  dcache : Dcache
  lower : LowerTree
  mutation : Option Nat := none

/-- The last lookup of a thread: `missed` and `found` are under way, after the probe of the cache and after
the lookup in the lower file system. -/
inductive Lookup
  | none
  | missed (dir : Nat) (name : Name) (absPath : FsPath)
  | found (dir : Nat) (name : Name) (absPath : FsPath) (inode : Inode)
  | present (dir : Nat) (name : Name) (d : Nat)
  | failed (dir : Nat) (name : Name) (e : Errno)
  deriving DecidableEq

def Lookup.isOver : Lookup → Bool
  | .missed .. => false
  | .found .. => false
  | _ => true

/-- The variables of `filename_rename` from the choice of the target on. -/
structure RenameCall where
  old : Nat
  dir : Nat
  name : Name
  newAbs : FsPath
  backup : Option FsPath := none
  deriving DecidableEq

/-- How far a call that changes the namespace has come. -/
inductive Stage
  | unlocked
  | locked
  /-- The lower entry is gone. -/
  | unlinked (targetPath : FsPath)
  /-- The lower entry is made. -/
  | created (dir : Nat) (name : Name) (inode : Inode)
  /-- `filename_rename` has found its source. -/
  | resolved (old : Nat)
  /-- The target has been moved to the backup name. -/
  | setAside (r : RenameCall) (existingPath : FsPath)
  | ready (r : RenameCall)
  /-- The lower rename has failed and the backup is to be moved back. -/
  | restoring (backup newAbs : FsPath)
  | renamed (r : RenameCall)
  /-- The cache has been cleared of the old path, and of the new one. -/
  | cleared (r : RenameCall) (both : Bool)
  | relocated (r : RenameCall)
  deriving DecidableEq

/-- The stages in which a call looks names up. -/
def Stage.looksUp : Stage → Bool
  | .unlocked => true
  | .locked => true
  | .resolved _ => true
  | _ => false

structure Call where
  stage : Stage := .unlocked
  look : Lookup := .none
  deriving DecidableEq

/-- The sections. `err` is an error of the lower file system, `victim` the entry that a full cache gives
up. -/
inductive NamespaceAction
  | lookup (dir : Nat) (name : Name)
  | readLower (err : Option Errno)
  | insert (victim : Option FsPath)
  | lock
  | unlock
  | unlink (removeDir : Bool) (err : Option Errno)
  | removeTree
  | create (inode : Inode) (err : Option Errno)
  | publish (victim : Option FsPath)
  | rollback (ok : Bool)
  | takeOld
  | setAside (noReplace : Bool) (err : Option Errno)
  | noTarget
  | clearExisting
  | rename (err : Option Errno)
  | restore (ok : Bool)
  | dropBackup (ok : Bool)
  | clearOld
  | clearNew
  | relocate
  | insertOld (victim : Option FsPath)

def digits (n : Nat) : Name := n.repr.toList.map fun c ↦ c.toNat.toUInt8

def backupMark : Name := ".respos_rename_backup_".toList.map fun c ↦ c.toNat.toUInt8

/-- The name that a rename gives its replaced target for a while. -/
def backupPath (p : FsPath) (ino : Nat) : FsPath :=
  p.dropLast ++ [p.getLastD [] ++ backupMark ++ digits ino]

namespace Namespace

variable (s : Namespace)

def release : Namespace × Call := ({ s with mutation := none }, {})

/-- A new dentry for a name in a directory, and into the cache with it. -/
def insertNew (victim : Option FsPath) (absPath : FsPath) (dir : Nat) (inode : Inode) :
    Option Namespace :=
  let dcache := s.dcache.alloc { absPath := absPath, parent := some dir, inode := inode }
  (dcache.insertDentryCache victim s.dcache.nextDentry).map fun dcache ↦ { s with dcache := dcache }

/-- The checks of `filename_rename` that do not depend on the target. -/
def mayRename (old : Nat) (oldPath newAbs : FsPath) : Bool :=
  newAbs ≠ oldPath && !((s.dcache.dentry old).inode.ty = .directory && oldPath ≠ [] &&
    oldPath.isPrefixOf newAbs)

/-- The checks of `filename_rename` on a target that exists. -/
def mayReplace (old existing : Inode) (existingPath : FsPath) : Bool :=
  ((old.ty = .directory) = (existing.ty = .directory)) && old.ino ≠ existing.ino &&
    (existing.ty ≠ .directory || s.lower.isEmpty existingPath)

/-- `filename_unlink` from the checks of the target to the change of the lower file system. -/
def unlink (d : Nat) (removeDir : Bool) (err : Option Errno) : Option (Namespace × Call) :=
  if decide ((s.dcache.dentry d).inode.ty = .directory) ≠ removeDir ∨
      (s.dcache.dentry d).parent = none ∨ err.isSome then some s.release
  else
    (s.dcache.currentAbsPath d).map fun p ↦
      match s.lower.remove p with
      | none => s.release
      | some lower => ({ s with lower := lower }, { stage := .unlinked p })

def create (dir : Nat) (name : Name) (inode : Inode) (err : Option Errno) :
    Option (Namespace × Call) :=
  if err.isSome then some s.release
  else
    (s.dcache.childAbsPath dir name).map fun p ↦
      match s.lower.create p inode with
      | none => s.release
      | some lower => ({ s with lower := lower }, { stage := .created dir name inode })

/-- `filename_rename` with a target that exists, to its move to the backup name. -/
def setAside (old dir : Nat) (name : Name) (existing : Nat) (noReplace : Bool) (err : Option Errno) :
    Option (Namespace × Call) :=
  (s.dcache.currentAbsPath old).bind fun oldPath ↦
    (s.dcache.childAbsPath dir name).bind fun newAbs ↦
      (s.dcache.currentAbsPath existing).map fun existingPath ↦
        let existingInode := (s.dcache.dentry existing).inode
        let backup := backupPath existingPath existingInode.ino
        if !s.mayRename old oldPath newAbs || noReplace || err.isSome ||
            !s.mayReplace (s.dcache.dentry old).inode existingInode existingPath then s.release
        else
          match s.lower.rename existingPath backup with
          | none => s.release
          | some lower =>
            ({ s with lower := lower },
              { stage := .setAside ⟨old, dir, name, newAbs, some backup⟩ existingPath })

def noTarget (old dir : Nat) (name : Name) : Option (Namespace × Call) :=
  (s.dcache.currentAbsPath old).bind fun oldPath ↦
    (s.dcache.childAbsPath dir name).map fun newAbs ↦
      if s.mayRename old oldPath newAbs then
        (s, { stage := .ready { old := old, dir := dir, name := name, newAbs := newAbs } })
      else s.release

/-- What `filename_rename` does when the lower rename fails. -/
def renameFailed (r : RenameCall) : Namespace × Call :=
  match r.backup with
  | none => s.release
  | some backup => (s, { stage := .restoring backup r.newAbs })

def rename (r : RenameCall) (err : Option Errno) : Option (Namespace × Call) :=
  if err.isSome then some (s.renameFailed r)
  else
    (s.dcache.currentAbsPath r.old).map fun oldPath ↦
      match s.lower.rename oldPath r.newAbs with
      | none => s.renameFailed r
      | some lower => ({ s with lower := lower }, { stage := .renamed r })

def lookupSection (a : NamespaceAction) (l : Call) : Option (Namespace × Call) :=
  match a, l.look with
  | .lookup dir name, look =>
    if look.isOver && dir < s.dcache.nextDentry then
      (s.dcache.childAbsPath dir name).map fun p ↦
        match s.dcache.lookupDentryCache p with
        | some d => (s, { l with look := .present dir name d })
        | none => (s, { l with look := .missed dir name p })
    else none
  | .readLower (some e), .missed dir name _ => some (s, { l with look := .failed dir name e })
  | .readLower none, .missed dir name absPath =>
    if (s.dcache.dentry dir).inode.ty ≠ .directory then
      some (s, { l with look := .failed dir name .ENOTDIR })
    else
      (s.dcache.childAbsPath dir name).map fun p ↦
        match s.lower.find p with
        | none => (s, { l with look := .failed dir name .ENOENT })
        | some inode => (s, { l with look := .found dir name absPath inode })
  | .insert victim, .found dir name absPath inode =>
    (s.insertNew victim absPath dir inode).map fun s' ↦
      (s', { l with look := .present dir name s.dcache.nextDentry })
  | _, _ => none

/-- A lower removal without a removal from the cache, where it succeeds. -/
def takeBack (p : FsPath) (ok : Bool) : Namespace :=
  match ok, s.lower.remove p with
  | true, some lower => { s with lower := lower }
  | _, _ => s

def moveBack (backup newAbs : FsPath) (ok : Bool) : Namespace :=
  match ok, s.lower.rename backup newAbs with
  | true, some lower => { s with lower := lower }
  | _, _ => s

/-- The state with the dentries of a path and below it removed from the cache. -/
def removeTree (p : FsPath) : Namespace := { s with dcache := s.dcache.removeDentryCacheTree p }

end Namespace

def namespaceSection (t : Nat) (a : NamespaceAction) (s : Namespace) (l : Call) :
    Option (Namespace × Call) :=
  match a, l.stage, l.look with
  | .lookup _ _, stage, _ => if stage.looksUp then s.lookupSection a l else none
  | .readLower _, stage, _ => if stage.looksUp then s.lookupSection a l else none
  | .insert _, stage, _ => if stage.looksUp then s.lookupSection a l else none
  | .lock, .unlocked, look =>
    if look.isOver && s.mutation.isNone then
      some ({ s with mutation := some t }, { stage := .locked })
    else none
  | .unlock, .locked, look => if look.isOver then some s.release else none
  | .unlock, .resolved _, look => if look.isOver then some s.release else none
  | .unlink removeDir err, .locked, .present _ _ d => s.unlink d removeDir err
  | .removeTree, .unlinked p, _ => some (s.removeTree p).release
  | .create inode err, .locked, .failed dir name .ENOENT => s.create dir name inode err
  | .publish victim, .created dir name inode, _ =>
    (s.dcache.childAbsPath dir name).bind fun p ↦
      (s.insertNew victim p dir inode).map fun s' ↦ s'.release
  | .rollback ok, .created dir name _, _ =>
    (s.dcache.childAbsPath dir name).map fun p ↦ (s.takeBack p ok).release
  | .takeOld, .locked, .present _ _ d => some (s, { stage := .resolved d })
  | .setAside noReplace err, .resolved old, .present dir name existing =>
    s.setAside old dir name existing noReplace err
  | .noTarget, .resolved old, .failed dir name _ => s.noTarget old dir name
  | .clearExisting, .setAside r p, _ => some (s.removeTree p, { stage := .ready r })
  | .rename err, .ready r, _ => s.rename r err
  | .restore ok, .restoring backup newAbs, _ => some (s.moveBack backup newAbs ok).release
  | .dropBackup ok, .renamed r, _ =>
    r.backup.map fun backup ↦
      (s.takeBack backup ok, { stage := .renamed { r with backup := none } })
  | .clearOld, .renamed r, _ =>
    if r.backup.isSome then none
    else (s.dcache.currentAbsPath r.old).map fun p ↦ (s.removeTree p, { stage := .cleared r false })
  | .clearNew, .cleared r false, _ => some (s.removeTree r.newAbs, { stage := .cleared r true })
  | .relocate, .cleared r true, _ =>
    some ({ s with dcache := s.dcache.relocate r.old r.newAbs r.dir }, { stage := .relocated r })
  | .insertOld victim, .relocated r, _ =>
    (s.dcache.insertDentryCache victim r.old).map fun dcache ↦
      ({ s with dcache := dcache } : Namespace).release
  | _, _, _ => none

/-- No call is under way, and what is cached is what the lower file system has. -/
structure NamespaceInit (c : Config Namespace Call) : Prop where
  bounded : c.shared.dcache.Bounded
  mutation : c.shared.mutation = none
  thread : ∀ t, c.thread t = {}
  path : ∀ e ∈ c.shared.dcache.cache, HasPath c.shared.dcache.dentry e.2 e.1
  cached : ∀ e ∈ c.shared.dcache.cache,
    c.shared.lower.find e.1 = some (c.shared.dcache.dentry e.2).inode

def AllReturned (c : Config Namespace Call) : Prop :=
  ∀ t, (c.thread t).stage = .unlocked ∧ (c.thread t).look.isOver = true

/-- A lookup that has found `inode` and is going to cache it under the path `p`. -/
def InFlight (c : Config Namespace Call) (p : FsPath) (inode : Inode) : Prop :=
  ∃ t dir name absPath q, (c.thread t).look = .found dir name absPath inode ∧
    HasPath c.shared.dcache.dentry dir q ∧ p = q ++ [name]

/-- Nothing at the path or below it is cached or about to be cached. -/
def Unseen (c : Config Namespace Call) (p : FsPath) : Prop :=
  (∀ e ∈ c.shared.dcache.cache, ¬ p <+: e.1) ∧ ∀ q inode, InFlight c q inode → ¬ p <+: q

/-- The condition. When a call has removed its dentries from the cache, no lookup is about to cache
something that the lower file system no longer has at the path; and where a call takes a path away from the
lower file system without a removal from the cache, nothing there is cached or about to be. -/
def Settles (c : Config Namespace Call) (l : Nat × NamespaceAction) : Prop :=
  match l.2, (c.thread l.1).stage with
  | .removeTree, _ => ∀ p inode, InFlight c p inode → c.shared.lower.find p = some inode
  | .clearExisting, _ => ∀ p inode, InFlight c p inode → c.shared.lower.find p = some inode
  | .clearOld, _ => ∀ p inode, InFlight c p inode → c.shared.lower.find p = some inode
  | .rollback true, .created dir name _ =>
    ∀ q, HasPath c.shared.dcache.dentry dir q → Unseen c (q ++ [name])
  | .restore true, .restoring backup _ => Unseen c backup
  | .dropBackup true, .renamed r => ∀ backup, r.backup = some backup → Unseen c backup
  | _, _ => True

/-! ### The invariant -/

/-- The paths whose dentries a call has still to remove from the cache. -/
def Stage.Stale (dentry : Nat → Dentry) : Stage → FsPath → Prop
  | .unlinked p, q => p <+: q
  | .setAside _ p, q => p <+: q
  | .renamed r, q => ∃ p, HasPath dentry r.old p ∧ p <+: q
  | _, _ => False

/-- A call under way is going to clear the cache of the path. -/
def Unsettled (c : Config Namespace Call) (q : FsPath) : Prop :=
  ∃ t, (c.thread t).stage.Stale c.shared.dcache.dentry q

/-- A call that holds the lock has nothing to remove from the cache. -/
structure HeldClean (c : Config Namespace Call) (t : Nat) : Prop where
  locked : (c.thread t).stage ≠ .unlocked
  clean : ∀ q, ¬ (c.thread t).stage.Stale c.shared.dcache.dentry q

/-- The lower file system has the dentry's inode at the dentry's path. -/
def Agrees (dc : Dcache) (fs : LowerTree) (d : Nat) : Prop :=
  ∀ q, HasPath dc.dentry d q → fs.find q = some (dc.dentry d).inode

/-- The dentries of a lookup exist, and a dentry that it is going to make has the name looked up. -/
def Lookup.Ok (n : Nat) : Lookup → Prop
  | .none => True
  | .missed dir name absPath => dir < n ∧ absPath.getLastD [] = name
  | .found dir name absPath _ => dir < n ∧ absPath.getLastD [] = name
  | .present dir _ d => dir < n ∧ d < n
  | .failed dir _ _ => dir < n

/-- What holds of the source and the target of a rename before the lower rename. -/
structure RenameCall.Before (dc : Dcache) (fs : LowerTree) (r : RenameCall) : Prop where
  old : r.old < dc.nextDentry
  dir : r.dir < dc.nextDentry
  agrees : Agrees dc fs r.old
  newAbs : ∃ q, HasPath dc.dentry r.dir q ∧ r.newAbs = q ++ [r.name]
  backup : ∀ b, r.backup = some b → (fs.find b).isSome = true

/-- What holds between the lower rename and the relocation. -/
structure RenameCall.After (dc : Dcache) (fs : LowerTree) (r : RenameCall) (oldPath : FsPath) :
    Prop where
  old : r.old < dc.nextDentry
  dir : r.dir < dc.nextDentry
  path : HasPath dc.dentry r.old oldPath
  newAbs : ∃ q, HasPath dc.dentry r.dir q ∧ r.newAbs = q ++ [r.name]
  apart : ¬ oldPath <+: r.newAbs
  gone : fs.find oldPath = none
  moved : fs.find r.newAbs = some (dc.dentry r.old).inode
  backup : r.backup ≠ some r.newAbs

/-- What holds of a call in each stage. Only the calls that hold the lock are restricted. -/
def StageOk (dc : Dcache) (fs : LowerTree) (l : Call) : Prop :=
  match l.stage with
  | .unlocked => True
  | .locked => ∀ dir name d, l.look = .present dir name d → Agrees dc fs d
  | .unlinked _ => True
  | .created dir name inode => dir < dc.nextDentry ∧
      ∀ q, HasPath dc.dentry dir q → fs.find (q ++ [name]) = some inode
  | .resolved old => (old < dc.nextDentry ∧ Agrees dc fs old) ∧
      ∀ dir name d, l.look = .present dir name d → Agrees dc fs d
  | .setAside r _ => r.Before dc fs
  | .ready r => r.Before dc fs
  | .restoring _ _ => True
  | .renamed r => ∃ oldPath, r.After dc fs oldPath
  | .cleared r _ => ∃ oldPath, r.After dc fs oldPath
  | .relocated r => r.old < dc.nextDentry ∧ HasPath dc.dentry r.old r.newAbs ∧
      fs.find r.newAbs = some (dc.dentry r.old).inode

/-- The invariant: what is cached or about to be cached agrees with the lower file system, unless a call
under way is going to clear the cache of it. -/
structure NamespaceInv (c : Config Namespace Call) : Prop where
  bounded : c.shared.dcache.Bounded
  path : ∀ e ∈ c.shared.dcache.cache, HasPath c.shared.dcache.dentry e.2 e.1
  cached : ∀ e ∈ c.shared.dcache.cache,
    c.shared.lower.find e.1 = some (c.shared.dcache.dentry e.2).inode ∨ Unsettled c e.1
  flight : ∀ p inode, InFlight c p inode → c.shared.lower.find p = some inode ∨ Unsettled c p
  look : ∀ t, (c.thread t).look.Ok c.shared.dcache.nextDentry
  stage : ∀ t, StageOk c.shared.dcache c.shared.lower (c.thread t)
  lock : ∀ t, (c.thread t).stage ≠ .unlocked → c.shared.mutation = some t

section Steps

variable {c : Config Namespace Call} {s : Namespace} {k : Call} {t : Nat} {p q : FsPath}

theorem Unsettled.update (h : Unsettled c q)
    (hstale : (c.thread t).stage.Stale c.shared.dcache.dentry q → k.stage.Stale s.dcache.dentry q)
    (hothers : ∀ u, u ≠ t → (c.thread u).stage.Stale c.shared.dcache.dentry q →
      (c.thread u).stage.Stale s.dcache.dentry q) : Unsettled ⟨s, update c.thread t k⟩ q := by
  obtain ⟨u, hu⟩ := h
  by_cases hut : u = t
  · subst hut
    exact ⟨u, by simpa using hstale hu⟩
  · exact ⟨u, by simpa [update_of_ne hut] using hothers u hut hu⟩

variable {inode : Inode} {dc : Dcache} {fs : LowerTree} {d dir : Nat} {r : RenameCall}
  {err : Option Errno} {name : Name}

theorem InFlight.of_update (hk : k.look.isOver = true)
    (h : InFlight ⟨s, update c.thread t k⟩ p inode) :
    ∃ u dir name absPath q, (c.thread u).look = .found dir name absPath inode ∧
      HasPath s.dcache.dentry dir q ∧ p = q ++ [name] := by
  obtain ⟨u, dir, name, absPath, q, hlook, hpath⟩ := h
  by_cases hu : u = t
  · subst hu
    simp only [update_self] at hlook
    simp [hlook, Lookup.isOver] at hk
  · simp only [update_of_ne hu] at hlook
    exact ⟨u, dir, name, absPath, q, hlook, hpath⟩

theorem Agrees.extend {dc' : Dcache} (hext : dc.Extends dc') (hdc : dc.Bounded)
    (hd : d < dc.nextDentry) (h : Agrees dc fs d) : Agrees dc' fs d := by
  intro q hq
  rw [hext.dentry d hd]
  exact h q ((hext.hasPath_iff hdc hd).mp hq)

theorem StageOk.extend {dc' : Dcache} {l : Call} (hext : dc.Extends dc') (hdc : dc.Bounded)
    (hlook : l.look.Ok dc.nextDentry) (h : StageOk dc fs l) : StageOk dc' fs l := by
  obtain ⟨stage, look⟩ := l
  have hpresent : (∀ dir name d, look = .present dir name d → Agrees dc fs d) →
      ∀ dir name d, look = .present dir name d → Agrees dc' fs d := by
    rintro h dir name d rfl
    exact (h dir name d rfl).extend hext hdc hlook.2
  have hbefore : ∀ r : RenameCall, r.Before dc fs → r.Before dc' fs := by
    rintro r ⟨hold, hdir, hagrees, ⟨q, hq, hnew⟩, hbackup⟩
    exact ⟨hold.trans_le hext.next, hdir.trans_le hext.next, hagrees.extend hext hdc hold,
      ⟨q, (hext.hasPath_iff hdc hdir).mpr hq, hnew⟩, hbackup⟩
  have hafter : ∀ r : RenameCall, (∃ p, r.After dc fs p) → ∃ p, r.After dc' fs p := by
    rintro r ⟨p, hold, hdir, hp, ⟨q, hq, hnew⟩, hapart, hgone, hmoved, hbackup⟩
    rw [← hext.dentry r.old hold] at hmoved
    exact ⟨p, hold.trans_le hext.next, hdir.trans_le hext.next, (hext.hasPath_iff hdc hold).mpr hp,
      ⟨q, (hext.hasPath_iff hdc hdir).mpr hq, hnew⟩, hapart, hgone, hmoved, hbackup⟩
  cases stage with
  | unlocked => trivial
  | locked => exact hpresent h
  | unlinked _ => trivial
  | created dir name inode =>
    exact ⟨h.1.trans_le hext.next, fun q hq ↦ h.2 q ((hext.hasPath_iff hdc h.1).mp hq)⟩
  | resolved old =>
    exact ⟨⟨h.1.1.trans_le hext.next, h.1.2.extend hext hdc h.1.1⟩, hpresent h.2⟩
  | setAside r _ | ready r => exact hbefore r h
  | restoring _ _ => trivial
  | renamed r | cleared r _ => exact hafter r h
  | relocated r =>
    refine ⟨h.1.trans_le hext.next, (hext.hasPath_iff hdc h.1).mpr h.2.1, ?_⟩
    rw [hext.dentry r.old h.1]
    exact h.2.2

theorem Lookup.Ok.mono {look : Lookup} {n m : Nat} (hnm : n ≤ m) (h : look.Ok n) : look.Ok m := by
  cases look with
  | none => trivial
  | missed dir name absPath | found dir name absPath inode => exact ⟨h.1.trans_le hnm, h.2⟩
  | present dir name d => exact ⟨h.1.trans_le hnm, h.2.trans_le hnm⟩
  | failed dir name e => exact Nat.lt_of_lt_of_le h hnm

namespace NamespaceInv

variable (hc : NamespaceInv c)

include hc

theorem unlocked_of_ne (ht : (c.thread t).stage ≠ .unlocked) {u : Nat}
    (hu : u ≠ t) : (c.thread u).stage = .unlocked := by
  by_contra hne
  exact hu (some.inj ((hc.lock u hne).symm.trans (hc.lock t ht)))

theorem settled (ht : (c.thread t).stage ≠ .unlocked)
    (hstale : ¬ (c.thread t).stage.Stale c.shared.dcache.dentry q) : ¬ Unsettled c q := by
  rintro ⟨u, hu⟩
  by_cases hut : u = t
  · exact hstale (hut ▸ hu)
  · rw [hc.unlocked_of_ne ht hut] at hu
    exact hu

theorem of_local (m : Option Nat) (hstale : ∀ q, (c.thread t).stage.Stale c.shared.dcache.dentry q →
      k.stage.Stale c.shared.dcache.dentry q) (hlook : k.look.Ok c.shared.dcache.nextDentry)
    (hflight : ∀ dir name absPath inode q, k.look = .found dir name absPath inode →
      HasPath c.shared.dcache.dentry dir q →
        c.shared.lower.find (q ++ [name]) = some inode ∨ Unsettled c (q ++ [name]))
    (hstage : StageOk c.shared.dcache c.shared.lower k)
    (hlock : ∀ u, (update c.thread t k u).stage ≠ .unlocked → m = some u) :
    NamespaceInv ⟨{ c.shared with mutation := m }, update c.thread t k⟩ where
  bounded := hc.bounded
  path := hc.path
  cached e he := (hc.cached e he).imp_right fun h ↦ h.update (hstale _) fun _ _ ↦ id
  flight p inode h := by
    obtain ⟨u, dir, name, absPath, q, hu, hpath, rfl⟩ := h
    by_cases hut : u = t
    · subst hut
      simp only [update_self] at hu
      exact (hflight dir name absPath inode q hu hpath).imp_right fun h ↦
        h.update (hstale _) fun _ _ ↦ id
    · simp only [update_of_ne hut] at hu
      exact (hc.flight _ inode ⟨u, dir, name, absPath, q, hu, hpath, rfl⟩).imp_right fun h ↦
        h.update (hstale _) fun _ _ ↦ id
  look := (forall_update_iff _ fun _ (l : Call) ↦ l.look.Ok _).mpr ⟨hlook, fun u _ ↦ hc.look u⟩
  stage := (forall_update_iff _ _).mpr ⟨hstage, fun u _ ↦ hc.stage u⟩
  lock := hlock

theorem stale_extend (hext : c.shared.dcache.Extends dc) (u : Nat)
    (h : (c.thread u).stage.Stale c.shared.dcache.dentry q) :
    (c.thread u).stage.Stale dc.dentry q := by
  have hstage := hc.stage u
  unfold StageOk at hstage
  cases hu : (c.thread u).stage with
  | renamed r =>
    rw [hu] at h hstage
    obtain ⟨oldPath, hold⟩ := hstage
    obtain ⟨p, hp, hpq⟩ := h
    exact ⟨p, (hext.hasPath_iff hc.bounded hold.old).mpr hp, hpq⟩
  | _ =>
    rw [hu] at h
    exact h

theorem of_insert (m : Option Nat)
    (hstale : ∀ q, ¬ (c.thread t).stage.Stale c.shared.dcache.dentry q)
    (hext : c.shared.dcache.Extends dc) (hbounded : dc.Bounded)
    (hmem : ∀ e ∈ dc.cache, e = (p, d) ∨ e ∈ c.shared.dcache.cache) (hpath : HasPath dc.dentry d p)
    (hnew : c.shared.lower.find p = some (dc.dentry d).inode ∨ Unsettled c p)
    (hlook : k.look.Ok dc.nextDentry) (hover : k.look.isOver = true)
    (hstage : StageOk dc c.shared.lower k)
    (hlock : ∀ u, (update c.thread t k u).stage ≠ .unlocked → m = some u) :
    NamespaceInv ⟨⟨dc, c.shared.lower, m⟩, update c.thread t k⟩ where
  bounded := hbounded
  path e he := by
    rcases hmem e he with rfl | he
    · exact hpath
    · exact (hext.hasPath_iff hc.bounded (hc.bounded.cached e he)).mpr (hc.path e he)
  cached e he := by
    rcases hmem e he with rfl | he
    · exact hnew.imp_right fun h ↦ h.update (absurd · (hstale _)) fun u _ ↦
        hc.stale_extend hext u
    · simp only [hext.dentry e.2 (hc.bounded.cached e he)]
      exact (hc.cached e he).imp_right fun h ↦ h.update (absurd · (hstale _)) fun u _ ↦
        hc.stale_extend hext u
  flight p inode h := by
    obtain ⟨u, dir, name, absPath, q, hu, hq, rfl⟩ := h.of_update hover
    have hdir : dir < c.shared.dcache.nextDentry := by
      have := hc.look u
      rw [hu] at this
      exact this.1
    have hq' := (hext.hasPath_iff hc.bounded hdir).mp hq
    exact (hc.flight _ inode ⟨u, dir, name, absPath, q, hu, hq', rfl⟩).imp_right fun h ↦
      h.update (absurd · (hstale _)) fun u _ ↦
        hc.stale_extend hext u
  look := (forall_update_iff _ fun _ (l : Call) ↦ l.look.Ok _).mpr
    ⟨hlook, fun u _ ↦ (hc.look u).mono hext.next⟩
  stage := (forall_update_iff _ _).mpr
    ⟨hstage, fun u _ ↦ (hc.stage u).extend hext hc.bounded (hc.look u)⟩
  lock := hlock

theorem stage_others (ht : (c.thread t).stage ≠ .unlocked) (dc : Dcache)
    (fs : LowerTree) (hstage : StageOk dc fs k) : ∀ u, StageOk dc fs (update c.thread t k u) :=
  (forall_update_iff _ _).mpr ⟨hstage, fun u hut ↦ by
    simp only [StageOk, hc.unlocked_of_ne ht hut]⟩

theorem look_others (hlook : k.look.Ok c.shared.dcache.nextDentry) :
    ∀ u, (update c.thread t k u).look.Ok c.shared.dcache.nextDentry :=
  (forall_update_iff _ fun _ (l : Call) ↦ l.look.Ok _).mpr ⟨hlook, fun u _ ↦ hc.look u⟩

theorem of_clear (m : Option Nat) (ht : (c.thread t).stage ≠ .unlocked)
    (hstale : ∀ q, (c.thread t).stage.Stale c.shared.dcache.dentry q → p <+: q)
    (hsettles : ∀ q inode, InFlight c q inode → c.shared.lower.find q = some inode)
    (hlook : k.look = .none) (hstage : StageOk c.shared.dcache c.shared.lower k)
    (hlock : ∀ u, (update c.thread t k u).stage ≠ .unlocked → m = some u) :
    NamespaceInv ⟨⟨c.shared.dcache.removeDentryCacheTree p, c.shared.lower, m⟩,
      update c.thread t k⟩ where
  bounded := ⟨hc.bounded.parent, fun e he ↦
    hc.bounded.cached e (mem_removeDentryCacheTree.mp he).1⟩
  path e he := hc.path e (mem_removeDentryCacheTree.mp he).1
  cached e he := by
    obtain ⟨he, hp⟩ := mem_removeDentryCacheTree.mp he
    refine .inl ((hc.cached e he).resolve_right ?_)
    exact hc.settled ht fun h ↦ hp (hstale _ h)
  flight q inode h := by
    obtain ⟨u, dir, name, absPath, q, hu, hq, rfl⟩ := h.of_update (by rw [hlook]; rfl)
    exact .inl (hsettles _ inode ⟨u, dir, name, absPath, q, hu, hq, rfl⟩)
  look := hc.look_others (by rw [hlook]; trivial)
  stage := by
    have hext : c.shared.dcache.Extends (c.shared.dcache.removeDentryCacheTree p) :=
      ⟨le_rfl, fun _ _ ↦ rfl⟩
    exact hc.stage_others ht _ _ (hstage.extend hext hc.bounded (by rw [hlook]; trivial))
  lock := hlock

/-- A change of the lower file system by the call that holds the lock. What was there where something is
cached or about to be stays, or the call is going to clear the cache of it. -/
theorem of_change (m : Option Nat) (ht : (c.thread t).stage ≠ .unlocked)
    (hstale : ∀ q, (c.thread t).stage.Stale c.shared.dcache.dentry q →
      k.stage.Stale c.shared.dcache.dentry q)
    (hcached : ∀ e ∈ c.shared.dcache.cache, ∀ inode, c.shared.lower.find e.1 = some inode →
      fs.find e.1 = some inode ∨ k.stage.Stale c.shared.dcache.dentry e.1)
    (hflight : ∀ q inode, InFlight c q inode → c.shared.lower.find q = some inode →
      fs.find q = some inode ∨ k.stage.Stale c.shared.dcache.dentry q) (hlook : k.look = .none)
    (hstage : StageOk c.shared.dcache fs k)
    (hlock : ∀ u, (update c.thread t k u).stage ≠ .unlocked → m = some u) :
    NamespaceInv ⟨⟨c.shared.dcache, fs, m⟩, update c.thread t k⟩ := by
  have hunsettled : ∀ q, k.stage.Stale c.shared.dcache.dentry q →
      Unsettled ⟨⟨c.shared.dcache, fs, m⟩, update c.thread t k⟩ q :=
    fun q hq ↦ ⟨t, by simpa using hq⟩
  refine ⟨hc.bounded, hc.path, fun e he ↦ ?_, fun q inode h ↦ ?_,
    hc.look_others (by rw [hlook]; trivial), hc.stage_others ht _ _ hstage, hlock⟩
  · rcases hc.cached e he with hfind | h
    · exact (hcached e he _ hfind).imp_right (hunsettled _)
    · exact .inr (h.update (hstale _) fun _ _ ↦ id)
  · obtain ⟨u, dir, name, absPath, q, hu, hq, rfl⟩ := h.of_update (by rw [hlook]; rfl)
    have hin : InFlight c (q ++ [name]) inode := ⟨u, dir, name, absPath, q, hu, hq, rfl⟩
    rcases hc.flight _ inode hin with hfind | h
    · exact (hflight _ inode hin hfind).imp_right (hunsettled _)
    · exact .inr (h.update (hstale _) fun _ _ ↦ id)

theorem lock_keep (ht : k.stage ≠ .unlocked → (c.thread t).stage ≠ .unlocked) :
    ∀ u, (update c.thread t k u).stage ≠ .unlocked → c.shared.mutation = some u :=
  (forall_update_iff _ fun u (l : Call) ↦ l.stage ≠ .unlocked → _ = some u).mpr
    ⟨fun hk ↦ hc.lock t (ht hk), fun u _ ↦ hc.lock u⟩

theorem of_relocate {both : Bool} (ht : (c.thread t).stage = .cleared r both) :
    NamespaceInv ⟨{ c.shared with dcache := c.shared.dcache.relocate r.old r.newAbs r.dir },
      update c.thread t { stage := .relocated r }⟩ := by
  have hlocked : (c.thread t).stage ≠ .unlocked := by simp [ht]
  have hsettled : ∀ q, ¬ Unsettled c q := fun q ↦ hc.settled hlocked (by simp [ht, Stage.Stale])
  obtain ⟨oldPath, hafter⟩ : ∃ oldPath, r.After c.shared.dcache c.shared.lower oldPath := by
    have := hc.stage t
    rwa [StageOk, ht] at this
  have hgone : ∀ q inode, c.shared.lower.find q = some inode → ¬ oldPath <+: q := by
    intro q inode hq hpre
    simp [find_eq_none_below hafter.gone hpre] at hq
  have hagree : ∀ d, d ≠ r.old →
      (c.shared.dcache.relocate r.old r.newAbs r.dir).dentry d = c.shared.dcache.dentry d :=
    fun d hd ↦ update_of_ne hd _ _
  have hinode : ∀ d, ((c.shared.dcache.relocate r.old r.newAbs r.dir).dentry d).inode =
      (c.shared.dcache.dentry d).inode := by
    intro d
    by_cases hd : d = r.old
    · subst hd
      simp [relocate]
    · rw [hagree d hd]
  refine ⟨⟨fun d p hp ↦ ?_, hc.bounded.cached⟩, fun e he ↦ ?_, fun e he ↦ .inl ?_,
    fun q inode h ↦ .inl ?_, hc.look_others trivial, hc.stage_others hlocked _ _ ?_, ?_⟩
  · by_cases hd : d = r.old
    · subst hd
      simp only [relocate, update_self, some.injEq] at hp
      exact hp ▸ hafter.dir
    · rw [hagree d hd] at hp
      exact hc.bounded.parent d p hp
  · have hfind := (hc.cached e he).resolve_right (hsettled _)
    exact hafter.path.relocate hagree (hc.path e he) (hgone _ _ hfind)
  · rw [hinode]
    exact (hc.cached e he).resolve_right (hsettled _)
  · obtain ⟨u, dir, name, absPath, q, hu, hq, rfl⟩ := h.of_update rfl
    rcases HasPath.of_relocate hafter.path hagree hq with hq | ⟨q₀, hq₀, hpre⟩
    · exact (hc.flight _ inode ⟨u, dir, name, absPath, q, hu, hq, rfl⟩).resolve_right (hsettled _)
    · have hfind := (hc.flight _ inode ⟨u, dir, name, absPath, q₀, hu, hq₀, rfl⟩).resolve_right
        (hsettled _)
      exact absurd (hpre.trans (prefix_append _ _)) (hgone _ _ hfind)
  · obtain ⟨q, hq, hnew⟩ := hafter.newAbs
    have hq' := hafter.path.relocate hagree hq fun hpre ↦
      hafter.apart (hpre.trans (hnew ▸ prefix_append _ _))
    have hparent : ((c.shared.dcache.relocate r.old r.newAbs r.dir).dentry r.old).parent =
        some r.dir := by
      simp [relocate]
    have hname : ((c.shared.dcache.relocate r.old r.newAbs r.dir).dentry r.old).name = r.name := by
      simp [relocate, Dentry.name, Dentry.ownPath, hnew]
    refine ⟨hafter.old, ?_, by rw [hinode]; exact hafter.moved⟩
    have hpath := HasPath.child hparent hq'
    rwa [hname, ← hnew] at hpath
  · exact hc.lock_keep fun _ ↦ hlocked

theorem lock_release (ht : (c.thread t).stage ≠ .unlocked) :
    ∀ u, (update c.thread t {} u).stage ≠ .unlocked → none = some u :=
  (forall_update_iff _ fun u (l : Call) ↦ l.stage ≠ .unlocked → none = some u).mpr
    ⟨absurd rfl, fun _ hut hu ↦ absurd (hc.unlocked_of_ne ht hut) hu⟩

theorem of_release (h : HeldClean c t) :
    NamespaceInv ⟨c.shared.release.1, update c.thread t c.shared.release.2⟩ :=
  hc.of_local none (fun q hq ↦ absurd hq (h.clean q)) trivial
    (fun _ _ _ _ _ h ↦ by simp [Namespace.release] at h) trivial (hc.lock_release h.locked)

theorem of_first_change (h : HeldClean c t) (hkeep : ∀ q inode, c.shared.lower.find q = some inode →
      fs.find q = some inode ∨ k.stage.Stale c.shared.dcache.dentry q)
    (hlook : k.look = .none) (hstage : StageOk c.shared.dcache fs k) :
    NamespaceInv ⟨⟨c.shared.dcache, fs, c.shared.mutation⟩, update c.thread t k⟩ :=
  hc.of_change _ h.locked (fun q hq ↦ absurd hq (h.clean q)) (fun e _ ↦ hkeep e.1)
    (fun q inode _ ↦ hkeep q inode) hlook hstage (hc.lock_keep fun _ ↦ h.locked)

end NamespaceInv

/-- What a new dentry for a name in a directory leaves behind. -/
structure Inserted (s s' : Namespace) (dir : Nat) (name : Name) (inode : Inode) (q : FsPath) :
    Prop where
  lower : s'.lower = s.lower
  mutation : s'.mutation = s.mutation
  extend : s.dcache.Extends s'.dcache
  bounded : s'.dcache.Bounded
  next : s'.dcache.nextDentry = s.dcache.nextDentry + 1
  inode : (s'.dcache.dentry s.dcache.nextDentry).inode = inode
  dir : HasPath s.dcache.dentry dir q
  path : HasPath s'.dcache.dentry s.dcache.nextDentry (q ++ [name])
  mem : ∀ e ∈ s'.dcache.cache, e = (q ++ [name], s.dcache.nextDentry) ∨ e ∈ s.dcache.cache

theorem inserted_insertNew {s s' : Namespace} {victim : Option FsPath} {absPath : FsPath}
    (hs : s.dcache.Bounded) (hdir : dir < s.dcache.nextDentry)
    (h : s.insertNew victim absPath dir inode = some s') :
    ∃ q, Inserted s s' dir (absPath.getLastD []) inode q := by
  obtain ⟨dc, hdc, rfl⟩ := map_eq_some_iff.mp h
  obtain ⟨hdentry, hnext, p, hp, hmem⟩ := of_insertDentryCache hdc
  have hpath := hasPath_of_currentAbsPath hp
  set new : Dentry := { absPath := absPath, parent := some dir, inode := inode }
  have hext := extends_alloc s.dcache new
  have hbounded : (s.dcache.alloc new).Bounded := hs.alloc fun p hp ↦ some.inj hp ▸ hdir
  have hnew : (s.dcache.alloc new).dentry s.dcache.nextDentry = new := update_self _ _ _
  obtain ⟨q, hq, rfl⟩ := hpath.of_parent (by rw [hnew])
  have hname : ((s.dcache.alloc new).dentry s.dcache.nextDentry).name = absPath.getLastD [] := by
    rw [hnew]
    rfl
  rw [hname] at hpath hmem
  refine ⟨q, rfl, rfl, ⟨hnext ▸ hext.next, fun d hd ↦ ?_⟩, ⟨?_, fun e he ↦ ?_⟩, hnext, ?_,
    (hext.hasPath_iff hs hdir).mp hq, ?_, hmem⟩
  · rw [hdentry]
    exact hext.dentry d hd
  · rw [hdentry, hnext]
    exact hbounded.parent
  · rw [hnext]
    rcases hmem e he with rfl | he
    · exact Nat.lt_succ_self _
    · exact hbounded.cached e he
  · rw [hdentry, hnew]
  · rwa [hdentry]

theorem StageOk.look {l : Call} (h : StageOk dc fs l) (hup : l.stage.looksUp = true) {look : Lookup}
    (hlook : l.stage ≠ .unlocked → ∀ dir name d, look = .present dir name d → Agrees dc fs d) :
    StageOk dc fs { l with look := look } := by
  obtain ⟨stage, old⟩ := l
  cases stage with
  | unlocked => trivial
  | locked => exact hlook (by simp)
  | resolved d => exact ⟨h.1, hlook (by simp)⟩
  | _ => simp [Stage.looksUp] at hup

theorem not_stale_of_looksUp {dentry : Nat → Dentry} {stage : Stage} (h : stage.looksUp = true)
    (q : FsPath) : ¬ stage.Stale dentry q := by
  cases stage <;> simp_all [Stage.looksUp, Stage.Stale]

namespace NamespaceInv

variable (hc : NamespaceInv c)

include hc

theorem of_look (hup : (c.thread t).stage.looksUp = true) {look : Lookup}
    (hlook : look.Ok c.shared.dcache.nextDentry)
    (hflight : ∀ dir name absPath inode q, look = .found dir name absPath inode →
      HasPath c.shared.dcache.dentry dir q → c.shared.lower.find (q ++ [name]) = some inode)
    (hpresent : (c.thread t).stage ≠ .unlocked → ∀ dir name d, look = .present dir name d →
      Agrees c.shared.dcache c.shared.lower d) :
    NamespaceInv ⟨c.shared, update c.thread t { c.thread t with look := look }⟩ :=
  hc.of_local c.shared.mutation (fun _ ↦ id) hlook
    (fun dir name absPath inode q h hq ↦ .inl (hflight dir name absPath inode q h hq))
    ((hc.stage t).look hup hpresent) (hc.lock_keep id)

theorem lookupSection (hup : (c.thread t).stage.looksUp = true)
    {a : NamespaceAction} (h : c.shared.lookupSection a (c.thread t) = some (s, k)) :
    NamespaceInv ⟨s, update c.thread t k⟩ := by
  have hlook := hc.look t
  revert h
  fun_cases Namespace.lookupSection c.shared a (c.thread t) with
  | case1 dir name hguard =>
    -- the probe of the cache
    intro h
    have hdir : dir < c.shared.dcache.nextDentry := by
      simpa using (Bool.and_eq_true_iff.mp hguard).2
    obtain ⟨p, hp, heq⟩ := map_eq_some_iff.mp h
    split at heq
    · next d hd =>
      obtain ⟨rfl, rfl⟩ := Prod.mk.inj heq
      have hmem := mem_of_lookupDentryCache hd
      refine hc.of_look hup ⟨hdir, hc.bounded.cached _ hmem⟩ (by simp) ?_
      rintro ht dir' name' d' hpresent q hq
      obtain ⟨-, -, rfl⟩ := Lookup.present.inj hpresent
      obtain rfl := (hc.path _ hmem).unique hq
      exact (hc.cached _ hmem).resolve_right (hc.settled ht (not_stale_of_looksUp hup _))
    · obtain ⟨rfl, rfl⟩ := Prod.mk.inj heq
      obtain ⟨q, -, rfl⟩ := map_eq_some_iff.mp hp
      exact hc.of_look hup ⟨hdir, by simp⟩ (by simp) (by simp)
  | case3 _ _ _ _ hl | case4 _ _ _ hl =>
    -- an error of the lower file system, or no directory to look in
    rintro ⟨⟩
    rw [hl] at hlook
    exact hc.of_look hup hlook.1 (by simp) (by simp)
  | case5 dir name absPath hl =>
    -- the lower lookup
    intro h
    rw [hl] at hlook
    obtain ⟨p, hp, heq⟩ := map_eq_some_iff.mp h
    obtain ⟨q, hq, rfl⟩ := map_eq_some_iff.mp hp
    split at heq
    · obtain ⟨rfl, rfl⟩ := Prod.mk.inj heq
      exact hc.of_look hup hlook.1 (by simp) (by simp)
    next inode hinode =>
    obtain ⟨rfl, rfl⟩ := Prod.mk.inj heq
    refine hc.of_look hup hlook ?_ (by simp)
    rintro dir' name' absPath' inode' q' hfound hq'
    obtain ⟨rfl, rfl, rfl, rfl⟩ := Lookup.found.inj hfound
    obtain rfl := (hasPath_of_currentAbsPath hq).unique hq'
    exact hinode
  | case6 victim dir name absPath inode hl =>
    -- the insertion
    intro h
    rw [hl] at hlook
    obtain ⟨s', hs', heq⟩ := map_eq_some_iff.mp h
    obtain ⟨rfl, rfl⟩ := Prod.mk.inj heq
    obtain ⟨q, hins⟩ := inserted_insertNew hc.bounded hlook.1 hs'
    rw [hlook.2] at hins
    have hfind := hc.flight _ inode ⟨t, dir, name, absPath, q, hl, hins.dir, rfl⟩
    obtain ⟨dc, fs, m⟩ := s'
    obtain rfl : fs = c.shared.lower := hins.lower
    obtain rfl : m = c.shared.mutation := hins.mutation
    refine hc.of_insert _ (not_stale_of_looksUp hup) hins.extend hins.bounded hins.mem hins.path
      (by rwa [hins.inode]) ⟨?_, ?_⟩ rfl ?_ (hc.lock_keep id)
    · exact hlook.1.trans_le hins.extend.next
    · exact hins.next ▸ Nat.lt_succ_self _
    · refine ((hc.stage t).extend hins.extend hc.bounded (hc.look t)).look hup ?_
      rintro ht dir' name' d' hpresent
      obtain ⟨-, -, rfl⟩ := Lookup.present.inj hpresent
      intro q' hq'
      obtain rfl := hins.path.unique hq'
      rw [hins.inode]
      exact hfind.resolve_right (hc.settled ht (not_stale_of_looksUp hup _))
  | _ => exact nofun

theorem unlink (ht : (c.thread t).stage = .locked) {removeDir : Bool}
    (h : c.shared.unlink d removeDir err = some (s, k)) :
    NamespaceInv ⟨s, update c.thread t k⟩ := by
  have hheld : HeldClean c t := by constructor <;> simp [ht, Stage.Stale]
  unfold Namespace.unlink at h
  split_ifs at h
  · obtain ⟨rfl, rfl⟩ := of_taken h
    exact hc.of_release hheld
  obtain ⟨p, -, heq⟩ := map_eq_some_iff.mp h
  split at heq
  · obtain ⟨rfl, rfl⟩ := Prod.mk.inj heq
    exact hc.of_release hheld
  next fs hfs =>
  obtain ⟨rfl, rfl⟩ := Prod.mk.inj heq
  have hkeep : ∀ q inode, c.shared.lower.find q = some inode →
      fs.find q = some inode ∨ p <+: q := by
    intro q inode hq
    rw [find_remove hfs]
    by_cases hqp : q = p
    · exact .inr (hqp ▸ prefix_rfl)
    · exact .inl (by rwa [if_neg hqp])
  exact hc.of_first_change hheld hkeep rfl trivial

theorem create (ht : (c.thread t).stage = .locked)
    (hdir : dir < c.shared.dcache.nextDentry) (h : c.shared.create dir name inode err = some (s, k)) :
    NamespaceInv ⟨s, update c.thread t k⟩ := by
  have hheld : HeldClean c t := by constructor <;> simp [ht, Stage.Stale]
  unfold Namespace.create at h
  split_ifs at h
  · obtain ⟨rfl, rfl⟩ := of_taken h
    exact hc.of_release hheld
  obtain ⟨p, hp, heq⟩ := map_eq_some_iff.mp h
  obtain ⟨q, hq, rfl⟩ := map_eq_some_iff.mp hp
  split at heq
  · obtain ⟨rfl, rfl⟩ := Prod.mk.inj heq
    exact hc.of_release hheld
  next fs hfs =>
  obtain ⟨rfl, rfl⟩ := Prod.mk.inj heq
  have hkeep : ∀ x i, c.shared.lower.find x = some i → fs.find x = some i ∨ False := by
    intro x i hx
    rw [find_create hfs]
    have hne : x ≠ q ++ [name] := by
      rintro rfl
      simp [find_of_create hfs] at hx
    exact .inl (by rwa [if_neg hne])
  refine hc.of_first_change hheld hkeep rfl ⟨hdir, fun q' hq' ↦ ?_⟩
  obtain rfl := (hasPath_of_currentAbsPath hq).unique hq'
  rw [find_create hfs, if_pos rfl]

theorem publish (ht : (c.thread t).stage = .created dir name inode)
    {victim : Option FsPath} (hp : c.shared.dcache.childAbsPath dir name = some p)
    (h : c.shared.insertNew victim p dir inode = some s) :
    NamespaceInv ⟨s.release.1, update c.thread t s.release.2⟩ := by
  have hheld : HeldClean c t := by constructor <;> simp [ht, Stage.Stale]
  have hstage := hc.stage t
  rw [StageOk, ht] at hstage
  obtain ⟨q, -, rfl⟩ := map_eq_some_iff.mp hp
  obtain ⟨q', hins⟩ := inserted_insertNew hc.bounded hstage.1 h
  rw [getLastD_concat] at hins
  obtain ⟨dc, fs, m⟩ := s
  obtain rfl : fs = c.shared.lower := hins.lower
  exact hc.of_insert none hheld.clean hins.extend hins.bounded hins.mem hins.path
    (.inl (by rw [hins.inode]; exact hstage.2 q' hins.dir)) trivial rfl trivial
    (hc.lock_release hheld.locked)

theorem takeBack (ht : (c.thread t).stage ≠ .unlocked) (m : Option Nat)
    (hstale : ∀ q, (c.thread t).stage.Stale c.shared.dcache.dentry q →
      k.stage.Stale c.shared.dcache.dentry q) {ok : Bool}
    (hunseen : ok = true → Unseen c p) (hlook : k.look = .none)
    (hstage : ∀ fs, (∀ q, q ≠ p → fs.find q = c.shared.lower.find q) →
      (∀ q, c.shared.lower.find q = none → fs.find q = none) → StageOk c.shared.dcache fs k)
    (hlock : ∀ u, (update c.thread t k u).stage ≠ .unlocked → m = some u) :
    NamespaceInv ⟨{ c.shared.takeBack p ok with mutation := m }, update c.thread t k⟩ := by
  have hsame : NamespaceInv ⟨{ c.shared with mutation := m }, update c.thread t k⟩ :=
    hc.of_local m hstale (by rw [hlook]; trivial) (by simp [hlook])
      (hstage _ (fun _ _ ↦ rfl) fun _ ↦ id) hlock
  unfold Namespace.takeBack
  split
  · next fs hfs =>
    have hfind := find_remove hfs
    have hunseen := hunseen rfl
    have hkeep : ∀ q inode, ¬ p <+: q → c.shared.lower.find q = some inode →
        fs.find q = some inode := by
      intro q inode hpq hq
      have hne : q ≠ p := by
        rintro rfl
        exact hpq prefix_rfl
      rwa [hfind, if_neg hne]
    refine hc.of_change m ht hstale
      (fun e he inode h ↦ .inl (hkeep e.1 inode (hunseen.1 e he) h))
      (fun q inode hq h ↦ .inl (hkeep q inode (hunseen.2 q inode hq) h)) hlook
      (hstage fs (fun q hne ↦ ?_) fun q hq ↦ ?_) hlock
    · rw [hfind, if_neg hne]
    · rw [hfind, hq, ite_self]
  · exact hsame

omit hc in
theorem find_of_rename {fs' : LowerTree} {old new : FsPath} (h : fs.rename old new = some fs')
    (hq : fs.find q = some inode) : fs'.find q = some inode ∨ old <+: q := by
  by_cases hold : old <+: q
  · exact .inr hold
  · have hnew : ¬ new <+: q := fun hpre ↦ by
      simp [find_eq_none_below (of_rename h).2.1 hpre] at hq
    exact .inl (by rwa [find_rename h, if_neg hnew, if_neg hold])

theorem moveBack {backup newAbs : FsPath}
    (ht : (c.thread t).stage = .restoring backup newAbs) {ok : Bool}
    (hunseen : ok = true → Unseen c backup) :
    NamespaceInv ⟨(c.shared.moveBack backup newAbs ok).release.1,
      update c.thread t (c.shared.moveBack backup newAbs ok).release.2⟩ := by
  have hheld : HeldClean c t := by constructor <;> simp [ht, Stage.Stale]
  have hsame := hc.of_release hheld
  unfold Namespace.moveBack
  split
  · next fs hfs =>
    have hunseen := hunseen rfl
    exact hc.of_change none hheld.locked hheld.clean
      (fun e he _ h ↦ .inl ((find_of_rename hfs h).resolve_right (hunseen.1 e he)))
      (fun q inode hq h ↦ .inl ((find_of_rename hfs h).resolve_right (hunseen.2 q inode hq))) rfl
      trivial (hc.lock_release hheld.locked)
  · exact hsame

theorem setAside {old existing : Nat} (ht : (c.thread t).stage = .resolved old)
    (hlook : (c.thread t).look = .present dir name existing) {noReplace : Bool}
    (h : c.shared.setAside old dir name existing noReplace err = some (s, k)) :
    NamespaceInv ⟨s, update c.thread t k⟩ := by
  have hheld : HeldClean c t := by constructor <;> simp [ht, Stage.Stale]
  have hstage := hc.stage t
  rw [StageOk, ht] at hstage
  obtain ⟨⟨hold, hagrees⟩, hpresent⟩ := hstage
  have hexisting := hpresent dir name existing hlook
  have hbound := hc.look t
  rw [hlook] at hbound
  obtain ⟨oldPath, hoPath, h⟩ := bind_eq_some_iff.mp h
  obtain ⟨newAbs, hnewAbs, h⟩ := bind_eq_some_iff.mp h
  obtain ⟨existingPath, hePath, h⟩ := map_eq_some_iff.mp h
  obtain ⟨q, hq, rfl⟩ := map_eq_some_iff.mp hnewAbs
  replace hoPath := hasPath_of_currentAbsPath hoPath
  replace hePath := hasPath_of_currentAbsPath hePath
  simp only at h
  split_ifs at h with hguard
  · obtain ⟨rfl, rfl⟩ := Prod.mk.inj h
    exact hc.of_release hheld
  split at h
  · obtain ⟨rfl, rfl⟩ := Prod.mk.inj h
    exact hc.of_release hheld
  next fs hfs =>
  obtain ⟨rfl, rfl⟩ := Prod.mk.inj h
  have hreplace : c.shared.mayReplace (c.shared.dcache.dentry old).inode
      (c.shared.dcache.dentry existing).inode existingPath = true := by
    by_contra hnot
    exact hguard (by simp [hnot])
  simp only [Namespace.mayReplace, Bool.and_eq_true, Bool.or_eq_true, decide_eq_true_eq] at hreplace
  -- an ancestor of the source would be a directory that is not empty
  have hapart : ¬ existingPath <+: oldPath := by
    intro hpre
    have hfind := hagrees oldPath hoPath
    by_cases heq : existingPath = oldPath
    · subst heq
      have := (hexisting _ hePath).symm.trans hfind
      exact hreplace.1.2 (by rw [some.inj this])
    obtain ⟨j, hj, hty⟩ := isDirectory_iff.mp (isDirectory_above hfind hpre heq)
    have hdirectory : (c.shared.dcache.dentry existing).inode.ty = .directory := by
      rw [← some.inj (hj.symm.trans (hexisting _ hePath))]
      exact hty
    have hempty := hreplace.2.resolve_left (by simp [hdirectory])
    have := find_of_isEmpty hempty hpre (Ne.symm heq)
    rw [hfind] at this
    simp at this
  refine hc.of_first_change hheld (fun q inode ↦ find_of_rename hfs) rfl
    ⟨hold, hbound.1, ?_, ?_, ?_⟩
  · intro q' hq'
    obtain rfl := hoPath.unique hq'
    exact (find_of_rename hfs (hagrees _ hoPath)).resolve_right hapart
  · exact ⟨q, hasPath_of_currentAbsPath hq, rfl⟩
  · intro b hb
    obtain rfl := some.inj hb
    rw [find_rename hfs, if_pos prefix_rfl, drop_length, append_nil]
    exact (of_rename hfs).1

theorem noTarget {old : Nat} {e : Errno}
    (ht : (c.thread t).stage = .resolved old) (hlook : (c.thread t).look = .failed dir name e)
    (h : c.shared.noTarget old dir name = some (s, k)) : NamespaceInv ⟨s, update c.thread t k⟩ := by
  have hheld : HeldClean c t := by constructor <;> simp [ht, Stage.Stale]
  have hstage := hc.stage t
  rw [StageOk, ht] at hstage
  have hbound := hc.look t
  rw [hlook] at hbound
  obtain ⟨oldPath, -, h⟩ := bind_eq_some_iff.mp h
  obtain ⟨newAbs, hnewAbs, h⟩ := map_eq_some_iff.mp h
  obtain ⟨q, hq, rfl⟩ := map_eq_some_iff.mp hnewAbs
  split_ifs at h
  · obtain ⟨rfl, rfl⟩ := Prod.mk.inj h
    exact hc.of_local c.shared.mutation hheld.clean trivial (by simp)
      ⟨hstage.1.1, hbound, hstage.1.2, ⟨q, hasPath_of_currentAbsPath hq, rfl⟩, by simp⟩
      (hc.lock_keep fun _ ↦ hheld.locked)
  · obtain ⟨rfl, rfl⟩ := Prod.mk.inj h
    exact hc.of_release hheld

theorem renameFailed (ht : (c.thread t).stage = .ready r) :
    NamespaceInv ⟨(c.shared.renameFailed r).1, update c.thread t (c.shared.renameFailed r).2⟩ := by
  have hheld : HeldClean c t := by constructor <;> simp [ht, Stage.Stale]
  unfold Namespace.renameFailed
  split
  · exact hc.of_release hheld
  · exact hc.of_local c.shared.mutation hheld.clean trivial (by simp) trivial
      (hc.lock_keep fun _ ↦ hheld.locked)

theorem rename (ht : (c.thread t).stage = .ready r) (h : c.shared.rename r err = some (s, k)) :
    NamespaceInv ⟨s, update c.thread t k⟩ := by
  have hheld : HeldClean c t := by constructor <;> simp [ht, Stage.Stale]
  have hbefore := hc.stage t
  rw [StageOk, ht] at hbefore
  unfold Namespace.rename at h
  split_ifs at h
  · obtain ⟨rfl, rfl⟩ := of_taken h
    exact hc.renameFailed ht
  obtain ⟨oldPath, hoPath, heq⟩ := map_eq_some_iff.mp h
  replace hoPath := hasPath_of_currentAbsPath hoPath
  split at heq
  · obtain ⟨rfl, rfl⟩ := Prod.mk.inj heq
    exact hc.renameFailed ht
  next fs hfs =>
  obtain ⟨rfl, rfl⟩ := Prod.mk.inj heq
  obtain ⟨-, hfree, -, hapart⟩ := of_rename hfs
  have hkeep : ∀ q inode, c.shared.lower.find q = some inode → fs.find q = some inode ∨
      ∃ p, HasPath c.shared.dcache.dentry r.old p ∧ p <+: q :=
    fun q inode hq ↦ (find_of_rename hfs hq).imp_right fun hpre ↦ ⟨oldPath, hoPath, hpre⟩
  have hnot : ¬ r.newAbs <+: oldPath := fun hpre ↦ by
    have hnone := find_eq_none_below hfree hpre
    rw [hbefore.agrees oldPath hoPath] at hnone
    simp at hnone
  refine hc.of_first_change hheld hkeep rfl
    ⟨oldPath, hbefore.old, hbefore.dir, hoPath, hbefore.newAbs, hapart, ?_, ?_, fun hb ↦ ?_⟩
  · rw [find_rename hfs, if_neg hnot, if_pos prefix_rfl]
  · rw [find_rename hfs, if_pos prefix_rfl, drop_length, append_nil]
    exact hbefore.agrees oldPath hoPath
  · simpa [hfree] using hbefore.backup _ hb

theorem of_section {a : NamespaceAction} (hok : Settles c (t, a))
    (h : namespaceSection t a c.shared (c.thread t) = some (s, k)) :
    NamespaceInv ⟨s, update c.thread t k⟩ := by
  have hstage := hc.stage t
  have hlook := hc.look t
  unfold StageOk at hstage
  revert h
  fun_cases namespaceSection t a c.shared (c.thread t) with
  | case1 _ _ hup | case3 _ hup | case5 _ hup => exact hc.lookupSection hup
  | case7 hst hguard =>
    -- lock
    rintro ⟨⟩
    have hfree : c.shared.mutation = none := by
      simpa using (Bool.and_eq_true_iff.mp hguard).2
    refine hc.of_local (some t) (by simp [hst, Stage.Stale]) trivial (by simp) (by simp [StageOk])
      ((forall_update_iff _ fun u (l : Call) ↦ l.stage ≠ .unlocked → _ = some u).mpr
        ⟨fun _ ↦ rfl, fun u _ hu ↦ ?_⟩)
    have := hc.lock u hu
    simp [hfree] at this
  | case9 hst | case11 _ hst =>
    rintro ⟨⟩
    exact hc.of_release ⟨by simp [hst], by simp [hst, Stage.Stale]⟩
  | case13 _ _ _ _ _ _ hst => exact hc.unlink hst
  | case14 p hst =>
    -- the removal from the cache after an unlink
    rintro ⟨⟩
    exact hc.of_clear none (by simp [hst]) (by simp [hst, Stage.Stale]) hok rfl trivial
      (hc.lock_release (by simp [hst]))
  | case15 _ _ _ _ hl hst =>
    rw [hl] at hlook
    exact hc.create hst hlook
  | case16 victim dir name inode hst =>
    intro h
    obtain ⟨p, hp, h⟩ := bind_eq_some_iff.mp h
    obtain ⟨s', hs', heq⟩ := map_eq_some_iff.mp h
    obtain ⟨rfl, rfl⟩ := Prod.mk.inj heq
    exact hc.publish hst hp hs'
  | case17 ok dir name inode hst =>
    -- the creation is taken back
    intro h
    obtain ⟨p, hp, heq⟩ := map_eq_some_iff.mp h
    obtain ⟨q, hq, rfl⟩ := map_eq_some_iff.mp hp
    obtain ⟨rfl, rfl⟩ := Prod.mk.inj heq
    refine hc.takeBack (by simp [hst]) none (by simp [hst, Stage.Stale]) ?_ rfl
      (fun _ _ _ ↦ trivial) (hc.lock_release (by simp [hst]))
    rintro rfl
    simp only [Settles, hst] at hok
    exact hok q (hasPath_of_currentAbsPath hq)
  | case18 _ _ d hl hst =>
    rintro ⟨⟩
    rw [hst] at hstage
    rw [hl] at hlook
    exact hc.of_local c.shared.mutation (by simp [hst, Stage.Stale]) trivial (by simp)
      ⟨⟨hlook.2, hstage _ _ d hl⟩, by simp⟩ (hc.lock_keep (by simp [hst]))
  | case19 _ _ _ _ _ _ hl hst => exact hc.setAside hst hl
  | case20 _ _ _ _ hl hst => exact hc.noTarget hst hl
  | case21 r p hst =>
    -- the removal of the target's dentries
    rintro ⟨⟩
    rw [hst] at hstage
    exact hc.of_clear _ (by simp [hst]) (by simp [hst, Stage.Stale]) hok rfl hstage
      (hc.lock_keep (by simp [hst]))
  | case22 _ _ hst => exact hc.rename hst
  | case23 ok backup newAbs hst =>
    rintro ⟨⟩
    refine hc.moveBack hst ?_
    rintro rfl
    simpa only [Settles, hst] using hok
  | case24 ok r hst =>
    -- the removal of the backup
    intro h
    obtain ⟨backup, hbackup, heq⟩ := map_eq_some_iff.mp h
    obtain ⟨rfl, rfl⟩ := Prod.mk.inj heq
    rw [hst] at hstage
    obtain ⟨oldPath, hafter⟩ := hstage
    have hm : (c.shared.takeBack backup ok).mutation = c.shared.mutation := by
      unfold Namespace.takeBack
      split <;> rfl
    suffices hinv : NamespaceInv
        ⟨{ c.shared.takeBack backup ok with mutation := c.shared.mutation }, _⟩ by
      rwa [← hm] at hinv
    refine hc.takeBack (by simp [hst]) _ (fun q hq ↦ by rwa [hst] at hq) ?_ rfl
      (fun fs hsame hnone ↦ ⟨oldPath, hafter.old, hafter.dir, hafter.path, hafter.newAbs,
        hafter.apart, hnone _ hafter.gone, ?_, by simp⟩) (hc.lock_keep (by simp [hst]))
    · rintro rfl
      simp only [Settles, hst] at hok
      exact hok backup hbackup
    · rw [hsame]
      · exact hafter.moved
      · rintro rfl
        exact hafter.backup hbackup
  | case26 r hst =>
    -- the removal of the dentries below the old path
    intro h
    obtain ⟨p, hp, heq⟩ := map_eq_some_iff.mp h
    obtain ⟨rfl, rfl⟩ := Prod.mk.inj heq
    rw [hst] at hstage
    refine hc.of_clear _ (by simp [hst]) (fun q hq ↦ ?_) hok rfl hstage
      (hc.lock_keep (by simp [hst]))
    rw [hst] at hq
    obtain ⟨p', hp', hpre⟩ := hq
    rwa [(hasPath_of_currentAbsPath hp).unique hp']
  | case27 r hst =>
    rintro ⟨⟩
    have hstale : ∀ q, ¬ (c.thread t).stage.Stale c.shared.dcache.dentry q := by
      simp [hst, Stage.Stale]
    rw [hst] at hstage
    exact hc.of_clear _ (by simp [hst]) (fun q hq ↦ absurd hq (hstale q))
      (fun q inode hq ↦ (hc.flight q inode hq).resolve_right
        (hc.settled (by simp [hst]) (hstale q))) rfl hstage (hc.lock_keep (by simp [hst]))
  | case28 r hst =>
    rintro ⟨⟩
    exact hc.of_relocate hst
  | case29 victim r hst =>
    -- the renamed dentry is cached under its new path
    intro h
    obtain ⟨dc, hdc, heq⟩ := map_eq_some_iff.mp h
    obtain ⟨rfl, rfl⟩ := Prod.mk.inj heq
    rw [hst] at hstage
    obtain ⟨hold, hpath, hfind⟩ := hstage
    obtain ⟨hdentry, hnext, p, hp, hmem⟩ := of_insertDentryCache hdc
    obtain rfl := (hasPath_of_currentAbsPath hp).unique hpath
    refine hc.of_insert none (by simp [hst, Stage.Stale])
      ⟨hnext.ge, fun d _ ↦ by rw [hdentry]⟩ ⟨by rw [hdentry, hnext]; exact hc.bounded.parent, ?_⟩ hmem
      (by rwa [hdentry]) (.inl (by rwa [hdentry])) trivial rfl trivial
      (hc.lock_release (by simp [hst]))
    intro e he
    rw [hnext]
    rcases hmem e he with rfl | he
    · exact hold
    · exact hc.bounded.cached e he
  | _ => exact nofun

end NamespaceInv

theorem NamespaceInit.inv (hc : NamespaceInit c) : NamespaceInv c where
  bounded := hc.bounded
  path := hc.path
  cached e he := .inl (hc.cached e he)
  flight p inode h := by
    obtain ⟨t, dir, name, absPath, q, ht, -⟩ := h
    simp [hc.thread] at ht
  look t := by
    rw [hc.thread]
    trivial
  stage t := by
    rw [hc.thread]
    trivial
  lock t ht := by simp [hc.thread] at ht

theorem namespaceInv_of_run (hrun : Run NamespaceInit Settles (Config.Step namespaceSection) c) :
    NamespaceInv c := by
  refine hrun.invariant (fun c hc ↦ hc.inv) ?_
  rintro c ⟨t, a⟩ c' hc hok hstep
  obtain ⟨s, k, hsec, rfl⟩ := step_iff.mp hstep
  exact hc.of_section hok hsec

end Steps

/-! ### A lookup that is overtaken by an unlink -/

def twoFiles : LowerTree where
  entries := [([], { ino := 2, ty := .directory }), ([[97]], { ino := 11, ty := .regular }),
    ([[98]], { ino := 12, ty := .regular })]
  nodup := by decide
  parent := by decide

def rootDcache : Dcache where
  dentry _ := { absPath := [], inode := { ino := 2, ty := .directory } }
  nextDentry := 1
  cache := [([], 0)]

def twoFilesState : Config Namespace Call :=
  ⟨{ dcache := rootDcache, lower := twoFiles }, fun _ ↦ {}⟩

theorem init_twoFilesState : NamespaceInit twoFilesState where
  bounded := ⟨by simp [twoFilesState, rootDcache], by simp [twoFilesState, rootDcache]⟩
  mutation := rfl
  thread _ := rfl
  path := by
    simp only [twoFilesState, rootDcache, mem_singleton, forall_eq]
    exact .top rfl
  cached := by
    decide

/-- Thread 0 looks `/a` up and has found it; thread 1 unlinks `/a`; thread 0 goes on. -/
def unlinkDuringLookup : List (Nat × NamespaceAction) :=
  [(0, .lookup 0 [97]), (0, .readLower none), (1, .lock), (1, .lookup 0 [97]), (1, .readLower none),
    (1, .insert none), (1, .unlink false none), (1, .removeTree), (0, .insert none)]

/-- Thread 0 has found `/b` when thread 1 is about to clear the cache of `/a`. -/
def unlinkBeside : List (Nat × NamespaceAction) :=
  [(0, .lookup 0 [98]), (0, .readLower none), (1, .lock), (1, .lookup 0 [97]), (1, .readLower none),
    (1, .insert none), (1, .unlink false none)]

theorem settles_unlinkBeside {c : Config Namespace Call}
    (hc : twoFilesState.runLabels namespaceSection unlinkBeside = some c) :
    Settles c (1, .removeTree) := by
  have hlook : (twoFilesState.runLabels namespaceSection unlinkBeside).map
      (fun c ↦ ((c.thread 0).look, (c.thread 1).look, c.shared.lower.find [[98]])) =
      some (.found 0 [98] [[98]] { ino := 12, ty := .regular }, .none,
        some { ino := 12, ty := .regular }) := by
    decide +kernel
  have hroot : (twoFilesState.runLabels namespaceSection unlinkBeside).map
      (fun c ↦ ((c.shared.dcache.dentry 0).parent, (c.shared.dcache.dentry 0).ownPath)) =
      some (none, []) := by
    decide +kernel
  rw [hc] at hlook hroot
  simp only [map_some, some.injEq, Prod.mk.injEq] at hlook hroot
  rintro p inode ⟨t, dir, name, absPath, q, ht, hq, rfl⟩
  rcases t with _ | _ | t
  · obtain ⟨rfl, rfl, -, rfl⟩ := Lookup.found.inj (hlook.1.symm.trans ht)
    obtain rfl := hq.unique (.top hroot.1)
    rw [hroot.2]
    exact hlook.2.2
  · simp [hlook.2.1] at ht
  · rw [thread_of_runLabels (by simp [unlinkBeside]) hc] at ht
    cases ht

/-- In such a run, also while calls are under way, the cache has each dentry under its current path, and
one thread at most is past taking the mutation lock. -/
theorem cacheKeys_of_run {c : Config Namespace Call}
    (hrun : Run NamespaceInit Settles (Config.Step namespaceSection) c) :
    (∀ e ∈ c.shared.dcache.cache, c.shared.dcache.currentAbsPath e.2 = some e.1) ∧
      ∀ t u, (c.thread t).stage ≠ .unlocked → (c.thread u).stage ≠ .unlocked → t = u := by
  have hc := namespaceInv_of_run hrun
  refine ⟨fun e he ↦ ?_, fun t u ht hu ↦ ?_⟩
  · exact (Dcache.currentAbsPath_eq_some_iff hc.bounded (hc.bounded.cached e he)).mpr (hc.path e he)
  · exact some.inj ((hc.lock t ht).symm.trans (hc.lock u hu))

/-- Thread 1 has the mutation lock, and thread 0 does not; a dentry is cached under its path. -/
theorem cacheKeys_during_unlink : ∃ c, Run NamespaceInit Settles (Config.Step namespaceSection) c ∧
    (c.thread 1).stage ≠ .unlocked ∧ (∀ t, (c.thread t).stage ≠ .unlocked → t = 1) ∧
      ∃ e ∈ c.shared.dcache.cache, c.shared.dcache.currentAbsPath e.2 = some e.1 := by
  obtain ⟨c, hc⟩ : ∃ c, twoFilesState.runLabels namespaceSection unlinkBeside = some c := ⟨_, rfl⟩
  have hrun : Run NamespaceInit Settles (Config.Step namespaceSection) c :=
    run_of_forall_ok (by simp [unlinkBeside, Settles]) (.start init_twoFilesState) hc
  obtain ⟨hstage, e, rest, he⟩ : (c.thread 1).stage ≠ .unlocked ∧
      ∃ e rest, c.shared.dcache.cache = e :: rest := by
    obtain rfl := some.inj hc
    exact ⟨by rintro ⟨⟩, _, _, rfl⟩
  obtain ⟨hkeys, hone⟩ := cacheKeys_of_run hrun
  have hmem := he ▸ mem_cons_self
  exact ⟨c, hrun, hstage, fun t ht ↦ hone t 1 ht hstage, e, hmem, hkeys e hmem⟩

end RespOS.Fs
