import RespOS.Base
import RespOS.Basis.Runs

/-!
# The mount tree

A mount knows its parent and its children, and the mount table lists all mounts. `do_mount` adds a mount
below the one that holds the target, `do_umount2` removes a mount with everything below it, and `MS_MOVE`
makes a new mount of the same file system at the target and removes the old one with everything below it.

The last is wrong in two ways: the mounts nested in the moved one are not taken along, and a target
inside the moved mount leaves the new mount with a parent that is not in the table
(`moved_into_itself`). `wellFormed_of_run` proves that the tree is well formed in the other runs
(`Movable`).

Dentries, `VfsMount`s and `Mount`s are numbered as they are made. The lookups of paths are outside: a
request carries what they return. `remove_mount_tree_inner` recurses over the children; a child is younger
than its parent, so the number of mounts made since bounds the depth.
-/

namespace RespOS.Fs

open RespOS.Basis
open Function (update update_of_ne update_self)
open List Option Nat

structure Path where
  mnt : Nat
  dentry : Nat
  deriving DecidableEq

/-- `Mount`, without its children. -/
structure Mount where
  mountpoint : Nat
  vfsMount : Nat
  parent : Option Nat

/-- `MountTree`, and all mounts that have been made. -/
structure MountTree where
  mountTable : List Nat
  mount : Nat → Mount
  children : Nat → List Nat
  expireAttempts : Nat → Nat
  /-- The root of a `VfsMount`. -/
  vfsRoot : Nat → Nat
  nextMount : Nat
  nextVfs : Nat

inductive FsType
  | tmpfs
  | block
  | unsupported
  deriving DecidableEq

/-- A call of `do_mount`, with what the lookups, the sync of a remount and the creation of a backing root
return. -/
structure MountRequest where
  target : Except Errno Path
  targetIsDirectory : Bool := true
  remount : Bool := false
  rdonly : Bool := false
  propagation : Bool := false
  move : Bool := false
  bind : Bool := false
  fstype : FsType := .tmpfs
  /-- `filename_lookup_no_follow_final_mount` of the source. -/
  sourceMountpoint : Except Errno Path := .error .ENOENT
  /-- `filename_lookup` of the source. -/
  source : Except Errno Path := .error .ENOENT
  sourceIsBlockDevice : Bool := false
  /-- `create_mount_backing_root`: the dentry of the new root. -/
  backingRoot : Except Errno Nat := .error .ENOSPC
  sync : Except Errno Unit := .ok ()

structure UmountRequest where
  validFlags : Bool := true
  detach : Bool := false
  expire : Bool := false
  /-- The check of `UMOUNT_NOFOLLOW`. -/
  noFollow : Except Errno Unit := .ok ()
  targetMountpoint : Except Errno Path
  target : Except Errno Path := .error .ENOENT
  sync : Except Errno Unit := .ok ()

namespace MountTree

variable (s : MountTree)

def getMountByDentry (dentry : Nat) : Option Nat :=
  s.mountTable.find? fun m ↦ (s.mount m).mountpoint = dentry

def getMountByVfsmount (vfs : Nat) : Option Nat :=
  s.mountTable.find? fun m ↦ (s.mount m).vfsMount = vfs

def lookupMountTarget (mountpoint target : Except Errno Path) : Except Errno Nat :=
  match mountpoint with
  | .error e => .error e
  | .ok p =>
    match s.getMountByDentry p.dentry with
    | some m => .ok m
    | none =>
      match target with
      | .error e => .error e
      | .ok p =>
        if p.dentry = s.vfsRoot p.mnt then
          match s.getMountByVfsmount p.mnt with
          | some m => .ok m
          | none => .error .EINVAL
        else .error .EINVAL

/-- A new mount, not yet in the table. -/
def allocate (mount : Mount) : MountTree :=
  { s with
    mount := update s.mount s.nextMount mount
    children := update s.children s.nextMount []
    expireAttempts := update s.expireAttempts s.nextMount 0
    nextMount := s.nextMount + 1 }

def addMount (m : Nat) : MountTree :=
  let s := match (s.mount m).parent with
    | some p => { s with children := update s.children p (s.children p ++ [m]) }
    | none => s
  { s with mountTable := s.mountTable ++ [m] }

/-- The end of `remove_mount_tree_inner`: the mount leaves the children of its parent and the table. -/
def detach (m : Nat) : MountTree :=
  let s := match (s.mount m).parent with
    | some p => { s with children := update s.children p ((s.children p).filter (· ≠ m)) }
    | none => s
  { s with mountTable := s.mountTable.filter (· ≠ m) }

/-- `remove_mount_tree_inner`, to a depth. -/
def removeMountTreeInner : Nat → MountTree → Nat → MountTree
  | 0, s, _ => s
  | depth + 1, s, m => ((s.children m).foldl (removeMountTreeInner depth) s).detach m

def removeMountTree (m : Nat) : MountTree := removeMountTreeInner (s.nextMount - m) s m

/-- A new file system with this root is mounted. -/
def mountNew (root dentry parent : Nat) : MountTree :=
  let n := s.nextMount
  let s := s.allocate { mountpoint := dentry, vfsMount := s.nextVfs, parent := some parent }
  let s := { s with vfsRoot := update s.vfsRoot s.nextVfs root, nextVfs := s.nextVfs + 1 }
  s.addMount n

def moveMount (source dentry parent : Nat) : MountTree :=
  let n := s.nextMount
  let s := s.allocate
    { mountpoint := dentry, vfsMount := (s.mount source).vfsMount, parent := some parent }
  (s.removeMountTree source).addMount n

/-- The mount that an `MS_MOVE` moves and the mount that holds its target. -/
def moveEnds (req : MountRequest) (target : Path) : Except Errno (Nat × Nat) :=
  match s.lookupMountTarget req.sourceMountpoint req.source with
  | .error e => .error e
  | .ok source =>
    match s.getMountByVfsmount target.mnt with
    | none => .error .EINVAL
    | some parent =>
      if (s.getMountByDentry target.dentry).isSome then .error .EBUSY else .ok (source, parent)

/-- The end of the other kinds of mount, once the root is known. -/
def finishMount (root : Except Errno Nat) (target : Path) : Outcome MountTree Unit :=
  match root with
  | .error e => .err e s
  | .ok root =>
    match s.getMountByVfsmount target.mnt with
    | none => .err .EINVAL s
    | some parent => .ok () (s.mountNew root target.dentry parent)

/-- `MS_REMOUNT` changes flags of the file system only. -/
def remount (req : MountRequest) (target : Path) : Outcome MountTree Unit :=
  match s.getMountByDentry target.dentry with
  | none => .err .EINVAL s
  | some _ =>
    if req.rdonly then .err .EBUSY s
    else match req.sync with
      | .error e => .err e s
      | .ok _ => .ok () s

/-- A block device with a supported file system. -/
def mountBlock (req : MountRequest) (target : Path) : Outcome MountTree Unit :=
  match req.source with
  | .error e => .err e s
  | .ok _ =>
    if !req.sourceIsBlockDevice then .err .ENOTBLK s else s.finishMount req.backingRoot target

def doMount (req : MountRequest) : Outcome MountTree Unit :=
  match req.target with
  | .error e => .err e s
  | .ok target =>
    if !req.targetIsDirectory then .err .ENOTDIR s
    else if req.remount then s.remount req target
    else if req.propagation then .ok () s
    else if req.move then
      match s.moveEnds req target with
      | .error e => .err e s
      | .ok (source, parent) => .ok () (s.moveMount source target.dentry parent)
    else if (s.getMountByDentry target.dentry).isSome then .err .EBUSY s
    else if req.bind then s.finishMount (req.source.map (·.dentry)) target
    else if req.fstype = .tmpfs then s.finishMount req.backingRoot target
    else if req.fstype ≠ .block then .err .ENODEV s
    else s.mountBlock req target

/-- `expire_attempts.fetch_add`. -/
def noteExpire (m : Nat) : MountTree :=
  { s with expireAttempts := update s.expireAttempts m (s.expireAttempts m + 1) }

/-- The file systems of the mount and below it are synced and the mount is removed. -/
def syncAndRemove (req : UmountRequest) (m : Nat) : Outcome MountTree Unit :=
  match req.sync with
  | .error e => .err e s
  | .ok _ => .ok () (s.removeMountTree m)

def doUmount2 (req : UmountRequest) : Outcome MountTree Unit :=
  if !req.validFlags then .err .EINVAL s else
  match req.noFollow with
  | .error e => .err e s
  | .ok _ =>
    match s.lookupMountTarget req.targetMountpoint req.target with
    | .error e => .err e s
    | .ok m =>
      if (s.mount m).parent = none then .err .EBUSY s
      else if !req.detach && !(s.children m).isEmpty then .err .EBUSY s
      else if req.expire then
        if s.expireAttempts m < 2 then .err .EAGAIN (s.noteExpire m)
        else (s.noteExpire m).syncAndRemove req m
      else s.syncAndRemove req m

end MountTree

inductive MountCall
  | mount (req : MountRequest)
  | umount (req : UmountRequest)

namespace MountTree

/-- The tree after a call, whether it succeeds or not. -/
def next (s : MountTree) : MountCall → Option MountTree
  | .mount req => (s.doMount req).state?
  | .umount req => (s.doUmount2 req).state?

def Step (s : MountTree) (call : MountCall) (s' : MountTree) : Prop := s.next call = some s'

def ParentOf (s : MountTree) (m p : Nat) : Prop := (s.mount m).parent = some p

/-- The first mount is nested below the second. -/
def Below (s : MountTree) : Nat → Nat → Prop := Relation.TransGen s.ParentOf

/-- The mount is in the table, and so is everything above it, up to a mount without a parent. -/
def Reachable (s : MountTree) (m : Nat) : Prop :=
  ∃ root, (s.mount root).parent = none ∧ root ∈ s.mountTable ∧
    Relation.ReflTransGen (fun m p ↦ m ∈ s.mountTable ∧ s.ParentOf m p) m root

structure WellFormed (s : MountTree) : Prop where
  parent : ∀ m ∈ s.mountTable, ∀ p, (s.mount m).parent = some p →
    p ∈ s.mountTable ∧ (s.children p).count m = 1
  children : ∀ m ∈ s.mountTable, ∀ c ∈ s.children m, c ∈ s.mountTable
  acyclic : ∀ m ∈ s.mountTable, ¬ s.Below m m
  mountpoints : ∀ m ∈ s.mountTable, ∀ m' ∈ s.mountTable,
    (s.mount m).mountpoint = (s.mount m').mountpoint → m = m'

/-- What was nested below the mount that is moved is reachable afterwards. -/
def KeepsNested (s : MountTree) (req : MountRequest) (s' : MountTree) : Prop :=
  ∀ target source parent, req.target = .ok target → s.moveEnds req target = .ok (source, parent) →
    ∀ m ∈ s.mountTable, s.Below m source → ∃ m' ∈ s'.mountTable,
      (s'.mount m').vfsMount = (s.mount m).vfsMount ∧ s'.Reachable m'

/-- The condition: an `MS_MOVE` moves a mount without children, and not into itself. -/
def Movable (s : MountTree) : MountCall → Prop
  | .mount req => req.move = true → ∀ target source parent, req.target = .ok target →
      s.moveEnds req target = .ok (source, parent) → s.children source = [] ∧ parent ≠ source
  | .umount _ => True

structure Init (s : MountTree) : Prop where
  table : s.mountTable = [0]
  root : (s.mount 0).parent = none
  children : s.children 0 = []
  nextMount : s.nextMount = 1
  vfs : (s.mount 0).vfsMount < s.nextVfs

/-! ### The invariant -/

/-- What holds of every tree that a run reaches: a mount is younger than its parent, and a parent and its
children know each other. -/
structure Ok (s : MountTree) : Prop where
  fresh : ∀ m ∈ s.mountTable, m < s.nextMount
  freshVfs : ∀ m ∈ s.mountTable, (s.mount m).vfsMount < s.nextVfs
  younger : ∀ m ∈ s.mountTable, ∀ p, (s.mount m).parent = some p → p < m
  parent : ∀ m ∈ s.mountTable, ∀ p, (s.mount m).parent = some p →
    p ∈ s.mountTable ∧ (s.children p).count m = 1
  child : ∀ m ∈ s.mountTable, ∀ c ∈ s.children m, c ∈ s.mountTable ∧ (s.mount c).parent = some m
  mountpoints : ∀ m ∈ s.mountTable, ∀ m' ∈ s.mountTable,
    (s.mount m).mountpoint = (s.mount m').mountpoint → m = m'
  vfs : ∀ m ∈ s.mountTable, ∀ m' ∈ s.mountTable,
    (s.mount m).vfsMount = (s.mount m').vfsMount → m = m'
  root : ∃ r ∈ s.mountTable, (s.mount r).parent = none ∧
    ∀ m ∈ s.mountTable, (s.mount m).parent = none → m = r

section Steps

variable {s s' : MountTree} {m p : Nat}

variable {dentry parent : Nat} {req : MountRequest} {target : Path}

theorem getMountByDentry_eq_some (h : s.getMountByDentry dentry = some m) :
    m ∈ s.mountTable ∧ (s.mount m).mountpoint = dentry :=
  ⟨mem_of_find?_eq_some h, by simpa using find?_some h⟩

theorem mountpoint_ne_of_free (h : ¬ (s.getMountByDentry dentry).isSome = true)
    (hm : m ∈ s.mountTable) : (s.mount m).mountpoint ≠ dentry := by
  have hnone : s.getMountByDentry dentry = none := by simpa using h
  simpa using find?_eq_none.mp hnone m hm

theorem lookupMountTarget_eq_ok {mountpoint target : Except Errno Path}
    (h : s.lookupMountTarget mountpoint target = .ok m) : m ∈ s.mountTable := by
  revert h
  fun_cases s.lookupMountTarget mountpoint target with
  | case2 =>
    rintro ⟨⟩
    exact (getMountByDentry_eq_some ‹_›).1
  | case4 =>
    rintro ⟨⟩
    exact mem_of_find?_eq_some ‹_›
  | _ => exact nofun

theorem moveEnds_eq_ok {source : Nat} (h : s.moveEnds req target = .ok (source, parent)) :
    source ∈ s.mountTable ∧ parent ∈ s.mountTable ∧
      ∀ m ∈ s.mountTable, (s.mount m).mountpoint ≠ target.dentry := by
  revert h
  fun_cases s.moveEnds req target with
  | case4 _ hfound _ hholder hbusy =>
    rintro ⟨⟩
    exact ⟨lookupMountTarget_eq_ok hfound, mem_of_find?_eq_some hholder,
      fun m hm ↦ mountpoint_ne_of_free hbusy hm⟩
  | _ => exact nofun

theorem detach_eq (hp : (s.mount m).parent = some p) : s.detach m = { s with
      children := update s.children p ((s.children p).filter (· ≠ m))
      mountTable := s.mountTable.filter (· ≠ m) } := by
  simp only [MountTree.detach, hp]

theorem mem_detach (hp : (s.mount m).parent = some p) (x : Nat) :
    x ∈ (s.detach m).mountTable ↔ x ∈ s.mountTable ∧ x ≠ m := by
  rw [detach_eq hp]
  simp

theorem Ok.detach (hs : s.Ok) (hm : m ∈ s.mountTable) (hp : (s.mount m).parent = some p)
    (hleaf : s.children m = []) : (s.detach m).Ok := by
  have hmem : ∀ x, x ∈ s.mountTable.filter (· ≠ m) ↔ x ∈ s.mountTable ∧ x ≠ m := fun x ↦ by simp
  have hchild : ∀ q x, x ∈ update s.children p ((s.children p).filter (· ≠ m)) q →
      x ∈ s.children q := fun q x hx ↦ by
    by_cases hq : q = p
    · subst hq
      rw [update_self] at hx
      exact mem_of_mem_filter hx
    · rwa [update_of_ne hq] at hx
  rw [detach_eq hp]
  refine ⟨fun x hx ↦ hs.fresh x ((hmem x).mp hx).1, fun x hx ↦ hs.freshVfs x ((hmem x).mp hx).1,
    fun x hx ↦ hs.younger x ((hmem x).mp hx).1, fun x hx q hq ↦ ?_, fun x hx c hc ↦ ?_,
    fun x hx y hy ↦ hs.mountpoints x ((hmem x).mp hx).1 y ((hmem y).mp hy).1,
    fun x hx y hy ↦ hs.vfs x ((hmem x).mp hx).1 y ((hmem y).mp hy).1, ?_⟩
  · obtain ⟨hxt, hxm⟩ := (hmem x).mp hx
    obtain ⟨hqt, hcount⟩ := hs.parent x hxt q hq
    have hqm : q ≠ m := by
      rintro rfl
      rw [hleaf] at hcount
      simp at hcount
    refine ⟨(hmem q).mpr ⟨hqt, hqm⟩, ?_⟩
    by_cases hqp : q = p
    · subst hqp
      simp only [update_self]
      rw [count_filter (by simpa using hxm)]
      exact hcount
    · simpa [update_of_ne hqp] using hcount
  · obtain ⟨hxt, hxm⟩ := (hmem x).mp hx
    obtain ⟨hct, hcp⟩ := hs.child x hxt c (hchild x c hc)
    refine ⟨(hmem c).mpr ⟨hct, ?_⟩, hcp⟩
    rintro rfl
    obtain rfl : x = p := some.inj (hcp.symm.trans hp)
    simp at hc
  · obtain ⟨r, hr, hnone, hroot⟩ := hs.root
    refine ⟨r, (hmem r).mpr ⟨hr, ?_⟩, hnone, fun x hx ↦ hroot x ((hmem x).mp hx).1⟩
    rintro rfl
    exact absurd (hnone.symm.trans hp) (by simp)

theorem Ok.allocate (hs : s.Ok) (mount : Mount) : (s.allocate mount).Ok := by
  have hne : ∀ x ∈ s.mountTable, x ≠ s.nextMount := fun x hx ↦ (hs.fresh x hx).ne
  have hmount : ∀ x ∈ s.mountTable, (s.allocate mount).mount x = s.mount x :=
    fun x hx ↦ update_of_ne (hne x hx) _ _
  have hchildren : ∀ x ∈ s.mountTable, (s.allocate mount).children x = s.children x :=
    fun x hx ↦ update_of_ne (hne x hx) _ _
  refine ⟨fun x hx ↦ lt_succ_of_lt (hs.fresh x hx), fun x hx ↦ ?_, fun x hx q hq ↦ ?_,
    fun x hx q hq ↦ ?_, fun x hx c hc ↦ ?_, fun x hx y hy hxy ↦ ?_, fun x hx y hy hxy ↦ ?_, ?_⟩
  · rw [hmount x hx]
    exact hs.freshVfs x hx
  · rw [hmount x hx] at hq
    exact hs.younger x hx q hq
  · rw [hmount x hx] at hq
    obtain ⟨hqt, hcount⟩ := hs.parent x hx q hq
    refine ⟨hqt, ?_⟩
    rwa [hchildren q hqt]
  · rw [hchildren x hx] at hc
    obtain ⟨hct, hcp⟩ := hs.child x hx c hc
    refine ⟨hct, ?_⟩
    rwa [hmount c hct]
  · rw [hmount x hx, hmount y hy] at hxy
    exact hs.mountpoints x hx y hy hxy
  · rw [hmount x hx, hmount y hy] at hxy
    exact hs.vfs x hx y hy hxy
  · obtain ⟨r, hr, hnone, hroot⟩ := hs.root
    refine ⟨r, hr, by rwa [hmount r hr], fun x hx hx' ↦ hroot x hx ?_⟩
    rwa [hmount x hx] at hx'

theorem Ok.addMount (hs : s.Ok) (hfresh : m < s.nextMount) (hnot : m ∉ s.mountTable)
    (hleaf : s.children m = []) (hparent : (s.mount m).parent = some p) (hp : p ∈ s.mountTable)
    (hlt : p < m) (hvfs : (s.mount m).vfsMount < s.nextVfs)
    (hpoint : ∀ x ∈ s.mountTable, (s.mount x).mountpoint ≠ (s.mount m).mountpoint)
    (hother : ∀ x ∈ s.mountTable, (s.mount x).vfsMount ≠ (s.mount m).vfsMount) :
    (s.addMount m).Ok := by
  have heq : s.addMount m = { s with
      children := update s.children p (s.children p ++ [m])
      mountTable := s.mountTable ++ [m] } := by
    simp only [MountTree.addMount, hparent]
  have hall : ∀ {P : Nat → Prop}, (∀ x ∈ s.mountTable, P x) → P m → ∀ x ∈ s.mountTable ++ [m], P x :=
    fun hold hnew ↦ forall_mem_append.mpr ⟨hold, forall_mem_singleton.mpr hnew⟩
  rw [heq]
  refine ⟨hall hs.fresh hfresh, hall hs.freshVfs hvfs, hall hs.younger fun q hq ↦ ?_,
    hall (fun x hxt q hq ↦ ?_) fun q hq ↦ ?_, fun x hx c hc ↦ ?_, ?_, ?_, ?_⟩
  · obtain rfl := some.inj (hparent.symm.trans hq)
    exact hlt
  · obtain ⟨hqt, hcount⟩ := hs.parent x hxt q hq
    refine ⟨mem_append_left _ hqt, ?_⟩
    by_cases hqp : q = p
    · subst hqp
      have hxm : x ≠ m := fun h ↦ hnot (h ▸ hxt)
      simpa [count_append, hxm.symm] using hcount
    · simpa [update_of_ne hqp] using hcount
  · obtain rfl := some.inj (hparent.symm.trans hq)
    refine ⟨mem_append_left _ hp, ?_⟩
    have hzero : (s.children p).count m = 0 :=
      count_eq_zero.mpr fun hx ↦ hnot (hs.child p hp m hx).1
    simp [hzero]
  · have hcm : c ∈ s.children x ∨ x = p ∧ c = m := by
      by_cases hxp : x = p
      · subst hxp
        simpa using hc
      · exact .inl (by simpa [update_of_ne hxp] using hc)
    obtain hold | ⟨rfl, rfl⟩ := hcm
    · have hxt : x ∈ s.mountTable := by
        obtain hx | hx := mem_append.mp hx
        · exact hx
        · rw [mem_singleton.mp hx, hleaf] at hold
          simp at hold
      obtain ⟨hct, hcp⟩ := hs.child x hxt c hold
      exact ⟨mem_append_left _ hct, hcp⟩
    · exact ⟨mem_append_right _ mem_cons_self, hparent⟩
  · exact hall (fun x hx ↦ hall (hs.mountpoints x hx) (absurd · (hpoint x hx)))
      (hall (fun y hy hxy ↦ absurd hxy.symm (hpoint y hy)) fun _ ↦ rfl)
  · exact hall (fun x hx ↦ hall (hs.vfs x hx) (absurd · (hother x hx)))
      (hall (fun y hy hxy ↦ absurd hxy.symm (hother y hy)) fun _ ↦ rfl)
  · obtain ⟨r, hr, hnone, hroot⟩ := hs.root
    exact ⟨r, mem_append_left _ hr, hnone,
      hall hroot fun hx ↦ absurd (hx.symm.trans hparent) (by simp)⟩

/-- What the removal of a mount with everything below it leaves. -/
structure Removes (s s' : MountTree) (m : Nat) : Prop where
  ok : s'.Ok
  mount : s'.mount = s.mount
  nextMount : s'.nextMount = s.nextMount
  gone : m ∉ s'.mountTable
  subset : ∀ x ∈ s'.mountTable, x ∈ s.mountTable
  older : ∀ x ∈ s.mountTable, x < m → x ∈ s'.mountTable
  children : ∀ q ∈ s.mountTable, q < m → s'.children q = (s.children q).filter (· ≠ m)

theorem Removes.of_detach (hs : s.Ok) (hm : m ∈ s.mountTable) (hp : (s.mount m).parent = some p)
    (hleaf : s.children m = []) : Removes s (s.detach m) m := by
  have hmem := mem_detach hp
  refine ⟨hs.detach hm hp hleaf, by rw [detach_eq hp], by rw [detach_eq hp],
    fun h ↦ ((hmem m).mp h).2 rfl, fun x hx ↦ ((hmem x).mp hx).1,
    fun x hx hlt ↦ (hmem x).mpr ⟨hx, hlt.ne⟩, fun q hq _ ↦ ?_⟩
  by_cases hqp : q = p
  · subst hqp
    rw [detach_eq hp]
    exact update_self _ _ _
  · have hnot : m ∉ s.children q := fun h ↦ hqp (some.inj ((hs.child q hq m h).2.symm.trans hp))
    have hfilter : (s.children q).filter (· ≠ m) = s.children q :=
      filter_eq_self.mpr fun x hx ↦ by simpa using fun h : x = m ↦ hnot (h ▸ hx)
    rw [hfilter, detach_eq hp]
    exact update_of_ne hqp _ _

/-- What the removal of everything below a mount leaves. -/
structure Empties (s s' : MountTree) (m : Nat) : Prop where
  ok : s'.Ok
  mount : s'.mount = s.mount
  nextMount : s'.nextMount = s.nextMount
  leaf : s'.children m = []
  subset : ∀ x ∈ s'.mountTable, x ∈ s.mountTable
  older : ∀ x ∈ s.mountTable, x ≤ m → x ∈ s'.mountTable
  children : ∀ q ∈ s.mountTable, q < m → s'.children q = s.children q

theorem removes_children {depth : Nat}
    (ih : ∀ (s : MountTree) (c p : Nat), s.Ok → c ∈ s.mountTable → (s.mount c).parent = some p →
      s.nextMount - c ≤ depth → Removes s (removeMountTreeInner depth s c) c)
    (cs : List Nat) (hs : s.Ok) (hm : m ∈ s.mountTable) (hcs : s.children m = cs)
    (hdepth : s.nextMount - m ≤ depth + 1) :
    Empties s (cs.foldl (removeMountTreeInner depth) s) m := by
  induction cs generalizing s with
  | nil => exact ⟨hs, rfl, rfl, hcs, fun _ ↦ id, fun _ hx _ ↦ hx, fun _ _ _ ↦ rfl⟩
  | cons c cs ihcs =>
    obtain ⟨hct, hcp⟩ := hs.child m hm c (by simp [hcs])
    have hlt := hs.younger c hct m hcp
    have hr := ih s c m hs hct hcp (by omega)
    have hcount := (hs.parent c hct m hcp).2
    rw [hcs, count_cons_self] at hcount
    have hnot : c ∉ cs := count_eq_zero.mp (by omega)
    have hrest : (removeMountTreeInner depth s c).children m = cs := by
      rw [hr.children m hm hlt, hcs, filter_cons_of_neg (by simp)]
      exact filter_eq_self.mpr fun x hx ↦ by simpa using fun h : x = c ↦ hnot (h ▸ hx)
    have hl := ihcs hr.ok (hr.older m hm hlt) hrest (by rw [hr.nextMount]; exact hdepth)
    refine ⟨hl.ok, hl.mount.trans hr.mount, hl.nextMount.trans hr.nextMount, hl.leaf,
      fun x hx ↦ hr.subset x (hl.subset x hx),
      fun x hx hle ↦ hl.older x (hr.older x hx (by omega)) hle, fun q hq hqm ↦ ?_⟩
    rw [foldl_cons, hl.children q (hr.older q hq (by omega)) hqm, hr.children q hq (by omega)]
    refine filter_eq_self.mpr fun x hx ↦ ?_
    have hxc : x ≠ c := by
      rintro rfl
      exact hqm.ne (some.inj ((hs.child q hq x hx).2.symm.trans hcp))
    simpa using hxc

theorem removes_inner (depth : Nat) : ∀ (s : MountTree) (m p : Nat), s.Ok → m ∈ s.mountTable →
    (s.mount m).parent = some p → s.nextMount - m ≤ depth →
    Removes s (removeMountTreeInner depth s m) m := by
  induction depth with
  | zero =>
    intro s m p hs hm hp hdepth
    have := hs.fresh m hm
    omega
  | succ depth ih =>
    intro s m p hs hm hp hdepth
    have hl := removes_children ih (s.children m) hs hm rfl hdepth
    have hmt := hl.older m hm (Nat.le_refl m)
    have hd := Removes.of_detach hl.ok hmt (by rw [hl.mount]; exact hp) hl.leaf
    refine ⟨hd.ok, hd.mount.trans hl.mount, hd.nextMount.trans hl.nextMount, hd.gone,
      fun x hx ↦ hl.subset x (hd.subset x hx),
      fun x hx hlt ↦ hd.older x (hl.older x hx (Nat.le_of_lt hlt)) hlt, fun q hq hlt ↦ ?_⟩
    exact (hd.children q (hl.older q hq (Nat.le_of_lt hlt)) hlt).trans (by rw [hl.children q hq hlt])

section

variable (hs : s.Ok)
include hs

theorem removes_removeMountTree (hm : m ∈ s.mountTable)
    (hp : (s.mount m).parent = some p) : Removes s (s.removeMountTree m) m :=
  removes_inner (s.nextMount - m) s m p hs hm hp (Nat.le_refl _)

theorem Ok.mountNew {root : Nat} (hp : parent ∈ s.mountTable)
    (hfree : ∀ m ∈ s.mountTable, (s.mount m).mountpoint ≠ dentry) :
    (s.mountNew root dentry parent).Ok := by
  have hne : ∀ x ∈ s.mountTable, x ≠ s.nextMount := fun x hx ↦ (hs.fresh x hx).ne
  have hal := hs.allocate { mountpoint := dentry, vfsMount := s.nextVfs, parent := some parent }
  have hok : ({ s.allocate { mountpoint := dentry, vfsMount := s.nextVfs, parent := some parent } with
      vfsRoot := update s.vfsRoot s.nextVfs root
      nextVfs := s.nextVfs + 1 } : MountTree).Ok :=
    { hal with freshVfs := fun x hx ↦ lt_succ_of_lt (hal.freshVfs x hx) }
  refine hok.addMount (lt_succ_self _) (fun h ↦ hne _ h rfl) ?_ ?_ hp
    (hs.fresh parent hp) ?_ (fun x hx ↦ ?_) fun x hx ↦ ?_
  · simp [MountTree.allocate]
  · simp [MountTree.allocate]
  · simp [MountTree.allocate]
  · simpa [MountTree.allocate, update_of_ne (hne x hx)] using hfree x hx
  · simpa [MountTree.allocate, update_of_ne (hne x hx)] using
      (hs.freshVfs x hx).ne

theorem Ok.eq_root {r : Nat} (hr : r ∈ s.mountTable) (hnone : (s.mount r).parent = none)
    (hleaf : s.children r = []) (m : Nat) (hm : m ∈ s.mountTable) : m = r := by
  obtain ⟨r', -, -, hroot⟩ := hs.root
  induction m using Nat.strongRecOn with
  | _ m ih =>
    cases hp : (s.mount m).parent with
    | none => exact (hroot m hm hp).trans (hroot r hr hnone).symm
    | some p =>
      obtain ⟨hpt, hcount⟩ := hs.parent m hm p hp
      rw [ih p (hs.younger m hm p hp) hpt, hleaf] at hcount
      simp at hcount

theorem Ok.moveMount {source : Nat} (hsource : source ∈ s.mountTable)
    (hp : parent ∈ s.mountTable) (hfree : ∀ m ∈ s.mountTable, (s.mount m).mountpoint ≠ dentry)
    (hleaf : s.children source = []) (hne : parent ≠ source) :
    (s.moveMount source dentry parent).Ok := by
  have hfresh : ∀ x ∈ s.mountTable, x ≠ s.nextMount := fun x hx ↦ (hs.fresh x hx).ne
  obtain ⟨above, habove⟩ : ∃ above, (s.mount source).parent = some above := by
    refine ne_none_iff_exists'.mp fun hnone ↦ hne ?_
    exact hs.eq_root hsource hnone hleaf parent hp
  let s₁ := s.allocate
    { mountpoint := dentry, vfsMount := (s.mount source).vfsMount, parent := some parent }
  have hok₁ : s₁.Ok := hs.allocate _
  have hmount₁ : ∀ x ∈ s.mountTable, s₁.mount x = s.mount x :=
    fun x hx ↦ update_of_ne (hfresh x hx) _ _
  have hnew : s₁.mount s.nextMount =
      { mountpoint := dentry, vfsMount := (s.mount source).vfsMount, parent := some parent } :=
    update_self _ _ _
  have habove₁ : (s₁.mount source).parent = some above := by rw [hmount₁ source hsource]; exact habove
  have hleaf₁ : s₁.children source = [] := (update_of_ne (hfresh source hsource) _ _).trans hleaf
  have hremove : s₁.removeMountTree source = s₁.detach source := by
    have hlt : source < s₁.nextMount := lt_succ_of_lt (hs.fresh source hsource)
    obtain ⟨depth, hdepth⟩ : ∃ depth, s₁.nextMount - source = depth + 1 :=
      ⟨s₁.nextMount - source - 1, by omega⟩
    rw [removeMountTree, hdepth, removeMountTreeInner, hleaf₁, foldl_nil]
  have hr := Removes.of_detach hok₁ hsource habove₁ hleaf₁
  have htable : ∀ x, x ∈ (s₁.detach source).mountTable ↔ x ∈ s.mountTable ∧ x ≠ source :=
    mem_detach habove₁
  have hchildren : (s₁.detach source).children s.nextMount = [] := by
    have hna : s.nextMount ≠ above := (hfresh above (hs.parent source hsource above habove).1).symm
    rw [detach_eq habove₁]
    exact (update_of_ne hna _ _).trans (update_self _ _ _)
  change ((s₁.removeMountTree source).addMount s.nextMount).Ok
  rw [hremove]
  refine hr.ok.addMount ?_ (fun h ↦ hfresh _ ((htable _).mp h).1 rfl) hchildren ?_
    ((htable parent).mpr ⟨hp, hne⟩) (hs.fresh parent hp) ?_ (fun x hx ↦ ?_) fun x hx ↦ ?_
  · rw [hr.nextMount]
    exact lt_succ_self _
  · rw [hr.mount, hnew]
  · rw [hr.mount, hnew]
    rw [detach_eq habove₁]
    exact hs.freshVfs source hsource
  · rw [hr.mount, hnew, hmount₁ x ((htable x).mp hx).1]
    exact hfree x ((htable x).mp hx).1
  · rw [hr.mount, hnew, hmount₁ x ((htable x).mp hx).1]
    exact fun hvfs ↦ ((htable x).mp hx).2 (hs.vfs x ((htable x).mp hx).1 source hsource hvfs)

theorem Ok.returned (h : some s = some s') : s'.Ok := some.inj h ▸ hs

variable (hfree : ¬ (s.getMountByDentry target.dentry).isSome = true)
include hfree

theorem ok_finishMount {root : Except Errno Nat}
    (h : (s.finishMount root target).state? = some s') : s'.Ok := by
  unfold finishMount at h
  split at h
  · exact hs.returned h
  split at h
  · exact hs.returned h
  · rename_i parent hparent
    obtain rfl := some.inj h
    exact hs.mountNew (mem_of_find?_eq_some hparent) fun m ↦ mountpoint_ne_of_free hfree

theorem ok_mountBlock (h : (s.mountBlock req target).state? = some s') : s'.Ok := by
  unfold mountBlock at h
  split at h
  · exact hs.returned h
  · split_ifs at h
    · exact hs.returned h
    · exact ok_finishMount hs hfree h

end

theorem state_remount (h : (s.remount req target).state? = some s') : s' = s := by
  unfold remount at h
  split at h
  · exact (some.inj h).symm
  · split_ifs at h
    · exact (some.inj h).symm
    · split at h <;> exact (some.inj h).symm

theorem ok_doMount (hs : s.Ok) (hok : s.Movable (.mount req)) (h : (s.doMount req).state? = some s') :
    s'.Ok := by
  revert h
  fun_cases s.doMount req with
  | case3 =>
    intro h
    rw [state_remount h]
    exact hs
  | case6 target htarget _ _ _ hmove source parent hends =>
    rintro ⟨⟩
    obtain ⟨hsource, hparent, hfree⟩ := moveEnds_eq_ok hends
    obtain ⟨hleaf, hne⟩ := hok hmove target source parent htarget hends
    exact hs.moveMount hsource hparent hfree hleaf hne
  | case8 _ _ _ _ _ _ hbusy | case9 _ _ _ _ _ _ hbusy => exact ok_finishMount hs hbusy
  | case11 _ _ _ _ _ _ hbusy => exact ok_mountBlock hs hbusy
  | _ => exact hs.returned

theorem Ok.noteExpire (hs : s.Ok) (m : Nat) : (s.noteExpire m).Ok :=
  { hs with }

theorem ok_syncAndRemove {req : UmountRequest} (hs : s.Ok) (hm : m ∈ s.mountTable)
    (hp : (s.mount m).parent = some p) (h : (s.syncAndRemove req m).state? = some s') : s'.Ok := by
  unfold syncAndRemove at h
  split at h
  · exact hs.returned h
  · exact (removes_removeMountTree hs hm hp).ok.returned h

theorem ok_doUmount2 {req : UmountRequest} (hs : s.Ok) (h : (s.doUmount2 req).state? = some s') :
    s'.Ok := by
  revert h
  fun_cases s.doUmount2 req with
  | case6 => exact (hs.noteExpire _).returned
  | case7 _ _ _ m hm hroot =>
    obtain ⟨p, hp⟩ := ne_none_iff_exists'.mp hroot
    exact ok_syncAndRemove (hs.noteExpire m) (lookupMountTarget_eq_ok hm) hp
  | case8 _ _ _ m hm hroot =>
    obtain ⟨p, hp⟩ := ne_none_iff_exists'.mp hroot
    exact ok_syncAndRemove hs (lookupMountTarget_eq_ok hm) hp
  | _ => exact hs.returned

theorem ok_of_init (h : s.Init) : s.Ok := by
  have hmem : ∀ m, m ∈ s.mountTable ↔ m = 0 := fun m ↦ by simp [h.table]
  refine ⟨fun m hm ↦ ?_, fun m hm ↦ ?_, fun m hm p hp ↦ ?_, fun m hm p hp ↦ ?_, fun m hm c hc ↦ ?_,
    fun m hm m' hm' _ ↦ ?_, fun m hm m' hm' _ ↦ ?_, ⟨0, (hmem 0).mpr rfl, h.root, fun m hm _ ↦ ?_⟩⟩
  · rw [(hmem m).mp hm, h.nextMount]
    exact Nat.zero_lt_one
  · rw [(hmem m).mp hm]
    exact h.vfs
  · rw [(hmem m).mp hm, h.root] at hp
    simp at hp
  · rw [(hmem m).mp hm, h.root] at hp
    simp at hp
  · rw [(hmem m).mp hm, h.children] at hc
    simp at hc
  · exact ((hmem m).mp hm).trans ((hmem m').mp hm').symm
  · exact ((hmem m).mp hm).trans ((hmem m').mp hm').symm
  · exact (hmem m).mp hm

theorem ok_of_run (hrun : Run Init Movable Step s) : s.Ok := by
  refine hrun.invariant (fun _ ↦ ok_of_init) fun s call s' hs hok h ↦ ?_
  cases call with
  | mount req => exact ok_doMount hs hok h
  | umount req => exact ok_doUmount2 hs h

theorem Ok.of_below (hs : s.Ok) (hm : m ∈ s.mountTable) {x : Nat} (h : s.Below m x) :
    x < m ∧ x ∈ s.mountTable := by
  induction h with
  | single hp => exact ⟨hs.younger m hm _ hp, (hs.parent m hm _ hp).1⟩
  | tail _ hp ih =>
    exact ⟨Nat.lt_trans (hs.younger _ ih.2 _ hp) ih.1, (hs.parent _ ih.2 _ hp).1⟩

theorem Ok.wellFormed (hs : s.Ok) : s.WellFormed :=
  ⟨hs.parent, fun m hm c hc ↦ (hs.child m hm c hc).1,
    fun m hm h ↦ Nat.lt_irrefl m (hs.of_below hm h).1, hs.mountpoints⟩

theorem Ok.not_below (hs : s.Ok) (hm : m ∈ s.mountTable) {x : Nat} (hleaf : s.children x = []) :
    ¬ s.Below m x := by
  intro h
  obtain ⟨c, hmc, hcx⟩ := Relation.TransGen.tail'_iff.mp h
  have hc : c ∈ s.mountTable := by
    obtain rfl | hbelow := Relation.reflTransGen_iff_eq_or_transGen.mp hmc
    · exact hm
    · exact (hs.of_below hm hbelow).2
  have hcount := (hs.parent c hc x hcx).2
  rw [hleaf] at hcount
  simp at hcount

/-- In every run in which only mounts without children are moved, and not into themselves: the tree is well
formed, and such a move keeps what is nested below the moved mount reachable. -/
theorem wellFormed_of_run (hrun : Run Init Movable Step s) :
    s.WellFormed ∧ ∀ req s', req.move = true → s.Movable (.mount req) → s.Step (.mount req) s' →
      s.KeepsNested req s' := by
  have hs := ok_of_run hrun
  refine ⟨hs.wellFormed, fun req s' hmove hok _ target source parent htarget hends m hm hbelow ↦ ?_⟩
  exact absurd hbelow (hs.not_below hm (hok hmove target source parent htarget hends).1)

end Steps

/-! ### A mount that is moved into itself -/

def rootOnly : MountTree where
  mountTable := [0]
  mount := fun _ ↦ { mountpoint := 0, vfsMount := 0, parent := none }
  children := fun _ ↦ []
  expireAttempts := fun _ ↦ 0
  vfsRoot := fun _ ↦ 0
  nextMount := 1
  nextVfs := 1

theorem init_rootOnly : rootOnly.Init := ⟨rfl, rfl, rfl, rfl, Nat.zero_lt_one⟩

/-- `tmpfs` is mounted at a directory of the root file system, the dentry 1, with the new root 10. -/
def mountTmpfs : MountCall := .mount { target := .ok ⟨0, 1⟩, backingRoot := .ok 10 }

def moveTo (target : Path) : MountCall :=
  .mount { target := .ok target, move := true, sourceMountpoint := .ok ⟨0, 1⟩ }

/-- The target is a directory of the moved mount: the new mount has a parent that is not in the table, and
the file system cannot be reached. -/
theorem moved_into_itself :
    ∃ s, Run Init (fun _ _ ↦ True) Step s ∧ s.mountTable = [0, 2] ∧ (s.mount 2).parent = some 1 ∧
      ¬ s.WellFormed := by
  have hmount : Run Init (fun _ _ ↦ True) Step _ :=
    .next mountTmpfs (.start init_rootOnly) trivial rfl
  have hmove : Run Init (fun _ _ ↦ True) Step _ := .next (moveTo ⟨1, 11⟩) hmount trivial rfl
  refine ⟨_, hmove, rfl, rfl, fun hwf ↦ ?_⟩
  exact absurd (hwf.parent 2 (by decide +kernel) 1 rfl).1 (by decide +kernel)

/-- The target is another directory of the root file system. -/
theorem wellFormed_after_move :
    ∃ s, Run Init Movable Step s ∧ s.WellFormed ∧ s.mountTable = [0, 2] ∧
      (s.mount 2).parent = some 0 ∧ (s.mount 2).mountpoint = 2 := by
  have hmount : Run Init Movable Step _ :=
    .next mountTmpfs (.start init_rootOnly) (fun h ↦ absurd h (by simp)) rfl
  have hmove : Run Init Movable Step _ :=
    .next (moveTo ⟨0, 2⟩) hmount (fun _ target source parent htarget hends ↦ by
      obtain rfl := Except.ok.inj htarget
      obtain ⟨rfl, rfl⟩ := Prod.mk.inj (Except.ok.inj hends)
      exact ⟨rfl, by decide⟩) rfl
  exact ⟨_, hmove, (wellFormed_of_run hmove).1, rfl, rfl, rfl⟩

/-- In such a run every mount of the table is reachable from the root. -/
theorem reachable_of_run {s : MountTree} (hrun : Run Init Movable Step s) :
    ∀ m ∈ s.mountTable, s.Reachable m := by
  have hs := ok_of_run hrun
  intro m
  -- A mount is younger than its parent, so the parent comes first.
  induction m using Nat.strong_induction_on with
  | _ m ih =>
    intro hm
    cases hparent : (s.mount m).parent with
    | none => exact ⟨m, hparent, hm, .refl⟩
    | some p =>
      have hp := (hs.parent m hm p hparent).1
      obtain ⟨root, htop, hroot, hpath⟩ := ih p (hs.younger m hm p hparent) hp
      exact ⟨root, htop, hroot, .head ⟨hm, hparent⟩ hpath⟩

theorem reachable_after_mount :
    ∃ s, Run Init Movable Step s ∧ s.mountTable = [0, 1] ∧ s.Reachable 1 := by
  have hrun : Run Init Movable Step _ :=
    .next mountTmpfs (.start init_rootOnly) (by simp [Movable, mountTmpfs]) rfl
  exact ⟨_, hrun, rfl, reachable_of_run hrun 1 (by decide +kernel)⟩

end MountTree

end RespOS.Fs
