import RespOS.Fs.DentryCoherence
import RespOS.Fs.Namei

/-!
# The calls that look paths up and change the namespace

The calls on the text of a path, each as one step: the lookups with `chdir`, `chroot`, `fchdir` and `open`
of what exists, `filename_create`, `filename_symlink`, `filename_link`, `filename_unlink` and
`filename_rename`, `do_mount` and `do_umount2`, and the removal of dentries from the cache when memory is
short. `bootVfs` is the namespace that `init_root_fs` sets up.

The calls keep every reference within the dentries that have been made (`bounded_of_run`), whatever the
file systems answer. `path_global_abs_path` and `remove_mount_tree_inner` recurse over mounts; a mount is
younger than its parent, so the number of mounts made bounds their depth. What the removal of a backing
tree gets done is left open: `cleaned` lists the entries it unlinks. `/proc` and `/dev` may hold anything at
any time.
-/

namespace RespOS.Fs

open RespOS.Basis
open Function (update update_of_ne update_self)
open List Option Vfs Nat

def atFdcwd : Int := -100

/-- What a call asks of credentials and of the file systems. -/
structure CallEnv extends WalkEnv where
  /-- `check_dir_write_permission`. -/
  write : Nat → Option Errno := fun _ ↦ none
  /-- `check_sticky_rename_permission`. -/
  sticky : Nat → Option Errno := fun _ ↦ none
  /-- The checks on what is opened. -/
  open_ : Option Errno := none
  /-- `stat`. -/
  stat : Option Errno := none
  /-- The lower creation, and the setting of the owner and the mode. -/
  create : Option Errno := none
  configure : Option Errno := none
  /-- The number of a new inode. -/
  ino : Nat := 0
  unlink : Option Errno := none
  /-- The lower renames of a replaced target and of the source, and whether the backup can be moved back or
  removed. -/
  setAside : Option Errno := none
  rename : Option Errno := none
  restore : Bool := true
  dropBackup : Bool := true
  /-- The effective user is root. -/
  superuser : Bool := true
  sync : Option Errno := none
  cleaned : List FsPath := []

structure MountArgs where
  source : PathText := []
  target : PathText
  flags : MountFlags := {}
  remount : Bool := false
  propagation : Bool := false
  move : Bool := false
  bind : Bool := false
  fstype : FsType := .tmpfs

structure UmountArgs where
  target : PathText
  validFlags : Bool := true
  noFollow : Bool := false
  detach : Bool := false
  expire : Bool := false

namespace Vfs

variable (s : Vfs)

def check (e : Option Errno) : Outcome Vfs Unit :=
  match e with
  | none => .ok () s
  | some e => .err e s

/-! ### Lookups -/

def basePathFromDirfd (t : Nat) (dirfd : Int) (text : PathText) : Except Errno Path :=
  if isAbsolute text || dirfd = atFdcwd then .ok (s.task t).cwd
  else if dirfd < 0 then .error .EBADF
  else match (s.task t).files dirfd.toNat with
    | .closed => .error .EBADF
    | .other => .error .ENOTDIR
    | .file path => if s.isDirectory path.dentry then .ok path else .error .ENOTDIR

def resolvePath (env : WalkEnv) (t : Nat) (mode : WalkMode) (dirfd : Int) (text : PathText) :
    Outcome Vfs Path :=
  if text = [] then .err .ENOENT s
  else if !validatePathComponents text then .err .ENAMETOOLONG s
  else match s.basePathFromDirfd t dirfd text with
    | .error e => .err e s
    | .ok base =>
      let root := (s.task t).root
      ((s.walk env root mode (.newFromPath root text base)).onErr .ENOENT fun s ↦
        match glibcDefaultLibAlias text with
        | some library => s.walk env root mode (.newFromPath root library root)
        | none => .err .ENOENT s).andThen fun nd s ↦ .ok nd.pos s

def filenameLookup (env : WalkEnv) (t : Nat) (dirfd : Int) (text : PathText) : Outcome Vfs Path :=
  s.resolvePath env t (.resolve true true true) dirfd text

def filenameLookupNoFollowFinalMount (env : WalkEnv) (t : Nat) (dirfd : Int) (text : PathText) :
    Outcome Vfs Path :=
  s.resolvePath env t (.resolve true false true) dirfd text

def filenameLookupNoFollowFinalSymlink (env : WalkEnv) (t : Nat) (dirfd : Int) (text : PathText) :
    Outcome Vfs Path :=
  s.resolvePath env t (.resolve false true true) dirfd text

def filenameLookupNoFollowFinalComponent (env : WalkEnv) (t : Nat) (dirfd : Int) (text : PathText) :
    Outcome Vfs Path :=
  s.resolvePath env t (.resolve false true false) dirfd text

/-- `Nameidata::new_at` and `link_path_walk`. -/
def parentWalk (env : WalkEnv) (t : Nat) (dirfd : Int) (text : PathText) : Outcome Vfs Nameidata :=
  if !validatePathComponents text then .err .ENAMETOOLONG s
  else match s.basePathFromDirfd t dirfd text with
    | .error e => .err e s
    | .ok base =>
      let root := (s.task t).root
      s.walk env root .parent (.newFromPath root text base)

def setTask (t : Nat) (fs : TaskFs) : Vfs := { s with task := update s.task t fs }

/-- The lookup of `sys_chdir` and `sys_chroot`. -/
def lookupDirectory (env : WalkEnv) (t : Nat) (text : PathText) : Outcome Vfs Path :=
  (s.filenameLookup env t atFdcwd text).andThen fun path s ↦
    if !s.isDirectory path.dentry then .err .ENOTDIR s
    else (s.check (env.search path.dentry)).andThen fun _ s ↦ .ok path s

def sysChdir (env : CallEnv) (t : Nat) (text : PathText) : Outcome Vfs Unit :=
  (s.lookupDirectory env.toWalkEnv t text).andThen fun path s ↦
    .ok () (s.setTask t { s.task t with cwd := path })

def sysChroot (env : CallEnv) (t : Nat) (text : PathText) : Outcome Vfs Unit :=
  (s.lookupDirectory env.toWalkEnv t text).andThen fun path s ↦
    if !env.superuser then .err .EPERM s
    else .ok () (s.setTask t { s.task t with root := path })

def sysFchdir (env : CallEnv) (t fd : Nat) : Outcome Vfs Unit :=
  match (s.task t).files fd with
  | .closed => .err .EBADF s
  | .other => .err .ENOTDIR s
  | .file path =>
    if !s.isDirectory path.dentry then .err .ENOTDIR s
    else (s.check (env.search path.dentry)).andThen fun _ s ↦
      .ok () (s.setTask t { s.task t with cwd := path })

/-- `path_open` of what exists, with the descriptor that the file gets. -/
def pathOpen (env : CallEnv) (t : Nat) (dirfd : Int) (text : PathText) (fd : Nat) (noFollow : Bool) :
    Outcome Vfs Unit :=
  (s.resolvePath env.toWalkEnv t (.resolve (!noFollow) true true) dirfd text).andThen fun path s ↦
    if noFollow && (s.dcache.dentry path.dentry).inode.ty = .symLink then .err .ELOOP s
    else (s.check env.open_).andThen fun _ s ↦
      let files := update (s.task t).files fd (.file path)
      .ok () (s.setTask t { s.task t with files := files })

/-! ### Creation and removal -/

/-- `check_mount_writable` and `check_dir_write_and_search_permission`. -/
def mayChange (env : CallEnv) (pos : Path) : Option Errno :=
  if (s.flags pos.mnt).readonly then some .EROFS
  else (env.search pos.dentry).or (env.write pos.dentry)

/-- `reject_trailing_non_directory_creation`. -/
def rejectTrailing (env : CallEnv) (nd : Nameidata) : Outcome Vfs Unit :=
  if !nd.requiresDirectory then .ok () s
  else match nd.segments with
    | [] => .panic
    | name :: _ =>
      (s.lookupChild env.toWalkEnv nd.pos.dentry name).andThen fun _ s ↦ .err .EEXIST s

def setLower (fs : Nat) (tree : LowerTree) : Vfs := { s with lower := update s.lower fs tree }

/-- A lower `unlink` whose error is dropped. -/
def tryRemove (fs : Nat) (p : FsPath) : Vfs := ((s.lower fs).remove p).elim s (s.setLower fs)

/-- The lower creation, `install_created_inode` and its rollback. -/
def createIn (env : CallEnv) (dir : Nat) (name : Name) (inode : Inode) : Outcome Vfs Unit :=
  let fs := (s.dcache.dentry dir).inode.fs
  match env.create, s.dcache.childAbsPath dir name with
  | _, none => .panic
  | some e, _ => .err e s
  | none, some p =>
    match (s.lower fs).create p { inode with fs := fs } with
    | none => .err .EEXIST s
    | some tree =>
      let s := s.setLower fs tree
      match env.configure with
      | some e => .err e (s.tryRemove fs p)
      | none =>
        (s.install env.toWalkEnv dir p { inode with fs := fs }).andThen fun _ s ↦ .ok () s

/-- The end of the calls that make a name; `extra` is a check of the call's own. -/
def createLast (env : CallEnv) (nd : Nameidata) (inode : Inode) (extra : Option Errno) :
    Outcome Vfs Unit :=
  match nd.segments with
  | [] => .err .EEXIST s
  | name :: _ =>
    if name = dot || name = dotdot then .err .EEXIST s
    else (s.check (s.mayChange env nd.pos)).andThen fun _ s ↦
      (s.check extra).andThen fun _ s ↦
        ((s.lookupChild env.toWalkEnv nd.pos.dentry name).andThen fun _ s ↦ .err .EEXIST s).onErr
          .ENOENT fun s ↦ s.createIn env nd.pos.dentry name inode

/-- `filename_create` and `filename_mknod`. -/
def filenameCreate (env : CallEnv) (t : Nat) (dirfd : Int) (text : PathText) (ty : InodeType) :
    Outcome Vfs Unit :=
  if text = [] then .err .ENOENT s
  else (s.parentWalk env.toWalkEnv t dirfd text).andThen fun nd s ↦
    (if ty = .directory then .ok () s else s.rejectTrailing env nd).andThen fun _ s ↦
      s.createLast env nd { ino := env.ino, ty := ty } none

def filenameSymlink (env : CallEnv) (t : Nat) (target : PathText) (dirfd : Int) (text : PathText) :
    Outcome Vfs Unit :=
  if target = [] || text = [] then .err .ENOENT s
  else (s.parentWalk env.toWalkEnv t dirfd text).andThen fun nd s ↦
    (s.rejectTrailing env nd).andThen fun _ s ↦
      s.createLast env nd { ino := env.ino, ty := .symLink, target := target } none

def filenameLink (env : CallEnv) (t : Nat) (olddirfd : Int) (oldText : PathText) (newdirfd : Int)
    (newText : PathText) (followOld : Bool) : Outcome Vfs Unit :=
  if oldText = [] || newText = [] then .err .ENOENT s
  else (s.resolvePath env.toWalkEnv t (.resolve followOld true true) olddirfd oldText).andThen
    fun old s ↦ (s.parentWalk env.toWalkEnv t newdirfd newText).andThen fun nd s ↦
      (s.rejectTrailing env nd).andThen fun _ s ↦
        let inode := (s.dcache.dentry old.dentry).inode
        let extra := if inode.ty = .directory then some Errno.EPERM
          else env.stat.or
            (if inode.fs ≠ (s.dcache.dentry nd.pos.dentry).inode.fs then some .EXDEV else none)
        s.createLast { env with configure := none } nd inode extra

/-- `filename_unlink` from the checks of the target on. -/
def unlinkTarget (env : CallEnv) (requiresDirectory : Bool) (d : Nat) (removeDir : Bool) :
    Outcome Vfs Unit :=
  if requiresDirectory && !s.isDirectory d then .err .ENOTDIR s
  else if s.isDirectory d && !removeDir then .err .EISDIR s
  else if !s.isDirectory d && removeDir then .err .ENOTDIR s
  else if (s.dcache.dentry d).parent = none then .err .EBUSY s
  else match (env.sticky d).or env.unlink, s.dcache.currentAbsPath d with
    | _, none => .panic
    | some e, _ => .err e s
    | none, some p =>
      if (s.dcache.dentry d).inode.fs ≠ ext4 then .err .EXDEV s
      else if s.isDirectory d && !(s.lower ext4).isEmpty p then .err .ENOTEMPTY s
      else match (s.lower ext4).remove p with
        | none => .err .ENOENT s
        | some tree =>
          .ok () { s.setLower ext4 tree with dcache := s.dcache.removeDentryCacheTree p }

def filenameUnlink (env : CallEnv) (t : Nat) (dirfd : Int) (text : PathText) (removeDir : Bool) :
    Outcome Vfs Unit :=
  if text = [] then .err .ENOENT s
  else (s.parentWalk env.toWalkEnv t dirfd text).andThen fun nd s ↦
    match nd.segments with
    | [] => .err (if removeDir then .EBUSY else .EISDIR) s
    | name :: _ =>
      if name = dot || name = dotdot then .err (if removeDir then .EINVAL else .EISDIR) s
      else (s.check (s.mayChange env nd.pos)).andThen fun _ s ↦
        (s.lookupDentryMaybeFollowMount env.toWalkEnv nd.pos name true).andThen fun target s ↦
          s.unlinkTarget env nd.requiresDirectory target.dentry removeDir

/-! ### Rename -/

/-- `Ext4Inode::file_rename`. -/
def fileRename (e : Option Errno) (old new : FsPath) : Outcome Vfs Unit :=
  match e, (s.lower ext4).rename old new with
  | some e, _ => .err e s
  | none, none => .err .ENOENT s
  | none, some tree => .ok () (s.setLower ext4 tree)

def tryRename (old new : FsPath) : Vfs := ((s.lower ext4).rename old new).elim s (s.setLower ext4)

/-- `filename_rename` with a target that exists, to its move to the backup name. It gives the backup name,
or nothing if both are the same file. -/
def setAside (env : CallEnv) (old existing : Nat) (noReplace : Bool) : Outcome Vfs (Option FsPath) :=
  let oldInode := (s.dcache.dentry old).inode
  let inode := (s.dcache.dentry existing).inode
  match s.dcache.currentAbsPath existing with
  | none => .panic
  | some existingPath =>
    if noReplace then .err .EEXIST s
    else if oldInode.ty ≠ .directory && inode.ty = .directory then .err .EISDIR s
    else if oldInode.ty = .directory && inode.ty ≠ .directory then .err .ENOTDIR s
    else (s.check env.stat).andThen fun _ s ↦
      if oldInode.fs = inode.fs && oldInode.ino = inode.ino then .ok none s
      else (s.check (env.sticky existing)).andThen fun _ s ↦
        if inode.ty = .directory && !(s.lower inode.fs).isEmpty existingPath then .err .ENOTEMPTY s
        else if inode.fs ≠ ext4 then .err .EXDEV s
        else
          let backup := backupPath existingPath inode.ino
          (s.fileRename env.setAside existingPath backup).andThen fun _ s ↦
            .ok (some backup) { s with dcache := s.dcache.removeDentryCacheTree existingPath }

def restoreBackup (ok : Bool) (backup : Option FsPath) (newAbs : FsPath) : Vfs :=
  match ok, backup with
  | true, some backup => s.tryRename backup newAbs
  | _, _ => s

def dropBackup (ok : Bool) (backup : Option FsPath) : Vfs :=
  match ok, backup with
  | true, some backup => s.tryRemove ext4 backup
  | _, _ => s

/-- The end of `filename_rename`: the lower rename, and the dentry and the cache after it. -/
def commitRename (env : CallEnv) (old dir : Nat) (oldPath newAbs : FsPath) (backup : Option FsPath) :
    Outcome Vfs Unit :=
  match s.fileRename env.rename oldPath newAbs with
  | .panic => .panic
  | .err e s => .err e (s.restoreBackup env.restore backup newAbs)
  | .ok _ s =>
    let s := s.dropBackup env.dropBackup backup
    -- `dentry_name` of the root
    if oldPath = [] then .err .EBUSY s
    else
      let dcache := (s.dcache.removeDentryCacheTree oldPath).removeDentryCacheTree newAbs
      match (dcache.relocate old newAbs dir).insertDentryCache (env.victim old) old with
      | none => .panic
      | some dcache => .ok () { s with dcache := dcache }

/-- `filename_rename` from the choice of the target on. The lookup of the target enters a mount, and the
directory is then the root of what is mounted. -/
def renameTo (env : CallEnv) (old : Path) (nd : Nameidata) (name : Name) (noReplace : Bool) :
    Outcome Vfs Unit :=
  match s.dcache.currentAbsPath old.dentry, s.dcache.childAbsPath nd.pos.dentry name with
  | some oldPath, some newAbs =>
    if newAbs = oldPath then if noReplace then .err .EEXIST s else .ok () s
    else if nd.requiresDirectory && !s.isDirectory old.dentry then .err .ENOTDIR s
    else if s.isDirectory old.dentry && oldPath ≠ [] && oldPath.isPrefixOf newAbs then .err .EINVAL s
    else match s.lookupChild env.toWalkEnv nd.pos.dentry name with
      | .panic => .panic
      | .err _ s => s.commitRename env old.dentry nd.pos.dentry oldPath newAbs none
      | .ok d s =>
        let existing := (s.enter true nd.pos.mnt d).dentry
        let dir := if (s.mounts.getMountByDentry d).isSome then existing else nd.pos.dentry
        (s.setAside env old.dentry existing noReplace).andThen fun backup s ↦
          match backup with
          | none => .ok () s
          | some backup => s.commitRename env old.dentry dir oldPath newAbs (some backup)
  | _, _ => .panic

def filenameRename (env : CallEnv) (t : Nat) (olddirfd : Int) (oldText : PathText) (newdirfd : Int)
    (newText : PathText) (noReplace : Bool) : Outcome Vfs Unit :=
  if oldText = [] || newText = [] then .err .ENOENT s
  else (s.filenameLookupNoFollowFinalComponent env.toWalkEnv t olddirfd oldText).andThen fun old s ↦
    if endsWithSlash oldText && !s.isDirectory old.dentry then .err .ENOTDIR s
    else (s.check (s.mayChange env ⟨old.mnt, s.parentOrSelf old.dentry⟩)).andThen fun _ s ↦
      (s.check (env.sticky old.dentry)).andThen fun _ s ↦
        (s.parentWalk env.toWalkEnv t newdirfd newText).andThen fun nd s ↦
          match nd.segments with
          | [] => .err .EEXIST s
          | name :: _ =>
            if name = dot || name = dotdot then .err .EBUSY s
            else (s.check (s.mayChange env nd.pos)).andThen fun _ s ↦
              s.renameTo env old nd name noReplace

/-! ### Mounts -/

/-- `path_global_abs_path`, to a depth. -/
def pathGlobalAbsPath : Nat → Path → Option FsPath
  | 0, pos => s.dcache.currentAbsPath pos.dentry
  | depth + 1, pos =>
    match s.dcache.currentAbsPath pos.dentry, s.mountedOn pos.mnt with
    | none, _ => none
    | some dentryPath, none => some dentryPath
    | some dentryPath, some on =>
      (pathGlobalAbsPath depth on).bind fun above ↦
        if pos.dentry = s.mounts.vfsRoot pos.mnt || dentryPath = [] then some above
        else (s.dcache.currentAbsPath (s.mounts.vfsRoot pos.mnt)).map fun rootPath ↦
          if rootPath ≠ [] && rootPath.isPrefixOf dentryPath && rootPath ≠ dentryPath then
            above ++ dentryPath.drop rootPath.length
          else above ++ dentryPath

def globalAbsPath (pos : Path) : Option FsPath := s.pathGlobalAbsPath s.mounts.nextMount pos

def lookupMountTarget (env : WalkEnv) (t : Nat) (text : PathText) : Outcome Vfs Nat :=
  (s.filenameLookupNoFollowFinalMount env t atFdcwd text).andThen fun mountpoint s ↦
    match s.mounts.getMountByDentry mountpoint.dentry with
    | some m => .ok m s
    | none =>
      (s.filenameLookup env t atFdcwd text).andThen fun target s ↦
        if target.dentry = s.mounts.vfsRoot target.mnt then
          match s.mounts.getMountByVfsmount target.mnt with
          | some m => .ok m s
          | none => .err .EINVAL s
        else .err .EINVAL s

/-- `cleanup_mount_backing_root`: the entries that are unlinked. -/
def cleanupMountBackingRoot (env : CallEnv) (root : Nat) : Vfs :=
  (env.cleaned.filter (s.dcache.dentry root).absPath.isPrefixOf).foldl
    (fun s p ↦ s.tryRemove ext4 p) s

/-- `remove_mount_tree_inner` for one mount, after its children. -/
def detachMount (env : CallEnv) (cleanup : Bool) (m : Nat) : Option Vfs :=
  let mount := s.mounts.mount m
  let root := s.mounts.vfsRoot mount.vfsMount
  let visible := match mount.parent.filter fun p ↦ p ∈ s.mounts.mountTable with
    | some p => (s.globalAbsPath ⟨(s.mounts.mount p).vfsMount, mount.mountpoint⟩).map
        s.dcache.removeDentryCacheTree
    | none => some s.dcache
  visible.map fun dcache ↦
    let dcache :=
      if s.backed m then dcache.removeDentryCacheTree (s.dcache.dentry root).absPath else dcache
    let dcache := dcache.removeDentryCache (s.dcache.dentry mount.mountpoint).absPath
    let s' := { s with dcache := dcache, mounts := s.mounts.detach m }
    if cleanup && s.backed m then s'.cleanupMountBackingRoot env root else s'

/-- `remove_mount_tree_inner`, to a depth. -/
def removeMountTreeInner (env : CallEnv) (cleanup : Bool) : Nat → Vfs → Nat → Option Vfs
  | 0, s, _ => some s
  | depth + 1, s, m =>
    ((s.mounts.children m).foldlM (removeMountTreeInner env cleanup depth) s).bind fun s ↦
      s.detachMount env cleanup m

/-- `remove_mount_tree` and `remove_mount_tree_without_cleanup`. -/
def removeMountTree (env : CallEnv) (cleanup : Bool) (m : Nat) : Option Vfs :=
  removeMountTreeInner env cleanup (s.mounts.nextMount - m) s m

def backingName (id : Nat) : Name := bytes ".respos_mount_" ++ digits id

/-- `create_mount_backing_root`, for a number of attempts: the dentry of the new root. -/
def createMountBackingRoot (env : CallEnv) : Nat → Vfs → Outcome Vfs Nat
  | 0, s => .err .ENOSPC s
  | attempts + 1, s =>
    let p := [backingName s.backingId]
    let s := { s with backingId := s.backingId + 1 }
    let inode : Inode := { ino := env.ino, ty := .directory, fs := ext4 }
    match env.create, (s.lower ext4).create p inode with
    | some e, _ => .err e s
    | none, none => createMountBackingRoot env attempts s
    | none, some tree =>
      let s := s.setLower ext4 tree
      .ok s.dcache.nextDentry { s with dcache := s.dcache.alloc { absPath := p, inode := inode } }

/-- The end of the kinds of mount that add one. -/
def finishMount (args : MountArgs) (target : Path) (visible : FsPath) (root : Nat) (backed : Bool) :
    Outcome Vfs Unit :=
  match s.mounts.getMountByVfsmount target.mnt with
  | none => .err .EINVAL s
  | some parent =>
    .ok ()
      { s with
        dcache := s.dcache.removeDentryCacheDescendants visible
        mounts := s.mounts.mountNew root target.dentry parent
        flags := update s.flags s.mounts.nextVfs args.flags
        backed := update s.backed s.mounts.nextMount backed }

def remount (env : CallEnv) (args : MountArgs) (target : Path) : Outcome Vfs Unit :=
  match s.mounts.getMountByDentry target.dentry with
  | none => .err .EINVAL s
  | some m =>
    if args.flags.readonly then .err .EBUSY s
    else (s.check env.sync).andThen fun _ s ↦
      .ok () { s with flags := update s.flags (s.mounts.mount m).vfsMount args.flags }

def moveMount (env : CallEnv) (t : Nat) (args : MountArgs) (target : Path) (visible : FsPath) :
    Outcome Vfs Unit :=
  (s.lookupMountTarget env.toWalkEnv t args.source).andThen fun source s ↦
    match s.mounts.getMountByVfsmount target.mnt with
    | none => .err .EINVAL s
    | some parent =>
      if (s.mounts.getMountByDentry target.dentry).isSome then .err .EBUSY s
      else
        let old := s.mounts.mount source
        let n := s.mounts.nextMount
        let moved : Mount :=
          { mountpoint := target.dentry, vfsMount := old.vfsMount, parent := some parent }
        let s' := { s with
          dcache := s.dcache.removeDentryCacheDescendants visible
          mounts := s.mounts.allocate moved
          backed := update s.backed n (s.backed source) }
        match s'.removeMountTree env false source with
        | none => .panic
        | some s'' =>
          let dcache := s''.dcache.removeDentryCacheTree (s.dcache.dentry old.mountpoint).absPath
          .ok () { s'' with dcache := dcache, mounts := s''.mounts.addMount n }

def doMount (env : CallEnv) (t : Nat) (args : MountArgs) : Outcome Vfs Unit :=
  (s.filenameLookupNoFollowFinalMount env.toWalkEnv t atFdcwd args.target).andThen fun target s ↦
    match s.globalAbsPath target with
    | none => .panic
    | some visible =>
      if !s.isDirectory target.dentry then .err .ENOTDIR s
      else if args.remount then s.remount env args target
      else if args.propagation then .ok () s
      else if args.move then s.moveMount env t args target visible
      else if (s.mounts.getMountByDentry target.dentry).isSome then .err .EBUSY s
      else if args.bind then
        (s.filenameLookup env.toWalkEnv t atFdcwd args.source).andThen fun source s ↦
          s.finishMount args target visible source.dentry false
      else if args.fstype = .tmpfs then
        (createMountBackingRoot env 1024 s).andThen fun root s ↦
          s.finishMount args target visible root true
      else if args.fstype ≠ .block then .err .ENODEV s
      else
        (s.filenameLookup env.toWalkEnv t atFdcwd args.source).andThen fun source s ↦
          if (s.dcache.dentry source.dentry).inode.ty ≠ .blockDevice then .err .ENOTBLK s
          else (createMountBackingRoot env 1024 s).andThen fun root s ↦
            s.finishMount args target visible root true

/-- The check of `UMOUNT_NOFOLLOW`. -/
def umountNoFollow (env : CallEnv) (t : Nat) (args : UmountArgs) : Outcome Vfs Unit :=
  if !args.noFollow then .ok () s
  else (s.filenameLookupNoFollowFinalSymlink env.toWalkEnv t atFdcwd args.target).andThen fun path s ↦
    if (s.dcache.dentry path.dentry).inode.ty = .symLink then .err .EINVAL s else .ok () s

/-- The end of `do_umount2`. -/
def syncAndRemove (env : CallEnv) (m : Nat) : Outcome Vfs Unit :=
  match env.sync, s.removeMountTree env true m with
  | some e, _ => .err e s
  | none, none => .panic
  | none, some s' => .ok () s'

def doUmount2 (env : CallEnv) (t : Nat) (args : UmountArgs) : Outcome Vfs Unit :=
  if !args.validFlags then .err .EINVAL s
  else (s.umountNoFollow env t args).andThen fun _ s ↦
    (s.lookupMountTarget env.toWalkEnv t args.target).andThen fun m s ↦
      if (s.mounts.mount m).parent = none then .err .EBUSY s
      else if !args.detach && !(s.mounts.children m).isEmpty then .err .EBUSY s
      else if args.expire then
        let s' := { s with mounts := s.mounts.noteExpire m }
        if s.mounts.expireAttempts m < 2 then .err .EAGAIN s' else s'.syncAndRemove env m
      else s.syncAndRemove env m

end Vfs

/-! ### Runs -/

inductive VfsCall
  | lookup (t : Nat) (mode : WalkMode) (dirfd : Int) (text : PathText)
  | chdir (t : Nat) (text : PathText)
  | chroot (t : Nat) (text : PathText)
  | fchdir (t fd : Nat)
  | open_ (t : Nat) (dirfd : Int) (text : PathText) (fd : Nat) (noFollow : Bool)
  | close (t fd : Nat)
  /-- A new task has the paths and the files of its parent. -/
  | fork (t child : Nat)
  | create (t : Nat) (dirfd : Int) (text : PathText) (ty : InodeType)
  | symlink (t : Nat) (target : PathText) (dirfd : Int) (text : PathText)
  | link (t : Nat) (olddirfd : Int) (oldText : PathText) (newdirfd : Int) (newText : PathText)
      (followOld : Bool)
  | unlink (t : Nat) (dirfd : Int) (text : PathText) (removeDir : Bool)
  | rename (t : Nat) (olddirfd : Int) (oldText : PathText) (newdirfd : Int) (newText : PathText)
      (noReplace : Bool)
  | mount (t : Nat) (args : MountArgs)
  | umount (t : Nat) (args : UmountArgs)
  /-- `clean_dentry_cache`, for one entry. -/
  | evict (p : FsPath)
  /-- `/proc` or `/dev` changes. -/
  | refresh (fs : Nat) (tree : LowerTree)

namespace Vfs

def call (s : Vfs) (env : CallEnv) : VfsCall → Outcome Vfs Unit
  | .lookup t mode dirfd text =>
    (s.resolvePath env.toWalkEnv t mode dirfd text).andThen fun _ s ↦ .ok () s
  | .chdir t text => s.sysChdir env t text
  | .chroot t text => s.sysChroot env t text
  | .fchdir t fd => s.sysFchdir env t fd
  | .open_ t dirfd text fd noFollow => s.pathOpen env t dirfd text fd noFollow
  | .close t fd =>
    let files := update (s.task t).files fd .closed
    .ok () (s.setTask t { s.task t with files := files })
  | .fork t child => .ok () (s.setTask child (s.task t))
  | .create t dirfd text ty => s.filenameCreate env t dirfd text ty
  | .symlink t target dirfd text => s.filenameSymlink env t target dirfd text
  | .link t olddirfd oldText newdirfd newText followOld =>
    s.filenameLink env t olddirfd oldText newdirfd newText followOld
  | .unlink t dirfd text removeDir => s.filenameUnlink env t dirfd text removeDir
  | .rename t olddirfd oldText newdirfd newText noReplace =>
    s.filenameRename env t olddirfd oldText newdirfd newText noReplace
  | .mount t args => s.doMount env t args
  | .umount t args => s.doUmount2 env t args
  | .evict p => .ok () { s with dcache := s.dcache.removeDentryCache p }
  | .refresh fs tree => .ok () (if fs = ext4 then s else s.setLower fs tree)

/-- The state after a call, whether it succeeds or not. -/
def next (s : Vfs) (l : CallEnv × VfsCall) : Option Vfs := (s.call l.1 l.2).state?

def Step (s : Vfs) (l : CallEnv × VfsCall) (s' : Vfs) : Prop := s.next l = some s'

end Vfs

/-- The numbers of `/proc` and `/dev`. -/
def procfs : Nat := 1
@[inherit_doc procfs] def devfs : Nat := 2

/-- The dentries that `init_root_fs` makes: the root, `/proc` with its root and `self`, `/dev` with its
root, and `/respos` with the root of the second disk. -/
def bootDentry : Nat → Dentry
  | 1 => { absPath := [bytes "proc"], parent := some 0, inode := ⟨1, .directory, [], procfs⟩ }
  | 2 => { absPath := [], inode := ⟨1, .directory, [], procfs⟩ }
  | 3 => { absPath := [bytes "self"], parent := some 2, inode := ⟨2, .symLink, [], procfs⟩ }
  | 4 => { absPath := [bytes "dev"], parent := some 0, inode := ⟨1, .directory, [], devfs⟩ }
  | 5 => { absPath := [], inode := ⟨1, .directory, [], devfs⟩ }
  | 6 => { absPath := [bytes "respos"], parent := some 0, inode := ⟨11, .directory, [], ext4⟩ }
  | 7 => { absPath := [bytes "respos"], inode := ⟨2, .directory, [], ext4⟩ }
  | _ => { absPath := [], inode := ⟨2, .directory, [], ext4⟩ }

/-- The mounts that it makes; the last only if there is a second disk. -/
def bootMount : Nat → Mount
  | 1 => ⟨1, 1, some 0⟩
  | 2 => ⟨4, 2, some 0⟩
  | 3 => ⟨6, 3, some 0⟩
  | _ => ⟨0, 0, none⟩

/-- `init_root_fs`. -/
def bootVfs (lower : Nat → LowerTree) (auxiliary : Bool) : Vfs where
  dcache :=
    { dentry := bootDentry
      nextDentry := 8
      cache := [([bytes "proc"], 1), ([bytes "self"], 3), ([bytes "dev"], 4)] ++
        if auxiliary then [([bytes "respos"], 6)] else [] }
  lower := lower
  mounts :=
    { mountTable := [0, 1, 2] ++ if auxiliary then [3] else []
      mount := bootMount
      children := fun m ↦ if m = 0 then [1, 2] ++ if auxiliary then [3] else [] else []
      expireAttempts := fun _ ↦ 0
      vfsRoot := fun vfs ↦ match vfs with
        | 1 => 2
        | 2 => 5
        | 3 => 7
        | _ => 0
      nextMount := 4
      nextVfs := 4 }
  flags := fun _ ↦ {}
  backed := fun _ ↦ false
  task := fun _ ↦ ⟨⟨0, 0⟩, ⟨0, 0⟩, fun _ ↦ .closed⟩
  backingId := 0

/-! ### The calls keep the references within bounds -/

/-- The second state has the dentries of the first, and its references are within bounds. -/
structure Grows (s s' : Vfs) : Prop where
  next_le : s.dcache.nextDentry ≤ s'.dcache.nextDentry
  bounded : s'.Bounded

/-- The second state has the dentries of the first, and less in the cache and in the mount table. -/
structure Tidies (s s' : Vfs) : Prop where
  dentry : s'.dcache.dentry = s.dcache.dentry
  nextDentry : s'.dcache.nextDentry = s.dcache.nextDentry
  cache : s'.dcache.cache ⊆ s.dcache.cache
  mountTable : s'.mounts.mountTable ⊆ s.mounts.mountTable
  mount : s'.mounts.mount = s.mounts.mount
  vfsRoot : s'.mounts.vfsRoot = s.mounts.vfsRoot
  task : s'.task = s.task

/-- A call that ends in a state with the dentries of the first one, with a value that has `Q`. -/
def Safe {α : Type} (s : Vfs) (Q : α → Vfs → Prop) (o : Outcome Vfs α) : Prop :=
  o.Ensures (fun a s' ↦ Grows s s' ∧ Q a s') (Grows s)

/-- The dentry of a path is within bounds. -/
def Within (path : Path) (s : Vfs) : Prop := path.dentry < s.dcache.nextDentry

section Safe

variable {α β : Type} {s s' s'' : Vfs} {Q : α → Vfs → Prop} {R : β → Vfs → Prop}
  {o : Outcome Vfs α} {f : α → Vfs → Outcome Vfs β} {e : Errno} {path : Path}

theorem Grows.refl (hs : s.Bounded) : Grows s s := ⟨le_rfl, hs⟩

theorem Grows.trans (h : Grows s s') (h' : Grows s' s'') : Grows s s'' :=
  ⟨le_trans h.next_le h'.next_le, h'.bounded⟩

theorem Finds.grows (h : Finds s s') : Grows s s' := ⟨h.next_le, h.bounded⟩

theorem Within.grow (h : Within path s) (hs : Grows s s') : Within path s' :=
  lt_of_lt_of_le h hs.next_le

theorem Tidies.refl (s : Vfs) : Tidies s s := ⟨rfl, rfl, fun _ h ↦ h, fun _ h ↦ h, rfl, rfl, rfl⟩

theorem Tidies.trans (h : Tidies s s') (h' : Tidies s' s'') : Tidies s s'' where
  dentry := h'.dentry.trans h.dentry
  nextDentry := h'.nextDentry.trans h.nextDentry
  cache := fun _ hx ↦ h.cache (h'.cache hx)
  mountTable := fun _ hx ↦ h.mountTable (h'.mountTable hx)
  mount := h'.mount.trans h.mount
  vfsRoot := h'.vfsRoot.trans h.vfsRoot
  task := h'.task.trans h.task

theorem Tidies.bounded (h : Tidies s s') (hs : s.Bounded) : s'.Bounded where
  dcache := by
    constructor
    · rw [h.dentry, h.nextDentry]
      exact hs.dcache.parent
    · rw [h.nextDentry]
      exact fun e he ↦ hs.dcache.cached e (h.cache he)
  fresh := by
    rw [h.dentry, h.nextDentry]
    exact hs.fresh
  mountpoint := by
    rw [h.mount, h.nextDentry]
    exact fun m hm ↦ hs.mountpoint m (h.mountTable hm)
  vfsRoot := by
    rw [h.vfsRoot, h.nextDentry]
    exact hs.vfsRoot
  root := by
    rw [h.task, h.nextDentry]
    exact hs.root
  cwd := by
    rw [h.task, h.nextDentry]
    exact hs.cwd
  file := by
    rw [h.task, h.nextDentry]
    exact hs.file

theorem Tidies.grows (h : Tidies s s') (hs : s.Bounded) : Grows s s' :=
  ⟨h.nextDentry.ge, h.bounded hs⟩

theorem Safe.andThen (ho : Safe s Q o)
    (hf : ∀ a s', Grows s s' → Q a s' → Safe s' R (f a s')) : Safe s R (o.andThen f) := by
  apply Outcome.Ensures.andThen ho
  intro a s' h
  apply (hf a s' h.1 h.2).mono
  · intro b s'' h'
    exact ⟨h.1.trans h'.1, h'.2⟩
  · intro s'' h'
    exact h.1.trans h'

theorem safe_err (hs : s.Bounded) : Safe s Q (.err e s) := Grows.refl hs

theorem safe_ok (hs : s.Bounded) {a : α} (ha : Q a s) : Safe s Q (.ok a s) := ⟨.refl hs, ha⟩

theorem safe_panic : Safe s Q .panic := trivial

theorem Safe.onErr {f : Vfs → Outcome Vfs α} (ho : Safe s Q o)
    (hf : ∀ s', Grows s s' → Safe s' Q (f s')) : Safe s Q (o.onErr e f) := by
  apply Outcome.Ensures.onErr ho
  intro s' h
  apply (hf s' h).mono
  · intro a s'' h'
    exact ⟨h.trans h'.1, h'.2⟩
  · intro s'' h'
    exact h.trans h'

theorem Safe.check (hs : s.Bounded) {e : Option Errno} {f : Unit → Vfs → Outcome Vfs α}
    (hf : Safe s Q (f () s)) : Safe s Q ((s.check e).andThen f) := by
  unfold Vfs.check
  split
  · exact hf
  · exact safe_err hs

end Safe

section Calls

variable {s s' : Vfs} {env : CallEnv} {wenv : WalkEnv} {t d dir m : Nat} {nd : Nameidata}
  {pos path root : Path} {mode : WalkMode} {dirfd : Int} {text : PathText} {name : Name}

theorem grows_setTask (hs : s.Bounded) {fs : TaskFs} (hroot : Within fs.root s)
    (hcwd : Within fs.cwd s) (hfile : ∀ fd p, fs.files fd = .file p → Within p s) :
    Grows s (s.setTask t fs) := by
  refine ⟨le_rfl, hs.dcache, hs.fresh, hs.mountpoint, hs.vfsRoot, ?_, ?_, ?_⟩
  · intro u
    by_cases hu : u = t
    · rw [hu]
      simpa [setTask, Within] using hroot
    · simpa [setTask, hu] using hs.root u
  · intro u
    by_cases hu : u = t
    · rw [hu]
      simpa [setTask, Within] using hcwd
    · simpa [setTask, hu] using hs.cwd u
  · intro u
    by_cases hu : u = t
    · rw [hu]
      simpa [setTask, Within] using hfile
    · simpa [setTask, hu] using hs.file u

theorem tidies_setLower (s : Vfs) (fs : Nat) (tree : LowerTree) : Tidies s (s.setLower fs tree) :=
  ⟨rfl, rfl, fun _ h ↦ h, fun _ h ↦ h, rfl, rfl, rfl⟩

theorem tidies_tryRemove (s : Vfs) (fs : Nat) (p : FsPath) : Tidies s (s.tryRemove fs p) := by
  unfold tryRemove
  match (s.lower fs).remove p with
  | none => exact .refl s
  | some tree => exact tidies_setLower s fs tree

theorem tidies_tryRename (s : Vfs) (old new : FsPath) : Tidies s (s.tryRename old new) := by
  unfold tryRename
  match (s.lower ext4).rename old new with
  | none => exact .refl s
  | some tree => exact tidies_setLower s ext4 tree

theorem Grows.safe {α : Type} {Q : α → Vfs → Prop} {o : Outcome Vfs α} (h : Grows s s')
    (ho : Safe s' Q o) : Safe s Q o := by
  apply ho.mono
  · intro a s'' h'
    exact ⟨h.trans h'.1, h'.2⟩
  · intro s'' h'
    exact h.trans h'

theorem tidies_dcache {dcache : Dcache} (hdentry : dcache.dentry = s.dcache.dentry)
    (hnext : dcache.nextDentry = s.dcache.nextDentry) (hcache : dcache.cache ⊆ s.dcache.cache) :
    Tidies s { s with dcache := dcache } :=
  ⟨hdentry, hnext, hcache, fun _ h ↦ h, rfl, rfl, rfl⟩

section

variable (s : Vfs)

theorem tidies_removeTree (p : FsPath) :
    Tidies s { s with dcache := s.dcache.removeDentryCacheTree p } :=
  tidies_dcache rfl rfl fun _ he ↦ mem_of_mem_filter he

theorem tidies_removeDentryCache (p : FsPath) :
    Tidies s { s with dcache := s.dcache.removeDentryCache p } :=
  tidies_dcache rfl rfl fun _ he ↦ mem_of_mem_filter he

theorem tidies_removeDescendants (p : FsPath) :
    Tidies s { s with dcache := s.dcache.removeDentryCacheDescendants p } :=
  tidies_dcache rfl rfl fun _ he ↦ mem_of_mem_filter he

theorem tidies_restoreBackup (ok : Bool) (backup : Option FsPath) (newAbs : FsPath) :
    Tidies s (s.restoreBackup ok backup newAbs) := by
  unfold restoreBackup
  split
  · exact tidies_tryRename s _ newAbs
  · exact .refl s

theorem tidies_dropBackup (ok : Bool) (backup : Option FsPath) : Tidies s (s.dropBackup ok backup) := by
  unfold dropBackup
  split
  · exact tidies_tryRemove s ext4 _
  · exact .refl s

theorem tidies_cleanup (env : CallEnv) (root : Nat) : Tidies s (s.cleanupMountBackingRoot env root) := by
  unfold cleanupMountBackingRoot
  generalize env.cleaned.filter _ = paths
  induction paths generalizing s with
  | nil => exact .refl s
  | cons p paths ih => exact (tidies_tryRemove s ext4 p).trans (ih _)

theorem tidies_detach (m : Nat) : Tidies s { s with mounts := s.mounts.detach m } := by
  unfold MountTree.detach
  split
  all_goals exact ⟨rfl, rfl, fun _ h ↦ h, fun _ h ↦ mem_of_mem_filter h, rfl, rfl, rfl⟩

end

variable {cleanup removeDir : Bool} {newAbs visible : FsPath}

theorem tidies_detachMount (h : s.detachMount env cleanup m = some s') : Tidies s s' := by
  rcases map_eq_some_iff.mp h with ⟨dcache, hvisible, hs'⟩
  have hdcache : Tidies s { s with dcache := dcache } := by
    split at hvisible
    · rcases map_eq_some_iff.mp hvisible with ⟨p, -, rfl⟩
      exact tidies_removeTree s p
    · rw [← some.inj hvisible]
      exact .refl s
  have hbacked : ∀ p, Tidies s
      { s with dcache := (if s.backed m then dcache.removeDentryCacheTree p else dcache) } := by
    intro p
    split
    · exact hdcache.trans (tidies_removeTree _ _)
    · exact hdcache
  have hdetach := ((hbacked (s.dcache.dentry (s.mounts.vfsRoot (s.mounts.mount m).vfsMount)).absPath).trans
    (tidies_removeDentryCache _ (s.dcache.dentry (s.mounts.mount m).mountpoint).absPath)).trans
    (tidies_detach _ m)
  rw [← hs']
  by_cases hcleanup : (cleanup && s.backed m) = true
  · rw [if_pos hcleanup]
    exact hdetach.trans (tidies_cleanup _ env _)
  · rw [if_neg hcleanup]
    exact hdetach

theorem tidies_removeMountTreeInner {depth : Nat}
    (h : removeMountTreeInner env cleanup depth s m = some s') : Tidies s s' := by
  induction depth generalizing s s' m with
  | zero =>
    rw [← some.inj h]
    exact .refl s
  | succ depth ih =>
    rcases bind_eq_some_iff.mp h with ⟨s₁, hchildren, hdetach⟩
    have hfold : ∀ (children : List Nat) (s s₁ : Vfs),
        children.foldlM (removeMountTreeInner env cleanup depth) s = some s₁ → Tidies s s₁ := by
      intro children
      induction children with
      | nil =>
        intro s s₁ h
        rw [← some.inj h]
        exact .refl s
      | cons c children ihc =>
        intro s s₁ h
        rcases bind_eq_some_iff.mp h with ⟨s₂, hc, hrest⟩
        exact (ih hc).trans (ihc s₂ s₁ hrest)
    exact (hfold _ s s₁ hchildren).trans (tidies_detachMount hdetach)

theorem mount_addMount (tree : MountTree) (n : Nat) :
    (tree.addMount n).mount = tree.mount ∧ (tree.addMount n).vfsRoot = tree.vfsRoot := by
  unfold MountTree.addMount
  split
  all_goals exact ⟨rfl, rfl⟩

theorem mountpoint_update {tree : MountTree} {mount : Mount} {bound n : Nat}
    (htree : ∀ x ∈ tree.mountTable, (tree.mount x).mountpoint < bound) (hn : mount.mountpoint < bound)
    (x : Nat) (hx : x ∈ tree.mountTable ∨ x = n) :
    (update tree.mount n mount x).mountpoint < bound := by
  by_cases hxn : x = n
  · rw [hxn, update_self]
    exact hn
  · rw [update_of_ne hxn]
    exact htree x (hx.resolve_right hxn)

theorem mountTable_addMount (tree : MountTree) (n : Nat) :
    (tree.addMount n).mountTable = tree.mountTable ++ [n] := by
  unfold MountTree.addMount
  split
  all_goals rfl

/-! #### Lookups -/

variable (hs : s.Bounded)

include hs

theorem within_basePathFromDirfd {base : Path}
    (h : s.basePathFromDirfd t dirfd text = .ok base) : Within base s := by
  unfold basePathFromDirfd at h
  split_ifs at h
  · rw [← Except.ok.inj h]
    exact hs.cwd t
  split at h
  · simp at h
  · simp at h
  next path hfile =>
  split_ifs at h
  rw [← Except.ok.inj h]
  exact hs.file t _ path hfile

theorem safe_walk (hroot : Within root s) (hpos : Within pos s) :
    Safe s (fun nd s' ↦ Within nd.pos s') (s.walk wenv root mode (.newFromPath root text pos)) := by
  have hbase : (Nameidata.newFromPath root text pos).pos.dentry < s.dcache.nextDentry := by
    unfold Nameidata.newFromPath
    split
    · exact hroot
    · exact hpos
  apply (walkWithin_spec hs hroot hbase).mono
  · intro nd s' h
    exact ⟨h.1.grows, h.2⟩
  · intro s' h
    exact h.grows

theorem safe_resolvePath : Safe s Within (s.resolvePath wenv t mode dirfd text) := by
  unfold resolvePath
  split
  · exact safe_err hs
  split
  · exact safe_err hs
  split
  · exact safe_err hs
  next base hbase =>
  have hroot : Within (s.task t).root s := hs.root t
  have hwalk : Safe s (fun nd s' ↦ Within nd.pos s')
      (s.walk wenv (s.task t).root mode (.newFromPath (s.task t).root text base)) :=
    safe_walk hs hroot (within_basePathFromDirfd hs hbase)
  apply Safe.andThen
  · apply hwalk.onErr
    intro s₁ hs₁
    split
    · exact safe_walk hs₁.bounded (hroot.grow hs₁) (hroot.grow hs₁)
    · exact safe_err hs₁.bounded
  · intro nd s₁ hs₁ hnd
    exact safe_ok hs₁.bounded hnd

theorem safe_parentWalk :
    Safe s (fun nd s' ↦ Within nd.pos s') (s.parentWalk wenv t dirfd text) := by
  unfold parentWalk
  split
  · exact safe_err hs
  split
  · exact safe_err hs
  · next base hbase => exact safe_walk hs (hs.root t) (within_basePathFromDirfd hs hbase)

theorem safe_lookupChild (hdir : dir < s.dcache.nextDentry) :
    Safe s (fun d s' ↦ d < s'.dcache.nextDentry) (s.lookupChild wenv dir name) := by
  apply lookupChild_spec.mono
  · intro d s' h
    have hfinds := h.finds hs hdir
    exact ⟨hfinds.1.grows, hfinds.2⟩
  · intro s' h
    rw [h]
    exact .refl hs

theorem safe_lookupDentry (hpos : Within pos s) {follow : Bool} :
    Safe s Within (s.lookupDentryMaybeFollowMount wenv pos name follow) := by
  apply (safe_lookupChild hs hpos).andThen
  intro d s' hs' hd
  exact safe_ok hs'.bounded (hs'.bounded.enter hd _)

theorem safe_lookupDirectory : Safe s Within (s.lookupDirectory wenv t text) := by
  apply (safe_resolvePath hs).andThen
  intro path s' hs' hpath
  split
  · exact safe_err hs'.bounded
  · exact .check hs'.bounded (safe_ok hs'.bounded hpath)

/-- A call whose value does not matter. -/
abbrev SafeCall (s : Vfs) (o : Outcome Vfs Unit) : Prop := Safe s (fun _ _ ↦ True) o

theorem safe_setTask {fs : TaskFs} (hroot : Within fs.root s)
    (hcwd : Within fs.cwd s) (hfile : ∀ fd p, fs.files fd = .file p → Within p s) :
    SafeCall s (.ok () (s.setTask t fs)) :=
  ⟨grows_setTask hs hroot hcwd hfile, trivial⟩

theorem safe_sysChdir : SafeCall s (s.sysChdir env t text) := by
  apply (safe_lookupDirectory hs).andThen
  intro path s' hs' hpath
  exact safe_setTask hs'.bounded (hs'.bounded.root t) hpath (hs'.bounded.file t)

theorem safe_sysChroot : SafeCall s (s.sysChroot env t text) := by
  apply (safe_lookupDirectory hs).andThen
  intro path s' hs' hpath
  split
  · exact safe_err hs'.bounded
  · exact safe_setTask hs'.bounded hpath (hs'.bounded.cwd t) (hs'.bounded.file t)

variable {fd old : Nat} {inode : Inode} {noReplace : Bool} {args : MountArgs} {target : Path}

theorem safe_sysFchdir : SafeCall s (s.sysFchdir env t fd) := by
  fun_cases s.sysFchdir env t fd with
  | case4 path hfile =>
    exact .check hs (safe_setTask hs (hs.root t) (hs.file t fd path hfile) (hs.file t))
  | _ => exact safe_err hs

theorem within_files_update {entry : FdEntry}
    (hentry : ∀ p, entry = .file p → Within p s) (fd' : Nat) (p : Path)
    (h : update (s.task t).files fd entry fd' = .file p) : Within p s := by
  by_cases hfd : fd' = fd
  · rw [hfd, update_self] at h
    exact hentry p h
  · rw [update_of_ne hfd] at h
    exact hs.file t fd' p h

theorem safe_pathOpen {noFollow : Bool} : SafeCall s (s.pathOpen env t dirfd text fd noFollow) := by
  apply (safe_resolvePath hs).andThen
  intro path s' hs' hpath
  split
  · exact safe_err hs'.bounded
  apply Safe.check hs'.bounded
  apply safe_setTask hs'.bounded
  · exact hs'.bounded.root t
  · exact hs'.bounded.cwd t
  · apply within_files_update hs'.bounded
    intro p hp
    rw [← FdEntry.file.inj hp]
    exact hpath

/-! #### Creation, removal and rename -/

theorem safe_rejectTrailing (hpos : Within nd.pos s) : SafeCall s (s.rejectTrailing env nd) := by
  unfold rejectTrailing
  split
  · exact safe_ok hs trivial
  split
  · exact safe_panic
  · apply (safe_lookupChild hs hpos).andThen
    intro d s' hs' _
    exact safe_err hs'.bounded

theorem safe_install (hdir : dir < s.dcache.nextDentry) {p : FsPath} :
    SafeCall s ((s.install wenv dir p inode).andThen fun _ s ↦ .ok () s) := by
  match h : s.install wenv dir p inode with
  | .ok d s' => exact ⟨(of_install hs hdir h).1.grows, trivial⟩
  | .err e s' =>
    unfold install at h
    dsimp only at h
    split at h <;> simp at h
  | .panic => exact safe_panic

theorem safe_createIn (hdir : dir < s.dcache.nextDentry) :
    SafeCall s (s.createIn env dir name inode) := by
  unfold createIn
  dsimp only
  split
  · exact safe_panic
  · exact safe_err hs
  split
  · exact safe_err hs
  next p _ _ _ tree _ =>
  have hlower := tidies_setLower s (s.dcache.dentry dir).inode.fs tree
  split
  · exact (hlower.trans (tidies_tryRemove _ _ _)).grows hs
  · exact (hlower.grows hs).safe (safe_install (hlower.bounded hs) hdir)

theorem safe_createLast (hpos : Within nd.pos s) {extra : Option Errno} :
    SafeCall s (s.createLast env nd inode extra) := by
  unfold createLast
  split
  · exact safe_err hs
  split
  · exact safe_err hs
  apply Safe.check hs
  apply Safe.check hs
  apply Safe.onErr
  · apply (safe_lookupChild hs hpos).andThen
    intro d s' hs' _
    exact safe_err hs'.bounded
  · intro s' hs'
    exact safe_createIn hs'.bounded (hpos.grow hs')

theorem safe_filenameCreate {ty : InodeType} :
    SafeCall s (s.filenameCreate env t dirfd text ty) := by
  unfold filenameCreate
  split
  · exact safe_err hs
  apply (safe_parentWalk hs).andThen
  intro nd s₁ hs₁ hnd
  have hreject : SafeCall s₁ (if ty = .directory then .ok () s₁ else s₁.rejectTrailing env nd) := by
    split
    · exact safe_ok hs₁.bounded trivial
    · exact safe_rejectTrailing hs₁.bounded hnd
  apply hreject.andThen
  intro _ s₂ hs₂ _
  exact safe_createLast hs₂.bounded (hnd.grow hs₂)

theorem safe_filenameSymlink {target : PathText} :
    SafeCall s (s.filenameSymlink env t target dirfd text) := by
  unfold filenameSymlink
  split
  · exact safe_err hs
  apply (safe_parentWalk hs).andThen
  intro nd s₁ hs₁ hnd
  apply (safe_rejectTrailing hs₁.bounded hnd).andThen
  intro _ s₂ hs₂ _
  exact safe_createLast hs₂.bounded (hnd.grow hs₂)

theorem safe_filenameLink {newdirfd : Int} {newText : PathText} {followOld : Bool} :
    SafeCall s (s.filenameLink env t dirfd text newdirfd newText followOld) := by
  unfold filenameLink
  split
  · exact safe_err hs
  apply (safe_resolvePath hs).andThen
  intro old s₁ hs₁ _
  apply (safe_parentWalk hs₁.bounded).andThen
  intro nd s₂ hs₂ hnd
  apply (safe_rejectTrailing hs₂.bounded hnd).andThen
  intro _ s₃ hs₃ _
  exact safe_createLast hs₃.bounded (hnd.grow hs₃)

theorem safe_unlinkTarget {requiresDirectory : Bool} :
    SafeCall s (s.unlinkTarget env requiresDirectory d removeDir) := by
  fun_cases s.unlinkTarget env requiresDirectory d removeDir with
  | case5 => exact safe_panic
  | case10 =>
    exact ⟨((tidies_setLower s ext4 _).trans (tidies_removeTree _ _)).grows hs, trivial⟩
  | _ => exact safe_err hs

theorem safe_filenameUnlink : SafeCall s (s.filenameUnlink env t dirfd text removeDir) := by
  unfold filenameUnlink
  split
  · exact safe_err hs
  apply (safe_parentWalk hs).andThen
  intro nd s₁ hs₁ hnd
  split
  · exact safe_err hs₁.bounded
  split
  · exact safe_err hs₁.bounded
  apply Safe.check hs₁.bounded
  apply (safe_lookupDentry hs₁.bounded hnd).andThen
  intro target s₂ hs₂ _
  exact safe_unlinkTarget hs₂.bounded

theorem safe_fileRename {e : Option Errno} {old new : FsPath} :
    SafeCall s (s.fileRename e old new) := by
  unfold fileRename
  split
  · exact safe_err hs
  · exact safe_err hs
  · exact ⟨(tidies_setLower s ext4 _).grows hs, trivial⟩

theorem safe_setAside {existing : Nat} :
    Safe s (fun _ _ ↦ True) (s.setAside env old existing noReplace) := by
  unfold setAside
  dsimp only
  split
  · exact safe_panic
  split
  · exact safe_err hs
  split
  · exact safe_err hs
  split
  · exact safe_err hs
  apply Safe.check hs
  split
  · exact safe_ok hs trivial
  apply Safe.check hs
  split
  · exact safe_err hs
  split
  · exact safe_err hs
  apply (safe_fileRename hs).andThen
  intro _ s₁ hs₁ _
  exact ⟨(tidies_removeTree s₁ _).grows hs₁.bounded, trivial⟩

theorem grows_relocate {dir : Nat} {victim : Option FsPath} {dcache dcache' : Dcache}
    (hold : old < s.dcache.nextDentry) (hdir : dir < s.dcache.nextDentry)
    (hdentry : dcache.dentry = s.dcache.dentry) (hnext : dcache.nextDentry = s.dcache.nextDentry)
    (hcache : dcache.cache ⊆ s.dcache.cache)
    (h : (dcache.relocate old newAbs dir).insertDentryCache victim old = some dcache') :
    Grows s { s with dcache := dcache' } := by
  rcases Dcache.of_insertDentryCache h with ⟨hdentry', hnext', p, -, hcache'⟩
  have hnext'' : dcache'.nextDentry = s.dcache.nextDentry := hnext'.trans hnext
  have hparent : ∀ e, (dcache'.dentry e).parent =
      if e = old then some dir else (s.dcache.dentry e).parent := by
    intro e
    rw [hdentry', ← hdentry]
    by_cases he : e = old <;> simp [Dcache.relocate, he]
  refine ⟨hnext''.ge, ⟨?_, ?_⟩, ?_, ?_, ?_, ?_, ?_, ?_⟩
  · intro e p hp
    rw [hparent] at hp
    rw [hnext'']
    split at hp
    · rwa [← some.inj hp]
    · exact hs.dcache.parent e p hp
  · intro e he
    rw [hnext'']
    rcases hcache' e he with rfl | he
    · exact hold
    · exact hs.dcache.cached e (hcache he)
  · intro e he
    have he' : s.dcache.nextDentry ≤ e := hnext'' ▸ he
    rw [hparent, if_neg (by omega)]
    exact hs.fresh e he'
  · exact fun m hm ↦ hnext'' ▸ hs.mountpoint m hm
  · exact fun vfs ↦ hnext'' ▸ hs.vfsRoot vfs
  · exact fun t ↦ hnext'' ▸ hs.root t
  · exact fun t ↦ hnext'' ▸ hs.cwd t
  · exact fun t fd p hp ↦ hnext'' ▸ hs.file t fd p hp

theorem safe_commitRename {dir : Nat} (hold : old < s.dcache.nextDentry)
    (hdir : dir < s.dcache.nextDentry) {oldPath : FsPath} {backup : Option FsPath} :
    SafeCall s (s.commitRename env old dir oldPath newAbs backup) := by
  unfold commitRename
  have hrename : SafeCall s (s.fileRename env.rename oldPath newAbs) := safe_fileRename hs
  match hr : s.fileRename env.rename oldPath newAbs with
  | .panic => exact safe_panic
  | .err e s₁ =>
    rw [hr] at hrename
    have hs₁ : Grows s s₁ := hrename
    exact hs₁.trans ((tidies_restoreBackup s₁ _ backup newAbs).grows hs₁.bounded)
  | .ok _ s₁ =>
    rw [hr] at hrename
    have hs₁ : Grows s s₁ := hrename.1
    have hs₂ := hs₁.trans ((tidies_dropBackup s₁ env.dropBackup backup).grows hs₁.bounded)
    dsimp only
    split
    · exact hs₂
    split
    · exact safe_panic
    next dcache hinsert =>
    refine ⟨hs₂.trans (grows_relocate hs₂.bounded ?_ ?_ ?_ ?_ ?_ hinsert), trivial⟩
    · exact lt_of_lt_of_le hold hs₂.next_le
    · exact lt_of_lt_of_le hdir hs₂.next_le
    · rfl
    · rfl
    · exact fun e he ↦ mem_of_mem_filter (mem_of_mem_filter he)

theorem safe_renameTo {old : Path} (hold : Within old s) (hpos : Within nd.pos s) :
    SafeCall s (s.renameTo env old nd name noReplace) := by
  unfold renameTo
  split
  · split
    · split
      · exact safe_err hs
      · exact safe_ok hs trivial
    split
    · exact safe_err hs
    split
    · exact safe_err hs
    have hlookup : Safe s (fun d s' ↦ d < s'.dcache.nextDentry)
        (s.lookupChild env.toWalkEnv nd.pos.dentry name) := safe_lookupChild hs hpos
    split
    · exact safe_panic
    · next s₁ herr =>
      rw [herr] at hlookup
      have hs₁ : Grows s s₁ := hlookup
      exact hs₁.safe (safe_commitRename hs₁.bounded (hold.grow hs₁) (hpos.grow hs₁))
    next d s₁ hok =>
    rw [hok] at hlookup
    have hs₁ : Grows s s₁ := hlookup.1
    have hexisting : Within (s₁.enter true nd.pos.mnt d) s₁ := hs₁.bounded.enter hlookup.2 _
    apply hs₁.safe
    apply (safe_setAside hs₁.bounded).andThen
    intro backup s₂ hs₂ _
    split
    · exact safe_ok hs₂.bounded trivial
    apply safe_commitRename hs₂.bounded ((hold.grow hs₁).grow hs₂)
    split
    · exact lt_of_lt_of_le hexisting hs₂.next_le
    · exact (hpos.grow hs₁).grow hs₂
  · exact safe_panic

theorem safe_filenameRename {newdirfd : Int} {newText : PathText} :
    SafeCall s (s.filenameRename env t dirfd text newdirfd newText noReplace) := by
  unfold filenameRename
  split
  · exact safe_err hs
  apply (safe_resolvePath hs).andThen
  intro old s₁ hs₁ hold
  split
  · exact safe_err hs₁.bounded
  apply Safe.check hs₁.bounded
  apply Safe.check hs₁.bounded
  apply (safe_parentWalk hs₁.bounded).andThen
  intro nd s₂ hs₂ hnd
  split
  · exact safe_err hs₂.bounded
  split
  · exact safe_err hs₂.bounded
  apply Safe.check hs₂.bounded
  exact safe_renameTo hs₂.bounded (hold.grow hs₂) hnd

/-! #### Mounts -/

theorem safe_lookupMountTarget : Safe s (fun _ _ ↦ True) (s.lookupMountTarget wenv t text) := by
  apply (safe_resolvePath hs).andThen
  intro mountpoint s₁ hs₁ _
  split
  · exact safe_ok hs₁.bounded trivial
  apply (safe_resolvePath hs₁.bounded).andThen
  intro target s₂ hs₂ _
  split
  · split
    · exact safe_ok hs₂.bounded trivial
    · exact safe_err hs₂.bounded
  · exact safe_err hs₂.bounded

theorem safe_createMountBackingRoot {attempts : Nat} :
    Safe s (fun d s' ↦ d < s'.dcache.nextDentry) (createMountBackingRoot env attempts s) := by
  induction attempts generalizing s with
  | zero => exact safe_err hs
  | succ attempts ih =>
    unfold createMountBackingRoot
    dsimp only
    have hcount : Tidies s { s with backingId := s.backingId + 1 } :=
      ⟨rfl, rfl, fun _ h ↦ h, fun _ h ↦ h, rfl, rfl, rfl⟩
    split
    · exact hcount.grows hs
    · exact (hcount.grows hs).safe (ih (hcount.bounded hs))
    refine ⟨⟨le_succ _, ?_⟩, lt_succ_self _⟩
    constructor
    · exact hs.dcache.alloc (by simp)
    · intro d hd
      have hne : d ≠ s.dcache.nextDentry := ne_of_gt hd
      simp only [Dcache.alloc, setLower, update_of_ne hne]
      exact hs.fresh d (le_trans (le_succ _) hd)
    · exact fun m hm ↦ lt_succ_of_lt (hs.mountpoint m hm)
    · exact fun vfs ↦ lt_succ_of_lt (hs.vfsRoot vfs)
    · exact fun t ↦ lt_succ_of_lt (hs.root t)
    · exact fun t ↦ lt_succ_of_lt (hs.cwd t)
    · exact fun t fd p hp ↦ lt_succ_of_lt (hs.file t fd p hp)

theorem Vfs.Bounded.setMounts {mounts : MountTree}
    (hpoint : ∀ x ∈ mounts.mountTable, (mounts.mount x).mountpoint < s.dcache.nextDentry)
    (hroot : ∀ vfs, mounts.vfsRoot vfs < s.dcache.nextDentry) (flags : Nat → MountFlags)
    (backed : Nat → Bool) :
    ({ s with mounts := mounts, flags := flags, backed := backed } : Vfs).Bounded :=
  ⟨hs.dcache, hs.fresh, hpoint, hroot, hs.root, hs.cwd, hs.file⟩

theorem safe_finishMount (htarget : Within target s) {root : Nat}
    (hroot : root < s.dcache.nextDentry) {backed : Bool} :
    SafeCall s (s.finishMount args target visible root backed) := by
  unfold finishMount
  split
  · exact safe_err hs
  have hpurged := (tidies_removeDescendants s visible).bounded hs
  refine ⟨⟨le_rfl, hpurged.setMounts ?_ ?_ _ _⟩, trivial⟩
  · unfold MountTree.mountNew
    rw [mountTable_addMount, (mount_addMount _ _).1]
    intro x hx
    refine mountpoint_update hs.mountpoint ?_ x ?_
    · exact htarget
    · rcases mem_append.mp hx with hx | hx
      · exact .inl hx
      · exact .inr (mem_singleton.mp hx)
  · unfold MountTree.mountNew
    rw [(mount_addMount _ _).2]
    intro vfs
    dsimp only [MountTree.allocate]
    by_cases hvfs : vfs = s.mounts.nextVfs
    · rw [hvfs, update_self]
      exact hroot
    · rw [update_of_ne hvfs]
      exact hs.vfsRoot vfs

theorem safe_remount : SafeCall s (s.remount env args target) := by
  unfold remount
  split
  · exact safe_err hs
  split
  · exact safe_err hs
  apply Safe.check hs
  exact ⟨⟨le_rfl, hs.setMounts hs.mountpoint hs.vfsRoot _ _⟩, trivial⟩

theorem safe_moveMount (htarget : Within target s) :
    SafeCall s (s.moveMount env t args target visible) := by
  apply (safe_lookupMountTarget hs).andThen
  intro source s₁ hs₁ _
  split
  · exact safe_err hs₁.bounded
  split
  · exact safe_err hs₁.bounded
  next parent _ _ =>
  dsimp only
  split
  · exact safe_panic
  next s₂ hremove =>
  have hbound : target.dentry < s₁.dcache.nextDentry := htarget.grow hs₁
  have hmade : ({ s₁ with
      dcache := s₁.dcache.removeDentryCacheDescendants visible
      mounts := s₁.mounts.allocate ⟨target.dentry, (s₁.mounts.mount source).vfsMount, some parent⟩
      backed := update s₁.backed s₁.mounts.nextMount (s₁.backed source) } : Vfs).Bounded := by
    apply ((tidies_removeDescendants s₁ visible).bounded hs₁.bounded).setMounts
    · exact fun x hx ↦ mountpoint_update hs₁.bounded.mountpoint hbound x (.inl hx)
    · exact hs₁.bounded.vfsRoot
  have htidies := tidies_removeMountTreeInner hremove
  have hremoved := (htidies.trans (tidies_removeTree s₂
    (s₁.dcache.dentry (s₁.mounts.mount source).mountpoint).absPath)).bounded hmade
  refine ⟨⟨htidies.nextDentry.ge, hremoved.setMounts ?_ ?_ _ _⟩, trivial⟩
  · rw [mountTable_addMount, (mount_addMount _ _).1, htidies.mount]
    intro x hx
    show _ < s₂.dcache.nextDentry
    rw [htidies.nextDentry]
    apply mountpoint_update hs₁.bounded.mountpoint hbound x
    rcases mem_append.mp hx with hx | hx
    · exact .inl (htidies.mountTable hx)
    · exact .inr (mem_singleton.mp hx)
  · rw [(mount_addMount _ _).2, htidies.vfsRoot]
    intro vfs
    show _ < s₂.dcache.nextDentry
    rw [htidies.nextDentry]
    exact hs₁.bounded.vfsRoot vfs

theorem safe_doMount : SafeCall s (s.doMount env t args) := by
  apply (safe_resolvePath hs).andThen
  intro target s₁ hs₁ htarget
  split
  · exact safe_panic
  split
  · exact safe_err hs₁.bounded
  split
  · exact safe_remount hs₁.bounded
  split
  · exact safe_ok hs₁.bounded trivial
  split
  · exact safe_moveMount hs₁.bounded htarget
  split
  · exact safe_err hs₁.bounded
  split
  · apply (safe_resolvePath hs₁.bounded).andThen
    intro source s₂ hs₂ hsource
    exact safe_finishMount hs₂.bounded (htarget.grow hs₂) hsource
  split
  · apply (safe_createMountBackingRoot hs₁.bounded).andThen
    intro root s₂ hs₂ hroot
    exact safe_finishMount hs₂.bounded (htarget.grow hs₂) hroot
  split
  · exact safe_err hs₁.bounded
  apply (safe_resolvePath hs₁.bounded).andThen
  intro source s₂ hs₂ _
  split
  · exact safe_err hs₂.bounded
  apply (safe_createMountBackingRoot hs₂.bounded).andThen
  intro root s₃ hs₃ hroot
  exact safe_finishMount hs₃.bounded ((htarget.grow hs₂).grow hs₃) hroot

theorem safe_umountNoFollow {args : UmountArgs} : SafeCall s (s.umountNoFollow env t args) := by
  unfold umountNoFollow
  split
  · exact safe_ok hs trivial
  apply (safe_resolvePath hs).andThen
  intro path s₁ hs₁ _
  split
  · exact safe_err hs₁.bounded
  · exact safe_ok hs₁.bounded trivial

theorem safe_syncAndRemove : SafeCall s (s.syncAndRemove env m) := by
  unfold syncAndRemove
  split
  · exact safe_err hs
  · exact safe_panic
  · next hremove => exact ⟨(tidies_removeMountTreeInner hremove).grows hs, trivial⟩

theorem safe_doUmount2 {args : UmountArgs} : SafeCall s (s.doUmount2 env t args) := by
  unfold doUmount2
  split
  · exact safe_err hs
  apply (safe_umountNoFollow hs).andThen
  intro _ s₁ hs₁ _
  apply (safe_lookupMountTarget hs₁.bounded).andThen
  intro m s₂ hs₂ _
  have hexpire : Tidies s₂ { s₂ with mounts := s₂.mounts.noteExpire m } :=
    ⟨rfl, rfl, fun _ h ↦ h, fun _ h ↦ h, rfl, rfl, rfl⟩
  split
  · exact safe_err hs₂.bounded
  split
  · exact safe_err hs₂.bounded
  split
  · split
    · exact hexpire.grows hs₂.bounded
    · exact (hexpire.grows hs₂.bounded).safe (safe_syncAndRemove (hexpire.bounded hs₂.bounded))
  · exact safe_syncAndRemove hs₂.bounded

theorem safe_call (call : VfsCall) : SafeCall s (s.call env call) := by
  cases call with
  | lookup t mode dirfd text =>
    apply (safe_resolvePath hs).andThen
    intro _ s₁ hs₁ _
    exact safe_ok hs₁.bounded trivial
  | chdir t text => exact safe_sysChdir hs
  | chroot t text => exact safe_sysChroot hs
  | fchdir t fd => exact safe_sysFchdir hs
  | open_ t dirfd text fd noFollow => exact safe_pathOpen hs
  | close t fd =>
    apply safe_setTask hs
    · exact hs.root t
    · exact hs.cwd t
    · exact within_files_update hs (by simp)
  | fork t child => exact safe_setTask hs (hs.root t) (hs.cwd t) (hs.file t)
  | create t dirfd text ty => exact safe_filenameCreate hs
  | symlink t target dirfd text => exact safe_filenameSymlink hs
  | link t olddirfd oldText newdirfd newText followOld => exact safe_filenameLink hs
  | unlink t dirfd text removeDir => exact safe_filenameUnlink hs
  | rename t olddirfd oldText newdirfd newText noReplace => exact safe_filenameRename hs
  | mount t args => exact safe_doMount hs
  | umount t args => exact safe_doUmount2 hs
  | evict p => exact ⟨(tidies_removeDentryCache s p).grows hs, trivial⟩
  | refresh fs tree =>
    unfold call
    dsimp only
    split
    · exact safe_ok hs trivial
    · exact ⟨(tidies_setLower s fs tree).grows hs, trivial⟩

end Calls

def Booted (s : Vfs) : Prop := ∃ lower auxiliary, s = bootVfs lower auxiliary

theorem bounded_bootVfs (lower : Nat → LowerTree) (auxiliary : Bool) :
    (bootVfs lower auxiliary).Bounded := by
  have hparent : ∀ d p, (bootDentry d).parent = some p → p < 8 ∧ d < 8 := by
    intro d p hp
    unfold bootDentry at hp
    split at hp <;> simp at hp <;> omega
  constructor
  · constructor
    · exact fun d p hp ↦ (hparent d p hp).1
    · intro e he
      cases auxiliary with
      | false =>
        simp only [bootVfs, Bool.false_eq_true, if_false, append_nil, mem_cons,
          not_mem_nil, or_false] at he
        rcases he with rfl | rfl | rfl <;> simp [bootVfs]
      | true =>
        simp only [bootVfs, if_true, cons_append, nil_append, mem_cons, not_mem_nil, or_false] at he
        rcases he with rfl | rfl | rfl | rfl <;> simp [bootVfs]
  · intro d hd
    apply eq_none_iff_forall_ne_some.mpr
    intro p hp
    exact absurd (hparent d p hp).2 (not_lt.mpr hd)
  · intro m _
    show (bootMount m).mountpoint < 8
    unfold bootMount
    split <;> decide
  · intro vfs
    show (match vfs with | 1 => 2 | 2 => 5 | 3 => 7 | _ => 0) < 8
    split <;> decide
  · exact fun _ ↦ show 0 < 8 by decide
  · exact fun _ ↦ show 0 < 8 by decide
  · intro t fd p hp
    simp [bootVfs] at hp

theorem bounded_of_run {s : Vfs} (hrun : Run Booted (fun _ _ ↦ True) Vfs.Step s) : s.Bounded := by
  apply Run.invariant _ _ hrun
  · rintro s ⟨lower, auxiliary, rfl⟩
    exact bounded_bootVfs lower auxiliary
  · intro s l s' hs _ hstep
    have hsafe : (s.call l.1 l.2).Ensures (fun _ s' ↦ s'.Bounded) Vfs.Bounded :=
      (safe_call hs l.2).mono (fun _ _ h ↦ h.1.bounded) fun _ h ↦ h.bounded
    exact hsafe.keeps s' hstep

end RespOS.Fs
