import RespOS.Fs.Dentry
import RespOS.Fs.MountTree

/-!
# Path resolution

A position in the namespace is a `VfsMount` and a dentry. `resolve_path_from` and `link_path_walk` take the
text of a path component by component: `.` stays, `..` goes to the parent unless the position is the root of
the task, a symbolic link puts its target before the rest of the path, and any other name is looked up in
the cache of dentries and, where it is not cached, in the lower file system. A mountpoint leads on to the
root of what is mounted there.

The cache is keyed by the path that a dentry has inside its file system. The root of a file system has the
path `/` in most of them, so all of them share the keys.

`walkStep` is one round of the loop of either function. It returns where the walk is then, so the runs of
`walkStep` are the positions that a resolution goes through. `walkWithin` repeats it, and
`walkWithin_eq_of_le` says that `walkFuel` rounds are enough: a component is used up in every round, and at
most `maxSymlinkFollows` links are followed, each to a path of at most `pathMax` bytes.

What depends on credentials and devices is asked of a `WalkEnv`. A mount is alive while the mount table
lists it.
-/

namespace RespOS.Fs

open Outcome List

abbrev PathText := List UInt8

def maxSymlinkFollows : Nat := 40
def pathMax : Nat := 4096
def nameMax : Nat := 255

def bytes (text : String) : PathText := text.toList.map fun c ↦ c.toNat.toUInt8

def slash : UInt8 := 47
def dot : Name := [46]
def dotdot : Name := [46, 46]

def isAbsolute (text : PathText) : Bool := text.head? = some slash

def endsWithSlash (text : PathText) : Bool := text.getLast? = some slash

def splitPath (text : PathText) : List Name := (text.splitOn slash).filter (· ≠ [])

def validatePathComponents (text : PathText) : Bool :=
  (text.splitOn slash).all fun name ↦ name.length ≤ nameMax

def joinSymlinkTarget (target : PathText) (rest : List Name) (requiresDirectory : Bool) : PathText :=
  let path := rest.foldl (fun path segment ↦
    if path = [] || endsWithSlash path then path ++ segment else path ++ slash :: segment) target
  if requiresDirectory && !endsWithSlash path then path ++ [slash] else path

def glibcDefaultLibAlias (text : PathText) : Option PathText :=
  ([bytes "/lib/", bytes "/lib64/", bytes "/usr/lib/", bytes "/usr/lib64/"].find?
    (·.isPrefixOf text)).map fun lib ↦ bytes "/glibc/lib/" ++ text.drop lib.length

/-- An entry of a descriptor table; `other` is what is not a `File`. -/
inductive FdEntry
  | closed
  | file (path : Path)
  | other

/-- What a task has for path resolution. -/
structure TaskFs where
  root : Path
  cwd : Path
  files : Nat → FdEntry

/-- The flags of a `VfsMount` that path resolution looks at. -/
structure MountFlags where
  readonly : Bool := false
  noSymFollow : Bool := false

/-- The number of the lower file system that holds both disks: it takes paths of either of them. -/
def ext4 : Nat := 0

/-- The namespace. `lower` is what each file system holds. -/
structure Vfs where
  dcache : Dcache
  lower : Nat → LowerTree
  mounts : MountTree
  /-- The flags of a `VfsMount`. -/
  flags : Nat → MountFlags
  /-- The `Mount` has a backing root. -/
  backed : Nat → Bool
  task : Nat → TaskFs
  /-- `MOUNT_BACKING_ID`. -/
  backingId : Nat

/-- `Nameidata`; `segments` are the components from `depth` on. -/
structure Nameidata where
  pos : Path
  segments : List Name
  requiresDirectory : Bool

/-- `Nameidata::new_from_path`, for a task with this root. -/
def Nameidata.newFromPath (root : Path) (text : PathText) (base : Path) : Nameidata where
  pos := if isAbsolute text then root else base
  segments := splitPath text
  requiresDirectory := endsWithSlash text

/-- What path resolution asks of credentials and of the file systems: the errors of
`check_dir_search_permission`, of a lower lookup in a directory and of reading a link, the texts of the
links that are made up when they are read, as in `/proc`, and the entry that the cache gives up for a new
dentry when it is full. -/
structure WalkEnv where
  search : Nat → Option Errno := fun _ ↦ none
  lookup : Nat → Option Errno := fun _ ↦ none
  readLink : Nat → Option Errno := fun _ ↦ none
  procLink : Nat → PathText := fun _ ↦ []
  victim : Nat → Option FsPath := fun _ ↦ none

/-- The two functions: `resolve_path_from` with its three flags, and `link_path_walk`, which stops before
the last component. -/
inductive WalkMode
  | resolve (followFinalSymlink followFinalMount followTrailingSymlink : Bool)
  | parent
  deriving DecidableEq

/-- The walk enters a mount at a component with this many components after it. -/
def WalkMode.followsMount (mode : WalkMode) (rest : List Name) : Bool :=
  match mode with
  | .resolve _ followFinalMount _ => rest ≠ [] || followFinalMount
  | .parent => true

/-- The walk follows a symbolic link there. -/
def WalkMode.followsSymlink (mode : WalkMode) (rest : List Name) (requiresDirectory : Bool) : Bool :=
  match mode with
  | .resolve followFinalSymlink _ followTrailingSymlink =>
    rest ≠ [] || followFinalSymlink || requiresDirectory && followTrailingSymlink
  | .parent => true

/-- Where a walk is: on its way, with the number of links followed, or at its end. -/
inductive WalkState
  | walking (nd : Nameidata) (follows : Nat)
  | done (nd : Nameidata)

def WalkState.pos : WalkState → Path
  | .walking nd _ => nd.pos
  | .done nd => nd.pos

namespace Vfs

variable (s : Vfs)

def isDirectory (d : Nat) : Bool := (s.dcache.dentry d).inode.ty = .directory

def parentOrSelf (d : Nat) : Nat := (s.dcache.dentry d).parent.getD d

/-- Where a file system is mounted, if its mount has a parent that is alive. -/
def mountedOn (vfs : Nat) : Option Path :=
  (s.mounts.getMountByVfsmount vfs).bind fun m ↦
    ((s.mounts.mount m).parent.filter fun p ↦ p ∈ s.mounts.mountTable).map fun p ↦
      ⟨(s.mounts.mount p).vfsMount, (s.mounts.mount m).mountpoint⟩

/-- `follow_dotdot`, for a task with this root. -/
def followDotdot (root pos : Path) : Path :=
  if pos = root then pos
  else if pos.dentry = s.mounts.vfsRoot pos.mnt then
    match s.mountedOn pos.mnt with
    | some on => if on = root then pos else ⟨on.mnt, s.parentOrSelf on.dentry⟩
    | none => ⟨pos.mnt, s.parentOrSelf pos.dentry⟩
  else ⟨pos.mnt, s.parentOrSelf pos.dentry⟩

/-- The position of a dentry, or the root of what is mounted there. -/
def enter (followMount : Bool) (mnt d : Nat) : Path :=
  match followMount, s.mounts.getMountByDentry d with
  | true, some m =>
    let vfs := (s.mounts.mount m).vfsMount
    ⟨vfs, s.mounts.vfsRoot vfs⟩
  | _, _ => ⟨mnt, d⟩

/-- The lower `lookup` in a directory with this path. -/
def lowerLookup (env : WalkEnv) (dir : Nat) (absPath : FsPath) : Except Errno Inode :=
  match env.lookup dir with
  | some e => .error e
  | none =>
    if !s.isDirectory dir then .error .ENOTDIR
    else match (s.lower (s.dcache.dentry dir).inode.fs).find absPath with
      | none => .error .ENOENT
      | some inode => .ok inode

/-- A new dentry for a name in a directory, and into the cache with it. -/
def install (env : WalkEnv) (dir : Nat) (absPath : FsPath) (inode : Inode) : Outcome Vfs Nat :=
  let d := s.dcache.nextDentry
  let dcache := s.dcache.alloc { absPath := absPath, parent := some dir, inode := inode }
  match dcache.insertDentryCache (env.victim d) d with
  | none => .panic
  | some dcache => .ok d { s with dcache := dcache }

/-- The dentry that the cache has for a name in a directory. -/
def cachedChild (dir : Nat) (name : Name) : Option Nat :=
  (s.dcache.childAbsPath dir name).bind s.dcache.lookupDentryCache

/-- The dentry for a name in a directory. There is no path where the parents go round in a circle. -/
def lookupChild (env : WalkEnv) (dir : Nat) (name : Name) : Outcome Vfs Nat :=
  match s.dcache.childAbsPath dir name, s.cachedChild dir name with
  | none, _ => .panic
  | some _, some cached => .ok cached s
  | some absPath, none =>
    match s.lowerLookup env dir absPath with
    | .error e => .err e s
    | .ok inode => s.install env dir absPath inode

def lookupDentryMaybeFollowMount (env : WalkEnv) (pos : Path) (name : Name) (followMount : Bool) :
    Outcome Vfs Path :=
  (s.lookupChild env pos.dentry name).andThen fun d s ↦ .ok (s.enter followMount pos.mnt d) s

def linkTarget (env : WalkEnv) (link : Nat) : PathText :=
  let inode := (s.dcache.dentry link).inode
  if inode.fs = ext4 then inode.target else env.procLink link

/-- A symbolic link is replaced by its target. -/
def followLink (env : WalkEnv) (root : Path) (nd : Nameidata) (rest : List Name) (link : Nat)
    (follows : Nat) : Outcome Vfs WalkState :=
  match env.readLink link with
  | some e => .err e s
  | none =>
    let target := s.linkTarget env link
    let path := joinSymlinkTarget target rest nd.requiresDirectory
    if pathMax < path.length then .err .ENAMETOOLONG s
    else if !validatePathComponents path then .err .ENAMETOOLONG s
    else
      let base := if isAbsolute target then root else nd.pos
      .ok (.walking (.newFromPath root path base) (follows + 1)) s

/-- The end of a round: the child is a link that is followed, the end of the path or the next directory. -/
def arrive (env : WalkEnv) (root : Path) (mode : WalkMode) (nd : Nameidata) (rest : List Name)
    (follows : Nat) (child : Path) : Outcome Vfs WalkState :=
  if (s.dcache.dentry child.dentry).inode.ty = .symLink &&
      mode.followsSymlink rest nd.requiresDirectory then
    if (s.flags child.mnt).noSymFollow then .err .ELOOP s
    else match mode with
      | .resolve .. =>
        (s.followLink env root nd rest child.dentry follows).andThen fun w s ↦
          -- the check at the head of `resolve_path_from`
          if maxSymlinkFollows ≤ follows + 1 then .err .ELOOP s else .ok w s
      | .parent =>
        if maxSymlinkFollows ≤ follows then .err .ELOOP s
        else s.followLink env root nd rest child.dentry follows
  else if rest = [] then
    if nd.requiresDirectory && !s.isDirectory child.dentry then .err .ENOTDIR s
    else .ok (.done { nd with pos := child, segments := [] }) s
  else .ok (.walking { nd with pos := child, segments := rest } follows) s

/-- The checks of a directory before a name is looked up in it. -/
def mayLookup (env : WalkEnv) (mode : WalkMode) (dir : Nat) : Option Errno :=
  match mode with
  | .resolve .. => if s.isDirectory dir then env.search dir else some .ENOTDIR
  | .parent => if s.isDirectory dir then env.search dir else none

def component (env : WalkEnv) (root : Path) (mode : WalkMode) (nd : Nameidata) (name : Name)
    (rest : List Name) (follows : Nat) : Outcome Vfs WalkState :=
  let walkOn (pos : Path) : WalkState :=
    if rest = [] then .done { nd with pos := pos, segments := [] }
    else .walking { nd with pos := pos, segments := rest } follows
  if name = dot then .ok (walkOn nd.pos) s
  else if name = dotdot then .ok (walkOn (s.followDotdot root nd.pos)) s
  else match s.mayLookup env mode nd.pos.dentry with
    | some e => .err e s
    | none =>
      (s.lookupDentryMaybeFollowMount env nd.pos name (mode.followsMount rest)).andThen fun child s ↦
        s.arrive env root mode nd rest follows child

def walkStep (env : WalkEnv) (root : Path) (mode : WalkMode) (nd : Nameidata) (follows : Nat) :
    Outcome Vfs WalkState :=
  match mode, nd.segments with
  | .resolve .., [] =>
    if nd.requiresDirectory && !s.isDirectory nd.pos.dentry then .err .ENOTDIR s else .ok (.done nd) s
  | .resolve .., name :: rest => s.component env root mode nd name rest follows
  | .parent, [] => .ok (.done nd) s
  | .parent, [_] => .ok (.done nd) s
  | .parent, name :: rest => s.component env root mode nd name rest follows

/-- The loop, for a number of rounds. -/
def walkWithin (env : WalkEnv) (root : Path) (mode : WalkMode) :
    Nat → Vfs → Nameidata → Nat → Outcome Vfs Nameidata
  | 0, _, _, _ => .panic
  | rounds + 1, s, nd, follows =>
    (s.walkStep env root mode nd follows).andThen fun w s ↦
      match w with
      | .walking nd follows => walkWithin env root mode rounds s nd follows
      | .done nd => .ok nd s

/-- A number of rounds that is enough. -/
def walkFuel (nd : Nameidata) (follows : Nat) : Nat :=
  (maxSymlinkFollows - follows) * (pathMax + 1) + nd.segments.length + 1

def walk (env : WalkEnv) (root : Path) (mode : WalkMode) (nd : Nameidata) : Outcome Vfs Nameidata :=
  walkWithin env root mode (walkFuel nd 0) s nd 0

end Vfs

/-! ### The end of a walk -/

theorem length_splitPath_le (text : PathText) : (splitPath text).length ≤ text.length := by
  unfold splitPath splitOn
  induction text with
  | nil => simp
  | cons b text ih =>
    rw [splitOnP_cons_eq_if_modifyHead]
    split_ifs with hb
    · exact Nat.le_succ_of_le ih
    match hsplit : text.splitOnP (· == slash) with
    | [] => exact absurd hsplit (splitOnP_ne_nil _ _)
    | name :: names =>
      rw [hsplit] at ih
      have hnames : (names.filter (· ≠ [])).length ≤ text.length := by
        apply le_trans _ ih
        exact (List.Sublist.filter _ (sublist_cons_self _ _)).length_le
      exact Nat.succ_le_succ hnames

section Rounds

variable {s s' : Vfs} {env : WalkEnv} {root pos child : Path} {mode : WalkMode} {nd nd' : Nameidata}
  {name : Name} {rest : List Name} {w : WalkState} {d dir link follows follows' : Nat}

/-- Where the dentry of a lookup comes from: the cache, or it is new. -/
inductive Found (s : Vfs) (env : WalkEnv) (dir : Nat) (name : Name) : Nat → Vfs → Prop
  | cached {d : Nat} (hcached : s.cachedChild dir name = some d) : Found s env dir name d s
  | made {absPath : FsPath} {inode : Inode} {d : Nat} {s' : Vfs}
      (hmade : s.install env dir absPath inode = .ok d s') : Found s env dir name d s'

theorem lookupChild_spec : (s.lookupChild env dir name).Ensures (Found s env dir name)
    (fun s' ↦ s' = s) := by
  unfold Vfs.lookupChild
  split
  · trivial
  · next hcached => exact .cached hcached
  split
  · exact ensures_err.mpr rfl
  next absPath _ _ _ inode _ =>
  match hmade : s.install env dir absPath inode with
  | .ok d s' => exact .made hmade
  | .err e s' =>
    unfold Vfs.install at hmade
    simp only at hmade
    split at hmade <;> simp at hmade
  | .panic => trivial

/-- What can follow when a round has come to a child: the end, the next component there, or the target of
a link. -/
inductive Arrives (root : Path) (nd : Nameidata) (rest : List Name) (follows : Nat) (child : Path) :
    WalkState → Prop
  | stop {nd' : Nameidata} (hpos : nd'.pos = child) : Arrives root nd rest follows child (.done nd')
  | next : Arrives root nd rest follows child
      (.walking { nd with pos := child, segments := rest } follows)
  | link {nd' : Nameidata} (hfollows : follows < maxSymlinkFollows)
      (hlength : nd'.segments.length ≤ pathMax) (hpos : nd'.pos = root ∨ nd'.pos = nd.pos) :
      Arrives root nd rest follows child (.walking nd' (follows + 1))

/-- What a round can do: it ends where it is, or takes one component. -/
inductive Round (s : Vfs) (env : WalkEnv) (root : Path) (mode : WalkMode) (nd : Nameidata)
    (follows : Nat) : WalkState → Vfs → Prop
  | finish : Round s env root mode nd follows (.done nd) s
  | stay {rest : List Name} {w : WalkState} (hsegments : nd.segments = dot :: rest)
      (hw : Arrives root nd rest follows nd.pos w) : Round s env root mode nd follows w s
  | up {rest : List Name} {w : WalkState} (hsegments : nd.segments = dotdot :: rest)
      (hw : Arrives root nd rest follows (s.followDotdot root nd.pos) w) :
      Round s env root mode nd follows w s
  | lookup {name : Name} {rest : List Name} {d : Nat} {w : WalkState} {s' : Vfs}
      (hsegments : nd.segments = name :: rest) (hdot : name ≠ dot) (hdotdot : name ≠ dotdot)
      (hfound : Found s env nd.pos.dentry name d s')
      (hw : Arrives root nd rest follows (s'.enter (mode.followsMount rest) nd.pos.mnt d) w) :
      Round s env root mode nd follows w s'

/-- The states that a round can leave: its own, and that after a lookup. -/
def Looked (s : Vfs) (env : WalkEnv) (dir : Nat) (s' : Vfs) : Prop :=
  s' = s ∨ ∃ name d, Found s env dir name d s'

theorem followLink_spec (hfollows : follows < maxSymlinkFollows) :
    (s.followLink env root nd rest link follows).Ensures
      (fun w s' ↦ s' = s ∧ Arrives root nd rest follows child w) (fun s' ↦ s' = s) := by
  unfold Vfs.followLink
  split
  · exact ensures_err.mpr rfl
  simp only
  split_ifs with hlong hvalid habs
  · exact ensures_err.mpr rfl
  · exact ensures_err.mpr rfl
  · refine ⟨rfl, .link hfollows (le_trans (length_splitPath_le _) (not_lt.mp hlong)) (.inl ?_)⟩
    simp [Nameidata.newFromPath]
  · refine ⟨rfl, .link hfollows (le_trans (length_splitPath_le _) (not_lt.mp hlong)) ?_⟩
    exact ite_eq_or_eq _ _ _

theorem arrive_spec : (s.arrive env root mode nd rest follows child).Ensures
    (fun w s' ↦ s' = s ∧ Arrives root nd rest follows child w) (fun s' ↦ s' = s) := by
  fun_cases s.arrive env root mode nd rest follows child with
  | case2 =>
    by_cases hmax : maxSymlinkFollows ≤ follows + 1
    · unfold Vfs.followLink
      simp only [if_pos hmax]
      split
      · exact ensures_err.mpr rfl
      · split_ifs <;> exact ensures_err.mpr rfl
    · apply (followLink_spec (by omega)).andThen
      intro w s₁ hw
      rw [if_neg hmax]
      exact hw
  | case4 _ hmax => exact followLink_spec (not_le.mp hmax)
  | case6 => exact ⟨rfl, .stop rfl⟩
  | case7 => exact ⟨rfl, .next⟩
  | _ => exact ensures_err.mpr rfl

theorem component_spec (hsegments : nd.segments = name :: rest) :
    (s.component env root mode nd name rest follows).Ensures
      (Round s env root mode nd follows) (Looked s env nd.pos.dentry) := by
  have hwalkOn : ∀ pos : Path, Arrives root nd rest follows pos
      (if rest = [] then .done { nd with pos := pos, segments := [] }
        else .walking { nd with pos := pos, segments := rest } follows) := by
    intro pos
    split_ifs
    · exact .stop rfl
    · exact .next
  unfold Vfs.component
  by_cases hdot : name = dot
  · rw [if_pos hdot]
    exact .stay (hdot ▸ hsegments) (hwalkOn _)
  by_cases hdotdot : name = dotdot
  · rw [if_neg hdot, if_pos hdotdot]
    exact .up (hdotdot ▸ hsegments) (hwalkOn _)
  rw [if_neg hdot, if_neg hdotdot]
  split
  · exact .inl rfl
  have hlookup : (s.lookupDentryMaybeFollowMount env nd.pos name (mode.followsMount rest)).Ensures
      (fun child s₁ ↦ ∃ d, Found s env nd.pos.dentry name d s₁ ∧
        child = s₁.enter (mode.followsMount rest) nd.pos.mnt d) (Looked s env nd.pos.dentry) := by
    apply (lookupChild_spec.mono (fun _ _ h ↦ h) fun _ ↦ Or.inl).andThen
    intro d s₁ hfound
    exact ⟨d, hfound, rfl⟩
  apply hlookup.andThen
  rintro child s₁ ⟨d, hfound, rfl⟩
  apply arrive_spec.mono
  · intro w s₂ hw
    rw [hw.1]
    exact .lookup hsegments hdot hdotdot hfound hw.2
  · intro s₂ hs₂
    rw [hs₂]
    exact .inr ⟨_, _, hfound⟩

theorem walkStep_spec : (s.walkStep env root mode nd follows).Ensures
    (Round s env root mode nd follows) (Looked s env nd.pos.dentry) := by
  unfold Vfs.walkStep
  split
  · split
    · exact .inl rfl
    · exact .finish
  · next hsegments => exact component_spec hsegments
  · exact .finish
  · exact .finish
  · next hsegments => exact component_spec hsegments

theorem of_walkStep (h : s.walkStep env root mode nd follows = .ok w s') :
    Round s env root mode nd follows w s' := by
  have hspec : (s.walkStep env root mode nd follows).Ensures (Round s env root mode nd follows)
      (Looked s env nd.pos.dentry) := walkStep_spec
  rw [h] at hspec
  exact hspec

theorem Arrives.walkFuel_lt (h : Arrives root nd rest follows child (.walking nd' follows'))
    (hsegments : nd.segments = name :: rest) : Vfs.walkFuel nd' follows' < Vfs.walkFuel nd follows := by
  unfold Vfs.walkFuel
  cases h with
  | next => simp [hsegments]
  | link hfollows hlength _ =>
    have hmul : (maxSymlinkFollows - follows) * (pathMax + 1) =
        (maxSymlinkFollows - (follows + 1)) * (pathMax + 1) + (pathMax + 1) := by
      rw [← Nat.succ_mul]
      congr 1
      omega
    omega

theorem walkFuel_lt (h : s.walkStep env root mode nd follows = .ok (.walking nd' follows') s') :
    Vfs.walkFuel nd' follows' < Vfs.walkFuel nd follows := by
  cases of_walkStep h with
  | stay hsegments hw | up hsegments hw | lookup hsegments _ _ _ hw =>
    exact hw.walkFuel_lt hsegments

theorem walkWithin_eq_of_le {rounds rounds' : Nat} (h : Vfs.walkFuel nd follows ≤ rounds)
    (h' : Vfs.walkFuel nd follows ≤ rounds') : Vfs.walkWithin env root mode rounds s nd follows =
      Vfs.walkWithin env root mode rounds' s nd follows := by
  have hpos : 0 < Vfs.walkFuel nd follows := Nat.succ_pos _
  -- both sides take the same round, and the induction is on what is left of the rounds
  induction rounds generalizing rounds' s nd follows with
  | zero => omega
  | succ rounds ih =>
    match rounds' with
    | 0 => omega
    | rounds' + 1 =>
      unfold Vfs.walkWithin
      match hstep : s.walkStep env root mode nd follows with
      | .ok (.walking nd₁ follows₁) s₁ =>
        have hlt := walkFuel_lt hstep
        exact ih (by omega) (by omega) (Nat.succ_pos _)
      | .ok (.done nd₁) s₁ => rfl
      | .err e s₁ => rfl
      | .panic => rfl

end Rounds

/-! ### What a walk changes -/

/-- Every dentry that is referred to has been made, and a number that is still free has no parent. -/
structure Vfs.Bounded (s : Vfs) : Prop where
  dcache : s.dcache.Bounded
  fresh : ∀ d, s.dcache.nextDentry ≤ d → (s.dcache.dentry d).parent = none
  mountpoint : ∀ m ∈ s.mounts.mountTable, (s.mounts.mount m).mountpoint < s.dcache.nextDentry
  vfsRoot : ∀ vfs, s.mounts.vfsRoot vfs < s.dcache.nextDentry
  root : ∀ t, (s.task t).root.dentry < s.dcache.nextDentry
  cwd : ∀ t, (s.task t).cwd.dentry < s.dcache.nextDentry
  file : ∀ t fd p, (s.task t).files fd = .file p → p.dentry < s.dcache.nextDentry

/-- A walk only finds dentries: the second state has more of them, and everything else is the same. -/
structure Finds (s s' : Vfs) : Prop where
  eq : s' = { s with dcache := s'.dcache }
  dcache : s.dcache.Extends s'.dcache
  bounded : s'.Bounded

section Finds

variable {s s' s'' : Vfs} {env : WalkEnv} {root pos child : Path} {mode : WalkMode}
  {nd nd' : Nameidata} {name : Name} {rest : List Name} {w : WalkState} {d dir follows : Nat}
  {follow : Bool}

theorem Finds.refl (hs : s.Bounded) : Finds s s := ⟨rfl, ⟨le_rfl, fun _ _ ↦ rfl⟩, hs⟩

theorem Finds.next_le (h : Finds s s') : s.dcache.nextDentry ≤ s'.dcache.nextDentry := h.dcache.next

theorem Finds.trans (h : Finds s s') (h' : Finds s' s'') : Finds s s'' where
  eq := by
    rw [h'.eq, h.eq]
  dcache := by
    constructor
    · exact le_trans h.next_le h'.next_le
    · intro d hd
      rw [h'.dcache.dentry d (lt_of_lt_of_le hd h.next_le), h.dcache.dentry d hd]
  bounded := h'.bounded

section

variable (hs : s.Bounded)
include hs

theorem Vfs.Bounded.parentOrSelf (hd : d < s.dcache.nextDentry) :
    s.parentOrSelf d < s.dcache.nextDentry := by
  unfold Vfs.parentOrSelf
  match hp : (s.dcache.dentry d).parent with
  | none => exact hd
  | some p => exact hs.dcache.parent d p hp

theorem Vfs.Bounded.mountedOn {vfs : Nat} {on : Path}
    (h : s.mountedOn vfs = some on) : on.dentry < s.dcache.nextDentry := by
  rcases Option.bind_eq_some_iff.mp h with ⟨m, hm, hon⟩
  rcases Option.map_eq_some_iff.mp hon with ⟨p, -, rfl⟩
  exact hs.mountpoint m (mem_of_find?_eq_some hm)

theorem Vfs.Bounded.followDotdot (hpos : pos.dentry < s.dcache.nextDentry) :
    (s.followDotdot root pos).dentry < s.dcache.nextDentry := by
  unfold Vfs.followDotdot
  split
  · exact hpos
  split
  · split
    · next on hon =>
      split
      · exact hpos
      · exact hs.parentOrSelf (hs.mountedOn hon)
    · exact hs.parentOrSelf hpos
  · exact hs.parentOrSelf hpos

theorem Vfs.Bounded.enter (hd : d < s.dcache.nextDentry) (mnt : Nat) :
    (s.enter follow mnt d).dentry < s.dcache.nextDentry := by
  unfold Vfs.enter
  split
  · exact hs.vfsRoot _
  · exact hd

theorem Vfs.Bounded.cachedChild (h : s.cachedChild dir name = some d) : d < s.dcache.nextDentry := by
  rcases Option.bind_eq_some_iff.mp h with ⟨p, -, hp⟩
  exact hs.dcache.cached _ (Dcache.mem_of_lookupDentryCache hp)

variable (hdir : dir < s.dcache.nextDentry)
include hdir

theorem of_install {absPath : FsPath} {inode : Inode} (h : s.install env dir absPath inode = .ok d s') :
    Finds s s' ∧ d = s.dcache.nextDentry ∧ d < s'.dcache.nextDentry ∧
      (s'.dcache.dentry d).parent = some dir := by
  unfold Vfs.install at h
  simp only at h
  split at h
  · simp at h
  next dcache hinsert =>
  simp only [ok.injEq] at h
  rw [← h.1, ← h.2]
  rcases Dcache.of_insertDentryCache hinsert with ⟨hdentry, hnext, p, -, hcache⟩
  have halloc : (s.dcache.alloc { absPath, parent := some dir, inode }).Bounded :=
    hs.dcache.alloc (by simpa using hdir)
  have hlt : s.dcache.nextDentry < dcache.nextDentry := by
    rw [hnext]
    exact Nat.lt_succ_self _
  have hparent : (dcache.dentry s.dcache.nextDentry).parent = some dir := by
    rw [hdentry]
    simp [Dcache.alloc]
  refine ⟨⟨rfl, ⟨hlt.le, ?_⟩, ?_⟩, rfl, hlt, hparent⟩
  · intro e he
    rw [hdentry]
    exact Function.update_of_ne (Nat.ne_of_lt he) _ _
  · constructor
    · constructor
      · intro e p hp
        rw [hdentry] at hp
        rw [hnext]
        exact halloc.parent e p hp
      · intro e he
        rcases hcache e he with rfl | he
        · exact hlt
        · rw [hnext]
          exact halloc.cached e he
    · intro e he
      have hne : e ≠ s.dcache.nextDentry := (lt_of_lt_of_le hlt he).ne'
      rw [hdentry]
      simp only [Dcache.alloc, Function.update_of_ne hne]
      exact hs.fresh e (le_trans hlt.le he)
    · exact fun m hm ↦ lt_trans (hs.mountpoint m hm) hlt
    · exact fun vfs ↦ lt_trans (hs.vfsRoot vfs) hlt
    · exact fun t ↦ lt_trans (hs.root t) hlt
    · exact fun t ↦ lt_trans (hs.cwd t) hlt
    · exact fun t fd p hp ↦ lt_trans (hs.file t fd p hp) hlt

theorem Found.finds (h : Found s env dir name d s') : Finds s s' ∧ d < s'.dcache.nextDentry := by
  cases h with
  | cached hcached => exact ⟨.refl hs, hs.cachedChild hcached⟩
  | made hmade =>
    have hnew := of_install hs hdir hmade
    exact ⟨hnew.1, hnew.2.2.1⟩

theorem Looked.finds (h : Looked s env dir s') : Finds s s' := by
  rcases h with rfl | ⟨name, d, hfound⟩
  · exact .refl hs
  · exact (hfound.finds hs hdir).1

end

theorem Arrives.pos_cases (h : Arrives root nd rest follows child w) :
    w.pos = child ∨ w.pos = root ∨ w.pos = nd.pos := by
  cases h with
  | stop hpos => exact .inl hpos
  | next => exact .inl rfl
  | link _ _ hpos => exact .inr hpos

theorem Arrives.dentry_lt {bound : Nat} (h : Arrives root nd rest follows child w)
    (hroot : root.dentry < bound) (hpos : nd.pos.dentry < bound) (hchild : child.dentry < bound) :
    w.pos.dentry < bound := by
  rcases h.pos_cases with heq | heq | heq <;> rwa [heq]

variable (hs : s.Bounded) (hroot : root.dentry < s.dcache.nextDentry) (hpos : nd.pos.dentry < s.dcache.nextDentry)
include hs hroot hpos

theorem Round.finds (h : Round s env root mode nd follows w s') :
    Finds s s' ∧ w.pos.dentry < s'.dcache.nextDentry := by
  cases h with
  | finish => exact ⟨.refl hs, hpos⟩
  | stay _ hw => exact ⟨.refl hs, hw.dentry_lt hroot hpos hpos⟩
  | up _ hw => exact ⟨.refl hs, hw.dentry_lt hroot hpos (hs.followDotdot hpos)⟩
  | lookup _ _ _ hfound hw =>
    have hd := hfound.finds hs hpos
    have hle := hd.1.next_le
    exact ⟨hd.1, hw.dentry_lt (lt_of_lt_of_le hroot hle) (lt_of_lt_of_le hpos hle)
      (hd.1.bounded.enter hd.2 _)⟩

theorem walkWithin_spec {rounds : Nat} : (Vfs.walkWithin env root mode rounds s nd follows).Ensures
      (fun nd' s' ↦ Finds s s' ∧ nd'.pos.dentry < s'.dcache.nextDentry) (Finds s) := by
  induction rounds generalizing s nd follows with
  | zero => trivial
  | succ rounds ih =>
    have hstep : (s.walkStep env root mode nd follows).Ensures
        (fun w s' ↦ Finds s s' ∧ w.pos.dentry < s'.dcache.nextDentry) (Finds s) :=
      walkStep_spec.mono (fun w s₁ h ↦ h.finds hs hroot hpos) (fun s₁ h ↦ h.finds hs hpos)
    apply hstep.andThen
    intro w s₁ hw
    match w with
    | .done nd₁ => exact hw
    | .walking nd₁ follows₁ =>
      apply (ih hw.1.bounded (lt_of_lt_of_le hroot hw.1.next_le) hw.2).mono
      · intro nd₂ s₂ h
        exact ⟨hw.1.trans h.1, h.2⟩
      · intro s₂ h
        exact hw.1.trans h

end Finds

end RespOS.Fs
