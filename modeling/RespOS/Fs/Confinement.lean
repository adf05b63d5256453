import RespOS.Fs.NameiCalls

/-!
# Path resolution and the root of a task

`follow_dotdot` stops at the root of the task by comparing dentries, and the cache answers a lookup with the
dentry that was cached last under a path. A directory can have several dentries: a rename takes everything
below a directory out of the cache and the next lookup makes new dentries, while a task may still have the
old one as its root. The root then has a child in the cache whose parent is another dentry, and `..` from
there goes past the root (`walk_leaves_root`).

A position is below another one when it leads there by parents, and from the root of a mount by its
mountpoint (`Vfs.Below`). `walk_below_root` proves that a walk that starts below the root of the task
stays below it, in every state that calls can reach, as long as each component is answered honestly
(`Vfs.Honest`).
-/

namespace RespOS.Fs

open RespOS.Basis Option Vfs

namespace Vfs

variable (s : Vfs)

/-- The position above another one. -/
def up (pos : Path) : Option Path :=
  if pos.dentry = s.mounts.vfsRoot pos.mnt then s.mountedOn pos.mnt
  else (s.dcache.dentry pos.dentry).parent.map fun p ↦ ⟨pos.mnt, p⟩

/-- The position lies in the subtree of the root. -/
def Below (root pos : Path) : Prop := Relation.ReflTransGen (fun a b ↦ s.up a = some b) pos root

/-- A dentry that is found for a name at a position leads back there. -/
def LeadsBack (followMount : Bool) (pos : Path) (d : Nat) : Prop :=
  (s.dcache.dentry d).parent = some pos.dentry ∧ d ≠ s.mounts.vfsRoot pos.mnt ∧
    (followMount = true → ∀ m ∈ s.mounts.getMountByDentry d,
      s.mountedOn (s.mounts.mount m).vfsMount = some ⟨pos.mnt, d⟩)

/-- The condition on the next component of a walk. -/
def Honest (root : Path) (mode : WalkMode) (nd : Nameidata) : Prop :=
  (∀ name ∈ nd.segments.head?, name ≠ dot → name ≠ dotdot →
    ∀ d ∈ s.cachedChild nd.pos.dentry name,
      s.LeadsBack (mode.followsMount nd.segments.tail) nd.pos d) ∧
  (nd.segments.head? = some dotdot → nd.pos ≠ root → nd.pos.dentry = s.mounts.vfsRoot nd.pos.mnt →
    ∀ on ∈ s.mountedOn nd.pos.mnt, on ≠ root → on.dentry = s.mounts.vfsRoot on.mnt →
      (s.dcache.dentry on.dentry).parent = none)

instance (followMount : Bool) (pos : Path) (d : Nat) : Decidable (s.LeadsBack followMount pos d) :=
  inferInstanceAs (Decidable (_ ∧ _))

instance (root : Path) (mode : WalkMode) (nd : Nameidata) : Decidable (s.Honest root mode nd) :=
  inferInstanceAs (Decidable (_ ∧ _))

end Vfs

abbrev Walk := Vfs × WalkState

def Walk.next (root : Path) (mode : WalkMode) (c : Walk) (env : WalkEnv) : Option Walk :=
  match c.2 with
  | .walking nd follows =>
    match c.1.walkStep env root mode nd follows with
    | .ok w s => some (s, w)
    | _ => none
  | .done _ => none

def Walk.Step (root : Path) (mode : WalkMode) (c : Walk) (env : WalkEnv) (c' : Walk) : Prop :=
  c.next root mode env = some c'

def Walk.Honest (root : Path) (mode : WalkMode) (c : Walk) (_ : WalkEnv) : Prop :=
  match c.2 with
  | .walking nd _ => c.1.Honest root mode nd
  | .done _ => True

instance (root : Path) (mode : WalkMode) (c : Walk) (env : WalkEnv) :
    Decidable (Walk.Honest root mode c env) :=
  match c with
  | (s, .walking nd _) => inferInstanceAs (Decidable (s.Honest root mode nd))
  | (_, .done _) => inferInstanceAs (Decidable True)

def Walk.start (s : Vfs) (root : Path) (text : PathText) (base : Path) (follows : Nat) : Walk :=
  (s, .walking (.newFromPath root text base) follows)

section Confinement

variable {s s' : Vfs} {root pos : Path} {mode : WalkMode} {nd : Nameidata} {env : WalkEnv}
  {follows d : Nat} {w : WalkState} {name : Name}

theorem within_of_up (hs : s.Bounded) {a b : Path} (h : s.up a = some b) : Within a s := by
  unfold up at h
  split at h
  · next hroot =>
    unfold Within
    rw [hroot]
    exact hs.vfsRoot _
  · apply not_le.mp
    intro hle
    rw [hs.fresh _ hle] at h
    simp at h

theorem within_of_below (hs : s.Bounded) (hroot : Within root s) (h : s.Below root pos) :
    Within pos s := by
  rcases h.cases_head with rfl | ⟨c, hup, -⟩
  · exact hroot
  · exact within_of_up hs hup

theorem Finds.up_eq (h : Finds s s') (hpos : Within pos s) : s'.up pos = s.up pos := by
  have hdentry := h.dcache.dentry _ hpos
  have hmounts : s'.mounts = s.mounts := by rw [h.eq]
  unfold up mountedOn
  rw [hdentry, hmounts]

theorem Finds.below (h : Finds s s') (hs : s.Bounded) (hbelow : s.Below root pos) :
    s'.Below root pos := by
  refine Relation.ReflTransGen.mono ?_ _ _ hbelow
  intro a b hab
  rw [h.up_eq (within_of_up hs hab)]
  exact hab

theorem Vfs.Below.cases (h : s.Below root pos) (hne : pos ≠ root) :
    ∃ above, s.up pos = some above ∧ s.Below root above := by
  rcases h.cases_head with rfl | habove
  · exact absurd rfl hne
  · exact habove

theorem up_eq_some_parentOrSelf {above : Path} (hroot : pos.dentry ≠ s.mounts.vfsRoot pos.mnt)
    (h : s.up pos = some above) : (⟨pos.mnt, s.parentOrSelf pos.dentry⟩ : Path) = above := by
  unfold up at h
  rw [if_neg hroot] at h
  rcases map_eq_some_iff.mp h with ⟨p, hp, rfl⟩
  unfold parentOrSelf
  rw [hp]
  rfl

theorem Vfs.Below.followDotdot (h : s.Below root pos)
    (hstacked : pos ≠ root → pos.dentry = s.mounts.vfsRoot pos.mnt → ∀ on ∈ s.mountedOn pos.mnt,
      on ≠ root → on.dentry = s.mounts.vfsRoot on.mnt → (s.dcache.dentry on.dentry).parent = none) :
    s.Below root (s.followDotdot root pos) := by
  unfold Vfs.followDotdot
  by_cases hpos : pos = root
  · rw [if_pos hpos]
    exact h
  rcases h.cases hpos with ⟨above, hup, habove⟩
  split_ifs with hmount
  · have hon : s.mountedOn pos.mnt = some above := by
      unfold up at hup
      rwa [if_pos hmount] at hup
    rw [hon]
    dsimp only
    split_ifs with hroot
    · exact h
    by_cases htop : above.dentry = s.mounts.vfsRoot above.mnt
    · -- the mountpoint is itself the root of a mount, and has no parent to go to
      have hnone := hstacked hpos hmount above hon hroot htop
      unfold parentOrSelf
      rw [hnone]
      exact habove
    · rcases habove.cases hroot with ⟨above', hup', habove'⟩
      rw [up_eq_some_parentOrSelf htop hup']
      exact habove'
  · rw [up_eq_some_parentOrSelf hmount hup]
    exact habove

theorem Vfs.Below.enter {followMount : Bool} (h : s.Below root pos)
    (hback : s.LeadsBack followMount pos d) : s.Below root (s.enter followMount pos.mnt d) := by
  rcases hback with ⟨hparent, hne, hmount⟩
  have hup : s.up ⟨pos.mnt, d⟩ = some pos := by
    unfold up
    rw [if_neg hne, hparent]
    rfl
  have hchild : s.Below root ⟨pos.mnt, d⟩ := .head hup h
  unfold Vfs.enter
  split
  · next m hm =>
    apply Relation.ReflTransGen.head _ hchild
    unfold up
    rw [if_pos rfl]
    exact hmount rfl m hm
  · exact hchild

theorem leadsBack_of_install {absPath : FsPath} {inode : Inode} (hs : s.Bounded)
    (hpos : Within pos s) (h : s.install env pos.dentry absPath inode = .ok d s')
    (followMount : Bool) : s'.LeadsBack followMount pos d := by
  rcases of_install hs hpos h with ⟨hfinds, hd, -, hparent⟩
  have hmounts : s'.mounts = s.mounts := by rw [hfinds.eq]
  refine ⟨hparent, ?_, ?_⟩
  · rw [hmounts, hd]
    exact (hs.vfsRoot _).ne'
  · intro _ m hm
    rw [hmounts] at hm
    have hspec := MountTree.getMountByDentry_eq_some hm
    have hlt := hs.mountpoint m hspec.1
    rw [hspec.2, hd] at hlt
    exact absurd hlt (lt_irrefl _)

theorem Found.leadsBack {followMount : Bool} (hs : s.Bounded) (hpos : Within pos s)
    (hcached : ∀ d ∈ s.cachedChild pos.dentry name, s.LeadsBack followMount pos d)
    (h : Found s env pos.dentry name d s') : s'.LeadsBack followMount pos d := by
  cases h with
  | cached hd => exact hcached d hd
  | made hmade => exact leadsBack_of_install hs hpos hmade followMount

theorem Round.below (hs : s.Bounded) (hroot : Within root s) (hbelow : s.Below root nd.pos)
    (hhonest : s.Honest root mode nd) (h : Round s env root mode nd follows w s') :
    s'.Below root w.pos := by
  have hpos : Within nd.pos s := within_of_below hs hroot hbelow
  have harrives : ∀ {rest child}, Arrives root nd rest follows child w → Finds s s' →
      s'.Below root child → s'.Below root w.pos := by
    intro rest child hw hfinds hchild
    rcases hw.pos_cases with heq | heq | heq
    · rwa [heq]
    · rw [heq]
      exact .refl
    · rw [heq]
      exact hfinds.below hs hbelow
  cases h with
  | finish => exact hbelow
  | stay _ hw => exact harrives hw (.refl hs) hbelow
  | up hsegments hw =>
    apply harrives hw (.refl hs)
    apply hbelow.followDotdot
    exact hhonest.2 (by rw [hsegments]; rfl)
  | lookup hsegments hdot hdotdot hfound hw =>
    have hfinds := (hfound.finds hs hpos).1
    apply harrives hw hfinds
    apply (hfinds.below hs hbelow).enter
    apply hfound.leadsBack hs hpos
    have hcached := hhonest.1
    rw [hsegments] at hcached
    exact hcached _ rfl hdot hdotdot

/-- A walk that starts below the root of its task and is answered honestly stays below it, whatever the
calls before it have done; and `..` at the root stays there. -/
theorem walk_below_root (hrun : Run Booted (fun _ _ ↦ True) Vfs.Step s) (t : Nat) (base : Path)
    (hbase : s.Below (s.task t).root base) (mode : WalkMode) (text : PathText) (follows : Nat)
    (c : Walk) (hwalk : Run (fun c ↦ c = Walk.start s (s.task t).root text base follows)
      (Walk.Honest (s.task t).root mode) (Walk.Step (s.task t).root mode) c) :
    c.1.Below (s.task t).root c.2.pos ∧
      c.1.followDotdot (s.task t).root (s.task t).root = (s.task t).root := by
  have hs := bounded_of_run hrun
  have hinv : c.1.Bounded ∧ Within (s.task t).root c.1 ∧ c.1.Below (s.task t).root c.2.pos := by
    apply Run.invariant _ _ hwalk
    · rintro _ rfl
      refine ⟨hs, hs.root t, ?_⟩
      unfold Walk.start WalkState.pos Nameidata.newFromPath
      split
      · exact .refl
      · exact hbase
    · rintro ⟨s₁, w₁⟩ env ⟨s₂, w₂⟩ ⟨hs₁, hroot, hbelow⟩ hhonest hstep
      match w₁ with
      | .done nd => simp [Walk.Step, Walk.next] at hstep
      | .walking nd follows₁ =>
        unfold Walk.Step Walk.next at hstep
        dsimp only at hstep
        split at hstep
        · next hround =>
          rw [some.injEq, Prod.mk.injEq] at hstep
          rw [hstep.1, hstep.2] at hround
          have hspec := of_walkStep hround
          have hfinds := hspec.finds hs₁ hroot (within_of_below hs₁ hroot hbelow)
          exact ⟨hfinds.1.bounded, lt_of_lt_of_le hroot hfinds.1.next_le,
            hspec.below hs₁ hroot hbelow hhonest⟩
        · simp at hstep
  constructor
  · exact hinv.2.2
  · exact if_pos rfl

end Confinement

/-! ### Walks after boot -/

def emptyTree : LowerTree where
  entries := [([], { ino := 2, ty := .directory })]
  nodup := by simp
  parent := by simp

/-- The namespace after a sequence of calls by tasks for which nothing fails, from the boot on. -/
def callsFromBoot (calls : List VfsCall) : Option Vfs :=
  runWhile (fun _ _ ↦ True) Vfs.next (calls.map fun call ↦ ({}, call)) (bootVfs (fun _ ↦ emptyTree) false)

section

variable (ok : Path → Walk → WalkEnv → Prop) [∀ root c env, Decidable (ok root c env)]

/-- A walk of task 1 from its root after these calls, with the state in which it starts. -/
def walkFromRoot (calls : List VfsCall) (text : PathText) (rounds : Nat) : Option (Vfs × Walk) :=
  (callsFromBoot calls).bind fun s ↦
    let root := (s.task 1).root
    (runWhile (ok root) (Walk.next root (.resolve true true true)) (List.replicate rounds {})
      (Walk.start s root text root 0)).map fun c ↦ (s, c)

variable {ok}

theorem run_walkFromRoot {calls : List VfsCall} {text : PathText} {rounds : Nat} {s : Vfs} {c : Walk}
    (h : walkFromRoot ok calls text rounds = some (s, c)) : Run Booted (fun _ _ ↦ True) Vfs.Step s ∧
      Run (fun c ↦ c = Walk.start s (s.task 1).root text (s.task 1).root 0) (ok (s.task 1).root)
        (Walk.Step (s.task 1).root (.resolve true true true)) c := by
  rcases bind_eq_some_iff.mp h with ⟨s₁, hcalls, hround⟩
  rcases map_eq_some_iff.mp hround with ⟨c₁, hc, hsame⟩
  rw [Prod.mk.injEq] at hsame
  rw [hsame.1] at hcalls hc
  rw [hsame.2] at hc
  constructor
  · exact Run.of_runWhile (.start ⟨_, _, rfl⟩) hcalls
  · exact Run.of_runWhile (.start rfl) hc

end

/-- Task 1 has `/a/r` as its root when `/a` becomes `/b`, and task 0 looks `/b/r/x` up. -/
def renamedAboveRoot : List VfsCall :=
  [.create 0 atFdcwd (bytes "/a") .directory, .create 0 atFdcwd (bytes "/a/r") .directory,
    .create 0 atFdcwd (bytes "/a/r/x") .directory, .chroot 1 (bytes "/a/r"),
    .rename 0 atFdcwd (bytes "/a") atFdcwd (bytes "/b") false,
    .lookup 0 (.resolve true true true) atFdcwd (bytes "/b/r/x")]

/-- The path `x/../..` then leads task 1 from its root `/b/r` to `/b`. -/
theorem walk_leaves_root : ∃ s c, Run Booted (fun _ _ ↦ True) Vfs.Step s ∧
    Run (fun c ↦ c = Walk.start s (s.task 1).root (bytes "x/../..") (s.task 1).root 0)
      (fun _ _ ↦ True) (Walk.Step (s.task 1).root (.resolve true true true)) c ∧
    ¬ c.1.Below (s.task 1).root c.2.pos := by
  have hfacts : (walkFromRoot (fun _ _ _ ↦ True) renamedAboveRoot (bytes "x/../..") 3).map (fun r ↦
      ((r.1.task 1).root, r.2.2.pos, r.2.1.up r.2.2.pos, r.2.1.up ⟨0, 0⟩)) =
      some (⟨0, 9⟩, ⟨0, 8⟩, some ⟨0, 0⟩, none) := by
    decide +kernel
  rcases map_eq_some_iff.mp hfacts with ⟨⟨s, c⟩, hwalk, heq⟩
  simp only [Prod.mk.injEq] at heq
  rcases heq with ⟨hroot, hpos, hup, htop⟩
  have hruns := run_walkFromRoot hwalk
  refine ⟨s, c, hruns.1, hruns.2, ?_⟩
  intro hbelow
  rw [hroot, hpos] at hbelow
  rcases Vfs.Below.cases hbelow (by decide) with ⟨above, habove, hbelow'⟩
  rw [← hpos, hup] at habove
  rw [← some.inj habove] at hbelow'
  rcases Vfs.Below.cases hbelow' (by decide) with ⟨above', habove', -⟩
  rw [htop] at habove'
  simp at habove'

/-- Task 1 has `/a` as its root, and its path `r/../..` ends there. -/
theorem walk_below_chroot : ∃ (s : Vfs) (c : Walk), (s.task 1).root = ⟨0, 8⟩ ∧ c.2.pos = ⟨0, 8⟩ ∧
    c.1.Below (s.task 1).root c.2.pos ∧
    c.1.followDotdot (s.task 1).root (s.task 1).root = (s.task 1).root := by
  have hfacts : (walkFromRoot (Walk.Honest · (.resolve true true true))
      [.create 0 atFdcwd (bytes "/a") .directory, .create 0 atFdcwd (bytes "/a/r") .directory,
        .chroot 1 (bytes "/a")] (bytes "r/../..") 3).map (fun r ↦ ((r.1.task 1).root, r.2.2.pos)) =
      some (⟨0, 8⟩, ⟨0, 8⟩) := by
    decide +kernel
  rcases map_eq_some_iff.mp hfacts with ⟨⟨s, c⟩, hwalk, heq⟩
  rw [Prod.mk.injEq] at heq
  have hruns := run_walkFromRoot hwalk
  exact ⟨s, c, heq.1, heq.2, walk_below_root hruns.1 1 _ .refl _ _ 0 c hruns.2⟩

end RespOS.Fs
