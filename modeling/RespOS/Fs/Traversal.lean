import RespOS.Fs.Confinement

/-!
# What a walk does at a file that is no directory

`resolve_path_from` asks for a directory only where it looks a name up, and `link_path_walk` leaves that to
the lower lookup. So `.` and `..` are taken at any file, and `f/.` is resolved where `f` is a regular file
(`walk_through_file`); `link_path_walk` also takes a name that is cached below a file, and leaves its last
component alone. `notDirectory_iff` says where a walk is refused.
-/

namespace RespOS.Fs

open RespOS.Basis Vfs

/-- The condition on the component after a file that is no directory: a name, and for `link_path_walk` one
that is not the last and not in the cache, or there a link that cannot be read for the same reason. -/
def Vfs.Refuses (s : Vfs) (env : WalkEnv) (mode : WalkMode) (nd : Nameidata) (follows : Nat) (name : Name)
    (rest : List Name) : Prop :=
  name ≠ dot ∧ name ≠ dotdot ∧ (mode = .parent → rest ≠ [] ∧
    match s.cachedChild nd.pos.dentry name with
    | none => s.dcache.childAbsPath nd.pos.dentry name ≠ none ∧
        (env.lookup nd.pos.dentry).getD .ENOTDIR = .ENOTDIR
    | some d =>
      let link := s.enter true nd.pos.mnt d
      (s.dcache.dentry link.dentry).inode.ty = .symLink ∧ (s.flags link.mnt).noSymFollow = false ∧
        follows < maxSymlinkFollows ∧ env.readLink link.dentry = some .ENOTDIR)

section Traversal

variable {s s' : Vfs} {root base : Path} {mode : WalkMode} {nd : Nameidata} {env : WalkEnv}
  {follows : Nat} {name : Name} {rest : List Name} {text : PathText}

theorem followLink_eq_notDirectory_iff {link : Nat} :
    s.followLink env root nd rest link follows = .err .ENOTDIR s ↔
      env.readLink link = some .ENOTDIR := by
  unfold followLink
  cases env.readLink link with
  | some e => simp
  | none =>
    simp only [reduceCtorEq, iff_false]
    split_ifs <;> simp

theorem arrive_parent_eq_notDirectory_iff {child : Path} (hrest : rest ≠ []) :
    s.arrive env root .parent nd rest follows child = .err .ENOTDIR s ↔
      (s.dcache.dentry child.dentry).inode.ty = .symLink ∧ (s.flags child.mnt).noSymFollow = false ∧
        follows < maxSymlinkFollows ∧ env.readLink child.dentry = some .ENOTDIR := by
  unfold arrive
  by_cases hlink : (s.dcache.dentry child.dentry).inode.ty = .symLink
  · by_cases hflag : (s.flags child.mnt).noSymFollow = true
    · simp [hlink, hflag, WalkMode.followsSymlink]
    · by_cases hfollows : maxSymlinkFollows ≤ follows
      · simp [hlink, hflag, hfollows, WalkMode.followsSymlink]
      · simp [hlink, hflag, hfollows, WalkMode.followsSymlink, followLink_eq_notDirectory_iff,
          not_le.mp hfollows]
  · simp [hlink, hrest]

theorem component_eq_notDirectory_iff (hfile : s.isDirectory nd.pos.dentry = false)
    (hrest : mode = .parent → rest ≠ []) :
    s.component env root mode nd name rest follows = .err .ENOTDIR s ↔
      s.Refuses env mode nd follows name rest := by
  unfold component Vfs.Refuses
  by_cases hdot : name = dot
  · simp [hdot]
  by_cases hdotdot : name = dotdot
  · simp [hdotdot, dot, dotdot]
  cases mode with
  | resolve => simp [hdot, hdotdot, hfile, mayLookup]
  | parent =>
    simp only [hdot, hdotdot, hfile, mayLookup, lookupDentryMaybeFollowMount, lookupChild,
      WalkMode.followsMount]
    cases hpath : s.dcache.childAbsPath nd.pos.dentry name with
    | none => simp [cachedChild, hpath, Outcome.andThen]
    | some absPath =>
      cases s.cachedChild nd.pos.dentry name with
      | some d =>
        simp [Outcome.andThen, arrive_parent_eq_notDirectory_iff (hrest rfl), hrest rfl, hdot, hdotdot]
      | none =>
        cases hlookup : env.lookup nd.pos.dentry <;>
          simp [lowerLookup, hlookup, hfile, Outcome.andThen, hrest rfl, hdot, hdotdot]

theorem walkStep_eq_notDirectory_iff (hsegments : nd.segments = name :: rest)
    (hfile : s.isDirectory nd.pos.dentry = false) :
    s.walkStep env root mode nd follows = .err .ENOTDIR s ↔
      s.Refuses env mode nd follows name rest := by
  unfold walkStep
  rw [hsegments]
  cases mode with
  | resolve => exact component_eq_notDirectory_iff hfile nofun
  | parent =>
    cases rest with
    | nil => simp [Vfs.Refuses]
    | cons => exact component_eq_notDirectory_iff hfile fun _ ↦ List.cons_ne_nil _ _

theorem walk_eq_of_run {c : Walk} (hwalk : Run (fun c ↦ c = Walk.start s root text base 0)
      (fun _ e ↦ e = env) (Walk.Step root mode) c) (hc : c.2 = .walking nd follows) :
    s.walk env root mode (.newFromPath root text base) =
      walkWithin env root mode (walkFuel nd follows) c.1 nd follows := by
  induction hwalk generalizing nd follows with
  | start hstart =>
    subst hstart
    cases hc
    rfl
  | @next c₁ c₂ e _ he hstep ih =>
    subst he
    unfold Walk.Step Walk.next at hstep
    split at hstep
    · next nd₁ follows₁ hc₁ =>
      split at hstep
      · next w s₂ hround =>
        cases hstep
        cases hc
        have hlt := walkFuel_lt hround
        rw [ih hc₁]
        obtain ⟨rounds, hrounds⟩ : ∃ rounds, walkFuel nd₁ follows₁ = rounds + 1 := ⟨_, rfl⟩
        rw [hrounds, walkWithin, hround]
        exact walkWithin_eq_of_le (by omega) le_rfl
      · simp at hstep
    · simp at hstep

/-- A walk that stands at a file that is no directory and has a component left fails there with `ENOTDIR`
exactly when it refuses the component, and then the whole call does. -/
theorem notDirectory_iff
    (hwalk : Run (fun c ↦ c = Walk.start s root text base 0) (fun _ e ↦ e = env)
      (Walk.Step root mode) (s', .walking nd follows)) (hsegments : nd.segments = name :: rest)
    (hfile : s'.isDirectory nd.pos.dentry = false) :
    (s'.walkStep env root mode nd follows = .err .ENOTDIR s' ↔
      s'.Refuses env mode nd follows name rest) ∧ (s'.Refuses env mode nd follows name rest →
      s.walk env root mode (.newFromPath root text base) = .err .ENOTDIR s') := by
  refine ⟨walkStep_eq_notDirectory_iff hsegments hfile, fun hrefuses ↦ ?_⟩
  rw [walk_eq_of_run hwalk rfl]
  unfold walkFuel walkWithin
  rw [(walkStep_eq_notDirectory_iff hsegments hfile).mpr hrefuses]
  rfl

end Traversal

/-- The path `f/x` is refused where `/f` is a regular file. -/
theorem file_refused : ∃ s s' : Vfs,
    s.walk {} ⟨0, 0⟩ (.resolve true true true) (.newFromPath ⟨0, 0⟩ (bytes "f/x") ⟨0, 0⟩) =
      .err .ENOTDIR s' := by
  have hfacts : ((callsFromBoot [.create 0 atFdcwd (bytes "/f") .regular]).bind fun s ↦
      ((Walk.start s ⟨0, 0⟩ (bytes "f/x") ⟨0, 0⟩ 0).next ⟨0, 0⟩ (.resolve true true true) {}).bind
        fun c ↦ match c.2 with
          | .walking nd 0 => some (nd.segments, c.1.isDirectory nd.pos.dentry)
          | _ => none) = some ([bytes "x"], false) := by
    decide +kernel
  obtain ⟨s, -, hnext⟩ := Option.bind_eq_some_iff.mp hfacts
  obtain ⟨⟨s', w⟩, hstep, hw⟩ := Option.bind_eq_some_iff.mp hnext
  dsimp only at hw
  split at hw
  · obtain ⟨hsegments, hfile⟩ := Prod.mk.inj (Option.some.inj hw)
    have hwalk := notDirectory_iff (.next {} (.start rfl) rfl hstep) hsegments hfile
    exact ⟨s, s', hwalk.2 ⟨by decide, by decide, nofun⟩⟩
  · simp at hw

/-- The path `f/.` leads to the file. -/
theorem walk_through_file : ∃ (s s' : Vfs) (nd : Nameidata), Run Booted (fun _ _ ↦ True) Vfs.Step s ∧
    s.walk {} ⟨0, 0⟩ (.resolve true true true) (.newFromPath ⟨0, 0⟩ (bytes "f/.") ⟨0, 0⟩) =
      .ok nd s' ∧ s'.isDirectory nd.pos.dentry = false := by
  have hfacts : (callsFromBoot [.create 0 atFdcwd (bytes "/f") .regular]).map (fun s ↦
      match s.walk {} ⟨0, 0⟩ (.resolve true true true) (.newFromPath ⟨0, 0⟩ (bytes "f/.") ⟨0, 0⟩) with
      | .ok nd s' => s'.isDirectory nd.pos.dentry
      | .err .. | .panic => true) = some false := by
    decide +kernel
  obtain ⟨s, hcalls, hfile⟩ := Option.map_eq_some_iff.mp hfacts
  split at hfile
  · next nd s' hwalk =>
    exact ⟨s, s', nd, Run.of_runWhile (.start ⟨_, _, rfl⟩) hcalls, hwalk, hfile⟩
  all_goals simp at hfile

end RespOS.Fs
