import RespOS.Basis.ParentChain
import RespOS.Fs.LowerTree

/-!
# Dentries and the dentry cache

A dentry keeps the path it was made with, the path it was last renamed to, and its parent. Its current path
is that of its parent with its own last component; so a rename of a directory moves everything below it.
The global cache maps paths to dentries.

Dentries are numbered as they are made. `HasPath` is the current path as a relation. `currentAbsPath`
recurses over the parents, with as many steps as there are dentries; `currentAbsPath_eq_some_iff` says that
these are enough, so it gives no path only where the source does not return. The lemmas say how the paths
and the cache change: a new dentry changes no path, and a relocated one only the paths that go through it
(`HasPath.relocate`).

The children of a dentry are left out: nothing reads them.
-/

namespace RespOS.Fs

open RespOS.Basis List Option

def dentryCacheCapacity : Nat := 16 * 1024

structure Dentry where
  absPath : FsPath
  aliasPath : Option FsPath := none
  parent : Option Nat := none
  inode : Inode

/-- The path that the dentry was made with or renamed to. -/
def Dentry.ownPath (d : Dentry) : FsPath := d.aliasPath.getD d.absPath

def Dentry.name (d : Dentry) : Name := d.ownPath.getLastD []

inductive HasPath (dentry : Nat → Dentry) : Nat → FsPath → Prop
  | top {d : Nat} (hd : (dentry d).parent = none) : HasPath dentry d (dentry d).ownPath
  | child {d p : Nat} {q : FsPath} (hd : (dentry d).parent = some p) (hp : HasPath dentry p q) :
    HasPath dentry d (q ++ [(dentry d).name])

/-- The recursion of `current_abs_path`, to a depth. -/
def pathWithin (dentry : Nat → Dentry) : Nat → Nat → Option FsPath
  | 0, _ => none
  | depth + 1, d =>
    match (dentry d).parent with
    | none => some (dentry d).ownPath
    | some p => (pathWithin dentry depth p).map (· ++ [(dentry d).name])

structure Dcache where
  dentry : Nat → Dentry
  nextDentry : Nat
  cache : List (FsPath × Nat)

namespace Dcache

variable (s : Dcache)

def currentAbsPath (d : Nat) : Option FsPath := pathWithin s.dentry s.nextDentry d

def childAbsPath (d : Nat) (name : Name) : Option FsPath := (s.currentAbsPath d).map (· ++ [name])

def lookupDentryCache (p : FsPath) : Option Nat := (s.cache.find? fun e ↦ e.1 = p).map Prod.snd

def removeDentryCache (p : FsPath) : Dcache := { s with cache := s.cache.filter fun e ↦ e.1 ≠ p }

def removeDentryCacheTree (p : FsPath) : Dcache :=
  { s with cache := s.cache.filter fun e ↦ !p.isPrefixOf e.1 }

/-- `remove_dentry_cache_descendants`; for `/` the prefix is `/`, which the path itself has as well. -/
def removeDentryCacheDescendants (p : FsPath) : Dcache :=
  { s with cache := s.cache.filter fun e ↦ !p.isPrefixOf e.1 || (p ≠ [] && e.1 = p) }

/-- `insert_dentry_cache`. A full cache gives up the entry `victim`, if there is one to give up. -/
def insertDentryCache (victim : Option FsPath) (d : Nat) : Option Dcache :=
  let s := match victim with
    | some p => if dentryCacheCapacity ≤ s.cache.length then s.removeDentryCache p else s
    | none => s
  (s.currentAbsPath d).map fun p ↦ { s with cache := (p, d) :: (s.removeDentryCache p).cache }

def alloc (d : Dentry) : Dcache :=
  { s with dentry := Function.update s.dentry s.nextDentry d, nextDentry := s.nextDentry + 1 }

def relocate (d : Nat) (newAbs : FsPath) (parent : Nat) : Dcache :=
  let moved := { s.dentry d with parent := some parent, aliasPath := some newAbs }
  { s with dentry := Function.update s.dentry d moved }

end Dcache

/-! ### Paths -/

section Paths

variable {dentry dentry' : Nat → Dentry} {d p : Nat} {q q' : FsPath}

theorem HasPath.of_parent (h : HasPath dentry d q) (hd : (dentry d).parent = some p) :
    ∃ q₀, HasPath dentry p q₀ ∧ q = q₀ ++ [(dentry d).name] := by
  cases h with
  | top hd' => simp [hd] at hd'
  | child hd' hp =>
    obtain rfl := some.inj (hd.symm.trans hd')
    exact ⟨_, hp, rfl⟩

theorem hasPath_of_pathWithin {depth : Nat} (h : pathWithin dentry depth d = some q) :
    HasPath dentry d q := by
  induction depth generalizing d q with
  | zero => simp [pathWithin] at h
  | succ depth ih =>
    unfold pathWithin at h
    split at h
    · next hd =>
      obtain rfl := some.inj h
      exact .top hd
    · next p hd =>
      obtain ⟨q₀, hq₀, rfl⟩ := map_eq_some_iff.mp h
      exact .child hd (ih hq₀)

theorem HasPath.exists_climbs (h : HasPath dentry d q) :
    ∃ n, Climbs (fun e ↦ (dentry e).parent) n d ∧ pathWithin dentry (n + 1) d = some q := by
  induction h with
  | top hd => exact ⟨0, .top hd, by simp [pathWithin, hd]⟩
  | @child d p q hd _ ih =>
    obtain ⟨n, hn, hpath⟩ := ih
    refine ⟨n + 1, .up hd hn, ?_⟩
    unfold pathWithin
    rw [hd]
    simp [hpath]

theorem HasPath.unique (h : HasPath dentry d q) (h' : HasPath dentry d q') : q = q' := by
  obtain ⟨n, hn, hpath⟩ := h.exists_climbs
  obtain ⟨m, hm, hpath'⟩ := h'.exists_climbs
  obtain rfl := hn.unique hm
  exact some.inj (hpath.symm.trans hpath')

theorem pathWithin_mono {n m : Nat} (hnm : n ≤ m) (h : pathWithin dentry n d = some q) :
    pathWithin dentry m d = some q := by
  induction n generalizing d q m with
  | zero => simp [pathWithin] at h
  | succ n ih =>
    obtain ⟨m, rfl⟩ : ∃ m', m = m' + 1 := ⟨m - 1, by omega⟩
    unfold pathWithin at h ⊢
    split at h
    · next hd => simpa [hd] using h
    next p hd =>
    obtain ⟨q₀, hq₀, rfl⟩ := map_eq_some_iff.mp h
    rw [ih (show n ≤ m by omega) hq₀]
    rfl

theorem HasPath.congr {bound : Nat}
    (hparent : ∀ d < bound, ∀ p, (dentry d).parent = some p → p < bound)
    (hagree : ∀ d < bound, dentry' d = dentry d) (hd : d < bound) (h : HasPath dentry d q) :
    HasPath dentry' d q := by
  induction h with
  | top htop =>
    rw [← hagree _ hd] at htop ⊢
    exact .top htop
  | @child d p q hd' _ ih =>
    have hp := ih (hparent d hd p hd')
    rw [← hagree d hd] at hd' ⊢
    exact .child hd' hp

theorem HasPath.relocate {old : Nat} {oldPath : FsPath} (hold : HasPath dentry old oldPath)
    (hagree : ∀ d, d ≠ old → dentry' d = dentry d) (h : HasPath dentry d q) (hq : ¬ oldPath <+: q) :
    HasPath dentry' d q := by
  have hne : ∀ {d q}, HasPath dentry d q → ¬ oldPath <+: q → d ≠ old := by
    rintro d q h hq rfl
    exact hq (hold.unique h ▸ prefix_rfl)
  induction h with
  | @top d hd =>
    have := hagree d (hne (.top hd) hq)
    rw [← this] at hd ⊢
    exact .top hd
  | @child d p q hd hp ih =>
    have := hagree d (hne (.child hd hp) hq)
    have hp' := ih fun hpre ↦ hq (hpre.trans (prefix_append _ _))
    rw [← this] at hd ⊢
    exact .child hd hp'

theorem HasPath.of_relocate {old : Nat} {oldPath : FsPath} (hold : HasPath dentry old oldPath)
    (hagree : ∀ d, d ≠ old → dentry' d = dentry d) (h : HasPath dentry' d q) :
    HasPath dentry d q ∨ ∃ q₀, HasPath dentry d q₀ ∧ oldPath <+: q₀ := by
  induction h with
  | @top d hd =>
    by_cases hne : d = old
    · exact .inr ⟨oldPath, hne ▸ hold, prefix_rfl⟩
    · rw [hagree d hne] at hd ⊢
      exact .inl (.top hd)
  | @child d p q hd _ ih =>
    by_cases hne : d = old
    · exact .inr ⟨oldPath, hne ▸ hold, prefix_rfl⟩
    rw [hagree d hne] at hd ⊢
    rcases ih with hp | ⟨q₀, hq₀, hpre⟩
    · exact .inl (.child hd hp)
    · exact .inr ⟨_, .child hd hq₀, hpre.trans (prefix_append _ _)⟩

end Paths

namespace Dcache

variable {s s' : Dcache} {d : Nat} {p q : FsPath}

/-- Parents, and what is cached, are dentries that have been made. -/
structure Bounded (s : Dcache) : Prop where
  parent : ∀ d p, (s.dentry d).parent = some p → p < s.nextDentry
  cached : ∀ e ∈ s.cache, e.2 < s.nextDentry

theorem hasPath_of_currentAbsPath (h : s.currentAbsPath d = some q) : HasPath s.dentry d q :=
  hasPath_of_pathWithin h

theorem currentAbsPath_eq_some_iff (hs : s.Bounded) (hd : d < s.nextDentry) :
    s.currentAbsPath d = some q ↔ HasPath s.dentry d q := by
  refine ⟨hasPath_of_currentAbsPath, fun h ↦ ?_⟩
  obtain ⟨n, hclimbs, hpath⟩ := h.exists_climbs
  exact pathWithin_mono (hclimbs.lt_of_bounded hs.parent hd) hpath

structure Extends (s s' : Dcache) : Prop where
  next : s.nextDentry ≤ s'.nextDentry
  dentry : ∀ d < s.nextDentry, s'.dentry d = s.dentry d

theorem Extends.hasPath_iff (h : s.Extends s') (hs : s.Bounded) (hd : d < s.nextDentry) :
    HasPath s'.dentry d q ↔ HasPath s.dentry d q := by
  refine ⟨HasPath.congr (fun e he p hp ↦ ?_) (fun e he ↦ (h.dentry e he).symm) hd,
    HasPath.congr (fun e _ ↦ hs.parent e) h.dentry hd⟩
  rw [h.dentry e he] at hp
  exact hs.parent e p hp

theorem extends_alloc (s : Dcache) (new : Dentry) : s.Extends (s.alloc new) where
  next := Nat.le_succ _
  dentry _ hd := Function.update_of_ne (Nat.ne_of_lt hd) _ _

theorem Bounded.alloc (hs : s.Bounded) {new : Dentry}
    (hnew : ∀ p, new.parent = some p → p < s.nextDentry) : (s.alloc new).Bounded where
  parent d p hp := by
    by_cases hd : d = s.nextDentry
    · subst hd
      simp only [Dcache.alloc, Function.update_self] at hp
      exact Nat.lt_succ_of_lt (hnew p hp)
    · simp only [Dcache.alloc, Function.update_of_ne hd] at hp
      exact Nat.lt_succ_of_lt (hs.parent d p hp)
  cached e he := Nat.lt_succ_of_lt (hs.cached e he)

theorem mem_of_lookupDentryCache (h : s.lookupDentryCache p = some d) : (p, d) ∈ s.cache := by
  obtain ⟨e, he, rfl⟩ := map_eq_some_iff.mp h
  obtain rfl : e.1 = p := by simpa using find?_some he
  exact mem_of_find?_eq_some he

theorem mem_removeDentryCacheTree {e : FsPath × Nat} :
    e ∈ (s.removeDentryCacheTree p).cache ↔ e ∈ s.cache ∧ ¬ p <+: e.1 := by
  simp [removeDentryCacheTree, mem_filter, ← isPrefixOf_iff_prefix]

theorem of_insertDentryCache {victim : Option FsPath} (h : s.insertDentryCache victim d = some s') :
    s'.dentry = s.dentry ∧ s'.nextDentry = s.nextDentry ∧ ∃ p, s.currentAbsPath d = some p ∧
      ∀ e ∈ s'.cache, e = (p, d) ∨ e ∈ s.cache := by
  obtain ⟨p, hp, rfl⟩ := map_eq_some_iff.mp h
  have hmem {cache : List (FsPath × Nat)} (hsub : cache ⊆ s.cache) (e : FsPath × Nat)
      (he : e ∈ (p, d) :: cache) : e = (p, d) ∨ e ∈ s.cache :=
    (mem_cons.mp he).imp_right fun he ↦ hsub he
  cases victim with
  | none => exact ⟨rfl, rfl, p, hp, hmem filter_sublist.subset⟩
  | some v =>
    split_ifs at hp ⊢
    · exact ⟨rfl, rfl, p, hp, hmem (filter_sublist.trans filter_sublist).subset⟩
    · exact ⟨rfl, rfl, p, hp, hmem filter_sublist.subset⟩

end Dcache

end RespOS.Fs
