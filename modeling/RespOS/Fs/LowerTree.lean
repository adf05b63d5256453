import RespOS.Fs.Ext4.Inode

/-!
# The directory tree of the lower file system

`namei` names the objects of the lower file system by absolute paths. The tree is the list of the paths
that exist, with the inode at each; a path is the list of its components, and `/` is the empty path. The
structure carries that no path is listed twice and that the parent of every path is a directory.

`create`, `remove` and `rename` are `Ext4Inode::create`, `remove_path` and `file_rename`: they fail
without a change where the file system refuses the request. `find_create`, `find_remove` and
`find_rename` say what is at each path afterwards.
-/

namespace RespOS.Fs

open List

abbrev Name := List UInt8

abbrev FsPath := List Name

/-- An inode, as far as path resolution looks at it. -/
structure Inode where
  ino : Nat
  ty : InodeType
  /-- The text of a symbolic link. -/
  target : List UInt8 := []
  /-- The file system. -/
  fs : Nat := 0
  deriving DecidableEq

structure LowerTree where
  entries : List (FsPath × Inode)
  nodup : (entries.map Prod.fst).Nodup
  parent : ∀ e ∈ entries, e.1 ≠ [] → ∃ d ∈ entries, d.1 = e.1.dropLast ∧ d.2.ty = .directory

namespace LowerTree

variable (fs : LowerTree) {p q old new : FsPath} {i j : Inode}

def find (p : FsPath) : Option Inode := (fs.entries.find? fun e ↦ e.1 = p).map Prod.snd

def isDirectory (p : FsPath) : Bool := fs.entries.any fun e ↦ e.1 = p && e.2.ty = .directory

def isEmpty (p : FsPath) : Bool := fs.entries.all fun e ↦ !(p.isPrefixOf e.1) || e.1 = p

variable {fs}

theorem find_eq_some_iff : fs.find p = some i ↔ (p, i) ∈ fs.entries := by
  unfold find
  rw [Option.map_eq_some_iff]
  constructor
  · rintro ⟨e, he, rfl⟩
    obtain rfl : e.1 = p := by simpa using find?_some he
    exact mem_of_find?_eq_some he
  · intro hmem
    obtain ⟨e, he⟩ : ∃ e, fs.entries.find? (fun e ↦ e.1 = p) = some e :=
      Option.isSome_iff_exists.mp (find?_isSome.mpr ⟨_, hmem, by simp⟩)
    have hkey : e.1 = p := by simpa using find?_some he
    have heq : e = (p, i) := inj_on_of_nodup_map fs.nodup (mem_of_find?_eq_some he) hmem hkey
    exact ⟨e, he, by rw [heq]⟩

theorem find_eq_none_iff : fs.find p = none ↔ ∀ i, (p, i) ∉ fs.entries := by
  rw [Option.eq_none_iff_forall_ne_some]
  exact forall_congr' fun i ↦ not_congr find_eq_some_iff

theorem isDirectory_iff : fs.isDirectory p = true ↔ ∃ i, fs.find p = some i ∧ i.ty = .directory := by
  simp only [isDirectory, find_eq_some_iff, any_eq_true, Bool.and_eq_true, decide_eq_true_eq,
    Prod.exists]
  constructor
  · rintro ⟨_, i, hmem, rfl, hty⟩
    exact ⟨i, hmem, hty⟩
  · rintro ⟨i, hmem, hty⟩
    exact ⟨p, i, hmem, rfl, hty⟩

theorem find_of_isEmpty (h : fs.isEmpty p = true) (hpq : p <+: q) (hne : q ≠ p) :
    fs.find q = none := by
  simp only [isEmpty, all_eq_true, Bool.or_eq_true, Bool.not_eq_true', decide_eq_true_eq,
    find_eq_none_iff, Prod.forall] at h ⊢
  intro i hmem
  rcases h q i hmem with hpre | heq
  · simp [List.isPrefixOf_iff_prefix.mpr hpq] at hpre
  · exact hne heq

theorem isDirectory_above (hq : fs.find q = some i) (hpq : p <+: q) (hne : p ≠ q) :
    fs.isDirectory p = true := by
  obtain ⟨rest, rfl⟩ := hpq
  induction rest using reverseRecOn generalizing i with
  | nil => simp at hne
  | append_singleton rest name ih =>
    obtain ⟨d, hd, hkey, hty⟩ := fs.parent _ (find_eq_some_iff.mp hq) (by simp)
    have hdrop : d.1 = p ++ rest := by
      rw [hkey, ← append_assoc, dropLast_concat]
    have hfind : fs.find (p ++ rest) = some d.2 := find_eq_some_iff.mpr (hdrop ▸ hd)
    by_cases hrest : rest = []
    · subst hrest
      exact isDirectory_iff.mpr ⟨d.2, by simpa using hfind, hty⟩
    · exact ih hfind (by simpa using hrest)

theorem find_eq_none_below (hp : fs.find p = none) (hpq : p <+: q) : fs.find q = none := by
  by_cases hne : p = q
  · rwa [← hne]
  rw [Option.eq_none_iff_forall_ne_some]
  intro i hq
  obtain ⟨j, hj, -⟩ := isDirectory_iff.mp (isDirectory_above hq hpq hne)
  simp [hp] at hj

/-- `create`: a new inode at a path that does not exist, in a directory that does. -/
def create (fs : LowerTree) (p : FsPath) (i : Inode) : Option LowerTree :=
  if h : p ≠ [] ∧ fs.find p = none ∧ fs.isDirectory p.dropLast = true then
    some
      { entries := (p, i) :: fs.entries
        nodup := by
          refine List.nodup_cons.mpr ⟨?_, fs.nodup⟩
          simp only [List.mem_map, Prod.exists, exists_and_right, exists_eq_right, not_exists]
          exact find_eq_none_iff.mp h.2.1
        parent := by
          intro e he hne
          rcases List.mem_cons.mp he with rfl | he
          · obtain ⟨d, hd, hty⟩ := isDirectory_iff.mp h.2.2
            exact ⟨_, List.mem_cons_of_mem _ (find_eq_some_iff.mp hd), rfl, hty⟩
          · obtain ⟨d, hd, hparent⟩ := fs.parent e he hne
            exact ⟨d, List.mem_cons_of_mem _ hd, hparent⟩ }
  else none

variable {fs' : LowerTree}

theorem find_create (h : fs.create p i = some fs') (q : FsPath) :
    fs'.find q = if q = p then some i else fs.find q := by
  unfold create at h
  split_ifs at h with hp
  obtain rfl := Option.some.inj h
  unfold find
  by_cases hq : q = p
  · simp [hq]
  · rw [find?_cons_of_neg (by simpa using Ne.symm hq), if_neg hq]

theorem find_of_create (h : fs.create p i = some fs') : fs.find p = none := by
  unfold create at h
  split_ifs at h with hp
  exact hp.2.1

/-- `remove_path`: takes away a path with nothing below it. -/
def remove (fs : LowerTree) (p : FsPath) : Option LowerTree :=
  if h : p ≠ [] ∧ (fs.find p).isSome = true ∧ fs.isEmpty p = true then
    some
      { entries := fs.entries.filter fun e ↦ e.1 ≠ p
        nodup := fs.nodup.sublist (List.filter_sublist.map _)
        parent := by
          intro e he hne
          obtain ⟨hmem, hkey⟩ := List.mem_filter.mp he
          obtain ⟨d, hd, hparent, hty⟩ := fs.parent e hmem hne
          refine ⟨d, List.mem_filter.mpr ⟨hd, ?_⟩, hparent, hty⟩
          -- a path whose parent is `p` would be below `p`
          have hbelow : ¬ p <+: e.1 := fun hpre ↦ by
            have := find_of_isEmpty h.2.2 hpre (by simpa using hkey)
            rw [find_eq_some_iff.mpr hmem] at this
            simp at this
          simp only [decide_not, Bool.not_eq_true', decide_eq_false_iff_not]
          rintro rfl
          exact hbelow (hparent ▸ List.dropLast_prefix e.1) }
  else none

theorem find_remove (h : fs.remove p = some fs') (q : FsPath) :
    fs'.find q = if q = p then none else fs.find q := by
  unfold remove at h
  split_ifs at h with hp
  obtain rfl := Option.some.inj h
  by_cases hq : q = p
  · subst hq
    rw [if_pos rfl, find_eq_none_iff]
    intro i hmem
    simpa using (mem_filter.mp hmem).2
  · rw [if_neg hq]
    apply Option.ext
    intro i
    simp only [find_eq_some_iff, mem_filter, decide_not, Bool.not_eq_true',
      decide_eq_false_iff_not, and_iff_left_iff_imp]
    exact fun _ ↦ hq

/-! ### Rename -/

/-- The path after `old` has become `new`. -/
def moved (old new p : FsPath) : FsPath := if old <+: p then new ++ p.drop old.length else p

theorem moved_append (rest : FsPath) : moved old new (old ++ rest) = new ++ rest := by
  simp [moved]

theorem moved_of_not_below (h : ¬ old <+: p) : moved old new p = p := if_neg h

theorem of_moved_eq (hp : ¬ new <+: p) (h : moved old new p = q) :
    (new <+: q ∧ p = old ++ q.drop new.length) ∨ (¬ new <+: q ∧ ¬ old <+: q ∧ p = q) := by
  subst h
  by_cases hold : old <+: p
  · obtain ⟨rest, rfl⟩ := hold
    rw [moved_append]
    exact .inl ⟨prefix_append _ _, by simp⟩
  · rw [moved_of_not_below hold]
    exact .inr ⟨hp, hold, rfl⟩

/-- `file_rename`: a path becomes another one that does not exist, in a directory that does, and takes
everything below it along. A path is not moved below itself. -/
def rename (fs : LowerTree) (old new : FsPath) : Option LowerTree :=
  if h : (fs.find old).isSome = true ∧ fs.find new = none ∧ fs.isDirectory new.dropLast = true ∧
      ¬ old <+: new then
    some
      { entries := fs.entries.map fun e ↦ (moved old new e.1, e.2)
        nodup := by
          have hfree : ∀ e ∈ fs.entries, ¬ new <+: e.1 := fun e he hpre ↦ by
            have := find_eq_none_below h.2.1 hpre
            exact find_eq_none_iff.mp this e.2 he
          rw [List.map_map]
          refine List.Nodup.map_on ?_ (List.Nodup.of_map _ fs.nodup)
          intro e he d hd heq
          refine List.inj_on_of_nodup_map fs.nodup he hd ?_
          rcases of_moved_eq (hfree e he) heq with ⟨hpre, hkey⟩ | ⟨hpre, hpre', hkey⟩ <;>
            rcases of_moved_eq (hfree d hd) rfl with ⟨hd₁, hkey'⟩ | ⟨hd₁, hd₂, hkey'⟩
          · rw [hkey, hkey']
            rfl
          · exact absurd hpre hd₁
          · exact absurd hd₁ hpre
          · exact hkey.trans hkey'.symm
        parent := by
          intro e' he' hne
          obtain ⟨e, he, rfl⟩ := List.mem_map.mp he'
          by_cases hold : old <+: e.1
          · obtain ⟨rest, hrest⟩ := hold
            induction rest using List.reverseRecOn with
            | nil =>
              obtain ⟨d, hd, hty⟩ := isDirectory_iff.mp h.2.2.1
              have hnot : ¬ old <+: new.dropLast := fun hpre ↦
                h.2.2.2 (hpre.trans (List.dropLast_prefix new))
              refine ⟨_, List.mem_map_of_mem (find_eq_some_iff.mp hd), ?_, hty⟩
              rw [← hrest, moved_append, moved_of_not_below hnot, List.append_nil]
            | append_singleton rest name _ =>
              obtain ⟨d, hd, hparent, hty⟩ := fs.parent e he (by simp [← hrest])
              refine ⟨_, List.mem_map_of_mem hd, ?_, hty⟩
              rw [hparent, ← hrest, moved_append, ← List.append_assoc, List.dropLast_concat,
                moved_append, ← List.append_assoc, List.dropLast_concat]
          · rw [moved_of_not_below hold] at hne
            obtain ⟨d, hd, hparent, hty⟩ := fs.parent e he hne
            have hnot : ¬ old <+: d.1 := fun hpre ↦
              hold (hpre.trans (hparent ▸ List.dropLast_prefix e.1))
            refine ⟨_, List.mem_map_of_mem hd, ?_, hty⟩
            rw [moved_of_not_below hold, moved_of_not_below hnot, hparent] }
  else none

theorem of_rename (h : fs.rename old new = some fs') :
    (fs.find old).isSome = true ∧ fs.find new = none ∧ fs.isDirectory new.dropLast = true ∧
      ¬ old <+: new := by
  unfold rename at h
  split_ifs at h with hp
  exact hp

theorem find_rename (h : fs.rename old new = some fs') (q : FsPath) :
    fs'.find q = if new <+: q then fs.find (old ++ q.drop new.length)
      else if old <+: q then none else fs.find q := by
  have hguard := of_rename h
  have hfree : ∀ e ∈ fs.entries, ¬ new <+: e.1 := fun e he hpre ↦
    find_eq_none_iff.mp (find_eq_none_below hguard.2.1 hpre) e.2 he
  unfold rename at h
  rw [dif_pos hguard] at h
  obtain rfl := Option.some.inj h
  apply Option.ext
  intro i
  rw [find_eq_some_iff, mem_map]
  constructor
  · rintro ⟨e, he, heq⟩
    obtain ⟨hkey, rfl⟩ := Prod.mk.inj heq
    rcases of_moved_eq (hfree e he) hkey with ⟨hpre, hkey⟩ | ⟨hpre, hpre', hkey⟩
    · rw [if_pos hpre]
      exact find_eq_some_iff.mpr (hkey ▸ he)
    · rw [if_neg hpre, if_neg hpre']
      exact find_eq_some_iff.mpr (hkey ▸ he)
  · intro hfind
    split_ifs at hfind with hpre hpre'
    · obtain ⟨rest, rfl⟩ := hpre
      rw [drop_left] at hfind
      refine ⟨_, find_eq_some_iff.mp hfind, ?_⟩
      rw [moved_append]
    · refine ⟨_, find_eq_some_iff.mp hfind, ?_⟩
      rw [moved_of_not_below hpre']

end LowerTree

end RespOS.Fs
