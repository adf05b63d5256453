import RespOS.Mm.Machine

/-!
# The notifications of mapped files

A memfd counts the pages of its writable shared mappings by the notifications `notify_mmap_open` and
`notify_mmap_close`, and refuses a write seal while the count is positive. `Tallies` says that a piece of
code moves the count by exactly as much as it moves the pages of the areas; it composes, and the loops of
the address space are followed with it one area at a time.

`tallies_runOp` is the result: every operation moves the count along, but for one that grows a writable
shared mapping of a memfd where it stands (`Op.Counted`). `extend_area_end` and `expand_grows_down` do
that, and neither notifies the file.
-/

namespace RespOS.Fs.Kernel

open RespOS.Mm

structure SameMemfds (k k' : Kernel) : Prop where
  files : k'.files = k.files
  memfds : k'.memfds = k.memfds

section SameMemfds

variable {k k' k'' : Kernel} (io : IoEnv) (ext : Nat → Nat)

theorem SameMemfds.refl (k : Kernel) : k.SameMemfds k := ⟨rfl, rfl⟩

theorem SameMemfds.trans (h : k.SameMemfds k') (h' : k'.SameMemfds k'') : k.SameMemfds k'' :=
  ⟨h'.files.trans h.files, h'.memfds.trans h.memfds⟩

theorem SameMemfds.of_eq {α : Type} {x : α × Kernel} {r : α} (h : k.SameMemfds x.2)
    (heq : x = (r, k')) : k.SameMemfds k' := by
  rwa [heq] at h

variable (k : Kernel)

theorem sameMemfds_setPhys (phys : Phys) : k.SameMemfds (k.setPhys phys) := ⟨rfl, rfl⟩

theorem sameMemfds_readFileAt (f offset len : Nat) :
    k.SameMemfds (k.readFileAt io ext f offset len).2 := by
  fun_cases readFileAt k io ext f offset len <;> exact ⟨rfl, rfl⟩

theorem sameMemfds_fallbackFrame (b : FileBacking) (pageOffset fileOffset : Nat) :
    k.SameMemfds (k.fallbackFrame io ext b pageOffset fileOffset).2 := by
  -- the read of a page without contents is skipped
  have hread : ∀ (k₁ : Kernel) (c : Bool) (len : Nat) r k',
      (if c then k₁.readFileAt io ext b.file fileOffset len else (.ok [], k₁)) = (r, k') →
        k₁.SameMemfds k' := by
    intro k₁ c len r k' h
    rw [show k' = _ from (congrArg Prod.snd h).symm]
    split_ifs
    · exact sameMemfds_readFileAt io ext k₁ _ _ _
    · exact .refl k₁
  fun_cases fallbackFrame k io ext b pageOffset fileOffset
  · exact .refl k
  · exact .refl k
  · exact sameMemfds_setPhys k _
  · exact (sameMemfds_setPhys k _).trans (hread _ _ _ _ _ (by assumption))
  · have hsame := (sameMemfds_setPhys k _).trans (hread _ _ _ _ _ (by assumption))
    exact ⟨hsame.files, hsame.memfds⟩

theorem sameMemfds_sharedFileFrame (b : FileBacking) (pageOffset : Nat) :
    k.SameMemfds (k.sharedFileFrame io ext b pageOffset).2 := by
  fun_cases sharedFileFrame k io ext b pageOffset
  · exact .refl k
  · exact ⟨rfl, rfl⟩
  · exact sameMemfds_fallbackFrame io ext k b _ _

theorem sameMemfds_reserveSharedMmapWrite (f offset : Nat) (data : List UInt8) :
    k.SameMemfds (k.reserveSharedMmapWrite io f offset data).2 := by
  fun_cases reserveSharedMmapWrite k io f offset data <;> exact ⟨rfl, rfl⟩

end SameMemfds

end RespOS.Fs.Kernel

namespace RespOS.Mm

open RespOS.Fs
open RespOS.Outcome (keeps_err keeps_ok keeps_panic)

/-! ### The pages that a memfd counts -/

/-- The memfd that the area is a writable shared mapping of. -/
def MapArea.writableMemfd (files : Nat → OpenFile) (a : MapArea) : Option Nat :=
  if a.shared && a.mapPerm.write then
    match a.fileBacking with
    | some b =>
      match (files b.file).object with
      | .memfd id => some id
      | _ => none
    | none => none
  else none

/-- The pages of the area that the memfd counts. -/
def MapArea.writablePages (files : Nat → OpenFile) (id : Nat) (a : MapArea) : Nat :=
  if a.writableMemfd files = some id then a.pageCount else 0

def writablePages (files : Nat → OpenFile) (id : Nat) (areas : List MapArea) : Nat :=
  (areas.map (·.writablePages files id)).sum

section Pages

variable {files : Nat → OpenFile} {id : Nat} {a : MapArea} {areas areas' : List MapArea}

@[simp] theorem writablePages_nil : writablePages files id [] = 0 := rfl

@[simp] theorem writablePages_cons :
    writablePages files id (a :: areas) = a.writablePages files id + writablePages files id areas := by
  simp [writablePages]

@[simp] theorem writablePages_append : writablePages files id (areas ++ areas') =
      writablePages files id areas + writablePages files id areas' := by
  simp [writablePages]

theorem writablePages_perm (h : areas.Perm areas') :
    writablePages files id areas = writablePages files id areas' :=
  (h.map _).sum_eq

namespace MapArea

theorem writablePages_of_private (h : a.shared = false) : a.writablePages files id = 0 := by
  simp [writablePages, writableMemfd, h]

theorem writablePages_of_readonly (h : a.mapPerm.write = false) : a.writablePages files id = 0 := by
  simp [writablePages, writableMemfd, h]

theorem writableMemfd_part (lo hi : Nat) (keep : Nat → Bool) :
    (a.part lo hi keep).writableMemfd files = a.writableMemfd files := by
  unfold writableMemfd part windowForSubrange
  cases a.fileBacking <;> rfl

theorem writablePages_part (lo hi : Nat) (keep : Nat → Bool) :
    (a.part lo hi keep).writablePages files id =
      if a.writableMemfd files = some id then hi - lo else 0 := by
  unfold writablePages
  rw [writableMemfd_part]
  rfl

theorem writablePages_splitByOverlap {lo hi : Nat} (hlo : a.start ≤ lo) (hle : lo ≤ hi)
    (hhi : hi ≤ a.stop) : RespOS.Mm.writablePages files id ((a.splitByOverlap lo hi).left.toList ++
      [(a.splitByOverlap lo hi).middle] ++ (a.splitByOverlap lo hi).right.toList) =
      a.writablePages files id := by
  have hleft : RespOS.Mm.writablePages files id (a.splitByOverlap lo hi).left.toList =
      if a.writableMemfd files = some id then lo - a.start else 0 := by
    simp only [splitByOverlap]
    by_cases hlt : a.vpnRange.start < lo
    · simp [hlt, writablePages_part, start]
    · simp only [start] at hlo ⊢
      simp [hlt]
      omega
  have hright : RespOS.Mm.writablePages files id (a.splitByOverlap lo hi).right.toList =
      if a.writableMemfd files = some id then a.stop - hi else 0 := by
    simp only [splitByOverlap]
    by_cases hlt : hi < a.vpnRange.stop
    · simp [hlt, writablePages_part, stop]
    · simp only [stop] at hhi ⊢
      simp [hlt]
      omega
  have hmiddle : (a.splitByOverlap lo hi).middle.writablePages files id =
      if a.writableMemfd files = some id then hi - lo else 0 := writablePages_part _ _ _
  rw [writablePages_append, writablePages_append, hleft, hright, writablePages_cons, hmiddle,
    writablePages_nil, writablePages]
  split_ifs
  · simp only [start, stop, pageCount, VPNRange.pageCount] at *
    omega
  · rfl

theorem writableSharedMappings_notify (a : MapArea) (k : Kernel) (id : Nat) :
    ((a.notifyMmapOpen k).files = k.files ∧ ((a.notifyMmapOpen k).memfds id).writableSharedMappings =
      (k.memfds id).writableSharedMappings + a.writablePages k.files id) ∧
    (a.notifyMmapClose k).files = k.files ∧ ((a.notifyMmapClose k).memfds id).writableSharedMappings =
      (k.memfds id).writableSharedMappings - a.writablePages k.files id := by
  unfold notifyMmapOpen notifyMmapClose Kernel.mmapOpen Kernel.mmapClose writablePages writableMemfd
  cases hb : a.fileBacking with
  | none => simp
  | some b =>
    cases hobj : (k.files b.file).object with
    | regular c | devShm c => simp [hobj]
    | memfd c =>
      simp only [hobj]
      by_cases hw : (a.shared && a.mapPerm.write) = true
      · by_cases hid : c = id
        · subst hid
          simp [hw]
        · simp [hw, hid, Function.update_of_ne (Ne.symm hid)]
      · simp [hw]

end MapArea

end Pages

/-- The count of every memfd moves by as much as the pages of the areas do. `rest` are the pages of other
address spaces. -/
structure Tallies (areas : List MapArea) (k : Kernel) (areas' : List MapArea) (k' : Kernel) : Prop where
  files : k'.files = k.files
  count : ∀ id rest, (k.memfds id).writableSharedMappings = writablePages k.files id areas + rest →
    (k'.memfds id).writableSharedMappings = writablePages k.files id areas' + rest

section Tallies

variable {areas areas' areas'' : List MapArea} {k k' k'' : Kernel}

theorem Tallies.trans (h : Tallies areas k areas' k') (h' : Tallies areas' k' areas'' k'') :
    Tallies areas k areas'' k'' where
  files := h'.files.trans h.files
  count id rest hcount := by
    have hnext := h'.count id rest (by rw [h.files]; exact h.count id rest hcount)
    rwa [h.files] at hnext

theorem Tallies.of_same (h : k.SameMemfds k')
    (hpages : ∀ id, writablePages k.files id areas' = writablePages k.files id areas) :
    Tallies areas k areas' k' where
  files := h.files
  count id rest hcount := by
    rw [h.memfds, hpages]
    exact hcount

theorem Tallies.refl (areas : List MapArea) (k : Kernel) : Tallies areas k areas k :=
  .of_same (.refl k) fun _ ↦ rfl

theorem Tallies.of_perm (h : areas.Perm areas') : Tallies areas k areas' k :=
  .of_same (.refl k) fun _ ↦ (writablePages_perm h).symm

theorem Tallies.frame (h : Tallies areas k areas' k') (l₁ l₂ : List MapArea) :
    Tallies (l₁ ++ areas ++ l₂) k (l₁ ++ areas' ++ l₂) k' where
  files := h.files
  count id rest hcount := by
    have hframed := h.count id (writablePages k.files id l₁ + writablePages k.files id l₂ + rest) (by
      rw [hcount, writablePages_append, writablePages_append]
      omega)
    rw [hframed, writablePages_append, writablePages_append]
    omega

theorem Tallies.cut {a : MapArea} {lo hi : Nat} {mid : List MapArea}
    (h : Tallies [(a.splitByOverlap lo hi).middle] k mid k') (hlo : a.start ≤ lo) (hle : lo ≤ hi)
    (hhi : hi ≤ a.stop) (l₁ l₂ : List MapArea) : Tallies (l₁ ++ a :: l₂) k
      (l₁ ++ ((a.splitByOverlap lo hi).left.toList ++ mid ++ (a.splitByOverlap lo hi).right.toList) ++
        l₂) k' := by
  refine .trans (.of_same (.refl k) fun id ↦ ?_) ((h.frame _ _).frame l₁ l₂)
  rw [writablePages_append, writablePages_append, MapArea.writablePages_splitByOverlap hlo hle hhi,
    writablePages_append, writablePages_cons]
  omega

theorem tallies_notifyMmapOpen (a : MapArea) (k : Kernel) : Tallies [] k [a] (a.notifyMmapOpen k) where
  files := (a.writableSharedMappings_notify k 0).1.1
  count id rest hcount := by
    rw [(a.writableSharedMappings_notify k id).1.2, hcount]
    simp
    omega

theorem tallies_notifyMmapClose (a : MapArea) (k : Kernel) :
    Tallies [a] k [] (a.notifyMmapClose k) where
  files := (a.writableSharedMappings_notify k 0).2.1
  count id rest hcount := by
    rw [(a.writableSharedMappings_notify k id).2.2, hcount]
    simp

theorem tallies_notifyAllClose (areas : List MapArea) (k : Kernel) :
    Tallies areas k [] (MemorySet.notifyAllClose areas k) := by
  induction areas generalizing k with
  | nil => exact .refl [] k
  | cons a areas ih =>
    have hclose : Tallies (a :: areas) k areas (a.notifyMmapClose k) := by
      simpa using (tallies_notifyMmapClose a k).frame [] areas
    exact hclose.trans (ih _)

end Tallies

/-- An operation on an address space tallies. -/
abbrev Tallied (s s' : MmState) : Prop := Tallies s.ms.areas s.k s'.ms.areas s'.k

/-! ### The methods of an area -/

variable {a a' : MapArea} {k k' : Kernel}

variable {s' s ps : PtState} {pages : List (Nat × Nat)}

namespace MapArea

variable (io : IoEnv) (ext : Nat → Nat)

/-- A method leaves the area but for its frames, and the memfds. -/
structure Quiet (a : MapArea) (k : Kernel) (a' : MapArea) (k' : Kernel) : Prop where
  area : ∃ d, a' = a.withFrames d
  same : k.SameMemfds k'

theorem Quiet.refl (a : MapArea) (k : Kernel) : a.Quiet k a k := ⟨⟨a.dataFrames, rfl⟩, .refl k⟩

theorem Quiet.trans {a'' : MapArea} {k'' : Kernel} (h : a.Quiet k a' k') (h' : a'.Quiet k' a'' k'') :
    a.Quiet k a'' k'' := by
  obtain ⟨d, rfl⟩ := h.area
  obtain ⟨d', rfl⟩ := h'.area
  exact ⟨⟨d', rfl⟩, h.same.trans h'.same⟩

theorem Quiet.of_eq {α : Type} {x : α × MapArea × PtState} {r : α} (h : a.Quiet k x.2.1 x.2.2.k)
    (heq : x = (r, a', s')) : a.Quiet k a' s'.k := by
  rwa [heq] at h

theorem Quiet.tallies (h : a.Quiet k a' k') : Tallies [a] k [a'] k' := by
  obtain ⟨d, rfl⟩ := h.area
  exact .of_same h.same fun _ ↦ rfl

section

variable (a : MapArea)

theorem sameMemfds_chooseFrame (k : Kernel) (pageOffset : Nat)
    (live : Option FileBacking) : k.SameMemfds (a.chooseFrame k io ext pageOffset live).2 := by
  fun_cases chooseFrame a k io ext pageOffset live
  · exact Kernel.sameMemfds_sharedFileFrame io ext k _ _
  · exact Kernel.sameMemfds_setPhys k _
  · exact Kernel.sameMemfds_setPhys k _
  · rename_i k₁ _ _ _ _ _ hread
    have hset : k.SameMemfds k₁ := Kernel.sameMemfds_setPhys k _
    exact hset.trans ((Kernel.sameMemfds_readFileAt io ext _ _ _ _).of_eq hread)
  · rename_i k₁ _ _ _ _ k' hread
    have hset : k.SameMemfds k₁ := Kernel.sameMemfds_setPhys k _
    exact (hset.trans ((Kernel.sameMemfds_readFileAt io ext _ _ _ _).of_eq hread)).trans
      (Kernel.sameMemfds_setPhys k' _)
  · exact Kernel.sameMemfds_setPhys k _
  · exact Kernel.sameMemfds_setPhys k _

theorem quiet_installFrame (s : PtState) (vpn ppn : Nat) (cow : Bool) :
    a.Quiet s.k (a.installFrame s vpn ppn cow).2.1 (a.installFrame s vpn ppn cow).2.2.k := by
  fun_cases installFrame a s vpn ppn cow <;> exact ⟨⟨_, rfl⟩, Kernel.sameMemfds_setPhys _ _⟩

theorem quiet_mapOne (s : PtState) (vpn : Nat) :
    a.Quiet s.k (a.mapOne s io ext vpn).2.1 (a.mapOne s io ext vpn).2.2.k := by
  have hchosen : ∀ pageOffset live r k, a.chooseFrame s.k io ext pageOffset live = (r, k) →
      s.k.SameMemfds k := fun _ _ _ _ h ↦ (sameMemfds_chooseFrame io ext a s.k _ _).of_eq h
  have hinstalled : ∀ k ppn cow r a' s', s.k.SameMemfds k →
      a.installFrame { s with k := k } vpn ppn cow = (r, a', s') → a.Quiet s.k a' s'.k := by
    intro k ppn cow r a' s' hsame h
    have hquiet := (quiet_installFrame a { s with k := k } vpn ppn cow).of_eq h
    exact ⟨hquiet.area, hsame.trans hquiet.same⟩
  fun_cases mapOne a s io ext vpn
  · exact .refl a s.k
  · exact ⟨⟨a.dataFrames, rfl⟩, hchosen _ _ _ _ (by assumption)⟩
  · exact hinstalled _ _ _ _ _ _ (hchosen _ _ _ _ (by assumption)) (by assumption)
  · exact hinstalled _ _ _ _ _ _ (hchosen _ _ _ _ (by assumption)) (by assumption)

theorem quiet_mapEach (vpns done : List Nat) (s : PtState) :
    a.Quiet s.k (mapEach io ext vpns done a s).2.1 (mapEach io ext vpns done a s).2.2.k := by
  induction vpns generalizing done a s with
  | nil => exact .refl a s.k
  | cons vpn rest ih =>
    have hone := quiet_mapOne io ext a s vpn
    simp only [mapEach]
    split
    · rename_i h
      rw [unmapEach_eq]
      exact (hone.of_eq h).trans ⟨⟨_, rfl⟩, .refl _⟩
    · exact (hone.of_eq (by assumption)).trans (ih _ _ _)

theorem quiet_replaceFrame (s : PtState) (vpn : Nat) (data : PageBytes) :
    a.Quiet s.k (a.replaceFrame s vpn data).2.1 (a.replaceFrame s vpn data).2.2.k := by
  fun_cases replaceFrame a s vpn data
  · exact ⟨⟨a.dataFrames, rfl⟩, Kernel.sameMemfds_setPhys _ _⟩
  · exact ⟨⟨a.dataFrames, rfl⟩, Kernel.sameMemfds_setPhys _ _⟩
  · exact ⟨⟨_, rfl⟩, Kernel.sameMemfds_setPhys _ _⟩

theorem quiet_privatizeEach (vpns : List Nat) (s : PtState) :
    a.Quiet s.k (privatizeEach vpns a s).2.1 (privatizeEach vpns a s).2.2.k := by
  induction vpns generalizing a s with
  | nil => exact .refl a s.k
  | cons vpn rest ih =>
    have hone : a.Quiet s.k (a.privatizeOne s vpn).2.1 (a.privatizeOne s vpn).2.2.k := by
      fun_cases privatizeOne a s vpn
      · exact .refl a s.k
      · exact quiet_replaceFrame a s vpn _
    simp only [privatizeEach]
    split
    · exact hone.of_eq (by assumption)
    · exact (hone.of_eq (by assumption)).trans (ih _ _)

end

theorem sameMemfds_remapFrames {flags : PTEFlags} {r : Except Errno Unit}
    (h : remapFrames flags pages s = (r, s')) : s.k.SameMemfds s'.k := by
  induction pages generalizing s with
  | nil =>
    obtain ⟨-, rfl⟩ := Prod.mk.inj h
    exact .refl s.k
  | cons page rest ih =>
    simp only [remapFrames] at h
    split at h
    · obtain ⟨-, rfl⟩ := Prod.mk.inj h
      exact Kernel.sameMemfds_setPhys _ _
    · have hrest := ih h
      exact (Kernel.sameMemfds_setPhys s.k _).trans hrest

end MapArea

namespace MemorySet

theorem sameMemfds_installGiven {flags : PTEFlags} {mapped : List Nat}
    {frames : Std.ExtTreeMap Nat Nat} {r : Except Errno (Std.ExtTreeMap Nat Nat)}
    (h : installGiven flags pages mapped frames s = (r, s')) : s.k.SameMemfds s'.k := by
  cases r with
  | error e =>
    obtain ⟨⟨phys, -, hk⟩, -⟩ := MapArea.installGiven_error h
    exact hk ▸ Kernel.sameMemfds_setPhys s.k phys
  | ok d => exact MapArea.sameMemfds_remapFrames (MapArea.installGiven_ok h).1

end MemorySet

theorem sameMemfds_sharedFramesLoop (io : IoEnv) (ext : Nat → Nat) (b : FileBacking)
    (pages frames : List Nat) (k : Kernel) :
    k.SameMemfds (sharedFramesLoop io ext b pages frames k).2 := by
  induction pages generalizing frames k with
  | nil => exact .refl k
  | cons page rest ih =>
    have hone := Kernel.sameMemfds_sharedFileFrame io (fun p ↦ ext p + frames.count p) k b
      (page * pageSize)
    simp only [sharedFramesLoop]
    split
    · exact hone.of_eq (by assumption)
    · exact (hone.of_eq (by assumption)).trans (ih _ _)

theorem sameMemfds_mmapFileBacking (io : IoEnv) (ext : Nat → Nat) (k : Kernel)
    (file offset mapLen : Nat) (shared : Bool) :
    k.SameMemfds (mmapFileBacking k io ext file offset mapLen shared).2 := by
  fun_cases mmapFileBacking k io ext file offset mapLen shared
  · exact .refl k
  · exact (sameMemfds_sharedFramesLoop io ext _ _ _ _).of_eq (by assumption)
  · exact (sameMemfds_sharedFramesLoop io ext _ _ _ _).of_eq (by assumption)
  · exact .refl k

namespace MemorySet

open MapArea

/-! ### The loop over the areas that meet a range -/

/-- No area is reversed. -/
def Forward (areas : List MapArea) : Prop := ∀ a ∈ areas, a.start ≤ a.stop

theorem Forward.of_geometry {areas : List MapArea} (h : Geometry areas) : Forward areas :=
  fun _ ha ↦ (h.wellFormed ha).nonempty.le

section Loop

variable {r : VPNRange} {onMiddle : MapArea → PtState → Except Errno (Option MapArea) × PtState}
  {s : MmState}

section

variable (hle : r.start ≤ r.stop)
include hle

theorem tallies_overlapLoop (hok : ∀ middle ps mid ps', onMiddle middle ps = (.ok mid, ps') →
      Tallies [middle] ps.k mid.toList ps'.k ∧ ∀ x ∈ mid, x.vpnRange = middle.vpnRange)
    (herr : ∀ middle ps e ps', onMiddle middle ps = (.error e, ps') →
      middle.shared = false ∧ ps.k.SameMemfds ps'.k) (hforward : Forward s.ms.areas) :
    Tallies s.ms.areas s.k (treatOverlap s r onMiddle).2.ms.areas (treatOverlap s r onMiddle).2.k := by
  unfold treatOverlap
  rcases h : overlapLoop r onMiddle s.ms.areas [] ⟨s.ms.pageTable, s.k⟩ with ⟨res, areas, ps⟩
  refine (overlapLoop_invariant (I := fun l ps ↦ Forward l ∧ Tallies s.ms.areas s.k l ps.k) ?_ ?_ h
    ⟨hforward, .refl _ _⟩).2
  · rintro l₁ a l₂ ps mid ps' ⟨hforward, htally⟩ hmeet heq
    have ha : a.start ≤ a.stop := hforward a (by simp)
    obtain ⟨hlo, hhi⟩ := VPNRange.intersectWith_eq_true.mp hmeet
    set lo := max a.start r.start with hlo'
    set hi := min a.stop r.stop with hhi'
    have hbounds : a.start ≤ lo ∧ lo ≤ hi ∧ hi ≤ a.stop := by
      simp only [MapArea.start, MapArea.stop] at *
      omega
    obtain ⟨hmiddle, hrange⟩ := hok _ ps mid ps' heq
    refine ⟨fun x hx ↦ ?_, htally.trans ?_⟩
    · simp only [List.mem_append, Option.mem_toList] at hx
      rcases hx with (hx | (hx | hx) | hx) | hx
      · exact hforward x (by simp [hx])
      · obtain ⟨hlt, rfl⟩ := mem_left.mp hx
        exact hlt.le
      · rw [MapArea.start, MapArea.stop, hrange x hx]
        exact hbounds.2.1
      · obtain ⟨hlt, rfl⟩ := mem_right.mp hx
        exact hlt.le
      · exact hforward x (by simp [hx])
    · exact hmiddle.cut hbounds.1 hbounds.2.1 hbounds.2.2 l₁ l₂
  · rintro l₁ a l₂ ps e ps' ⟨hforward, htally⟩ hmeet heq
    obtain ⟨hprivate, hsame⟩ := herr _ ps e ps' heq
    have ha : ∀ id, a.writablePages ps.k.files id = 0 := fun id ↦
      writablePages_of_private hprivate
    refine ⟨fun x hx ↦ hforward x ?_, htally.trans (.of_same hsame fun id ↦ ?_)⟩
    · exact Basis.mem_append_cons_iff.mpr (.inr hx)
    · simp [ha id]

theorem tallies_removeAreaWithOverlapRange (hforward : Forward s.ms.areas) :
    Tallies s.ms.areas s.k (removeAreaWithOverlapRange s r).ms.areas
      (removeAreaWithOverlapRange s r).k := by
  refine tallies_overlapLoop hle (fun middle ps mid ps' h ↦ ?_) (fun middle ps e ps' h ↦ ?_) hforward
  · obtain ⟨rfl, rfl⟩ := h
    exact ⟨tallies_notifyMmapClose middle ps.k, by simp⟩
  · simp [removeMiddle] at h

theorem tallies_setMiddle {f : MapArea → MapArea}
    (hf : ∀ a, (f a).vpnRange = a.vpnRange ∧ (f a).shared = a.shared ∧ (f a).mapPerm = a.mapPerm ∧
      (f a).fileBacking = a.fileBacking) (hforward : Forward s.ms.areas) :
    Tallies s.ms.areas s.k (treatOverlap s r (setMiddle f)).2.ms.areas
      (treatOverlap s r (setMiddle f)).2.k := by
  refine tallies_overlapLoop hle (fun middle ps mid ps' h ↦ ?_) (fun middle ps e ps' h ↦ ?_) hforward
  · obtain ⟨rfl, rfl⟩ := h
    obtain ⟨hrange, hshared, hperm, hfile⟩ := hf middle
    refine ⟨.of_same (.refl _) fun id ↦ ?_, by simpa using hrange⟩
    simp [MapArea.writablePages, writableMemfd, MapArea.pageCount, hrange, hshared, hperm, hfile]
  · simp [setMiddle] at h

end

/-- `mprotect` notifies the file where the area becomes writable and where it stops being writable; its
private copies fail in private areas only. -/
theorem tallies_protectMiddle (newPerm : MapPermission) (middle : MapArea) (ps : PtState) :
    (∀ mid ps', protectMiddle newPerm middle ps = (.ok mid, ps') →
      Tallies [middle] ps.k mid.toList ps'.k ∧ ∀ x ∈ mid, x.vpnRange = middle.vpnRange) ∧
    ∀ e ps', protectMiddle newPerm middle ps = (.error e, ps') →
      middle.shared = false ∧ ps.k.SameMemfds ps'.k := by
  unfold protectMiddle
  cases hold : middle.mapPerm.write with
  | true =>
    simp only [Bool.not_true, Bool.and_false, Bool.false_and, Bool.false_eq_true, if_false,
      Prod.mk.injEq, Except.ok.injEq, reduceCtorEq, false_and, IsEmpty.forall_iff, implies_true,
      and_true]
    rintro mid ps' ⟨rfl, rfl⟩
    refine ⟨?_, by simp⟩
    cases hnew : newPerm.write with
    | true =>
      refine .of_same (.refl _) fun id ↦ ?_
      simp [MapArea.writablePages, writableMemfd, MapArea.pageCount, hold, hnew]
    | false =>
      refine (tallies_notifyMmapClose middle ps.k).trans (.of_same (.refl _) fun id ↦ ?_)
      simp [writablePages_of_readonly, hnew]
  | false =>
    have hzero : ∀ files id, middle.writablePages files id = 0 := fun _ _ ↦
      writablePages_of_readonly hold
    -- the private copies, where there are any
    have hcopies : ∀ r a₁ ps₁,
        (if !middle.shared && middle.fileBacking.isSome && !false && newPerm.write then
          privatizeEach middle.dataFrames.keys middle ps else (.ok (), middle, ps)) =
          (r, a₁, ps₁) →
        middle.Quiet ps.k a₁ ps₁.k ∧ ∀ e, r = .error e → middle.shared = false := by
      intro r a₁ ps₁ h
      split_ifs at h with hprivate
      · simp only [Bool.and_eq_true, Bool.not_eq_true'] at hprivate
        exact ⟨(quiet_privatizeEach _ _ _).of_eq h, fun _ _ ↦ hprivate.1.1.1⟩
      · obtain ⟨rfl, rfl, rfl⟩ := h
        exact ⟨.refl _ _, by simp⟩
    simp only [Bool.false_and, Bool.false_eq_true, if_false, Bool.not_false, Bool.true_and]
    rcases hres : (if !middle.shared && middle.fileBacking.isSome && true && newPerm.write then
        privatizeEach middle.dataFrames.keys middle ps else (.ok (), middle, ps)) with
      ⟨e | u, a₁, ps₁⟩
    · obtain ⟨hquiet, hprivate⟩ := hcopies _ _ _ hres
      simp only [Prod.mk.injEq, reduceCtorEq, false_and, IsEmpty.forall_iff, implies_true, true_and]
      rintro e' ps' ⟨-, rfl⟩
      exact ⟨hprivate e rfl, hquiet.same⟩
    obtain ⟨⟨⟨d, rfl⟩, hsame⟩, -⟩ := hcopies _ _ _ hres
    simp only [Prod.mk.injEq, Except.ok.injEq, reduceCtorEq, false_and, IsEmpty.forall_iff,
      implies_true, and_true]
    rintro mid ps' ⟨rfl, rfl⟩
    refine ⟨(show Tallies [middle] ps.k [] ps₁.k from .of_same hsame fun id ↦ by simp [hzero]).trans ?_, by
      simp [withFrames]⟩
    cases hnew : newPerm.write with
    | true => exact tallies_notifyMmapOpen _ ps₁.k
    | false =>
      refine .of_same (.refl _) fun id ↦ ?_
      simp [writablePages_of_readonly, hnew]

theorem tallies_remapAreaWithOverlapRange (hle : r.start ≤ r.stop) (perm : MapPermission)
    (hforward : Forward s.ms.areas) : (remapAreaWithOverlapRange s r perm).Keeps (Tallied s) := by
  rcases remapAreaWithOverlapRange_cases s r perm with ⟨e, heq⟩ | heq
  · rw [heq]
    exact keeps_err.mpr (.refl _ _)
  · rw [heq]
    exact keeps_ofLoop (tallies_overlapLoop hle
      (fun middle ps mid ps' ↦ (tallies_protectMiddle _ middle ps).1 mid ps')
      (fun middle ps e ps' ↦ (tallies_protectMiddle _ middle ps).2 e ps') hforward)

end Loop

/-! ### The operations -/

section Operations

variable {s : MmState} (io : IoEnv) (ext : Nat → Nat)

theorem tallies_commitArea {req : MmapRequest} {start stop : Nat} (h : Tallies [] s.k [a] ps.k) :
    (commitArea s req start stop a ps).Keeps (Tallied s) := by
  refine keeps_ok.mpr ?_
  have hframe := h.frame s.ms.areas []
  simp only [List.append_nil] at hframe
  exact hframe.trans (.of_perm (List.perm_insertionSort _ _).symm)

theorem tallies_uncounted (hsame : k.SameMemfds k') (ha : a.writableMemfd k.files = none) :
    Tallies [] k [a] k' :=
  .of_same hsame fun id ↦ by simp [MapArea.writablePages, ha]

theorem tallies_installArea (req : MmapRequest) (backing : MmapBacking) (start stop : Nat) :
    (installArea s io ext req backing start stop).Keeps (Tallied s) := by
  fun_cases installArea s io ext req backing start stop with
  | case1 | case6 => exact tallies_commitArea (tallies_uncounted (.refl _) rfl)
  | case2 => exact keeps_panic
  | case3 ps a ps' h =>
    obtain ⟨⟨d, rfl⟩, hsame⟩ := (quiet_mapEach io ext _ _ _ _).of_eq h
    refine tallies_commitArea (tallies_uncounted hsame ?_)
    simp [writableMemfd, withFrames, blankArea]
  | case4 ps _ _ a e ps' h | case8 ps _ _ _ _ _ _ a _ _ _ e ps' h =>
    exact keeps_err.mpr (.of_same (sameMemfds_installGiven h) fun _ ↦ rfl)
  | case5 ps attachId frames a d ps' h =>
    refine tallies_commitArea (tallies_uncounted (sameMemfds_installGiven h) ?_)
    simp [writableMemfd, a, blankArea]
  | case7 => exact keeps_err.mpr (.refl _ _)
  | case9 ps file offset len validLen frames _ a _ _ _ d ps' h =>
    have hgiven : Tallies [] s.k [] ps'.k := .of_same (sameMemfds_installGiven h) fun _ ↦ rfl
    exact tallies_commitArea (hgiven.trans (tallies_notifyMmapOpen _ _))

theorem tallies_mmapArea (req : MmapRequest) (backing : MmapBacking) (hforward : Forward s.ms.areas) :
    (mmapArea s io ext req backing).Keeps (Tallied s) := by
  rcases mmapArea_cases s io ext req backing with
    ⟨e, he⟩ | ⟨start, stop, s₁, heq, -, -, hstop, hmax, hs₁, -⟩
  · rw [he]
    exact keeps_err.mpr (.refl _ _)
  rw [heq]
  have hprepared : Tallies s.ms.areas s.k s₁.ms.areas s₁.k := by
    rcases hs₁ with ⟨-, -, rfl⟩ | rfl
    · obtain ⟨hlt, -⟩ := byteRange_window req.mapLen_pos hstop hmax
      exact tallies_removeAreaWithOverlapRange hlt.le hforward
    · exact .refl _ _
  exact (tallies_installArea io ext req backing _ _).mono fun s₂ ↦ hprepared.trans

theorem tallies_mmap (env : OpEnv) (req : MmapRequest) (source : MapSource)
    (hforward : Forward s.ms.areas) : (mmap s env req source).Keeps (Tallied s) := by
  cases source with
  | anonymous shared => exact tallies_mmapArea _ _ req _ hforward
  | segment attachId frames =>
    exact tallies_mmapArea _ _ req (.sharedFrames attachId frames) hforward
  | file f offset shared =>
    simp only [mmap]
    split_ifs
    · exact keeps_err.mpr (.refl _ _)
    split
    · exact keeps_err.mpr (.refl _ _)
    split
    · exact keeps_err.mpr
        (.of_same ((sameMemfds_mmapFileBacking _ _ _ _ _ _ _).of_eq (by assumption)) fun _ ↦ rfl)
    · rename_i k h
      have hsame : s.k.SameMemfds k := (sameMemfds_mmapFileBacking _ _ _ _ _ _ _).of_eq h
      have hbacked : Tallies s.ms.areas s.k s.ms.areas k := .of_same hsame fun _ ↦ rfl
      exact (tallies_mmapArea (s := { s with k := k }) _ _ req _ hforward).mono fun s' ↦
        hbacked.trans

theorem tallies_munmapRange (addr mapLen : Nat) (hforward : Forward s.ms.areas) :
    (munmapRange s addr mapLen).Keeps (Tallied s) :=
  munmapRange_rule (.refl _ _) fun _ _ _ hle _ ↦ tallies_removeAreaWithOverlapRange hle hforward

/-! ### Moving and growing -/

theorem tallies_detachArea {r : VPNRange} {middle : MapArea} {s' : MmState} (hle : r.start ≤ r.stop)
    (h : detachArea s r = some (middle, s')) : Tallies s.ms.areas s.k s'.ms.areas s'.k := by
  obtain ⟨l₁, a, l₂, hsplit, hlo, hhi, rfl, rfl⟩ := detachArea_cases h
  rw [hsplit]
  have hcut := (tallies_notifyMmapClose _ s.k).cut hlo hle hhi l₁ l₂
  rwa [List.append_nil] at hcut

theorem tallies_placeMoved (middle : MapArea) (newStart newPages newAddr : Nat) :
    (placeMoved s middle newStart newPages newAddr).Keeps (Tallied s) := by
  simp only [placeMoved, remapExistingFrames]
  split
  · exact keeps_err.mpr (.of_same (sameMemfds_remapFrames (by assumption)) fun _ ↦ rfl)
  rename_i ps h
  have hplaced : Tallies s.ms.areas s.k s.ms.areas ps.k :=
    .of_same (sameMemfds_remapFrames h) fun _ ↦ rfl
  have hopen := (tallies_notifyMmapOpen (middle.rebase newStart newPages) ps.k).frame s.ms.areas []
  simp only [List.append_nil] at hopen
  exact keeps_ok.mpr ((hplaced.trans hopen).trans (.of_perm (List.perm_insertionSort _ _).symm))

end Operations

/-- `mremap_range` takes the branch that grows the area where it stands. -/
def growsInPlace (ms : MemorySet) (oldAddr oldLen newLen : Nat) : Bool :=
  decide (oldLen < newLen) && decide (oldAddr + newLen ≤ mmapMaxAddr) &&
    !ms.areaIntersects
      ⟨floorVpn (virtAddr (oldAddr + oldLen)), floorVpn (virtAddr (oldAddr + newLen))⟩

/-- The area that `expand_grows_down` would extend at a fault outside all areas. -/
def grownDown (ms : MemorySet) (vpn : Nat) (userSp : Option Nat) : Option MapArea :=
  match ms.areas.findIdx? fun a ↦ a.vpnRange.contain vpn with
  | some _ => none
  | none => (ms.expandGrowsDown vpn userSp).bind fun grown ↦ ms.areas[grown.1]?

section Growth

variable {s : MmState}

theorem writableMemfd_resizeEnd (files : Nat → OpenFile) (a : MapArea) (pt : PageTable) (newEnd : Nat) :
    (a.resizeEnd pt newEnd).1.writableMemfd files = a.writableMemfd files := by
  unfold resizeEnd
  by_cases hlt : newEnd < a.vpnRange.stop
  · simp only [hlt, if_true, unmapEach_eq, writableMemfd, withFrames]
    cases a.fileBacking <;> rfl
  · simp only [hlt, if_false, writableMemfd]
    cases a.fileBacking <;> rfl

theorem tallies_extendAreaEnd {r : VPNRange} {newEnd : Nat} {areas' : List MapArea} {pt' : PageTable}
    (hcounted : ∀ a ∈ s.ms.areas, a.vpnRange.containRange r = true → a.writableMemfd s.k.files = none)
    (h : extendAreaEnd r newEnd s.ms.areas s.ms.pageTable = some (areas', pt')) :
    Tallies s.ms.areas s.k areas' s.k := by
  obtain ⟨l₁, a, l₂, hareas, hcontain, hcases⟩ := extendAreaEnd_spec h
  have ha : a.writableMemfd s.k.files = none := hcounted a (by rw [hareas]; simp) hcontain
  have hzero : ∀ (id : Nat) (x : MapArea), x.writableMemfd s.k.files = none →
      x.writablePages s.k.files id = 0 := fun id x hx ↦ by simp [MapArea.writablePages, hx]
  refine .of_same (.refl _) fun id ↦ ?_
  rcases hcases with ⟨-, rfl, -⟩ | ⟨rfl, -⟩
  · have hresized := hzero id _ ((writableMemfd_resizeEnd s.k.files a s.ms.pageTable newEnd).trans ha)
    simp [hareas, hresized, hzero id a ha]
  have hmiddle := hzero id _ ((writableMemfd_resizeEnd s.k.files
    (a.splitByOverlap r.start r.stop).middle s.ms.pageTable newEnd).trans
      ((writableMemfd_part _ _ _).trans ha))
  have houter : writablePages s.k.files id (a.splitByOverlap r.start r.stop).left.toList = 0 ∧
      writablePages s.k.files id (a.splitByOverlap r.start r.stop).right.toList = 0 := by
    simp only [splitByOverlap]
    constructor
    · split_ifs <;> simp [writablePages_part, ha]
    · split_ifs <;> simp [writablePages_part, ha]
  simp [hareas, hmiddle, houter.1, houter.2, hzero id a ha]

theorem tallies_mremapRange (oldAddr oldLen newLen : Nat) (maymove : Bool) (fixedAddr : Option Nat)
    (hgeo : Geometry s.ms.areas)
    (hcounted : fixedAddr = none → s.ms.growsInPlace oldAddr oldLen newLen = true →
      ∀ a ∈ s.ms.areas, a.vpnRange.containRange
        ⟨floorVpn (virtAddr oldAddr), floorVpn (virtAddr (oldAddr + oldLen))⟩ = true →
        a.writableMemfd s.k.files = none) :
    (mremapRange s oldAddr oldLen newLen maymove fixedAddr).Keeps (Tallied s) := by
  have hremapped := remapped_mremapRange hgeo oldAddr oldLen newLen maymove fixedAddr
  generalize mremapRange s oldAddr oldLen newLen maymove fixedAddr = o at hremapped ⊢
  cases hremapped with
  | panic => exact keeps_panic
  | err e => exact keeps_err.mpr (.refl _ _)
  | same => exact keeps_ok.mpr (.refl _ _)
  | shrink _ hle _ =>
    exact keeps_ok.mpr (tallies_removeAreaWithOverlapRange hle (.of_geometry hgeo))
  | extend hnone hgrows hmax hfree _ _ hextend =>
    refine keeps_ok.mpr (tallies_extendAreaEnd (hcounted hnone ?_) hextend)
    simp only [growsInPlace, Bool.and_eq_true, decide_eq_true_eq, Bool.not_eq_true']
    exact ⟨⟨hgrows, hmax⟩, hfree⟩
  | move hle _ _ hdetach hclear _ =>
    refine (tallies_placeMoved _ _ _ _).mono fun s' ↦ Tallies.trans ?_
    rcases hclear with rfl | ⟨-, rfl⟩
    · exact tallies_detachArea hle hdetach
    · have hforward := Forward.of_geometry (detachArea_spec hle hgeo hdetach).1
      exact (tallies_detachArea hle hdetach).trans
        (tallies_removeAreaWithOverlapRange (floorVpn_mono (Nat.le_add_right _ _)) hforward)

theorem tallies_discardLoop (r : VPNRange) (areas : List MapArea) (pt : PageTable) (k : Kernel) :
    Tallies areas k (discardLoop r areas pt).1 k := by
  refine .of_same (.refl k) fun id ↦ ?_
  induction areas generalizing pt with
  | nil => rfl
  | cons a areas ih =>
    simp only [discardLoop]
    split_ifs
    · simp [ih]
    · rw [unmapEach_eq]
      simp only [writablePages_cons, ih]
      rfl

theorem writablePages_mergeLoop (files : Nat → OpenFile) (id : Nat) (a : MapArea)
    (rest : List MapArea) :
    writablePages files id (mergeLoop a rest) = writablePages files id (a :: rest) := by
  refine mergeLoop_rule (l := []) (I := fun l ↦ writablePages files id l = _)
    (fun l₁ a b l₂ hmerge h ↦ ?_) rfl
  simp only [canMergePrivateAnonymous, Bool.and_eq_true, Bool.not_eq_true'] at hmerge
  have hprivate : a.shared = false ∧ b.shared = false := by tauto
  rw [← h]
  simp [writablePages_of_private hprivate.1, writablePages_of_private hprivate.2,
    writablePages_of_private (show (mergeAreas a b).shared = false from hprivate.1)]

theorem writablePages_fillHoles (files : Nat → OpenFile) (id stop fuel cursor : Nat)
    (areas : List MapArea) :
    writablePages files id (fillHoles stop fuel cursor areas) = writablePages files id areas := by
  induction fuel generalizing cursor areas with
  | zero => rfl
  | succ fuel ih =>
    simp only [fillHoles]
    split_ifs
    · rfl
    split
    · exact ih _ _
    · rw [ih, sortAreas, writablePages_perm (List.perm_insertionSort _ _)]
      simp [writablePages_of_private]

theorem tallies_ensurePrivateWritableAnonymousRange (r : VPNRange) :
    (ensurePrivateWritableAnonymousRange s r).Keeps (Tallied s) := by
  unfold ensurePrivateWritableAnonymousRange
  split_ifs
  · exact keeps_err.mpr (.refl _ _)
  refine keeps_ok.mpr (.of_same (.refl _) fun id ↦ ?_)
  have hsorted : writablePages s.k.files id
      (sortAreas (fillHoles r.stop (r.stop - r.start) r.start s.ms.areas)) =
        writablePages s.k.files id s.ms.areas := by
    rw [sortAreas, writablePages_perm (List.perm_insertionSort _ _), writablePages_fillHoles]
  unfold mergeAdjacent
  split
  · rename_i hnil
    rw [← hsorted, hnil]
  · rename_i a rest hcons
    rw [writablePages_mergeLoop, ← hsorted, hcons]

theorem tallies_afterArea {idx : Nat} (ha : s.ms.areas[idx]? = some a) (h : a.Quiet s.k a' ps.k) :
    Tallies s.ms.areas s.k (afterArea s idx a' ps).ms.areas (afterArea s idx a' ps).k := by
  obtain ⟨l₁, l₂, hareas, -, hset⟩ := Basis.exists_split ha
  simp only [afterArea, withPt, hset]
  rw [hareas]
  simpa using h.tallies.frame l₁ l₂

theorem tallies_faultInArea {others : Nat → Nat} {io : IoEnv} {cause : PageFaultCause} {idx : Nat}
    (vpn : Nat) (ha : s.ms.areas[idx]? = some a) :
    (faultInArea s others io cause idx a vpn).Keeps (Tallied s) := by
  refine faultInArea_rule (fun r a' ps hone ↦ ?_) (fun data r a' ps hone ↦ ?_) fun pt k hk ↦ ?_
  · exact tallies_afterArea ha ((quiet_mapOne io _ a ⟨s.ms.pageTable, s.k⟩ vpn).of_eq hone)
  · exact tallies_afterArea ha
      ((quiet_replaceFrame a ⟨s.ms.pageTable, s.k⟩ vpn data).of_eq hone)
  · rcases hk with rfl | ⟨f, offset, data, rfl⟩
    · exact .refl _ _
    · exact .of_same (Kernel.sameMemfds_reserveSharedMmapWrite io _ _ _ _) fun _ ↦ rfl

theorem tallies_handlePageFault {others : Nat → Nat} {io : IoEnv} {cause : PageFaultCause}
    {stval : Nat} {userSp : Option Nat}
    (hcounted : ∀ a ∈ s.ms.grownDown (floorVpn (virtAddr stval)) userSp,
      a.writableMemfd s.k.files = none) :
    (handlePageFault s others io cause stval userSp).Keeps (Tallied s) := by
  refine keeps_handlePageFault (.refl _ _) (fun _ _ ha _ ↦ tallies_faultInArea _ ha) ?_
  intro idx ms x hout hexpand hx _
  obtain ⟨l₁, a, l₂, hareas, rfl, -, -, rfl⟩ := expandGrowsDown_spec hexpand
  have ha : a.writableMemfd s.k.files = none := by
    refine hcounted a ?_
    rw [grownDown, List.findIdx?_eq_none_iff.mpr hout]
    simp [hexpand, hareas]
  have hgrown : Tallies s.ms.areas s.k
      (l₁ ++ { a with vpnRange := ⟨floorVpn (virtAddr stval), a.vpnRange.stop⟩ } :: l₂) s.k := by
    refine .of_same (.refl _) fun id ↦ ?_
    have hnew : writableMemfd s.k.files
        { a with vpnRange := ⟨floorVpn (virtAddr stval), a.vpnRange.stop⟩ } = none := ha
    simp [hareas, MapArea.writablePages, ha, hnew]
  exact (tallies_faultInArea _ hx).mono fun s' ↦ hgrown.trans

/-! ### Fork -/

theorem sameMemfds_forkPage (a : MapArea) (vpn ppn : Nat) (pte : PageTableEntry) (st : ForkState) :
    st.k.SameMemfds (forkPage a vpn ppn pte st).2.k := by
  fun_cases forkPage a vpn ppn pte st <;> exact Kernel.sameMemfds_setPhys _ _

theorem sameMemfds_forkPages (a : MapArea) (vpns : List Nat) (frames : Std.ExtTreeMap Nat Nat)
    (st : ForkState) : (forkPages a vpns frames st).Keeps fun st' ↦ st.k.SameMemfds st'.k := by
  induction vpns generalizing frames st with
  | nil => exact keeps_ok.mpr (.refl _)
  | cons vpn vpns ih =>
    simp only [forkPages]
    split
    · exact ih frames st
    rename_i ppn _
    split
    · exact keeps_panic
    rename_i pte _
    have hone := sameMemfds_forkPage a vpn ppn pte { st with copied := st.copied ++ [vpn] }
    split
    · rename_i h
      rw [h] at hone
      exact keeps_err.mpr hone
    · rename_i h
      rw [h] at hone
      exact (ih _ _).mono fun st' ↦ hone.trans

theorem tallies_forkAreas (todo areas : List MapArea) (st : ForkState) :
    match forkAreas todo areas st with
    | .ok areas' st' => Tallies areas st.k areas' st'.k
    | .err _ st' => Tallies areas st.k [] st'.k
    | .panic => True := by
  induction todo generalizing areas st with
  | nil => exact .refl _ _
  | cons a rest ih =>
    simp only [forkAreas]
    split_ifs
    · exact ih areas st
    have hpages := sameMemfds_forkPages a a.vpnRange.vpns ∅ st
    cases hres : forkPages a a.vpnRange.vpns ∅ st with
    | panic => trivial
    | err e st' =>
      rw [hres] at hpages
      have hcopied : Tallies areas st.k areas st'.k := .of_same (hpages st' rfl) fun _ ↦ rfl
      exact hcopied.trans (tallies_notifyAllClose areas st'.k)
    | ok frames st' =>
      rw [hres] at hpages
      have hcopied : Tallies areas st.k areas st'.k := .of_same (hpages st' rfl) fun _ ↦ rfl
      set child : MapArea := { a.fromAnother with dataFrames := frames }
      have hopen := (tallies_notifyMmapOpen child st'.k).frame areas []
      simp only [List.append_nil] at hopen
      have hrest := ih (areas ++ [child]) { st' with k := child.notifyMmapOpen st'.k }
      simp only
      generalize forkAreas rest (areas ++ [child]) { st' with k := child.notifyMmapOpen st'.k } = o
        at hrest ⊢
      cases o with
      | panic => trivial
      | err e st'' | ok areas' st'' => exact (hcopied.trans hopen).trans hrest

theorem tallies_fork (s : MmState) : match fromExistedUser s with
    | .ok child s' => s'.ms.areas = s.ms.areas ∧ Tallies [] s.k child.areas s'.k
    | .err _ s' => s'.ms.areas = s.ms.areas ∧ Tallies [] s.k [] s'.k
    | .panic => True := by
  unfold fromExistedUser
  rcases halloc : s.k.phys.frameAlloc with ⟨_ | root, phys⟩
  · exact ⟨rfl, .of_same (Kernel.sameMemfds_setPhys _ _) fun _ ↦ rfl⟩
  simp only
  have hareas := tallies_forkAreas s.ms.areas []
    ⟨s.ms.pageTable, PageTable.fromKernel root, s.k.setPhys phys, []⟩
  have hset : Tallies [] s.k [] (s.k.setPhys phys) :=
    .of_same (Kernel.sameMemfds_setPhys _ _) fun _ ↦ rfl
  cases hres : forkAreas s.ms.areas []
      ⟨s.ms.pageTable, PageTable.fromKernel root, s.k.setPhys phys, []⟩ with
  | panic => trivial
  | err e st | ok areas st =>
    rw [hres] at hareas
    exact ⟨rfl, hset.trans hareas⟩

end Growth

end MemorySet

/-- The operation does not grow a writable shared mapping of a memfd where it stands. -/
def Op.Counted (s : MmState) : Op → Prop
  | .mremap oldAddr oldLen newLen _ none => s.ms.growsInPlace oldAddr oldLen newLen = true →
      ∀ a ∈ s.ms.areas, a.vpnRange.containRange
        ⟨floorVpn (virtAddr oldAddr), floorVpn (virtAddr (oldAddr + oldLen))⟩ = true →
        a.writableMemfd s.k.files = none
  | .fault _ stval userSp => ∀ a ∈ s.ms.grownDown (floorVpn (virtAddr stval)) userSp,
      a.writableMemfd s.k.files = none
  | _ => True

theorem tallies_runOp {env : OpEnv} {s : MmState} {op : Op} (hgeo : Geometry s.ms.areas)
    (hcounted : op.Counted s) : (runOp env s op).Keeps (Tallied s) := by
  have hforward := MemorySet.Forward.of_geometry hgeo
  have hsplit : ∀ (r : UserRange) (f : MapArea → MapArea),
      (∀ a, (f a).vpnRange = a.vpnRange ∧ (f a).shared = a.shared ∧ (f a).mapPerm = a.mapPerm ∧
        (f a).fileBacking = a.fileBacking) →
      (MemorySet.ofLoop (MemorySet.treatOverlap s r.toVPNRange (MemorySet.setMiddle f))).Keeps
        (Tallied s) := fun r f hf ↦
    MemorySet.keeps_ofLoop (MemorySet.tallies_setMiddle r.nonempty.le hf hforward)
  cases op with
  | mmap req source => exact Outcome.keeps_void.mpr (MemorySet.tallies_mmap env req source hforward)
  | munmap addr mapLen => exact MemorySet.tallies_munmapRange addr mapLen hforward
  | mremap oldAddr oldLen newLen maymove fixedAddr =>
    refine Outcome.keeps_void.mpr
      (MemorySet.tallies_mremapRange oldAddr oldLen newLen maymove fixedAddr hgeo ?_)
    rintro rfl
    exact hcounted
  | mprotect r perm => exact MemorySet.tallies_remapAreaWithOverlapRange r.nonempty.le perm hforward
  | setLocked r | adviseFork r | adviseDontfork r =>
    exact MemorySet.keeps_checked _ (.refl _ _) (hsplit r _ fun _ ↦ ⟨rfl, rfl, rfl, rfl⟩)
  | dontneed r =>
    exact MemorySet.keeps_checked _ (.refl _ _)
      (keeps_ok.mpr (MemorySet.tallies_discardLoop _ _ _ _))
  | growHeap r => exact MemorySet.tallies_ensurePrivateWritableAnonymousRange _
  | fault cause stval userSp =>
    exact Outcome.keeps_void.mpr (MemorySet.tallies_handlePageFault hcounted)

end RespOS.Mm
