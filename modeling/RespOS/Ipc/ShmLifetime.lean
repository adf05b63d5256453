import RespOS.Ipc.Shm
import RespOS.Mm.Pieces

/-!
# The lifetime of a segment

A segment marked by `IPC_RMID` goes when its last attachment does. Nothing counts attachments:
`release_shm_attachments` looks for areas with the attach id in all address spaces, drops the owner
entries of ids that nobody has any more and removes the marked segments none of whose frames is mapped.
It is called by `shmdt`, `exec` and `exit`; `munmap` and the removal of the areas in the way of
`MAP_FIXED` or `SHM_REMAP` do not call it. After they have taken the last area of an attachment the
owner entry stays, and so does a marked segment, until some later call happens to look.

In the runs in which such a removal leaves an area of every attachment somewhere (`KeepsAttachments`),
the table and the address spaces agree in every state (`lifetime_of_run`). `marked_segment_stays` is
the run that breaks it.

The invariant is `Accounted`. Its main part is that an attached area shows a frame of its segment on
every one of its pages (`FilledBy`), so that whatever is left of it after a cut still does.
-/

namespace RespOS.Ipc

open RespOS.Basis RespOS.Fs RespOS.Mm List Nat

open MemorySet

/-! ### Attached areas -/

/-- Every page of the area has a frame of the list, and a fork does not wipe it. -/
structure FilledBy (frames : List Nat) (a : MapArea) : Prop where
  wipeOnFork : a.wipeOnFork = false
  page : ∀ v, a.start ≤ v → v < a.stop → ∃ p ∈ frames, a.dataFrames[v]? = some p

variable {v p attachId sid shmaddr shmflg : Nat} {a : MapArea} {segment : ShmSegment}
  {req : MmapRequest} {ms ms' : MemorySet} {s : MmState}

section FilledBy

variable {frames : List Nat} {a a' : MapArea}

variable (h : FilledBy frames a)
include h

theorem FilledBy.piece (hpiece : a'.PieceOf a) : FilledBy frames a' where
  wipeOnFork := hpiece.wipeOnFork.trans h.wipeOnFork
  page v hlo hhi := by
    rw [hpiece.pages v hlo hhi]
    exact h.page v (le_trans hpiece.start_le hlo) (lt_of_lt_of_le hhi hpiece.stop_le)

theorem FilledBy.holdsFrame (hwf : a.WellFormed) : holdsFrame a frames = true := by
  rcases h.page a.start (le_refl _) hwf.nonempty with ⟨p, hp, hrec⟩
  exact holdsFrame_iff.mpr ⟨a.start, p, hrec, hp⟩

theorem FilledBy.mem_frames (hwf : a.WellFormed) (hrec : a.dataFrames[v]? = some p) : p ∈ frames := by
  rcases hwf.keys v p hrec with ⟨hlo, hhi⟩
  rcases h.page v hlo hhi with ⟨q, hq, hrec'⟩
  exact Option.some.inj (hrec.symm.trans hrec') ▸ hq

end FilledBy

namespace ShmWorld

variable {w w' : ShmWorld} {l : ShmLabel}

/-- The area belongs to a live address space. -/
def Live (w : ShmWorld) (a : MapArea) : Prop := ∃ ms ∈ w.spaces, a ∈ ms.areas

/-- A live address space has an area with the attach id. -/
def Attached (w : ShmWorld) (attachId : Nat) : Prop := ∃ a, w.Live a ∧ a.shmAttachId = some attachId

theorem shmAttachIdInUse_iff : w.shmAttachIdInUse attachId = true ↔ w.Attached attachId := by
  simp only [shmAttachIdInUse, hasShmAttachId, any_eq_true, decide_eq_true_eq, Attached, Live]
  constructor
  · rintro ⟨ms, hms, a, ha, hid⟩
    exact ⟨a, ⟨ms, hms, ha⟩, hid⟩
  · rintro ⟨a, ⟨ms, hms, ha⟩, hid⟩
    exact ⟨ms, hms, a, ha, hid⟩

theorem shmAttachCount_ne_zero {frames : List Nat} : w.shmAttachCount frames ≠ 0 ↔
    ∃ a attachId, w.Live a ∧ a.shmAttachId = some attachId ∧ holdsFrame a frames = true := by
  have hspace : ∀ ms : MemorySet, (shmAttachIdsForFrames ms frames).length ≠ 0 ↔
      ∃ a ∈ ms.areas, ∃ attachId, a.shmAttachId = some attachId ∧ holdsFrame a frames = true := by
    intro ms
    rw [← pos_iff_ne_zero, length_pos_iff_exists_mem]
    simp only [shmAttachIdsForFrames, mem_eraseDups, mem_filterMap, mem_filter]
    constructor
    · rintro ⟨attachId, a, ⟨ha, hframe⟩, hid⟩
      exact ⟨a, ha, attachId, hid, hframe⟩
    · rintro ⟨a, ha, attachId, hid, hframe⟩
      exact ⟨attachId, a, ⟨ha, hframe⟩, hid⟩
  have hsum : w.shmAttachCount frames ≠ 0 ↔
      ∃ ms ∈ w.spaces, (shmAttachIdsForFrames ms frames).length ≠ 0 := by
    simp [shmAttachCount, sum_eq_zero_iff]
  rw [hsum]
  constructor
  · rintro ⟨ms, hms, hlength⟩
    rcases (hspace ms).mp hlength with ⟨a, ha, attachId, hid, hframe⟩
    exact ⟨a, attachId, ⟨ms, hms, ha⟩, hid, hframe⟩
  · rintro ⟨a, attachId, ⟨ms, hms, ha⟩, hid, hframe⟩
    exact ⟨ms, hms, (hspace ms).mpr ⟨a, ha, attachId, hid, hframe⟩⟩

/-- The calls of shared memory, `munmap`, `mmap`, fork, `exec` and `exit`, with the arguments that
`sys_munmap` and `sys_mmap` pass on: page-aligned, and a fixed mapping has an address. -/
def Listed (l : ShmLabel) : Prop :=
  match l.call with
  | .mem (.op (.munmap addr _)) => addr % pageSize = 0
  | .mem (.op (.mmap req _)) => req.Aligned ∧ (req.replace = true → req.addr.isSome = true)
  | .mem .fork => True
  | .mem _ => False
  | _ => True

/-- Every attachment of the address space has an area elsewhere, or one that is not inside the
range. -/
def Survives (w : ShmWorld) (sid : Nat) (r : VPNRange) : Prop :=
  ∀ ms a attachId, w.spaces[sid]? = some ms → a ∈ ms.areas → a.shmAttachId = some attachId →
    ∃ j ms' b, w.spaces[j]? = some ms' ∧ b ∈ ms'.areas ∧ b.shmAttachId = some attachId ∧
      (j = sid → ¬ b.Inside r)

/-- `munmap`, `MAP_FIXED` and `SHM_REMAP` do not take the last area of an attachment. -/
def KeepsAttachments (w : ShmWorld) (l : ShmLabel) : Prop :=
  match l.call with
  | .mem (.op (.munmap addr mapLen)) => w.Survives l.sid (MemorySet.byteRange addr (addr + mapLen))
  | .mem (.op (.mmap req _)) => req.replace = true → ∀ start, req.addr = some start →
      w.Survives l.sid (MemorySet.byteRange start (start + req.mapLen))
  | .shmat shmid shmaddr shmflg => hasFlag shmflg SHM_REMAP = true → ∀ segment start,
      w.table.get shmid = some segment → attachAddr shmaddr shmflg = .ok (some start) →
      w.Survives l.sid (MemorySet.byteRange start (start + segment.mapLen))
  | _ => True

/-- The system starts as in `Init`; the search for free addresses starts at a page. -/
structure LifeInit (w : ShmWorld) : Prop where
  init : w.Init
  aligned : ∀ ms ∈ w.spaces, ms.mmapStart % pageSize = 0

/-- The table accounts for the attached areas. -/
structure Accounted (w : ShmWorld) : Prop where
  wellFormed : ∀ a, w.Live a → a.WellFormed
  disjoint : ∀ s ∈ w.table.segments, ∀ s' ∈ w.table.segments, ∀ p ∈ s.frames, p ∈ s'.frames → s = s'
  owned : ∀ a attachId, w.Live a → a.shmAttachId = some attachId → ∃ segment ∈ w.table.segments,
    (attachId, segment.id) ∈ w.table.attachOwners ∧ FilledBy segment.frames a
  present : ∀ entry ∈ w.table.attachOwners, w.Attached entry.1
  owner_unique : ∀ e ∈ w.table.attachOwners, ∀ e' ∈ w.table.attachOwners, e.1 = e'.1 → e = e'
  owner_lt : ∀ e ∈ w.table.attachOwners, e.1 < w.table.nextAttachId
  id_unique : ∀ s ∈ w.table.segments, ∀ s' ∈ w.table.segments, s.id = s'.id → s = s'
  id_lt : ∀ s ∈ w.table.segments, s.id < w.table.nextId
  pending : ∀ s ∈ w.table.segments, s.pendingAttaches = 0

structure LifeInv (w : ShmWorld) : Prop where
  accounted : w.Accounted
  marked : ∀ s ∈ w.table.segments, s.markedRemoved = true →
    ∃ attachId, (attachId, s.id) ∈ w.table.attachOwners
  aligned : ∀ ms ∈ w.spaces, ms.mmapStart % pageSize = 0

theorem ShmInv.wellFormed (h : w.ShmInv) (ha : w.Live a) : a.WellFormed := by
  rcases ha with ⟨ms, hms, ha⟩
  exact (h.inv.sound ms hms).geometry.wellFormed ha

theorem Accounted.owner_of_holdsFrame (h : w.Accounted) {s : ShmSegment} (hs : s ∈ w.table.segments)
    (ha : w.Live a) (hid : a.shmAttachId = some attachId) (hframe : holdsFrame a s.frames = true) :
    (attachId, s.id) ∈ w.table.attachOwners := by
  rcases holdsFrame_iff.mp hframe with ⟨v, p, hrec, hp⟩
  rcases h.owned a attachId ha hid with ⟨segment, hsegment, howner, hfilled⟩
  have hp' := hfilled.mem_frames (h.wellFormed a ha) hrec
  rw [h.disjoint s hs segment hsegment p hp hp']
  exact howner

/-! ### Address spaces that change -/

/-- The attached areas are pieces of those before, and may be fewer. -/
def Fewer (w w' : ShmWorld) : Prop :=
  ∀ a' attachId, w'.Live a' → a'.shmAttachId = some attachId → ∃ a, w.Live a ∧
    a.shmAttachId = some attachId ∧ ∀ frames, FilledBy frames a → FilledBy frames a'

theorem Fewer.of_piece (h : ∀ a', w'.Live a' → a'.shmAttachId = none ∨ ∃ a, w.Live a ∧ a'.PieceOf a) :
    w.Fewer w' := by
  intro a' attachId ha' hid
  rcases h a' ha' with hnone | ⟨a, ha, hpiece⟩
  · simp [hnone] at hid
  · exact ⟨a, ha, hpiece.shmAttachId ▸ hid, fun frames hfilled ↦ hfilled.piece hpiece⟩

theorem Accounted.of_sub (h : w.Accounted) (hwf : ∀ a, w'.Live a → a.WellFormed) (hfewer : w.Fewer w')
    (hsegments : w'.table.segments ⊆ w.table.segments)
    (howners : w'.table.attachOwners ⊆ w.table.attachOwners)
    (hnext : w'.table.nextAttachId = w.table.nextAttachId ∧ w'.table.nextId = w.table.nextId)
    (hstays : ∀ a attachId, w'.Live a → a.shmAttachId = some attachId → ∀ segment ∈ w.table.segments,
      (attachId, segment.id) ∈ w.table.attachOwners → FilledBy segment.frames a →
        segment ∈ w'.table.segments ∧ (attachId, segment.id) ∈ w'.table.attachOwners)
    (hpresent : ∀ e ∈ w'.table.attachOwners, w'.Attached e.1) : w'.Accounted where
  wellFormed := hwf
  disjoint s hs s' hs' := h.disjoint s (hsegments hs) s' (hsegments hs')
  owned a attachId ha hid := by
    rcases hfewer a attachId ha hid with ⟨b, hb, hbid, hfilled⟩
    rcases h.owned b attachId hb hbid with ⟨segment, hsegment, howner, hfill⟩
    have hstay := hstays a attachId ha hid segment hsegment howner (hfilled _ hfill)
    exact ⟨segment, hstay.1, hstay.2, hfilled _ hfill⟩
  present := hpresent
  owner_unique e he e' he' := h.owner_unique e (howners he) e' (howners he')
  owner_lt e he := hnext.1 ▸ h.owner_lt e (howners he)
  id_unique s hs s' hs' := h.id_unique s (hsegments hs) s' (hsegments hs')
  id_lt s hs := hnext.2 ▸ h.id_lt s (hsegments hs)
  pending s hs := h.pending s (hsegments hs)

theorem Accounted.removeSegments (h : w.Accounted) {gone : ShmSegment → Bool}
    (hgone : ∀ s ∈ w.table.segments, gone s = true → w.shmAttachCount s.frames = 0) :
    Accounted { w with table := w.table.removeSegments gone } := by
  refine h.of_sub h.wellFormed (.of_piece fun a ha ↦ .inr ⟨a, ha, .refl a⟩)
    filter_sublist.subset filter_sublist.subset ⟨rfl, rfl⟩
    (fun a attachId ha hid segment hsegment howner hfilled ↦ ?_)
    fun e he ↦ h.present e (mem_filter.mp he).1
  have hstays : ∀ s ∈ w.table.segments, s.id = segment.id → gone s = false := by
    intro s hs hsame
    rw [h.id_unique s hs segment hsegment hsame]
    by_contra hdead
    exact shmAttachCount_ne_zero.mpr ⟨a, attachId, ha, hid, hfilled.holdsFrame (h.wellFormed a ha)⟩
      (hgone segment hsegment (by simpa using hdead))
  refine ⟨mem_filter.mpr ⟨hsegment, ?_⟩, mem_filter.mpr ⟨howner, ?_⟩⟩
  · simp [hstays segment hsegment rfl]
  · simp only [Bool.not_eq_true', any_eq_false, Bool.and_eq_true, decide_eq_true_eq, not_and]
    exact fun s hs hdead hsame ↦ absurd hdead (by simp [hstays s hs hsame])

theorem Accounted.removeDead (h : w.Accounted)
    (haligned : ∀ ms ∈ w.spaces, ms.mmapStart % pageSize = 0) : w.removeDead.LifeInv := by
  have haccounted : w.removeDead.Accounted := by
    refine h.removeSegments fun s _ hdead ↦ ?_
    simp only [dead, Bool.and_eq_true, decide_eq_true_eq] at hdead
    exact hdead.2
  refine ⟨haccounted, fun s hs hmarked ↦ ?_, haligned⟩
  rcases mem_filter.mp hs with ⟨hs₀, halive⟩
  have hcount : w.shmAttachCount s.frames ≠ 0 := by
    intro hzero
    simp [dead, hmarked, h.pending s hs₀, hzero] at halive
  rcases shmAttachCount_ne_zero.mp hcount with ⟨a, attachId, ha, hid, hframe⟩
  exact ⟨attachId, haccounted.owner_of_holdsFrame hs ha hid hframe⟩

section

variable (h : w.LifeInv) (hwf : ∀ a, w'.Live a → a.WellFormed) (htable : w'.table = w.table)
include h hwf htable

theorem LifeInv.of_fewer (hfewer : w.Fewer w')
    (hkept : ∀ attachId, w.Attached attachId → w'.Attached attachId)
    (haligned : ∀ ms ∈ w'.spaces, ms.mmapStart % pageSize = 0) : w'.LifeInv := by
  refine ⟨h.accounted.of_sub hwf hfewer (by simp [htable]) (by simp [htable]) (by simp [htable])
    (fun a attachId _ _ segment hsegment howner _ ↦ ?_) fun e he ↦ ?_, htable ▸ h.marked, haligned⟩
  · rw [htable]
    exact ⟨hsegment, howner⟩
  · exact hkept _ (h.accounted.present e (htable ▸ he))

theorem LifeInv.release (hfewer : w.Fewer w') {attachIds : List Nat}
    (hlost : ∀ attachId, w.Attached attachId → w'.Attached attachId ∨ attachId ∈ attachIds)
    (haligned : ∀ ms ∈ w'.spaces, ms.mmapStart % pageSize = 0) :
    (w'.releaseShmAttachments attachIds).LifeInv := by
  have hacc := h.accounted
  unfold releaseShmAttachments
  split_ifs with hempty
  · refine h.of_fewer hwf htable hfewer (fun attachId hattached ↦ ?_) haligned
    rcases hlost attachId hattached with hkept | hmem
    · exact hkept
    · rw [isEmpty_iff.mp hempty] at hmem
      exact nomatch hmem
  · refine Accounted.removeDead (hacc.of_sub hwf hfewer (by simp [htable]) ?_ (by simp [htable])
      (fun a attachId ha hid segment hsegment howner _ ↦ ?_) fun entry hentry ↦ ?_) haligned
    · exact htable ▸ filter_sublist.subset
    · have hused : w'.shmAttachIdInUse attachId = true := shmAttachIdInUse_iff.mpr ⟨a, ha, hid⟩
      exact ⟨htable ▸ hsegment, mem_filter.mpr ⟨htable ▸ howner, by simp [hused]⟩⟩
    · rcases mem_filter.mp hentry with ⟨hentry, hnot⟩
      rcases hlost entry.1 (hacc.present entry (htable ▸ hentry)) with hkept | hmem
      · exact hkept
      by_contra hunused
      have hunused : w'.shmAttachIdInUse entry.1 = false := by
        refine Bool.eq_false_iff.mpr fun hused ↦ hunused ?_
        exact (shmAttachIdInUse_iff).mp hused
      simp only [decide_eq_true_eq] at hnot
      exact hnot (mem_filter.mpr ⟨hmem, by simp [hunused]⟩)

end

/-! ### One address space that changes -/

theorem inside_of_removes {start : Nat} (haddr : req.addr = some start) (h : req.Removes ms a) :
    a.Inside (byteRange start (start + req.mapLen)) := by
  rcases h with ⟨hreplace, start', hfirst, hinside⟩
  have hhint : MemorySet.MmapRequest.isHint req = false := by
    simp [MemorySet.MmapRequest.isHint, hreplace]
  simp only [firstStart, chooseMmapStart, haddr, hhint, Bool.false_and,
    Bool.false_eq_true, if_false, Except.ok.injEq] at hfirst
  exact hfirst ▸ hinside

theorem Attached.cases (h : w.Attached attachId) : ∃ (j : Nat) (ms : MemorySet) (a : MapArea),
      w.spaces[j]? = some ms ∧ a ∈ ms.areas ∧ a.shmAttachId = some attachId := by
  rcases h with ⟨a, ⟨ms, hms, ha⟩, hid⟩
  rcases mem_iff_getElem?.mp hms with ⟨j, hj⟩
  exact ⟨j, ms, a, hj, ha, hid⟩

section Set

variable {sid : Nat} {ms ms' : MemorySet} {r : VPNRange}
  (hspaces : w'.spaces = w.spaces.set sid ms')
include hspaces

theorem live_of_set (ha : w'.Live a) : w.Live a ∨ a ∈ ms'.areas := by
  rcases ha with ⟨ms₀, hms₀, ha⟩
  rw [hspaces] at hms₀
  rcases mem_or_eq_of_mem_set hms₀ with hold | rfl
  · exact .inl ⟨ms₀, hold, ha⟩
  · exact .inr ha

theorem live_set_of_ne {j : Nat} {ms₀ : MemorySet} (hms₀ : w.spaces[j]? = some ms₀) (hne : j ≠ sid)
    (ha : a ∈ ms₀.areas) : w'.Live a := by
  refine ⟨ms₀, ?_, ha⟩
  rw [hspaces]
  exact List.mem_of_getElem? ((List.getElem?_set_ne (Ne.symm hne)).trans hms₀)

variable (hms : w.spaces[sid]? = some ms)
include hms

theorem live_cut {new : MapArea → Prop}
    (hpiece : ∀ a' ∈ ms'.areas, new a' ∨ ∃ a ∈ ms.areas, a'.PieceOf a) :
    ∀ a, w'.Live a → new a ∨ ∃ b, w.Live b ∧ a.PieceOf b := by
  intro a ha
  rcases live_of_set hspaces ha with hold | hnew
  · exact .inr ⟨a, hold, .refl a⟩
  · exact (hpiece a hnew).imp_right fun ⟨b, hb, hof⟩ ↦ ⟨b, ⟨ms, List.mem_of_getElem? hms, hb⟩, hof⟩

theorem live_set (ha : a ∈ ms'.areas) : w'.Live a := by
  have hlt := (List.getElem?_eq_some_iff.mp hms).1
  exact ⟨ms', hspaces ▸ List.mem_set hlt ms', ha⟩

theorem attached_of_recuts {gone : MapArea → Prop}
    (hgone : (∃ a ∈ ms.areas, gone a) → w.Survives sid r)
    (hinside : ∀ a ∈ ms.areas, gone a → a.Inside r)
    (hkept : ∀ a ∈ ms.areas, ¬ gone a → ∃ a' ∈ ms'.areas, a'.PieceOf a) (h : w.Attached attachId) :
    w'.Attached attachId := by
  rcases h.cases with ⟨j, ms₀, a, hj, ha, hid⟩
  by_cases hjs : j = sid
  · subst hjs
    rw [Option.some.inj (hj.symm.trans hms)] at ha
    by_cases hlost : gone a
    · -- some other area of the attachment is left
      rcases hgone ⟨a, ha, hlost⟩ ms a attachId hms ha hid with ⟨j', ms₁, b, hj', hb, hbid, hout⟩
      by_cases hj's : j' = j
      · subst hj's
        rw [Option.some.inj (hj'.symm.trans hms)] at hb
        rcases hkept b hb (fun hbgone ↦ hout rfl (hinside b hb hbgone)) with ⟨b', hb', hpiece⟩
        exact ⟨b', live_set hspaces hms hb', hpiece.shmAttachId.trans hbid⟩
      · exact ⟨b, live_set_of_ne hspaces hj' hj's hb, hbid⟩
    · rcases hkept a ha hlost with ⟨a', ha', hpiece⟩
      exact ⟨a', live_set hspaces hms ha', hpiece.shmAttachId.trans hid⟩
  · exact ⟨a, live_set_of_ne hspaces hj hjs ha, hid⟩

theorem attached_of_request (haddr : req.replace = true → req.addr.isSome = true)
    (hok : req.replace = true → ∀ start, req.addr = some start →
      w.Survives sid (byteRange start (start + req.mapLen)))
    (hkept : ∀ a ∈ ms.areas, ¬ req.Removes ms a → ∃ a' ∈ ms'.areas, a'.PieceOf a)
    (h : w.Attached attachId) : w'.Attached attachId := by
  by_cases hreplace : req.replace = true
  · rcases Option.isSome_iff_exists.mp (haddr hreplace) with ⟨start, hstart⟩
    exact attached_of_recuts hspaces hms (fun _ ↦ hok hreplace start hstart)
      (fun a _ hgone ↦ inside_of_removes hstart hgone) hkept h
  · exact attached_of_recuts (r := ⟨0, 0⟩) hspaces hms (fun ⟨_, _, hgone⟩ ↦ absurd hgone.1 hreplace)
      (fun a _ hgone ↦ absurd hgone.1 hreplace) hkept h

end Set

/-! ### The calls -/

theorem live_congr (hspaces : w'.spaces = w.spaces) : w'.Live a ↔ w.Live a := by
  unfold Live
  rw [hspaces]

theorem LifeInv.of_same (h : w.LifeInv) (hspaces : w'.spaces = w.spaces)
    (htable : w'.table = w.table) : w'.LifeInv := by
  refine h.of_fewer (fun a ha ↦ ?_) htable (Fewer.of_piece fun a ha ↦ ?_) ?_ (hspaces ▸ h.aligned)
  · exact h.accounted.wellFormed a ((live_congr hspaces).mp ha)
  · exact .inr ⟨a, (live_congr hspaces).mp ha, .refl a⟩
  · rintro attachId ⟨a, ha, hid⟩
    exact ⟨a, (live_congr hspaces).mpr ha, hid⟩

theorem LifeInv.create (h : w.LifeInv) (hinv' : w'.ShmInv) (hcreates : w.Creates segment w') :
    w'.LifeInv := by
  have hacc := h.accounted
  have hsegments : w'.table.segments = w.table.segments ++ [segment] := by rw [hcreates.table]
  have hall : ∀ {P : ShmSegment → Prop}, (∀ s ∈ w.table.segments, P s) → P segment →
      ∀ s ∈ w'.table.segments, P s := fun hold hnew ↦
    hsegments ▸ forall_mem_append.mpr ⟨hold, forall_mem_singleton.mpr hnew⟩
  have howners : w'.table.attachOwners = w.table.attachOwners := by rw [hcreates.table]
  have hlive : ∀ {a}, w'.Live a ↔ w.Live a := live_congr hcreates.spaces
  have hnew : ∀ s ∈ w.table.segments, s.id ≠ segment.id := by
    intro s hs heq
    have hlt := hacc.id_lt s hs
    rw [heq, hcreates.id] at hlt
    omega
  refine ⟨⟨fun a ha ↦ hinv'.wellFormed ha, hinv'.disjoint, ?_, ?_, ?_, ?_, ?_, ?_, ?_⟩, ?_,
    hcreates.spaces ▸ h.aligned⟩
  · intro a attachId ha hid
    rcases hacc.owned a attachId (hlive.mp ha) hid with ⟨s, hs, howner, hfilled⟩
    exact ⟨s, hsegments ▸ mem_append_left _ hs, howners ▸ howner, hfilled⟩
  · intro entry hentry
    rcases hacc.present entry (howners ▸ hentry) with ⟨a, ha, hid⟩
    exact ⟨a, hlive.mpr ha, hid⟩
  · exact howners ▸ hacc.owner_unique
  · intro e he
    have hlt := hacc.owner_lt e (howners ▸ he)
    rw [hcreates.table]
    exact hlt
  · exact hall (fun s hs ↦ hall (hacc.id_unique s hs) (absurd · (hnew s hs)))
      (hall (fun s hs heq ↦ absurd heq.symm (hnew s hs)) fun _ ↦ rfl)
  · refine hall (fun s hs ↦ ?_) ?_ <;> rw [hcreates.table]
    · exact lt_succ_of_lt (hacc.id_lt s hs)
    · exact hcreates.id ▸ lt_succ_self _
  · exact hall hacc.pending hcreates.pending
  · exact hall (howners ▸ h.marked) (by simp [hcreates.unmarked])

theorem segments_attach (t : ShmTable) (shmid nextAttachId : Nat) :
    ((beginAttach t shmid nextAttachId).modify shmid fun segment ↦ { segment with
      pendingAttaches := segment.pendingAttaches - 1 }).segments = t.segments := by
  simp only [ShmTable.modify, beginAttach, map_map]
  refine (map_congr_left fun s _ ↦ ?_).trans (map_id _)
  by_cases hid : s.id = shmid
  · rw [← hid]
    simp
  · simp [hid]

theorem aligned_set (h : w.LifeInv) (haligned : ms'.mmapStart % pageSize = 0) :
    ∀ ms ∈ w.spaces.set sid ms', ms.mmapStart % pageSize = 0 := by
  intro ms hms
  rcases mem_or_eq_of_mem_set hms with hold | rfl
  · exact h.aligned ms hold
  · exact haligned

theorem attachAddr_ok {addr : Option Nat} (h : attachAddr shmaddr shmflg = .ok addr) :
    (∀ start, addr = some start → start % pageSize = 0) ∧
      (hasFlag shmflg SHM_REMAP = true → addr.isSome = true) := by
  revert h
  fun_cases attachAddr shmaddr shmflg with
  | case2 _ hremap =>
    rintro ⟨⟩
    exact ⟨nofun, fun hset ↦ absurd hset hremap⟩
  | case3 _ haligned =>
    rintro ⟨⟩
    exact ⟨fun _ hstart ↦ Option.some.inj hstart ▸ haligned, fun _ ↦ rfl⟩
  | case5 =>
    intro h
    exact Except.ok.inj h ▸
      ⟨fun _ hstart ↦ Option.some.inj hstart ▸ mul_mod_left _ _, fun _ ↦ rfl⟩
  | _ => exact nofun

theorem LifeInv.accounted_attach {extra : List (Nat × Nat)} (h : w.LifeInv)
    (hwf : ∀ a, w'.Live a → a.WellFormed) (hsegments : w'.table.segments = w.table.segments)
    (hnextId : w'.table.nextId = w.table.nextId)
    (hnext : w'.table.nextAttachId = w.table.nextAttachId + 1)
    (howners : w'.table.attachOwners = w.table.attachOwners ++ extra)
    (hlive : ∀ a, w'.Live a → (∃ segment ∈ w.table.segments, FilledBy segment.frames a ∧
      ∀ attachId, a.shmAttachId = some attachId → (attachId, segment.id) ∈ extra) ∨
      ∃ b, w.Live b ∧ a.PieceOf b) (hkept : ∀ attachId, w.Attached attachId → w'.Attached attachId)
    (hextra : ∀ e ∈ extra, e.1 = w.table.nextAttachId ∧ w'.Attached e.1)
    (hunique : ∀ e ∈ extra, ∀ e' ∈ extra, e = e') : w'.Accounted := by
  have hacc := h.accounted
  have hnew : ∀ e ∈ w.table.attachOwners, ∀ e' ∈ extra, e.1 ≠ e'.1 := by
    intro e he e' he' heq
    have hlt := hacc.owner_lt e he
    rw [heq, (hextra e' he').1] at hlt
    omega
  refine ⟨hwf, hsegments ▸ hacc.disjoint, ?_, ?_, ?_, ?_, hsegments ▸ hacc.id_unique, ?_,
    hsegments ▸ hacc.pending⟩
  · intro a attachId ha hid
    rw [hsegments, howners]
    rcases hlive a ha with ⟨segment, hsegment, hfilled, hnew⟩ | ⟨b, hb, hpiece⟩
    · exact ⟨segment, hsegment, mem_append_right _ (hnew attachId hid), hfilled⟩
    · rcases hacc.owned b attachId hb (hpiece.shmAttachId ▸ hid) with ⟨segment, hsegment, howner, hfill⟩
      exact ⟨segment, hsegment, mem_append_left _ howner, hfill.piece hpiece⟩
  · intro e he
    rw [howners] at he
    rcases mem_append.mp he with he | he
    · exact hkept _ (hacc.present e he)
    · exact (hextra e he).2
  · intro e he e' he' heq
    rw [howners] at he he'
    rcases mem_append.mp he with he | he <;> rcases mem_append.mp he' with he' | he'
    · exact hacc.owner_unique e he e' he' heq
    · exact absurd heq (hnew e he e' he')
    · exact absurd heq.symm (hnew e' he' e he)
    · exact hunique e he e' he'
  · intro e he
    rw [howners] at he
    rw [hnext]
    rcases mem_append.mp he with he | he
    · exact lt_succ_of_lt (hacc.owner_lt e he)
    · exact (hextra e he).1 ▸ lt_succ_self _
  · intro s hs
    rw [hnextId]
    exact hacc.id_lt s (hsegments ▸ hs)

theorem LifeInv.of_set (h : w.LifeInv) (hinv' : w'.ShmInv) (hms : w.spaces[l.sid]? = some ms)
    (hspaces : w'.spaces = w.spaces.set l.sid ms') (htable : w'.table = w.table)
    (hstart : ms'.mmapStart % pageSize = 0)
    (hpiece : ∀ a' ∈ ms'.areas, a'.shmAttachId = none ∨ ∃ a ∈ ms.areas, a'.PieceOf a)
    (hkept : ∀ attachId, w.Attached attachId → w'.Attached attachId) : w'.LifeInv := by
  exact h.of_fewer (fun a ha ↦ hinv'.wellFormed ha) htable
    (Fewer.of_piece (live_cut hspaces hms hpiece)) hkept (hspaces ▸ aligned_set h hstart)

theorem attached_of_parent (hms : w.spaces[sid]? = some ms) (hareas : ms'.areas = ms.areas)
    (hsub : ∀ ms₀ ∈ w.spaces.set sid ms', ms₀ ∈ w'.spaces) (h : w.Attached attachId) :
    w'.Attached attachId := by
  rcases h.cases with ⟨j, ms₀, a, hj, ha, hid⟩
  by_cases hjs : j = sid
  · subst hjs
    rw [Option.some.inj (hj.symm.trans hms), ← hareas] at ha
    exact ⟨a, ⟨ms', hsub _ (List.mem_set (List.getElem?_eq_some_iff.mp hms).1 ms'), ha⟩, hid⟩
  · refine ⟨a, ⟨ms₀, hsub _ ?_, ha⟩, hid⟩
    exact List.mem_of_getElem? ((List.getElem?_set_ne (Ne.symm hjs)).trans hj)

section Cuts

variable (h : w.LifeInv) (hinv : w.ShmInv) (hinv' : w'.ShmInv) (hms : w.spaces[l.sid]? = some ms)
include h hinv hinv' hms

theorem LifeInv.attach {shmid : Nat} {addr : Option Nat} {attached : Bool}
    (hattaches : Attaches w l ms shmid shmaddr shmflg segment addr s attached w')
    (hok : hasFlag shmflg SHM_REMAP = true → ∀ start, addr = some start →
      w.Survives l.sid (byteRange start (start + segment.mapLen))) : w'.LifeInv := by
  rcases ShmTable.mem_of_get hattaches.get with ⟨hmem, hid⟩
  have hsound := hinv.inv.sound ms (List.mem_of_getElem? hms)
  have haligned : (attachRequest segment addr shmflg).Aligned :=
    ⟨(attachAddr_ok hattaches.chosen).1, segment.mapLen_aligned⟩
  have haddr : (attachRequest segment addr shmflg).replace = true → addr.isSome = true :=
    (attachAddr_ok hattaches.chosen).2
  have hmmap : (MemorySet.mmap ⟨ms, w.k⟩ ⟨w.machine.others l.sid, l.io⟩
      (attachRequest segment addr shmflg) (.segment w.table.nextAttachId segment.frames)).Ensures _ _ :=
    ensures_mmap hsound.geometry hinv.inv.kernel haligned (h.aligned ms (List.mem_of_getElem? hms))
  have hwf : ∀ a, w'.Live a → a.WellFormed := fun a ha ↦ hinv'.wellFormed ha
  rw [hattaches.eq] at hwf ⊢
  rcases hattaches.mmap with ⟨start, heq, rfl⟩ | ⟨e, heq, rfl⟩
  · rw [heq] at hmmap
    rcases hmmap with ⟨hstart, areas, x, hrecuts, hx, hareas⟩
    refine Accounted.removeDead ?_ (aligned_set h hstart)
    have howners : (beginAttach w.table shmid (w.table.nextAttachId + 1)).attachOwners =
        w.table.attachOwners ++ [(w.table.nextAttachId, shmid)] := rfl
    refine h.accounted_attach hwf (segments_attach _ _ _) rfl rfl howners ?_ ?_ ?_ (by simp)
    · refine live_cut rfl hms fun b hb ↦ ?_
      rcases (hareas b).mp hb with hb | rfl
      · exact .inr (hrecuts.piece b hb)
      · refine .inl ⟨segment, hmem, ⟨hx.wipeOnFork, hx.filled _ _ rfl⟩, fun attachId hbid ↦ ?_⟩
        have hsame : w.table.nextAttachId = attachId := Option.some.inj (hx.attachId.symm.trans hbid)
        simp [hsame, hid]
    · intro attachId hattached
      refine attached_of_request rfl hms haddr hok (fun a ha hnot ↦ ?_) hattached
      rcases hrecuts.kept a ha hnot with ⟨a', ha', hpiece⟩
      exact ⟨a', (hareas a').mpr (.inl ha'), hpiece⟩
    · intro e he
      rw [mem_singleton.mp he]
      exact ⟨rfl, x, live_set rfl hms ((hareas x).mpr (.inr rfl)), hx.attachId⟩
  · rw [heq] at hmmap
    rcases hmmap with ⟨hstart, hrecuts⟩
    refine Accounted.removeDead ?_ (aligned_set h hstart)
    have howners : (w.table.attachOwners ++ [(w.table.nextAttachId, shmid)]).filter
        (fun entry ↦ decide (entry.1 ≠ w.table.nextAttachId)) = w.table.attachOwners ++ [] := by
      rw [filter_append, filter_eq_self.mpr]
      · simp
      · intro e he
        simpa using Nat.ne_of_lt (h.accounted.owner_lt e he)
    refine h.accounted_attach hwf (segments_attach _ _ _) rfl rfl howners ?_ ?_ (by simp) (by simp)
    · exact live_cut rfl hms fun b hb ↦ .inr (hrecuts.piece b hb)
    · intro attachId hattached
      exact attached_of_request rfl hms haddr hok hrecuts.kept hattached

theorem LifeInv.munmap {addr mapLen : Nat} (haddr : addr % pageSize = 0)
    (hrun : (munmapRange ⟨ms, w.k⟩ addr mapLen).state? = some s)
    (hspaces : w'.spaces = w.spaces.set l.sid s.ms) (htable : w'.table = w.table)
    (hok : w.Survives l.sid (byteRange addr (addr + mapLen))) : w'.LifeInv := by
  have hmem := List.mem_of_getElem? hms
  have hgeo : Geometry (⟨ms, w.k⟩ : MmState).ms.areas := (hinv.inv.sound ms hmem).geometry
  rcases keeps_munmapRange hgeo haddr (h.aligned ms hmem) s hrun with ⟨hrecuts, hstart⟩
  refine h.of_set hinv' hms hspaces htable hstart (fun a ha ↦ .inr (hrecuts.piece a ha)) ?_
  exact fun attachId hattached ↦
    attached_of_recuts hspaces hms (fun _ ↦ hok) (fun _ _ hin ↦ hin) hrecuts.kept hattached

theorem LifeInv.mmap {env : OpEnv} {source : MapSource} (hreq : req.Aligned)
    (haddr : req.replace = true → req.addr.isSome = true) (hsource : source.attachment = none)
    (hrun : (MemorySet.mmap ⟨ms, w.k⟩ env req source).state? = some s)
    (hspaces : w'.spaces = w.spaces.set l.sid s.ms) (htable : w'.table = w.table)
    (hok : req.replace = true → ∀ start, req.addr = some start →
      w.Survives l.sid (byteRange start (start + req.mapLen))) : w'.LifeInv := by
  have hmem := List.mem_of_getElem? hms
  have hmmap : (MemorySet.mmap ⟨ms, w.k⟩ env req source).Ensures _ _ :=
    ensures_mmap (hinv.inv.sound ms hmem).geometry hinv.inv.kernel hreq (h.aligned ms hmem)
  generalize MemorySet.mmap ⟨ms, w.k⟩ env req source = result at hrun hmmap
  cases result with
  | panic => exact nomatch hrun
  | ok start s₁ =>
    obtain rfl : s₁ = s := Option.some.inj hrun
    rcases hmmap with ⟨hstart, areas, x, hrecuts, hx, hareas⟩
    refine h.of_set hinv' hms hspaces htable hstart (fun a ha ↦ ?_) fun attachId hattached ↦ ?_
    · rcases (hareas a).mp ha with ha | rfl
      · exact .inr (hrecuts.piece a ha)
      · refine .inl ?_
        rw [hx.attachId, hsource]
        rfl
    · refine attached_of_request hspaces hms haddr hok (fun a ha hnot ↦ ?_) hattached
      rcases hrecuts.kept a ha hnot with ⟨a', ha', hpiece⟩
      exact ⟨a', (hareas a').mpr (.inl ha'), hpiece⟩
  | err e s₁ =>
    obtain rfl : s₁ = s := Option.some.inj hrun
    rcases hmmap with ⟨hstart, hrecuts⟩
    refine h.of_set hinv' hms hspaces htable hstart (fun a ha ↦ .inr (hrecuts.piece a ha)) ?_
    exact fun attachId hattached ↦ attached_of_request hspaces hms haddr hok hrecuts.kept hattached

theorem LifeInv.fork {m' : Machine} (hact : w.machine.act (l.label .fork) ms = some m')
    (hspaces : w'.spaces = m'.spaces) (htable : w'.table = w.table) : w'.LifeInv := by
  have hmem := List.mem_of_getElem? hms
  have hparent := keeps_fork ⟨ms, w.k⟩
  have hwf : ∀ a, w'.Live a → a.WellFormed := fun a ha ↦ hinv'.wellFormed ha
  unfold Machine.act at hact
  simp only [ShmLabel.label] at hact
  split at hact
  · cases hact
  · rename_i e s hfork
    have hspaces : w'.spaces = w.spaces.set l.sid s.ms := hspaces.trans (Option.some.inj hact ▸ rfl)
    rcases hparent s (by rw [show fromExistedUser ⟨ms, w.k⟩ = _ from hfork]; rfl) with
      ⟨hareas, hstart⟩
    refine h.of_set hinv' hms hspaces htable (hstart ▸ h.aligned ms hmem) (fun a ha ↦ ?_) ?_
    · exact .inr ⟨a, hareas ▸ ha, .refl a⟩
    · exact fun attachId ↦ attached_of_parent hms hareas fun ms₀ hms₀ ↦ hspaces ▸ hms₀
  · rename_i child s hfork
    have hspaces : w'.spaces = w.spaces.set l.sid s.ms ++ [child] :=
      hspaces.trans (Option.some.inj hact ▸ rfl)
    rcases hparent s (by rw [show fromExistedUser ⟨ms, w.k⟩ = _ from hfork]; rfl) with
      ⟨hareas, hstart⟩
    rcases pieceOf_fork (hinv.inv.sound ms hmem).geometry hfork with
      ⟨hchildStart, hchild⟩
    have hstart : s.ms.mmapStart % pageSize = 0 := hstart ▸ h.aligned ms hmem
    refine h.of_fewer hwf htable ?_ ?_ ?_
    · rintro a attachId ⟨ms₀, hms₀, ha⟩ hid
      rw [hspaces, mem_append, mem_singleton] at hms₀
      rcases hms₀ with hms₀ | rfl
      · rcases mem_or_eq_of_mem_set hms₀ with hold | rfl
        · exact ⟨a, ⟨ms₀, hold, ha⟩, hid, fun _ hfilled ↦ hfilled⟩
        · exact ⟨a, ⟨ms, hmem, hareas ▸ ha⟩, hid, fun _ hfilled ↦ hfilled⟩
      · rcases hchild a ha with ⟨b, hb, hbid, hpiece⟩
        exact ⟨b, ⟨ms, hmem, hb⟩, hbid ▸ hid, fun _ hfilled ↦
          hfilled.piece (hpiece hfilled.wipeOnFork)⟩
    · exact fun attachId ↦ attached_of_parent hms hareas fun ms₀ hms₀ ↦
        hspaces ▸ mem_append_left _ hms₀
    · intro ms₀ hms₀
      rw [hspaces, mem_append, mem_singleton] at hms₀
      rcases hms₀ with hms₀ | rfl
      · exact aligned_set h hstart ms₀ hms₀
      · exact hchildStart ▸ h.aligned ms hmem

theorem LifeInv.mem {action : Action} (hcall : l.call = .mem action) (hlisted : Listed l)
    (hok : KeepsAttachments w l) (hstep : w.memStep l ms action = some w') : w'.LifeInv := by
  rcases memStep_cases hstep with ⟨hplain, -, m', hact, rfl⟩
  unfold Listed at hlisted
  unfold KeepsAttachments at hok
  rw [hcall] at hlisted hok
  cases action with
  | fork => exact h.fork hinv hinv' hms hact rfl rfl
  | store vpn offset byte | shmget pages => exact hlisted.elim
  | op op =>
    have hrun : ∃ s, (runOp ⟨w.machine.others l.sid, l.io⟩ ⟨ms, w.k⟩ op).state? = some s ∧
        m'.spaces = w.spaces.set l.sid s.ms := by
      unfold Machine.act at hact
      simp only [ShmLabel.label] at hact
      split at hact
      · cases hact
      · rename_i s hrun
        exact ⟨s, hrun, Option.some.inj hact ▸ rfl⟩
    rcases hrun with ⟨s, hrun, hspaces⟩
    cases op with
    | munmap addr mapLen => exact h.munmap hinv hinv' hms hlisted hrun hspaces rfl hok
    | mmap req source =>
      have hsource : source.attachment = none := by
        cases source with
        | segment attachId frames => exact absurd rfl (hplain req attachId frames)
        | anonymous shared | file f offset shared => rfl
      have hrun := (Outcome.state?_void _).symm.trans hrun
      exact h.mmap hinv hinv' hms hlisted.1 hlisted.2 hsource hrun hspaces rfl hok
    | _ => exact hlisted.elim

end Cuts

/-! #### Release -/

theorem LifeInv.release_set {attachIds : List Nat} (h : w.LifeInv)
    (hwf : ∀ a, w'.Live a → a.WellFormed) (hms : w.spaces[l.sid]? = some ms)
    (hspaces : w'.spaces = w.spaces.set l.sid ms') (htable : w'.table = w.table)
    (hsub : ∀ a ∈ ms'.areas, a ∈ ms.areas) (hstart : ms'.mmapStart % pageSize = 0)
    (hlost : ∀ a ∈ ms.areas, ∀ attachId, a.shmAttachId = some attachId →
      a ∈ ms'.areas ∨ attachId ∈ attachIds) : (w'.releaseShmAttachments attachIds).LifeInv := by
  refine h.release hwf htable (Fewer.of_piece ?_) (fun attachId hattached ↦ ?_)
    (hspaces ▸ aligned_set h hstart)
  · exact live_cut hspaces hms fun a ha ↦ .inr ⟨a, hsub a ha, .refl a⟩
  · rcases hattached.cases with ⟨j, ms₀, a, hj, ha, hid⟩
    by_cases hjs : j = l.sid
    · subst hjs
      rw [Option.some.inj (hj.symm.trans hms)] at ha
      rcases hlost a ha attachId hid with hkept | hnamed
      · exact .inl ⟨a, live_set hspaces hms hkept, hid⟩
      · exact .inr hnamed
    · exact .inl ⟨a, live_set_of_ne hspaces hj hjs ha, hid⟩

theorem mem_shmAttachIds (ha : a ∈ ms.areas) (hid : a.shmAttachId = some attachId) :
    attachId ∈ shmAttachIds ms :=
  mem_eraseDups.mpr (mem_filterMap.mpr ⟨a, ha, hid⟩)

theorem LifeInv.shmdt (h : w.LifeInv) (hinv' : w'.ShmInv) (hms : w.spaces[l.sid]? = some ms)
    (hstate : (w.sysShmdt l.sid ms shmaddr).state? = some w') : w'.LifeInv := by
  unfold sysShmdt at hstate
  split at hstate
  · exact Option.some.inj hstate ▸ h
  split at hstate
  · exact Option.some.inj hstate ▸ h
  rename_i attachId ms' hremove
  have hareas := (removeShmAttachment_eq hremove).1
  have hstart : ms'.mmapStart = ms.mmapStart := by
    rcases Option.map_eq_some_iff.mp hremove with ⟨_, -, heq⟩
    exact (Prod.mk.inj heq).2 ▸ rfl
  have heq := Option.some.inj hstate
  have hwf : ∀ a, Live { w with spaces := w.spaces.set l.sid ms' } a → a.WellFormed := by
    intro a ha
    refine hinv'.wellFormed ((live_congr ?_).mpr ha)
    rw [← heq, releaseShmAttachments_spaces]
  rw [← heq]
  refine h.release_set hwf hms rfl rfl (fun a ha ↦ ?_)
    (hstart ▸ h.aligned ms (List.mem_of_getElem? hms)) fun a ha id hid ↦ ?_
  · rw [hareas] at ha
    exact (mem_filter.mp ha).1
  · by_cases hsame : id = attachId
    · exact .inr (mem_singleton.mpr hsame)
    · refine .inl ?_
      rw [hareas]
      exact mem_filter.mpr ⟨ha, by simp [hid, hsame]⟩

theorem Accounted.modify (h : w.Accounted) (shmid : Nat) {f : ShmSegment → ShmSegment}
    (hf : ∀ s, (f s).id = s.id ∧ (f s).frames = s.frames ∧
      (f s).pendingAttaches = s.pendingAttaches) :
    Accounted { w with table := w.table.modify shmid f } := by
  have hkept : ∀ s : ShmSegment, (if s.id = shmid then f s else s).id = s.id ∧
      (if s.id = shmid then f s else s).frames = s.frames ∧
      (if s.id = shmid then f s else s).pendingAttaches = s.pendingAttaches := by
    intro s
    split
    · exact hf s
    · exact ⟨rfl, rfl, rfl⟩
  refine ⟨h.wellFormed, forall_mem_map.mpr fun s hs ↦ forall_mem_map.mpr fun s' hs' ↦ ?_,
    fun a attachId ha hid ↦ ?_, h.present, h.owner_unique, h.owner_lt,
    forall_mem_map.mpr fun s hs ↦ forall_mem_map.mpr fun s' hs' ↦ ?_,
    forall_mem_map.mpr fun s hs ↦ ?_, forall_mem_map.mpr fun s hs ↦ ?_⟩
  · rw [(hkept s).2.1, (hkept s').2.1]
    intro p hp hp'
    rw [h.disjoint s hs s' hs' p hp hp']
  · rcases h.owned a attachId ha hid with ⟨s, hs, howner, hfilled⟩
    refine ⟨_, mem_map_of_mem hs, ?_⟩
    rw [(hkept s).1, (hkept s).2.1]
    exact ⟨howner, hfilled⟩
  · rw [(hkept s).1, (hkept s').1]
    intro hid
    rw [h.id_unique s hs s' hs' hid]
  · rw [(hkept s).1]
    exact h.id_lt s hs
  · rw [(hkept s).2.2]
    exact h.pending s hs

theorem LifeInv.rmid {shmid : Nat} (h : w.LifeInv)
    (hstate : (w.sysShmctlRmid sid shmid).state? = some w') : w'.LifeInv := by
  have hacc := h.accounted
  unfold sysShmctlRmid at hstate
  split at hstate
  · exact Option.some.inj hstate ▸ h
  rename_i segment hget
  rcases ShmTable.mem_of_get hget with ⟨hmem, hid⟩
  have hsame : ∀ s ∈ w.table.segments, s.id = shmid → s = segment := fun s hs hsid ↦
    hacc.id_unique s hs segment hmem (hsid.trans hid.symm)
  dsimp only at hstate
  split at hstate
  · exact Option.some.inj hstate ▸ h
  split at hstate
  · rename_i hunused
    rw [← Option.some.inj hstate]
    refine ⟨hacc.removeSegments fun s hs hgone ↦ ?_, fun s hs hmarked ↦ ?_, h.aligned⟩
    · rw [hsame s hs (by simpa using hgone)]
      exact hunused.2
    · rcases mem_filter.mp hs with ⟨hs, hkeep⟩
      rcases h.marked s hs hmarked with ⟨attachId, howner⟩
      refine ⟨attachId, mem_filter.mpr ⟨howner, ?_⟩⟩
      have hne : s.id ≠ shmid := by simpa using hkeep
      simp only [Bool.not_eq_true', any_eq_false, Bool.and_eq_true, decide_eq_true_eq, not_and]
      exact fun s' _ hs' heq ↦ hne (heq ▸ hs')
  · rename_i hused
    rw [← Option.some.inj hstate]
    -- the segment is mapped, so the mark is covered
    have hcount : w.shmAttachCount segment.frames ≠ 0 := fun hzero ↦
      hused ⟨hacc.pending segment hmem, hzero⟩
    rcases shmAttachCount_ne_zero.mp hcount with ⟨a, attachId, ha, haid, hframe⟩
    have howner := hacc.owner_of_holdsFrame hmem ha haid hframe
    refine ⟨hacc.modify shmid fun _ ↦ ⟨rfl, rfl, rfl⟩, fun s' hs' hmarked ↦ ?_, h.aligned⟩
    rcases mem_map.mp hs' with ⟨s, hs, rfl⟩
    by_cases hsid : s.id = shmid
    · rw [if_pos hsid]
      exact ⟨attachId, hsame s hs hsid ▸ howner⟩
    · rw [if_neg hsid] at hmarked ⊢
      exact h.marked s hs hmarked

theorem LifeInv.exec (h : w.LifeInv) (hms : w.spaces[l.sid]? = some ms) (shared : Bool)
    (hinv' : (w.execSpace l.sid ms shared).ShmInv) : (w.execSpace l.sid ms shared).LifeInv := by
  unfold execSpace at hinv' ⊢
  split at hinv'
  · rename_i phys hphys
    exact h.of_same rfl rfl
  rename_i root phys hphys
  have hwf : ∀ w₁ : ShmWorld, (w₁.releaseShmAttachments (shmAttachIds ms)).ShmInv →
      ∀ a, w₁.Live a → a.WellFormed := fun w₁ hinv₁ a ha ↦
    hinv₁.wellFormed ((live_congr (releaseShmAttachments_spaces _ _)).mpr ha)
  have hfresh : ({ pageTable := .fromKernel root } : MemorySet).mmapStart % pageSize = 0 := by
    show mmapMinAddr % pageSize = 0
    decide
  split at hinv'
  · rename_i hshared
    rw [if_pos hshared]
    refine h.release (hwf _ hinv') rfl (Fewer.of_piece ?_) ?_ ?_
    · rintro a ⟨ms₀, hms₀, ha⟩
      rcases mem_append.mp hms₀ with hold | hnew
      · exact .inr ⟨a, ⟨ms₀, hold, ha⟩, .refl a⟩
      · rw [mem_singleton.mp hnew] at ha
        exact nomatch ha
    · rintro attachId ⟨a, ⟨ms₀, hms₀, ha⟩, hid⟩
      exact .inl ⟨a, ⟨ms₀, mem_append_left _ hms₀, ha⟩, hid⟩
    · intro ms₀ hms₀
      rcases mem_append.mp hms₀ with hold | hnew
      · exact h.aligned ms₀ hold
      · exact mem_singleton.mp hnew ▸ hfresh
  · rename_i hshared
    rw [if_neg hshared]
    exact h.release_set (hwf _ hinv') hms rfl rfl (by simp) hfresh fun a ha attachId hid ↦
      .inr (mem_shmAttachIds ha hid)

theorem LifeInv.exit (h : w.LifeInv) (hms : w.spaces[l.sid]? = some ms) (shared : Bool)
    (hinv' : (w.exitSpace l.sid ms shared).ShmInv) : (w.exitSpace l.sid ms shared).LifeInv := by
  unfold exitSpace at hinv' ⊢
  split at hinv'
  · rename_i hshared
    rw [if_pos hshared]
    exact h
  · rename_i hshared
    rw [if_neg hshared]
    refine h.release_set (fun a ha ↦ ?_) hms rfl rfl (by simp)
      (h.aligned ms (List.mem_of_getElem? hms)) fun a ha attachId hid ↦ .inr (mem_shmAttachIds ha hid)
    exact hinv'.wellFormed ((live_congr (releaseShmAttachments_spaces _ _)).mpr ha)

theorem Step.lifeInv (hinv : w.ShmInv) (h : w.LifeInv) (hlisted : Listed l)
    (hok : KeepsAttachments w l) (hstep : w.Step l w') : w'.LifeInv := by
  rcases Step.moves hinv hstep with ⟨hsettled, hmoves⟩
  have hinv' := hmoves.shmInv hsettled
  -- settling changes neither the address spaces nor the table
  have h : (w.settle l).LifeInv := h.of_same rfl rfl
  rcases Option.bind_eq_some_iff.mp hstep.2 with ⟨ms, hms, hnext⟩
  cases hcall : l.call with rw [hcall] at hnext
  | shmget key size shmflg =>
    rcases sysShmget_cases hsettled hnext with hidle | ⟨segment, hcreates⟩
    · exact h.of_same hidle.spaces hidle.table
    · exact h.create hinv' hcreates
  | shmat shmid shmaddr shmflg =>
    rcases sysShmat_cases hnext with rfl | ⟨segment, addr, s, attached, hattaches⟩
    · exact h
    refine h.attach hsettled hinv' hms hattaches fun hremap start hstart ↦ ?_
    unfold KeepsAttachments at hok
    rw [hcall] at hok
    exact hok hremap segment start hattaches.get (hstart ▸ hattaches.chosen)
  | shmdt shmaddr =>
    exact h.shmdt hinv' hms hnext
  | rmid shmid =>
    exact h.rmid hnext
  | mem action =>
    exact h.mem hsettled hinv' hms hcall hlisted hok hnext
  | exec shared =>
    rw [← Option.some.inj hnext] at hinv' ⊢
    exact h.exec hms shared hinv'
  | exit shared =>
    rw [← Option.some.inj hnext] at hinv' ⊢
    exact h.exit hms shared hinv'

theorem LifeInit.lifeInv (h : w.LifeInit) : w.LifeInv := by
  have hnone : ∀ a, ¬ w.Live a := by
    rintro a ⟨ms, hms, ha⟩
    rw [(h.init.machine.spaces ms hms).1] at ha
    exact nomatch ha
  refine ⟨⟨fun a ha ↦ absurd ha (hnone a), ?_, fun a _ ha ↦ absurd ha (hnone a), ?_, ?_, ?_, ?_, ?_,
    ?_⟩, ?_, h.aligned⟩
  all_goals simp [h.init.table]

/-- Only attached areas map frames of a segment. -/
def Carried (w : ShmWorld) : Prop :=
  ∀ i a v p, w.machine.Records i a v p → ∀ segment ∈ w.table.segments, p ∈ segment.frames →
    a.shmAttachId ≠ none

section

variable (h : w.ShmInv) (hmoves : Moves w l w')
include h hmoves

theorem Moves.attached_of_records (hcarried : w.Carried)
    {i : Nat} (hsegment : segment ∈ w.table.segments) (hp : p ∈ segment.frames)
    (hrec : w'.machine.Records i a v p) : a.shmAttachId ≠ none := by
  have hloose := h.loose segment hsegment p hp
  have hstep : ∀ {label : Label} {m' : Machine}, w.machine.Advance label m' → m'.Records i a v p →
      a.shmAttachId ≠ none := by
    intro label m' hadvance hrec
    cases (hadvance.origin h.inv hrec).frame with
    | old hold hsame => exact hsame.shmAttachId ▸ hcarried _ _ _ _ hold segment hsegment hp
    | fresh _ _ hsupply =>
      rcases hsupply with ⟨n, hn⟩
      exact absurd hn (hloose.not_supply n)
    | backed hbacks => exact absurd (hadvance.loose hloose) hbacks.not_loose
    | segment _ _ _ hattach =>
      rw [hattach]
      exact Option.some_ne_none _
  rcases hrec with ⟨ms, hms, ha, hframe⟩
  have hms : w'.spaces[i]? = some ms := hms
  cases hmoves with
  | mem _ _ hadvance _ hspaces | attach _ _ _ hadvance _ hspaces =>
    exact hstep hadvance ⟨ms, hspaces ▸ hms, ha, hframe⟩
  | create hcreates =>
    rw [hcreates.spaces] at hms
    exact hcarried i a v p ⟨ms, hms, ha, hframe⟩ segment hsegment hp
  | shrink _ _ hspaces _ _ =>
    rcases hspaces i ms hms with hempty | ⟨ms₀, hms₀, hsub⟩
    · rw [hempty] at ha
      exact nomatch ha
    · exact hcarried i a v p ⟨ms₀, hms₀, hsub a ha, hframe⟩ segment hsegment hp

theorem Moves.segment_of_records {i : Nat}
    {segment' : ShmSegment} (hsegment' : segment' ∈ w'.table.segments) (hp : p ∈ segment'.frames)
    (hrec : w'.machine.Records i a v p) :
    ∃ segment ∈ w.table.segments, p ∈ segment.frames ∧ segment'.id = segment.id := by
  have hderived : w'.table.Derived w.table →
      ∃ segment ∈ w.table.segments, p ∈ segment.frames ∧ segment'.id = segment.id := by
    rintro ⟨g, hg, hsub⟩
    rcases hsub segment' hsegment' with ⟨segment, hsegment, rfl⟩
    exact ⟨segment, hsegment, (hg segment).frames ▸ hp, (hg segment).id⟩
  cases hmoves with
  | mem _ _ _ _ _ htable => exact hderived (htable ▸ .refl _)
  | attach _ _ _ _ _ _ _ _ htable | shrink _ _ _ _ htable => exact hderived htable
  | create hcreates =>
    rw [hcreates.table, mem_append, mem_singleton] at hsegment'
    rcases hsegment' with hold | rfl
    · exact ⟨segment', hold, hp, rfl⟩
    rcases hrec with ⟨ms, hms, hrest⟩
    have hms : w'.spaces[i]? = some ms := hms
    rw [hcreates.spaces] at hms
    rcases (hcreates.fresh p hp).2 with ⟨j, hj⟩
    exact absurd hj (h.inv.not_supply ⟨ms, hms, hrest⟩ j)

theorem Moves.carried (hcarried : w.Carried) : w'.Carried := by
  intro i a v p hrec segment' hsegment' hp
  rcases hmoves.segment_of_records h hsegment' hp hrec with ⟨segment, hsegment, hp₀, -⟩
  exact hmoves.attached_of_records h hcarried hsegment hp₀ hrec

end

/-! ### Whole runs -/

theorem lifeInv_of_run (hrun : Run LifeInit (fun w l ↦ Listed l ∧ KeepsAttachments w l) Step w) :
    w.ShmInv ∧ w.LifeInv ∧ w.Carried := by
  refine hrun.invariant (I := fun w ↦ w.ShmInv ∧ w.LifeInv ∧ w.Carried)
    (fun w h ↦ ⟨h.init.shmInv, h.lifeInv, ?_⟩) ?_
  · intro i a v p _ segment hsegment
    rw [h.init.table] at hsegment
    exact nomatch hsegment
  · rintro w l w' ⟨hinv, hlife, hcarried⟩ ⟨hlisted, hok⟩ hstep
    rcases Step.moves hinv hstep with ⟨hsettled, hmoves⟩
    exact ⟨hmoves.shmInv hsettled, Step.lifeInv hinv hlife hlisted hok hstep,
      hmoves.carried hsettled hcarried⟩

/-- In every run of the calls in which `munmap`, `MAP_FIXED` and `SHM_REMAP` take no last area of an
attachment: a segment marked removed is mapped somewhere, the attach ids of the table are those of the
live address spaces, the pages of every attached area show frames of a segment in the table, and a
segment that leaves the table at a step is mapped nowhere after it. -/
theorem lifetime_of_run (hrun : Run LifeInit (fun w l ↦ Listed l ∧ KeepsAttachments w l) Step w) :
    (∀ segment ∈ w.table.segments, segment.markedRemoved = true → ∃ ms ∈ w.spaces, ∃ a ∈ ms.areas,
      ∃ v p : Nat, a.dataFrames[v]? = some p ∧ p ∈ segment.frames) ∧
    (∀ attachId, (∃ shmid, (attachId, shmid) ∈ w.table.attachOwners) ↔
      ∃ ms ∈ w.spaces, ∃ a ∈ ms.areas, a.shmAttachId = some attachId) ∧
    (∀ ms ∈ w.spaces, ∀ a ∈ ms.areas, ∀ attachId, a.shmAttachId = some attachId →
      ∃ segment ∈ w.table.segments, (attachId, segment.id) ∈ w.table.attachOwners ∧
        ∀ v p : Nat, a.dataFrames[v]? = some p → p ∈ segment.frames) ∧
    ∀ l w', Listed l → KeepsAttachments w l → w.Step l w' → ∀ segment ∈ w.table.segments,
      (∀ s ∈ w'.table.segments, s.id ≠ segment.id) → ∀ ms ∈ w'.spaces, ∀ a ∈ ms.areas,
        ∀ v p : Nat, a.dataFrames[v]? = some p → p ∉ segment.frames := by
  rcases lifeInv_of_run hrun with ⟨hinv, hlife, hcarried⟩
  have hacc := hlife.accounted
  refine ⟨fun segment hsegment hmarked ↦ ?_, fun attachId ↦ ⟨?_, ?_⟩, ?_, ?_⟩
  · rcases hlife.marked segment hsegment hmarked with ⟨attachId, howner⟩
    rcases hacc.present _ howner with ⟨a, ha, hid⟩
    rcases hacc.owned a attachId ha hid with ⟨segment', hsegment', howner', hfilled⟩
    have hsame := hacc.owner_unique _ howner _ howner' rfl
    rw [hacc.id_unique segment hsegment segment' hsegment' (Prod.mk.inj hsame).2]
    rcases holdsFrame_iff.mp (hfilled.holdsFrame (hacc.wellFormed a ha)) with ⟨v, p, hrec, hp⟩
    rcases ha with ⟨ms, hms, ha⟩
    exact ⟨ms, hms, a, ha, v, p, hrec, hp⟩
  · rintro ⟨shmid, howner⟩
    rcases hacc.present _ howner with ⟨a, ⟨ms, hms, ha⟩, hid⟩
    exact ⟨ms, hms, a, ha, hid⟩
  · rintro ⟨ms, hms, a, ha, hid⟩
    rcases hacc.owned a attachId ⟨ms, hms, ha⟩ hid with ⟨segment, -, howner, -⟩
    exact ⟨segment.id, howner⟩
  · intro ms hms a ha attachId hid
    rcases hacc.owned a attachId ⟨ms, hms, ha⟩ hid with ⟨segment, hsegment, howner, hfilled⟩
    exact ⟨segment, hsegment, howner, fun v p hrec ↦
      hfilled.mem_frames (hacc.wellFormed a ⟨ms, hms, ha⟩) hrec⟩
  · intro l w' hlisted hok hstep segment hsegment hgone ms hms a ha v p hrec hp
    rcases Step.moves hinv hstep with ⟨hsettled, hmoves⟩
    have hacc' := (Step.lifeInv hinv hlife hlisted hok hstep).accounted
    rcases mem_iff_getElem?.mp hms with ⟨i, hi⟩
    have hrecords : w'.machine.Records i a v p := ⟨ms, hi, ha, hrec⟩
    rcases Option.ne_none_iff_exists'.mp
      (hmoves.attached_of_records hsettled hcarried hsegment hp hrecords) with ⟨attachId, hid⟩
    rcases hacc'.owned a attachId ⟨ms, hms, ha⟩ hid with ⟨segment', hsegment', -, hfilled⟩
    have hp' := hfilled.mem_frames (hacc'.wellFormed a ⟨ms, hms, ha⟩) hrec
    rcases hmoves.segment_of_records hsettled hsegment' hp' hrecords with ⟨s, hs, hps, hsid⟩
    exact hgone segment' hsegment' (hsid.trans (congrArg _ (hinv.disjoint s hs segment hsegment p hps hp)))

theorem lifeInit_oneTask : oneTask.LifeInit where
  init := init_oneTask
  aligned ms hms := by
    rw [mem_singleton.mp hms]
    decide

def createPage : ShmLabel := { sid := 0, call := .shmget IPC_PRIVATE 0x1000 0o600 }

def attachPage : ShmLabel := { sid := 0, call := .shmat 1 0x2000000000 0 }

/-- The segment is marked while it is attached, and the attachment is taken away by `munmap`: the
segment and the owner entry stay although nothing is mapped any more. -/
theorem marked_segment_stays :
    ∃ w, Run LifeInit (fun _ l ↦ Listed l) Step w ∧ (∀ ms ∈ w.spaces, ms.areas = []) ∧
      (∃ segment ∈ w.table.segments, segment.markedRemoved = true) ∧
      (1, 1) ∈ w.table.attachOwners := by
  have hsupply : ∀ l ∈ [createPage, attachPage, { sid := 0, call := .rmid 1 },
      { sid := 0, call := .mem (.op (.munmap 0x2000000000 0x1000)) }], l.supply = none := by
    simp [createPage, attachPage]
  refine exists_of_labels lifeInit_oneTask hsupply (fun l hl w ↦ ?_) ?_
  · simp only [createPage, attachPage, mem_cons, not_mem_nil, or_false] at hl
    rcases hl with rfl | rfl | rfl | rfl
    · trivial
    · trivial
    · trivial
    · exact (by decide : 0x2000000000 % pageSize = 0)
  · decide +kernel

/-- The segment is shared with a child by fork and marked, and the parent ends: the child still maps
it. -/
theorem lifetime_after_fork : ∃ w, Run LifeInit (fun w l ↦ Listed l ∧ KeepsAttachments w l) Step w ∧
      ∃ segment ∈ w.table.segments, segment.markedRemoved = true ∧
        (∃ ms ∈ w.spaces, ∃ a ∈ ms.areas, ∃ v p : Nat, a.dataFrames[v]? = some p ∧
          p ∈ segment.frames) ∧
        ∀ attachId, (∃ shmid, (attachId, shmid) ∈ w.table.attachOwners) ↔
          ∃ ms ∈ w.spaces, ∃ a ∈ ms.areas, a.shmAttachId = some attachId := by
  have hsupply : ∀ l ∈ [createPage, attachPage, { sid := 0, call := .mem .fork },
      { sid := 0, call := .rmid 1 }, { sid := 0, call := .exit false }], l.supply = none := by
    simp [createPage, attachPage]
  obtain ⟨w, hrun, segment, hsegment, hmarked⟩ :
      ∃ w, Run LifeInit (fun w l ↦ Listed l ∧ KeepsAttachments w l) Step w ∧
        ∃ segment ∈ w.table.segments, segment.markedRemoved = true := by
    refine exists_of_labels lifeInit_oneTask hsupply (fun l hl w ↦ ?_) ?_
    · simp only [createPage, attachPage, mem_cons, not_mem_nil, or_false] at hl
      rcases hl with rfl | rfl | rfl | rfl | rfl
      · exact ⟨trivial, trivial⟩
      · exact ⟨trivial, fun hremap ↦ absurd hremap (by decide)⟩
      · exact ⟨trivial, trivial⟩
      · exact ⟨trivial, trivial⟩
      · exact ⟨trivial, trivial⟩
    · decide +kernel
  rcases lifetime_of_run hrun with ⟨hmapped, howners, -⟩
  exact ⟨w, hrun, segment, hsegment, hmarked, hmapped segment hsegment hmarked, howners⟩

end ShmWorld

end RespOS.Ipc
