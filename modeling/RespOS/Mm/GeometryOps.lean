import RespOS.Mm.Geometry

/-!
# Every operation keeps the geometry of the areas

The operations that add, move, grow and merge areas. A new or moved area goes where no other area is
and the list is sorted afterwards (`Geometry.insert`); the growth of an area at its end or at its
start stops before its neighbour; the merge joins areas that touch. `geometry_runOp` collects the
operations.
-/

namespace RespOS.Mm

open RespOS.Basis RespOS.Fs
open RespOS.Outcome (keeps_err keeps_ok keeps_panic)
open List MemorySet Except Nat

variable {areas l₁ l₂ m : List MapArea} {a : MapArea}

/-! ### Adding an area -/

theorem Geometry.insert (h : Geometry areas) (ha : a.WellFormed)
    (hapart : ∀ b ∈ areas, b.stop ≤ a.start ∨ a.stop ≤ b.start) :
    Geometry (sortAreas (areas ++ [a])) := by
  obtain ⟨hwf, hordered⟩ := geometry_iff.mp h
  refine geometry_iff.mpr ⟨fun x hx ↦ ?_, ?_⟩
  · have hmem : x ∈ areas ++ [a] := (perm_insertionSort _ _).mem_iff.mp hx
    rcases mem_append.mp hmem with hx | hx
    · exact hwf x hx
    · rw [mem_singleton.mp hx]
      exact ha
  · exact ordered_insertionSort_append hordered (fun b hb ↦ (hwf b hb).nonempty) ha.nonempty hapart

namespace MemorySet

variable {start mapLen stop addr vpn idx : Nat} {ms : MemorySet} {req : MmapRequest} {s : MmState}
  {a middle : MapArea} {io : IoEnv} {ext : Nat → Nat} {backing : MmapBacking} {r : VPNRange}
  {areas : List MapArea} {userSp : Option Nat}

open VPNRange

theorem byteRange_window (hpos : 0 < mapLen) (hstop : stop = start + mapLen)
    (hmax : stop ≤ mmapMaxAddr) : (byteRange start stop).start < (byteRange start stop).stop ∧
      mapLen ≤ (byteRange start stop).pageCount * pageSize := by
  subst hstop
  unfold byteRange pageCount
  rw [virtAddr_of_le (by omega), virtAddr_of_le hmax]
  refine ⟨floorVpn_lt_ceilVpn (by omega), ?_⟩
  show mapLen ≤ (ceilVpn (start + mapLen) - floorVpn start) * pageSize
  unfold floorVpn ceilVpn pageSize
  omega

theorem boundedEnd_eq_ok (h : boundedEnd start mapLen = .ok stop) :
    stop = start + mapLen ∧ stop ≤ mmapMaxAddr := by
  unfold boundedEnd at h
  split at h
  · simp at h
  rename_i stop' hadd
  obtain ⟨-, rfl⟩ := checkedAdd_eq_some.mp hadd
  split_ifs at h with hmax
  simp only [ok.injEq] at h
  omega

theorem secondStart_eq_ok {start' stop' : Nat}
    (h : ms.secondStart req start stop = .ok (start', stop'))
    (hstop : stop = start + req.mapLen ∧ stop ≤ mmapMaxAddr) :
    stop' = start' + req.mapLen ∧ stop' ≤ mmapMaxAddr := by
  revert h
  fun_cases ms.secondStart req start stop with
  | case3 _ start₁ _ stop₁ hbounded =>
    rintro ⟨⟩
    exact boundedEnd_eq_ok hbounded
  | case4 =>
    rintro ⟨⟩
    exact hstop
  | _ => exact nofun

/-- The address selection has chosen a range in the mapping window that meets no area, after a removal
or from the start. -/
structure Chosen (s : MmState) (req : MmapRequest) (start stop : Nat) (s' : MmState) : Prop where
  prepared : prepareMmap s req = .ok (start, stop) s'
  stop_eq : stop = start + req.mapLen
  stop_le : stop ≤ mmapMaxAddr
  state : req.replace = true ∧ s.ms.firstStart req = .ok start ∧
      s' = removeAreaWithOverlapRange s (byteRange start stop) ∨ s' = s
  free : ∀ a ∈ s'.ms.areas, a.vpnRange.intersectWith (byteRange start stop) = false

theorem prepareMmap_cases (s : MmState) (req : MmapRequest) :
    (∃ e, prepareMmap s req = .err e s) ∨ ∃ start stop s', Chosen s req start stop s' := by
  generalize ho : prepareMmap s req = o
  have hrun := ho
  unfold prepareMmap at hrun
  split at hrun
  · exact .inl ⟨_, hrun.symm⟩
  rename_i start₀ hfirst
  split at hrun
  · exact .inl ⟨_, hrun.symm⟩
  split at hrun
  · exact .inl ⟨_, hrun.symm⟩
  rename_i stop₀ hbounded
  split at hrun
  · exact .inl ⟨_, hrun.symm⟩
  rename_i start stop hsecond
  obtain ⟨hstop, hmax⟩ := secondStart_eq_ok hsecond (boundedEnd_eq_ok hbounded)
  dsimp only at hrun
  split_ifs at hrun with hno hreplace hmeets
  · exact .inl ⟨_, hrun.symm⟩
  · have hfixed : start₀ = start := by
      have hhint : MmapRequest.isHint req = false := by simp [MmapRequest.isHint, hreplace]
      simp only [secondStart, hhint, Bool.false_and, Bool.false_eq_true, if_false,
        ok.injEq, Prod.mk.injEq] at hsecond
      exact hsecond.1
    exact .inr ⟨start, stop, _, ho.trans hrun.symm, hstop, hmax, .inl ⟨hreplace, hfixed ▸ hfirst, rfl⟩,
      fun a ha ↦ not_intersectWith_removeAreaWithOverlapRange ha⟩
  · exact .inl ⟨_, hrun.symm⟩
  · refine .inr ⟨start, stop, s, ho.trans hrun.symm, hstop, hmax, .inr rfl, fun a ha ↦ ?_⟩
    simp only [areaIntersects, any_eq_true, not_exists, not_and, Bool.not_eq_true] at hmeets
    exact hmeets a ha

theorem geometry_commitArea {ps : PtState} (h : Geometry s.ms.areas) (ha : a.WellFormed)
    (hfree : ∀ b ∈ s.ms.areas, b.vpnRange.intersectWith a.vpnRange = false) :
    (commitArea s req start stop a ps).Keeps fun s' ↦ Geometry s'.ms.areas := by
  refine keeps_ok.mpr (h.insert ha fun b hb ↦ ?_)
  have := intersectWith_eq_false.mp (hfree b hb)
  unfold MapArea.start MapArea.stop
  omega

/-- The file window of a backing is at most as long as the mapping. -/
def fitsIn (mapLen : Nat) : MmapBacking → Prop
  | .privateFile _ _ len => len ≤ mapLen
  | .sharedFileFrames _ _ len _ _ => len ≤ mapLen
  | _ => True

theorem geometry_installArea (h : Geometry s.ms.areas)
    (hne : (byteRange start stop).start < (byteRange start stop).stop)
    (hfree : ∀ a ∈ s.ms.areas, a.vpnRange.intersectWith (byteRange start stop) = false)
    (hlen : fitsIn ((byteRange start stop).pageCount * pageSize) backing) :
    (installArea s io ext req backing start stop).Keeps fun s' ↦ Geometry s'.ms.areas := by
  have hblank : ∀ shared, (blankArea req start stop shared).WellFormed := fun shared ↦
    ⟨hne, by simp [blankArea], by simp [blankArea]⟩
  have hnodup : ∀ frames : List Nat, (((byteRange start stop).vpns.zip frames).map Prod.fst).Nodup :=
    MapArea.nodup_map_fst_zip (nodup_vpns _)
  fun_cases installArea s io ext req backing start stop with
  | case1 => exact geometry_commitArea h (hblank false) hfree
  | case2 => exact keeps_panic
  | case3 ps a ps' hmap =>
    obtain ⟨d, rfl, hd⟩ := MapArea.within_mapEach hmap
    refine geometry_commitArea h ((hblank true).withFrames fun v p hp ↦ ?_) hfree
    rcases hd v p hp with hv | ⟨q, hq⟩
    · exact mem_vpns.mp hv
    · simp [blankArea] at hq
  | case4 | case7 | case8 => exact keeps_err.mpr h
  | case5 ps attachId frames a d ps' hinstall =>
    refine geometry_commitArea h ⟨hne, by simp [a, blankArea], fun v p hp ↦ ?_⟩ hfree
    have hmem := (MapArea.getElem?_installGiven (hnodup frames) hinstall v p).mp hp
    exact mem_vpns.mp (of_mem_zip hmem).1
  | case6 ps file offset len a =>
    refine geometry_commitArea h ⟨hne, fun b hb ↦ ?_, by simp [a, blankArea]⟩ hfree
    obtain rfl := Option.some.inj hb
    exact hlen
  | case9 ps file offset len validLen frames _ a _ _ pages d ps' hinstall =>
    refine geometry_commitArea h ⟨hne, fun b hb ↦ ?_, fun v p hp ↦ ?_⟩ hfree
    · obtain rfl := Option.some.inj hb
      exact hlen
    · have hmem := (MapArea.getElem?_installGiven
        ((hnodup frames).sublist (filter_sublist.map _)) hinstall v p).mp hp
      exact mem_vpns.mp (of_mem_zip (mem_filter.mp hmem).1).1

theorem mmapArea_cases (s : MmState) (io : IoEnv) (ext : Nat → Nat) (req : MmapRequest)
    (backing : MmapBacking) : (∃ e, mmapArea s io ext req backing = .err e s) ∨ ∃ start stop s₁,
      mmapArea s io ext req backing = installArea s₁ io ext req backing start stop ∧
        (∀ attachId frames, backing = .sharedFrames attachId frames →
          frames.length = req.mapLen / pageSize) ∧
        Chosen s req start stop s₁ := by
  unfold mmapArea
  simp only
  split_ifs with hbad
  · exact .inl ⟨_, rfl⟩
  rcases prepareMmap_cases s req with ⟨e, he⟩ | ⟨start, stop, s₁, h⟩
  · exact .inl ⟨e, by rw [he]; rfl⟩
  · refine .inr ⟨start, stop, s₁, by rw [h.prepared]; rfl, ?_, h⟩
    rintro attachId frames rfl
    simpa using hbad

theorem geometry_mmapArea (h : Geometry s.ms.areas) (hfits : fitsIn req.mapLen backing) :
    (mmapArea s io ext req backing).Keeps fun s' ↦ Geometry s'.ms.areas := by
  rcases mmapArea_cases s io ext req backing with
    ⟨e, he⟩ | ⟨start, stop, s₁, heq, -, -, hstop, hmax, hs₁, hfree⟩
  · rw [he]
    exact keeps_err.mpr h
  rw [heq]
  obtain ⟨hne, hlen⟩ := byteRange_window req.mapLen_pos hstop hmax
  have hgeo : Geometry s₁.ms.areas := by
    rcases hs₁ with ⟨-, -, rfl⟩ | rfl
    · exact geometry_removeAreaWithOverlapRange hne.le h
    · exact h
  refine geometry_installArea hgeo hne hfree ?_
  cases backing with
  | privateFile | sharedFileFrames => exact le_trans hfits hlen
  | lazyAnonymous | sharedAnonymous | sharedFrames => trivial

theorem fitsIn_mmapFileBacking {k k' : Kernel} {file offset : Nat} {shared : Bool}
    (h : mmapFileBacking k io ext file offset mapLen shared = (.ok backing, k')) :
    fitsIn mapLen backing := by
  revert h
  fun_cases mmapFileBacking k io ext file offset mapLen shared with
  | case3 =>
    rintro ⟨⟩
    exact le_rfl
  | case4 =>
    intro h
    rw [← ok.inj (Prod.mk.inj h).1]
    exact min_le_right _ _
  | _ => exact nofun

theorem geometry_mmap (env : OpEnv) (req : MmapRequest) (source : MapSource)
    (h : Geometry s.ms.areas) : (mmap s env req source).Keeps fun s' ↦ Geometry s'.ms.areas := by
  unfold mmap
  cases source with
  | anonymous shared =>
    simp only
    cases shared with
    | true | false => exact geometry_mmapArea h trivial
  | segment attachId frames => exact geometry_mmapArea h trivial
  | file f offset shared =>
    simp only
    split_ifs
    · exact keeps_err.mpr h
    split
    · exact keeps_err.mpr h
    split
    · exact keeps_err.mpr h
    · rename_i backing k hbacking
      exact geometry_mmapArea h (fitsIn_mmapFileBacking hbacking)

theorem byteRange_le (hle : addr ≤ stop) (hmax : stop ≤ mmapMaxAddr) :
    (byteRange addr stop).start ≤ (byteRange addr stop).stop := by
  unfold byteRange
  rw [virtAddr_of_le (hle.trans hmax), virtAddr_of_le hmax]
  exact floorVpn_le_ceilVpn hle

variable {P : MmState → Prop} {others : Nat → Nat} {cause : PageFaultCause}

theorem munmapRange_rule (hsame : P s)
    (hremove : ∀ r mmapStart, r = byteRange addr (addr + mapLen) → r.start ≤ r.stop →
      mmapStart = addr ∨ mmapStart = s.ms.mmapStart →
      P { removeAreaWithOverlapRange s r with
        ms := { (removeAreaWithOverlapRange s r).ms with mmapStart := mmapStart } }) :
    (munmapRange s addr mapLen).Keeps P := by
  unfold munmapRange
  split
  · exact keeps_err.mpr hsame
  rename_i stop hadd
  obtain ⟨-, rfl⟩ := checkedAdd_eq_some.mp hadd
  split
  · exact keeps_err.mpr hsame
  refine keeps_ok.mpr (hremove _ _ rfl (byteRange_le (by omega) (by omega)) ?_)
  split
  · exact .inl rfl
  · exact .inr rfl

theorem geometry_munmapRange (addr mapLen : Nat) (h : Geometry s.ms.areas) :
    (munmapRange s addr mapLen).Keeps fun s' ↦ Geometry s'.ms.areas :=
  munmapRange_rule h fun _ _ _ hle _ ↦ geometry_removeAreaWithOverlapRange hle h

/-! ### Moving an area -/

theorem takeExactArea_spec {todo done : List MapArea}
    (h : takeExactArea r todo done = some (middle, areas)) :
    ∃ l₁ a l₂, done ++ todo = l₁ ++ a :: l₂ ∧ a.vpnRange.containRange r = true ∧
      middle = (a.splitByOverlap r.start r.stop).middle ∧
      areas = l₁ ++ ((a.splitByOverlap r.start r.stop).left.toList ++
        (a.splitByOverlap r.start r.stop).right.toList) ++ l₂ := by
  induction todo generalizing done with
  | nil => simp [takeExactArea] at h
  | cons a rest ih =>
    simp only [takeExactArea] at h
    split_ifs at h with hcontain
    · simp only [Option.some.injEq, Prod.mk.injEq] at h
      exact ⟨done, a, rest, rfl, hcontain, h.1.symm, h.2.symm⟩
    · obtain ⟨l₁, b, l₂, hsplit, hrest⟩ := ih h
      exact ⟨l₁, b, l₂, by simpa using hsplit, hrest⟩

theorem detachArea_cases {s' : MmState} (h : detachArea s r = some (middle, s')) :
    ∃ l₁ a l₂, s.ms.areas = l₁ ++ a :: l₂ ∧ a.vpnRange.start ≤ r.start ∧ r.stop ≤ a.vpnRange.stop ∧
      middle = (a.splitByOverlap r.start r.stop).middle ∧
      s' = ⟨s.ms.withPt (middle.unmapPtesOnly s.ms.pageTable)
        (l₁ ++ ((a.splitByOverlap r.start r.stop).left.toList ++
          (a.splitByOverlap r.start r.stop).right.toList) ++ l₂), middle.notifyMmapClose s.k⟩ := by
  obtain ⟨⟨middle', areas⟩, htake, heq⟩ := Option.map_eq_some_iff.mp h
  obtain ⟨rfl, rfl⟩ := Prod.mk.inj heq
  obtain ⟨l₁, a, l₂, hsplit, hcontain, rfl, rfl⟩ := takeExactArea_spec htake
  obtain ⟨hlo, hhi⟩ := containRange_eq_true.mp hcontain
  exact ⟨l₁, a, l₂, hsplit, hlo, hhi, rfl, rfl⟩

theorem detachArea_spec {s' : MmState} (hle : r.start ≤ r.stop) (hgeo : Geometry s.ms.areas)
    (h : detachArea s r = some (middle, s')) :
    Geometry s'.ms.areas ∧ middle.start = r.start ∧ middle.Within middle.dataFrames ∧
      ∀ x ∈ s'.ms.areas, ∃ a ∈ s.ms.areas, a.start ≤ x.start ∧ x.stop ≤ a.stop := by
  obtain ⟨l₁, a, l₂, hsplit, hlo, hhi, rfl, rfl⟩ := detachArea_cases h
  rw [hsplit] at hgeo
  have hwf : a.WellFormed := hgeo.wellFormed (by simp)
  obtain ⟨hall, hordered, hin⟩ := split_geometry hwf r.start r.stop none hlo hle hhi (by simp)
  simp only [Option.toList_none, append_nil] at hall hordered hin
  refine ⟨hgeo.replace hall hordered hin, rfl, fun v p hp ↦ ?_, fun x hx ↦ ?_⟩
  · rw [MapArea.splitByOverlap, MapArea.getElem?_dataFrames_part] at hp
    split_ifs at hp with hkeep
    show r.start ≤ v ∧ v < r.stop
    simpa using hkeep
  · rw [hsplit]
    have hx' : x ∈ l₁ ++ ((a.splitByOverlap r.start r.stop).left.toList ++
        (a.splitByOverlap r.start r.stop).right.toList) ++ l₂ := hx
    rcases mem_append.mp hx' with hx' | hx'
    · rcases mem_append.mp hx' with hx' | hx'
      · exact ⟨x, mem_append_left _ hx', le_rfl, le_rfl⟩
      · exact ⟨a, by simp, hin x hx'⟩
    · exact ⟨x, mem_append_right _ (mem_cons_of_mem a hx'), le_rfl, le_rfl⟩

theorem floorVpn_add_le (addr len : Nat) :
    floorVpn addr + len / pageSize ≤ floorVpn (addr + len) := by
  unfold floorVpn pageSize
  omega

theorem room_of_free {b : MapArea} {len : Nat}
    (h : b.vpnRange.intersectWith ⟨floorVpn addr, floorVpn (addr + len)⟩ = false) :
    b.stop ≤ floorVpn addr ∨ floorVpn addr + len / pageSize ≤ b.start := by
  have hfit := floorVpn_add_le addr len
  have hnot := intersectWith_eq_false.mp h
  simp only [MapArea.start, MapArea.stop] at hnot ⊢
  omega

variable {newAddr fuel newEnd : Nat} {areas' rest : List MapArea}

theorem geometry_placeMoved {newLen : Nat} (h : Geometry s.ms.areas) (hpos : 0 < newLen / pageSize)
    (hwithin : middle.Within middle.dataFrames) (hfree : ∀ b ∈ s.ms.areas, b.vpnRange.intersectWith
      ⟨floorVpn newAddr, floorVpn (newAddr + newLen)⟩ = false) :
    (placeMoved s middle (floorVpn newAddr) (newLen / pageSize) newAddr).Keeps
      fun s' ↦ Geometry s'.ms.areas := by
  unfold placeMoved
  simp only
  split
  · exact keeps_err.mpr h
  · exact keeps_ok.mpr
      (h.insert (MapArea.WellFormed.rebase hwithin _ hpos) fun b hb ↦ room_of_free (hfree b hb))

theorem chooseLoop_eq_ok (h : chooseLoop areas mapLen fuel start = .ok addr) :
    addr + mapLen ≤ mmapMaxAddr ∧ (addr = start ∨ ∃ vpn, addr = usizeOfVpn vpn) := by
  fun_induction chooseLoop areas mapLen fuel start with
  | case4 start fuel stop hadd hmax r a hmeets ih =>
    obtain ⟨hend, hstart⟩ := ih h
    exact ⟨hend, .inr (hstart.elim (⟨_, ·⟩) id)⟩
  | case5 start fuel stop hadd hmax =>
    obtain ⟨-, rfl⟩ := checkedAdd_eq_some.mp hadd
    obtain rfl := ok.inj h
    exact ⟨by omega, .inl rfl⟩
  | _ => exact nomatch h

/-! ### Growing an area at its end -/

theorem extendAreaEnd_spec {pt pt' : PageTable}
    (h : extendAreaEnd r newEnd areas pt = some (areas', pt')) :
    ∃ l₁ a l₂, areas = l₁ ++ a :: l₂ ∧ a.vpnRange.containRange r = true ∧
      ((a.stop = r.stop ∧ areas' = l₁ ++ [(a.resizeEnd pt newEnd).1] ++ l₂ ∧
          pt' = (a.resizeEnd pt newEnd).2) ∨
        (areas' = l₁ ++ ((a.splitByOverlap r.start r.stop).left.toList ++
            [((a.splitByOverlap r.start r.stop).middle.resizeEnd pt newEnd).1]) ++ l₂ ++
              (a.splitByOverlap r.start r.stop).right.toList ∧
          pt' = ((a.splitByOverlap r.start r.stop).middle.resizeEnd pt newEnd).2)) := by
  unfold extendAreaEnd at h
  split at h
  · simp at h
  rename_i i hfind
  simp only at h
  obtain ⟨hi, hcontain, -⟩ := findIdx?_eq_some_iff_getElem.mp hfind
  rw [length_reverse] at hi
  have hidx : areas.length - 1 - i < areas.length := by omega
  rw [getElem_reverse] at hcontain
  rw [getElem?_eq_getElem hidx] at h
  set a := areas[areas.length - 1 - i] with ha
  have hsplit : areas = areas.take (areas.length - 1 - i) ++
      a :: areas.drop (areas.length - 1 - i + 1) := by
    rw [ha, getElem_cons_drop, take_append_drop]
  refine ⟨_, a, _, hsplit, hcontain, ?_⟩
  simp only at h
  by_cases hne : a.vpnRange.start ≠ r.start ∨ a.vpnRange.stop ≠ r.stop
  · rw [if_pos hne] at h
    simp only [Option.some.injEq, Prod.mk.injEq] at h
    exact .inr ⟨h.1.symm, h.2.symm⟩
  · rw [if_neg hne] at h
    simp only [Option.some.injEq, Prod.mk.injEq] at h
    exact .inl ⟨by by_contra hstop; exact hne (.inr hstop), h.1.symm, h.2.symm⟩

/-- The growth in place of `mremap`: the pages behind the range are free, so the area that contains
the range ends with it and the next area starts behind the new end. -/
theorem geometry_extendAreaEnd {pt pt' : PageTable} (hlt : r.start < r.stop) (hle : r.stop ≤ newEnd)
    (hfree : ∀ b ∈ areas, b.vpnRange.intersectWith ⟨r.stop, newEnd⟩ = false)
    (h : extendAreaEnd r newEnd areas pt = some (areas', pt')) (hgeo : Geometry areas) :
    Geometry areas' := by
  obtain ⟨l₁, a, l₂, rfl, hcontain, hcases⟩ := extendAreaEnd_spec h
  have hwf : a.WellFormed := hgeo.wellFormed (by simp)
  obtain ⟨hlo, hhi⟩ := containRange_eq_true.mp hcontain
  have hastop : a.stop = r.stop := by
    have := intersectWith_eq_false.mp (hfree a (by simp))
    simp only at this
    show a.vpnRange.stop = r.stop
    omega
  have hordered := (geometry_iff.mp hgeo).2
  have hlater : ∀ b ∈ l₂, newEnd ≤ b.start := by
    intro b hb
    have hab : a.stop ≤ b.start := hordered.behind hb
    have hb' := (hgeo.wellFormed (a := b) (by simp [hb])).nonempty
    have := intersectWith_eq_false.mp (hfree b (by simp [hb]))
    simp only at this
    simp only [MapArea.start, MapArea.stop] at hab hb' hastop ⊢
    omega
  have hsplice {m : List MapArea} (hm : OrderedAreas m)
      (hin : ∀ x ∈ m, x.WellFormed ∧ a.start ≤ x.start ∧ x.stop ≤ newEnd) :
      Geometry (l₁ ++ m ++ l₂) := by
    refine hgeo.splice (fun x hx ↦ (hin x hx).1) hm (fun b hb x hx ↦ ?_) fun x hx b hb ↦ ?_
    · exact (hordered.before hb).trans (hin x hx).2.1
    · exact (hin x hx).2.2.trans (hlater b hb)
  rcases hcases with ⟨-, rfl, -⟩ | ⟨rfl, -⟩
  · obtain ⟨hx, hstart, hstop⟩ := hwf.resizeEnd pt newEnd (hastop.trans_le hle)
    exact hsplice (pairwise_singleton _ _) (by simpa using ⟨hx, hstart.ge, hstop.le⟩)
  have hnone : (a.splitByOverlap r.start r.stop).right = none := by
    exact if_neg (not_lt.mpr hastop.le)
  have hmid : (a.splitByOverlap r.start r.stop).middle.WellFormed := hwf.middle hlt
  obtain ⟨hleft, -⟩ := hwf.splitByOverlap r.start r.stop
  obtain ⟨hx, hstart, hstop⟩ := hmid.resizeEnd pt newEnd hle
  rw [hnone, Option.toList_none, append_nil]
  have hxstart : ((a.splitByOverlap r.start r.stop).middle.resizeEnd pt newEnd).1.start = r.start :=
    hstart
  refine hsplice (pairwise_append.mpr ⟨?_, pairwise_singleton _ _, ?_⟩) fun y hy ↦ ?_
  · cases (a.splitByOverlap r.start r.stop).left <;> simp
  · intro y hy z hz
    rw [Option.mem_toList] at hy
    rw [mem_singleton.mp hz, hxstart, (hleft y hy).2.2]
  · simp only [mem_append, Option.mem_toList, mem_singleton] at hy
    rcases hy with hy | rfl
    · obtain ⟨hy, hstart, hstop⟩ := hleft y hy
      exact ⟨hy, hstart.ge, hstop.trans_le (hlt.le.trans hle)⟩
    · exact ⟨hx, hlo.trans hxstart.ge, hstop.le⟩

/-- What `mremap_range` does: nothing, the removal of the tail, an extension in place, or a move, for which
the area has been taken out and its new place has been cleared. -/
inductive Remapped (s : MmState) (oldAddr oldLen newLen : Nat) (fixedAddr : Option Nat) :
    Outcome MmState Nat → Prop
  | panic : Remapped s oldAddr oldLen newLen fixedAddr .panic
  | err (e : Errno) : Remapped s oldAddr oldLen newLen fixedAddr (.err e s)
  | same : Remapped s oldAddr oldLen newLen fixedAddr (.ok oldAddr s)
  | shrink {r : VPNRange} (hnone : fixedAddr = none) (hle : r.start ≤ r.stop)
      (hr : r = ⟨floorVpn (virtAddr (oldAddr + newLen)), floorVpn (virtAddr (oldAddr + oldLen))⟩) :
      Remapped s oldAddr oldLen newLen fixedAddr (.ok oldAddr (removeAreaWithOverlapRange s r))
  | extend {areas : List MapArea} {pt : PageTable} (hnone : fixedAddr = none) (hlt : oldLen < newLen)
      (hmax : oldAddr + newLen ≤ mmapMaxAddr)
      (hfree : s.ms.areaIntersects ⟨floorVpn (virtAddr (oldAddr + oldLen)),
        floorVpn (virtAddr (oldAddr + newLen))⟩ = false)
      (hstart : floorVpn (virtAddr oldAddr) < floorVpn (virtAddr (oldAddr + oldLen)))
      (hstop : floorVpn (virtAddr (oldAddr + oldLen)) ≤ floorVpn (virtAddr (oldAddr + newLen)))
      (hextend : extendAreaEnd
        ⟨floorVpn (virtAddr oldAddr), floorVpn (virtAddr (oldAddr + oldLen))⟩
        (floorVpn (virtAddr (oldAddr + newLen))) s.ms.areas s.ms.pageTable = some (areas, pt)) :
      Remapped s oldAddr oldLen newLen fixedAddr (.ok oldAddr { s with ms := s.ms.withPt pt areas })
  | move {newAddr : Nat} {middle : MapArea} {s₁ s₂ : MmState}
      (hle : floorVpn (virtAddr oldAddr) ≤ floorVpn (virtAddr (oldAddr + oldLen)))
      (hpos : 0 < newLen / pageSize) (hmax : newAddr + newLen ≤ mmapMaxAddr)
      (hdetach : detachArea s
        ⟨floorVpn (virtAddr oldAddr), floorVpn (virtAddr (oldAddr + oldLen))⟩ = some (middle, s₁))
      (hclear : s₂ = s₁ ∨ fixedAddr = some newAddr ∧ s₂ =
        removeAreaWithOverlapRange s₁ ⟨floorVpn newAddr, floorVpn (newAddr + newLen)⟩)
      (hfree : ∀ b ∈ s₂.ms.areas, b.vpnRange.intersectWith
        ⟨floorVpn newAddr, floorVpn (newAddr + newLen)⟩ = false) :
      Remapped s oldAddr oldLen newLen fixedAddr
        (placeMoved s₂ middle (floorVpn newAddr) (newLen / pageSize) newAddr)

section Remapped

variable {s : MmState} {oldAddr oldLen newLen : Nat} {fixedAddr : Option Nat}

theorem remapped_mremapFixed
    (hle : floorVpn (virtAddr oldAddr) ≤ floorVpn (virtAddr (oldAddr + oldLen)))
    (hpos : 0 < newLen / pageSize) : Remapped s oldAddr oldLen newLen (some newAddr) (mremapFixed s
      ⟨floorVpn (virtAddr oldAddr), floorVpn (virtAddr (oldAddr + oldLen))⟩ newLen newAddr) := by
  fun_cases mremapFixed s _ newLen newAddr with
  | case5 newEnd hadd hbounds newStart newRange _ middle s₁ hdetach =>
    obtain ⟨-, rfl⟩ := checkedAdd_eq_some.mp hadd
    have hmax : newAddr + newLen ≤ mmapMaxAddr := by omega
    simp only [newRange, newStart]
    rw [virtAddr_of_le (le_of_add_right_le hmax), virtAddr_of_le hmax]
    exact .move hle hpos hmax hdetach (.inr ⟨rfl, rfl⟩)
      fun b hb ↦ not_intersectWith_removeAreaWithOverlapRange hb
  | _ => exact .err _

theorem remapped_mremapMove (hgeo : Geometry s.ms.areas)
    (hle : floorVpn (virtAddr oldAddr) ≤ floorVpn (virtAddr (oldAddr + oldLen)))
    (hpos : 0 < newLen / pageSize) : Remapped s oldAddr oldLen newLen fixedAddr (mremapMove s
      ⟨floorVpn (virtAddr oldAddr), floorVpn (virtAddr (oldAddr + oldLen))⟩ newLen) := by
  fun_cases mremapMove s _ newLen with
  | case5 newAddr hchoose newEnd hadd newStart newRange hmeets middle s₁ hdetach =>
    obtain ⟨-, rfl⟩ := checkedAdd_eq_some.mp hadd
    have hmax : newAddr + newLen ≤ mmapMaxAddr := (chooseLoop_eq_ok hchoose).1
    simp only [newRange, newStart] at hmeets ⊢
    rw [virtAddr_of_le (le_of_add_right_le hmax), virtAddr_of_le hmax] at *
    obtain ⟨-, -, -, horigin⟩ := detachArea_spec hle hgeo hdetach
    refine .move hle hpos hmax hdetach (.inl rfl) fun b hb ↦ ?_
    -- the others are parts of areas that did not meet the new place
    obtain ⟨a, ha, hlo, hhi⟩ := horigin b hb
    simp only [areaIntersects, any_eq_true, not_exists, not_and, Bool.not_eq_true] at hmeets
    have hnot := intersectWith_eq_false.mp (hmeets a ha)
    refine intersectWith_eq_false.mpr ?_
    simp only [MapArea.start, MapArea.stop] at hnot hlo hhi ⊢
    omega
  | _ => exact .err _

theorem remapped_mremapRange (hgeo : Geometry s.ms.areas) (oldAddr oldLen newLen : Nat)
    (maymove : Bool) (fixedAddr : Option Nat) : Remapped s oldAddr oldLen newLen fixedAddr
      (mremapRange s oldAddr oldLen newLen maymove fixedAddr) := by
  fun_cases mremapRange s oldAddr oldLen newLen maymove fixedAddr with
  | case1 | case3 => exact .err _
  | case2 | case6 => exact .panic
  | case4 oldEnd hadd oldRange hrange hzero newAddr =>
    obtain ⟨-, rfl⟩ := checkedAdd_eq_some.mp hadd
    obtain ⟨hle, rfl⟩ := new_eq_some.mp hrange
    exact remapped_mremapFixed hle (Nat.pos_of_ne_zero (not_or.mp hzero).1)
  | case5 => exact .same
  | case7 oldEnd hadd oldRange hrange hzero heq hlt r hr =>
    obtain ⟨-, rfl⟩ := checkedAdd_eq_some.mp hadd
    obtain ⟨hle, rfl⟩ := new_eq_some.mp hr
    exact .shrink rfl hle rfl
  | case8 oldEnd hadd oldRange hrange hzero heq hlt =>
    obtain ⟨-, rfl⟩ := checkedAdd_eq_some.mp hadd
    obtain ⟨hle, rfl⟩ := new_eq_some.mp hrange
    rw [not_or] at hzero
    fun_cases mremapGrow with
    | case1 | case2 | case4 => exact .err _
    | case3 newEnd hnew extension hplace areas pt hext =>
      obtain ⟨-, rfl⟩ := checkedAdd_eq_some.mp hnew
      simp only [Bool.and_eq_true, decide_eq_true_eq, Bool.not_eq_true'] at hplace
      obtain ⟨hmax, hfree⟩ := hplace
      have holdEnd : virtAddr (oldAddr + oldLen) = oldAddr + oldLen := virtAddr_of_le (by omega)
      refine .extend rfl (by omega) hmax hfree ?_ ?_ hext
      · rw [virtAddr_of_le (by omega), holdEnd]
        have hfit := floorVpn_add_le oldAddr oldLen
        have hpages : 0 < oldLen / pageSize := Nat.pos_of_ne_zero hzero.2
        omega
      · rw [holdEnd, virtAddr_of_le hmax]
        exact floorVpn_mono (by omega)
    | case5 => exact remapped_mremapMove hgeo hle (Nat.pos_of_ne_zero hzero.1)

end Remapped

theorem geometry_mremapRange (oldAddr oldLen newLen : Nat) (maymove : Bool) (fixedAddr : Option Nat)
    (h : Geometry s.ms.areas) : (mremapRange s oldAddr oldLen newLen maymove fixedAddr).Keeps
      fun s' ↦ Geometry s'.ms.areas := by
  have hremapped := remapped_mremapRange h oldAddr oldLen newLen maymove fixedAddr
  generalize mremapRange s oldAddr oldLen newLen maymove fixedAddr = o at hremapped ⊢
  cases hremapped with
  | panic => exact keeps_panic
  | err e => exact keeps_err.mpr h
  | same => exact keeps_ok.mpr h
  | shrink _ hle _ => exact keeps_ok.mpr (geometry_removeAreaWithOverlapRange hle h)
  | extend _ _ _ hfree hlt hle hextend =>
    simp only [areaIntersects, any_eq_false, Bool.not_eq_true] at hfree
    exact keeps_ok.mpr (geometry_extendAreaEnd hlt hle hfree hextend h)
  | move hle hpos _ hdetach hclear hfree =>
    obtain ⟨hgeo, -, hwithin, -⟩ := detachArea_spec hle h hdetach
    refine geometry_placeMoved ?_ hpos hwithin hfree
    rcases hclear with rfl | ⟨-, rfl⟩
    · exact hgeo
    · exact geometry_removeAreaWithOverlapRange (floorVpn_mono (le_add_right _ _)) hgeo

/-! ### The heap -/

theorem lt_foldl_min_iff {l : List Nat} {x z : Nat} :
    z < l.foldl min x ↔ z < x ∧ ∀ y ∈ l, z < y := by
  induction l generalizing x with
  | nil => simp
  | cons y l ih => rw [foldl_cons, ih, Nat.lt_min, forall_mem_cons, and_assoc]

theorem geometry_fillHoles {cursor : Nat} (h : Geometry areas) :
    Geometry (fillHoles stop fuel cursor areas) := by
  induction fuel generalizing cursor areas with
  | zero => exact h
  | succ fuel ih =>
    simp only [fillHoles]
    split_ifs with hstop
    · exact h
    split
    · exact ih h
    rename_i hnone
    refine ih ?_
    set starts := (areas.map fun a ↦ a.vpnRange.start).filter fun start ↦
      cursor < start && start < stop with hstarts
    have hnext : cursor < starts.foldl min stop := by
      refine lt_foldl_min_iff.mpr ⟨by omega, fun y hy ↦ ?_⟩
      have := (mem_filter.mp hy).2
      simp only [Bool.and_eq_true, decide_eq_true_eq] at this
      exact this.1
    refine h.insert ⟨hnext, by simp, by simp⟩ fun b hb ↦ ?_
    show b.vpnRange.stop ≤ cursor ∨ starts.foldl min stop ≤ b.vpnRange.start
    have hout : ¬ (b.vpnRange.start ≤ cursor ∧ cursor < b.vpnRange.stop) := by
      have := find?_eq_none.mp hnone b hb
      rwa [contain_eq_true] at this
    by_cases hstart : b.vpnRange.start ≤ cursor
    · omega
    refine .inr (not_lt.mp fun hlt ↦ ?_)
    obtain ⟨hbelow, hall⟩ := lt_foldl_min_iff.mp hlt
    refine lt_irrefl _ (hall _ (mem_filter.mpr ⟨mem_map.mpr ⟨b, hb, rfl⟩, ?_⟩))
    simp only [Bool.and_eq_true, decide_eq_true_eq]
    omega

theorem canMerge_spec {left right : MapArea} (h : canMergePrivateAnonymous left right = true) :
    left.stop = right.start ∧ left.fileBacking = none := by
  simp only [canMergePrivateAnonymous, Bool.and_eq_true, beq_iff_eq, Option.isNone_iff_eq_none] at h
  exact ⟨h.1.1.1.1.1.1.1.1.1.1.1.1.1, by tauto⟩

theorem WellFormed_mergeAreas {left right : MapArea}
    (hmerge : canMergePrivateAnonymous left right = true) (hl : left.WellFormed)
    (hr : right.WellFormed) : (mergeAreas left right).WellFormed := by
  obtain ⟨htouch, hanon⟩ := canMerge_spec hmerge
  have hl' := hl.nonempty
  have hr' := hr.nonempty
  refine ⟨by show left.start < right.stop; omega, fun b hb ↦ ?_, fun v p hp ↦ ?_⟩
  · simp [mergeAreas, hanon] at hb
  · show left.start ≤ v ∧ v < right.stop
    simp only [mergeAreas, Std.ExtTreeMap.getElem?_union] at hp
    cases hright : right.dataFrames[v]? with
    | some q =>
      have := hr.keys v q hright
      omega
    | none =>
      rw [hright, Option.none_or] at hp
      have := hl.keys v p hp
      omega

theorem mergeLoop_rule {I : List MapArea → Prop}
    (hmerge : ∀ l₁ a b l₂, canMergePrivateAnonymous a b = true → I (l₁ ++ a :: b :: l₂) →
      I (l₁ ++ mergeAreas a b :: l₂)) {l : List MapArea} (h : I (l ++ a :: rest)) :
    I (l ++ mergeLoop a rest) := by
  induction rest generalizing l a with
  | nil => exact h
  | cons b rest ih =>
    simp only [mergeLoop]
    split_ifs with hcan
    · exact ih (hmerge l a b rest hcan h)
    · have hskip := ih (l := l ++ [a]) (by simpa using h)
      simpa using hskip

theorem geometry_mergeLoop (h : Geometry (a :: rest)) : Geometry (mergeLoop a rest) := by
  refine mergeLoop_rule (l := []) (fun l₁ a b l₂ hmerge h ↦ ?_) h
  obtain ⟨hwf, hordered⟩ := geometry_iff.mp h
  refine geometry_iff.mpr ⟨fun x hx ↦ ?_, ?_⟩
  · rcases mem_append_cons_iff.mp hx with rfl | hx
    · exact WellFormed_mergeAreas hmerge (hwf a (by simp)) (hwf b (by simp))
    · exact hwf x (mem_append_cons_iff.mpr (.inr (mem_append_cons_iff.mpr (.inr hx))))
  · -- the merged area starts where the left one does and ends where the right one does
    unfold OrderedAreas Ordered at hordered ⊢
    simp only [pairwise_append, pairwise_cons, forall_mem_cons] at hordered ⊢
    obtain ⟨h₁, ⟨-, hb, h₂⟩, hcross⟩ := hordered
    exact ⟨h₁, ⟨hb, h₂⟩, fun x hx ↦ ⟨(hcross x hx).1, (hcross x hx).2.2⟩⟩

theorem geometry_mergeAdjacent (h : Geometry areas) : Geometry (mergeAdjacent areas) := by
  have hsorted : sortAreas areas = areas := h.sorted.insertionSort_eq
  unfold mergeAdjacent
  rw [hsorted]
  cases areas with
  | nil => exact h
  | cons a rest => exact geometry_mergeLoop h

theorem geometry_ensurePrivateWritableAnonymousRange (r : VPNRange) (h : Geometry s.ms.areas) :
    (ensurePrivateWritableAnonymousRange s r).Keeps fun s' ↦ Geometry s'.ms.areas := by
  unfold ensurePrivateWritableAnonymousRange
  split_ifs
  · exact keeps_err.mpr h
  · exact keeps_ok.mpr (geometry_mergeAdjacent (geometry_fillHoles h))

/-! ### Faults -/

theorem expandGrowsDown_spec {ms' : MemorySet} (h : ms.expandGrowsDown vpn userSp = some (idx, ms')) :
    ∃ l₁ a l₂, ms.areas = l₁ ++ a :: l₂ ∧ l₁.length = idx ∧ a.growsDown = true ∧
      a.vpnRange.start = vpn + 1 ∧
      ms' = { ms with areas := l₁ ++ { a with vpnRange := ⟨vpn, a.vpnRange.stop⟩ } :: l₂ } := by
  revert h
  fun_cases expandGrowsDown ms vpn userSp with
  | case5 sp hsp i hfind =>
    intro h
    obtain ⟨hi, hsat, -⟩ := findIdx?_eq_some_iff_getElem.mp hfind
    simp only [Bool.and_eq_true, beq_iff_eq] at hsat
    simp only [getElem?_eq_getElem hi, Option.map_some, setArea, Option.some.injEq,
      Prod.mk.injEq] at h
    obtain ⟨rfl, rfl⟩ := h
    obtain ⟨l₁, l₂, hareas, hlength, hset⟩ := exists_split (getElem?_eq_getElem hi)
    exact ⟨l₁, ms.areas[i], l₂, hareas, hlength, hsat.1, hsat.2, by rw [hset]⟩
  | _ => exact nofun

theorem geometry_expandGrowsDown {ms' : MemorySet}
    (hout : ∀ a ∈ ms.areas, a.vpnRange.contain vpn = false)
    (h : ms.expandGrowsDown vpn userSp = some (idx, ms')) (hgeo : Geometry ms.areas) :
    Geometry ms'.areas := by
  obtain ⟨l₁, a, l₂, hareas, -, -, hstart, rfl⟩ := expandGrowsDown_spec h
  rw [hareas] at hgeo hout
  obtain ⟨hwf, hordered⟩ := geometry_iff.mp hgeo
  have ha := hwf a (by simp)
  have hastart : a.start = vpn + 1 := hstart
  have hne := ha.nonempty
  have hgrown : ({ a with vpnRange := ⟨vpn, a.vpnRange.stop⟩ } : MapArea).WellFormed := by
    refine ⟨by show vpn < a.stop; omega, fun b hb ↦ ?_, fun v p hp ↦ ?_⟩
    · exact (ha.window b hb).trans (mul_le_mul_right _ (by show _ ≤ a.stop - vpn; omega))
    · obtain ⟨hlo, hhi⟩ := ha.keys v p hp
      exact ⟨by show vpn ≤ v; omega, hhi⟩
  rw [append_cons]
  refine hgeo.splice (by simpa using hgrown) (pairwise_singleton _ _) (fun b hb x hx ↦ ?_)
    fun x hx b hb ↦ ?_
  · have hba := hordered.before hb
    have hb' := (hwf b (mem_append_left _ hb)).nonempty
    have hnot := hout b (mem_append_left _ hb)
    rw [← Bool.not_eq_true, contain_eq_true] at hnot
    rw [mem_singleton.mp hx]
    simp only [MapArea.start, MapArea.stop] at hba hb' hastart ⊢
    omega
  · rw [mem_singleton.mp hx]
    exact hordered.behind hb

/-- The rule of a fault in an area: a frame of the area may be new, or only the page table and what is
reserved in the file change. -/
theorem faultInArea_rule
    (hmap : ∀ r a' ps, a.mapOne ⟨s.ms.pageTable, s.k⟩ io (s.ms.pins others) vpn = (r, a', ps) →
      P (afterArea s idx a' ps))
    (hreplace : ∀ data r a' ps, a.replaceFrame ⟨s.ms.pageTable, s.k⟩ vpn data = (r, a', ps) →
      P (afterArea s idx a' ps))
    (hsame : ∀ pt k, (k = s.k ∨ ∃ f offset data, k = (s.k.reserveSharedMmapWrite io f offset data).2) →
      P ⟨{ s.ms with pageTable := pt }, k⟩) :
    (faultInArea s others io cause idx a vpn).Keeps P := by
  have hrefl : P s := hsame _ _ (.inl rfl)
  unfold faultInArea
  split
  · exact keeps_err.mpr hrefl
  split
  · fun_cases lazyFault s others io cause idx a vpn
    · exact keeps_err.mpr hrefl
    · exact keeps_err.mpr (hmap _ _ _ (by assumption))
    · exact keeps_ok.mpr (hmap _ _ _ (by assumption))
  split
  · fun_cases cowFault s others idx a vpn with
    | case1 | case2 | case3 => exact keeps_err.mpr hrefl
    | case4 => exact keeps_ok.mpr (hsame _ _ (.inl rfl))
    | case5 => exact keeps_err.mpr (hreplace _ _ _ _ (by assumption))
    | case6 => exact keeps_ok.mpr (hreplace _ _ _ _ (by assumption))
  split
  · fun_cases mkwriteFault s io a _ vpn with
    | case5 =>
      exact keeps_err.mpr (hsame _ _ (.inr ⟨_, _, _, congrArg Prod.snd (Eq.symm (by assumption))⟩))
    | case6 =>
      exact keeps_ok.mpr (hsame _ _ (.inr ⟨_, _, _, congrArg Prod.snd (Eq.symm (by assumption))⟩))
    | _ => exact keeps_err.mpr hrefl
  · split
    · exact keeps_ok.mpr hrefl
    · exact keeps_err.mpr hrefl

theorem geometry_faultInArea (ha : s.ms.areas[idx]? = some a) (hin : a.vpnRange.contain vpn = true)
    (h : Geometry s.ms.areas) :
    (faultInArea s others io cause idx a vpn).Keeps fun s' ↦ Geometry s'.ms.areas := by
  have hwf : a.WellFormed := h.wellFormed (mem_of_getElem? ha)
  have hafter : ∀ {d : Std.ExtTreeMap Nat Nat} {ps : PtState},
      (∀ v p : Nat, d[v]? = some p → v = vpn ∨ ∃ q, a.dataFrames[v]? = some q) →
      Geometry (afterArea s idx (a.withFrames d) ps).ms.areas := by
    intro d ps hd
    refine h.set ha (hwf.withFrames fun v p hp ↦ ?_) rfl rfl
    rcases hd v p hp with rfl | ⟨q, hq⟩
    · exact contain_eq_true.mp hin
    · exact hwf.keys v q hq
  refine faultInArea_rule (fun r a' ps hone ↦ ?_) (fun data r a' ps hone ↦ ?_) fun _ _ _ ↦ h
  · obtain ⟨d, rfl, hd⟩ := MapArea.within_mapOne hone
    exact hafter hd
  · obtain ⟨d, rfl, hd, -⟩ := MapArea.within_replaceFrame hone
    exact hafter hd

/-- What `handle_page_fault` does: nothing, the fault in the area that contains the page, or the fault in
an area that has grown down to it. -/
theorem keeps_handlePageFault {stval : Nat} (hsame : P s)
    (hin : ∀ idx a, s.ms.areas[idx]? = some a →
      a.vpnRange.contain (floorVpn (virtAddr stval)) = true →
      (faultInArea s others io cause idx a (floorVpn (virtAddr stval))).Keeps P)
    (hgrown : ∀ idx ms a,
      (∀ a ∈ s.ms.areas, a.vpnRange.contain (floorVpn (virtAddr stval)) = false) →
      s.ms.expandGrowsDown (floorVpn (virtAddr stval)) userSp = some (idx, ms) →
      ms.areas[idx]? = some a → a.vpnRange.start = floorVpn (virtAddr stval) →
      (faultInArea { s with ms := ms } others io cause idx a (floorVpn (virtAddr stval))).Keeps P) :
    (handlePageFault s others io cause stval userSp).Keeps P := by
  fun_cases handlePageFault s others io cause stval userSp with
  | case2 _ vpn idx hfind a ha =>
    obtain ⟨hi, hcontain, -⟩ := findIdx?_eq_some_iff_getElem.mp hfind
    obtain ⟨_, rfl⟩ := List.getElem?_eq_some_iff.mp ha
    exact hin idx _ ha hcontain
  | case5 _ vpn hnone idx ms hexpand x hx =>
    obtain ⟨l₁, a, l₂, -, hlen, -, -, hms⟩ := expandGrowsDown_spec hexpand
    refine hgrown idx ms x (findIdx?_eq_none_iff.mp hnone) hexpand hx ?_
    subst hms hlen
    simp only [getElem?_append_right (Nat.le_refl _), Nat.sub_self,
      getElem?_cons_zero, Option.some.injEq] at hx
    rw [← hx]
  | case1 | case3 | case4 | case6 => exact keeps_err.mpr hsame

theorem contain_of_start (h : Geometry areas) (ha : areas[idx]? = some a)
    (hstart : a.vpnRange.start = vpn) : a.vpnRange.contain vpn = true := by
  have hne := (h.wellFormed (mem_of_getElem? ha)).nonempty
  exact contain_eq_true.mpr ⟨le_of_eq hstart, hstart ▸ hne⟩

theorem geometry_handlePageFault (others : Nat → Nat) (io : IoEnv) (cause : PageFaultCause)
    (stval : Nat) (userSp : Option Nat) (h : Geometry s.ms.areas) :
    (handlePageFault s others io cause stval userSp).Keeps fun s' ↦ Geometry s'.ms.areas := by
  refine keeps_handlePageFault h (fun _ _ ha hcontain ↦ geometry_faultInArea ha hcontain h) ?_
  intro idx ms a hout hexpand ha hstart
  have hgeo := geometry_expandGrowsDown hout hexpand h
  exact geometry_faultInArea ha (contain_of_start hgeo ha hstart) hgeo

end MemorySet

/-- From areas that are non-empty, sorted, disjoint, with fitting file windows and with records of
their own pages, every operation leads to such areas again, whether it succeeds or fails. -/
theorem geometry_runOp (env : OpEnv) (s : MmState) (op : Op) (h : Geometry s.ms.areas) :
    (runOp env s op).Keeps fun s' ↦ Geometry s'.ms.areas := by
  cases op with
  | mmap req source => exact Outcome.keeps_void.mpr (geometry_mmap env req source h)
  | munmap addr mapLen => exact geometry_munmapRange addr mapLen h
  | mremap oldAddr oldLen newLen maymove fixedAddr =>
    exact Outcome.keeps_void.mpr (geometry_mremapRange oldAddr oldLen newLen maymove fixedAddr h)
  | mprotect r perm => exact geometry_remapAreaWithOverlapRange r.nonempty perm h
  | setLocked r | adviseFork r | adviseDontfork r =>
    exact keeps_checked _ h
      (geometry_setMiddle r.nonempty (fun _ ↦ rfl) (fun a ha ↦ { ha with }) h)
  | dontneed r => exact geometry_madviseDontneed r.toVPNRange h
  | growHeap r => exact geometry_ensurePrivateWritableAnonymousRange r.toVPNRange h
  | fault cause stval userSp =>
    exact Outcome.keeps_void.mpr (geometry_handlePageFault env.others env.io cause stval userSp h)

/-- An operation that returns Ok leaves areas with the four properties it started from. -/
theorem geometry_of_runOp_eq_ok (env : OpEnv) (s s' : MmState) (op : Op)
    (hgeo : Geometry s.ms.areas) (hok : runOp env s op = .ok () s') : Geometry s'.ms.areas := by
  refine geometry_runOp env s op hgeo s' ?_
  rw [hok]
  rfl

/-- An address space with one private anonymous area of four pages at the start of the mapping
window, with nothing resident. -/
def fourPageState : MmState where
  ms :=
    { pageTable := .fromKernel 1
      areas := [{ vpnRange := ⟨0x2000000, 0x2000004⟩, mapPerm := .rwu }] }
  k := .boot [] (fun _ ↦ .empty) (fun _ ↦ { object := .memfd 0 }) (fun _ ↦ { data := .empty })
    (fun _ ↦ .empty) 2

/-- Unmapping the two inner pages of the area splits it. -/
theorem geometry_after_inner_munmap :
    ∃ s', runOp ⟨fun _ ↦ 0, {}⟩ fourPageState (.munmap 0x2000001000 0x2000) = .ok () s' ∧
      Geometry s'.ms.areas := by
  have hok : (runOp ⟨fun _ ↦ 0, {}⟩ fourPageState (.munmap 0x2000001000 0x2000)).isOk = true := by
    decide +kernel
  obtain ⟨⟨⟩, s', hs'⟩ := Outcome.eq_ok_of_isOk hok
  have hgeo : Geometry fourPageState.ms.areas :=
    ⟨by decide, pairwise_singleton _ _, pairwise_singleton _ _, by simp [fourPageState],
      by simp [fourPageState]⟩
  exact ⟨s', hs', geometry_of_runOp_eq_ok _ _ s' _ hgeo hs'⟩

end RespOS.Mm
