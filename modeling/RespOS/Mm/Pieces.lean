import RespOS.Mm.ForkSpec

/-!
# What is left of the areas

`Effect` follows the resident pages of an operation. An account that is kept per area, such as the table
of System V attachments, needs two facts more: which areas are left at all, and that what is left of an
area has every page that the area had there (`MapArea.PieceOf`).

`Recuts gone areas areas'` says both for operations that only cut areas; `gone` are the areas that may
disappear. It holds of `remove_area_with_overlap_range` with the areas inside the range
(`recuts_removeAreaWithOverlapRange`), and so of `munmap` and, but for the new area, of `mmap`
(`ensures_mmap`). The child of a fork has a whole piece for every area that is not wiped
(`pieceOf_fork`).

The frames of a segment fill the new area where its bounds are page-aligned (`Aligned`), as they are
in every request of `sys_mmap` and `sys_shmat`.
-/

namespace RespOS.Mm

open RespOS.Basis RespOS.Fs List VPNRange Option MapArea Except Nat

/-! ### Pieces -/

/-- The area is what is left of another one on a part of its range, with every page it had there. -/
structure MapArea.PieceOf (a' a : MapArea) : Prop where
  shmAttachId : a'.shmAttachId = a.shmAttachId
  wipeOnFork : a'.wipeOnFork = a.wipeOnFork
  start_le : a.start ≤ a'.start
  stop_le : a'.stop ≤ a.stop
  pages : ∀ v, a'.start ≤ v → v < a'.stop → a'.dataFrames[v]? = a.dataFrames[v]?

theorem MapArea.PieceOf.refl (a : MapArea) : a.PieceOf a :=
  ⟨rfl, rfl, le_refl _, le_refl _, fun _ _ _ ↦ rfl⟩

/-- The area lies inside the range. -/
def MapArea.Inside (a : MapArea) (r : VPNRange) : Prop := r.start ≤ a.start ∧ a.stop ≤ r.stop

/-- Areas have been cut, and only some of those in `gone` have disappeared. -/
structure Recuts (gone : MapArea → Prop) (areas areas' : List MapArea) : Prop where
  piece : ∀ a' ∈ areas', ∃ a ∈ areas, a'.PieceOf a
  kept : ∀ a ∈ areas, ¬ gone a → ∃ a' ∈ areas', a'.PieceOf a

theorem Recuts.refl (gone : MapArea → Prop) (areas : List MapArea) : Recuts gone areas areas :=
  ⟨fun a ha ↦ ⟨a, ha, .refl a⟩, fun a ha _ ↦ ⟨a, ha, .refl a⟩⟩

variable {areas : List MapArea} {r : VPNRange} {a : MapArea} {s : MmState} {mapLen start stop : Nat}
  {ms : MemorySet} {req : MmapRequest} {io : IoEnv} {ext : Nat → Nat} {backing : MmapBacking}

theorem Recuts.mono {gone gone' : MapArea → Prop} {areas' : List MapArea}
    (h : Recuts gone areas areas') (himp : ∀ a, gone a → gone' a) : Recuts gone' areas areas' :=
  ⟨h.piece, fun a ha hnot ↦ h.kept a ha fun hgone ↦ hnot (himp a hgone)⟩

namespace MapArea

variable {a x : MapArea} {lo hi : Nat}

theorem pieceOf_left (hlo : lo ≤ a.stop) (hx : x ∈ (a.splitByOverlap lo hi).left) : x.PieceOf a := by
  obtain ⟨-, rfl⟩ := mem_left.mp hx
  refine ⟨rfl, rfl, le_refl _, hlo, fun v _ hv ↦ ?_⟩
  have hv : v < lo := hv
  rw [getElem?_dataFrames_part]
  simp [hv]

theorem pieceOf_right (hhi : a.start ≤ hi) (hx : x ∈ (a.splitByOverlap lo hi).right) :
    x.PieceOf a := by
  obtain ⟨-, rfl⟩ := mem_right.mp hx
  refine ⟨rfl, rfl, hhi, le_refl _, fun v hv _ ↦ ?_⟩
  have hv : hi ≤ v := hv
  rw [getElem?_dataFrames_part]
  simp [hv]

end MapArea

namespace MemorySet

theorem pieceOf_outside {x : MapArea} (hle : r.start ≤ r.stop) (hwf : a.WellFormed)
    (hx : x ∈ outside r a) : x.PieceOf a := by
  unfold outside at hx
  split at hx
  · rename_i hmeet
    rcases overlap_bounds hwf hle hmeet with ⟨hlo, hlohi, hhi, -⟩
    rcases mem_append.mp hx with hx | hx
    · exact pieceOf_left (le_trans hlohi hhi) (mem_toList.mp hx)
    · exact pieceOf_right (le_trans hlo hlohi) (mem_toList.mp hx)
  · rw [mem_singleton.mp hx]
    exact .refl a

theorem exists_outside (hout : ¬ a.Inside r) : ∃ x, x ∈ outside r a := by
  unfold outside
  split
  · rename_i hmeet
    rcases intersectWith_eq_true.mp hmeet with ⟨h₁, h₂⟩
    by_cases hstart : a.vpnRange.start < r.start
    · exact ⟨_, mem_append_left _ (mem_toList.mpr (if_pos (by omega)))⟩
    have hstop : r.stop < a.vpnRange.stop := by
      by_contra hnot
      exact hout ⟨not_lt.mp hstart, not_lt.mp hnot⟩
    exact ⟨_, mem_append_right _ (mem_toList.mpr (if_pos (by omega)))⟩
  · exact ⟨a, mem_singleton.mpr rfl⟩

theorem recuts_removeAreaWithOverlapRange (hle : r.start ≤ r.stop) (hgeo : Geometry s.ms.areas) :
    Recuts (fun a ↦ a.Inside r) s.ms.areas (removeAreaWithOverlapRange s r).ms.areas := by
  rw [areas_removeAreaWithOverlapRange]
  refine ⟨fun x hx ↦ ?_, fun a ha hout ↦ ?_⟩
  · rcases mem_flatMap.mp hx with ⟨a, ha, hx⟩
    exact ⟨a, ha, pieceOf_outside hle (hgeo.wellFormed ha) hx⟩
  · rcases exists_outside hout with ⟨x, hx⟩
    exact ⟨x, mem_flatMap.mpr ⟨a, ha, hx⟩, pieceOf_outside hle (hgeo.wellFormed ha) hx⟩

theorem keeps_munmapRange {addr : Nat} (hgeo : Geometry s.ms.areas) (haddr : addr % pageSize = 0)
    (hstart : s.ms.mmapStart % pageSize = 0) : (munmapRange s addr mapLen).Keeps fun s' ↦
      Recuts (fun a ↦ a.Inside (byteRange addr (addr + mapLen))) s.ms.areas s'.ms.areas ∧
        s'.ms.mmapStart % pageSize = 0 := by
  refine munmapRange_rule ⟨.refl _ _, hstart⟩ fun r mmapStart hr hle hkept ↦ ?_
  subst hr
  refine ⟨recuts_removeAreaWithOverlapRange hle hgeo, ?_⟩
  rcases hkept with rfl | rfl
  · exact haddr
  · exact hstart

end MemorySet

/-! ### Mapping -/

/-- The request has page-aligned bounds. -/
def MmapRequest.Aligned (req : MmapRequest) : Prop :=
  (∀ addr, req.addr = some addr → addr % pageSize = 0) ∧ req.mapLen % pageSize = 0

/-- The areas that a request removes: those inside its range, if it replaces. -/
def MmapRequest.Removes (req : MmapRequest) (ms : MemorySet) (a : MapArea) : Prop :=
  req.replace = true ∧ ∃ start, ms.firstStart req = .ok start ∧
    a.Inside (MemorySet.byteRange start (start + req.mapLen))

/-- The attach id and the frames of the area that a backing makes. -/
def MmapBacking.attachment : MmapBacking → Option (Nat × List Nat)
  | .sharedFrames attachId frames => some (attachId, frames)
  | _ => none

/-- The attach id and the frames of the area that a source makes. -/
def MapSource.attachment : MapSource → Option (Nat × List Nat)
  | .segment attachId frames => some (attachId, frames)
  | _ => none

/-- The new area of a mapping: the frames of an attachment fill it. -/
structure NewArea (attachment : Option (Nat × List Nat)) (x : MapArea) : Prop where
  attachId : x.shmAttachId = attachment.map Prod.fst
  wipeOnFork : x.wipeOnFork = false
  filled : ∀ attachId frames, attachment = some (attachId, frames) →
    ∀ v, x.start ≤ v → v < x.stop → ∃ p ∈ frames, x.dataFrames[v]? = some p

/-- The areas of an address space once those in the way of a request have been cut. -/
structure ClearedFor (req : MmapRequest) (ms ms' : MemorySet) : Prop where
  mmapStart : ms'.mmapStart % pageSize = 0
  recuts : Recuts (req.Removes ms) ms.areas ms'.areas

/-- The areas of an address space after a request has succeeded. -/
structure MappedFor (req : MmapRequest) (attachment : Option (Nat × List Nat))
    (ms ms' : MemorySet) : Prop where
  mmapStart : ms'.mmapStart % pageSize = 0
  areas : ∃ areas x, Recuts (req.Removes ms) ms.areas areas ∧ NewArea attachment x ∧
    ∀ a, a ∈ ms'.areas ↔ a ∈ areas ∨ a = x

namespace MemorySet

theorem usizeOfVpn_aligned (vpn : Nat) : usizeOfVpn vpn % pageSize = 0 := by
  unfold usizeOfVpn pageSize vaWidth usizeSize
  dsimp only
  split <;> omega

theorem chooseMmapStart_aligned {addr : Option Nat} (haddr : ∀ x, addr = some x → x % pageSize = 0)
    (hms : ms.mmapStart % pageSize = 0) (h : ms.chooseMmapStart addr mapLen = .ok start) :
    start % pageSize = 0 := by
  unfold chooseMmapStart at h
  split at h
  · exact ok.inj h ▸ haddr _ rfl
  · obtain ⟨-, rfl | ⟨vpn, rfl⟩⟩ := chooseLoop_eq_ok h
    · exact hms
    · exact usizeOfVpn_aligned vpn

theorem firstStart_aligned (hreq : req.Aligned) (hms : ms.mmapStart % pageSize = 0)
    (h : ms.firstStart req = .ok start) : start % pageSize = 0 := by
  unfold firstStart at h
  split at h
  · simp at h
  rename_i start₀ hchoose
  have hif : ∀ b : Bool, (if b then ms.chooseMmapStart none req.mapLen else .ok start₀) = .ok start →
      start % pageSize = 0 := by
    intro b hb
    split at hb
    · exact chooseMmapStart_aligned (by simp) hms hb
    · exact ok.inj hb ▸ chooseMmapStart_aligned hreq.1 hms hchoose
  exact hif _ h

theorem secondStart_aligned {start' stop' : Nat} (hms : ms.mmapStart % pageSize = 0)
    (hstart : start % pageSize = 0) (h : ms.secondStart req start stop = .ok (start', stop')) :
    start' % pageSize = 0 := by
  revert h
  fun_cases ms.secondStart req start stop with
  | case3 _ start₀ hchoose =>
    rintro ⟨⟩
    exact chooseMmapStart_aligned (by simp) hms hchoose
  | case4 =>
    rintro ⟨⟩
    exact hstart
  | _ => rintro ⟨⟩

theorem prepareMmap_aligned {s' : MmState} (hreq : req.Aligned)
    (hms : s.ms.mmapStart % pageSize = 0) (h : prepareMmap s req = .ok (start, stop) s') :
    start % pageSize = 0 := by
  revert h
  fun_cases prepareMmap s req with
  | case6 start₀ hfirst _ stop₀ _ start₁ stop₁ hsecond
  | case8 start₀ hfirst _ stop₀ _ start₁ stop₁ hsecond =>
    rintro ⟨⟩
    exact secondStart_aligned hms (firstStart_aligned hreq hms hfirst) hsecond
  | _ => exact nofun

theorem length_vpns_byteRange (hstart : start % pageSize = 0) (hlen : mapLen % pageSize = 0)
    (hmax : start + mapLen ≤ mmapMaxAddr) :
    (byteRange start (start + mapLen)).vpns.length = mapLen / pageSize := by
  simp only [byteRange, vpns, length_range']
  rw [virtAddr_of_le hmax, virtAddr_of_le (by omega)]
  unfold floorVpn ceilVpn
  simp only [pageSize] at hstart hlen ⊢
  omega

theorem mem_sortAreas : a ∈ sortAreas areas ↔ a ∈ areas := (perm_insertionSort _ areas).mem_iff

theorem filled_of_installGiven {flags : PTEFlags} {frames : List Nat} {ps ps' : PtState}
    {d : Std.ExtTreeMap Nat Nat} (hlength : frames.length = r.vpns.length)
    (h : installGiven flags (r.vpns.zip frames) [] ∅ ps = (.ok d, ps')) {v : Nat}
    (hv : r.start ≤ v ∧ v < r.stop) : ∃ p ∈ frames, d[v]? = some p := by
  rcases mem_iff_getElem.mp (mem_vpns.mpr hv) with ⟨i, hi, rfl⟩
  have hi' : i < frames.length := hlength ▸ hi
  refine ⟨frames[i], getElem_mem hi', ?_⟩
  rw [getElem?_installGiven (nodup_map_fst_zip (nodup_vpns _) frames) h, mem_iff_getElem]
  exact ⟨i, by simp [hi, hi'], getElem_zip⟩

theorem ensures_installArea (hk : s.k.WellFormed)
    (hlength : ∀ attachId frames, backing = .sharedFrames attachId frames →
      frames.length = (byteRange start stop).vpns.length) :
    (installArea s io ext req backing start stop).Ensures
      (fun _ s' ↦ s'.ms.mmapStart = (if req.addr.isNone then stop else s.ms.mmapStart) ∧
        ∃ x, NewArea backing.attachment x ∧ s'.ms.areas = sortAreas (s.ms.areas ++ [x]))
      fun s' ↦ s'.ms.mmapStart = s.ms.mmapStart ∧ s'.ms.areas = s.ms.areas := by
  fun_cases installArea s io ext req backing start stop with
  | case1 | case6 | case9 => exact ⟨rfl, _, ⟨rfl, rfl, by rintro _ _ ⟨⟩⟩, rfl⟩
  | case2 => trivial
  | case3 ps x ps' hmap =>
    rcases mapEach_spec hk rfl (nodup_vpns _) hmap with ⟨-, d, rfl, -⟩
    exact ⟨rfl, _, ⟨rfl, rfl, by rintro _ _ ⟨⟩⟩, rfl⟩
  | case4 | case7 | case8 => exact ⟨rfl, rfl⟩
  | case5 ps attachId frames a d ps' hinstall =>
    refine ⟨rfl, _, ⟨rfl, rfl, ?_⟩, rfl⟩
    intro attachId' frames' heq v hlo hhi
    rw [← (Prod.mk.inj (some.inj heq)).2]
    exact filled_of_installGiven (hlength attachId frames rfl) hinstall ⟨hlo, hhi⟩

theorem ensures_mmapArea (hgeo : Geometry s.ms.areas) (hk : s.k.WellFormed) (hreq : req.Aligned)
    (hstart : s.ms.mmapStart % pageSize = 0) : (mmapArea s io ext req backing).Ensures
      (fun _ s' ↦ MappedFor req backing.attachment s.ms s'.ms) fun s' ↦ ClearedFor req s.ms s'.ms := by
  have hsame : ClearedFor req s.ms s.ms := ⟨hstart, .refl _ _⟩
  rcases mmapArea_cases s io ext req backing with
    ⟨e, he⟩ | ⟨start, stop, s₁, heq, hlength, hprepare, hstop, hmax, hs₁, -⟩
  · rw [he]
    exact hsame
  rw [heq]
  have hcleared : ClearedFor req s.ms s₁.ms ∧ s₁.k.WellFormed := by
    rcases hs₁ with ⟨hreplace, hfirst, rfl⟩ | rfl
    · have hne := (byteRange_window req.mapLen_pos hstop hmax).1
      have hrecuts := recuts_removeAreaWithOverlapRange hne.le hgeo
      refine ⟨⟨hstart, hrecuts.mono fun a hin ↦ ⟨hreplace, start, hfirst, hstop ▸ hin⟩⟩, ?_⟩
      exact (obtains_removeAreaWithOverlapRange hk : s.k.Obtains (fun _ ↦ 0) _).1
    · exact ⟨hsame, hk⟩
  have haligned := prepareMmap_aligned hreq hstart hprepare
  have hpages : (byteRange start stop).vpns.length = req.mapLen / pageSize := by
    rw [hstop]
    exact length_vpns_byteRange haligned hreq.2 (hstop ▸ hmax)
  have hinstalled : (installArea s₁ io ext req backing start stop).Ensures _ _ :=
    ensures_installArea hcleared.2 fun attachId frames hbacking ↦
      (hlength attachId frames hbacking).trans hpages.symm
  refine hinstalled.mono ?_ ?_
  · rintro _ s' ⟨hms, x, hx, hareas⟩
    refine ⟨?_, s₁.ms.areas, x, hcleared.1.recuts, hx, fun a ↦ ?_⟩
    · rw [hms]
      split
      · have hlen := hreq.2
        simp only [pageSize] at haligned hlen ⊢
        omega
      · exact hcleared.1.mmapStart
    · rw [hareas, mem_sortAreas, mem_append, mem_singleton]
  · rintro s' ⟨hms, hareas⟩
    exact ⟨hms ▸ hcleared.1.mmapStart, hareas ▸ hcleared.1.recuts⟩

theorem attachment_mmapFileBacking {k k' : Kernel} {f offset : Nat} {shared : Bool}
    (h : mmapFileBacking k io ext f offset mapLen shared = (.ok backing, k')) :
    backing.attachment = none := by
  revert h
  fun_cases mmapFileBacking k io ext f offset mapLen shared with
  | case3 | case4 =>
    rintro ⟨⟩
    rfl
  | _ => rintro ⟨⟩

theorem ensures_mmap {env : OpEnv} {source : MapSource} (hgeo : Geometry s.ms.areas)
    (hk : s.k.WellFormed) (hreq : req.Aligned) (hstart : s.ms.mmapStart % pageSize = 0) :
    (mmap s env req source).Ensures (fun _ s' ↦ MappedFor req source.attachment s.ms s'.ms)
      fun s' ↦ ClearedFor req s.ms s'.ms := by
  have hsame : ClearedFor req s.ms s.ms := ⟨hstart, .refl _ _⟩
  unfold mmap
  cases source with
  | anonymous shared => cases shared <;> exact ensures_mmapArea hgeo hk hreq hstart
  | segment attachId frames => exact ensures_mmapArea hgeo hk hreq hstart
  | file f offset shared =>
    dsimp only
    split
    · exact hsame
    split
    · exact hsame
    split
    · exact hsame
    rename_i backing k hbacking
    have hmapped : (mmapArea { s with k := k } env.io (s.ms.pins env.others) req backing).Ensures
        _ _ := ensures_mmapArea hgeo (mmapFileBacking_spec hk hbacking).1.1 hreq hstart
    rw [attachment_mmapFileBacking hbacking] at hmapped
    exact hmapped

/-! ### Fork -/

theorem copied_forkPage {vpn ppn : Nat} {pte : PageTableEntry} {st st' : ForkState}
    {r : Except Errno Unit} (h : forkPage a vpn ppn pte st = (r, st')) :
    st'.copied = st.copied := by
  unfold forkPage at h
  dsimp only at h
  split at h <;> simp only [Prod.mk.injEq] at h <;> rw [← h.2]

theorem forkPages_complete {vpns : List Nat} {frames frames' : Std.ExtTreeMap Nat Nat}
    {st st' : ForkState} (hnodup : vpns.Nodup) (hnew : ∀ v ∈ vpns, v ∉ st.copied)
    (h : forkPages a vpns frames st = .ok frames' st') :
    (∀ v ∈ st'.copied, v ∈ st.copied ∨ v ∈ vpns) ∧ (a.wipeOnFork = false → ∀ v, frames'[v]? =
      (if v ∈ vpns then a.dataFrames[v]? else none).or frames[v]?) := by
  fun_induction forkPages a vpns frames st with
  | case1 =>
    obtain ⟨rfl, rfl⟩ := Outcome.ok.inj h
    simp
  | case2 vpn vpns frames st hnone ih =>
    obtain ⟨hcopied, hframes⟩ :=
      ih (nodup_cons.mp hnodup).2 (fun v hv ↦ hnew v (mem_cons_of_mem _ hv)) h
    refine ⟨fun v hv ↦ (hcopied v hv).imp_right (mem_cons_of_mem _), fun hwipe v ↦ ?_⟩
    have hfirst : a.dataFrames[vpn]? = none := by
      have hfresh := hnew vpn mem_cons_self
      simpa [hwipe, hfresh] using hnone
    rw [hframes hwipe v]
    by_cases hv : v = vpn
    · subst hv
      simp [hfirst]
    · simp [hv]
  | case3 | case4 => cases h
  | case5 vpn vpns frames st ppn hsome pte hpte st₁ hpage ih =>
    obtain ⟨hnotin, hnodup⟩ := nodup_cons.mp hnodup
    have hst₁ := copied_forkPage hpage
    have hnew' : ∀ v ∈ vpns, v ∉ st₁.copied := by
      intro v hv hmem
      rw [hst₁, mem_append, mem_singleton] at hmem
      rcases hmem with hmem | rfl
      · exact hnew v (mem_cons_of_mem _ hv) hmem
      · exact hnotin hv
    obtain ⟨hcopied, hframes⟩ := ih hnodup hnew' h
    refine ⟨fun v hv ↦ ?_, fun hwipe v ↦ ?_⟩
    · rcases hcopied v hv with hold | hnew
      · rw [hst₁, mem_append, mem_singleton] at hold
        rcases hold with hold | rfl
        · exact .inl hold
        · exact .inr mem_cons_self
      · exact .inr (mem_cons_of_mem _ hnew)
    · have hfirst : a.dataFrames[vpn]? = some ppn := by
        have hfresh := hnew vpn mem_cons_self
        simpa [hwipe, hfresh] using hsome
      rw [hframes hwipe v, Std.ExtTreeMap.getElem?_insert]
      by_cases hv : v = vpn
      · subst hv
        simp [hfirst, hnotin]
      · have hne : ¬ compare vpn v = .eq := by
          simpa [Nat.compare_eq_eq] using fun heq : vpn = v ↦ hv heq.symm
        simp [hv, hne]

theorem forkAreas_pieces {todo areas' : List MapArea} {st st' : ForkState} (hgeo : Geometry todo)
    (hnew : ∀ a ∈ todo, ∀ v ∈ st.copied, ¬ (a.start ≤ v ∧ v < a.stop))
    (h : forkAreas todo areas st = .ok areas' st') :
    ∀ c ∈ areas', c ∈ areas ∨ ∃ a ∈ todo, c.shmAttachId = a.shmAttachId ∧
      (a.wipeOnFork = false → c.PieceOf a) := by
  induction todo generalizing areas st with
  | nil =>
    simp only [forkAreas, Outcome.ok.injEq] at h
    rw [← h.1]
    exact fun c hc ↦ .inl hc
  | cons a rest ih =>
    have hrestgeo : Geometry rest := Geometry.drop (show Geometry ([] ++ a :: rest) from hgeo)
    have hrest : ∀ b ∈ rest, ∀ v ∈ st.copied, ¬ (b.start ≤ v ∧ v < b.stop) := fun b hb ↦
      hnew b (mem_cons_of_mem a hb)
    rw [forkAreas] at h
    split at h
    · intro c hc
      rcases ih hrestgeo hrest h c hc with hold | ⟨b, hb, hpiece⟩
      · exact .inl hold
      · exact .inr ⟨b, mem_cons_of_mem a hb, hpiece⟩
    split at h
    · simp at h
    · simp at h
    rename_i frames st₁ hpages
    have hfresh : ∀ v ∈ a.vpnRange.vpns, v ∉ st.copied := fun v hv hmem ↦
      hnew a mem_cons_self v hmem (mem_vpns.mp hv)
    rcases forkPages_complete (nodup_vpns _) hfresh hpages with ⟨hcopied, hframes⟩
    have hrest' : ∀ b ∈ rest, ∀ v ∈ st₁.copied, ¬ (b.start ≤ v ∧ v < b.stop) := by
      intro b hb v hv hin
      rcases hcopied v hv with hold | hin'
      · exact hrest b hb v hold hin
      have hle : a.stop ≤ b.start :=
        (pairwise_cons.mp (geometry_iff.mp hgeo).2).1 b hb
      have hlt := (mem_vpns.mp hin').2
      simp only [MapArea.stop] at hle
      omega
    intro c hc
    rcases ih hrestgeo (by exact hrest') h c hc with hold | ⟨b, hb, hpiece⟩
    · rcases mem_append.mp hold with hold | hnew
      · exact .inl hold
      · rw [mem_singleton.mp hnew]
        refine .inr ⟨a, mem_cons_self, rfl, fun hwipe ↦ ?_⟩
        refine ⟨rfl, rfl, le_refl _, le_refl _, fun v hlo hhi ↦ ?_⟩
        have hv : v ∈ a.vpnRange.vpns := mem_vpns.mpr ⟨hlo, hhi⟩
        simpa [hv] using hframes hwipe v
    · exact .inr ⟨b, mem_cons_of_mem a hb, hpiece⟩

theorem keeps_fork (s : MmState) : (fromExistedUser s).Keeps fun s' ↦
    s'.ms.areas = s.ms.areas ∧ s'.ms.mmapStart = s.ms.mmapStart := by
  unfold fromExistedUser
  split
  · exact Outcome.keeps_err.mpr ⟨rfl, rfl⟩
  split
  · exact Outcome.keeps_panic
  · exact Outcome.keeps_err.mpr ⟨rfl, rfl⟩
  · exact Outcome.keeps_ok.mpr ⟨rfl, rfl⟩

theorem pieceOf_fork {s' : MmState} {child : MemorySet} (hgeo : Geometry s.ms.areas)
    (h : fromExistedUser s = .ok child s') :
    child.mmapStart = s.ms.mmapStart ∧ ∀ c ∈ child.areas, ∃ a ∈ s.ms.areas,
      c.shmAttachId = a.shmAttachId ∧ (a.wipeOnFork = false → c.PieceOf a) := by
  unfold fromExistedUser at h
  split at h
  · simp at h
  split at h
  · simp at h
  · simp at h
  rename_i areas st hareas
  simp only [Outcome.ok.injEq] at h
  rw [← h.1]
  refine ⟨rfl, fun c hc ↦ ?_⟩
  rcases forkAreas_pieces hgeo (by simp) hareas c hc with hnil | hpiece
  · exact nomatch hnil
  · exact hpiece

end MemorySet

end RespOS.Mm
