import RespOS.Mm.GeometryOps

/-!
# What an operation does to the resident pages

The invariants of an address space are statements about its resident pages: the area that records a
page, the frame recorded and the entry of the page table. The lemmas here say once for each operation
where the resident pages of the new state come from, and what has become of those of the old state.

`SameKind cut a' a` says that `a'` is what became of the area `a` or of a part of it: it has the same
kind of backing, and where it starts later than `a`, it starts at a page that `cut` allows. `Shrinks`
is the effect of the operations that remove pages or split areas and change nothing else.
-/

namespace RespOS.Mm

open RespOS.Basis RespOS.Fs List Option PageTable

/-- `a'` is a part of `a` with the same kind of backing. The file window moves along as long as its
offset does not overflow. -/
structure MapArea.SameKind (cut : Nat → Prop) (a' a : MapArea) : Prop where
  start : a'.start = a.start ∨ (cut a'.start ∧ a.start < a'.start ∧ a'.start < a.stop)
  stop : a'.stop ≤ a.stop
  mapType : a'.mapType = a.mapType
  shared : a'.shared = a.shared
  shmAttachId : a'.shmAttachId = a.shmAttachId
  growsDown : a'.growsDown = a.growsDown
  anonymous : a'.fileBacking = none ↔ a.fileBacking = none
  file : ∀ b', a'.fileBacking = some b' → ∃ b, a.fileBacking = some b ∧ b'.file = b.file ∧
    b'.liveEof = b.liveEof ∧ (b.offset + (a'.start - a.start) * pageSize < usizeSize →
      b'.offset = b.offset + (a'.start - a.start) * pageSize)

variable {v p lo hi : Nat} {x : MapArea} {k : Kernel} {ext : Nat → Nat}

namespace MapArea

variable {cut : Nat → Prop} {a a' a'' : MapArea}

theorem SameKind.refl (a : MapArea) : a.SameKind cut a :=
  ⟨.inl rfl, le_rfl, rfl, rfl, rfl, rfl, Iff.rfl, fun b hb ↦ ⟨b, hb, rfl, rfl, by simp⟩⟩

theorem SameKind.withFrames (a : MapArea) (frames : Std.ExtTreeMap Nat Nat) :
    (a.withFrames frames).SameKind cut a :=
  ⟨.inl rfl, le_rfl, rfl, rfl, rfl, rfl, Iff.rfl, fun b hb ↦ ⟨b, hb, rfl, rfl, by
    simp [MapArea.start]⟩⟩

theorem SameKind.start_le (h : a'.SameKind cut a) : a.start ≤ a'.start := by
  rcases h.start with heq | ⟨-, hlt, -⟩
  · exact heq.ge
  · exact hlt.le

theorem SameKind.trans (h : a''.SameKind cut a') (h' : a'.SameKind cut a) : a''.SameKind cut a where
  start := by
    have hstop := h'.stop
    rcases h.start with heq | ⟨hcut, hlt, hlt'⟩
    · rw [heq]
      exact h'.start
    · have := h'.start_le
      exact .inr ⟨hcut, by omega, by omega⟩
  stop := h.stop.trans h'.stop
  mapType := h.mapType.trans h'.mapType
  shared := h.shared.trans h'.shared
  shmAttachId := h.shmAttachId.trans h'.shmAttachId
  growsDown := h.growsDown.trans h'.growsDown
  anonymous := h.anonymous.trans h'.anonymous
  file b'' hb'' := by
    obtain ⟨b', hb', hfile', hlive', hoff'⟩ := h.file b'' hb''
    obtain ⟨b, hb, hfile, hlive, hoff⟩ := h'.file b' hb'
    refine ⟨b, hb, hfile'.trans hfile, hlive'.trans hlive, fun hlt ↦ ?_⟩
    have h₁ := h.start_le
    have h₂ := h'.start_le
    have hsum : (a''.start - a.start) * pageSize =
        (a'.start - a.start) * pageSize + (a''.start - a'.start) * pageSize := by
      rw [← Nat.add_mul]
      congr 1
      omega
    have hexact := hoff (by omega)
    rw [hoff' (by omega), hexact]
    omega

theorem SameKind.mono {cut' : Nat → Prop} (h : a'.SameKind cut a) (himp : ∀ x, cut x → cut' x) :
    a'.SameKind cut' a :=
  { h with start := h.start.imp_right fun ⟨hc, hlt⟩ ↦ ⟨himp _ hc, hlt⟩ }

theorem sameKind_part (lo hi : Nat) (keep : Nat → Bool)
    (hlo : a.start ≤ lo) (hcut : a.start < lo → cut lo ∧ lo < a.stop) (hstop : hi ≤ a.stop) :
    (a.part lo hi keep).SameKind cut a where
  start := (eq_or_lt_of_le hlo).imp Eq.symm fun hlt ↦ ⟨(hcut hlt).1, hlt, (hcut hlt).2⟩
  stop := hstop
  mapType := rfl
  shared := rfl
  shmAttachId := rfl
  growsDown := rfl
  anonymous := by simp [part, windowForSubrange]
  file b' hb' := by
    obtain ⟨b, hb, rfl⟩ := map_eq_some_iff.mp hb'
    refine ⟨b, hb, rfl, rfl, fun hlt ↦ ?_⟩
    show saturatingAdd b.offset ((lo - a.vpnRange.start) * pageSize) = _
    have hlt' : b.offset + (lo - a.vpnRange.start) * pageSize < usizeSize := hlt
    exact min_eq_left (by omega)

theorem dataFrames_splitByOverlap (h : a.WellFormed) (lo hi : Nat) (hv : a.dataFrames[v]? = some p) :
    (∃ x ∈ (a.splitByOverlap lo hi).left, x.dataFrames[v]? = some p ∧ v < lo) ∨
      (a.splitByOverlap lo hi).middle.dataFrames[v]? = some p ∨
      ∃ x ∈ (a.splitByOverlap lo hi).right, x.dataFrames[v]? = some p ∧ hi ≤ v := by
  obtain ⟨hlo, hhi⟩ := h.keys v p hv
  simp only [start, stop] at hlo hhi
  unfold splitByOverlap
  by_cases hleft : v < lo
  · left
    have hlt : a.vpnRange.start < lo := by omega
    refine ⟨a.part a.vpnRange.start lo fun vpn ↦ vpn < lo, if_pos hlt, ?_, hleft⟩
    simp [getElem?_dataFrames_part, hleft, hv]
  right
  by_cases hmid : v < hi
  · left
    simp [getElem?_dataFrames_part, hv, hmid, not_lt.mp hleft]
  · right
    have hlt : hi < a.vpnRange.stop := by omega
    refine ⟨a.part hi a.vpnRange.stop fun vpn ↦ hi ≤ vpn, if_pos hlt, ?_, by omega⟩
    simp [getElem?_dataFrames_part, hv, not_lt.mp hmid]

theorem dataFrames_middle (hv : (a.splitByOverlap lo hi).middle.dataFrames[v]? = some p) :
    a.dataFrames[v]? = some p ∧ lo ≤ v ∧ v < hi := by
  rw [splitByOverlap, getElem?_dataFrames_part] at hv
  split_ifs at hv with hkeep
  exact ⟨hv, by simpa using hkeep⟩

/-- The part before the overlap starts where the area starts, and the one behind it at the upper cut; their
pages are those of the area outside the overlap. -/
theorem outer_part (h : a.WellFormed) (cut : Nat → Prop) (hlo : a.start ≤ lo) (hle : lo ≤ hi)
    (hhi : hi ≤ a.stop) (hcut : hi < a.stop → cut hi)
    (hx : x ∈ (a.splitByOverlap lo hi).left ∨ x ∈ (a.splitByOverlap lo hi).right) :
    x.SameKind cut a ∧ x.mapPerm = a.mapPerm ∧ ∀ v p : Nat, x.dataFrames[v]? = some p →
      a.dataFrames[v]? = some p ∧ ¬ (lo ≤ v ∧ v < hi) ∧ x.start ≤ v := by
  rcases hx with hx | hx
  · obtain ⟨-, rfl⟩ := mem_left.mp hx
    refine ⟨sameKind_part _ _ _ le_rfl (fun hlt ↦ absurd hlt (lt_irrefl _)) (hle.trans hhi), rfl,
      fun v p hv ↦ ?_⟩
    rw [getElem?_dataFrames_part] at hv
    split_ifs at hv with hkeep
    exact ⟨hv, fun hin ↦ not_lt.mpr hin.1 (by simpa using hkeep), (h.keys v p hv).1⟩
  · obtain ⟨hlt, rfl⟩ := mem_right.mp hx
    refine ⟨sameKind_part _ _ _ (hlo.trans hle) (fun _ ↦ ⟨hcut hlt, hlt⟩) le_rfl, rfl, fun v p hv ↦ ?_⟩
    rw [getElem?_dataFrames_part] at hv
    split_ifs at hv with hkeep
    have hge : hi ≤ v := by simpa using hkeep
    exact ⟨hv, fun hin ↦ not_lt.mpr hge hin.2, hge⟩

end MapArea

open MapArea

/-! ### Shrinking -/

/-- Areas are split or lose pages, and the entries of the pages lost are cleared; nothing else
changes. -/
structure Shrinks (cut : Nat → Prop) (areas : List MapArea) (pt : PageTable)
    (areas' : List MapArea) (pt' : PageTable) : Prop where
  piece : ∀ a' ∈ areas', ∃ a ∈ areas, a'.SameKind cut a ∧ a'.mapPerm = a.mapPerm ∧
    ∀ v p : Nat, a'.dataFrames[v]? = some p → a.dataFrames[v]? = some p ∧ pt'.entry v = pt.entry v
  forward : ∀ a ∈ areas, ∀ v p : Nat, a.dataFrames[v]? = some p →
    (pt'.entry v).isValid = false ∨
      ∃ a' ∈ areas', a'.SameKind cut a ∧ a'.mapPerm = a.mapPerm ∧ a'.dataFrames[v]? = some p
  entry : ∀ v, pt'.entry v = pt.entry v ∨ (pt'.entry v).isValid = false

section Shrinks

variable {cut : Nat → Prop} {areas areas' areas'' l₁ l₂ m : List MapArea} {a : MapArea}
  {pt pt' pt'' : PageTable}

theorem Shrinks.refl (areas : List MapArea) (pt : PageTable) : Shrinks cut areas pt areas pt where
  piece a' ha' := ⟨a', ha', .refl a', rfl, fun _ _ hp ↦ ⟨hp, rfl⟩⟩
  forward a ha _ _ hp := .inr ⟨a, ha, .refl a, rfl, hp⟩
  entry _ := .inl rfl

theorem Shrinks.trans (h : Shrinks cut areas pt areas' pt') (h' : Shrinks cut areas' pt' areas'' pt'') :
    Shrinks cut areas pt areas'' pt'' where
  piece a'' ha'' := by
    obtain ⟨a', ha', hkind', hperm', hpages'⟩ := h'.piece a'' ha''
    obtain ⟨a, ha, hkind, hperm, hpages⟩ := h.piece a' ha'
    refine ⟨a, ha, hkind'.trans hkind, hperm'.trans hperm, fun v p hp ↦ ?_⟩
    obtain ⟨hp', he'⟩ := hpages' v p hp
    obtain ⟨hp'', he⟩ := hpages v p hp'
    exact ⟨hp'', he'.trans he⟩
  forward a ha v p hp := by
    rcases h.forward a ha v p hp with hinvalid | ⟨a', ha', hkind, hperm, hp'⟩
    · left
      rcases h'.entry v with heq | hinvalid'
      · rw [heq]
        exact hinvalid
      · exact hinvalid'
    · rcases h'.forward a' ha' v p hp' with hinvalid | ⟨a'', ha'', hkind', hperm', hp''⟩
      · exact .inl hinvalid
      · exact .inr ⟨a'', ha'', hkind'.trans hkind, hperm'.trans hperm, hp''⟩
  entry v := by
    rcases h'.entry v with heq | hinvalid
    · rw [heq]
      exact h.entry v
    · exact .inr hinvalid

theorem Shrinks.mono {cut' : Nat → Prop} (h : Shrinks cut areas pt areas' pt')
    (himp : ∀ x, cut x → cut' x) : Shrinks cut' areas pt areas' pt' where
  piece a' ha' := by
    obtain ⟨a, ha, hkind, hrest⟩ := h.piece a' ha'
    exact ⟨a, ha, hkind.mono himp, hrest⟩
  forward a ha v p hp := by
    rcases h.forward a ha v p hp with hinvalid | ⟨a', ha', hkind, hrest⟩
    · exact .inl hinvalid
    · exact .inr ⟨a', ha', hkind.mono himp, hrest⟩
  entry := h.entry

theorem Geometry.outside (h : Geometry (l₁ ++ a :: l₂)) {b : MapArea} (hb : b ∈ l₁ ++ l₂)
    (hv : b.dataFrames[v]? = some p) : v < a.start ∨ a.stop ≤ v := by
  obtain ⟨hlo', hhi'⟩ := (h.wellFormed (mem_append_cons_iff.mpr (.inr hb))).keys v p hv
  have hordered := (geometry_iff.mp h).2
  rcases mem_append.mp hb with hb | hb
  · have := hordered.before hb
    omega
  · have := hordered.behind hb
    omega

section

variable (hgeo : Geometry (l₁ ++ a :: l₂))
include hgeo

theorem shrinks_replace (hpiece : ∀ x ∈ m, x.SameKind cut a ∧ x.mapPerm = a.mapPerm ∧
      ∀ v p : Nat, x.dataFrames[v]? = some p → a.dataFrames[v]? = some p ∧ pt'.entry v = pt.entry v)
    (hforward : ∀ v p : Nat, a.dataFrames[v]? = some p →
      (pt'.entry v).isValid = false ∨ ∃ x ∈ m, x.dataFrames[v]? = some p)
    (hother : ∀ v, v < a.start ∨ a.stop ≤ v → pt'.entry v = pt.entry v)
    (hentry : ∀ v, pt'.entry v = pt.entry v ∨ (pt'.entry v).isValid = false) :
    Shrinks cut (l₁ ++ a :: l₂) pt (l₁ ++ m ++ l₂) pt' where
  piece x hx := by
    rcases mem_splice_iff.mp hx with hx | hx
    · exact ⟨a, by simp, hpiece x hx⟩
    · exact ⟨x, mem_append_cons_iff.mpr (.inr hx), .refl x, rfl, fun v p hp ↦
        ⟨hp, hother v (hgeo.outside hx hp)⟩⟩
  forward b hb v p hp := by
    rcases mem_append_cons_iff.mp hb with rfl | hb
    · rcases hforward v p hp with hinvalid | ⟨x, hx, hxp⟩
      · exact .inl hinvalid
      · exact .inr ⟨x, by simp [hx], (hpiece x hx).1, (hpiece x hx).2.1, hxp⟩
    · exact .inr ⟨b, mem_splice_iff.mpr (.inr hb), .refl b, rfl, hp⟩
  entry := hentry

theorem shrinks_cut (hlo : a.start ≤ lo) (hle : lo ≤ hi)
    (hhi : hi ≤ a.stop) (hcut : hi < a.stop → cut hi)
    (hsame : ∀ v, (a.splitByOverlap lo hi).middle.dataFrames[v]? = none → pt'.entry v = pt.entry v)
    (hcleared : ∀ v p : Nat, (a.splitByOverlap lo hi).middle.dataFrames[v]? = some p →
      (pt'.entry v).isValid = false) :
    Shrinks cut (l₁ ++ a :: l₂) pt (l₁ ++ ((a.splitByOverlap lo hi).left.toList ++
      (a.splitByOverlap lo hi).right.toList) ++ l₂) pt' := by
  have hwf : a.WellFormed := hgeo.wellFormed (by simp)
  have houtside : ∀ v : Nat, ¬ (lo ≤ v ∧ v < hi) → pt'.entry v = pt.entry v := by
    intro v hout
    refine hsame v ?_
    rw [eq_none_iff_forall_ne_some]
    exact fun q hq ↦ hout (dataFrames_middle hq).2
  refine shrinks_replace hgeo (fun x hx ↦ ?_) (fun v p hp ↦ ?_) (fun v hv ↦ ?_) fun v ↦ ?_
  · rw [mem_append, mem_toList, mem_toList] at hx
    obtain ⟨hkind, hperm, hpages⟩ := outer_part hwf cut hlo hle hhi hcut hx
    exact ⟨hkind, hperm, fun v p hp ↦ ⟨(hpages v p hp).1, houtside v (hpages v p hp).2.1⟩⟩
  · rcases dataFrames_splitByOverlap hwf lo hi hp with
      ⟨x, hx, hxp, -⟩ | hmid | ⟨x, hx, hxp, -⟩
    · exact .inr ⟨x, mem_append_left _ (mem_toList.mpr hx), hxp⟩
    · exact .inl (hcleared v p hmid)
    · exact .inr ⟨x, mem_append_right _ (mem_toList.mpr hx), hxp⟩
  · exact houtside v (by omega)
  · cases hv : (a.splitByOverlap lo hi).middle.dataFrames[v]? with
    | none => exact .inl (hsame v hv)
    | some p => exact .inr (hcleared v p hv)

theorem shrinks_split (hlo : a.start ≤ lo) (hlt : lo < hi)
    (hhi : hi ≤ a.stop) (hcutlo : a.start < lo → cut lo) (hcuthi : hi < a.stop → cut hi)
    (hkind : x.SameKind cut (a.splitByOverlap lo hi).middle) (hperm : x.mapPerm = a.mapPerm)
    (hframes : x.dataFrames = (a.splitByOverlap lo hi).middle.dataFrames) :
    Shrinks cut (l₁ ++ a :: l₂) pt (l₁ ++ ((a.splitByOverlap lo hi).left.toList ++ [x] ++
      (a.splitByOverlap lo hi).right.toList) ++ l₂) pt := by
  have hwf : a.WellFormed := hgeo.wellFormed (by simp)
  have hmiddle : (a.splitByOverlap lo hi).middle.SameKind cut a :=
    sameKind_part _ _ _ hlo (fun hstart ↦ ⟨hcutlo hstart, hlt.trans_le hhi⟩) hhi
  refine shrinks_replace hgeo (fun y hy ↦ ?_) (fun v p hp ↦ ?_) (fun v _ ↦ rfl) fun v ↦ .inl rfl
  · simp only [mem_append, mem_toList, mem_singleton] at hy
    rw [or_right_comm] at hy
    rcases hy with hy | rfl
    · obtain ⟨hk, hp, hpages⟩ := outer_part hwf cut hlo hlt.le hhi hcuthi hy
      exact ⟨hk, hp, fun v p hv ↦ ⟨(hpages v p hv).1, rfl⟩⟩
    · refine ⟨hkind.trans hmiddle, hperm, fun v p hv ↦ ?_⟩
      rw [hframes] at hv
      exact ⟨(dataFrames_middle hv).1, rfl⟩
  · right
    rcases dataFrames_splitByOverlap hwf lo hi hp with
      ⟨y, hy, hyp, -⟩ | hmid | ⟨y, hy, hyp, -⟩
    · exact ⟨y, by simp [mem_def.mp hy], hyp⟩
    · exact ⟨x, by simp, hframes ▸ hmid⟩
    · exact ⟨y, by simp [mem_def.mp hy], hyp⟩

end

theorem Shrinks.framed (h : Shrinks cut areas pt areas' pt')
    (hframed : ∀ a ∈ areas, a.mapType = .framed) : ∀ a ∈ areas', a.mapType = .framed := by
  intro a' ha'
  obtain ⟨a, ha, hkind, -⟩ := h.piece a' ha'
  rw [hkind.mapType]
  exact hframed a ha

end Shrinks

/-! ### Notification of the backing file -/

theorem MapArea.obtains_notifyMmapClose (a : MapArea) (hk : k.WellFormed) :
    k.Obtains ext (a.notifyMmapClose k) := by
  unfold notifyMmapClose
  cases a.fileBacking with
  | none => exact .refl hk
  | some b => exact Kernel.obtains_mmapClose hk _ _ _ _

theorem MemorySet.obtains_notifyAllClose (areas : List MapArea) (hk : k.WellFormed) :
    k.Obtains ext (notifyAllClose areas k) := by
  induction areas generalizing k with
  | nil => exact .refl hk
  | cons a areas ih =>
    have hclose : k.Obtains ext (a.notifyMmapClose k) := a.obtains_notifyMmapClose hk
    exact hclose.trans (ih hclose.1)

theorem MapArea.obtains_notifyMmapOpen (a : MapArea) (hk : k.WellFormed) :
    k.Obtains ext (a.notifyMmapOpen k) := by
  unfold notifyMmapOpen
  cases a.fileBacking with
  | none => exact .refl hk
  | some b => exact Kernel.obtains_mmapOpen hk _ _ _ _

namespace MemorySet

section Remove

variable {s : MmState} {r : VPNRange} {a : MapArea} {areas areas' : List MapArea}

/-- The removal of a range: the areas that meet it are cut, and what remains of them starts where the
area started or behind the range. -/
theorem shrinks_removeAreaWithOverlapRange (hle : r.start ≤ r.stop) (hgeo : Geometry s.ms.areas)
    (hframed : ∀ a ∈ s.ms.areas, a.mapType = .framed) :
    Shrinks (fun x ↦ x = r.stop) s.ms.areas s.ms.pageTable
      (removeAreaWithOverlapRange s r).ms.areas (removeAreaWithOverlapRange s r).ms.pageTable := by
  unfold removeAreaWithOverlapRange treatOverlap
  rcases h : overlapLoop r removeMiddle s.ms.areas [] ⟨s.ms.pageTable, s.k⟩ with ⟨res, areas, ps⟩
  refine (overlapLoop_invariant (I := fun l ps ↦ Geometry l ∧
    Shrinks (fun x ↦ x = r.stop) s.ms.areas s.ms.pageTable l ps.pt) ?_ ?_ h ⟨hgeo, .refl _ _⟩).2
  · rintro l₁ a l₂ ps mid ps' ⟨hgeo, hshrinks⟩ hmeet heq
    have hwf : a.WellFormed := hgeo.wellFormed (by simp)
    have hmiddle : (a.cut r).middle.mapType = .framed := hshrinks.framed hframed a (by simp)
    obtain ⟨hlo, hlohi, hhi, hend, -⟩ := overlap_bounds hwf hle hmeet
    obtain ⟨rfl, rfl⟩ := heq
    simp only [toList_none, append_nil]
    obtain ⟨hall, hordered, hin⟩ := split_geometry hwf _ _ none hlo hlohi hhi (by simp)
    simp only [toList_none, append_nil] at hall hordered hin
    refine ⟨hgeo.replace hall hordered hin, hshrinks.trans ?_⟩
    exact shrinks_cut hgeo hlo hlohi hhi hend
      (fun v hv ↦ snd_unmap hmiddle ▸ entry_unmapPtesOnly_of_none hv)
      (fun v p hv ↦ snd_unmap hmiddle ▸ isValid_entry_unmapPtesOnly hv)
  · rintro l₁ a l₂ ps e ps' - - heq
    simp [removeMiddle] at heq

theorem obtains_removeAreaWithOverlapRange (hk : s.k.WellFormed) :
    s.k.Obtains ext (removeAreaWithOverlapRange s r).k :=
  removeAreaWithOverlapRange_invariant (I := fun ps ↦ s.k.Obtains ext ps.k)
    (fun _ _ _ hobt ↦ hobt.trans (obtains_notifyMmapClose _ hobt.1)) (.refl hk)

theorem shrinks_setMiddle {f : MapArea → MapArea} (hlt : r.start < r.stop)
    (hgeo : Geometry s.ms.areas) (hrange : ∀ a, (f a).vpnRange = a.vpnRange)
    (hwf : ∀ a, a.WellFormed → (f a).WellFormed)
    (hkind : ∀ a, (f a).SameKind (fun x ↦ x = r.start ∨ x = r.stop) a ∧
      (f a).mapPerm = a.mapPerm ∧ (f a).dataFrames = a.dataFrames) :
    let s' := (treatOverlap s r (setMiddle f)).2
    s'.k = s.k ∧ s'.ms.pageTable = s.ms.pageTable ∧ Geometry s'.ms.areas ∧
      Shrinks (fun x ↦ x = r.start ∨ x = r.stop) s.ms.areas s.ms.pageTable s'.ms.areas
        s.ms.pageTable := by
  unfold treatOverlap
  rcases h : overlapLoop r (setMiddle f) s.ms.areas [] ⟨s.ms.pageTable, s.k⟩ with ⟨res, areas, ps⟩
  have hloop := overlapLoop_invariant (I := fun l ps ↦ Geometry l ∧ ps = ⟨s.ms.pageTable, s.k⟩ ∧
    Shrinks (fun x ↦ x = r.start ∨ x = r.stop) s.ms.areas s.ms.pageTable l s.ms.pageTable)
    ?_ ?_ h ⟨hgeo, rfl, .refl _ _⟩
  · obtain ⟨hgeo, rfl, hshrinks⟩ := hloop
    exact ⟨rfl, rfl, hgeo, hshrinks⟩
  · rintro l₁ a l₂ ps mid ps' ⟨hgeo, rfl, hshrinks⟩ hmeet heq
    obtain ⟨rfl, rfl⟩ := heq
    have hwf' : a.WellFormed := hgeo.wellFormed (by simp)
    obtain ⟨hlo, -, hhi, hend, hlohi⟩ := overlap_bounds hwf' hlt.le hmeet
    replace hlohi := hlohi hlt
    obtain ⟨hall, hordered, hin⟩ := split_geometry hwf' _ _
      (some (f (a.cut r).middle)) hlo hlohi.le hhi
      (fun x hx ↦ by
        obtain rfl := some.inj hx
        refine ⟨hwf _ (hwf'.middle hlohi), ?_, ?_⟩
        · simp only [MapArea.start, hrange]
          rfl
        · simp only [MapArea.stop, hrange]
          rfl)
    refine ⟨hgeo.replace hall hordered hin, rfl, hshrinks.trans ?_⟩
    refine shrinks_split hgeo hlo hlohi hhi (fun hlt' ↦ .inl ?_) (fun hlt' ↦ .inr (hend hlt'))
      (hkind _).1 (hkind _).2.1 (hkind _).2.2
    omega
  · rintro l₁ a l₂ ps e ps' - - heq
    simp [setMiddle] at heq

theorem shrinks_unmapEach {l₁ l₂ : List MapArea} (cut : Nat → Prop) (pt : PageTable) {vpns : List Nat}
    (hgeo : Geometry (l₁ ++ a :: l₂)) (htype : a.mapType = .framed)
    (hvpns : ∀ v ∈ vpns, a.start ≤ v ∧ v < a.stop) :
    Shrinks cut (l₁ ++ a :: l₂) pt (l₁ ++ [(a.unmapEach pt vpns).1] ++ l₂)
      (a.unmapEach pt vpns).2 := by
  have hframes (v : Nat) : (a.framesAfterUnmap vpns)[v]? =
      if v ∈ vpns then none else a.dataFrames[v]? := by
    rw [getElem?_framesAfterUnmap]
    simp [htype]
  rw [unmapEach_eq]
  refine shrinks_replace hgeo (fun x hx ↦ ?_) (fun v p hp ↦ ?_) (fun v hv ↦ ?_) fun v ↦ ?_
  · obtain rfl := mem_singleton.mp hx
    refine ⟨.withFrames a _, rfl, fun v p hp ↦ ?_⟩
    rw [dataFrames_withFrames, hframes] at hp
    split_ifs at hp with hmem
    exact ⟨hp, entry_foldl_tryUnmap_of_notMem hmem pt⟩
  · by_cases hmem : v ∈ vpns
    · exact .inl (isValid_entry_foldl_tryUnmap hmem pt)
    · refine .inr ⟨_, mem_singleton_self _, ?_⟩
      rw [dataFrames_withFrames, hframes, if_neg hmem]
      exact hp
  · refine entry_foldl_tryUnmap_of_notMem (fun hmem ↦ ?_) pt
    have hin := hvpns v hmem
    omega
  · by_cases hmem : v ∈ vpns
    · exact .inr (isValid_entry_foldl_tryUnmap hmem pt)
    · exact .inl (entry_foldl_tryUnmap_of_notMem hmem pt)

theorem shrinks_discardLoop (cut : Nat → Prop) {pt : PageTable} (hgeo : Geometry areas)
    (hframed : ∀ a ∈ areas, a.mapType = .framed) :
    Shrinks cut areas pt (discardLoop r areas pt).1 (discardLoop r areas pt).2 := by
  have hloop (l₁ l₂ : List MapArea) (pt : PageTable) (hgeo : Geometry (l₁ ++ l₂))
      (hframed : ∀ a ∈ l₂, a.mapType = .framed) :
      Shrinks cut (l₁ ++ l₂) pt (l₁ ++ (discardLoop r l₂ pt).1) (discardLoop r l₂ pt).2 := by
    induction l₂ generalizing l₁ pt with
    | nil => exact .refl _ _
    | cons a l₂ ih =>
      obtain ⟨htype, hrest⟩ := forall_mem_cons.mp hframed
      simp only [discardLoop]
      split_ifs with hskip
      · simpa using ih (l₁ ++ [a]) pt (by simpa using hgeo) hrest
      set vpns := (⟨max a.vpnRange.start r.start, min a.vpnRange.stop r.stop⟩ : VPNRange).vpns
      have hstep := shrinks_unmapEach cut pt hgeo htype fun v (hv : v ∈ vpns) ↦
        (VPNRange.mem_vpns.mp hv).imp (le_trans (le_max_left _ _)) (lt_of_lt_of_le · (min_le_left _ _))
      have hgeo' : Geometry (l₁ ++ [(a.unmapEach pt vpns).1] ++ l₂) := by
        refine hgeo.replace ?_ (pairwise_singleton _ _) ?_ <;> simp only [mem_singleton, forall_eq]
        · exact within_unmapEach (hgeo.wellFormed (by simp)) pt vpns
        · rw [unmapEach_eq]
          exact ⟨le_rfl, le_rfl⟩
      simpa using hstep.trans (ih _ _ hgeo' hrest)
  exact hloop [] areas pt hgeo hframed

end Remove

end MemorySet

end RespOS.Mm
