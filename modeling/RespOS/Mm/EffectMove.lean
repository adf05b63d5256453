import RespOS.Mm.EffectFault

/-!
# The effect of `mremap` and of the heap

`mremap` shrinks an area, extends it, or moves it with its pages: the area is taken out and its entries
are cleared, what lies at the target is removed, and the entries are installed there again. Where that
fails the area is lost. The growth of the heap adds areas without pages and merges neighbours.
`effect_runOp` collects the operations.
-/

namespace RespOS.Mm

open RespOS.Basis RespOS.Fs List MemorySet Std.ExtTreeMap

variable {x y : MapArea} {op : Op} {s : MmState} {r : VPNRange}

section Window

variable {op : Op} {ms : MemorySet}

theorem PageOf.window {a : MapArea} {v w n : Nat} (h : PageOf op ms x a w w)
    (htype : y.mapType = x.mapType) (hshared : y.shared = x.shared)
    (hshm : y.shmAttachId = x.shmAttachId) (hgrows : y.growsDown = x.growsDown)
    (hfile : y.fileBacking = x.fileBacking.map fun b ↦ { b with len := n })
    (hindex : v - y.start = w - x.start) : PageOf op ms y a v w where
  same := by
    refine ⟨htype.trans h.same.mapType, hshared.trans h.same.shared, hshm.trans h.same.shmAttachId,
      hgrows.trans h.same.growsDown, ?_⟩
    rw [← h.same.file, hfile, Option.map_map]
    rfl
  index hs := by
    rw [hindex]
    exact h.index hs
  offset b b' hb hb' hlt := by
    rw [hfile] at hb'
    obtain ⟨b₀, hb₀, rfl⟩ := Option.map_eq_some_iff.mp hb'
    rw [hindex]
    exact h.offset b b₀ hb hb₀ hlt

end Window

theorem effect_of_entries {env : OpEnv} {s' : MmState} (h : s.ms.Sound s.k) (hk : s.k.WellFormed)
    (hpt : s'.ms.pageTable = s.ms.pageTable) (hkernel : s'.k = s.k)
    (harea : ∀ a' ∈ s'.ms.areas, AreaOrigin op s a')
    (hpage : ∀ a' ∈ s'.ms.areas, ∀ v p : Nat, a'.dataFrames[v]? = some p → ∃ a ∈ s.ms.areas,
      a.dataFrames[v]? = some p ∧ PageOf op s.ms a' a v v ∧ a'.mapPerm = a.mapPerm)
    (hforward : ∀ v, s.ms.Recorded v → s'.ms.Recorded v) : Effect env op s s' where
  obtains := by
    rw [hkernel]
    exact .refl hk
  area := harea
  page a' ha' v p hp := by
    obtain ⟨a, ha, hrec, hof, hperm⟩ := hpage a' ha' v p hp
    exact .kept ha hof hrec hperm (by rw [hpt])
  fresh_unique a' ha' b' _ v w p hp _ hfresh := by
    obtain ⟨a, ha, hrec, -⟩ := hpage a' ha' v p hp
    exact absurd hfresh (h.not_fresh ha hrec)
  storable _ v hv := by
    rw [hpt] at hv
    by_cases hrec : s.ms.Recorded v
    · exact .inl (hforward v hrec)
    · exact .inr ⟨hv, hrec⟩

namespace MemorySet

/-! ### Moving an area -/

section Move

variable {env : OpEnv} {s s₁ : MmState} {oldAddr oldLen newLen : Nat} {maymove : Bool}
  {fixedAddr : Option Nat} {middle : MapArea}

/-- An area has been taken out: the others have shrunk, and the area is a part of one that was
there. -/
structure Detached (env : OpEnv) (op : Op) (s s₁ : MmState) (middle : MapArea) : Prop where
  sound : s.ms.Sound s.k
  obtains : s.k.Obtains (s.ms.pins env.others) s₁.k
  geometry : Geometry s₁.ms.areas
  shrinks : Shrinks (fun x ↦ op.Cuts s.ms x) s.ms.areas s.ms.pageTable s₁.ms.areas s₁.ms.pageTable
  within : middle.Within middle.dataFrames
  origin : ∃ a ∈ s.ms.areas, middle.SameBacking a ∧ middle.mapPerm = a.mapPerm ∧
    ∀ v p : Nat, middle.dataFrames[v]? = some p →
      a.dataFrames[v]? = some p ∧ PageOf op s.ms middle a v v

open MapArea

theorem detached_detachArea (h : s.ms.Sound s.k) (hk : s.k.WellFormed) (hle : r.start ≤ r.stop)
    (hstart : op.Cuts s.ms r.start) (hstop : op.Cuts s.ms r.stop)
    (hdetach : detachArea s r = some (middle, s₁)) : Detached env op s s₁ middle := by
  obtain ⟨hgeo, -, hwithin, -⟩ := detachArea_spec hle h.geometry hdetach
  obtain ⟨l₁, a, l₂, hsplit, hlo, hhi, rfl, rfl⟩ := detachArea_cases hdetach
  have hgeo' := h.geometry
  rw [hsplit] at hgeo'
  refine ⟨h, obtains_notifyMmapClose _ hk, hgeo, ?_, hwithin, a, by simp [hsplit], ?_, rfl,
    fun v p hp ↦ ?_⟩
  · rw [hsplit]
    exact shrinks_cut hgeo' hlo hle hhi (fun _ ↦ hstop)
      (fun v hv ↦ entry_unmapPtesOnly_of_none hv)
      (fun v p hv ↦ isValid_entry_unmapPtesOnly hv)
  · refine ⟨rfl, rfl, rfl, rfl, ?_⟩
    simp only [splitByOverlap, part, windowForSubrange, Option.map_map]
    rfl
  · obtain ⟨hrec, hlo', hhi'⟩ := dataFrames_middle hp
    have hkind : (a.splitByOverlap r.start r.stop).middle.SameKind (fun x ↦ op.Cuts s.ms x) a := by
      refine sameKind_part _ _ _ hlo (fun _ ↦ ⟨hstart, ?_⟩) hhi
      have hhi : r.stop ≤ a.stop := hhi
      omega
    exact ⟨hrec, hkind.pageOf (fun _ hc ↦ hc) hlo'⟩

theorem Detached.remove (h : Detached env op s s₁ middle) (hle : r.start ≤ r.stop)
    (hcut : op.Cuts s.ms r.stop) : Detached env op s (removeAreaWithOverlapRange s₁ r) middle := by
  refine ⟨h.sound, h.obtains.trans (obtains_removeAreaWithOverlapRange h.obtains.1),
    geometry_removeAreaWithOverlapRange hle h.geometry, h.shrinks.trans ?_, h.within, h.origin⟩
  refine (shrinks_removeAreaWithOverlapRange hle h.geometry (h.shrinks.framed h.sound.framed)).mono ?_
  rintro x rfl
  exact hcut

theorem Detached.place
    (h : Detached env (.mremap oldAddr oldLen newLen maymove fixedAddr) s s₁ middle)
    {newStart newPages newAddr : Nat} (hpos : 0 < newPages)
    (hfree : ∀ b ∈ s₁.ms.areas, b.stop ≤ newStart ∨ newStart + newPages ≤ b.start) :
    (placeMoved s₁ middle newStart newPages newAddr).Keeps
      (Effect env (.mremap oldAddr oldLen newLen maymove fixedAddr) s) := by
  obtain ⟨a, ha, hsame, hperm, hframes⟩ := h.origin
  set x := middle.rebase newStart newPages with hx
  have hlookup : ∀ v p : Nat, x.dataFrames[v]? = some p ↔ ∃ w, middle.dataFrames[w]? = some p ∧
      w - middle.start < newPages ∧ newStart + (w - middle.start) = v :=
    getElem?_rebaseFrames fun v p hp ↦ (h.within v p hp).1
  have hnodup : (x.dataFrames.toList.map Prod.fst).Nodup := by
    rw [map_fst_toList_eq_keys]
    exact nodup_keys
  have hwf : x.WellFormed := MapArea.WellFormed.rebase h.within newStart hpos
  unfold placeMoved
  simp only [← hx]
  rcases hremap : x.remapExistingFrames ⟨s₁.ms.pageTable, s₁.k⟩ with ⟨r, ps⟩
  obtain ⟨hobt, hvalid, hout, hin⟩ := remapFrames_spec (s.ms.pins env.others)
    h.obtains.1 hnodup hremap
  cases r with
  | error e =>
    simp only
    refine Outcome.keeps_err.mpr ⟨h.obtains.trans hobt, fun y hy ↦ ?_, fun y hy v p hp ↦ ?_,
      fun y hy z hz v w p hp hq hfresh ↦ ?_, fun hop ↦ (hop _ _ _ _ _ rfl).elim⟩
    · obtain ⟨a₀, ha₀, hkind₀, -⟩ := h.shrinks.piece y hy
      exact .old ha₀ hkind₀.sameBacking
    · obtain ⟨a₀, ha₀, hkind₀, hperm₀, hpages⟩ := h.shrinks.piece y hy
      obtain ⟨hrec, hsame⟩ := hpages v p hp
      refine .kept ha₀ (hkind₀.pageOf (fun _ hc ↦ hc) ((h.geometry.wellFormed hy).keys v p hp).1) hrec
        hperm₀ ?_
      have hv : (s₁.ms.pageTable.entry v).isValid = true := by
        rw [hsame]
        exact (h.sound.valid a₀ ha₀ v p hrec).1
      exact (hvalid v hv).trans hsame
    · obtain ⟨a₀, ha₀, -, -, hpages⟩ := h.shrinks.piece y hy
      exact absurd hfresh (h.sound.not_fresh ha₀ (hpages v p hp).1)
  | ok u =>
    simp only
    have hopen : ps.k.Obtains (s.ms.pins env.others) (x.notifyMmapOpen ps.k) :=
      obtains_notifyMmapOpen _ hobt.1
    have hmoved : ∀ v w p : Nat, newStart + (w - middle.start) = v →
        middle.dataFrames[w]? = some p →
        PageOf (.mremap oldAddr oldLen newLen maymove fixedAddr) s.ms x a v w := by
      intro v w p hv hw
      refine (hframes w p hw).2.window rfl rfl rfl rfl rfl ?_
      show v - newStart = w - middle.start
      omega
    refine Outcome.keeps_ok.mpr (effect_of_insert h.sound h.geometry (fun _ hc ↦ hc) h.shrinks rfl hwf
      (fun b hb ↦ ?_) (fun v hv ↦ .inl (hout v fun hmem ↦ ?_)) ((h.obtains.trans hobt).trans hopen)
      (.old ha ?_) (fun v p hp ↦ ?_) fun v w p hp _ hfresh ↦ ?_)
    · refine VPNRange.intersectWith_eq_false.mpr ?_
      have := hfree b hb
      show newStart + newPages ≤ b.vpnRange.start ∨ b.vpnRange.stop ≤ newStart
      simp only [start, stop] at this
      omega
    · obtain ⟨e, he, rfl⟩ := mem_map.mp hmem
      rw [mem_toList_iff_getElem?_eq_some.mp he] at hv
      simp at hv
    · refine { hsame with file := ?_ }
      rw [← hsame.file, hx]
      simp only [rebase, Option.map_map]
      rfl
    · obtain ⟨w, hw, -, hv⟩ := (hlookup v p).mp hp
      have hmem := mem_toList_iff_getElem?_eq_some.mpr hp
      refine .moved rfl ha (hmoved v w p hv hw) (hframes w p hw).1 hperm ?_
      rw [← hperm]
      exact (hin rfl (v, p) hmem).2
    · obtain ⟨w, hw, -⟩ := (hlookup v p).mp hp
      exact absurd hfresh (h.sound.not_fresh ha (hframes w p hw).1)

variable (h : s.ms.Sound s.k) (hk : s.k.WellFormed)
include h hk

theorem effect_extendAreaEnd {newEnd : Nat} {areas : List MapArea} {pt : PageTable} (hlt : r.start < r.stop) (hle : r.stop ≤ newEnd)
    (hstart : op.Cuts s.ms r.start)
    (hfree : ∀ b ∈ s.ms.areas, b.vpnRange.intersectWith ⟨r.stop, newEnd⟩ = false)
    (hextend : extendAreaEnd r newEnd s.ms.areas s.ms.pageTable = some (areas, pt)) :
    Effect env op s { s with ms := s.ms.withPt pt areas } := by
  obtain ⟨l₁, a, l₂, hareas, hcontain, hcases⟩ := extendAreaEnd_spec hextend
  have ha : a ∈ s.ms.areas := by simp [hareas]
  have hwf : a.WellFormed := h.geometry.wellFormed ha
  obtain ⟨hlo, hhi⟩ := VPNRange.containRange_eq_true.mp hcontain
  have hastop : a.vpnRange.stop = r.stop := by
    have := VPNRange.intersectWith_eq_false.mp (hfree a ha)
    simp only at this
    omega
  -- growing at the end removes nothing and keeps the pages
  have hresize : ∀ x : MapArea, x.vpnRange.stop = r.stop →
      x.resizeEnd s.ms.pageTable newEnd = ({ x with
        vpnRange := ⟨x.vpnRange.start, newEnd⟩
        fileBacking := x.fileBacking.map fun b ↦
          { b with len := (newEnd - x.vpnRange.start) * pageSize } }, s.ms.pageTable) := by
    intro x hx
    have hnot : ¬ newEnd < x.vpnRange.stop := by omega
    simp only [resizeEnd, hnot, if_false]
  have hkind : ∀ x : MapArea, x.SameKind (fun y ↦ op.Cuts s.ms y) a → ∀ v, x.start ≤ v →
      PageOf op s.ms ({ x with
        vpnRange := ⟨x.vpnRange.start, newEnd⟩
        fileBacking := x.fileBacking.map fun b ↦
          { b with len := (newEnd - x.vpnRange.start) * pageSize } } : MapArea) a v v :=
    fun x hx v hv ↦ (hx.pageOf (fun _ hc ↦ hc) hv).window rfl rfl rfl rfl rfl rfl
  -- the pieces that replace the area
  have hpieces : ∃ m : List MapArea, areas = l₁ ++ m ++ l₂ ∧ pt = s.ms.pageTable ∧
      (∀ y ∈ m, y.mapPerm = a.mapPerm ∧ y.SameBacking a ∧
        ∀ v p : Nat, y.dataFrames[v]? = some p →
          a.dataFrames[v]? = some p ∧ PageOf op s.ms y a v v) ∧
      ∀ v p : Nat, a.dataFrames[v]? = some p → ∃ y ∈ m, y.dataFrames[v]? = some p := by
    rcases hcases with ⟨-, rfl, rfl⟩ | ⟨rfl, rfl⟩
    · rw [hresize a hastop]
      refine ⟨_, rfl, rfl, ?_, fun v p hp ↦ ⟨_, mem_singleton_self _, hp⟩⟩
      intro y hy
      obtain rfl := mem_singleton.mp hy
      refine ⟨rfl, (hkind a (.refl a) a.start le_rfl).same, fun v p hp ↦ ⟨hp, ?_⟩⟩
      exact hkind a (.refl a) v (hwf.keys v p hp).1
    · have hnone : (a.splitByOverlap r.start r.stop).right = none :=
        if_neg (Nat.not_lt.mpr hastop.le)
      have hmiddle : (a.splitByOverlap r.start r.stop).middle.SameKind
          (fun y ↦ op.Cuts s.ms y) a := by
        refine sameKind_part _ _ _ hlo (fun _ ↦ ⟨hstart, ?_⟩) hhi
        simp only [stop]
        omega
      rw [hresize _ rfl, hnone, Option.toList_none, append_nil]
      refine ⟨_, rfl, rfl, ?_, fun v p hp ↦ ?_⟩
      · intro y hy
        rcases mem_append.mp hy with hy | hy
        · obtain ⟨hleft, hperm, hpages⟩ := outer_part hwf (fun y ↦ op.Cuts s.ms y) hlo hlt.le hhi
            (fun hbehind ↦ absurd hastop hbehind.ne') (.inl (Option.mem_toList.mp hy))
          refine ⟨hperm, hleft.sameBacking, fun v p hp ↦ ?_⟩
          exact ⟨(hpages v p hp).1, hleft.pageOf (fun _ hc ↦ hc) (hpages v p hp).2.2⟩
        · obtain rfl := mem_singleton.mp hy
          refine ⟨rfl, (hkind _ hmiddle _ le_rfl).same, fun v p hp ↦ ?_⟩
          obtain ⟨hrec, hlo', -⟩ := dataFrames_middle hp
          exact ⟨hrec, hkind _ hmiddle v hlo'⟩
      · rcases dataFrames_splitByOverlap hwf r.start r.stop hp with
          ⟨y, hy, hyp, -⟩ | hmid | ⟨y, hy, -⟩
        · exact ⟨y, mem_append_left _ (Option.mem_toList.mpr hy), hyp⟩
        · exact ⟨_, mem_append_right _ (mem_singleton_self _), hmid⟩
        · simp [hnone] at hy
  obtain ⟨m, rfl, rfl, hm, hback⟩ := hpieces
  have hold : ∀ y, y ∈ l₁ ++ l₂ → y ∈ s.ms.areas := by
    intro y hy
    rw [hareas]
    exact mem_append_cons_iff.mpr (.inr hy)
  refine effect_of_entries h hk rfl rfl (fun y hy ↦ ?_) (fun y hy v p hp ↦ ?_) fun v hv ↦ ?_
  · rcases mem_splice_iff.mp hy with hy | hy
    · exact .old ha (hm y hy).2.1
    · exact .old (hold y hy) (.refl y)
  · rcases mem_splice_iff.mp hy with hy | hy
    · obtain ⟨hrec, hof⟩ := (hm y hy).2.2 v p hp
      exact ⟨a, ha, hrec, hof, (hm y hy).1⟩
    · exact ⟨y, hold y hy, hp, .refl y v, rfl⟩
  · obtain ⟨b, hb, p, hp⟩ := hv
    rw [hareas, mem_append_cons_iff] at hb
    rcases hb with rfl | hb
    · obtain ⟨y, hy, hyp⟩ := hback v p hp
      exact ⟨y, mem_splice_iff.mpr (.inl hy), p, hyp⟩
    · exact ⟨b, mem_splice_iff.mpr (.inr hb), p, hp⟩

theorem effect_mremapRange (oldAddr oldLen newLen : Nat) (maymove : Bool) (fixedAddr : Option Nat) :
    (mremapRange s oldAddr oldLen newLen maymove fixedAddr).Keeps
      (Effect env (.mremap oldAddr oldLen newLen maymove fixedAddr) s) := by
  have hremapped := remapped_mremapRange h.geometry oldAddr oldLen newLen maymove fixedAddr
  generalize mremapRange s oldAddr oldLen newLen maymove fixedAddr = o at hremapped ⊢
  cases hremapped with
  | panic => exact Outcome.keeps_panic
  | err e => exact Outcome.keeps_err.mpr (effect_refl h hk)
  | same => exact Outcome.keeps_ok.mpr (effect_refl h hk)
  | shrink hnone hle hr =>
    subst hnone hr
    refine Outcome.keeps_ok.mpr (effect_of_shrinks h (geometry_removeAreaWithOverlapRange hle h.geometry)
      ?_ (obtains_removeAreaWithOverlapRange hk)
      (shrinks_removeAreaWithOverlapRange hle h.geometry h.framed))
    rintro x rfl
    exact .inr (.inl rfl)
  | extend _ _ _ hfree hlt hle hextend =>
    simp only [areaIntersects, any_eq_false, Bool.not_eq_true] at hfree
    exact Outcome.keeps_ok.mpr (effect_extendAreaEnd h hk hlt hle (.inl rfl) hfree hextend)
  | @move newAddr middle s₁ s₂ hle hpos hmax hdetach hclear hfree =>
    have hdetached : Detached env (.mremap oldAddr oldLen newLen maymove fixedAddr) s s₁ middle :=
      detached_detachArea h hk hle (.inl rfl) (.inr (.inl rfl)) hdetach
    have hready : Detached env (.mremap oldAddr oldLen newLen maymove fixedAddr) s s₂ middle := by
      rcases hclear with rfl | ⟨rfl, rfl⟩
      · exact hdetached
      · exact hdetached.remove (floorVpn_mono (Nat.le_add_right _ _))
          (.inr (.inr ⟨newAddr, rfl, by rw [virtAddr_of_le hmax]⟩))
    exact hready.place hpos fun b hb ↦ room_of_free (hfree b hb)

end Move

/-! ### The heap -/

/-- `x` is `y`, or a private anonymous area that `y` has become a part of. -/
structure MergedFrom (x y : MapArea) : Prop where
  same : x.SameBacking y
  mapPerm : x.mapPerm = y.mapPerm
  anonymous : x = y ∨ (y.shared = false ∧ y.fileBacking = none)

theorem MergedFrom.refl (x : MapArea) : MergedFrom x x := ⟨.refl x, rfl, .inl rfl⟩

theorem MergedFrom.trans {z : MapArea} (h : MergedFrom x y) (h' : MergedFrom y z) :
    MergedFrom x z := by
  refine ⟨h.same.trans h'.same, h.mapPerm.trans h'.mapPerm, ?_⟩
  rcases h'.anonymous with rfl | hanon
  · exact h.anonymous
  · exact .inr hanon

theorem MergedFrom.pageOf {ms : MemorySet} (h : MergedFrom x y) (v : Nat) :
    PageOf op ms x y v v := by
  rcases h.anonymous with rfl | ⟨hshared, hfile⟩
  · exact .refl x v
  · refine ⟨h.same, fun hs ↦ ?_, fun b b' hb ↦ ?_⟩
    · simp [hshared] at hs
    · simp [hfile] at hb

theorem mergedFrom_mergeAreas {left right : MapArea}
    (h : canMergePrivateAnonymous left right = true) :
    MergedFrom (mergeAreas left right) left ∧ MergedFrom (mergeAreas left right) right := by
  simp only [canMergePrivateAnonymous, Bool.and_eq_true, Bool.not_eq_true', beq_iff_eq,
    Option.isNone_iff_eq_none] at h
  obtain ⟨⟨⟨⟨⟨⟨⟨⟨⟨⟨⟨⟨⟨-, htl⟩, htr⟩, hsl⟩, hsr⟩, hfl⟩, hfr⟩, hal⟩, har⟩, hperm⟩, -⟩, hgrows⟩, -⟩, -⟩ :=
    h
  refine ⟨⟨⟨rfl, rfl, rfl, rfl, rfl⟩, rfl, .inr ⟨hsl, hfl⟩⟩, ⟨⟨?_, ?_, ?_, hgrows, ?_⟩, hperm, .inr ⟨hsr, hfr⟩⟩⟩
  · exact htl.trans htr.symm
  · exact hsl.trans hsr.symm
  · exact hal.trans har.symm
  · show (left.fileBacking.map fun b ↦ (b.file, b.liveEof)) = _
    rw [hfl, hfr]

theorem mergeLoop_spec (a : MapArea) (rest : List MapArea) :
    (∀ x ∈ mergeLoop a rest, (∃ y ∈ a :: rest, MergedFrom x y) ∧
      ∀ v p : Nat, x.dataFrames[v]? = some p →
        ∃ y ∈ a :: rest, MergedFrom x y ∧ y.dataFrames[v]? = some p) ∧
      ∀ y ∈ a :: rest, ∀ v p : Nat, y.dataFrames[v]? = some p →
        ∃ x ∈ mergeLoop a rest, ∃ q, x.dataFrames[v]? = some q := by
  generalize hold : a :: rest = old
  refine mergeLoop_rule (l := []) (I := fun l ↦ (∀ x ∈ l, (∃ y ∈ old, MergedFrom x y) ∧
      ∀ v p : Nat, x.dataFrames[v]? = some p → ∃ y ∈ old, MergedFrom x y ∧ y.dataFrames[v]? = some p) ∧
      ∀ y ∈ old, ∀ v p : Nat, y.dataFrames[v]? = some p → ∃ x ∈ l, ∃ q, x.dataFrames[v]? = some q)
    (fun l₁ a b l₂ hmerge ⟨hback, hforward⟩ ↦ ?_) ?_
  · obtain ⟨hleft, hright⟩ := mergedFrom_mergeAreas hmerge
    have hunion : ∀ v : Nat, (mergeAreas a b).dataFrames[v]? =
        (b.dataFrames[v]?).or (a.dataFrames[v]?) :=
      fun v ↦ getElem?_union
    obtain ⟨⟨y, hy, hay⟩, hpages⟩ := hback a (by simp)
    refine ⟨fun x hx ↦ ?_, fun z hz v p hp ↦ ?_⟩
    · by_cases hout : x ∈ l₁ ++ a :: b :: l₂
      · exact hback x hout
      obtain rfl : x = mergeAreas a b := by
        simp only [mem_append, mem_cons] at hx hout
        tauto
      refine ⟨⟨y, hy, hleft.trans hay⟩, fun v p hp ↦ ?_⟩
      rw [hunion] at hp
      rcases Option.or_eq_some_iff.mp hp with hp | ⟨-, hp⟩
      · obtain ⟨z, hz, hbz, hzp⟩ := (hback b (by simp)).2 v p hp
        exact ⟨z, hz, hright.trans hbz, hzp⟩
      · obtain ⟨z, hz, haz, hzp⟩ := hpages v p hp
        exact ⟨z, hz, hleft.trans haz, hzp⟩
    · obtain ⟨x, hx, q, hq⟩ := hforward z hz v p hp
      by_cases hx' : x ∈ l₁ ++ mergeAreas a b :: l₂
      · exact ⟨x, hx', q, hq⟩
      refine ⟨mergeAreas a b, by simp, ?_⟩
      obtain rfl | rfl : x = a ∨ x = b := by
        simp only [mem_append, mem_cons] at hx hx'
        tauto
      · rw [hunion, hq]
        cases b.dataFrames[v]? <;> simp
      · simp [hunion, hq]
  · rw [nil_append, hold]
    exact ⟨fun x hx ↦ ⟨⟨x, hx, .refl x⟩, fun v p hp ↦ ⟨x, hx, .refl x, hp⟩⟩,
      fun y hy v p hp ↦ ⟨y, hy, p, hp⟩⟩

theorem mem_fillHoles (stop fuel cursor : Nat) (areas : List MapArea) :
    (∀ a ∈ areas, a ∈ fillHoles stop fuel cursor areas) ∧
      ∀ a ∈ fillHoles stop fuel cursor areas, a ∈ areas ∨
        (a.dataFrames = ∅ ∧ a.mapType = .framed ∧ a.shared = false ∧ a.fileBacking = none) := by
  induction fuel generalizing cursor areas with
  | zero => exact ⟨fun a ha ↦ ha, fun a ha ↦ .inl ha⟩
  | succ fuel ih =>
    simp only [fillHoles]
    split_ifs
    · exact ⟨fun a ha ↦ ha, fun a ha ↦ .inl ha⟩
    split
    · exact ih _ _
    obtain ⟨hold, hnew⟩ := ih _ _
    refine ⟨fun a ha ↦ hold a ?_, fun a ha ↦ ?_⟩
    · exact (perm_insertionSort _ _).mem_iff.mpr (mem_append_left _ ha)
    · rcases hnew a ha with ha | hblank
      · rcases mem_append.mp ((perm_insertionSort _ _).mem_iff.mp ha) with ha | ha
        · exact .inl ha
        · rw [mem_singleton.mp ha]
          exact .inr ⟨rfl, rfl, rfl, rfl⟩
      · exact .inr hblank

theorem effect_ensurePrivateWritableAnonymousRange {env : OpEnv} (h : s.ms.Sound s.k)
    (hk : s.k.WellFormed) (r : UserRange) :
    (ensurePrivateWritableAnonymousRange s r.toVPNRange).Keeps (Effect env (.growHeap r) s) := by
  unfold ensurePrivateWritableAnonymousRange
  split_ifs
  · exact Outcome.keeps_err.mpr (effect_refl h hk)
  obtain ⟨hold, hnew⟩ := mem_fillHoles r.stop (r.stop - r.start) r.start s.ms.areas
  have hgeo : Geometry (fillHoles r.stop (r.stop - r.start) r.start s.ms.areas) :=
    geometry_fillHoles h.geometry
  have hsorted := hgeo.sorted.insertionSort_eq
  set filled := fillHoles r.stop (r.stop - r.start) r.start s.ms.areas
  -- where the merged areas and their pages come from
  have hmerge : (∀ x ∈ mergeAdjacent filled, (∃ y ∈ filled, MergedFrom x y) ∧
      ∀ v p : Nat, x.dataFrames[v]? = some p →
        ∃ y ∈ filled, MergedFrom x y ∧ y.dataFrames[v]? = some p) ∧
      ∀ y ∈ filled, ∀ v p : Nat, y.dataFrames[v]? = some p →
        ∃ x ∈ mergeAdjacent filled, ∃ q, x.dataFrames[v]? = some q := by
    unfold mergeAdjacent sortAreas
    rw [hsorted]
    cases filled with
    | nil => simp
    | cons a rest => exact mergeLoop_spec a rest
  obtain ⟨hback, hforward⟩ := hmerge
  refine Outcome.keeps_ok.mpr (effect_of_entries h hk rfl rfl (fun x hx ↦ ?_) (fun x hx v p hp ↦ ?_)
    fun v hv ↦ ?_)
  · obtain ⟨y, hy, hxy⟩ := (hback x hx).1
    rcases hnew y hy with hy | ⟨-, htype, hshared, hfile⟩
    · exact .old hy hxy.same
    refine .heap rfl (hxy.same.mapType.trans htype) (hxy.same.shared.trans hshared) ?_
    have hmap := hxy.same.file
    rw [hfile] at hmap
    simpa using hmap
  · obtain ⟨y, hy, hxy, hyp⟩ := (hback x hx).2 v p hp
    rcases hnew y hy with hy | ⟨hempty, -⟩
    · exact ⟨y, hy, hyp, hxy.pageOf v, hxy.mapPerm⟩
    · simp [hempty] at hyp
  · obtain ⟨a, ha, p, hp⟩ := hv
    exact hforward a (hold a ha) v p hp

end MemorySet

theorem effect_runOp (env : OpEnv) (op : Op) (h : s.ms.Sound s.k) (hk : s.k.WellFormed)
    (hseg : op.SegmentOwned s.k) : (runOp env s op).Keeps (Effect env op s) := by
  cases op with
  | mmap req source => exact Outcome.keeps_void.mpr (effect_mmap h hk hseg)
  | munmap addr mapLen => exact effect_munmapRange h hk addr mapLen
  | mremap oldAddr oldLen newLen maymove fixedAddr =>
    exact Outcome.keeps_void.mpr (effect_mremapRange h hk oldAddr oldLen newLen maymove fixedAddr)
  | mprotect r perm => exact effect_remapAreaWithOverlapRange h hk r perm
  | setLocked | adviseFork | adviseDontfork =>
    exact keeps_checked _ (effect_refl h hk)
      (effect_setMiddle h hk (fun x hx ↦ hx) fun a ↦ ⟨_, _, _, rfl⟩)
  | dontneed r => exact effect_madviseDontneed h hk r
  | growHeap r => exact effect_ensurePrivateWritableAnonymousRange h hk r
  | fault cause stval userSp =>
    exact Outcome.keeps_void.mpr (effect_handlePageFault h hk cause stval userSp)

end RespOS.Mm
