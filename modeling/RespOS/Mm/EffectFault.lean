import RespOS.Mm.EffectProtect

/-!
# The effect of a page fault

A fault changes the record and the entry of one page of one area (`effect_of_page`), after the area has
grown downwards by this page where the fault lies right below a stack (`Grown`). The branches of
`handle_page_fault` differ in the frame of the page and in the flags of its entry.
-/

namespace RespOS.Mm

open RespOS.Basis RespOS.Fs
open RespOS.Outcome (keeps_err keeps_ok)
open Std.ExtTreeMap Option PTEFlags PageTable

theorem obtains_reserveSharedMmapWrite (ext : Nat → Nat) {k k' : Kernel} {io : IoEnv}
    {f offset : Nat} {data : List UInt8} {r : Except Errno Unit} (hk : k.WellFormed)
    (h : k.reserveSharedMmapWrite io f offset data = (r, k')) : k.Obtains ext k' := by
  unfold Kernel.reserveSharedMmapWrite at h
  simp only at h
  split at h
  · rename_i c hobj
    split_ifs at h
    all_goals try
      obtain ⟨-, rfl⟩ := h
      exact .refl hk
    split at h
    · obtain ⟨-, rfl⟩ := h
      exact .refl hk
    · obtain ⟨-, rfl⟩ := h
      refine Kernel.obtains_of_pages hk rfl rfl fun c' ↦ ?_
      by_cases hc : c' = c
      · subst hc
        rw [Caches.cache_setCache_self]
      · rw [Caches.cache_setCache_of_ne _ _ hc]
  · obtain ⟨-, rfl⟩ := h
    exact .refl hk

namespace MemorySet

/-- The state in which the fault is resolved: the same, or with one area grown downwards. -/
structure Grown (op : Op) (s s₁ : MmState) : Prop where
  pageTable : s₁.ms.pageTable = s.ms.pageTable
  kernel : s₁.k = s.k
  geometry : Geometry s₁.ms.areas
  area : ∀ x ∈ s₁.ms.areas, ∃ a ∈ s.ms.areas, x.dataFrames = a.dataFrames ∧
    x.mapPerm = a.mapPerm ∧ ∀ v, PageOf op s.ms x a v v
  recorded : ∀ a ∈ s.ms.areas, ∃ x ∈ s₁.ms.areas, x.dataFrames = a.dataFrames
  count : ∀ p, s₁.ms.count p = s.ms.count p

theorem Grown.refl {op : Op} {s : MmState} (h : Geometry s.ms.areas) : Grown op s s :=
  ⟨rfl, rfl, h, fun x hx ↦ ⟨x, hx, rfl, rfl, fun v ↦ .refl x v⟩, fun a ha ↦ ⟨a, ha, rfl⟩,
    fun _ ↦ rfl⟩

theorem grown_expandGrowsDown {s : MmState} {ms : MemorySet} {cause : PageFaultCause}
    {stval idx : Nat} {userSp : Option Nat} (hgeo : Geometry s.ms.areas)
    (hout : ∀ a ∈ s.ms.areas, a.vpnRange.contain (floorVpn (virtAddr stval)) = false)
    (h : s.ms.expandGrowsDown (floorVpn (virtAddr stval)) userSp = some (idx, ms)) :
    Grown (.fault cause stval userSp) s { s with ms := ms } := by
  have hsp : userSp.isSome = true := by
    cases userSp with
    | none => simp [expandGrowsDown] at h
    | some sp => rfl
  have hgeo' := geometry_expandGrowsDown hout h hgeo
  obtain ⟨l₁, a, l₂, hareas, -, hgrows, hstart, rfl⟩ := expandGrowsDown_spec h
  refine ⟨rfl, rfl, hgeo', fun x hx ↦ ?_, fun b hb ↦ ?_, fun p ↦ ?_⟩
  · rcases mem_append_cons_iff.mp hx with rfl | hx
    · refine ⟨a, by simp [hareas], rfl, rfl, fun v ↦ ⟨⟨rfl, rfl, rfl, rfl, rfl⟩, fun _ ↦ ?_, ?_⟩⟩
      · exact .inr (.inr ⟨hsp, hgrows, hstart⟩)
      · exact fun _ _ _ _ _ ↦ .inl ⟨hsp, hgrows, hstart⟩
    · refine ⟨x, ?_, rfl, rfl, fun v ↦ .refl x v⟩
      rw [hareas]
      exact mem_append_cons_iff.mpr (.inr hx)
  · rw [hareas, mem_append_cons_iff] at hb
    rcases hb with rfl | hb
    · exact ⟨_, List.mem_append_right _ List.mem_cons_self, rfl⟩
    · exact ⟨b, mem_append_cons_iff.mpr (.inr hb), rfl⟩
  · simp only [count, hareas, List.map_append, List.map_cons]
    rfl

/-! ### One page of one area -/

section Page

variable {env : OpEnv} {op : Op} {s s₁ s' : MmState} {idx vpn : Nat} {x : MapArea}
  {d : Std.ExtTreeMap Nat Nat}

theorem effect_of_page (h : s.ms.Sound s.k) (hgrown : Grown op s s₁)
    (hx : s₁.ms.areas[idx]? = some x) (hin : x.start ≤ vpn ∧ vpn < x.stop)
    (hareas : s'.ms.areas = s₁.ms.areas.set idx (x.withFrames d))
    (hobt : s.k.Obtains (s.ms.pins env.others) s'.k)
    (hframe : ∀ v : Nat, v ≠ vpn → d[v]? = x.dataFrames[v]?)
    (hentry : ∀ v, v ≠ vpn → s'.ms.pageTable.entry v = s.ms.pageTable.entry v)
    (hpage : ∀ p : Nat, d[vpn]? = some p → PageOrigin env op s s' (x.withFrames d) vpn p)
    (hstorable : (s'.ms.pageTable.entry vpn).storable = true → (∃ p, d[vpn]? = some p) ∨
      ((s.ms.pageTable.entry vpn).storable = true ∧ x.dataFrames[vpn]? = none)) :
    Effect env op s s' := by
  obtain ⟨l₁, l₂, hsplit, -, hset⟩ := exists_split hx
  have hareas' : s'.ms.areas = l₁ ++ x.withFrames d :: l₂ := hareas.trans (hset _)
  -- pages of the other areas lie elsewhere
  have hother : ∀ y ∈ l₁ ++ l₂, y.dataFrames[vpn]? = none := by
    intro y hy
    have hgeo := hgrown.geometry
    rw [hsplit] at hgeo
    refine eq_none_iff_forall_ne_some.mpr fun p hp ↦ ?_
    have := hgeo.outside hy hp
    omega
  have hmem : ∀ y ∈ s'.ms.areas, y = x.withFrames d ∨
      y ∈ s₁.ms.areas ∧ y.dataFrames[vpn]? = none := by
    intro y hy
    rw [hareas', mem_append_cons_iff] at hy
    rw [hsplit, mem_append_cons_iff]
    exact hy.imp_right fun hy ↦ ⟨.inr hy, hother y hy⟩
  have hback : ∀ y ∈ s₁.ms.areas, y = x ∨ y ∈ s'.ms.areas ∧ y.dataFrames[vpn]? = none := by
    intro y hy
    rw [hsplit, mem_append_cons_iff] at hy
    rw [hareas', mem_append_cons_iff]
    exact hy.imp_right fun hy ↦ ⟨.inr hy, hother y hy⟩
  have hxmem : x ∈ s₁.ms.areas := List.mem_of_getElem? hx
  refine ⟨hobt, fun y hy ↦ ?_, fun y hy v p hp ↦ ?_, fun y hy z hz v w p hp hq hfresh ↦ ?_,
    fun _ v hv ↦ ?_⟩
  · rcases hmem y hy with rfl | ⟨hy, -⟩
    · obtain ⟨a, ha, -, -, hof⟩ := hgrown.area x hxmem
      exact .old ha (hof vpn).withFrames_left.same
    · obtain ⟨a, ha, -, -, hof⟩ := hgrown.area y hy
      exact .old ha (hof vpn).same
  · rcases hmem y hy with rfl | ⟨hy, hnone⟩
    · by_cases hv : v = vpn
      · subst hv
        exact hpage p hp
      · obtain ⟨a, ha, hframes, hperm, hof⟩ := hgrown.area x hxmem
        rw [MapArea.dataFrames_withFrames, hframe v hv, hframes] at hp
        exact .kept ha (hof v).withFrames_left hp hperm (hentry v hv)
    · obtain ⟨a, ha, hframes, hperm, hof⟩ := hgrown.area y hy
      have hv : v ≠ vpn := by
        rintro rfl
        simp [hp] at hnone
      rw [hframes] at hp
      exact .kept ha (hof v) hp hperm (hentry v hv)
  · -- only the page of the fault can have a fresh frame
    have honly : ∀ y ∈ s'.ms.areas, ∀ v : Nat, y.dataFrames[v]? = some p → v = vpn := by
      intro y hy v hp
      by_contra hv
      have hold : ∃ a ∈ s₁.ms.areas, a.dataFrames[v]? = some p := by
        rcases hmem y hy with rfl | ⟨hy, -⟩
        · exact ⟨x, hxmem, (hframe v hv).symm.trans hp⟩
        · exact ⟨y, hy, hp⟩
      obtain ⟨y', hy', hp'⟩ := hold
      obtain ⟨a, ha, hframes, -⟩ := hgrown.area y' hy'
      rw [hframes] at hp'
      exact h.not_fresh ha hp' hfresh
    rw [honly y hy v hp, honly z hz w hq]
  · have hnew : x.withFrames d ∈ s'.ms.areas := by simp [hareas']
    by_cases hrec : s.ms.Recorded v
    · obtain ⟨a, ha, p, hp⟩ := hrec
      obtain ⟨y, hy, hframes⟩ := hgrown.recorded a ha
      rw [← hframes] at hp
      rcases hback y hy with rfl | ⟨hy, -⟩
      · by_cases hvv : v = vpn
        · subst hvv
          refine (hstorable hv).imp (fun ⟨q, hq⟩ ↦ ⟨_, hnew, q, hq⟩) fun ⟨_, hnone⟩ ↦ ?_
          simp [hp] at hnone
        · exact .inl ⟨_, hnew, p, (hframe v hvv).trans hp⟩
      · exact .inl ⟨y, hy, p, hp⟩
    · by_cases hvv : v = vpn
      · subst hvv
        exact (hstorable hv).imp (fun ⟨q, hq⟩ ↦ ⟨_, hnew, q, hq⟩) fun ⟨hst, _⟩ ↦ ⟨hst, hrec⟩
      · exact .inr ⟨hentry v hvv ▸ hv, hrec⟩

end Page

/-! ### The branches of the fault -/

section Fault

variable {env : OpEnv} {s s₁ : MmState} {cause : PageFaultCause} {stval : Nat} {userSp : Option Nat}
  {idx vpn : Nat} {x : MapArea}

theorem set_self {areas : List MapArea} (hx : areas[idx]? = some x) :
    areas = areas.set idx (x.withFrames x.dataFrames) := by
  obtain ⟨hlt, rfl⟩ := List.getElem?_eq_some_iff.mp hx
  exact (List.set_getElem_self hlt).symm

theorem Grown.pins {op : Op} (h : Grown op s s₁) : s₁.ms.pins env.others = s.ms.pins env.others := by
  funext p
  simp only [MemorySet.pins, h.count]

theorem Grown.effect {op : Op} (hgrown : Grown op s s₁) (h : s.ms.Sound s.k) {k : Kernel}
    (hobt : s.k.Obtains (s.ms.pins env.others) k) : Effect env op s { s₁ with k := k } := by
  refine ⟨hobt, fun y hy ↦ ?_, fun y hy v p hp ↦ ?_, fun y hy z hz v w p hp hq hfresh ↦ ?_,
    fun _ v hv ↦ ?_⟩
  · obtain ⟨a, ha, -, -, hof⟩ := hgrown.area y hy
    exact .old ha (hof 0).same
  · obtain ⟨a, ha, hframes, hperm, hof⟩ := hgrown.area y hy
    rw [hframes] at hp
    exact .kept ha (hof v) hp hperm (by rw [← hgrown.pageTable])
  · obtain ⟨a, ha, hframes, -⟩ := hgrown.area y hy
    rw [hframes] at hp
    exact absurd hfresh (h.not_fresh ha hp)
  · have hv' : (s.ms.pageTable.entry v).storable = true := by
      rw [← hgrown.pageTable]
      exact hv
    by_cases hrec : s.ms.Recorded v
    · left
      obtain ⟨a, ha, p, hp⟩ := hrec
      obtain ⟨y, hy, hframes⟩ := hgrown.recorded a ha
      exact ⟨y, hy, p, by rw [hframes]; exact hp⟩
    · exact .inr ⟨hv', hrec⟩

theorem Grown.effect_same {op : Op} (hgrown : Grown op s s₁) (h : s.ms.Sound s.k)
    (hk : s.k.WellFormed) : Effect env op s s₁ := by
  have heffect : Effect env op s { s₁ with k := s.k } := hgrown.effect h (.refl hk)
  rw [← hgrown.kernel] at heffect
  exact heffect

section Branches

variable (hgrown : Grown (.fault cause stval userSp) s s₁) (h : s.ms.Sound s.k)
  (hk : s.k.WellFormed) (hx : s₁.ms.areas[idx]? = some x)

include hgrown h hk hx

section

variable (hin : x.start ≤ vpn ∧ vpn < x.stop)
include hin

theorem Grown.cowFault {pte : PageTableEntry} (hpte : s.ms.pageTable.translate vpn = some pte) :
    (cowFault s₁ env.others idx x vpn).Keeps (Effect env (.fault cause stval userSp) s) := by
  have hsame : Effect env (.fault cause stval userSp) s s₁ := hgrown.effect_same h hk
  obtain ⟨a, ha, hframes, hperm, hof⟩ := hgrown.area x (List.mem_of_getElem? hx)
  have hvalid := isValid_of_translate hpte
  unfold MemorySet.cowFault
  split_ifs with hshared hwrite
  · exact keeps_err.mpr hsame
  · exact keeps_err.mpr hsame
  have hshared' : a.shared = false := by
    rw [← (hof vpn).same.shared]
    exact Bool.not_eq_true _ ▸ hshared
  have hwrite' : a.mapPerm.write = true := by
    rw [← hperm]
    simpa using hwrite
  split
  · exact keeps_err.mpr hsame
  rename_i old hold
  have hrec : a.dataFrames[vpn]? = some old := by
    rw [← hframes]
    exact hold
  split_ifs with hcount
  · obtain ⟨hone, hanon⟩ := hcount
    have hanon' : a.fileBacking = none := by
      have := (hof vpn).same.file
      rw [hanon] at this
      simpa using this.symm
    have hentry : ∀ v, ((s₁.ms.pageTable.modifyPte vpn (ofPerm x.mapPerm)).clearPteCow
        vpn).entry v = if v = vpn then
          ⟨(s.ms.pageTable.entry vpn).ppn, (ofPerm a.mapPerm).mapped⟩
        else s.ms.pageTable.entry v := by
      intro v
      rw [hgrown.pageTable, hperm, entry_modifyPte_clearPteCow hvalid]
    have hcount' : strongCount s env.others old = 1 := by
      rw [← hone]
      simp only [strongCount, hgrown.count, hgrown.kernel]
    refine keeps_ok.mpr (effect_of_page h hgrown hx hin (set_self hx)
      ?_ (fun _ _ ↦ rfl) (fun v hv ↦ ?_) (fun p hp ↦ ?_) (fun _ ↦ .inl ⟨old, hold⟩))
    · rw [hgrown.kernel]
      exact .refl hk
    · exact (hentry v).trans (if_neg hv)
    · obtain rfl : old = p := some.inj (hold.symm.trans hp)
      exact .resolved rfl ha (hof vpn).withFrames_left hrec hperm hshared' hanon' hwrite' hcount'
        ((hentry vpn).trans (if_pos rfl))
  · rcases hone : x.replaceFrame ⟨s₁.ms.pageTable, s₁.k⟩ vpn (s₁.k.phys.mem old) with ⟨r, x', ps⟩
    have hk₁ : s₁.k.WellFormed := by rw [hgrown.kernel]; exact hk
    obtain ⟨hobt, hres⟩ := MapArea.replaceFrame_spec (s.ms.pins env.others)
      hk₁ hone
    simp only [hgrown.kernel, hgrown.pageTable] at hobt hres
    have hremap : x.remapOneWithData ⟨s₁.ms.pageTable, s₁.k⟩ vpn (s₁.k.phys.mem old) = (r, x', ps) :=
      hone
    rw [hremap]
    rcases hres with ⟨rfl, p, rfl, -, hentry, hloose, hsupply, hmem⟩ | ⟨⟨e, rfl⟩, rfl, hentry⟩
    · refine keeps_ok.mpr (effect_of_page h hgrown hx hin rfl hobt (fun v hv ↦ ?_)
        (fun v hv ↦ ?_) (fun q hq ↦ ?_) (fun _ ↦ .inl ⟨p, ?_⟩))
      · simp [getElem?_insert, Ne.symm hv]
      · exact (hentry v).trans (if_neg hv)
      · rw [getElem?_insert_self, some.injEq] at hq
        subst hq
        refine .replaced rfl ha (hof vpn).withFrames_left hrec hperm hshared' hwrite'
          ⟨hloose, hsupply⟩ hmem ?_
        rw [← hperm]
        exact (hentry vpn).trans (if_pos rfl)
      · exact getElem?_insert_self
    · refine keeps_err.mpr (effect_of_page h hgrown hx hin rfl hobt
        (fun _ _ ↦ rfl) (fun v _ ↦ hentry v) (fun q hq ↦ ?_) (fun _ ↦ .inl ⟨old, hold⟩))
      have hq' : a.dataFrames[vpn]? = some q := by
        rw [← hframes]
        exact hq
      exact .kept ha (hof vpn).withFrames_left hq' hperm (hentry vpn)

theorem Grown.mkwriteFault {pte : PageTableEntry} (hpte : s.ms.pageTable.translate vpn = some pte)
    (hshared : x.shared = true) (hwrite : x.mapPerm.write = true) (io : IoEnv) (b : FileBacking) :
    (mkwriteFault s₁ io x b vpn).Keeps (Effect env (.fault cause stval userSp) s) := by
  obtain ⟨a, ha, hframes, hperm, hof⟩ := hgrown.area x (List.mem_of_getElem? hx)
  have hvalid := isValid_of_translate hpte
  have hk₁ : s₁.k.WellFormed := by rw [hgrown.kernel]; exact hk
  fun_cases MemorySet.mkwriteFault s₁ io x b vpn with
  | case5 _ _ _ _ _ _ _ _ _ _ _ _ hreserve =>
    have hobt := obtains_reserveSharedMmapWrite (s.ms.pins env.others) hk₁ hreserve
    rw [hgrown.kernel] at hobt
    exact keeps_err.mpr (hgrown.effect h hobt)
  | case6 _ _ _ _ _ _ _ frame hframe _ _ hreserve =>
    have hrec : a.dataFrames[vpn]? = some frame := by
      rw [← hframes]
      exact hframe
    have hobt := obtains_reserveSharedMmapWrite (s.ms.pins env.others) hk₁ hreserve
    rw [hgrown.kernel] at hobt
    have hentry : ∀ v, (s₁.ms.pageTable.modifyPte vpn (ofPerm x.mapPerm)).entry v =
        if v = vpn then ⟨(s.ms.pageTable.entry vpn).ppn, (ofPerm a.mapPerm).mapped⟩
        else s.ms.pageTable.entry v := by
      intro v
      rw [hgrown.pageTable, hperm, entry_modifyPte hvalid]
    refine keeps_ok.mpr (effect_of_page h hgrown hx hin (set_self hx)
      hobt (fun _ _ ↦ rfl) (fun v hv ↦ ?_) (fun p hp ↦ ?_) (fun _ ↦ .inl ⟨frame, hframe⟩))
    · exact (hentry v).trans (if_neg hv)
    · obtain rfl : frame = p := some.inj (hframe.symm.trans hp)
      refine .opened rfl ha (hof vpn).withFrames_left hrec hperm ?_ ?_
        ((hentry vpn).trans (if_pos rfl))
      · rw [← (hof vpn).same.shared]
        exact hshared
      · rw [← hperm]
        exact hwrite
  | _ => exact keeps_err.mpr (hgrown.effect_same h hk)

theorem Grown.lazyFault (hpte : s.ms.pageTable.translate vpn = none) (io : IoEnv) :
    (lazyFault s₁ env.others io cause idx x vpn).Keeps (Effect env (.fault cause stval userSp) s) := by
  obtain ⟨a, ha, hframes, hperm, hof⟩ := hgrown.area x (List.mem_of_getElem? hx)
  unfold MemorySet.lazyFault
  split_ifs with hneeded
  · exact keeps_err.mpr (hgrown.effect_same h hk)
  have haccess : a.mapPerm.accessible = true := by
    rw [← hperm]
    cases cause <;>
      simp [MapPermission.contains, PageFaultCause.neededPerm] at hneeded <;>
      simp [MapPermission.accessible, hneeded]
  -- an entry that the walk does not see cannot be storable where the page is recorded
  have hnotst : ∀ p : Nat, x.dataFrames[vpn]? = some p →
      (s.ms.pageTable.entry vpn).storable = false := by
    intro p hp
    rw [hframes] at hp
    by_contra hst
    simp only [Bool.not_eq_false, PageTableEntry.storable, Bool.and_eq_true] at hst
    obtain ⟨-, hread⟩ := h.writable a ha vpn p hp hst.2
    rw [translate_eq] at hpte
    simp [PageTableEntry.visible, hst.1, hread] at hpte
  have hk₁ : s₁.k.WellFormed := by rw [hgrown.kernel]; exact hk
  rcases hone : x.mapOne ⟨s₁.ms.pageTable, s₁.k⟩ io (s₁.ms.pins env.others) vpn with ⟨r, x', ps⟩
  obtain ⟨hobt, hres⟩ := MapArea.mapOne_spec hk₁ hone
  simp only [hgrown.kernel, hgrown.pageTable, hgrown.pins] at hobt hres
  rcases hres with ⟨fill, p, rfl, rfl, hinvalid, hentry, hfor⟩ | ⟨⟨e, rfl⟩, hx', hentry⟩
  · refine keeps_ok.mpr (effect_of_page h hgrown hx hin rfl hobt (fun v hv ↦ ?_)
      (fun v hv ↦ ?_) (fun q hq ↦ ?_) (fun _ ↦ .inl ⟨p, ?_⟩))
    · simp [getElem?_insert, Ne.symm hv]
    · exact (hentry v).trans (if_neg hv)
    · rw [getElem?_insert_self, some.injEq] at hq
      subst hq
      exact .filled rfl ha (hof vpn).withFrames_left hperm haccess ⟨hfor.file, hfor.own⟩ hinvalid
        ((hentry vpn).trans (if_pos rfl))
    · exact getElem?_insert_self
  · have hd : ∃ d : Std.ExtTreeMap Nat Nat, x' = x.withFrames d ∧
        (∀ v : Nat, v ≠ vpn → d[v]? = x.dataFrames[v]?) ∧
        ∀ q : Nat, d[vpn]? = some q → x.dataFrames[vpn]? = some q := by
      rcases hx' with rfl | rfl
      · exact ⟨x'.dataFrames, rfl, fun _ _ ↦ rfl, fun _ hq ↦ hq⟩
      · refine ⟨_, rfl, fun v hv ↦ ?_, fun q hq ↦ ?_⟩
        · simp [getElem?_erase, Ne.symm hv]
        · simp at hq
    obtain ⟨d, rfl, hframe, hvpn⟩ := hd
    refine keeps_err.mpr (effect_of_page h hgrown hx hin rfl hobt hframe
      (fun v _ ↦ hentry v) (fun q hq ↦ ?_) (fun hst ↦ ?_))
    · have hrec : a.dataFrames[vpn]? = some q := by
        rw [← hframes]
        exact hvpn q hq
      exact .kept ha (hof vpn).withFrames_left hrec hperm (hentry vpn)
    · have hst' : (s.ms.pageTable.entry vpn).storable = true := by
        rw [← hentry vpn]
        exact hst
      refine .inr ⟨hst', eq_none_iff_forall_ne_some.mpr fun p hp ↦ ?_⟩
      simp [hnotst p hp] at hst'

end

theorem Grown.faultInArea (hin : x.vpnRange.contain vpn = true) (io : IoEnv) :
    (faultInArea s₁ env.others io cause idx x vpn).Keeps
      (Effect env (.fault cause stval userSp) s) := by
  have hsame : Effect env (.fault cause stval userSp) s s₁ := hgrown.effect_same h hk
  have hin' : x.start ≤ vpn ∧ vpn < x.stop := VPNRange.contain_eq_true.mp hin
  fun_cases MemorySet.faultInArea s₁ env.others io cause idx x vpn with
  | case2 _ hpte => exact hgrown.lazyFault h hk hx hin' (hgrown.pageTable ▸ hpte) io
  | case3 _ pte hpte => exact hgrown.cowFault h hk hx hin' (hgrown.pageTable ▸ hpte)
  | case4 _ pte hpte _ b hb =>
    obtain ⟨⟨-, -, hshared, hwrite⟩, -⟩ := Option.ite_none_right_eq_some.mp hb
    exact hgrown.mkwriteFault h hk hx hin' (hgrown.pageTable ▸ hpte) hshared hwrite io b
  | case5 => exact keeps_ok.mpr hsame
  | case1 | case6 => exact keeps_err.mpr hsame

end Branches

theorem effect_handlePageFault (h : s.ms.Sound s.k) (hk : s.k.WellFormed) (cause : PageFaultCause)
    (stval : Nat) (userSp : Option Nat) :
    (handlePageFault s env.others env.io cause stval userSp).Keeps
      (Effect env (.fault cause stval userSp) s) := by
  refine keeps_handlePageFault (effect_refl h hk) (fun idx a ha hcontain ↦
    (Grown.refl h.geometry).faultInArea h hk ha hcontain env.io) ?_
  intro idx ms a hout hexpand ha hstart
  have hgrown : Grown (.fault cause stval userSp) s { s with ms := ms } :=
    grown_expandGrowsDown h.geometry hout hexpand
  exact hgrown.faultInArea h hk ha (contain_of_start hgrown.geometry ha hstart) env.io

end Fault

end MemorySet

end RespOS.Mm
