import RespOS.Mm.EffectMove

/-!
# The effect of a fork

The child of a fork gets, for every page it inherits, the frame of the parent and an entry with the
flags of the parent; a page of a writable private area becomes read-only and copy-on-write on both
sides (`childEntry`, `parentEntry`). The two loops of `from_existed_user` are described by
`forkPages_spec` and `forkAreas_spec`, the whole call by `fork_spec`; `fork_ne_panic` says when the
`unwrap` on the entry of the parent succeeds.
-/

namespace RespOS.Mm

open RespOS.Basis RespOS.Fs List PageTable MapArea

namespace MemorySet

/-- The fork marks the pages of the area copy-on-write. -/
def forksCow (a : MapArea) : Bool := !a.shared && a.mapPerm.write

def cowFlags (e : PageTableEntry) : PTEFlags :=
  { PTEFlags.mapped { e.flags with write := false, dirty := false } with cow := true }

def parentEntry (a : MapArea) (e : PageTableEntry) : PageTableEntry :=
  if forksCow a then ⟨e.ppn, cowFlags e⟩ else e

def childEntry (a : MapArea) (p : Nat) (e : PageTableEntry) : PageTableEntry :=
  ⟨p, if forksCow a then cowFlags e else e.flags.mapped⟩

section Fork

variable {a : MapArea} {st st' : ForkState}

theorem forkPage_spec {vpn ppn : Nat} {r : Except Errno Unit}
    (h : forkPage a vpn ppn (st.parent.entry vpn) st = (r, st')) (hk : st.k.WellFormed)
    (hvisible : (st.parent.entry vpn).visible = true) : (∀ ext, st.k.Obtains ext st'.k) ∧
      ((r = .ok () ∧
          (∀ v, st'.child.entry v =
            if v = vpn then childEntry a ppn (st.parent.entry vpn) else st.child.entry v) ∧
          ∀ v, st'.parent.entry v =
            if v = vpn then parentEntry a (st.parent.entry vpn) else st.parent.entry v) ∨
        ((∃ e, r = .error e) ∧ st'.parent = st.parent)) := by
  revert h
  fun_cases forkPage a vpn ppn (st.parent.entry vpn) st with
  | case1 cow flags e child phys hmap =>
    rintro ⟨⟩
    exact ⟨fun ext ↦ Kernel.obtains_setPhys hk (map_spec hmap).1, .inr ⟨⟨e, rfl⟩, rfl⟩⟩
  | case2 cow flags child phys hmap =>
    intro h
    obtain ⟨rfl, rfl⟩ := Prod.mk.inj h
    obtain ⟨hc, ⟨-, -, hentry⟩ | ⟨⟨e, ⟨⟩⟩, -⟩⟩ := map_spec hmap
    refine ⟨fun ext ↦ Kernel.obtains_setPhys hk hc, .inl ⟨rfl, ?_⟩⟩
    cases hcow : forksCow a with
    | false =>
      have hcow' : (!a.shared && a.mapPerm.write) = false := hcow
      simp only [cow, flags, hcow', Bool.false_eq_true, if_false] at hentry ⊢
      simp only [childEntry, parentEntry, hcow, Bool.false_eq_true, if_false]
      refine ⟨hentry, fun v ↦ ?_⟩
      split_ifs with hv
      · rw [hv]
      · rfl
    | true =>
      have hcow' : (!a.shared && a.mapPerm.write) = true := hcow
      simp only [cow, flags, hcow', if_true] at hentry ⊢
      simp only [childEntry, parentEntry, hcow, if_true]
      refine ⟨fun v ↦ ?_, fun v ↦ ?_⟩
      · have hself := hentry vpn
        rw [if_pos rfl] at hself
        rw [entry_setPteCow (by rw [hself]; rfl), hself, hentry]
        split_ifs <;> rfl
      · have hmod : ∀ w, (st.parent.modifyPte vpn { (st.parent.entry vpn).flags with
            write := false, dirty := false }).entry w = _ :=
          entry_modifyPte (PageTableEntry.isValid_of_visible hvisible)
        rw [entry_setPteCow (by rw [hmod, if_pos rfl]; rfl), hmod, hmod, if_pos rfl]
        split_ifs <;> rfl

/-- Every entry of the parent is as before, or belongs to a page of the area that was marked. -/
def ParentOf (areas : List MapArea) (pt pt' : PageTable) : Prop :=
  ∀ v, pt'.entry v = pt.entry v ∨ ∃ a ∈ areas, ∃ p, a.dataFrames[v]? = some p ∧
    forksCow a = true ∧ (pt.entry v).visible = true ∧ pt'.entry v = parentEntry a (pt.entry v)

/-- The page of the child that comes from page `v` of the area. -/
structure ChildPage (a : MapArea) (v p : Nat) (pt parent child : PageTable) : Prop where
  recorded : a.dataFrames[v]? = some p
  visible : (pt.entry v).visible = true
  child : child.entry v = childEntry a p (pt.entry v)
  parent : parent.entry v = parentEntry a (pt.entry v)

/-- What the loop over the pages of an area can end with. -/
def PagesForked (a : MapArea) (vpns : List Nat) (frames : Std.ExtTreeMap Nat Nat) (st : ForkState) :
    Outcome ForkState (Std.ExtTreeMap Nat Nat) → Prop
  | .panic => ∃ v ∈ vpns, ∃ p, a.dataFrames[v]? = some p ∧ (st.parent.entry v).visible = false
  | .err _ st' => (∀ ext, st.k.Obtains ext st'.k) ∧
      (∀ v ∉ vpns, st'.parent.entry v = st.parent.entry v) ∧ ParentOf [a] st.parent st'.parent
  | .ok frames' st' => (∀ ext, st.k.Obtains ext st'.k) ∧
      (∀ v ∉ vpns, frames'[v]? = frames[v]? ∧ st'.child.entry v = st.child.entry v ∧
        st'.parent.entry v = st.parent.entry v) ∧
      ∀ v ∈ vpns, (frames'[v]? = frames[v]? ∧ st'.child.entry v = st.child.entry v ∧
          st'.parent.entry v = st.parent.entry v) ∨
        ∃ p, frames'[v]? = some p ∧ ChildPage a v p st.parent st'.parent st'.child

variable {frames : Std.ExtTreeMap Nat Nat} {areas todo : List MapArea}
  {res : Outcome ForkState (List MapArea)} {s : MmState}

theorem PagesForked.skip {vpn : Nat} {vpns : List Nat}
    {o : Outcome ForkState (Std.ExtTreeMap Nat Nat)} (hnotin : vpn ∉ vpns)
    (h : PagesForked a vpns frames st o) : PagesForked a (vpn :: vpns) frames st o := by
  cases o with
  | panic =>
    obtain ⟨v, hv, hp⟩ := h
    exact ⟨v, mem_cons_of_mem vpn hv, hp⟩
  | err e st' => exact ⟨h.1, fun v hv ↦ h.2.1 v (not_mem_of_not_mem_cons hv), h.2.2⟩
  | ok frames' st' =>
    obtain ⟨hobt, hout, hin⟩ := h
    exact ⟨hobt, fun v hv ↦ hout v (not_mem_of_not_mem_cons hv),
      forall_mem_cons.mpr ⟨.inl (hout vpn hnotin), hin⟩⟩

theorem forkPages_spec {vpns : List Nat} (hk : st.k.WellFormed) (hnodup : vpns.Nodup) :
    PagesForked a vpns frames st (forkPages a vpns frames st) := by
  fun_induction forkPages a vpns frames st with
  | case1 => exact ⟨fun ext ↦ .refl hk, fun v _ ↦ ⟨rfl, rfl, rfl⟩, by simp⟩
  | case2 vpn vpns frames st _ ih =>
    obtain ⟨hnotin, hnodup⟩ := nodup_cons.mp hnodup
    exact (ih hk hnodup).skip hnotin
  | case3 vpn vpns frames st ppn hrec htr =>
    rw [translate_eq] at htr
    exact ⟨vpn, mem_cons_self, ppn, (by split_ifs at hrec; exact hrec), by simpa using htr⟩
  | case4 vpn vpns frames st ppn hrec pte htr e st₁ hpage =>
    rw [translate_eq] at htr
    obtain ⟨hvisible, ⟨⟩⟩ := Option.ite_none_right_eq_some.mp htr
    obtain ⟨hobt, ⟨⟨⟩, -⟩ | ⟨-, hparent⟩⟩ := forkPage_spec hpage hk hvisible
    exact ⟨hobt, fun v _ ↦ by rw [hparent], fun v ↦ .inl (by rw [hparent])⟩
  | case5 vpn vpns frames st ppn hrec pte htr st₁ hpage ih =>
    obtain ⟨hnotin, hnodup⟩ := nodup_cons.mp hnodup
    have hppn : a.dataFrames[vpn]? = some ppn := by
      split_ifs at hrec
      exact hrec
    rw [translate_eq] at htr
    obtain ⟨hvisible, ⟨⟩⟩ := Option.ite_none_right_eq_some.mp htr
    obtain ⟨hobt, ⟨-, hchild, hparent⟩ | ⟨⟨_, ⟨⟩⟩, -⟩⟩ := forkPage_spec hpage hk hvisible
    -- the other pages are untouched, so the rest is relative to the same table
    have hkept : ∀ v, v ≠ vpn → (frames.insert vpn ppn)[v]? = frames[v]? ∧
        st₁.child.entry v = st.child.entry v ∧ st₁.parent.entry v = st.parent.entry v := by
      intro v hv
      rw [hchild, hparent, if_neg hv, if_neg hv, Std.ExtTreeMap.getElem?_insert,
        if_neg (by simpa using hv.symm)]
      exact ⟨rfl, rfl, rfl⟩
    have hself : st₁.parent.entry vpn = parentEntry a (st.parent.entry vpn) := by
      rw [hparent, if_pos rfl]
    have hrest := ih (hobt fun _ ↦ 0).1 hnodup
    generalize forkPages a vpns (frames.insert vpn ppn) st₁ = o at hrest ⊢
    cases o with
    | panic =>
      obtain ⟨v, hv, p, hp, hnot⟩ := hrest
      rw [(hkept v (ne_of_mem_of_not_mem hv hnotin)).2.2] at hnot
      exact ⟨v, mem_cons_of_mem vpn hv, p, hp, hnot⟩
    | err e st' =>
      obtain ⟨hobt', hout, hof⟩ := hrest
      refine ⟨fun ext ↦ (hobt ext).trans (hobt' ext), fun v hv ↦ ?_, fun v ↦ ?_⟩
      · obtain ⟨hne, hv⟩ := ne_and_not_mem_of_not_mem_cons hv
        rw [hout v hv, (hkept v hne).2.2]
      · by_cases hv : v = vpn
        · subst hv
          rw [hout v hnotin, hself]
          by_cases hcow : forksCow a = true
          · exact .inr ⟨a, by simp, ppn, hppn, hcow, hvisible, rfl⟩
          · exact .inl (if_neg hcow)
        · simpa only [(hkept v hv).2.2] using hof v
    | ok frames' st' =>
      obtain ⟨hobt', hout, hin⟩ := hrest
      refine ⟨fun ext ↦ (hobt ext).trans (hobt' ext), fun v hv ↦ ?_,
        forall_mem_cons.mpr ⟨.inr ⟨ppn, ?_, hppn, hvisible, ?_, ?_⟩, fun v hv ↦ ?_⟩⟩
      · obtain ⟨hne, hv⟩ := ne_and_not_mem_of_not_mem_cons hv
        simpa only [hkept v hne] using hout v hv
      · rw [(hout vpn hnotin).1, Std.ExtTreeMap.getElem?_insert_self]
      · rw [(hout vpn hnotin).2.1, hchild, if_pos rfl]
      · rw [(hout vpn hnotin).2.2, hself]
      · have hsame := hkept v (ne_of_mem_of_not_mem hv hnotin)
        rcases hin v hv with hpage | ⟨p, hp, hpage⟩
        · exact .inl (by simpa only [hsame] using hpage)
        · obtain ⟨hrecorded, hvis, hch, hpa⟩ := hpage
          rw [hsame.2.2] at hvis hch hpa
          exact .inr ⟨p, hp, hrecorded, hvis, hch, hpa⟩

/-- The child's area that comes from `a`. -/
structure ChildArea (a c : MapArea) (pt parent child : PageTable) : Prop where
  inherited : a.dontfork = false
  eq : c = a.withFrames c.dataFrames
  page : ∀ v p : Nat, c.dataFrames[v]? = some p → ChildPage a v p pt parent child

/-- What the loop over the areas can end with. -/
def AreasForked (todo areas : List MapArea) (st : ForkState) :
    Outcome ForkState (List MapArea) → Prop
  | .panic => ∃ a ∈ todo, ∃ v p : Nat, a.dataFrames[v]? = some p ∧
      (st.parent.entry v).visible = false
  | .err _ st' => (∀ ext, st.k.Obtains ext st'.k) ∧ ParentOf todo st.parent st'.parent
  | .ok areas' st' => (∀ ext, st.k.Obtains ext st'.k) ∧ ParentOf todo st.parent st'.parent ∧
      ∃ new, areas' = areas ++ new ∧
        (new.map MapArea.vpnRange).Sublist (todo.map MapArea.vpnRange) ∧
        (∀ c ∈ new, ∃ a ∈ todo, ChildArea a c st.parent st'.parent st'.child) ∧
        ∀ v, (∀ c ∈ new, c.dataFrames[v]? = none) → st'.child.entry v = st.child.entry v

theorem ParentOf.mono {areas' : List MapArea} {pt pt' : PageTable} (h : ParentOf areas pt pt')
    (hsub : ∀ a ∈ areas, a ∈ areas') : ParentOf areas' pt pt' := by
  intro v
  rcases h v with heq | ⟨a, ha, hrest⟩
  · exact .inl heq
  · exact .inr ⟨a, hsub a ha, hrest⟩

theorem AreasForked.skip (h : AreasForked todo areas st res) (a : MapArea) :
    AreasForked (a :: todo) areas st res := by
  cases res with
  | panic =>
    obtain ⟨b, hb, hrest⟩ := h
    exact ⟨b, mem_cons_of_mem a hb, hrest⟩
  | err e st' => exact ⟨h.1, h.2.mono fun b hb ↦ mem_cons_of_mem a hb⟩
  | ok areas' st' =>
    obtain ⟨hobt, hparent, new, hareas, hsub, hnew, hchild⟩ := h
    refine ⟨hobt, hparent.mono fun b hb ↦ mem_cons_of_mem a hb, new, hareas,
      hsub.trans (sublist_cons_self _ _), fun c hc ↦ ?_, hchild⟩
    obtain ⟨b, hb, hbc⟩ := hnew c hc
    exact ⟨b, mem_cons_of_mem a hb, hbc⟩

theorem AreasForked.step {rest : List MapArea} {st₁ : ForkState} {c : MapArea}
    (hgeo : Geometry (a :: rest)) (hobt : ∀ ext, st.k.Obtains ext st₁.k)
    (hparent : ∀ v, st₁.parent.entry v = st.parent.entry v ∨ a.start ≤ v ∧ v < a.stop ∧
      ∃ p, a.dataFrames[v]? = some p ∧ (st.parent.entry v).visible = true ∧
        st₁.parent.entry v = parentEntry a (st.parent.entry v))
    (hc : ChildArea a c st.parent st₁.parent st₁.child)
    (hchild : ∀ v, c.dataFrames[v]? = none → st₁.child.entry v = st.child.entry v)
    (h : AreasForked rest (areas ++ [c]) st₁ res) : AreasForked (a :: rest) areas st res := by
  -- the pages of the areas to come lie outside this one
  have hout : ∀ b ∈ rest, ∀ v p : Nat, b.dataFrames[v]? = some p →
      ¬ (a.start ≤ v ∧ v < a.stop) := by
    intro b hb v p hp hin
    have hgeo' : Geometry ([] ++ a :: rest) := hgeo
    have := hgeo'.outside (by simpa using hb) hp
    omega
  have hsame : ∀ b ∈ rest, ∀ v p : Nat, b.dataFrames[v]? = some p →
      st₁.parent.entry v = st.parent.entry v := by
    intro b hb v p hp
    rcases hparent v with heq | ⟨hlo, hhi, -⟩
    · exact heq
    · exact absurd ⟨hlo, hhi⟩ (hout b hb v p hp)
  have hparentOf : ∀ pt', ParentOf rest st₁.parent pt' → ParentOf (a :: rest) st.parent pt' := by
    intro pt' hof v
    rcases hof v with heq | ⟨b, hb, p, hp, hcow, hvis, hentry⟩
    · rw [heq]
      rcases hparent v with heq' | ⟨-, -, p, hp, hvis, hentry⟩
      · exact .inl heq'
      by_cases hcow : forksCow a = true
      · exact .inr ⟨a, mem_cons_self, p, hp, hcow, hvis, hentry⟩
      · left
        rw [hentry]
        exact if_neg hcow
    · rw [hsame b hb v p hp] at hvis hentry
      exact .inr ⟨b, mem_cons_of_mem a hb, p, hp, hcow, hvis, hentry⟩
  cases res with
  | panic =>
    obtain ⟨b, hb, v, p, hp, hnot⟩ := h
    rw [hsame b hb v p hp] at hnot
    exact ⟨b, mem_cons_of_mem a hb, v, p, hp, hnot⟩
  | err e st' => exact ⟨fun ext ↦ (hobt ext).trans (h.1 ext), hparentOf _ h.2⟩
  | ok areas' st' =>
    obtain ⟨hobt', hparent', new, rfl, hsub, hnew, hchild'⟩ := h
    have hrec : ∀ v p : Nat, c.dataFrames[v]? = some p → a.start ≤ v ∧ v < a.stop := fun v p hp ↦
      (hgeo.wellFormed mem_cons_self).keys v p (hc.page v p hp).recorded
    refine ⟨fun ext ↦ (hobt ext).trans (hobt' ext), hparentOf _ hparent', c :: new, by simp, ?_, ?_, ?_⟩
    · have hrange : c.vpnRange = a.vpnRange := by rw [hc.eq]; rfl
      simp only [map_cons, hrange]
      exact hsub.cons_cons _
    · intro d hd
      rcases mem_cons.mp hd with rfl | hd
      · refine ⟨a, mem_cons_self, hc.inherited, hc.eq, fun v p hp ↦ ?_⟩
        obtain ⟨hrecorded, hvis, hch, hpa⟩ := hc.page v p hp
        have hin := hrec v p hp
        refine ⟨hrecorded, hvis, ?_, ?_⟩
        · rw [hchild' v fun e he ↦ ?_, hch]
          rw [Option.eq_none_iff_forall_ne_some]
          intro q hq
          obtain ⟨b, hb, hbe⟩ := hnew e he
          exact hout b hb v q (hbe.page v q hq).recorded hin
        · rcases hparent' v with heq | ⟨b, hb, q, hq, -⟩
          · rw [heq, hpa]
          · exact absurd hin (hout b hb v q hq)
      · obtain ⟨b, hb, hbd⟩ := hnew d hd
        refine ⟨b, mem_cons_of_mem a hb, hbd.inherited, hbd.eq, fun v p hp ↦ ?_⟩
        obtain ⟨hrecorded, hvis, hch, hpa⟩ := hbd.page v p hp
        rw [hsame b hb v p hrecorded] at hvis hch hpa
        exact ⟨hrecorded, hvis, hch, hpa⟩
    · intro v hv
      rw [hchild' v fun d hd ↦ hv d (mem_cons_of_mem c hd), hchild v (hv c mem_cons_self)]

theorem forkAreas_spec (hk : st.k.WellFormed) (hgeo : Geometry todo) :
    AreasForked todo areas st (forkAreas todo areas st) := by
  induction todo generalizing areas st with
  | nil => exact ⟨fun ext ↦ .refl hk, fun v ↦ .inl rfl, [], by simp, by simp, by simp, by simp⟩
  | cons a rest ih =>
    have hrestgeo : Geometry rest := Geometry.drop (show Geometry ([] ++ a :: rest) from hgeo)
    simp only [forkAreas]
    split_ifs with hdont
    · exact (ih hk hrestgeo).skip a
    have hpages : PagesForked a a.vpnRange.vpns ∅ st (forkPages a a.vpnRange.vpns ∅ st) :=
      forkPages_spec hk (VPNRange.nodup_vpns _)
    generalize forkPages a a.vpnRange.vpns ∅ st = o at hpages ⊢
    cases o with
    | panic =>
      obtain ⟨v, -, p, hp, hnot⟩ := hpages
      exact ⟨a, mem_cons_self, v, p, hp, hnot⟩
    | err e st' =>
      obtain ⟨hobt, -, hparent⟩ := hpages
      exact ⟨fun ext ↦ (hobt ext).trans (obtains_notifyAllClose areas (hobt ext).1),
        hparent.mono (by simp)⟩
    | ok frames st₁ =>
      obtain ⟨hobt, hout, hin⟩ := hpages
      simp only
      have hopen : ∀ ext, st₁.k.Obtains ext (notifyMmapOpen
          { a.fromAnother with dataFrames := frames } st₁.k) := fun ext ↦
        obtains_notifyMmapOpen _ (hobt ext).1
      have hany : ∀ v, (frames[v]? = none ∧ st₁.child.entry v = st.child.entry v ∧
          st₁.parent.entry v = st.parent.entry v) ∨ (a.start ≤ v ∧ v < a.stop) ∧
            ∃ p, frames[v]? = some p ∧ ChildPage a v p st.parent st₁.parent st₁.child := by
        intro v
        by_cases hv : v ∈ a.vpnRange.vpns
        · exact (hin v hv).imp (fun h ↦ by simpa using h) fun h ↦ ⟨VPNRange.mem_vpns.mp hv, h⟩
        · exact .inl (by simpa using hout v hv)
      refine AreasForked.step hgeo (fun ext ↦ (hobt ext).trans (hopen ext)) (fun v ↦ ?_)
        ⟨Bool.not_eq_true _ ▸ hdont, rfl, fun v p hp ↦ ?_⟩ (fun v hv ↦ ?_)
        (ih (hopen fun _ ↦ 0).1 hrestgeo)
      · rcases hany v with ⟨-, -, heq⟩ | ⟨⟨hlo, hhi⟩, p, -, hpage⟩
        · exact .inl heq
        · exact .inr ⟨hlo, hhi, p, hpage.recorded, hpage.visible, hpage.parent⟩
      · rcases hany v with ⟨hnone, -⟩ | ⟨-, q, hq, hpage⟩
        · exact absurd (hnone.symm.trans hp) (by simp)
        · obtain rfl : q = p := Option.some.inj (hq.symm.trans hp)
          exact hpage
      · rcases hany v with ⟨-, hch, -⟩ | ⟨-, q, hq, -⟩
        · exact hch
        · exact absurd (hq.symm.trans hv) (by simp)

/-- What a fork does to the parent, whether it succeeds or fails. -/
structure ParentAfter (s s' : MmState) : Prop where
  obtains : ∀ ext, s.k.Obtains ext s'.k
  areas : s'.ms.areas = s.ms.areas
  entries : ParentOf s.ms.areas s.ms.pageTable s'.ms.pageTable

structure ChildAfter (s s' : MmState) (child : MemorySet) : Prop where
  geometry : Geometry child.areas
  area : ∀ c ∈ child.areas, ∃ a ∈ s.ms.areas,
    ChildArea a c s.ms.pageTable s'.ms.pageTable child.pageTable
  blank : ∀ v, ¬ child.Recorded v → child.pageTable.entry v = {}

/-- What a fork can end with. -/
def ForkEnd (s : MmState) : Outcome MmState MemorySet → Prop
  | .panic => ∃ a ∈ s.ms.areas, ∃ v p : Nat, a.dataFrames[v]? = some p ∧
      (s.ms.pageTable.entry v).visible = false
  | .err _ s' => ParentAfter s s'
  | .ok child s' => ParentAfter s s' ∧ ChildAfter s s' child

variable (hgeo : Geometry s.ms.areas)
include hgeo

theorem geometry_child {new : List MapArea} {parent child : PageTable}
    (hsub : (new.map vpnRange).Sublist (s.ms.areas.map vpnRange))
    (hnew : ∀ c ∈ new, ∃ a ∈ s.ms.areas, ChildArea a c s.ms.pageTable parent child) : Geometry new := by
  obtain ⟨-, hordered⟩ := geometry_iff.mp hgeo
  refine geometry_iff.mpr ⟨fun c hc ↦ ?_, ?_⟩
  · obtain ⟨a, ha, hca⟩ := hnew c hc
    have hwf := hgeo.wellFormed ha
    rw [hca.eq]
    exact hwf.withFrames fun v p hp ↦ hwf.keys v p (hca.page v p hp).recorded
  · have hranges : (s.ms.areas.map vpnRange).Pairwise fun r r' ↦ r.stop ≤ r'.start :=
      pairwise_map.mpr hordered
    exact pairwise_map.mp (hranges.sublist hsub)

theorem fork_spec (hk : s.k.WellFormed) : ForkEnd s (fromExistedUser s) := by
  unfold fromExistedUser
  rcases halloc : s.k.phys.frameAlloc with ⟨_ | root, phys⟩
  · exact ⟨fun ext ↦ Kernel.obtains_setPhys hk ⟨0, Phys.frameAlloc_none halloc⟩, rfl,
      fun v ↦ .inl rfl⟩
  have hobt : ∀ ext, s.k.Obtains ext (s.k.setPhys phys) := fun ext ↦
    Kernel.obtains_setPhys hk ⟨1, (Phys.frameAlloc_some halloc).2.1⟩
  simp only
  have hareas : AreasForked s.ms.areas []
      ⟨s.ms.pageTable, fromKernel root, s.k.setPhys phys, []⟩ (forkAreas s.ms.areas []
        ⟨s.ms.pageTable, fromKernel root, s.k.setPhys phys, []⟩) :=
    forkAreas_spec (hobt fun _ ↦ 0).1 hgeo
  generalize forkAreas s.ms.areas []
    ⟨s.ms.pageTable, fromKernel root, s.k.setPhys phys, []⟩ = o at hareas ⊢
  cases o with
  | panic =>
    exact hareas
  | err e st =>
    exact ⟨fun ext ↦ (hobt ext).trans (hareas.1 ext), rfl, hareas.2⟩
  | ok areas st =>
    obtain ⟨hobt', hparent, new, rfl, hsub, hnew, hblank⟩ := hareas
    refine ⟨⟨fun ext ↦ (hobt ext).trans (hobt' ext), rfl, hparent⟩,
      geometry_child hgeo hsub hnew, hnew, fun v hv ↦ ?_⟩
    refine (hblank v fun c hc ↦ ?_).trans (entry_fromKernel root v)
    rw [Option.eq_none_iff_forall_ne_some]
    exact fun p hp ↦ hv ⟨c, hc, p, hp⟩

theorem fork_ne_panic (hk : s.k.WellFormed)
    (hvisible : ∀ a ∈ s.ms.areas, ∀ v p : Nat, a.dataFrames[v]? = some p →
      (s.ms.pageTable.entry v).visible = true) : fromExistedUser s ≠ .panic := by
  intro hpanic
  have h := fork_spec hgeo hk
  rw [hpanic] at h
  obtain ⟨a, ha, v, p, hp, hnot⟩ := h
  exact absurd (hvisible a ha v p hp) (by simp [hnot])

end Fork

end MemorySet

end RespOS.Mm
