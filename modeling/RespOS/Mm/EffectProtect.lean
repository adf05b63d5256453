import RespOS.Mm.EffectOps

/-!
# The effect of `mprotect`

`mprotect` treats the areas that meet its range one after the other. The pages of an area it has
treated have their new permission or are copies, those of the areas still to come are as before;
`Protecting` is this invariant of the loop. Where the copying of an area fails, the area is lost, and
what stays behind in the page table is read-only.
-/

namespace RespOS.Mm

open RespOS.Basis RespOS.Fs MapArea List Option PTEFlags PageTableEntry Std.ExtTreeMap

namespace MemorySet

/-! ### One area -/

/-- `mprotect` copies the resident pages of this area. -/
def copies (middle : MapArea) (perm : MapPermission) : Bool :=
  !middle.shared && middle.fileBacking.isSome && !middle.mapPerm.write && perm.write

def copiedEntry (middle : MapArea) (perm : MapPermission) (p : Nat) : PageTableEntry :=
  ⟨p, if middle.mapPerm.read || middle.mapPerm.execute then (PTEFlags.ofPerm perm).mapped
    else (PTEFlags.ofPerm middle.mapPerm).mapped⟩

def protectedEntry (middle : MapArea) (perm : MapPermission) (e : PageTableEntry) : PageTableEntry :=
  if e.visible = true then ⟨e.ppn, MapArea.protectFlags (residentPerm middle perm) e⟩ else e

section Middle

variable {perm : MapPermission} {middle : MapArea} {ps ps' : PtState}

theorem copies_eq_true : copies middle perm = true ↔ middle.shared = false ∧
    middle.fileBacking.isSome = true ∧ middle.mapPerm.write = false ∧ perm.write = true := by
  simp [copies, and_assoc]

theorem protectMiddle_of_not_copies (ext : Nat → Nat) (ps : PtState) (hk : ps.k.WellFormed) (hcopies : copies middle perm = false) :
    ∃ k pt, protectMiddle perm middle ps = (.ok (some { middle with mapPerm := perm }), ⟨pt, k⟩) ∧
      ps.k.Obtains ext k ∧
      (∀ v, middle.dataFrames[v]? = none → pt.entry v = ps.pt.entry v) ∧
      ∀ v p : Nat, middle.dataFrames[v]? = some p →
        pt.entry v = protectedEntry middle perm (ps.pt.entry v) := by
  have hnot : (!middle.shared && middle.fileBacking.isSome && !middle.mapPerm.write && perm.write) =
      false := hcopies
  unfold protectMiddle
  simp only [hnot, Bool.false_eq_true, if_false]
  have hpt : (if (middle.mapPerm.write && !perm.write) = true then
      { ps with k := middle.notifyMmapClose ps.k } else ps).pt = ps.pt := by
    split_ifs <;> rfl
  refine ⟨_, _, rfl, ?_, fun v hv ↦ ?_, fun v p hp ↦ ?_⟩
  · have hclose : ps.k.Obtains ext (if (middle.mapPerm.write && !perm.write) = true then
        { ps with k := middle.notifyMmapClose ps.k } else ps).k := by
      split_ifs
      · exact obtains_notifyMmapClose _ hk
      · exact .refl hk
    split_ifs at hclose ⊢
    all_goals first
      | exact hclose
      | exact hclose.trans (obtains_notifyMmapOpen _ hclose.1)
  all_goals rw [entry_foldl_modifyUserPtePerm _ nodup_keys]
  · rw [hpt, if_neg]
    rintro ⟨hmem, -⟩
    obtain ⟨p, hp⟩ := mem_keys_iff.mp hmem
    simp [hp] at hv
  · have hmem : v ∈ middle.dataFrames.keys := mem_keys_iff.mpr ⟨p, hp⟩
    simp only [hpt, hmem, true_and, protectedEntry, residentPerm]

/-- The pages of a private file area that becomes writable are copied; where a copy fails, the area is
lost, and every entry is as before or read-only. -/
theorem protectMiddle_of_copies (ext : Nat → Nat) (hk : ps.k.WellFormed) (hcopies : copies middle perm = true)
    (hown : ∀ v p i : Nat, middle.dataFrames[v]? = some p → p ≠ ps.k.phys.supply i)
    {res : Except Errno (Option MapArea)} (h : protectMiddle perm middle ps = (res, ps')) :
    ps.k.Obtains ext ps'.k ∧
      (∀ v, middle.dataFrames[v]? = none → ps'.pt.entry v = ps.pt.entry v) ∧
      ((∃ e, res = .error e) ∧ (∀ v, ps'.pt.entry v = ps.pt.entry v ∨
          ∃ p, ps'.pt.entry v = ⟨p, (ofPerm middle.mapPerm).mapped⟩) ∨
        ∃ d : Std.ExtTreeMap Nat Nat,
          res = .ok (some { middle with mapPerm := perm, dataFrames := d }) ∧
          (∀ v p : Nat, d[v]? = some p → ∃ old, middle.dataFrames[v]? = some old ∧
            ps'.pt.entry v = copiedEntry middle perm p ∧ ps'.k.Loose p ∧
            (∃ j, p = ps.k.phys.supply j) ∧ ps'.k.phys.mem p = ps.k.phys.mem old) ∧
          (∀ v old : Nat, middle.dataFrames[v]? = some old → ∃ p, d[v]? = some p) ∧
          ∀ v w p : Nat, d[v]? = some p → d[w]? = some p → v = w) := by
  obtain ⟨hshared, hfile, hread, hwrite⟩ := copies_eq_true.mp hcopies
  unfold protectMiddle at h
  simp only [hshared, hfile, hread, hwrite, Bool.not_false, Bool.not_true, Bool.and_true,
    Bool.and_false, Bool.false_eq_true, if_false, if_true] at h
  rcases hpriv : privatizeEach middle.dataFrames.keys middle ps with ⟨r, middle₁, ps₁⟩
  rw [hpriv] at h
  obtain ⟨vpns, d, hsub, hall, rfl, hp⟩ := privatizeEach_spec ext hk nodup_keys hown hpriv
  have houtside : ∀ v, middle.dataFrames[v]? = none → v ∉ vpns := by
    intro v hv hmem
    obtain ⟨p, hp⟩ := mem_keys_iff.mp (hsub hmem)
    simp [hp] at hv
  cases r with
  | error e =>
    obtain ⟨rfl, rfl⟩ := h
    refine ⟨hp.obtains, fun v hv ↦ hp.entry_eq v (houtside v hv), .inl ⟨⟨e, rfl⟩, fun v ↦ ?_⟩⟩
    by_cases hmem : v ∈ vpns
    · obtain ⟨-, p, -, -, -, hentry, -⟩ := hp.copied v hmem
      exact .inr ⟨p, hentry⟩
    · exact .inl (hp.entry_eq v hmem)
  | ok u =>
    obtain rfl := hall rfl
    have hresident : ((middle.withFrames d).shared && (middle.withFrames d).fileBacking.isSome) =
        false := by simp [hshared]
    simp only [hresident, Bool.false_eq_true, if_false, Prod.mk.injEq] at h
    obtain ⟨rfl, rfl⟩ := h
    have hkeys : ∀ v : Nat, v ∈ d.keys ↔ v ∈ middle.dataFrames.keys := by
      intro v
      by_cases hmem : v ∈ middle.dataFrames.keys
      · obtain ⟨-, p, -, hd, -⟩ := hp.copied v hmem
        exact ⟨fun _ ↦ hmem, fun _ ↦ mem_keys_iff.mpr ⟨p, hd⟩⟩
      · rw [mem_keys_iff, hp.frame_eq v hmem, ← mem_keys_iff]
    have hcopied : ∀ v p : Nat, d[v]? = some p → v ∈ middle.dataFrames.keys := fun v p hd ↦
      (hkeys v).mp (mem_keys_iff.mpr ⟨p, hd⟩)
    have hopen : ps₁.k.Obtains ext (notifyMmapOpen
        { middle.withFrames d with mapPerm := perm } ps₁.k) :=
      obtains_notifyMmapOpen _ hp.obtains.1
    refine ⟨hp.obtains.trans hopen, fun v hv ↦ ?_, .inr ⟨d, rfl, fun v p hd ↦ ?_, fun v old hv ↦ ?_,
      fun v w p hv hw ↦ ?_⟩⟩
    · have hnot := houtside v hv
      rw [dataFrames_withFrames, entry_foldl_modifyUserPtePerm _ nodup_keys, if_neg]
      · exact hp.entry_eq v hnot
      · exact fun hmem ↦ hnot ((hkeys v).mp hmem.1)
    · have hmem := hcopied v p hd
      obtain ⟨old, q, hold, hq, -, hentry, hloose, hsupply, hdata⟩ := hp.copied v hmem
      obtain rfl : q = p := some.inj (hq.symm.trans hd)
      refine ⟨old, hold, ?_, hopen.loose hloose, hsupply, ?_⟩
      · rw [dataFrames_withFrames,
          entry_foldl_modifyUserPtePerm _ nodup_keys, hentry]
        have hvisible : (⟨q, (ofPerm middle.mapPerm).mapped⟩ : PageTableEntry).visible =
            (middle.mapPerm.read || middle.mapPerm.execute) := by
          simp [visible, isValid, readable, executable, mapped, ofPerm, hread]
        rw [hvisible]
        simp only [(hkeys v).mpr hmem, true_and, copiedEntry]
        split_ifs <;> rfl
      · obtain ⟨-, n, hev⟩ := hopen
        rw [hev.mem_eq hloose.not_supply, hdata]
    · obtain ⟨-, p, -, hd, -⟩ := hp.copied v (mem_keys_iff.mpr ⟨old, hv⟩)
      exact ⟨p, hd⟩
    · exact hp.injective v (hcopied v p hv) w (hcopied w p hw) (hv.trans hw.symm)

end Middle

/-! ### The loop -/

theorem PageOrigin.later {env : OpEnv} {r : UserRange} {perm : MapPermission} {s s₁ s₂ : MmState}
    {a : MapArea} {v p : Nat} {ext : Nat → Nat} (h : PageOrigin env (.mprotect r perm) s s₁ a v p)
    (hentry : s₂.ms.pageTable.entry v = s₁.ms.pageTable.entry v) (hobt : s₁.k.Obtains ext s₂.k) :
    PageOrigin env (.mprotect r perm) s s₂ a v p := by
  cases h with
  | kept ha hof hrec hperm he => exact .kept ha hof hrec hperm (hentry.trans he)
  | protect hop ha hof hrec hv hperm hfile he =>
    exact .protect hop ha hof hrec hv hperm hfile (hentry.trans he)
  | copied hop ha hof hrec hv hperm hshared hfile hread hwrite hfresh hmem he =>
    refine .copied hop ha hof hrec hv hperm hshared hfile hread hwrite
      ⟨hobt.loose hfresh.1, hfresh.2⟩ ?_ (hentry.trans he)
    obtain ⟨-, n, hev⟩ := hobt
    rw [hev.mem_eq hfresh.1.not_supply, hmem]
  | resolved hop | replaced hop | opened hop | filled hop | moved hop | anonymous hop | segment hop
  | file hop => simp at hop

/-- The state of `mprotect` between two areas: those in `done` are treated, those in `todo` are as
before. -/
structure Protecting (env : OpEnv) (r : UserRange) (perm : MapPermission) (s : MmState)
    (done todo : List MapArea) (ps : PtState) : Prop where
  geometry : Geometry (done ++ todo)
  obtains : s.k.Obtains (s.ms.pins env.others) ps.k
  untouched : ∀ a ∈ todo, a ∈ s.ms.areas ∧ ∀ v p : Nat, a.dataFrames[v]? = some p →
    ps.pt.entry v = s.ms.pageTable.entry v
  area : ∀ a' ∈ done, ∃ a ∈ s.ms.areas, a'.SameBacking a
  page : ∀ a' ∈ done, ∀ v p : Nat, a'.dataFrames[v]? = some p →
    PageOrigin env (.mprotect r perm) s ⟨s.ms.withPt ps.pt done, ps.k⟩ a' v p
  owned : ∀ a' ∈ done, ∀ v p : Nat, a'.dataFrames[v]? = some p → ∀ i, p ≠ ps.k.phys.supply i
  unique : ∀ a ∈ done, ∀ b ∈ done, ∀ v w p : Nat, a.dataFrames[v]? = some p →
    b.dataFrames[w]? = some p → (∃ j, p = s.k.phys.supply j) → v = w
  storable : ∀ v, (ps.pt.entry v).storable = true →
    (∃ a ∈ done ++ todo, ∃ p, a.dataFrames[v]? = some p) ∨
      ((s.ms.pageTable.entry v).storable = true ∧ ¬ s.ms.Recorded v)

section Loop

variable {env : OpEnv} {r : UserRange} {perm : MapPermission} {s : MmState} {a : MapArea}
  {done rest m : List MapArea} {ps ps' : PtState}

section Round

variable (h : Protecting env r perm s done (a :: rest) ps)

include h

theorem Protecting.step (hsound : s.ms.Sound s.k)
    (hgeo : Geometry (done ++ m ++ rest)) (hobt : ps.k.Obtains (s.ms.pins env.others) ps'.k)
    (houter : ∀ v, v < a.start ∨ a.stop ≤ v → ps'.pt.entry v = ps.pt.entry v)
    (harea : ∀ x ∈ m, x.SameBacking a) (hpage : ∀ x ∈ m, ∀ v p : Nat, x.dataFrames[v]? = some p →
      PageOrigin env (.mprotect r perm) s ⟨s.ms.withPt ps'.pt (done ++ m), ps'.k⟩ x v p)
    (hsource : ∀ x ∈ m, ∀ v p : Nat, x.dataFrames[v]? = some p →
      a.dataFrames[v]? = some p ∨ (∃ j, p = ps.k.phys.supply j) ∧ ps'.k.Loose p)
    (hunique : ∀ x ∈ m, ∀ y ∈ m, ∀ v w p : Nat, x.dataFrames[v]? = some p →
      y.dataFrames[w]? = some p → (∃ j, p = ps.k.phys.supply j) → v = w)
    (hstorable : ∀ v, a.start ≤ v → v < a.stop → (ps'.pt.entry v).storable = true →
      (∃ x ∈ m, ∃ p, x.dataFrames[v]? = some p) ∨
        ((ps.pt.entry v).storable = true ∧ a.dataFrames[v]? = none)) :
    Protecting env r perm s (done ++ m) rest ps' := by
  obtain ⟨haold, hasame⟩ := h.untouched a mem_cons_self
  obtain ⟨-, n, hev⟩ := h.obtains
  obtain ⟨hwf', m', hev'⟩ := hobt
  have hout : ∀ b ∈ done ++ rest, ∀ v p : Nat, b.dataFrames[v]? = some p →
      ps'.pt.entry v = ps.pt.entry v := fun b hb v p hp ↦ houter v (h.geometry.outside hb hp)
  -- a page of an old area is not in the supply of any later state
  have hold : ∀ v p : Nat, a.dataFrames[v]? = some p → ∀ i, p ≠ s.k.phys.supply i :=
    fun v p hp ↦ hsound.owned a haold v p hp
  refine ⟨hgeo, h.obtains.trans ⟨hwf', m', hev'⟩, fun b hb ↦ ?_, fun x hx ↦ ?_, fun x hx v p hp ↦ ?_,
    fun x hx v p hp i ↦ ?_, fun x hx y hy v w p hp hq hfresh ↦ ?_, fun v hv ↦ ?_⟩
  · obtain ⟨hbold, hbsame⟩ := h.untouched b (mem_cons_of_mem a hb)
    refine ⟨hbold, fun v p hp ↦ ?_⟩
    rw [hout b (mem_append_right _ hb) v p hp, hbsame v p hp]
  · rcases mem_append.mp hx with hx | hx
    · exact h.area x hx
    · exact ⟨a, haold, harea x hx⟩
  · rcases mem_append.mp hx with hx | hx
    · exact PageOrigin.later (h.page x hx v p hp) (hout x (mem_append_left _ hx) v p hp)
        ⟨hwf', m', hev'⟩
    · exact hpage x hx v p hp
  · rcases mem_append.mp hx with hx | hx
    · rw [hev'.consumes.1]
      exact h.owned x hx v p hp _
    · rcases hsource x hx v p hp with hrec | ⟨-, hloose⟩
      · rw [hev'.consumes.1, hev.consumes.1]
        exact hold v p hrec _
      · exact hloose.not_supply i
  · obtain ⟨j, hj⟩ := hfresh
    have hnew : ∀ x ∈ m, ∀ v : Nat, x.dataFrames[v]? = some p → ∃ j, p = ps.k.phys.supply j := by
      intro x hx v hp
      rcases hsource x hx v p hp with hrec | ⟨hj', -⟩
      · exact absurd hj (hold v p hrec j)
      · exact hj'
    rcases mem_append.mp hx with hx | hx <;> rcases mem_append.mp hy with hy | hy
    · exact h.unique x hx y hy v w p hp hq ⟨j, hj⟩
    · obtain ⟨i, hi⟩ := hnew y hy w hq
      exact absurd hi (h.owned x hx v p hp i)
    · obtain ⟨i, hi⟩ := hnew x hx v hp
      exact absurd hi (h.owned y hy w p hq i)
    · exact hunique x hx y hy v w p hp hq (hnew x hx v hp)
  · have hback : ∀ v, (ps.pt.entry v).storable = true → a.dataFrames[v]? = none →
        (∃ b ∈ done ++ m ++ rest, ∃ p, b.dataFrames[v]? = some p) ∨
          ((s.ms.pageTable.entry v).storable = true ∧ ¬ s.ms.Recorded v) := by
      intro v hv hnone
      refine (h.storable v hv).imp_left ?_
      rintro ⟨b, hb, p, hp⟩
      rcases mem_append_cons_iff.mp hb with rfl | hb
      · simp [hp] at hnone
      · exact ⟨b, mem_splice_iff.mpr (.inr hb), p, hp⟩
    by_cases hin : a.start ≤ v ∧ v < a.stop
    · rcases hstorable v hin.1 hin.2 hv with ⟨x, hx, hp⟩ | ⟨hv, hnone⟩
      · exact .inl ⟨x, by simp [hx], hp⟩
      · exact hback v hv hnone
    · rw [houter v (by omega)] at hv
      refine hback v hv (eq_none_iff_forall_ne_some.mpr fun q hq ↦ hin ?_)
      exact (h.geometry.wellFormed (by simp)).keys v q hq

theorem Protecting.outer_parts {lo hi : Nat}
    (hlo : a.start ≤ lo) (hle : lo ≤ hi) (hhi : hi ≤ a.stop) (hcut : hi < a.stop → hi = r.stop)
    {pt' : PageTable} (hsame : ∀ v, (a.splitByOverlap lo hi).middle.dataFrames[v]? = none →
      pt'.entry v = ps.pt.entry v) {x : MapArea}
    (hx : x ∈ (a.splitByOverlap lo hi).left ∨ x ∈ (a.splitByOverlap lo hi).right) :
    x.SameBacking a ∧ ∀ v p : Nat, x.dataFrames[v]? = some p → a.dataFrames[v]? = some p ∧
      ∀ s', s'.ms.pageTable = pt' → PageOrigin env (.mprotect r perm) s s' x v p := by
  obtain ⟨haold, hasame⟩ := h.untouched a mem_cons_self
  have hwf : a.WellFormed := h.geometry.wellFormed (by simp)
  have hout : ∀ v p : Nat, a.dataFrames[v]? = some p → ¬ (lo ≤ v ∧ v < hi) →
      pt'.entry v = s.ms.pageTable.entry v := by
    intro v p hp hnot
    rw [← hasame v p hp]
    refine hsame v (eq_none_iff_forall_ne_some.mpr fun q hq ↦ hnot ?_)
    exact (dataFrames_middle hq).2
  have hcuts : ∀ y, y = r.stop → (Op.mprotect r perm).Cuts s.ms y := fun y hy ↦ .inr hy
  obtain ⟨hkind, hperm, hpages⟩ := outer_part hwf (fun y ↦ y = r.stop) hlo hle hhi hcut hx
  refine ⟨hkind.sameBacking, fun v p hp ↦ ?_⟩
  obtain ⟨hrec, hnot, hge⟩ := hpages v p hp
  refine ⟨hrec, fun s' hpt ↦ .kept haold (hkind.pageOf hcuts hge) hrec hperm ?_⟩
  rw [hpt]
  exact hout v p hrec hnot

variable (hsound : s.ms.Sound s.k)
include hsound

theorem Protecting.treat
    (hmeet : a.vpnRange.intersectWith r.toVPNRange = true) {d : Std.ExtTreeMap Nat Nat}
    {x : MapArea} (hx : x = { (a.cut r.toVPNRange).middle with
      mapPerm := { perm with user := true }, dataFrames := d })
    (hobt : ps.k.Obtains (s.ms.pins env.others) ps'.k)
    (hsame : ∀ v, (a.cut r.toVPNRange).middle.dataFrames[v]? = none → ps'.pt.entry v = ps.pt.entry v)
    (hkeys : ∀ v : Nat, (∃ p, d[v]? = some p) ↔ ∃ p, (a.cut r.toVPNRange).middle.dataFrames[v]? = some p)
    (hpage : ∀ s', s'.ms.pageTable = ps'.pt → s'.k = ps'.k → ∀ v p : Nat, d[v]? = some p →
      PageOf (.mprotect r perm) s.ms x a v v → r.start ≤ v ∧ v < r.stop →
      PageOrigin env (.mprotect r perm) s s' x v p)
    (hsource : ∀ v p : Nat, d[v]? = some p → a.dataFrames[v]? = some p ∨
      (∃ j, p = ps.k.phys.supply j) ∧ ps'.k.Loose p)
    (hunique : ∀ v w p : Nat, d[v]? = some p → d[w]? = some p →
      (∃ j, p = ps.k.phys.supply j) → v = w) :
    Protecting env r perm s (done ++
      ((a.cut r.toVPNRange).left.toList ++ [x] ++ (a.cut r.toVPNRange).right.toList)) rest ps' := by
  have hwf : a.WellFormed := h.geometry.wellFormed (by simp)
  obtain ⟨hlo, -, hhi, hend, hlohi⟩ := overlap_bounds hwf r.nonempty.le hmeet
  replace hlohi := hlohi r.nonempty
  have hmiddle := hwf.middle hlohi
  set lo := max a.start r.start
  set hi := min a.stop r.stop with hhidef
  set middle := (a.splitByOverlap lo hi).middle with hmiddledef
  have hxframes : x.dataFrames = d := by rw [hx]
  have hxwf : x.WellFormed := by
    rw [hx]
    refine ⟨hmiddle.nonempty, hmiddle.window, fun v p hp ↦ ?_⟩
    obtain ⟨q, hq⟩ := (hkeys v).mp ⟨p, hp⟩
    exact hmiddle.keys v q hq
  have hxkind : x.SameKind (fun y ↦ y = r.start ∨ y = r.stop) a := by
    have hpart : middle.SameKind (fun y ↦ y = r.start ∨ y = r.stop) a :=
      sameKind_part _ _ _ hlo (fun hlt ↦ ⟨.inl (by omega), by omega⟩) hhi
    rw [hx]
    exact { hpart with }
  have houter := fun y hy ↦ h.outer_parts hlo hlohi.le hhi hend hsame (x := y) hy
  obtain ⟨hall, hordered, hin⟩ := split_geometry hwf lo hi (some x) hlo hlohi.le hhi (by
    rintro y ⟨⟩
    rw [hx] at hxwf ⊢
    exact ⟨hxwf, rfl, rfl⟩)
  have hmem : ∀ y ∈ (a.splitByOverlap lo hi).left.toList ++ [x] ++
      (a.splitByOverlap lo hi).right.toList,
      y = x ∨ y ∈ (a.splitByOverlap lo hi).left ∨ y ∈ (a.splitByOverlap lo hi).right := by
    intro y hy
    simp only [mem_append, mem_toList, mem_singleton] at hy
    tauto
  refine h.step hsound (h.geometry.replace hall hordered hin) hobt (fun v hv ↦ ?_) (fun y hy ↦ ?_)
    (fun y hy v p hp ↦ ?_) (fun y hy v p hp ↦ ?_) (fun y hy z hz v w p hp hq hj ↦ ?_)
    (fun v _ _ hv ↦ ?_)
  · refine hsame v (eq_none_iff_forall_ne_some.mpr fun q hq ↦ ?_)
    have := (dataFrames_middle hq).2
    omega
  · rcases hmem y hy with rfl | hy
    · exact hxkind.sameBacking
    · exact (houter y hy).1
  · rcases hmem y hy with rfl | hy
    · have hv := hxwf.keys v p hp
      have hbounds : lo ≤ v ∧ v < hi := by
        rw [hx] at hv
        exact hv
      refine hpage _ rfl rfl v p (hxframes ▸ hp) (hxkind.pageOf (fun _ hc ↦ hc) hv.1) ?_
      omega
    · exact ((houter y hy).2 v p hp).2 _ rfl
  · rcases hmem y hy with rfl | hy
    · exact hsource v p (hxframes ▸ hp)
    · exact .inl ((houter y hy).2 v p hp).1
  · obtain ⟨j, hj⟩ := hj
    have hnot : ∀ v : Nat, a.dataFrames[v]? ≠ some p := by
      intro v hrec
      obtain ⟨-, n, hev⟩ := h.obtains
      rw [hev.consumes.1] at hj
      exact hsound.owned a (h.untouched a mem_cons_self).1 v p hrec _ hj
    rcases hmem y hy with rfl | hy
    · rcases hmem z hz with rfl | hz
      · exact hunique v w p (hxframes ▸ hp) (hxframes ▸ hq) ⟨j, hj⟩
      · exact absurd ((houter z hz).2 w p hq).1 (hnot w)
    · exact absurd ((houter y hy).2 v p hp).1 (hnot v)
  · by_cases hrec : ∃ p, a.dataFrames[v]? = some p
    · left
      obtain ⟨p, hp⟩ := hrec
      rcases dataFrames_splitByOverlap hwf lo hi hp with
        ⟨y, hy, hyp, -⟩ | hmid | ⟨y, hy, hyp, -⟩
      · have hleft : (a.cut r.toVPNRange).left = some y := hy
        exact ⟨y, by simp [hleft], p, hyp⟩
      · obtain ⟨q, hq⟩ := (hkeys v).mpr ⟨p, hmid⟩
        exact ⟨x, by simp, q, hxframes.symm ▸ hq⟩
      · have hright : (a.cut r.toVPNRange).right = some y := hy
        exact ⟨y, by simp [hright], p, hyp⟩
    · right
      have hnone : a.dataFrames[v]? = none := eq_none_iff_forall_ne_some.mpr fun p hp ↦ hrec ⟨p, hp⟩
      refine ⟨?_, hnone⟩
      rw [hsame v (eq_none_iff_forall_ne_some.mpr fun q hq ↦ hrec
        ⟨q, (dataFrames_middle hq).1⟩)] at hv
      exact hv

theorem Protecting.own (v p i : Nat)
    (hp : (a.cut r.toVPNRange).middle.dataFrames[v]? = some p) : p ≠ ps.k.phys.supply i := by
  obtain ⟨-, n, hev⟩ := h.obtains
  rw [hev.consumes.1]
  exact hsound.owned a (h.untouched a mem_cons_self).1 v p (dataFrames_middle hp).1 _

theorem Protecting.treated (hmeet : a.vpnRange.intersectWith r.toVPNRange = true)
    {mid : Option MapArea} (heq : protectMiddle { perm with user := true }
      (a.cut r.toVPNRange).middle ps = (.ok mid, ps')) :
    Protecting env r perm s (done ++
      ((a.cut r.toVPNRange).left.toList ++ mid.toList ++
        (a.cut r.toVPNRange).right.toList)) rest ps' := by
  obtain ⟨haold, hasame⟩ := h.untouched a mem_cons_self
  obtain ⟨-, n, hev⟩ := h.obtains
  have hanon : (a.cut r.toVPNRange).middle.fileBacking.isSome =
      a.fileBacking.isSome := by
    simp [splitByOverlap, part, windowForSubrange]
  set middle := (a.cut r.toVPNRange).middle
  cases hcopies : copies middle { perm with user := true } with
  | false =>
    obtain ⟨k, pt, hres, hobt, hsame, hnew⟩ := protectMiddle_of_not_copies
      (s.ms.pins env.others) ps h.obtains.1 hcopies
    rw [hres] at heq
    obtain ⟨rfl, rfl⟩ := heq
    refine h.treat hsound hmeet rfl hobt hsame (fun v ↦ Iff.rfl) ?_ ?_ ?_
    · intro s' hpt _ v p hp hof hv
      obtain ⟨hrec, -⟩ := dataFrames_middle hp
      refine .protect rfl haold hof hrec hv rfl (fun hshared hfile ↦ ?_) ?_
      · have hshared' : middle.shared = false := hshared
        have hsome : middle.fileBacking.isSome = true := by
          rw [hanon]
          exact isSome_iff_ne_none.mpr hfile
        have hperm : middle.mapPerm = a.mapPerm := rfl
        simpa [copies, hshared', hsome, hperm, or_iff_not_imp_left] using hcopies
      · rw [hpt, hnew v p hp, hasame v p hrec]
        have hresident : residentPerm middle { perm with user := true } =
            residentPerm a { perm with user := true } := by
          unfold residentPerm
          rw [hanon]
          rfl
        rw [protectedEntry, hresident]
    · exact fun v p hp ↦ .inl (dataFrames_middle hp).1
    · rintro v w p hp - ⟨j, hj⟩
      exact absurd hj (h.own hsound v p j hp)
  | true =>
    obtain ⟨hobt, hsame, ⟨⟨e, herr⟩, -⟩ | ⟨d, hres, hd, hkeys, hinj⟩⟩ :=
      protectMiddle_of_copies (s.ms.pins env.others) h.obtains.1 hcopies (h.own hsound) heq
    · simp at herr
    simp only [Except.ok.injEq] at hres
    subst hres
    obtain ⟨hshared, hfile, hread, hwrite⟩ := copies_eq_true.mp hcopies
    refine h.treat hsound hmeet rfl hobt hsame (fun v ↦ ⟨?_, ?_⟩) ?_ ?_ ?_
    · rintro ⟨p, hp⟩
      obtain ⟨old, hold, -⟩ := hd v p hp
      exact ⟨old, hold⟩
    · rintro ⟨old, hold⟩
      exact hkeys v old hold
    · intro s' hpt hk v p hp hof hv
      obtain ⟨old, hold, hentry, hloose, ⟨j, hj⟩, hmem⟩ := hd v p hp
      obtain ⟨hrec, -⟩ := dataFrames_middle hold
      refine .copied rfl haold hof hrec hv rfl hshared ?_ hread hwrite ⟨?_, n + j, ?_⟩ ?_ ?_
      · rw [hanon] at hfile
        exact isSome_iff_ne_none.mp hfile
      · rw [hk]
        exact hloose
      · rw [hj, hev.consumes.1]
      · rw [hk, hmem, hev.mem_eq fun i ↦ hsound.owned a haold v old hrec i]
      · rw [hpt, hentry]
        rfl
    · intro v p hp
      obtain ⟨old, -, -, hloose, hj, -⟩ := hd v p hp
      exact .inr ⟨hj, hloose⟩
    · exact fun v w p hp hq _ ↦ hinj v w p hp hq

theorem Protecting.skip : Protecting env r perm s (done ++ [a]) rest ps := by
  obtain ⟨haold, hasame⟩ := h.untouched a mem_cons_self
  obtain ⟨-, n, hev⟩ := h.obtains
  refine h.step hsound ?_ (.refl h.obtains.1) (fun _ _ ↦ rfl) ?_ ?_ ?_ ?_ ?_
  · simpa using h.geometry
  · simpa using MapArea.SameBacking.refl a
  · intro x hx v p hp
    obtain rfl := mem_singleton.mp hx
    exact .kept haold (.refl x v) hp rfl (hasame v p hp)
  · intro x hx v p hp
    obtain rfl := mem_singleton.mp hx
    exact .inl hp
  · rintro x hx y hy v w p hp hq ⟨j, hj⟩
    obtain rfl := mem_singleton.mp hx
    rw [hev.consumes.1] at hj
    exact absurd hj (hsound.owned x haold v p hp _)
  · intro v _ _ hv
    cases hp : a.dataFrames[v]? with
    | none => exact .inr ⟨hv, rfl⟩
    | some p => exact .inl ⟨a, by simp, p, hp⟩

end Round

theorem Protecting.skip_all (h : Protecting env r perm s done rest ps) (hsound : s.ms.Sound s.k) :
    Protecting env r perm s (done ++ rest) [] ps := by
  induction rest generalizing done with
  | nil => simpa using h
  | cons a rest ih =>
    have hall := ih (h.skip hsound)
    simpa using hall

theorem Protecting.failed (h : Protecting env r perm s done (a :: rest) ps)
    (hsound : s.ms.Sound s.k) {e : Errno} (heq : protectMiddle { perm with user := true }
      (a.cut r.toVPNRange).middle ps = (.error e, ps')) :
    Protecting env r perm s (done ++ rest) [] ps' := by
  obtain ⟨haold, hasame⟩ := h.untouched a mem_cons_self
  have hwf : a.WellFormed := h.geometry.wellFormed (by simp)
  set middle := (a.cut r.toVPNRange).middle
  have hcopies : copies middle { perm with user := true } = true := by
    by_contra hnot
    obtain ⟨k, pt, hres, -⟩ := protectMiddle_of_not_copies (s.ms.pins env.others) ps h.obtains.1
      (Bool.not_eq_true _ ▸ hnot)
    rw [hres] at heq
    simp at heq
  obtain ⟨hobt, hsame, ⟨-, hentry⟩ | ⟨d, hres, -⟩⟩ :=
    protectMiddle_of_copies (s.ms.pins env.others) h.obtains.1 hcopies (h.own hsound) heq
  · have hread : a.mapPerm.write = false := (copies_eq_true.mp hcopies).2.2.1
    have hlost : Protecting env r perm s (done ++ []) rest ps' := by
      refine h.step hsound ?_ hobt (fun v hv ↦ ?_) (by simp) (by simp) (by simp) (by simp) ?_
      · simpa using h.geometry.drop
      · refine hsame v (eq_none_iff_forall_ne_some.mpr fun q hq ↦ ?_)
        have := hwf.keys v q (dataFrames_middle hq).1
        omega
      · intro v _ _ hv
        right
        rcases hentry v with heq | ⟨p, heq⟩
        · rw [heq] at hv
          refine ⟨hv, eq_none_iff_forall_ne_some.mpr fun p hp ↦ ?_⟩
          rw [hasame v p hp] at hv
          simp only [PageTableEntry.storable, Bool.and_eq_true] at hv
          have := (hsound.writable a haold v p hp hv.2).1
          simp [hread] at this
        · have hperm : middle.mapPerm.write = false := hread
          simp [heq, PageTableEntry.storable, PageTableEntry.writable, mapped, ofPerm, hperm] at hv
    rw [append_nil] at hlost
    exact hlost.skip_all hsound
  · simp at hres

theorem Protecting.effect (h : Protecting env r perm s done [] ps) :
    Effect env (.mprotect r perm) s ⟨s.ms.withPt ps.pt done, ps.k⟩ where
  obtains := h.obtains
  area a' ha' := by
    obtain ⟨a, ha, hsame⟩ := h.area a' ha'
    exact .old ha hsame
  page := h.page
  fresh_unique a ha b hb v w p hp hq hfresh := h.unique a ha b hb v w p hp hq hfresh.2
  storable _ v hv := by
    refine (h.storable v hv).imp_left ?_
    rintro ⟨a, ha, hp⟩
    rw [append_nil] at ha
    exact ⟨a, ha, hp⟩

end Loop

theorem effect_remapAreaWithOverlapRange {env : OpEnv} {s : MmState} (h : s.ms.Sound s.k)
    (hk : s.k.WellFormed) (r : UserRange) (perm : MapPermission) :
    (remapAreaWithOverlapRange s r.toVPNRange perm).Keeps (Effect env (.mprotect r perm) s) := by
  rcases remapAreaWithOverlapRange_cases s r.toVPNRange perm with ⟨e, heq⟩ | heq
  · rw [heq]
    exact Outcome.keeps_err.mpr (effect_refl h hk)
  rw [heq]
  refine keeps_ofLoop ?_
  unfold treatOverlap
  rcases hloop : overlapLoop r.toVPNRange (protectMiddle { perm with user := true }) s.ms.areas []
    ⟨s.ms.pageTable, s.k⟩ with ⟨res, areas, ps⟩
  have hstart : Protecting env r perm s [] s.ms.areas ⟨s.ms.pageTable, s.k⟩ := by
    refine ⟨h.geometry, .refl hk, fun a ha ↦ ⟨ha, fun _ _ _ ↦ rfl⟩, by simp, by simp, by simp,
      by simp, fun v hv ↦ ?_⟩
    by_cases hrec : s.ms.Recorded v
    · exact .inl hrec
    · exact .inr ⟨hv, hrec⟩
  have hdone : Protecting env r perm s areas [] ps := by
    refine (overlapLoop_rule
      (J := fun l ps ↦ Protecting env r perm s l [] ps) ?_ ?_ ?_ hloop hstart).elim
        And.right And.right
    · exact fun done a rest ps hI _ ↦ hI.skip h
    · exact fun done a rest ps mid ps' hI hmeet heq ↦ hI.treated h hmeet heq
    · exact fun done a rest ps e ps' hI _ heq ↦ hI.failed h heq
  exact hdone.effect

end MemorySet

end RespOS.Mm
