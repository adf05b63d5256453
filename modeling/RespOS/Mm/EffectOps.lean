import RespOS.Mm.Origin

/-!
# The effect of every operation

One lemma for each operation of an address space, and `effect_runOp` for all of them. An operation that
removes pages or splits areas has the effect of `Shrinks`; `mmap` removes and then adds one area;
`mprotect` treats one area after the other; a fault changes one page of one area; `mremap` takes an area
out and puts it back elsewhere.
-/

namespace RespOS.Mm

open RespOS.Basis RespOS.Fs
open RespOS.Outcome (keeps_err keeps_ok keeps_panic)
open MapArea List Option PTEFlags PageTableEntry

section Kinds

variable {cut : Nat → Prop} {op : Op} {ms : MemorySet} {a a' : MapArea} {v : Nat}

theorem MapArea.SameBacking.refl (a : MapArea) : a.SameBacking a := ⟨rfl, rfl, rfl, rfl, rfl⟩

theorem MapArea.SameBacking.trans {a'' : MapArea} (h : a''.SameBacking a') (h' : a'.SameBacking a) :
    a''.SameBacking a :=
  ⟨h.mapType.trans h'.mapType, h.shared.trans h'.shared, h.shmAttachId.trans h'.shmAttachId,
    h.growsDown.trans h'.growsDown, h.file.trans h'.file⟩

theorem MapArea.SameKind.sameBacking (h : a'.SameKind cut a) : a'.SameBacking a := by
  refine { h with file := ?_ }
  cases hb' : a'.fileBacking with
  | none => rw [h.anonymous.mp hb']
  | some b' =>
    obtain ⟨b, hb, hfile, hlive, -⟩ := h.file b' hb'
    simp [hb, hfile, hlive]

theorem MapArea.SameKind.pageOf (h : a'.SameKind cut a) (hcut : ∀ x, cut x → op.Cuts ms x)
    (hv : a'.start ≤ v) : PageOf op ms a' a v v where
  same := h.sameBacking
  index _ := by
    rcases h.start with heq | ⟨hc, hlt, hlt'⟩
    · exact .inl (by rw [heq])
    · exact .inr (.inl ⟨_, hcut _ hc, hlt, hlt'⟩)
  offset b b' hb hb' hlt := by
    obtain ⟨b₀, hb₀, -, -, hoff⟩ := h.file b' hb'
    obtain rfl : b₀ = b := some.inj (hb₀.symm.trans hb)
    have hle := h.start_le
    have hsum : (v - a.start) * pageSize =
        (a'.start - a.start) * pageSize + (v - a'.start) * pageSize := by
      rw [← Nat.add_mul]
      congr 1
      omega
    exact .inr (by omega)

theorem PageOf.refl (a : MapArea) (v : Nat) : PageOf op ms a a v v where
  same := .refl a
  index _ := .inl rfl
  offset b b' hb hb' _ := by
    obtain rfl : b = b' := some.inj (hb.symm.trans hb')
    exact .inr rfl

theorem PageOf.withFrames_left {v' : Nat} (h : PageOf op ms a' a v' v)
    {frames : Std.ExtTreeMap Nat Nat} : PageOf op ms (a'.withFrames frames) a v' v :=
  ⟨{ h.same with }, h.index,
    h.offset⟩

end Kinds

variable {k k' : Kernel} {x : MapArea} {frames : List Nat} {ps : PtState} {backing : MmapBacking}

variable {areas areas' : List MapArea} {pages : List (Nat × Nat)}

section Shrink

variable {cut : Nat → Prop} {env : OpEnv} {op : Op} {s s' : MmState}

theorem MemorySet.Sound.not_fresh (h : s.ms.Sound s.k) {a : MapArea} (ha : a ∈ s.ms.areas)
    {v p : Nat} (hp : a.dataFrames[v]? = some p) : ¬ Fresh s s' p := by
  rintro ⟨-, j, hj⟩
  exact h.owned a ha v p hp j hj

theorem Shrinks.recorded_of_storable {pt pt' : PageTable} (hs : Shrinks cut areas pt areas' pt')
    {v : Nat} (hv : (pt'.entry v).storable = true) :
    (∃ a ∈ areas', ∃ p, a.dataFrames[v]? = some p) ∨
      ((pt.entry v).storable = true ∧ ¬ ∃ a ∈ areas, ∃ p, a.dataFrames[v]? = some p) := by
  rcases hs.entry v with heq | hinvalid
  · rw [heq] at hv
    by_cases hrec : ∃ a ∈ areas, ∃ p, a.dataFrames[v]? = some p
    · left
      obtain ⟨a, ha, p, hp⟩ := hrec
      rcases hs.forward a ha v p hp with hinvalid | ⟨a', ha', -, -, hp'⟩
      · rw [heq] at hinvalid
        simp [storable, hinvalid] at hv
      · exact ⟨a', ha', p, hp'⟩
    · exact .inr ⟨hv, hrec⟩
  · simp [storable, hinvalid] at hv

theorem Shrinks.entries {pt pt₁ pt' : PageTable} (hs : Shrinks cut areas pt areas' pt₁)
    (hvalid : ∀ a ∈ areas, ∀ v p : Nat, a.dataFrames[v]? = some p → (pt.entry v).isValid = true)
    (hentry : ∀ v, pt'.entry v = pt₁.entry v ∨
      (pt₁.entry v).isValid = false ∧ (pt'.entry v).isValid = false) :
    Shrinks cut areas pt areas' pt' where
  piece a' ha' := by
    obtain ⟨a, ha, hkind, hperm, hpages⟩ := hs.piece a' ha'
    refine ⟨a, ha, hkind, hperm, fun v p hp ↦ ?_⟩
    obtain ⟨hrec, hsame⟩ := hpages v p hp
    rcases hentry v with heq | ⟨hinvalid, -⟩
    · exact ⟨hrec, heq.trans hsame⟩
    · rw [hsame, hvalid a ha v p hrec] at hinvalid
      simp at hinvalid
  forward a ha v p hp := by
    rcases hs.forward a ha v p hp with hinvalid | hkept
    · left
      rcases hentry v with heq | ⟨-, hinvalid'⟩
      · rw [heq]
        exact hinvalid
      · exact hinvalid'
    · exact .inr hkept
  entry v := by
    rcases hentry v with heq | ⟨-, hinvalid⟩
    · rw [heq]
      exact hs.entry v
    · exact .inr hinvalid

variable (h : s.ms.Sound s.k)
include h

theorem effect_of_shrinks (hgeo : Geometry s'.ms.areas) (hcut : ∀ x, cut x → op.Cuts s.ms x)
    (hobt : s.k.Obtains (s.ms.pins env.others) s'.k)
    (hs : Shrinks cut s.ms.areas s.ms.pageTable s'.ms.areas s'.ms.pageTable) : Effect env op s s' where
  obtains := hobt
  area a' ha' := by
    obtain ⟨a, ha, hkind, -⟩ := hs.piece a' ha'
    exact .old ha hkind.sameBacking
  page a' ha' v p hp := by
    obtain ⟨a, ha, hkind, hperm, hpages⟩ := hs.piece a' ha'
    obtain ⟨hrec, hentry⟩ := hpages v p hp
    exact .kept ha (hkind.pageOf hcut ((hgeo.wellFormed ha').keys v p hp).1) hrec hperm hentry
  fresh_unique a ha b hb v w p hp hq hfresh := by
    obtain ⟨a₀, ha₀, -, -, hpages⟩ := hs.piece a ha
    exact absurd hfresh (h.not_fresh ha₀ (hpages v p hp).1)
  storable _ _ hv := hs.recorded_of_storable hv

theorem effect_of_obtains (hobt : s.k.Obtains (s.ms.pins env.others) k) :
    Effect env op s { s with k := k } := by
  have hs : Shrinks (fun _ ↦ False) s.ms.areas s.ms.pageTable s.ms.areas s.ms.pageTable := .refl _ _
  exact effect_of_shrinks h h.geometry (fun _ hx ↦ hx.elim) hobt hs

theorem effect_refl (hk : s.k.WellFormed) : Effect env op s s :=
  effect_of_obtains h (.refl hk)

theorem effect_of_insert {s₁ : MmState} (hgeo : Geometry s₁.ms.areas)
    (hcut : ∀ x, cut x → op.Cuts s.ms x)
    (hs : Shrinks cut s.ms.areas s.ms.pageTable s₁.ms.areas s₁.ms.pageTable)
    (hareas : s'.ms.areas = MemorySet.sortAreas (s₁.ms.areas ++ [x])) (hwf : x.WellFormed)
    (hfree : ∀ a ∈ s₁.ms.areas, a.vpnRange.intersectWith x.vpnRange = false)
    (hentry : ∀ v, x.dataFrames[v]? = none → s'.ms.pageTable.entry v = s₁.ms.pageTable.entry v ∨
        (s'.ms.pageTable.entry v).isValid = false ∧ (s₁.ms.pageTable.entry v).isValid = false)
    (hobt : s.k.Obtains (s.ms.pins env.others) s'.k) (harea : AreaOrigin op s x)
    (hpage : ∀ v p : Nat, x.dataFrames[v]? = some p → PageOrigin env op s s' x v p)
    (hunique : ∀ v w p : Nat, x.dataFrames[v]? = some p → x.dataFrames[w]? = some p →
      Fresh s s' p → v = w) : Effect env op s s' := by
  have hmem : ∀ a, a ∈ s'.ms.areas ↔ a ∈ s₁.ms.areas ∨ a = x := by
    intro a
    rw [hareas]
    exact ((perm_insertionSort _ _).mem_iff).trans (by simp)
  -- no page of an old area is a page of the new one
  have hapart : ∀ a ∈ s₁.ms.areas, ∀ v p : Nat, a.dataFrames[v]? = some p →
      x.dataFrames[v]? = none := by
    intro a ha v p hp
    rw [eq_none_iff_forall_ne_some]
    intro q hq
    have hin := (hgeo.wellFormed ha).keys v p hp
    have hin' := hwf.keys v q hq
    have hdisj := VPNRange.intersectWith_eq_false.mp (hfree a ha)
    simp only [start, stop] at hin hin'
    omega
  refine ⟨hobt, fun a ha ↦ ?_, fun a ha v p hp ↦ ?_, fun a ha b hb v w p hp hq hfresh ↦ ?_,
    fun _ v hv ↦ ?_⟩
  · rcases (hmem a).mp ha with ha | rfl
    · obtain ⟨a₀, ha₀, hkind, -⟩ := hs.piece a ha
      exact .old ha₀ hkind.sameBacking
    · exact harea
  · rcases (hmem a).mp ha with ha | rfl
    · obtain ⟨a₀, ha₀, hkind, hperm, hpages⟩ := hs.piece a ha
      obtain ⟨hrec, hsame⟩ := hpages v p hp
      have hvalid := (h.valid a₀ ha₀ v p hrec).1
      refine .kept ha₀ (hkind.pageOf hcut ((hgeo.wellFormed ha).keys v p hp).1) hrec hperm ?_
      rcases hentry v (hapart a ha v p hp) with heq | ⟨-, hinvalid⟩
      · rw [heq, hsame]
      · rw [hsame, hvalid] at hinvalid
        simp at hinvalid
    · exact hpage v p hp
  · have hold : ∀ a ∈ s₁.ms.areas, ∀ v : Nat, a.dataFrames[v]? ≠ some p := by
      intro a ha v hp
      obtain ⟨a₀, ha₀, -, -, hpages⟩ := hs.piece a ha
      exact h.not_fresh ha₀ (hpages v p hp).1 hfresh
    rcases (hmem a).mp ha with ha | rfl
    · exact absurd hp (hold a ha v)
    · rcases (hmem b).mp hb with hb | rfl
      · exact absurd hq (hold b hb w)
      · exact hunique v w p hp hq hfresh
  · cases hx : x.dataFrames[v]? with
    | some p => exact .inl ⟨x, (hmem x).mpr (.inr rfl), p, hx⟩
    | none =>
      rcases hentry v hx with heq | ⟨hinvalid, -⟩
      · rw [heq] at hv
        refine (hs.recorded_of_storable hv).imp ?_ id
        rintro ⟨a, ha, hp⟩
        exact ⟨a, (hmem a).mpr (.inl ha), hp⟩
      · simp [storable, hinvalid] at hv

end Shrink

/-! ### `mmap` -/

/-- The frames of `mmap_shared_file_frames` back the pages of the file, and those obtained before stay
because they are owned. -/
theorem sharedFramesLoop_spec {io : IoEnv} {ext : Nat → Nat} {b : FileBacking} {pages : List Nat}
    {r : Except Errno (List Nat)} (hk : k.WellFormed)
    (h : sharedFramesLoop io ext b pages frames k = (r, k')) :
    k.Obtains ext k' ∧ (∀ f idx, ∀ p ∈ frames, k.Backs f idx p → k'.Backs f idx p) ∧
      ∀ out, r = .ok out → ∃ new, out = frames ++ new ∧ new.length = pages.length ∧
        ∀ (i page p : Nat), pages[i]? = some page → new[i]? = some p →
          b.offset + page * pageSize < usizeSize ∧
            k'.Backs b.file ((b.offset + page * pageSize) / pageSize) p := by
  induction pages generalizing frames k with
  | nil =>
    obtain ⟨rfl, rfl⟩ := h
    refine ⟨.refl hk, fun _ _ _ _ hb ↦ hb, fun out hout ↦ ⟨[], ?_, rfl, by simp⟩⟩
    simpa using (Except.ok.inj hout).symm
  | cons page pages ih =>
    simp only [sharedFramesLoop] at h
    rcases hone : k.sharedFileFrame io (fun p ↦ ext p + frames.count p) b (page * pageSize)
      with ⟨r₁, k₁⟩
    rw [hone] at h
    obtain ⟨⟨hwf, n, hev⟩, hback⟩ := Kernel.sharedFileFrame_spec hk hone
    have hobt : k.Obtains ext k₁ := ⟨hwf, n, hev.mono fun p hp ↦ by omega⟩
    have hkeep : ∀ f idx, ∀ p ∈ frames, k.Backs f idx p → k₁.Backs f idx p := by
      intro f idx p hp hb
      refine hev.backs ?_ hb
      have := count_pos_iff.mpr hp
      omega
    cases r₁ with
    | error e =>
      obtain ⟨rfl, rfl⟩ := h
      exact ⟨hobt, hkeep, by simp⟩
    | ok res =>
      obtain ⟨p, fill⟩ := res
      obtain ⟨hobt', hkeep', hnew⟩ := ih hwf h
      refine ⟨hobt.trans hobt', fun f idx q hq hb ↦ ?_, fun out hout ↦ ?_⟩
      · exact hkeep' f idx q (mem_append_left _ hq) (hkeep f idx q hq hb)
      · obtain ⟨new, rfl, hlen, hall⟩ := hnew out hout
        refine ⟨p :: new, by simp, by simp [hlen], fun i page' q hpage hq ↦ ?_⟩
        cases i with
        | zero =>
          simp only [getElem?_cons_zero, some.injEq] at hpage hq
          obtain ⟨hlt, hb⟩ := hback p fill rfl
          subst hpage hq
          exact ⟨hlt, hkeep' _ _ p (by simp) hb⟩
        | succ i => exact hall i page' q (by simpa using hpage) (by simpa using hq)

/-- The backing that `sys_mmap` has prepared for a source. -/
def Prepared (k : Kernel) : MapSource → MmapBacking → Prop
  | .anonymous false, .lazyAnonymous => True
  | .anonymous true, .sharedAnonymous => True
  | .segment attachId frames, .sharedFrames attachId' frames' => attachId' = attachId ∧ frames' = frames
  | .file f offset false, .privateFile f' offset' _ => f' = f ∧ offset' = offset
  | .file f offset true, .sharedFileFrames f' offset' _ _ frames => f' = f ∧ offset' = offset ∧
      ∀ i p : Nat, frames[i]? = some p → offset + i * pageSize < usizeSize ∧
        k.Backs f ((offset + i * pageSize) / pageSize) p
  | _, _ => False

/-- The frames of the segment that the operation attaches are not free. -/
def Op.SegmentOwned (k : Kernel) : Op → Prop
  | .mmap _ (.segment _ frames) => ∀ p ∈ frames, ∀ i, p ≠ k.phys.supply i
  | _ => True

namespace MemorySet

section Install

variable {cut : Nat → Prop} {env : OpEnv} {s s₁ : MmState} {req : MmapRequest} {source : MapSource}
  {start stop : Nat}

/-- What holds between the state before `mmap` and the state in which the new area is installed. -/
structure Cleared (cut : Nat → Prop) (env : OpEnv) (req : MmapRequest) (source : MapSource)
    (s s₁ : MmState) (start stop : Nat) : Prop where
  sound : s.ms.Sound s.k
  cuts : ∀ x, cut x → (Op.mmap req source).Cuts s.ms x
  obtains : s.k.Obtains (s.ms.pins env.others) s₁.k
  geometry : Geometry s₁.ms.areas
  shrinks : Shrinks cut s.ms.areas s.ms.pageTable s₁.ms.areas s₁.ms.pageTable
  nonempty : (byteRange start stop).start < (byteRange start stop).stop
  free : ∀ a ∈ s₁.ms.areas, a.vpnRange.intersectWith (byteRange start stop) = false

section

variable (h : Cleared cut env req source s s₁ start stop) (hwf : x.WellFormed) (hrange : x.vpnRange = byteRange start stop)
include h hwf hrange

theorem Cleared.commit (hby : x.BackedBy req source)
    (hentry : ∀ v, x.dataFrames[v]? = none → ps.pt.entry v = s₁.ms.pageTable.entry v)
    (hobt : s.k.Obtains (s.ms.pins env.others) ps.k)
    (hpage : ∀ s', s'.ms.pageTable = ps.pt → s'.k = ps.k → ∀ v p : Nat,
      x.dataFrames[v]? = some p → PageOrigin env (.mmap req source) s s' x v p)
    (hunique : ∀ s', s'.k = ps.k → ∀ v w p : Nat, x.dataFrames[v]? = some p →
      x.dataFrames[w]? = some p → Fresh s s' p → v = w) :
    (commitArea s₁ req start stop x ps).Keeps (Effect env (.mmap req source) s) := by
  refine keeps_ok.mpr (effect_of_insert h.sound h.geometry h.cuts h.shrinks rfl hwf ?_ ?_ hobt
    (.mmap rfl hby) (hpage _ rfl rfl) (hunique _ rfl))
  · rw [hrange]
    exact h.free
  · exact fun v hv ↦ .inl (hentry v hv)

theorem Cleared.commit_blank (hby : x.BackedBy req source) (hblank : x.dataFrames = ∅) :
    (commitArea s₁ req start stop x ⟨s₁.ms.pageTable, s₁.k⟩).Keeps
      (Effect env (.mmap req source) s) := by
  refine h.commit hwf hrange hby (fun _ _ ↦ rfl) h.obtains ?_ ?_
  · intro s' _ _ v p hp
    simp [hblank] at hp
  · intro s' _ v w p hp
    simp [hblank] at hp

end

theorem Cleared.install_anonymous (h : Cleared cut env req (.anonymous true) s s₁ start stop)
    (io : IoEnv) : (installArea s₁ io (s.ms.pins env.others) req .sharedAnonymous start stop).Keeps
      (Effect env (.mmap req (.anonymous true)) s) := by
  have hblank : (blankArea req start stop true).WellFormed :=
    ⟨h.nonempty, by simp [blankArea], by simp [blankArea]⟩
  simp only [installArea]
  rcases hmap : (blankArea req start stop true).map ⟨s₁.ms.pageTable, s₁.k⟩ io
    (s.ms.pins env.others) with ⟨r, x, ps⟩
  cases r with
  | error e => exact keeps_panic
  | ok u =>
    obtain ⟨hobt, d, rfl, hout, hin, hinj⟩ := mapEach_spec h.obtains.1 rfl
      (VPNRange.nodup_vpns _) hmap
    have hpages : ∀ v p : Nat, d[v]? = some p → v ∈ (blankArea req start stop true).vpnRange.vpns := by
      intro v p hp
      by_contra hnot
      rw [(hout v hnot).1] at hp
      simp [blankArea] at hp
    obtain ⟨-, n, hev⟩ := h.obtains
    refine h.commit (hblank.withFrames fun v p hp ↦ VPNRange.mem_vpns.mp (hpages v p hp)) rfl
      ⟨rfl, rfl, rfl, rfl, rfl, rfl⟩ (fun v hv ↦ ?_) (h.obtains.trans hobt) ?_ ?_
    · refine (hout v fun hmem ↦ ?_).2
      obtain ⟨p, hp, -⟩ := hin v hmem
      rw [dataFrames_withFrames, hp] at hv
      simp at hv
    · intro s' hpt hk v p hp
      obtain ⟨q, hq, hentry, hloose, j, hj⟩ := hin v (hpages v p hp)
      obtain rfl : q = p := some.inj (hq.symm.trans hp)
      refine .anonymous rfl ⟨rfl, rfl, rfl, rfl, rfl, rfl⟩ ⟨?_, n + j, ?_⟩ ?_
      · rw [hk]
        exact hloose
      · rw [hj, ← hev.consumes.1]
      · rw [hpt, hentry]
        rfl
    · intro s' _ v w p hv hw _
      exact hinj v (hpages v p hv) w (hpages w p hw) (hv.trans hw.symm)

theorem installGiven_spec {flags : PTEFlags} {ps' : PtState} {d : Std.ExtTreeMap Nat Nat}
    (hk : ps.k.WellFormed) (hnodup : (pages.map Prod.fst).Nodup)
    (h : installGiven flags pages [] ∅ ps = (.ok d, ps')) :
    (∀ ext, ps.k.Obtains ext ps'.k) ∧ (∀ v p : Nat, d[v]? = some p → (v, p) ∈ pages) ∧
      (∀ v, d[v]? = none → ps'.pt.entry v = ps.pt.entry v) ∧
      ∀ v p : Nat, d[v]? = some p → ps'.pt.entry v = ⟨p, flags.mapped⟩ := by
  have hremap := (installGiven_ok h).1
  have hlookup := getElem?_installGiven hnodup h
  refine ⟨fun ext ↦ (remapFrames_spec ext hk hnodup hremap).1,
    fun v p hp ↦ (hlookup v p).mp hp, fun v hv ↦ ?_, fun v p hp ↦ ?_⟩
  · obtain ⟨-, -, hout, -⟩ := remapFrames_spec (fun _ ↦ 0) hk hnodup hremap
    refine hout v fun hmem ↦ ?_
    obtain ⟨e, he, rfl⟩ := mem_map.mp hmem
    rw [(hlookup e.1 e.2).mpr he] at hv
    simp at hv
  · obtain ⟨-, -, -, hin⟩ := remapFrames_spec (fun _ ↦ 0) hk hnodup hremap
    exact (hin rfl (v, p) ((hlookup v p).mp hp)).2

theorem Cleared.failed (h : Cleared cut env req source s s₁ start stop) {flags : PTEFlags}
    {e : Errno} (hinstall : installGiven flags pages [] ∅ ⟨s₁.ms.pageTable, s₁.k⟩ = (.error e, ps)) :
    Effect env (.mmap req source) s ⟨{ s₁.ms with pageTable := ps.pt }, ps.k⟩ := by
  obtain ⟨⟨phys, hc, hk⟩, -, hentry⟩ := installGiven_error hinstall
  have hobt := h.obtains.trans (Kernel.obtains_setPhys h.obtains.1 hc)
  rw [hk]
  refine effect_of_shrinks h.sound h.geometry h.cuts hobt (h.shrinks.entries ?_ ?_)
  · exact fun a ha v p hp ↦ (h.sound.valid a ha v p hp).1
  · exact fun v ↦ hentry v (by simp)

theorem Cleared.install_segment {attachId : Nat}
    (h : Cleared cut env req (.segment attachId frames) s s₁ start stop) (io : IoEnv)
    (hown : ∀ p ∈ frames, ∀ i, p ≠ s.k.phys.supply i) :
    (installArea s₁ io (s.ms.pins env.others) req (.sharedFrames attachId frames) start stop).Keeps
      (Effect env (.mmap req (.segment attachId frames)) s) := by
  simp only [installArea]
  split
  · rename_i e ps hinstall
    exact keeps_err.mpr (h.failed hinstall)
  rename_i d ps hinstall
  obtain ⟨hobt, hmem, hout, hin⟩ := installGiven_spec h.obtains.1
    (nodup_map_fst_zip (VPNRange.nodup_vpns _) frames) hinstall
  refine h.commit ⟨h.nonempty, by simp [blankArea], fun v p hp ↦ ?_⟩ rfl
    ⟨rfl, rfl, rfl, rfl, rfl, rfl⟩ hout (h.obtains.trans (hobt _)) ?_ ?_
  · exact VPNRange.mem_vpns.mp (of_mem_zip (hmem v p hp)).1
  · intro s' hpt _ v p hp
    refine .segment rfl ⟨rfl, rfl, rfl, rfl, rfl, rfl⟩ (of_mem_zip (hmem v p hp)).2 ?_
    rw [hpt, hin v p hp]
  · rintro s' - v w p hv - ⟨-, j, hj⟩
    exact absurd hj (hown p (of_mem_zip (hmem v p hv)).2 j)

theorem Cleared.install_file {f offset len validLen : Nat}
    (h : Cleared cut env req (.file f offset true) s s₁ start stop) (io : IoEnv)
    (hlen : len ≤ (byteRange start stop).pageCount * pageSize)
    (hback : ∀ i p : Nat, frames[i]? = some p → offset + i * pageSize < usizeSize ∧
      s₁.k.Backs f ((offset + i * pageSize) / pageSize) p) :
    (installArea s₁ io (s.ms.pins env.others) req (.sharedFileFrames f offset len validLen frames)
      start stop).Keeps (Effect env (.mmap req (.file f offset true)) s) := by
  have hflags : (if req.mapPerm.write = true then (ofPerm req.mapPerm).removeWrite
      else ofPerm req.mapPerm) = (ofPerm req.mapPerm).removeWrite := by
    split_ifs with hwrite
    · rfl
    · simp [removeWrite, ofPerm, hwrite]
  simp only [installArea, hflags]
  split_ifs
  · exact keeps_err.mpr (effect_of_shrinks h.sound h.geometry h.cuts h.obtains h.shrinks)
  split
  · rename_i e ps hinstall
    exact keeps_err.mpr (h.failed hinstall)
  rename_i d ps hinstall
  obtain ⟨hobt, hmem, hout, hin⟩ := installGiven_spec h.obtains.1
    ((nodup_map_fst_zip (VPNRange.nodup_vpns _) frames).sublist (filter_sublist.map _)) hinstall
  have hzip (v p : Nat) (hp : d[v]? = some p) : ((byteRange start stop).start ≤ v ∧
      v < (byteRange start stop).stop) ∧ frames[v - (byteRange start stop).start]? = some p := by
    have hmem' := (mem_filter.mp (hmem v p hp)).1
    refine ⟨VPNRange.mem_vpns.mp (of_mem_zip hmem').1, ?_⟩
    obtain ⟨i, hi⟩ := mem_iff_getElem?.mp hmem'
    obtain ⟨hv, hframe⟩ := getElem?_zip_eq_some.mp hi
    obtain ⟨_, rfl⟩ := List.getElem?_eq_some_iff.mp hv
    simpa [VPNRange.vpns, blankArea] using hframe
  set x : MapArea := { blankArea req start stop true with
    dataFrames := d, fileBacking := some ⟨f, offset, len, true⟩ }
  have hopen (ext : Nat → Nat) : s₁.k.Obtains ext (x.notifyMmapOpen ps.k) :=
    (hobt ext).trans (obtains_notifyMmapOpen _ (hobt ext).1)
  -- the remaining steps allocate page-table pages and count mappings, and keep every page
  have hkept (i p : Nat) (hframe : frames[i]? = some p) :
      (x.notifyMmapOpen ps.k).Backs f ((offset + i * pageSize) / pageSize) p := by
    obtain ⟨-, n, hev⟩ := hopen fun _ ↦ 1
    exact hev.backs (by simp) (hback i p hframe).2
  refine h.commit ⟨h.nonempty, fun b hb ↦ ?_, fun v p hp ↦ (hzip v p hp).1⟩ rfl
    ⟨rfl, rfl, rfl, rfl, rfl, _, rfl⟩ hout (h.obtains.trans (hopen _)) ?_ ?_
  · obtain rfl := some.inj hb
    exact hlen
  · intro s' hpt hk v p hp
    have hframe := (hzip v p hp).2
    refine .file rfl ⟨rfl, rfl, rfl, rfl, rfl, _, rfl⟩ (hback _ p hframe).1 ?_ ?_
    · rw [hk]
      exact hkept _ p hframe
    · rw [hpt, hin _ p hp]
  · rintro s' hk v w p hv - ⟨hloose, -⟩
    rw [hk] at hloose
    exact absurd hloose (hkept _ p (hzip v p hv).2).not_loose

theorem Cleared.install (h : Cleared cut env req source s s₁ start stop)
    (hprep : Prepared s₁.k source backing) (hstop : stop = start + req.mapLen)
    (hmax : stop ≤ mmapMaxAddr) (hfits : fitsIn req.mapLen backing)
    (hseg : (Op.mmap req source).SegmentOwned s.k) (io : IoEnv) :
    (installArea s₁ io (s.ms.pins env.others) req backing start stop).Keeps
      (Effect env (.mmap req source) s) := by
  obtain ⟨-, hlen⟩ := byteRange_window req.mapLen_pos hstop hmax
  have hblank : ∀ shared, (blankArea req start stop shared).WellFormed := fun shared ↦
    ⟨h.nonempty, by simp [blankArea], by simp [blankArea]⟩
  cases source with
  | anonymous shared =>
    cases shared with
    | true =>
      cases backing with
      | sharedAnonymous => exact h.install_anonymous io
      | _ => exact hprep.elim
    | false =>
      cases backing with
      | lazyAnonymous =>
        exact h.commit_blank (hblank false) rfl ⟨rfl, rfl, rfl, rfl, rfl, rfl⟩ rfl
      | _ => exact hprep.elim
  | segment attachId frames =>
    cases backing with
    | sharedFrames attachId' frames' =>
      obtain ⟨rfl, rfl⟩ := hprep
      exact h.install_segment io hseg
    | _ => exact hprep.elim
  | file f offset shared =>
    cases shared with
    | true =>
      cases backing with
      | sharedFileFrames f' offset' len validLen frames =>
        obtain ⟨rfl, rfl, hback⟩ := hprep
        exact h.install_file io (Nat.le_trans hfits hlen) hback
      | _ => exact hprep.elim
    | false =>
      cases backing with
      | privateFile f' offset' len =>
        obtain ⟨rfl, rfl⟩ := hprep
        refine h.commit_blank ⟨h.nonempty, fun b hb ↦ ?_, by simp [blankArea]⟩ rfl
          ⟨rfl, rfl, rfl, rfl, rfl, _, rfl⟩ rfl
        obtain rfl := some.inj hb
        exact Nat.le_trans hfits hlen
      | _ => exact hprep.elim

theorem prepared_mono (h : Prepared k source backing)
    (himp : ∀ f idx p, k.Backs f idx p → k'.Backs f idx p) : Prepared k' source backing := by
  cases source with
  | anonymous shared => cases shared <;> cases backing <;> exact h
  | segment attachId frames => cases backing <;> exact h
  | file f offset shared =>
    cases shared <;> cases backing
    case true.sharedFileFrames =>
      obtain ⟨hf, hoffset, hback⟩ := h
      exact ⟨hf, hoffset, fun i p hi ↦ ⟨(hback i p hi).1, himp _ _ _ (hback i p hi).2⟩⟩
    all_goals exact h

theorem effect_mmapArea (h : s.ms.Sound s.k) (hobt : s.k.Obtains (s.ms.pins env.others) k)
    (hprep : Prepared k source backing) (hfits : fitsIn req.mapLen backing)
    (hseg : (Op.mmap req source).SegmentOwned s.k) (io : IoEnv) :
    (mmapArea { s with k := k } io (s.ms.pins env.others) req backing).Keeps
      (Effect env (.mmap req source) s) := by
  have hsame : Effect env (.mmap req source) s { s with k := k } := effect_of_obtains h hobt
  rcases mmapArea_cases { s with k := k } io (s.ms.pins env.others) req backing with
    ⟨e, he⟩ | ⟨start, stop, s₁, heq, -, -, hstop, hmax, hs₁, hfree⟩
  · rw [he]
    exact keeps_err.mpr hsame
  rw [heq]
  obtain ⟨hne, -⟩ := byteRange_window req.mapLen_pos hstop hmax
  rcases hs₁ with ⟨hreplace, hfirst, rfl⟩ | rfl
  · have hremoved : ∀ ext, k.Obtains ext (removeAreaWithOverlapRange { s with k := k }
        (byteRange start stop)).k := fun ext ↦ obtains_removeAreaWithOverlapRange hobt.1
    have hcleared : Cleared (fun x ↦ x = (byteRange start stop).stop) env req source s
        (removeAreaWithOverlapRange { s with k := k } (byteRange start stop)) start stop :=
      ⟨h, fun x hx ↦ ⟨hreplace, start, hfirst, by rw [← hstop]; exact hx⟩,
        hobt.trans (hremoved _), geometry_removeAreaWithOverlapRange hne.le h.geometry,
        shrinks_removeAreaWithOverlapRange (s := { s with k := k }) hne.le h.geometry h.framed,
        hne, hfree⟩
    refine hcleared.install (prepared_mono hprep fun f idx p hb ↦ ?_) hstop hmax hfits hseg io
    obtain ⟨-, n, hev⟩ := hremoved fun _ ↦ 1
    exact hev.backs (by simp) hb
  · have hcleared : Cleared (fun _ ↦ False) env req source s { s with k := k } start stop :=
      ⟨h, fun x hx ↦ hx.elim, hobt, h.geometry, .refl _ _, hne, hfree⟩
    exact hcleared.install hprep hstop hmax hfits hseg io

theorem mmapFileBacking_spec {io : IoEnv} {ext : Nat → Nat} {f offset mapLen : Nat} {shared : Bool}
    {r : Except Errno MmapBacking} (hk : k.WellFormed)
    (h : mmapFileBacking k io ext f offset mapLen shared = (r, k')) :
    k.Obtains ext k' ∧ ∀ backing, r = .ok backing → Prepared k' (.file f offset shared) backing := by
  revert h
  fun_cases mmapFileBacking k io ext f offset mapLen shared with rintro ⟨⟩
  | case1 e hstat =>
    exact ⟨.refl hk, by simp⟩
  | case2 stat hstat fileLen hshared e k₁ hloop =>
    exact ⟨(sharedFramesLoop_spec hk hloop).1, by simp⟩
  | case3 stat hstat fileLen hshared frames k₁ hloop =>
    obtain ⟨hobt, -, hnew⟩ := sharedFramesLoop_spec hk hloop
    refine ⟨hobt, fun backing hb ↦ ?_⟩
    obtain rfl := Except.ok.inj hb
    obtain ⟨new, hout, hlen, hall⟩ := hnew frames rfl
    subst hout hshared
    refine ⟨rfl, rfl, fun i p hi ↦ hall i i p ?_ hi⟩
    obtain ⟨hlt, -⟩ := List.getElem?_eq_some_iff.mp hi
    rw [hlen, List.length_range] at hlt
    exact List.getElem?_range hlt
  | case4 stat hstat fileLen hshared =>
    refine ⟨.refl hk, fun backing hb ↦ ?_⟩
    obtain rfl := Except.ok.inj hb
    obtain rfl := Bool.eq_false_iff.mpr hshared
    exact ⟨rfl, rfl⟩

theorem effect_mmap (h : s.ms.Sound s.k) (hk : s.k.WellFormed)
    (hseg : (Op.mmap req source).SegmentOwned s.k) :
    (mmap s env req source).Keeps (Effect env (.mmap req source) s) := by
  unfold mmap
  cases source with
  | anonymous shared =>
    cases shared with
    | true =>
      have hprep : Prepared s.k (.anonymous true) .sharedAnonymous := trivial
      exact effect_mmapArea h (.refl hk) hprep trivial hseg env.io
    | false =>
      have hprep : Prepared s.k (.anonymous false) .lazyAnonymous := trivial
      exact effect_mmapArea h (.refl hk) hprep trivial hseg env.io
  | segment attachId frames =>
    have hprep : Prepared s.k (.segment attachId frames) (.sharedFrames attachId frames) :=
      ⟨rfl, rfl⟩
    exact effect_mmapArea h (.refl hk) hprep trivial hseg env.io
  | file f offset shared =>
    simp only
    split_ifs
    · exact keeps_err.mpr (effect_refl h hk)
    split
    · exact keeps_err.mpr (effect_refl h hk)
    split
    · rename_i e k hbacking
      exact keeps_err.mpr (effect_of_obtains h (mmapFileBacking_spec hk hbacking).1)
    · rename_i backing k hbacking
      obtain ⟨hobt, hprep⟩ := mmapFileBacking_spec hk hbacking
      exact effect_mmapArea h hobt (hprep backing rfl) (fitsIn_mmapFileBacking hbacking) hseg env.io

end Install

section Remove

variable {env : OpEnv} {s : MmState}

variable (h : s.ms.Sound s.k) (hk : s.k.WellFormed)
include h hk

theorem effect_munmapRange (addr mapLen : Nat) :
    (munmapRange s addr mapLen).Keeps (Effect env (.munmap addr mapLen) s) := by
  refine munmapRange_rule (effect_refl h hk) fun r _ hr hle _ ↦ ?_
  have hs := shrinks_removeAreaWithOverlapRange hle h.geometry h.framed
  refine effect_of_shrinks h ?_ (fun x hx ↦ hx.trans (hr ▸ rfl)) ?_ hs
  · exact geometry_removeAreaWithOverlapRange hle h.geometry
  · exact obtains_removeAreaWithOverlapRange hk

theorem effect_setMiddle {op : Op} {r : UserRange} {f : MapArea → MapArea} (hcut : ∀ x, x = r.start ∨ x = r.stop → op.Cuts s.ms x)
    (hf : ∀ a, ∃ locked wipeOnFork dontfork, f a = { a with
      locked := locked, wipeOnFork := wipeOnFork, dontfork := dontfork }) :
    (ofLoop (treatOverlap s r.toVPNRange (setMiddle f))).Keeps (Effect env op s) := by
  have hrange : ∀ a, (f a).vpnRange = a.vpnRange := by
    intro a
    obtain ⟨_, _, _, heq⟩ := hf a
    rw [heq]
  have hwf : ∀ a, a.WellFormed → (f a).WellFormed := by
    intro a ha
    obtain ⟨_, _, _, heq⟩ := hf a
    rw [heq]
    exact { ha with }
  have hkind : ∀ a, (f a).SameKind (fun x ↦ x = r.start ∨ x = r.stop) a ∧
      (f a).mapPerm = a.mapPerm ∧ (f a).dataFrames = a.dataFrames := by
    intro a
    obtain ⟨_, _, _, heq⟩ := hf a
    rw [heq]
    refine ⟨⟨.inl rfl, le_rfl, rfl, rfl, rfl, rfl, Iff.rfl, fun b hb ↦ ⟨b, hb, rfl, rfl, ?_⟩⟩, rfl, rfl⟩
    simp [start]
  refine keeps_ofLoop ?_
  obtain ⟨hks, hpt, hgeo, hs⟩ := shrinks_setMiddle r.nonempty h.geometry hrange hwf hkind
  refine effect_of_shrinks h hgeo hcut ?_ ?_
  · rw [hks]
    exact .refl hk
  · rw [hpt]
    exact hs

theorem effect_madviseDontneed (r : UserRange) :
    (madviseDontneed s r.toVPNRange).Keeps (Effect env (.dontneed r) s) := by
  have hgeo := geometry_madviseDontneed r.toVPNRange h.geometry
  unfold madviseDontneed at hgeo ⊢
  simp only at hgeo ⊢
  split
  · exact keeps_err.mpr (effect_refl h hk)
  rename_i hcheck
  simp only [hcheck] at hgeo
  have hgeo' := keeps_ok.mp hgeo
  have hs : Shrinks (fun _ ↦ False) s.ms.areas s.ms.pageTable _ _ :=
    shrinks_discardLoop (r := r.toVPNRange) _ h.geometry h.framed
  exact keeps_ok.mpr (effect_of_shrinks h hgeo' (fun _ hx ↦ hx.elim) (.refl hk) hs)

end Remove

end MemorySet

end RespOS.Mm
