import RespOS.Mm.MachineStep

/-!
# `mmap_area` when memory runs out

A call of `mmap_area` recovers when it returns, and where it returns an error, the areas, the start of
the next automatic mapping, the valid entries and the pages of the page table are those of before
(`Recovers`). Private memory takes nothing from the allocator until it is touched. Frames that the caller
has collected need pages of the table only; where an entry cannot be installed those installed so far
are removed, but pages that the table has got stay in it. Anonymous shared memory allocates every page at
once, and `push_empty_map_area` turns a failure into a panic.

`asks` counts the allocations of a loop that maps pages. So a call recovers exactly when no allocation
that it asks for fails, or, with given frames, when the first one does (`recovers_mmapArea`).
-/

namespace RespOS.Mm

open RespOS.Basis RespOS.Fs List MapArea Std.ExtTreeMap

namespace Phys

variable {phys phys' : Phys} {p : Nat}

theorem head?_of_frameAlloc_none (h : phys.frameAlloc = (none, phys')) :
    phys.allocFails.head? = some true := by
  rcases hfails : phys.allocFails with - | ⟨_ | _, rest⟩ <;>
    simp [frameAlloc, Phys.take, hfails] at h ⊢

theorem allocFails_of_frameAlloc_some (h : phys.frameAlloc = (some p, phys')) :
    true ∉ phys.allocFails.take 1 ∧ phys'.allocFails = phys.allocFails.drop 1 := by
  rcases hfails : phys.allocFails with - | ⟨_ | _, rest⟩ <;>
    simp [frameAlloc, Phys.take, hfails] at h ⊢
  all_goals simp [← h.2]

end Phys

namespace PageTable

variable {pt pt' pt'' : PageTable} {phys phys' phys'' : Phys} {vpn v n m : Nat} {seen : List Nat}
  {flags : PTEFlags}

@[simp] theorem frames_setPte (pt : PageTable) (vpn : Nat) (pte : PageTableEntry) :
    (pt.setPte vpn pte).frames = pt.frames := by
  unfold setPte
  split
  · rfl
  · split <;> rfl

@[simp] theorem frames_foldl_tryUnmap (vpns : List Nat) (pt : PageTable) :
    (vpns.foldl tryUnmap pt).frames = pt.frames := by
  induction vpns generalizing pt with
  | nil => rfl
  | cons vpn vpns ih =>
    rw [foldl_cons, ih, tryUnmap]
    split_ifs
    · exact frames_setPte pt vpn {}
    · rfl

/-! ### The pages that a table lacks -/

/-- The middle page for `vpn` is there once the pages `seen` are mapped. -/
def hasMid (pt : PageTable) (seen : List Nat) (vpn : Nat) : Bool :=
  (pt.root (index0 vpn)).isSome || seen.any fun u ↦ index0 u == index0 vpn

/-- The leaf page for `vpn` is there once the pages `seen` are mapped. -/
def hasLeaf (pt : PageTable) (seen : List Nat) (vpn : Nat) : Bool :=
  (pt.findLeaf vpn).isSome || seen.any fun u ↦ index0 u == index0 vpn && index1 u == index1 vpn

/-- The pages that the table lacks for `vpn` once the pages `seen` are mapped. -/
def lacks (pt : PageTable) (seen : List Nat) (vpn : Nat) : Nat :=
  (!pt.hasMid seen vpn).toNat + (!pt.hasLeaf seen vpn).toNat

/-- The allocations of a loop that maps pages in turn, up to the first that has a valid entry: those
of the table, and `own` for each page. -/
def asks (pt : PageTable) (own : Nat) : List Nat → List Nat → Nat
  | _, [] => 0
  | seen, vpn :: rest =>
    own + pt.lacks seen vpn +
      if (pt.entry vpn).isValid then 0 else asks pt own (vpn :: seen) rest

/-- `pt'` has the shape that `pt` gets by mapping the pages `seen`. -/
def ShapedBy (pt pt' : PageTable) (seen : List Nat) : Prop :=
  ∀ w, pt'.hasMid [] w = pt.hasMid seen w ∧ pt'.hasLeaf [] w = pt.hasLeaf seen w

theorem ShapedBy.refl (pt : PageTable) : ShapedBy pt pt [] := fun _ ↦ ⟨rfl, rfl⟩

theorem ShapedBy.lacks (h : ShapedBy pt pt' seen) (vpn : Nat) : pt'.lacks [] vpn = pt.lacks seen vpn := by
  simp only [PageTable.lacks, (h vpn).1, (h vpn).2]

theorem ShapedBy.cons (h : ShapedBy pt pt' seen) (h' : ShapedBy pt' pt'' [vpn]) :
    ShapedBy pt pt'' (vpn :: seen) := by
  intro w
  have hmid := (h w).1
  have hleaf := (h w).2
  constructor
  · rw [(h' w).1]
    simp only [hasMid, any_nil, any_cons, Bool.or_false] at hmid ⊢
    rw [hmid, Bool.or_assoc, Bool.or_comm (seen.any _)]
  · rw [(h' w).2]
    simp only [hasLeaf, any_nil, any_cons, Bool.or_false] at hleaf ⊢
    rw [hleaf, Bool.or_assoc, Bool.or_comm (seen.any _)]

/-- The next `n` allocations are granted, and each is a page of the table. -/
structure Granted (pt : PageTable) (phys : Phys) (pt' : PageTable) (phys' : Phys) (n : Nat) : Prop where
  grants : true ∉ phys.allocFails.take n
  rest : phys'.allocFails = phys.allocFails.drop n
  isPrefix : pt.frames <+: pt'.frames
  length : pt'.frames.length = pt.frames.length + n

theorem mem_take_of_head? {l : List Bool} (h : l.head? = some true) (hn : 0 < n) : true ∈ l.take n := by
  obtain ⟨rest, rfl⟩ := head?_eq_some_iff.mp h
  obtain ⟨m, rfl⟩ := Nat.exists_eq_succ_of_ne_zero hn.ne'
  simp

theorem notMem_take_add {l : List Bool} :
    true ∉ l.take (n + m) ↔ true ∉ l.take n ∧ true ∉ (l.drop n).take m := by
  rw [take_add, mem_append, not_or]

theorem Granted.trans (h : Granted pt phys pt' phys' n) (h' : Granted pt' phys' pt'' phys'' m) :
    Granted pt phys pt'' phys'' (n + m) where
  grants := notMem_take_add.mpr ⟨h.grants, h.rest ▸ h'.grants⟩
  rest := by rw [h'.rest, h.rest, drop_drop]
  isPrefix := h.isPrefix.trans h'.isPrefix
  length := by rw [h'.length, h.length, Nat.add_assoc]

theorem Granted.refl (pt : PageTable) (phys : Phys) : Granted pt phys pt phys 0 :=
  ⟨by simp, rfl, prefix_rfl, rfl⟩

theorem Granted.frames_eq_iff (h : Granted pt phys pt' phys' n) : pt'.frames = pt.frames ↔ n = 0 := by
  constructor
  · intro heq
    have := h.length
    rw [heq] at this
    omega
  · rintro rfl
    exact (h.isPrefix.eq_of_length h.length.symm).symm

/-- What is left in the table where a call that asks for `n` pages of it stops: all those granted. -/
structure Stops (pt : PageTable) (phys : Phys) (pt' : PageTable) (n : Nat) : Prop where
  le : pt.frames.length ≤ pt'.frames.length
  same : pt'.frames = pt.frames ↔ n = 0 ∨ phys.allocFails.head? = some true

theorem Granted.stops (h : Granted pt phys pt' phys' n) (h' : Stops pt' phys' pt'' m) :
    Stops pt phys pt'' (n + m) := by
  have hlen := h.length
  refine ⟨by have := h'.le; omega, ?_⟩
  -- A page that has been granted stays, whatever happens later.
  rcases Nat.eq_zero_or_pos n with rfl | hpos
  · rw [← h.frames_eq_iff.mpr rfl, h'.same, h.rest, drop_zero, Nat.zero_add]
  · have hne : pt''.frames ≠ pt.frames := fun heq ↦ by
      have := h'.le
      rw [heq] at this
      omega
    have hhead : phys.allocFails.head? ≠ some true := fun hhead ↦
      h.grants (mem_take_of_head? hhead hpos)
    simp [hne, hhead, hpos.ne']

theorem Stops.refl (pt : PageTable) (phys : Phys) (h : n = 0 ∨ phys.allocFails.head? = some true) :
    Stops pt phys pt n := ⟨le_rfl, by simp [h]⟩

theorem Stops.add (h : Stops pt phys pt' n) (hn : 0 < n) (m : Nat) : Stops pt phys pt' (n + m) :=
  ⟨h.le, h.same.trans (or_congr_left (by omega))⟩

section Creation

variable {ok : Bool}

theorem createMid_asks (h : pt.createMid phys vpn = (ok, pt', phys')) :
    (ok = true ∧ Granted pt phys pt' phys' (!pt.hasMid [] vpn).toNat ∧ pt'.hasMid [] vpn = true ∧
        ∀ w, pt'.hasMid [] w = pt.hasMid [vpn] w ∧ pt'.hasLeaf [] w = pt.hasLeaf [] w) ∨
      (ok = false ∧ pt' = pt ∧ pt.hasMid [] vpn = false ∧ phys.allocFails.head? = some true) := by
  revert h
  fun_cases pt.createMid phys vpn with rintro ⟨⟩
  | case1 mid hmid =>
    refine .inl ⟨rfl, by simpa [hasMid, hmid] using Granted.refl pt phys, by simp [hasMid, hmid],
      fun w ↦ ⟨?_, rfl⟩⟩
    by_cases h0 : index0 vpn = index0 w
    · simp [hasMid, ← h0, hmid]
    · simp [hasMid, h0]
  | case2 hnone _ halloc =>
    exact .inr ⟨rfl, rfl, by simp [hasMid, hnone], Phys.head?_of_frameAlloc_none halloc⟩
  | case3 hnone p phys₁ halloc =>
    obtain ⟨htake, hrest⟩ := Phys.allocFails_of_frameAlloc_some halloc
    have hone : (!pt.hasMid [] vpn).toNat = 1 := by simp [hasMid, hnone]
    refine .inl ⟨rfl, ?_, by simp [hasMid], fun w ↦ ?_⟩
    · rw [hone]
      exact ⟨htake, hrest, prefix_append _ _, by simp⟩
    · by_cases h0 : index0 w = index0 vpn
      · simp [hasMid, hasLeaf, findLeaf, h0, hnone]
      · simp [hasMid, hasLeaf, findLeaf, Function.update_of_ne h0, Ne.symm h0]

theorem createLeaf_asks (hmid : pt.hasMid [] vpn = true)
    (h : pt.createLeaf phys vpn = (ok, pt', phys')) :
    (ok = true ∧ Granted pt phys pt' phys' (!pt.hasLeaf [] vpn).toNat ∧
        ∀ w, pt'.hasMid [] w = pt.hasMid [] w ∧ pt'.hasLeaf [] w = pt.hasLeaf [vpn] w) ∨
      (ok = false ∧ pt' = pt ∧ pt.hasLeaf [] vpn = false ∧ phys.allocFails.head? = some true) := by
  revert h
  fun_cases pt.createLeaf phys vpn with rintro ⟨⟩
  | case1 hnone => simp [hasMid, hnone] at hmid
  | case2 mid hroot leaf hleaf =>
    refine .inl ⟨rfl, by simpa [hasLeaf, findLeaf, hroot, hleaf] using Granted.refl pt phys,
      fun w ↦ ⟨rfl, ?_⟩⟩
    by_cases h0 : index0 vpn = index0 w ∧ index1 vpn = index1 w
    · simp [hasLeaf, findLeaf, ← h0.1, ← h0.2, hroot, hleaf]
    · simp only [hasLeaf]
      grind
  | case3 mid hroot hnone _ halloc =>
    exact .inr ⟨rfl, rfl, by simp [hasLeaf, findLeaf, hroot, hnone], Phys.head?_of_frameAlloc_none halloc⟩
  | case4 mid hroot hnone p _ halloc mid' =>
    obtain ⟨htake, hrest⟩ := Phys.allocFails_of_frameAlloc_some halloc
    have hone : (!pt.hasLeaf [] vpn).toNat = 1 := by simp [hasLeaf, findLeaf, hroot, hnone]
    refine .inl ⟨rfl, ?_, fun w ↦ ?_⟩
    · rw [hone]
      exact ⟨htake, hrest, prefix_append _ _, by simp⟩
    · by_cases h0 : index0 w = index0 vpn
      · by_cases h1 : index1 w = index1 vpn
        · simp [hasMid, hasLeaf, findLeaf, h0, h1, hroot, mid']
        · simp [hasMid, hasLeaf, findLeaf, h0, Function.update_of_ne h1, Ne.symm h1, hroot, mid']
      · simp [hasMid, hasLeaf, findLeaf, Function.update_of_ne h0, Ne.symm h0]

theorem findPteCreate_asks (h : pt.findPteCreate phys vpn = (ok, pt', phys')) :
    (ok = true ∧ Granted pt phys pt' phys' (pt.lacks [] vpn) ∧ ShapedBy pt pt' [vpn]) ∨
      (ok = false ∧ true ∈ phys.allocFails.take (pt.lacks [] vpn) ∧
        Stops pt phys pt' (pt.lacks [] vpn)) := by
  unfold lacks
  revert h
  fun_cases pt.findPteCreate phys vpn with
  | case1 pt₁ phys₁ hmid =>
    rintro ⟨⟩
    obtain ⟨hok, -⟩ | ⟨-, rfl, hlacks, hhead⟩ := createMid_asks hmid
    · simp at hok
    · exact .inr ⟨rfl, mem_take_of_head? hhead (by simp [hlacks]), .refl _ _ (.inr hhead)⟩
  | case2 pt₁ phys₁ hmid =>
    intro h
    obtain ⟨-, hgranted, hhas, hshape⟩ | ⟨hok, -⟩ := createMid_asks hmid
    swap
    · simp at hok
    rw [← (hshape vpn).2]
    obtain ⟨rfl, hgranted', hshape'⟩ | ⟨rfl, rfl, hlacks, hhead⟩ := createLeaf_asks hhas h
    · refine .inl ⟨rfl, hgranted.trans hgranted', fun w ↦ ⟨(hshape' w).1.trans (hshape w).1, ?_⟩⟩
      have := (hshape w).2
      simp only [hasLeaf, any_nil, Bool.or_false] at this
      rw [(hshape' w).2]
      simp only [hasLeaf, this]
    · refine .inr ⟨rfl, ?_, hgranted.stops (.refl _ _ (.inr hhead))⟩
      by_contra hnot
      refine (notMem_take_add.mp hnot).2 ?_
      rw [← hgranted.rest]
      exact mem_take_of_head? hhead (by simp [hlacks])

end Creation

theorem ShapedBy.setPte (h : ShapedBy pt pt' seen) (pte : PageTableEntry) :
    ShapedBy pt (pt'.setPte vpn pte) seen := by
  refine fun w ↦ ?_
  rw [← (h w).1, ← (h w).2]
  unfold PageTable.setPte
  split
  · exact ⟨rfl, rfl⟩
  rename_i mid hmid
  split
  · exact ⟨rfl, rfl⟩
  rename_i leaf hl
  by_cases h0 : index0 w = index0 vpn
  · by_cases h1 : index1 w = index1 vpn
    · simp [hasMid, hasLeaf, findLeaf, h0, h1, hmid, hl]
    · simp [hasMid, hasLeaf, findLeaf, h0, hmid, Function.update_of_ne h1]
  · simp [hasMid, hasLeaf, findLeaf, Function.update_of_ne h0]

theorem map_asks {ppn : Nat} {r : Except Errno Unit}
    (h : pt.map phys vpn ppn flags = (r, pt', phys')) :
    (Granted pt phys pt' phys' (pt.lacks [] vpn) ∧
        ((r = .ok () ∧ (pt.entry vpn).isValid = false ∧ ShapedBy pt pt' [vpn]) ∨
          ((∃ e, r = .error e) ∧ (pt.entry vpn).isValid = true))) ∨
      (true ∈ phys.allocFails.take (pt.lacks [] vpn) ∧ (∃ e, r = .error e) ∧
        Stops pt phys pt' (pt.lacks [] vpn)) := by
  revert h
  fun_cases pt.map phys vpn ppn flags with
  | case1 pt₁ phys₁ hcreate =>
    rintro ⟨⟩
    obtain ⟨hok, -⟩ | ⟨-, hmem, hstops⟩ := findPteCreate_asks hcreate
    · simp at hok
    · exact .inr ⟨hmem, ⟨_, rfl⟩, hstops⟩
  | case2 pt₁ phys₁ hcreate hvalid =>
    rintro ⟨⟩
    obtain ⟨-, hgranted, -⟩ | ⟨hok, -⟩ := findPteCreate_asks hcreate
    · exact .inl ⟨hgranted, .inr ⟨⟨_, rfl⟩, (findPteCreate_spec hcreate).2.1 vpn ▸ hvalid⟩⟩
    · simp at hok
  | case3 pt₁ phys₁ hcreate hvalid =>
    rintro ⟨⟩
    obtain ⟨-, hgranted, hshaped⟩ | ⟨hok, -⟩ := findPteCreate_asks hcreate
    · refine .inl ⟨⟨hgranted.1, hgranted.2, ?_, ?_⟩, .inl ⟨rfl, ?_, hshaped.setPte _⟩⟩
      · simpa using hgranted.isPrefix
      · simpa using hgranted.length
      · simpa [(findPteCreate_spec hcreate).2.1 vpn] using hvalid
    · simp at hok

theorem entry_of_map {ppn : Nat} (h : pt.map phys vpn ppn flags = (.ok (), pt', phys')) (hv : v ≠ vpn) :
    pt'.entry v = pt.entry v := by
  obtain ⟨-, ⟨-, -, heq⟩ | ⟨⟨e, he⟩, -⟩⟩ := map_spec h
  · rw [heq, if_neg hv]
  · simp at he

/-! ### The loops -/

/-- The allocations of a loop that maps pages are all granted, and no page has an entry yet. -/
def Serves (pt : PageTable) (own : Nat) (fails : List Bool) (seen vpns : List Nat) : Prop :=
  true ∉ fails.take (pt.asks own seen vpns) ∧ ∀ v ∈ vpns, (pt.entry v).isValid = false

theorem serves_cons {own : Nat} {fails : List Bool} {vpns : List Nat} :
    pt.Serves own fails seen (vpn :: vpns) ↔ true ∉ fails.take (own + pt.lacks seen vpn) ∧
      (pt.entry vpn).isValid = false ∧
        pt.Serves own (fails.drop (own + pt.lacks seen vpn)) (vpn :: seen) vpns := by
  simp only [Serves, asks, forall_mem_cons]
  by_cases hvalid : (pt.entry vpn).isValid = true
  · simp [hvalid]
  · simp only [hvalid, Bool.false_eq_true, if_false, notMem_take_add, true_and]
    tauto

end PageTable

namespace MemorySet

open PageTable

variable {pt : PageTable} {seen : List Nat} {flags : PTEFlags} {pages : List (Nat × Nat)} {ps : PtState}

theorem installGiven_asks {mapped : List Nat} {frames : Std.ExtTreeMap Nat Nat}
    (hshaped : ShapedBy pt ps.pt seen) (hnodup : (pages.map Prod.fst).Nodup)
    (hentry : ∀ v ∈ pages.map Prod.fst, ps.pt.entry v = pt.entry v) :
    (pt.Serves 0 ps.k.phys.allocFails seen (pages.map Prod.fst) ∧
        ∃ frames' ps', installGiven flags pages mapped frames ps = (.ok frames', ps')) ∨
      (¬ pt.Serves 0 ps.k.phys.allocFails seen (pages.map Prod.fst) ∧
        ∃ e ps', installGiven flags pages mapped frames ps = (.error e, ps') ∧
          Stops ps.pt ps.k.phys ps'.pt (pt.asks 0 seen (pages.map Prod.fst))) := by
  induction pages generalizing ps mapped frames seen with
  | nil => exact .inl ⟨by simp [Serves, asks], _, _, rfl⟩
  | cons page pages ih =>
    obtain ⟨vpn, ppn⟩ := page
    obtain ⟨hnotMem, hnodup⟩ := nodup_cons.mp hnodup
    obtain ⟨hvpn, hentry⟩ := forall_mem_cons.mp hentry
    rcases hmap : ps.pt.map ps.k.phys vpn ppn flags with ⟨r, pt₁, phys₁⟩
    simp only [installGiven, hmap, map_cons, serves_cons, Nat.zero_add]
    have hasks := map_asks hmap
    rw [hshaped.lacks, hvpn] at hasks
    obtain ⟨hgranted, ⟨rfl, hinvalid, hshaped₁⟩ | ⟨⟨e, rfl⟩, hvalid⟩⟩ | ⟨hmem, ⟨e, rfl⟩, hstops⟩ := hasks
    · have hentry₁ : ∀ v ∈ pages.map Prod.fst, pt₁.entry v = pt.entry v := by
        intro v hv
        rw [entry_of_map hmap (ne_of_mem_of_not_mem hv hnotMem), hentry v hv]
      have := @ih _ ⟨pt₁, ps.k.setPhys phys₁⟩ (mapped ++ [vpn]) (frames.insert vpn ppn)
        (hshaped.cons hshaped₁) hnodup hentry₁
      simp only [asks, hinvalid, Nat.zero_add]
      rw [show (ps.k.setPhys phys₁).phys.allocFails = _ from hgranted.rest] at this
      refine this.imp (And.imp_left fun hserves ↦ ⟨hgranted.grants, trivial, hserves⟩) ?_
      rintro ⟨hserves, e, ps', heq, hstops⟩
      exact ⟨fun h ↦ hserves h.2.2, e, ps', heq, hgranted.stops hstops⟩
    · refine .inr ⟨fun h ↦ by simp [hvalid] at h, e, _, rfl, ?_⟩
      have := hgranted.stops (.refl pt₁ phys₁ (.inl rfl))
      exact ⟨by simpa using this.le, by simpa [asks, hvalid] using this.same⟩
    · refine .inr ⟨fun h ↦ h.1 hmem, e, _, rfl, ?_⟩
      have hpos : 0 < pt.lacks seen vpn := by
        by_contra h0
        simp [Nat.eq_zero_of_not_pos h0] at hmem
      have := hstops.add hpos
        (if (pt.entry vpn).isValid then 0 else pt.asks 0 (vpn :: seen) (pages.map Prod.fst))
      exact ⟨by simpa using this.le, by simpa [asks] using this.same⟩

theorem mapEach_asks {io : IoEnv} {ext : Nat → Nat} {vpns done : List Nat} {a : MapArea}
    (ha : a.fileBacking = none) (hshaped : ShapedBy pt ps.pt seen) (hnodup : vpns.Nodup)
    (hentry : ∀ v ∈ vpns, ps.pt.entry v = pt.entry v) :
    (∃ a' ps', mapEach io ext vpns done a ps = (.ok (), a', ps')) ↔
      pt.Serves 1 ps.k.phys.allocFails seen vpns := by
  induction vpns generalizing ps done a seen with
  | nil => simp [mapEach, Serves, asks]
  | cons vpn vpns ih =>
    obtain ⟨hnotMem, hnodup⟩ := nodup_cons.mp hnodup
    obtain ⟨hvpn, hentry⟩ := forall_mem_cons.mp hentry
    rw [serves_cons, notMem_take_add, and_assoc, ← drop_drop]
    simp only [mapEach, mapOne, liveBacking, ha, chooseFrame]
    rcases halloc : ps.k.phys.frameAlloc with ⟨_ | p, phys⟩
    · have hmem := mem_take_of_head? (Phys.head?_of_frameAlloc_none halloc) one_pos
      simp [hmem]
    obtain ⟨htake, hdrop⟩ := Phys.allocFails_of_frameAlloc_some halloc
    rw [← hdrop]
    simp only [htake, not_false_eq_true, true_and, installFrame]
    generalize a.installFlags (a.privateFileCow ((vpn - a.vpnRange.start) * pageSize) none) = flags
    have hcow : a.privateFileCow ((vpn - a.vpnRange.start) * pageSize) none = false := by
      simp [privateFileCow]
    rcases hmap : ps.pt.map (ps.k.setPhys phys).phys vpn p flags with ⟨r, pt₁, phys₁⟩
    simp only [hcow]
    have hasks := @map_asks _ _ phys _ _ _ _ _ hmap
    rw [hshaped.lacks, hvpn] at hasks
    obtain ⟨hgranted, ⟨rfl, hinvalid, hshaped₁⟩ | ⟨⟨e, rfl⟩, hvalid⟩⟩ | ⟨hmem, ⟨e, rfl⟩, hstops⟩ := hasks
    · have hentry₁ : ∀ v ∈ vpns, pt₁.entry v = pt.entry v := by
        intro v hv
        rw [entry_of_map hmap (ne_of_mem_of_not_mem hv hnotMem), hentry v hv]
      refine Iff.trans (@ih _ _ _ _ ha (hshaped.cons hshaped₁) hnodup hentry₁) ?_
      simp only [hgranted.grants, hinvalid, not_false_eq_true, true_and, ← hgranted.rest]
      rfl
    · simp [hvalid]
    · simp [hmem]

/-! ### Recovery -/

/-- What a call that returns an error has to leave as it was. -/
structure Restored (s s' : MmState) : Prop where
  areas : s'.ms.areas = s.ms.areas
  mmapStart : s'.ms.mmapStart = s.ms.mmapStart
  frames : s'.ms.pageTable.frames = s.ms.pageTable.frames
  entry : ∀ v, s'.ms.pageTable.entry v = s.ms.pageTable.entry v ∨
    ((s.ms.pageTable.entry v).isValid = false ∧ (s'.ms.pageTable.entry v).isValid = false)

/-- The call returns, and on an error everything is as before. -/
def Recovers (s : MmState) : Outcome MmState Nat → Prop
  | .ok _ _ => True
  | .err _ s' => Restored s s'
  | .panic => False

theorem Restored.refl (s : MmState) : Restored s s := ⟨rfl, rfl, rfl, fun _ ↦ .inl rfl⟩

end MemorySet

open MemorySet PageTable

/-- The loop over given frames succeeds, needs no page of the table, or gets none. -/
def PageTable.ServesGiven (pt : PageTable) (fails : List Bool) (vpns : List Nat) : Prop :=
  pt.Serves 0 fails [] vpns ∨ pt.asks 0 [] vpns = 0 ∨ fails.head? = some true

/-- The allocations that a call can do without: for anonymous shared memory none of those that it asks
for, for given frames (`count` of them) the first. -/
def MmapBacking.Affords (pt : PageTable) (fails : List Bool) (r : VPNRange) (count : Nat) :
    MmapBacking → Prop
  | .lazyAnonymous | .privateFile _ _ _ => True
  | .sharedAnonymous => pt.Serves 1 fails [] r.vpns
  | .sharedFrames _ frames =>
    frames.length = count → pt.ServesGiven fails ((r.vpns.zip frames).map Prod.fst)
  | .sharedFileFrames _ _ _ validLen frames =>
    frames.length = count → pt.ServesGiven fails (((r.vpns.zip frames).filter fun e ↦
      decide ((e.1 - r.start) * pageSize < validLen)).map Prod.fst)

/-- The chosen range has what the backing needs of the allocator. -/
def MemorySet.Affords (s : MmState) (req : MmapRequest) (backing : MmapBacking) : Prop :=
  ∀ start stop s', prepareMmap s req = .ok (start, stop) s' →
    backing.Affords s.ms.pageTable s.k.phys.allocFails (byteRange start stop) (req.mapLen / pageSize)

namespace MemorySet

variable {s s' : MmState} {io : IoEnv} {ext : Nat → Nat} {req : MmapRequest} {backing : MmapBacking}
  {start stop : Nat}

theorem recovers_installGiven (hnodup : (pages.map Prod.fst).Nodup)
    {after : Std.ExtTreeMap Nat Nat → PtState → Outcome MmState Nat}
    (hafter : ∀ frames ps, Recovers s (after frames ps)) :
    Recovers s (match installGiven flags pages [] ∅ ⟨s.ms.pageTable, s.k⟩ with
      | (.error e, ps) => .err e ⟨{ s.ms with pageTable := ps.pt }, ps.k⟩
      | (.ok frames, ps) => after frames ps) ↔
    s.ms.pageTable.ServesGiven s.k.phys.allocFails (pages.map Prod.fst) := by
  unfold ServesGiven
  obtain ⟨hserves, frames, ps, heq⟩ | ⟨hserves, e, ps, heq, hstops⟩ :=
    @installGiven_asks s.ms.pageTable [] flags pages ⟨s.ms.pageTable, s.k⟩ [] ∅ (.refl _) hnodup
      fun _ _ ↦ rfl
  · simp [heq, hserves, hafter]
  · simp only [heq, hserves, false_or, ← hstops.same]
    exact ⟨fun h ↦ h.frames, fun h ↦ ⟨rfl, rfl, h, fun v ↦ (installGiven_error heq).2.2 v (by simp)⟩⟩

theorem recovers_installArea (h : ∀ attachId frames, backing = .sharedFrames attachId frames →
      frames.length = req.mapLen / pageSize) :
    Recovers s (installArea s io ext req backing start stop) ↔ backing.Affords s.ms.pageTable
      s.k.phys.allocFails (byteRange start stop) (req.mapLen / pageSize) := by
  have hnodup := (byteRange start stop).nodup_vpns
  cases backing with
  | lazyAnonymous => exact Iff.rfl
  | privateFile file offset len => exact Iff.rfl
  | sharedAnonymous =>
    have hasks : (∃ a ps, (blankArea req start stop true).map ⟨s.ms.pageTable, s.k⟩ io ext =
        (.ok (), a, ps)) ↔ _ := mapEach_asks rfl (.refl _) hnodup fun _ _ ↦ rfl
    refine Iff.trans ?_ hasks
    simp only [installArea]
    rcases (blankArea req start stop true).map ⟨s.ms.pageTable, s.k⟩ io ext with ⟨e | u, a, ps⟩
    · simp [Recovers]
    · simp [commitArea, Recovers]
  | sharedFrames attachId frames =>
    rw [MmapBacking.Affords, imp_iff_right (h attachId frames rfl)]
    exact recovers_installGiven (nodup_map_fst_zip hnodup frames) fun _ _ ↦ trivial
  | sharedFileFrames file offset len validLen frames =>
    by_cases hlen : frames.length = req.mapLen / pageSize
    · simp only [installArea, MmapBacking.Affords, hlen, ne_eq, not_true_eq_false, if_false, true_imp_iff]
      exact recovers_installGiven ((nodup_map_fst_zip hnodup frames).sublist (filter_sublist.map _))
        fun _ _ ↦ trivial
    · simp [installArea, MmapBacking.Affords, hlen, Recovers, Restored.refl]

/-- A call of `mmap_area` that replaces nothing recovers exactly when the backing can do without the
allocations that fail. -/
theorem recovers_mmapArea (s : MmState) (io : IoEnv) (ext : Nat → Nat) (req : MmapRequest)
    (backing : MmapBacking) (hreplace : req.replace = false) :
    Recovers s (mmapArea s io ext req backing) ↔ Affords s req backing := by
  unfold mmapArea Affords
  simp only
  split_ifs with hbad
  · cases backing with simp at hbad
    | sharedFrames attachId frames => simp [Recovers, Restored.refl, MmapBacking.Affords, hbad]
  have hlen : ∀ attachId frames, backing = .sharedFrames attachId frames →
      frames.length = req.mapLen / pageSize := by
    rintro attachId frames rfl
    simpa using hbad
  rcases prepareMmap_cases s req with ⟨e, he⟩ | ⟨start, stop, s₁, h⟩
  · simp [he, Outcome.andThen, Recovers, Restored.refl]
  · obtain rfl : s₁ = s := by simpa [hreplace] using h.state
    simp only [h.prepared, Outcome.andThen, recovers_installArea hlen]
    simp

end MemorySet

namespace Machine

open MemorySet

def twoPages : MmapRequest := ⟨none, 0x2000, Nat.succ_pos 8191, .rwu, false, false, false, false⟩

/-- Two pages of anonymous shared memory, where so many allocations are granted. -/
def mapShared (granted : Nat) : Label :=
  { sid := 0
    action := .op (.mmap twoPages (.anonymous true))
    allocFails := List.replicate granted false ++ [true] }

/-- Four frames are left, and the call takes them: two for the table and two for the memory. -/
theorem recovers_shared : ∃ m, Run Init (fun _ _ ↦ True) Step m ∧ ∃ ms ∈ m.spaces,
    let s : MmState := ⟨ms, (m.settle (mapShared 4)).k⟩
    Recovers s (mmapArea s {} (m.others 0) twoPages .sharedAnonymous) ∧
      ∃ start s', mmapArea s {} (m.others 0) twoPages .sharedAnonymous = .ok start s' ∧
        s'.ms.pageTable.frames.length = ms.pageTable.frames.length + 2 ∧
          s'.k.phys.allocFails = [true] :=
  ⟨oneSpace, .start init_oneSpace, _, mem_cons_self,
    (recovers_mmapArea _ _ _ _ .sharedAnonymous rfl).mpr (by
      rintro start stop s' ⟨⟩
      exact ⟨by decide, by decide⟩), _, _, rfl, rfl, rfl⟩

/-- Three frames are left, and the fourth is asked for: the kernel panics. -/
theorem panic_on_exhaustion : ∃ m, Run Init (fun _ _ ↦ True) Step m ∧ ∃ ms ∈ m.spaces,
    mmapArea ⟨ms, (m.settle (mapShared 3)).k⟩ {} (m.others 0) twoPages .sharedAnonymous = .panic ∧
    m.next (mapShared 3) = none :=
  ⟨oneSpace, .start init_oneSpace, _, mem_cons_self, rfl, rfl⟩

end Machine

end RespOS.Mm
