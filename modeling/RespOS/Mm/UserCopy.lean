import RespOS.Mm.Isolation

/-!
# Copies from the kernel to user memory

`copy_kernel_bytes_to_user` faults in every page of the range that is not ready for a store, with one
fault each, and then writes through the translated frames. One fault is enough for a page that is
resident and marked copy-on-write, and for an absent page of anonymous memory. For an absent page of a
private file mapping one fault installs the frame of the page cache, read-only and marked
copy-on-write; the copy that follows writes into that frame all the same, and so into the file.

`copyOut_iff` says for every state and every range of private writable memory whether the copy is
private. The state enters through `PrivateAt`, which holds in every run without moves and segments
(`privateAt_of_run`). `copyOut_changes_file` is the failing call.
-/

namespace RespOS.Mm

open RespOS.Basis RespOS.Fs PageTableEntry List PTEFlags VPNRange PageTable Function MemorySet MapArea Nat

namespace MemorySet

/-! ### One fault -/

def Holds (ms : MemorySet) (v p : Nat) : Prop := ∃ a ∈ ms.areas, a.dataFrames[v]? = some p

/-- Where the frame of a page comes from that a fault made ready. -/
inductive FaultedFrom (others : Nat → Nat) (a : MapArea) (v : Nat) (s s' : MmState) (p : Nat) : Prop
  | resolved (hvisible : (s.ms.pageTable.entry v).visible = true)
      (hcow : (s.ms.pageTable.entry v).isCow = true) (hrec : a.dataFrames[v]? = some p)
      (hanon : a.fileBacking = none) (hcount : strongCount s others p = 1)
  | copied (hvisible : (s.ms.pageTable.entry v).visible = true)
      (hcow : (s.ms.pageTable.entry v).isCow = true) (hfresh : Fresh s s' p)
  | own (hvisible : (s.ms.pageTable.entry v).visible = false)
      (huses : a.usesFile ((v - a.start) * pageSize) = false) (hfresh : Fresh s s' p)
  | backed {f idx : Nat} (hvisible : (s.ms.pageTable.entry v).visible = false)
      (huses : a.usesFile ((v - a.start) * pageSize) = true) (hbacks : s'.k.Backs f idx p)

/-- A store fault made page `v` of the area ready and left every other page alone. -/
structure FaultedPage (others : Nat → Nat) (a : MapArea) (v : Nat) (s s' : MmState) : Prop where
  obtains : s.k.Obtains (s.ms.pins others) s'.k
  forward : ∀ b ∈ s.ms.areas, ∃ d : Std.ExtTreeMap Nat Nat, b.withFrames d ∈ s'.ms.areas ∧
    ∀ w : Nat, w ≠ v → d[w]? = b.dataFrames[w]?
  backward : ∀ b' ∈ s'.ms.areas, ∃ b ∈ s.ms.areas, ∃ d : Std.ExtTreeMap Nat Nat,
    b' = b.withFrames d ∧ ∀ w : Nat, w ≠ v → d[w]? = b.dataFrames[w]?
  entry : ∀ w, w ≠ v → s'.ms.pageTable.entry w = s.ms.pageTable.entry w
  page : ∃ p, s'.ms.Holds v p ∧ (s'.ms.pageTable.entry v).visible = true ∧
    (s'.ms.pageTable.entry v).ppn = p ∧ FaultedFrom others a v s s' p

variable {out : PageFaultOutcome} {vpns : List Nat} {cur i : Nat} {data : List UInt8}

section Fault

variable {others : Nat → Nat} {io : IoEnv} {s s' : MmState} {a : MapArea} {v idx : Nat}

theorem FaultedPage.holds (h : FaultedPage others a v s s') {w : Nat} (hne : w ≠ v) (p : Nat) :
    s'.ms.Holds w p ↔ s.ms.Holds w p := by
  constructor
  · rintro ⟨b', hb', hp⟩
    obtain ⟨b, hb, d, rfl, hd⟩ := h.backward b' hb'
    exact ⟨b, hb, (hd w hne).symm.trans hp⟩
  · rintro ⟨b, hb, hp⟩
    obtain ⟨d, hmem, hd⟩ := h.forward b hb
    exact ⟨_, hmem, (hd w hne).trans hp⟩

theorem areas_set {d : Std.ExtTreeMap Nat Nat} {areas : List MapArea} (hidx : areas[idx]? = some a)
    (hd : ∀ w : Nat, w ≠ v → d[w]? = a.dataFrames[w]?) :
    (∀ b ∈ areas, ∃ d' : Std.ExtTreeMap Nat Nat, b.withFrames d' ∈ areas.set idx (a.withFrames d) ∧
        ∀ w : Nat, w ≠ v → d'[w]? = b.dataFrames[w]?) ∧
      ∀ b' ∈ areas.set idx (a.withFrames d), ∃ b ∈ areas, ∃ d' : Std.ExtTreeMap Nat Nat,
        b' = b.withFrames d' ∧ ∀ w : Nat, w ≠ v → d'[w]? = b.dataFrames[w]? := by
  obtain ⟨l₁, l₂, rfl, -, hset⟩ := exists_split hidx
  rw [hset]
  constructor
  · intro b hb
    rcases mem_append_cons_iff.mp hb with rfl | hb
    · exact ⟨d, by simp, hd⟩
    · exact ⟨b.dataFrames, mem_append_cons_iff.mpr (.inr hb), fun _ _ ↦ rfl⟩
  · intro b' hb'
    rcases mem_append_cons_iff.mp hb' with rfl | hb'
    · exact ⟨a, by simp, d, rfl, hd⟩
    · exact ⟨b', mem_append_cons_iff.mpr (.inr hb'), b'.dataFrames, rfl, fun _ _ ↦ rfl⟩

theorem FaultedPage.of_insert (hidx : s.ms.areas[idx]? = some a) {ps : PtState}
    (hobt : s.k.Obtains (s.ms.pins others) ps.k) {p : Nat} {e : PageTableEntry}
    (hentry : ∀ w, ps.pt.entry w = if w = v then e else s.ms.pageTable.entry w)
    (hvisible : e.visible = true) (hppn : e.ppn = p) (hs' : s' = ⟨{ s.ms with
      pageTable := ps.pt
      areas := s.ms.areas.set idx (a.withFrames (a.dataFrames.insert v p)) }, ps.k⟩)
    (hfrom : FaultedFrom others a v s s' p) : FaultedPage others a v s s' := by
  have hd : ∀ w : Nat, w ≠ v → (a.dataFrames.insert v p)[w]? = a.dataFrames[w]? := by
    intro w hw
    simp [Std.ExtTreeMap.getElem?_insert, Ne.symm hw]
  have hlt : idx < s.ms.areas.length := (List.getElem?_eq_some_iff.mp hidx).1
  have hself : ps.pt.entry v = e := (hentry v).trans (if_pos rfl)
  obtain ⟨hforward, hbackward⟩ := areas_set hidx hd
  subst hs'
  exact ⟨hobt, hforward, hbackward, fun w hw ↦ (hentry w).trans (if_neg hw), p,
    ⟨_, mem_of_getElem? (getElem?_set_self hlt), Std.ExtTreeMap.getElem?_insert_self⟩,
    hself ▸ hvisible, hself ▸ hppn, hfrom⟩

theorem faulted_cowFault (h : s.ms.Sound s.k) (hk : s.k.WellFormed)
    (hidx : s.ms.areas[idx]? = some a) (hvisible : (s.ms.pageTable.entry v).visible = true)
    (hcow : (s.ms.pageTable.entry v).isCow = true) (hok : cowFault s others idx a v = .ok out s') :
    FaultedPage others a v s s' := by
  have ha := mem_of_getElem? hidx
  have hvalid := isValid_of_visible hvisible
  unfold cowFault at hok
  split_ifs at hok with hshared hwrite
  split at hok
  · simp at hok
  rename_i old hold
  have hwrite' : a.mapPerm.write = true := by simpa using hwrite
  have hflags : ∀ p, (⟨p, (ofPerm a.mapPerm).mapped⟩ : PageTableEntry).visible = true := by
    intro p
    simp [visible, isValid, readable, mapped, ofPerm, hwrite']
  split_ifs at hok with hcount
  · obtain ⟨hone, hanon⟩ := hcount
    obtain ⟨-, rfl⟩ := hok
    have hentry := entry_modifyPte_clearPteCow hvalid a.mapPerm
    obtain ⟨hforward, hbackward⟩ := areas_set hidx fun _ _ ↦ rfl
    rw [← set_self hidx] at hforward hbackward
    refine ⟨.refl hk, hforward, hbackward, fun w hw ↦ (hentry w).trans (if_neg hw), old,
      ⟨a, ha, hold⟩, ?_, ?_, .resolved hvisible hcow hold hanon hone⟩
    · exact ((hentry v).trans (if_pos rfl)) ▸ hflags _
    · exact ((hentry v).trans (if_pos rfl)) ▸ (h.valid a ha v old hold).2
  · rcases hone : a.replaceFrame ⟨s.ms.pageTable, s.k⟩ v (s.k.phys.mem old) with ⟨r, a', ps⟩
    obtain ⟨hobt, hres⟩ := replaceFrame_spec (s.ms.pins others) hk hone
    have hremap : a.remapOneWithData ⟨s.ms.pageTable, s.k⟩ v (s.k.phys.mem old) = (r, a', ps) := hone
    rw [hremap] at hok
    rcases hres with ⟨rfl, p, rfl, -, hentry, hloose, hsupply, -⟩ | ⟨⟨e, rfl⟩, -⟩
    · obtain ⟨-, rfl⟩ := hok
      exact .of_insert hidx hobt hentry (hflags p) rfl rfl (.copied hvisible hcow ⟨hloose, hsupply⟩)
    · simp at hok

theorem faulted_lazyFault (hk : s.k.WellFormed) (hidx : s.ms.areas[idx]? = some a)
    (hvisible : (s.ms.pageTable.entry v).visible = false) (hwrite : a.mapPerm.write = true)
    (hok : lazyFault s others io .store idx a v = .ok out s') : FaultedPage others a v s s' := by
  unfold lazyFault at hok
  split_ifs at hok
  rcases hone : a.mapOne ⟨s.ms.pageTable, s.k⟩ io (s.ms.pins others) v with ⟨r, a', ps⟩
  obtain ⟨hobt, hres⟩ := mapOne_spec hk hone
  rw [hone] at hok
  rcases hres with ⟨fill, p, rfl, rfl, -, hentry, hfor⟩ | ⟨⟨e, rfl⟩, -⟩
  · obtain ⟨-, rfl⟩ := hok
    refine .of_insert hidx hobt hentry ?_ rfl rfl ?_
    · have hread : ∀ cow, (a.pageFlags cow).read = true := by
        intro cow
        simp only [pageFlags, installFlags]
        split_ifs <;> simp [mapped, removeWrite, ofPerm, hwrite]
      simp only [visible, isValid, readable, hread, Bool.true_or, Bool.and_true]
      rfl
    · cases huses : a.usesFile ((v - a.start) * pageSize) with
      | true =>
        obtain ⟨b, -, -, hbacks⟩ := hfor.file huses
        exact .backed hvisible huses hbacks
      | false => exact .own hvisible huses (hfor.own huses)
  · simp at hok

theorem floorVpn_virtAddr_usizeOfVpn (hv : v < 2 ^ 26) : floorVpn (virtAddr (usizeOfVpn v)) = v := by
  have hsmall : v * pageSize < 2 ^ 38 := by
    simp only [pageSize]
    omega
  have haddr : usizeOfVpn v = v * pageSize := by
    have hmod : v * pageSize % 2 ^ vaWidth = v * pageSize := mod_eq_of_lt (hsmall.trans (by decide))
    simp only [usizeOfVpn, hmod]
    exact if_pos hsmall
  rw [haddr, virtAddr_of_lt (hsmall.trans (by decide)), floorVpn]
  exact Nat.mul_div_cancel v (by decide)

variable (h : s.ms.Sound s.k) (hk : s.k.WellFormed)
include h hk

theorem faulted_handlePageFault (ha : a ∈ s.ms.areas)
    (hcontain : a.vpnRange.contain v = true) (hshared : a.shared = false)
    (hwrite : a.mapPerm.write = true) (hv : v < 2 ^ 26)
    (hneeds : needsFault s.ms.pageTable { write := true } v = true)
    (hok : handlePageFault s others io .store (usizeOfVpn v) none = .ok out s') :
    FaultedPage others a v s s' := by
  unfold handlePageFault at hok
  split_ifs at hok
  simp only [floorVpn_virtAddr_usizeOfVpn hv] at hok
  split at hok
  swap
  · rename_i hnone
    have := findIdx?_eq_none_iff.mp hnone a ha
    simp [hcontain] at this
  rename_i idx hfind
  obtain ⟨hi, hcontain', -⟩ := findIdx?_eq_some_iff_getElem.mp hfind
  obtain rfl : a = s.ms.areas[idx] := (geometry_iff.mp h.geometry).2.eq_of_mem ha
    (getElem_mem hi) (contain_eq_true.mp hcontain)
    (contain_eq_true.mp hcontain')
  have hidx : s.ms.areas[idx]? = some s.ms.areas[idx] := getElem?_eq_getElem hi
  rw [hidx] at hok
  simp only at hok
  unfold faultInArea at hok
  split_ifs at hok
  cases hpte : s.ms.pageTable.translate v with
  | none =>
    simp only [hpte] at hok
    have hvisible : (s.ms.pageTable.entry v).visible = false := by
      rw [translate_eq] at hpte
      by_contra hvis
      simp [Bool.not_eq_false _ ▸ hvis] at hpte
    exact faulted_lazyFault hk hidx hvisible hwrite hok
  | some pte =>
    obtain ⟨rfl, hvisible⟩ := translate_eq_some.mp hpte
    simp only [hpte] at hok
    by_cases hcow : (s.ms.pageTable.entry v).isCow = true
    · rw [if_pos ⟨trivial, hcow⟩] at hok
      exact faulted_cowFault h hk hidx hvisible hcow hok
    -- visible, unmarked and not writable: the fault is refused
    rw [if_neg (by simp [hcow]), if_neg (by simp [hshared])] at hok
    split_ifs at hok with hgrants
    simp only [needsFault, hpte, Bool.false_and, Bool.false_or, Bool.true_and, Bool.or_false,
      hcow, Bool.not_eq_true'] at hneeds
    simp [grants, hneeds] at hgrants

theorem sound_handlePageFault {cause : PageFaultCause} {stval : Nat} {userSp : Option Nat}
    (hok : handlePageFault s others io cause stval userSp = .ok out s') : s'.ms.Sound s'.k := by
  have heffect : (handlePageFault s others io cause stval userSp).Keeps
      (Effect ⟨others, io⟩ (.fault cause stval userSp) s) :=
    effect_handlePageFault h hk cause stval userSp
  have hgeo := geometry_handlePageFault others io cause stval userSp h.geometry
  rw [hok] at heffect hgeo
  exact (heffect s' rfl).sound h trivial (hgeo s' rfl)

end Fault

/-! ### Frames used elsewhere -/

/-- The frame is used outside the address space. -/
def Foreign (k : Kernel) (others : Nat → Nat) (p : Nat) : Prop :=
  k.caches.Cached p ∨ (∃ key, k.sharedFilePages key = some p) ∨ others p ≠ 0

/-- The frame belongs to one page of the address space and to no file. -/
structure Own (s : MmState) (v p : Nat) : Prop where
  holds : s.ms.Holds v p
  loose : s.k.Loose p
  alone : ∀ w, s.ms.Holds w p → w = v

/-- What the copy relies on at one page: a storable entry belongs to a record, a private anonymous page
has a frame of its own, and so has a storable page unless its frame belongs to a file. -/
structure PrivateAt (s : MmState) (v : Nat) : Prop where
  recorded : (s.ms.pageTable.entry v).storable = true → ∃ p, s.ms.Holds v p
  anonymous : ∀ a ∈ s.ms.areas, a.shared = false → a.fileBacking = none → ∀ p : Nat,
    a.dataFrames[v]? = some p → Own s v p
  alone : (s.ms.pageTable.entry v).storable = true → ∀ p, s.ms.Holds v p → s.k.Loose p → Own s v p

section Frames

variable {others : Nat → Nat} {io : IoEnv} {s s' : MmState} {a : MapArea} {v w p : Nat}

theorem Holds.not_supply (h : s.ms.Holds v p) (hsound : s.ms.Sound s.k) (n : Nat) :
    p ≠ s.k.phys.supply n := by
  obtain ⟨a, ha, hp⟩ := h
  exact hsound.owned a ha v p hp n

theorem Holds.ppn (h : s.ms.Holds v p) (hsound : s.ms.Sound s.k) :
    (s.ms.pageTable.entry v).ppn = p := by
  obtain ⟨a, ha, hp⟩ := h
  exact (hsound.valid a ha v p hp).2

theorem not_foreign_of_loose {k : Kernel} (h : k.Loose p) (hothers : others p = 0) :
    ¬ Foreign k others p := by
  rintro (hcached | ⟨key, hkey⟩ | hne)
  · exact h.not_cached hcached
  · exact h.not_shared key hkey
  · exact hne hothers

theorem loose_of_not_foreign (hsound : s.ms.Sound s.k) (hholds : s.ms.Holds v p)
    (h : ¬ Foreign s.k others p) : s.k.Loose p ∧ others p = 0 := by
  simp only [Foreign, not_or, not_exists, not_not] at h
  exact ⟨⟨hholds.not_supply hsound, h.1, h.2.1⟩, h.2.2⟩

theorem foreign_of_backs {k : Kernel} {f idx : Nat} (h : k.Backs f idx p) : Foreign k others p :=
  h.cases.imp_right .inl

section Faulted

variable (h : FaultedPage others a v s s')

include h

theorem FaultedPage.cached (hholds : s.ms.Holds w p)
    (hcached : s.k.caches.Cached p) : s'.k.caches.Cached p := by
  obtain ⟨-, n, hev⟩ := h.obtains
  obtain ⟨c, i, q, hq, rfl⟩ := hcached
  obtain ⟨b, hb, hp⟩ := hholds
  have hcount := count_pos hb hp
  have hpin : s.ms.pins others q.frame ≠ 0 := by
    simp only [pins]
    omega
  obtain ⟨q', hq', hframe⟩ := hev.cachedKept c i q hq hpin
  exact ⟨c, i, q', hq', hframe⟩

theorem FaultedPage.foreign (hholds : s.ms.Holds w p)
    (hforeign : Foreign s.k others p) : Foreign s'.k others p := by
  obtain ⟨-, n, hev⟩ := h.obtains
  rcases hforeign with hcached | ⟨key, hkey⟩ | hne
  · exact .inl (h.cached hholds hcached)
  · exact .inr (.inl ⟨key, hev.sharedKept key p hkey⟩)
  · exact .inr (.inr hne)

variable (hsound : s.ms.Sound s.k)

include hsound

theorem FaultedPage.loose_of_loose (hholds : s.ms.Holds w p) (hloose : s'.k.Loose p) : s.k.Loose p := by
  obtain ⟨-, n, hev⟩ := h.obtains
  exact ⟨hholds.not_supply hsound, fun hcached ↦ hloose.not_cached (h.cached hholds hcached),
    fun key hkey ↦ hloose.not_shared key (hev.sharedKept key p hkey)⟩

variable (hsound' : s'.ms.Sound s'.k) (ha : a ∈ s.ms.areas)

include hsound' ha

theorem FaultedPage.back (hp : s'.ms.Holds w p) (hloose : s'.k.Loose p)
    (hsupply : ∀ n, p ≠ s.k.phys.supply n) : s.ms.Holds w p ∧ s.k.Loose p := by
  have hold : s.ms.Holds w p := by
    by_cases hwv : w = v
    · subst hwv
      obtain ⟨q, -, -, hppn, hfrom⟩ := h.page
      obtain rfl : q = p := hppn.symm.trans (hp.ppn hsound')
      cases hfrom with
      | resolved _ _ hrec => exact ⟨a, ha, hrec⟩
      | copied _ _ hfresh | own _ _ hfresh =>
        obtain ⟨-, j, hj⟩ := hfresh
        exact absurd hj (hsupply j)
      | backed _ _ hbacks => exact absurd hloose hbacks.not_loose
    · exact (h.holds hwv p).mp hp
  exact ⟨hold, h.loose_of_loose hsound hold hloose⟩

theorem FaultedPage.own (hne : w ≠ v) (hown : Own s w p) : Own s' w p := by
  have hloose := h.obtains.loose hown.loose
  have hsupply := hown.holds.not_supply hsound
  exact ⟨(h.holds hne p).mpr hown.holds, hloose, fun u hu ↦
    hown.alone u (h.back hsound hsound' ha hu hloose hsupply).1⟩

theorem FaultedPage.privateAt (hne : w ≠ v) (hprivate : PrivateAt s w) : PrivateAt s' w := by
  refine ⟨fun hst ↦ ?_, fun b' hb' hshared hanon p hp ↦ ?_, fun hst p hp hloose ↦ ?_⟩
  · obtain ⟨p, hp⟩ := hprivate.recorded (h.entry w hne ▸ hst)
    exact ⟨p, (h.holds hne p).mpr hp⟩
  · obtain ⟨b, hb, d, rfl, hd⟩ := h.backward b' hb'
    exact h.own hsound hsound' ha hne
      (hprivate.anonymous b hb hshared hanon p ((hd w hne).symm.trans hp))
  · have hp' := (h.holds hne p).mp hp
    exact h.own hsound hsound' ha hne (hprivate.alone (h.entry w hne ▸ hst) p hp'
      (h.loose_of_loose hsound hp' hloose))

end Faulted

end Frames

/-! ### The fault-in pass -/

/-- The copy is private at page `v` of the area: an absent page gets a frame of its own, and a page that
is ready for a store has a frame that is not used elsewhere. -/
def CopiesPrivately (s : MmState) (others : Nat → Nat) (a : MapArea) (v : Nat) : Prop :=
  ((s.ms.pageTable.entry v).visible = false → a.usesFile ((v - a.start) * pageSize) = false) ∧
    ((s.ms.pageTable.entry v).storable = true → (s.ms.pageTable.entry v).isCow = false →
      ¬ Foreign s.k others (s.ms.pageTable.entry v).ppn)

/-- The page is ready for the copy: its frame is its own exactly where the copy is private. -/
def Ready (others : Nat → Nat) (v : Nat) (s : MmState) (copies : Prop) : Prop :=
  ∃ p, s.ms.Holds v p ∧ (s.ms.pageTable.entry v).visible = true ∧
    (copies → Own s v p ∧ others p = 0) ∧ (¬ copies → Foreign s.k others p)

/-- A page of a private writable area below the trampoline. -/
structure InPrivate (s : MmState) (v : Nat) : Prop where
  area : ∃ a ∈ s.ms.areas, a.vpnRange.contain v = true ∧ a.shared = false ∧ a.mapPerm.write = true
  bound : v < 2 ^ 26
  state : PrivateAt s v

/-- What the pass over the pages `vpns` has done. -/
structure Passed (others : Nat → Nat) (vpns : List Nat) (s s₁ : MmState) : Prop where
  sound : s₁.ms.Sound s₁.k
  kernel : s₁.k.WellFormed
  mem : ∀ q, (∀ n, q ≠ s.k.phys.supply n) → s₁.k.phys.mem q = s.k.phys.mem q
  own : ∀ w, w ∉ vpns → ∀ p, Own s w p → Own s₁ w p
  foreign : ∀ w, w ∉ vpns → ∀ p, s.ms.Holds w p → Foreign s.k others p → Foreign s₁.k others p
  holds : ∀ w, w ∉ vpns → ∀ p, s₁.ms.Holds w p ↔ s.ms.Holds w p
  entry : ∀ w, w ∉ vpns → s₁.ms.pageTable.entry w = s.ms.pageTable.entry w
  back : ∀ w p, s₁.ms.Holds w p → s₁.k.Loose p → (∀ n, p ≠ s.k.phys.supply n) →
    s.ms.Holds w p ∧ s.k.Loose p
  page : ∀ v ∈ vpns, ∀ a ∈ s.ms.areas, a.vpnRange.contain v = true →
    Ready others v s₁ (CopiesPrivately s others a v)

section Pass

variable {others : Nat → Nat} {io : IoEnv} {s s' s₁ : MmState} {a : MapArea} {v w p : Nat}

theorem visible_of_storable (hsound : s.ms.Sound s.k) (hprivate : PrivateAt s v)
    (hst : (s.ms.pageTable.entry v).storable = true) : (s.ms.pageTable.entry v).visible = true := by
  obtain ⟨p, b, hb, hp⟩ := hprivate.recorded hst
  simp only [storable, Bool.and_eq_true] at hst
  have hread := (hsound.writable b hb v p hp hst.2).2
  simp [visible, hst.1, hread]

theorem FaultedPage.ready (h : FaultedPage others a v s s') (hsound : s.ms.Sound s.k)
    (ha : a ∈ s.ms.areas) (hshared : a.shared = false) (hprivate : PrivateAt s v)
    (hothers : ∀ p, others p ≠ 0 → ∀ n, p ≠ s.k.phys.supply n) :
    Ready others v s' (CopiesPrivately s others a v) := by
  obtain ⟨p, hp, hvisible, -, hfrom⟩ := h.page
  have hfreshOwn : Fresh s s' p → Own s' v p ∧ others p = 0 := by
    rintro ⟨hloose, j, hj⟩
    refine ⟨⟨hp, hloose, fun u hu ↦ ?_⟩, ?_⟩
    · by_contra hne
      exact ((h.holds hne p).mp hu).not_supply hsound j hj
    · by_contra hne
      exact hothers p hne j hj
  refine ⟨p, hp, hvisible, fun hcopies ↦ ?_, fun hnot ↦ ?_⟩
  · cases hfrom with
    | resolved _ _ hrec hanon hcount =>
      have hown := hprivate.anonymous a ha hshared hanon p hrec
      have hself := count_pos ha hrec
      refine ⟨⟨hp, h.obtains.loose hown.loose, fun u hu ↦ ?_⟩, ?_⟩
      · by_contra hne
        exact hne (hown.alone u ((h.holds hne p).mp hu))
      · simp only [strongCount] at hcount
        omega
    | copied _ _ hfresh | own _ _ hfresh => exact hfreshOwn hfresh
    | backed hvis huses =>
      have := hcopies.1 hvis
      simp [huses] at this
  · cases hfrom with
    | resolved hvis hcow | copied hvis hcow =>
      refine absurd ⟨fun hnot ↦ ?_, fun _ hnot ↦ ?_⟩ hnot
      · simp [hvis] at hnot
      · simp [hcow] at hnot
    | own hvis huses =>
      refine absurd ⟨fun _ ↦ huses, fun hst ↦ ?_⟩ hnot
      have := visible_of_storable hsound hprivate hst
      simp [hvis] at this
    | backed _ _ hbacks => exact foreign_of_backs hbacks

theorem ready_of_not_needsFault (hsound : s.ms.Sound s.k) (hprivate : PrivateAt s v)
    (hneeds : needsFault s.ms.pageTable { write := true } v = false) :
    Ready others v s (CopiesPrivately s others a v) := by
  rw [needsFault, translate_eq] at hneeds
  split at hneeds
  swap
  · simp at hneeds
  rename_i pte hpte
  split_ifs at hpte with hvisible
  obtain rfl := Option.some.inj hpte
  simp only [Bool.false_and, Bool.false_or, Bool.true_and, Bool.or_false, Bool.or_eq_false_iff,
    Bool.not_eq_false'] at hneeds
  obtain ⟨hwritable, hcow⟩ := hneeds
  have hst : (s.ms.pageTable.entry v).storable = true := by
    simp [storable, isValid_of_visible hvisible, hwritable]
  obtain ⟨p, hp⟩ := hprivate.recorded hst
  refine ⟨p, hp, hvisible, fun hcopies ↦ ?_, fun hnot ↦ ?_⟩
  · have hnotForeign := hcopies.2 hst hcow
    rw [hp.ppn hsound] at hnotForeign
    obtain ⟨hloose, hzero⟩ := loose_of_not_foreign hsound hp hnotForeign
    exact ⟨hprivate.alone hst p hp hloose, hzero⟩
  · by_contra hforeign
    refine hnot ⟨fun hvis ↦ by simp [hvisible] at hvis, fun _ _ ↦ ?_⟩
    rw [hp.ppn hsound]
    exact hforeign

theorem FaultedPage.copiesPrivately (h : FaultedPage others a v s s') (hsound : s.ms.Sound s.k)
    (hne : w ≠ v) (hprivate : PrivateAt s w) {b : MapArea} (d : Std.ExtTreeMap Nat Nat) :
    CopiesPrivately s' others (b.withFrames d) w ↔ CopiesPrivately s others b w := by
  have huses : (b.withFrames d).usesFile ((w - (b.withFrames d).start) * pageSize) =
      b.usesFile ((w - b.start) * pageSize) := rfl
  unfold CopiesPrivately
  rw [h.entry w hne, huses]
  refine and_congr_right fun _ ↦ forall_congr' fun hst ↦ forall_congr' fun hcow ↦ not_congr ?_
  obtain ⟨p, hp⟩ := hprivate.recorded hst
  rw [hp.ppn hsound]
  refine ⟨fun hforeign ↦ ?_, h.foreign hp⟩
  by_contra hnot
  obtain ⟨hloose, hzero⟩ := loose_of_not_foreign hsound hp hnot
  have hloose' := h.obtains.loose hloose
  rcases hforeign with hcached | ⟨key, hkey⟩ | hothers
  · exact hloose'.not_cached hcached
  · exact hloose'.not_shared key hkey
  · exact hothers hzero

theorem Ready.mono {copies copies' : Prop} (h : Ready others v s copies)
    (hiff : copies' ↔ copies) : Ready others v s copies' := by
  obtain ⟨p, hp, hvisible, hown, hforeign⟩ := h
  exact ⟨p, hp, hvisible, fun hc ↦ hown (hiff.mp hc), fun hc ↦ hforeign fun hc' ↦ hc (hiff.mpr hc')⟩

theorem Passed.ready {copies : Prop} (h : Passed others vpns s s₁) (hv : v ∉ vpns)
    (hready : Ready others v s copies) : Ready others v s₁ copies := by
  obtain ⟨p, hp, hvisible, hown, hforeign⟩ := hready
  refine ⟨p, (h.holds v hv p).mpr hp, (h.entry v hv).symm ▸ hvisible, fun hc ↦ ?_, fun hc ↦ ?_⟩
  · obtain ⟨hown, hzero⟩ := hown hc
    exact ⟨h.own v hv p hown, hzero⟩
  · exact h.foreign v hv p hp (hforeign hc)

theorem Passed.skip (h : Passed others vpns s s₁) (hv : v ∉ vpns)
    (hready : ∀ a ∈ s.ms.areas, a.vpnRange.contain v = true →
      Ready others v s (CopiesPrivately s others a v)) : Passed others (v :: vpns) s s₁ where
  __ := h
  own w hw := h.own w fun hmem ↦ hw (mem_cons_of_mem v hmem)
  foreign w hw := h.foreign w fun hmem ↦ hw (mem_cons_of_mem v hmem)
  holds w hw := h.holds w fun hmem ↦ hw (mem_cons_of_mem v hmem)
  entry w hw := h.entry w fun hmem ↦ hw (mem_cons_of_mem v hmem)
  page u hu a ha hcontain := by
    rcases mem_cons.mp hu with rfl | hu
    · exact h.ready hv (hready a ha hcontain)
    · exact h.page u hu a ha hcontain

theorem Passed.cons (hfault : FaultedPage others a v s s') (h : Passed others vpns s' s₁)
    (hsound : s.ms.Sound s.k) (hsound' : s'.ms.Sound s'.k) (ha : a ∈ s.ms.areas) (hv : v ∉ vpns)
    (hcontain : a.vpnRange.contain v = true) (hpages : ∀ w ∈ vpns, PrivateAt s w)
    (hready : Ready others v s' (CopiesPrivately s others a v)) :
    Passed others (v :: vpns) s s₁ where
  sound := h.sound
  kernel := h.kernel
  mem q hq := by
    rw [h.mem q (hfault.obtains.not_supply hq)]
    obtain ⟨-, n, hev⟩ := hfault.obtains
    exact hev.mem_eq hq
  own w hw p hown := by
    rw [mem_cons, not_or] at hw
    exact h.own w hw.2 p (hfault.own hsound hsound' ha hw.1 hown)
  foreign w hw p hp hforeign := by
    rw [mem_cons, not_or] at hw
    exact h.foreign w hw.2 p ((hfault.holds hw.1 p).mpr hp) (hfault.foreign hp hforeign)
  holds w hw p := by
    rw [mem_cons, not_or] at hw
    exact (h.holds w hw.2 p).trans (hfault.holds hw.1 p)
  entry w hw := by
    rw [mem_cons, not_or] at hw
    exact (h.entry w hw.2).trans (hfault.entry w hw.1)
  back w p hp hloose hsupply := by
    obtain ⟨hp', hloose'⟩ := h.back w p hp hloose (hfault.obtains.not_supply hsupply)
    exact hfault.back hsound hsound' ha hp' hloose' hsupply
  page u hu b hb hbu := by
    rcases mem_cons.mp hu with rfl | hu
    · obtain rfl : a = b := (geometry_iff.mp hsound.geometry).2.eq_of_mem ha hb
        (contain_eq_true.mp hcontain) (contain_eq_true.mp hbu)
      exact h.ready hv hready
    · have hne : u ≠ v := fun heq ↦ hv (heq ▸ hu)
      obtain ⟨d, hd, -⟩ := hfault.forward b hb
      exact (h.page u hu _ hd hbu).mono (hfault.copiesPrivately hsound hne (hpages u hu) d).symm

theorem passed_ensureUserPageAccess (hnodup : vpns.Nodup) (hsound : s.ms.Sound s.k)
    (hk : s.k.WellFormed) (hothers : ∀ p, others p ≠ 0 → ∀ n, p ≠ s.k.phys.supply n)
    (hpages : ∀ v ∈ vpns, InPrivate s v)
    (hok : ensureUserPageAccess others io { write := true } vpns s = .ok () s₁) :
    Passed others vpns s s₁ := by
  induction vpns generalizing s with
  | nil =>
    obtain rfl : s = s₁ := (Outcome.ok.inj hok).2
    exact ⟨hsound, hk, fun _ _ ↦ rfl, fun _ _ _ h ↦ h, fun _ _ _ _ h ↦ h, fun _ _ _ ↦ .rfl,
      fun _ _ ↦ rfl, fun _ _ hp hloose _ ↦ ⟨hp, hloose⟩, by simp⟩
  | cons v vpns ih =>
    obtain ⟨hv, hnodup⟩ := nodup_cons.mp hnodup
    have hhead := hpages v mem_cons_self
    have htail : ∀ w ∈ vpns, InPrivate s w := fun w hw ↦ hpages w (mem_cons_of_mem v hw)
    rw [ensureUserPageAccess] at hok
    split_ifs at hok with hneeds
    · cases hfault : handlePageFault s others io (accessCause { write := true }) (usizeOfVpn v)
        none with
      | panic | err e s' => simp [hfault, Outcome.andThen] at hok
      | ok out s' =>
        rw [hfault] at hok
        have hrest : ensureUserPageAccess others io { write := true } vpns s' = .ok () s₁ := hok
        obtain ⟨a, ha, hcontain, hshared, hwrite⟩ := hhead.area
        have hpage : FaultedPage others a v s s' := faulted_handlePageFault hsound hk ha hcontain
          hshared hwrite hhead.bound hneeds hfault
        have hsound' := sound_handlePageFault hsound hk hfault
        have hpassed : Passed others vpns s' s₁ := by
          refine ih hnodup hsound' hpage.obtains.1
            (fun p hp ↦ hpage.obtains.not_supply (hothers p hp)) (fun w hw ↦ ?_) hrest
          have hne : w ≠ v := fun heq ↦ hv (heq ▸ hw)
          obtain ⟨⟨b, hb, hbw, hbs, hbp⟩, hbound, hstate⟩ := htail w hw
          obtain ⟨d, hd, -⟩ := hpage.forward b hb
          exact ⟨⟨_, hd, hbw, hbs, hbp⟩, hbound, hpage.privateAt hsound hsound' ha hne hstate⟩
        exact hpassed.cons hpage hsound hsound' ha hv hcontain (fun w hw ↦ (htail w hw).state)
          (hpage.ready hsound ha hshared hhead.state hothers)
    · have hpassed := ih hnodup hsound hk hothers htail hok
      exact hpassed.skip hv fun a _ _ ↦
        ready_of_not_needsFault hsound hhead.state (Bool.not_eq_true _ ▸ hneeds)

end Pass

/-! ### The copy loop -/

def byteVpn (start i : Nat) : Nat := floorVpn (virtAddr (start + i))

def byteOffset (start i : Nat) : Nat := pageOffset (virtAddr (start + i))

theorem byte_in_page (h : pageOffset (virtAddr cur) + i < pageSize) :
    byteVpn cur i = floorVpn (virtAddr cur) ∧ byteOffset cur i = pageOffset (virtAddr cur) + i := by
  have hpage : 2 ^ vaWidth = pageSize * 2 ^ 27 := by decide
  have hmod : virtAddr (cur + i) = virtAddr cur + i := by
    unfold virtAddr pageOffset at *
    rw [hpage] at h ⊢
    have hoff : cur % (pageSize * 2 ^ 27) % pageSize = cur % pageSize := mod_mul_right_mod _ _ _
    simp only [pageSize] at *
    omega
  unfold byteVpn byteOffset floorVpn pageOffset at *
  simp only [pageSize] at *
  omega

theorem byte_add (cur n i : Nat) :
    byteVpn (cur + n) i = byteVpn cur (n + i) ∧ byteOffset (cur + n) i = byteOffset cur (n + i) := by
  simp only [byteVpn, byteOffset, add_assoc, and_self]

/-- The bytes of memory after the copy: each holds the datum of some byte of the range that is mapped
there, or what it held before. -/
def CopiedBytes (pt : PageTable) (start : Nat) (data : List UInt8) (mem mem' : Nat → PageBytes) :
    Prop :=
  ∀ p o, (∃ i < data.length, (pt.entry (byteVpn start i)).ppn = p ∧ byteOffset start i = o ∧
      mem' p o = data.getD i 0) ∨
    ((∀ i < data.length, (pt.entry (byteVpn start i)).ppn = p → byteOffset start i ≠ o) ∧
      mem' p o = mem p o)

theorem CopiedBytes.cons {pt : PageTable} {n : Nat} {mem mem' : Nat → PageBytes}
    (hn : n = min (pageSize - pageOffset (virtAddr cur)) data.length)
    (h : CopiedBytes pt (cur + n) (data.drop n) (update mem
      (pt.entry (floorVpn (virtAddr cur))).ppn fun i ↦
        if pageOffset (virtAddr cur) ≤ i ∧ i < pageOffset (virtAddr cur) + n then
          data.getD (i - pageOffset (virtAddr cur)) 0
        else mem (pt.entry (floorVpn (virtAddr cur))).ppn i) mem') :
    CopiedBytes pt cur data mem mem' := by
  set off := pageOffset (virtAddr cur)
  have hofflt : off < pageSize := mod_lt _ (by decide)
  have hfirst : ∀ i, i < n → byteVpn cur i = floorVpn (virtAddr cur) ∧ byteOffset cur i = off + i :=
    fun i hi ↦ byte_in_page (by omega)
  intro p o
  rcases h p o with ⟨i, hi, hp, ho, hmem⟩ | ⟨hnone, hmem⟩
  · rw [length_drop] at hi
    rw [(byte_add cur n i).1] at hp
    rw [(byte_add cur n i).2] at ho
    refine .inl ⟨n + i, by omega, hp, ho, ?_⟩
    rw [hmem, getD_eq_getElem?_getD, getD_eq_getElem?_getD, getElem?_drop]
  · by_cases hin : p = (pt.entry (floorVpn (virtAddr cur))).ppn ∧ off ≤ o ∧ o < off + n
    · obtain ⟨rfl, hlo, hhi⟩ := hin
      obtain ⟨hvpn, hbyte⟩ := hfirst (o - off) (by omega)
      refine .inl ⟨o - off, by omega, by rw [hvpn], by omega, ?_⟩
      rw [hmem, update_self, if_pos ⟨hlo, hhi⟩]
    · refine .inr ⟨fun i hi hp ho ↦ ?_, ?_⟩
      · by_cases hin' : i < n
        · obtain ⟨hvpn, hbyte⟩ := hfirst i hin'
          exact hin ⟨by rw [← hp, hvpn], by omega, by omega⟩
        · have hsplit : n + (i - n) = i := by omega
          refine hnone (i - n) (by rw [length_drop]; omega) ?_ ?_
          · rw [(byte_add cur n _).1, hsplit]
            exact hp
          · rw [(byte_add cur n _).2, hsplit]
            exact ho
      · rw [hmem]
        by_cases hp : p = (pt.entry (floorVpn (virtAddr cur))).ppn
        · subst hp
          rw [update_self, if_neg fun hc ↦ hin ⟨rfl, hc⟩]
        · rw [update_of_ne hp]

theorem copyOutLoop_spec {fuel : Nat} {s : MmState} (hfuel : data.length ≤ fuel)
    (hvisible : ∀ i < data.length, (s.ms.pageTable.entry (byteVpn cur i)).visible = true) :
    ∃ phys, copyOutLoop fuel cur data s = .ok () { s with k := s.k.setPhys phys } ∧
      CopiedBytes s.ms.pageTable cur data s.k.phys.mem phys.mem := by
  induction fuel generalizing cur data s with
  | zero =>
    obtain rfl : data = [] := eq_nil_of_length_eq_zero (by omega)
    exact ⟨s.k.phys, rfl, fun p o ↦ .inr ⟨by simp, rfl⟩⟩
  | succ fuel ih =>
    rw [copyOutLoop]
    split_ifs with hempty
    · subst hempty
      exact ⟨s.k.phys, rfl, fun p o ↦ .inr ⟨by simp, rfl⟩⟩
    have hpos : 0 < data.length := length_pos_iff.mpr hempty
    have hoff : pageOffset (virtAddr cur) < pageSize := mod_lt _ (by decide)
    have hvis : (s.ms.pageTable.entry (floorVpn (virtAddr cur))).visible = true := hvisible 0 hpos
    simp only [translate_eq, if_pos hvis]
    set n := min (pageSize - pageOffset (virtAddr cur)) data.length with hn
    set phys₁ := s.k.phys.store (s.ms.pageTable.entry (floorVpn (virtAddr cur))).ppn fun i ↦
      if pageOffset (virtAddr cur) ≤ i ∧ i < pageOffset (virtAddr cur) + n then
        data.getD (i - pageOffset (virtAddr cur)) 0
      else s.k.phys.mem (s.ms.pageTable.entry (floorVpn (virtAddr cur))).ppn i with hphys₁
    have hvisible₁ : ∀ i < (data.drop n).length,
        (s.ms.pageTable.entry (byteVpn (cur + n) i)).visible = true := by
      intro i hi
      rw [length_drop] at hi
      rw [(byte_add cur n i).1]
      exact hvisible (n + i) (by omega)
    obtain ⟨phys, hrun, hcopied⟩ := ih (s := { s with k := s.k.setPhys phys₁ })
      (by rw [length_drop]; omega) hvisible₁
    exact ⟨phys, hrun, CopiedBytes.cons hn hcopied⟩

/-! ### The whole call -/

/-- The copy is private: the data can be read back, no frame that was used elsewhere before the call has
changed, and the frames used elsewhere after it hold what the fault-in pass left there. -/
structure CopyIsPrivate (others : Nat → Nat) (start : Nat) (data : List UInt8)
    (s s₁ s' : MmState) : Prop where
  readback : ∀ i < data.length, ∃ pte, s'.ms.pageTable.translate (byteVpn start i) = some pte ∧
    s'.k.phys.mem pte.ppn (byteOffset start i) = data.getD i 0
  before : ∀ p, Foreign s.k others p → s'.k.phys.mem p = s.k.phys.mem p
  after : ∀ p, Foreign s'.k others p → s'.k.phys.mem p = s₁.k.phys.mem p

section Copy

variable {others : Nat → Nat} {io : IoEnv} {s s₁ : MmState} {start len : Nat}

theorem mem_checkedUserByteRange {r : VPNRange} (h : checkedUserByteRange start len = .ok r) :
    (∀ i < len, byteVpn start i ∈ r.vpns ∧ start + i < 2 ^ vaWidth) ∧
      ∀ v ∈ r.vpns, v < 2 ^ 26 ∧ ∃ i < len, byteVpn start i = v := by
  revert h
  fun_cases checkedUserByteRange start len with
  | case1 hzero =>
    rintro ⟨⟩
    refine ⟨fun i hi ↦ by omega, fun v hv ↦ ?_⟩
    rw [mem_vpns] at hv
    simp only at hv
    omega
  | case5 hzero stop hstop bound hbound rounded hbad =>
    rintro ⟨⟩
    obtain ⟨-, rfl⟩ := checkedAdd_eq_some.mp hstop
    obtain ⟨-, rfl⟩ := checkedAdd_eq_some.mp hbound
    simp only [not_or, not_le, not_lt] at hbad
    obtain ⟨-, hlo, hhi⟩ := hbad
    have hva : 2 ^ vaWidth = 549755813888 := by decide
    simp only [rounded, trampoline, pageSize] at hlo hhi ⊢
    have hvirt : ∀ x, x ≤ 0x3fffffe000 → virtAddr x = x := fun x hx ↦
      virtAddr_of_lt (by rw [hva]; omega)
    refine ⟨fun i hi ↦ ⟨?_, by rw [hva]; omega⟩, fun v hv ↦ ?_⟩
    · rw [mem_vpns]
      simp only [byteVpn, floorVpn, pageSize]
      rw [hvirt start (by omega), hvirt (start + i) (by omega), hvirt _ hhi]
      omega
    · rw [mem_vpns] at hv
      simp only [floorVpn, pageSize] at hv
      rw [hvirt start (by omega), hvirt _ hhi] at hv
      refine ⟨by omega, max (v * 4096) start - start, by omega, ?_⟩
      simp only [byteVpn, floorVpn, pageSize]
      rw [hvirt _ (by omega)]
      omega
  | _ => exact nofun

theorem byte_injective {j : Nat} (hi : start + i < 2 ^ vaWidth) (hj : start + j < 2 ^ vaWidth)
    (hvpn : byteVpn start i = byteVpn start j) (hoff : byteOffset start i = byteOffset start j) :
    i = j := by
  simp only [byteVpn, byteOffset, virtAddr_of_lt hi, virtAddr_of_lt hj, floorVpn, pageOffset,
    pageSize] at hvpn hoff
  omega

section Supply

variable (hk : s.k.WellFormed) (hothers : ∀ p, others p ≠ 0 → ∀ n, p ≠ s.k.phys.supply n)

include hk hothers

theorem not_supply_of_foreign {p : Nat} (h : Foreign s.k others p) (n : Nat) :
    p ≠ s.k.phys.supply n := by
  rcases h with hcached | ⟨key, hkey⟩ | hne
  · rintro rfl
    exact hk.caches.supply_not_cached n hcached
  · rintro rfl
    exact hk.supply_not_shared n key hkey
  · exact hothers p hne n

theorem passed_prepareCopyOut (hsound : s.ms.Sound s.k)
    (hrange : ∀ i < len, ∃ a ∈ s.ms.areas, a.vpnRange.contain (byteVpn start i) = true ∧
      a.shared = false ∧ a.mapPerm.write = true) (hstate : ∀ i < len, PrivateAt s (byteVpn start i))
    (hprepare : prepareCopyOut s others io start len = .ok () s₁) :
    ∃ vpns, Passed others vpns s s₁ ∧
      ∀ i < len, byteVpn start i ∈ vpns ∧ start + i < 2 ^ vaWidth := by
  unfold prepareCopyOut at hprepare
  split at hprepare
  · simp at hprepare
  rename_i r hr
  split at hprepare
  · simp at hprepare
  obtain ⟨hmem, hpages⟩ := mem_checkedUserByteRange hr
  refine ⟨r.vpns, passed_ensureUserPageAccess (nodup_vpns r) hsound hk hothers
    (fun v hv ↦ ?_) hprepare, hmem⟩
  obtain ⟨hbound, i, hi, rfl⟩ := hpages v hv
  exact ⟨hrange i hi, hbound, hstate i hi⟩

theorem copyIsPrivate_of_own {phys : Phys} (hpassed : Passed others vpns s s₁)
    (hbound : ∀ i < data.length, start + i < 2 ^ vaWidth)
    (hown : ∀ i < data.length, ∃ p, s₁.ms.Holds (byteVpn start i) p ∧
      (s₁.ms.pageTable.entry (byteVpn start i)).visible = true ∧
      Own s₁ (byteVpn start i) p ∧ others p = 0)
    (hcopied : CopiedBytes s₁.ms.pageTable start data s₁.k.phys.mem phys.mem) :
    CopyIsPrivate others start data s s₁ { s₁ with k := s₁.k.setPhys phys } where
  readback i hi := by
    obtain ⟨p, hholds, hvisible, hp, -⟩ := hown i hi
    refine ⟨_, by rw [translate_eq, if_pos hvisible], ?_⟩
    rcases hcopied (s₁.ms.pageTable.entry (byteVpn start i)).ppn (byteOffset start i) with
      ⟨j, hj, hppn, hoff, hmem⟩ | ⟨hnone, -⟩
    · obtain ⟨q, hqholds, -⟩ := hown j hj
      have hq : q = p := by
        rw [← hqholds.ppn hpassed.sound, hppn, hholds.ppn hpassed.sound]
      have hvpn : byteVpn start j = byteVpn start i := hp.alone _ (hq ▸ hqholds)
      obtain rfl : j = i := byte_injective (hbound j hj) (hbound i hi) hvpn hoff
      exact hmem
    · exact absurd rfl (hnone i hi rfl)
  before p hp := by
    have hsupply := not_supply_of_foreign hk hothers hp
    rw [← hpassed.mem p hsupply]
    funext o
    rcases hcopied p o with ⟨i, hi, hppn, -, -⟩ | ⟨-, hmem⟩
    · obtain ⟨q, hholds, -, hq, hzero⟩ := hown i hi
      obtain rfl : q = p := (hholds.ppn hpassed.sound).symm.trans hppn
      obtain ⟨-, hloose⟩ := hpassed.back _ q hholds hq.loose hsupply
      exact absurd hp (not_foreign_of_loose hloose hzero)
    · exact hmem
  after p hp := by
    have hp₁ : Foreign s₁.k others p := hp
    funext o
    rcases hcopied p o with ⟨i, hi, hppn, -, -⟩ | ⟨-, hmem⟩
    · obtain ⟨q, hholds, -, hq, hzero⟩ := hown i hi
      obtain rfl : q = p := (hholds.ppn hpassed.sound).symm.trans hppn
      exact absurd hp₁ (not_foreign_of_loose hq.loose hzero)
    · exact hmem

end Supply

theorem not_copyIsPrivate_of_foreign {p : Nat} (hi : i < len)
    (hppn : (s₁.ms.pageTable.entry (byteVpn start i)).ppn = p) (hp : Foreign s₁.k others p) :
    ∃ c : UInt8, ∀ phys, CopiedBytes s₁.ms.pageTable start (replicate len c) s₁.k.phys.mem
      phys.mem → ¬ CopyIsPrivate others start (replicate len c) s s₁
        { s₁ with k := s₁.k.setPhys phys } := by
  -- Any datum that differs from the byte that the frame holds will do.
  refine ⟨s₁.k.phys.mem p (byteOffset start i) + 1, fun phys hcopied hcopy ↦ ?_⟩
  have hkept := congrFun (hcopy.after p hp) (byteOffset start i)
  rcases hcopied p (byteOffset start i) with ⟨j, hj, -, -, hmem⟩ | ⟨hnone, -⟩
  · rw [length_replicate] at hj
    rw [getD_eq_getElem?_getD, getElem?_replicate, if_pos hj, Option.getD_some] at hmem
    have hsame := hmem.symm.trans hkept
    simp at hsame
  · exact hnone i (by rwa [length_replicate]) hppn rfl

/-- A copy to private writable user memory is private exactly where every page of the range copies
privately: an absent page is not filled from a file, and a page that is ready for a store has a frame
that is not used elsewhere. -/
theorem copyOut_iff (hsound : s.ms.Sound s.k) (hk : s.k.WellFormed)
    (hothers : ∀ p, others p ≠ 0 → ∀ n, p ≠ s.k.phys.supply n)
    (hrange : ∀ i < len, ∃ a ∈ s.ms.areas, a.vpnRange.contain (byteVpn start i) = true ∧
      a.shared = false ∧ a.mapPerm.write = true) (hstate : ∀ i < len, PrivateAt s (byteVpn start i))
    (hprepare : prepareCopyOut s others io start len = .ok () s₁) :
    (∀ data s', data.length = len → copyKernelBytesToUser s others io start data = .ok () s' →
      CopyIsPrivate others start data s s₁ s') ↔
    ∀ i < len, ∀ a ∈ s.ms.areas, a.vpnRange.contain (byteVpn start i) = true →
      CopiesPrivately s others a (byteVpn start i) := by
  obtain ⟨vpns, hpassed, hmem⟩ := passed_prepareCopyOut hk hothers hsound hrange hstate hprepare
  have hvisible : ∀ i < len, (s₁.ms.pageTable.entry (byteVpn start i)).visible = true := by
    intro i hi
    obtain ⟨a, ha, hcontain, -, -⟩ := hrange i hi
    obtain ⟨p, -, hvisible, -, -⟩ := hpassed.page _ (hmem i hi).1 a ha hcontain
    exact hvisible
  have hcopy : ∀ data : List UInt8, data.length = len →
      ∃ phys, copyKernelBytesToUser s others io start data =
          .ok () { s₁ with k := s₁.k.setPhys phys } ∧
        CopiedBytes s₁.ms.pageTable start data s₁.k.phys.mem phys.mem := by
    rintro data rfl
    obtain ⟨phys, hrun, hcopied⟩ := copyOutLoop_spec (le_refl data.length) hvisible
    refine ⟨phys, ?_, hcopied⟩
    rw [copyKernelBytesToUser, hprepare]
    exact hrun
  constructor
  · intro hall i hi a ha hcontain
    by_contra hnot
    obtain ⟨p, hholds, -, -, hforeign⟩ := hpassed.page _ (hmem i hi).1 a ha hcontain
    obtain ⟨c, hbad⟩ := not_copyIsPrivate_of_foreign hi (hholds.ppn hpassed.sound)
      (hforeign hnot)
    obtain ⟨phys, hrun, hcopied⟩ := hcopy (replicate len c) length_replicate
    exact hbad phys hcopied (hall _ _ length_replicate hrun)
  · rintro hall data s' rfl hrun'
    obtain ⟨phys, hrun, hcopied⟩ := hcopy data rfl
    obtain ⟨-, rfl⟩ := Outcome.ok.inj (hrun.symm.trans hrun')
    refine copyIsPrivate_of_own hk hothers hpassed (fun i hi ↦ (hmem i hi).2) (fun i hi ↦ ?_) hcopied
    obtain ⟨a, ha, hcontain, -, -⟩ := hrange i hi
    obtain ⟨p, hholds, hvisible, hown, -⟩ := hpassed.page _ (hmem i hi).1 a ha hcontain
    exact ⟨p, hholds, hvisible, hown (hall i hi a ha hcontain)⟩

end Copy

end MemorySet

/-! ### Runs -/

namespace Machine

variable {m m' : Machine} {l : Label} {i v : Nat}

/-- The invariant behind `PrivateAt`: the frame of a private anonymous page belongs to no file, all
records of a frame that backs no file are at the same page number, and a page with a writable entry is
recorded. -/
structure Paged (m : Machine) : Prop where
  anonymous : ∀ i a v p, m.Records i a v p → a.shared = false → a.fileBacking = none →
    m.k.Loose p ∧ ∀ j b w, m.Records j b w p → w = v
  numbered : ∀ i a v p, m.Records i a v p →
    (∃ f idx, m.k.Backs f idx p) ∨ ∀ j b w, m.Records j b w p → w = v
  recorded : ∀ i v, (m.pte i v).storable = true → ∃ a p, m.Records i a v p

theorem paged_of_advance (h : m.Advance l m') (hinv : m.Inv) (hon : l.action.InPlace)
    (hpaged : m.Paged) : m'.Paged where
  anonymous _ _ _ _ := anonymous_of_advance h hinv hon hpaged.anonymous
  recorded _ _ := recorded_of_advance h hon hpaged.recorded
  numbered i a v p hrec := by
    by_cases hbacks : ∃ f idx, m'.k.Backs f idx p
    · exact .inl hbacks
    refine .inr fun j b w hrec' ↦ ?_
    rcases frame_of_inPlace h hinv hon hrec with
      ⟨i₀, a₀, hold, -, -⟩ | ⟨hloose, hsupply⟩ | ⟨hfile, -⟩
    · rcases frame_of_inPlace h hinv hon hrec' with
        ⟨j₀, b₀, hold', -, -⟩ | ⟨-, n, hn⟩ | ⟨hfile, -⟩
      · rcases hpaged.numbered i₀ a₀ v p hold with ⟨f, idx, hback⟩ | hsame
        · exact absurd ⟨f, idx, h.backs hold hback⟩ hbacks
        · exact hsame j₀ b₀ w hold'
      · exact absurd hn (hinv.not_supply hold n)
      · exact absurd hfile hbacks
    · exact ((exclusive_of_fresh h hinv hloose hsupply hrec).2 j b w hrec').2
    · exact absurd hfile hbacks

theorem Paged.settle (h : m.Paged) (hinv : (m.settle l).Inv) : (m.settle l).Paged where
  anonymous i a v p hrec hshared hanon := by
    obtain ⟨hloose, hpages⟩ := h.anonymous i a v p hrec hshared hanon
    exact ⟨loose_settle hinv hrec hloose, hpages⟩
  numbered i a v p hrec := by
    rcases h.numbered i a v p hrec with ⟨f, idx, hback⟩ | hsame
    · have hrec₀ : m.Records i a v p := hrec
      exact .inl ⟨f, idx, backs_settle hrec₀ hback⟩
    · exact .inr hsame
  recorded := h.recorded

theorem paged_of_run (hrun : Run Init (fun _ l ↦ l.action.InPlace) Step m) : m.Paged :=
  invariant_of_advance
    (fun _ hm ↦ { hm.isolated with numbered := fun _ _ _ _ hrec ↦ absurd hrec hm.not_records })
    (fun _ _ _ hinv hm ↦ hm.settle hinv)
    (fun _ _ _ hinv hon hm hadv ↦ paged_of_advance hadv hinv hon hm) hrun

/-- In every run without `mremap` and segments, every page of every address space is in a state from which
the copy is decided by `copyOut_iff`. -/
theorem privateAt_of_run {ms : MemorySet}
    (hrun : Run Init (fun _ l ↦ l.action.InPlace) Step m) (hms : m.spaces[i]? = some ms) :
    MemorySet.PrivateAt ⟨ms, m.k⟩ v := by
  have hpaged := paged_of_run hrun
  have hrecords : ∀ {w p : Nat}, ms.Holds w p → ∃ a, m.Records i a w p :=
    fun ⟨a, ha, hp⟩ ↦ ⟨a, ms, hms, ha, hp⟩
  refine ⟨fun hst ↦ ?_, fun a ha hshared hanon p hp ↦ ?_, fun hst p hp hloose ↦ ⟨hp, hloose, ?_⟩⟩
  · obtain ⟨a, p, ms', hms', ha, hp⟩ := hpaged.recorded i v (by rw [pte_eq hms]; exact hst)
    obtain rfl := Option.some.inj (hms.symm.trans hms')
    exact ⟨p, a, ha, hp⟩
  · obtain ⟨hloose, hsame⟩ := hpaged.anonymous i a v p ⟨ms, hms, ha, hp⟩ hshared hanon
    refine ⟨⟨a, ha, hp⟩, hloose, fun w hw ↦ ?_⟩
    obtain ⟨b, hrec⟩ := hrecords hw
    exact hsame i b w hrec
  · obtain ⟨a, hrec⟩ := hrecords hp
    intro w hw
    obtain ⟨b, hrec'⟩ := hrecords hw
    rcases hpaged.numbered i a v p hrec with ⟨f, idx, hback⟩ | hsame
    · exact absurd hloose hback.not_loose
    · exact hsame i b w hrec'

/-- The file is mapped privately twice and read through the first mapping. A copy to the second
mapping, whose page is absent, changes the byte in the page cache. -/
theorem copyOut_changes_file :
    ∃ m, Run Init (fun _ l ↦ l.action.InPlace) Step m ∧ ∃ ms s', m.spaces[0]? = some ms ∧
      (∃ a ∈ ms.areas, a.shared = false ∧ a.mapPerm.write = true ∧
        a.vpnRange.contain 0x2000001 = true) ∧
      MemorySet.copyKernelBytesToUser ⟨ms, m.k⟩ (m.others 0) {} 0x2000001000 [7] = .ok () s' ∧
      m.k.caches.Cached 2 ∧ m.k.phys.mem 2 0 = 0 ∧ s'.k.phys.mem 2 0 = 7 := by
  have hplain : ∀ l ∈ [mapFile, { sid := 0, action := .op (.fault .load 0x2000000000 none) }, mapFile],
      Plain l := by
    simp [mapFile, Plain]
  obtain ⟨m, hrun, ⟨ms, hms, harea, hok, s', hs', hbyte⟩, ⟨page, hpage, hframe⟩, hzero⟩ :
      ∃ m, Run Init (fun _ l ↦ l.action.InPlace) Step m ∧
        (∃ ms, m.spaces[0]? = some ms ∧
          (∃ a ∈ ms.areas, a.shared = false ∧ a.mapPerm.write = true ∧
            a.vpnRange.contain 0x2000001 = true) ∧
          (copyKernelBytesToUser ⟨ms, m.k⟩ (m.others 0) {} 0x2000001000 [7]).isOk = true ∧
          ∃ s', (copyKernelBytesToUser ⟨ms, m.k⟩ (m.others 0) {} 0x2000001000 [7]).state? =
            some s' ∧ s'.k.phys.mem 2 0 = 7) ∧
        (∃ page, (m.k.caches.cache 0).pages[0]? = some page ∧ page.frame = 2) ∧
        m.k.phys.mem 2 0 = 0 := by
    refine exists_of_runLabels init_fileSpace hplain ?_ ?_
    · simp [mapFile, Action.InPlace]
    · decide +kernel
  obtain ⟨⟨⟩, s₁, hs₁⟩ := Outcome.eq_ok_of_isOk hok
  rw [hs₁] at hs'
  obtain rfl : s₁ = s' := Option.some.inj hs'
  exact ⟨m, hrun, ms, s₁, hms, harea, hs₁, ⟨0, 0, page, hpage, hframe⟩, hzero, hbyte⟩

/-- The copy of two bytes to an absent page of private anonymous memory is private. -/
theorem copyOut_after_mmap :
    ∃ m, Run Init (fun _ l ↦ l.action.InPlace) Step m ∧ ∃ ms s₁, m.spaces[0]? = some ms ∧
      MemorySet.prepareCopyOut ⟨ms, m.k⟩ (fun _ ↦ 0) {} 0x2000000100 2 = .ok () s₁ ∧
      ∀ data s', data.length = 2 →
        MemorySet.copyKernelBytesToUser ⟨ms, m.k⟩ (fun _ ↦ 0) {} 0x2000000100 data = .ok () s' →
          MemorySet.CopyIsPrivate (fun _ ↦ 0) 0x2000000100 data ⟨ms, m.k⟩ s₁ s' := by
  have hplain : ∀ l ∈ writtenPage.take 1, Plain l := by simp [writtenPage, Plain]
  obtain ⟨m, hrun, ms, hms, harea, hfile, hst, hok⟩ :
      ∃ m, Run Init (fun _ l ↦ l.action.InPlace) Step m ∧ ∃ ms, m.spaces[0]? = some ms ∧
        (∃ a ∈ ms.areas, a.vpnRange.contain 0x2000000 = true ∧ a.shared = false ∧
          a.mapPerm.write = true) ∧
        (∀ a ∈ ms.areas, a.usesFile ((0x2000000 - a.start) * pageSize) = false) ∧
        (ms.pageTable.entry 0x2000000).storable = false ∧
        (prepareCopyOut ⟨ms, m.k⟩ (fun _ ↦ 0) {} 0x2000000100 2).isOk = true := by
    refine exists_of_runLabels init_oneSpace hplain ?_ ?_
    · simp [writtenPage, Action.InPlace]
    · decide +kernel
  obtain ⟨⟨⟩, s₁, hs₁⟩ := Outcome.eq_ok_of_isOk hok
  have hinv := inv_of_reachable hrun
  have hbyte : ∀ i < 2, byteVpn 0x2000000100 i = 0x2000000 := by decide
  refine ⟨m, hrun, ms, s₁, hms, hs₁, (copyOut_iff
    (hinv.sound ms (mem_of_getElem? hms)) hinv.kernel (by simp) (fun i hi ↦ ?_)
    (fun i _ ↦ privateAt_of_run hrun hms) hs₁).mpr fun i hi a ha _ ↦ ?_⟩
  · rw [hbyte i hi]
    exact harea
  · rw [hbyte i hi]
    exact ⟨fun _ ↦ hfile a ha, fun hstorable ↦ absurd hstorable (by simp [hst])⟩

end Machine

end RespOS.Mm
