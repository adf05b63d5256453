import RespOS.Fs.FrameSource
import RespOS.Mm.Mmap

/-!
# What the methods of an area do

One lemma for each method of `MapArea` that touches the page table: the frames it records, the
entries it writes, and where the frames come from. The later proofs use these and not the
definitions. `entry` is the view of the page table throughout.

The frame of a newly installed page either backs the page of the file (`usesFile`), or is a frame that
nobody else owns.
-/

namespace RespOS.Mm

open RespOS.Fs PageTable List MemorySet Kernel Except Std.ExtTreeMap

/-! ### Removing entries -/

variable {v : Nat} {frames : Std.ExtTreeMap Nat Nat} {r : Except Errno Unit} {flags : PTEFlags}
  {pages : List (Nat × Nat)}

theorem PageTable.entry_foldl_tryUnmap_of_notMem {vpns : List Nat} (hv : v ∉ vpns) (pt : PageTable) :
    (vpns.foldl tryUnmap pt).entry v = pt.entry v := by
  induction vpns generalizing pt with
  | nil => rfl
  | cons w vpns ih =>
    rw [foldl_cons, ih (fun h ↦ hv (mem_cons_of_mem w h))]
    exact entry_tryUnmap_of_ne fun h ↦ hv (h ▸ mem_cons_self)

theorem PageTable.isValid_entry_foldl_tryUnmap {vpns : List Nat} (hv : v ∈ vpns) (pt : PageTable) :
    ((vpns.foldl tryUnmap pt).entry v).isValid = false := by
  induction vpns generalizing pt with
  | nil => simp at hv
  | cons w vpns ih =>
    rw [foldl_cons]
    by_cases hmem : v ∈ vpns
    · exact ih hmem _
    · obtain rfl : v = w := (mem_cons.mp hv).resolve_right hmem
      rw [entry_foldl_tryUnmap_of_notMem hmem]
      exact isValid_entry_tryUnmap_self

namespace MapArea

variable {a a' : MapArea} {s s' : PtState} {pt pt' : PageTable} {io : IoEnv} {ext : Nat → Nat}
  {vpn : Nat} {vpns : List Nat}

/-- The area with another record of resident pages. -/
def withFrames (a : MapArea) (frames : Std.ExtTreeMap Nat Nat) : MapArea :=
  { a with dataFrames := frames }

section

variable (a : MapArea) (frames : Std.ExtTreeMap Nat Nat)

@[simp] theorem dataFrames_withFrames : (a.withFrames frames).dataFrames = frames := rfl

@[simp] theorem vpnRange_withFrames : (a.withFrames frames).vpnRange = a.vpnRange := rfl

@[simp] theorem shared_withFrames : (a.withFrames frames).shared = a.shared := rfl

end

theorem getElem?_foldl_erase (frames : Std.ExtTreeMap Nat Nat) (vpns : List Nat) (v : Nat) :
    (vpns.foldl (fun d w ↦ d.erase w) frames)[v]? = if v ∈ vpns then none else frames[v]? := by
  induction vpns generalizing frames with
  | nil => simp
  | cons w vpns ih =>
    rw [foldl_cons, ih]
    by_cases hmem : v ∈ vpns
    · simp [hmem]
    by_cases hvw : v = w
    · subst hvw
      simp
    · simp [hmem, hvw, getElem?_erase, Ne.symm hvw]

/-- The record that is left after `unmap_one` on several pages. -/
def framesAfterUnmap (a : MapArea) (vpns : List Nat) : Std.ExtTreeMap Nat Nat :=
  match a.mapType with
  | .framed => vpns.foldl (fun d w ↦ d.erase w) a.dataFrames
  | .direct => a.dataFrames

theorem getElem?_framesAfterUnmap (a : MapArea) (vpns : List Nat) (v : Nat) :
    (a.framesAfterUnmap vpns)[v]? =
      if a.mapType = .framed ∧ v ∈ vpns then none else a.dataFrames[v]? := by
  unfold framesAfterUnmap
  cases a.mapType with
  | direct => simp
  | framed => simp [getElem?_foldl_erase]

theorem unmapEach_eq (a : MapArea) (pt : PageTable) (vpns : List Nat) :
    a.unmapEach pt vpns = (a.withFrames (a.framesAfterUnmap vpns), vpns.foldl tryUnmap pt) := by
  unfold unmapEach
  induction vpns generalizing a pt with
  | nil => cases a with | mk _ _ mapType => cases mapType <;> rfl
  | cons w vpns ih =>
    rw [foldl_cons, ih]
    cases a with | mk _ _ mapType => cases mapType <;> rfl

theorem mem_keys_iff : v ∈ frames.keys ↔ ∃ p, frames[v]? = some p := by
  rw [Std.ExtTreeMap.mem_keys, ← isSome_getElem?_iff_mem, Option.isSome_iff_exists]

theorem entry_unmapPtesOnly_of_none (hv : a.dataFrames[v]? = none) :
    (a.unmapPtesOnly pt).entry v = pt.entry v := by
  refine entry_foldl_tryUnmap_of_notMem (fun hmem ↦ ?_) pt
  obtain ⟨p, hp⟩ := mem_keys_iff.mp hmem
  simp [hp] at hv

theorem isValid_entry_unmapPtesOnly {p : Nat} (hv : a.dataFrames[v]? = some p) :
    ((a.unmapPtesOnly pt).entry v).isValid = false :=
  isValid_entry_foldl_tryUnmap (mem_keys_iff.mpr ⟨p, hv⟩) pt

theorem snd_unmap (hframed : a.mapType = .framed) : (a.unmap pt).2 = a.unmapPtesOnly pt := by
  simp only [unmap, hframed, unmapEach_eq, unmapPtesOnly]

/-! ### Installing a page -/

/-- The page at this offset shows a frame of the file; otherwise it gets a frame of its own. -/
def usesFile (a : MapArea) (pageOffset : Nat) : Bool :=
  match a.fileBacking with
  | none => false
  | some b => !(!b.liveEof && b.len ≤ pageOffset) && !a.fixedPartialFilePage pageOffset

def pageFlags (a : MapArea) (cow : Bool) : PTEFlags := { (a.installFlags cow).mapped with cow := cow }

theorem pageFlags_false (a : MapArea) : a.pageFlags false = (a.installFlags false).mapped := by
  unfold pageFlags installFlags
  split_ifs <;> rfl

/-- The window that `map_one` works with is the one of the area but for its length, and there is none
exactly for pages without file contents. -/
theorem liveBacking_spec {k : Kernel} {pageOffset : Nat} {live : Option FileBacking}
    (h : a.liveBacking k io pageOffset = .ok live) :
    (live.isSome && !a.fixedPartialFilePage pageOffset) = a.usesFile pageOffset ∧
      ∀ b', live = some b' → ∃ b, a.fileBacking = some b ∧ b'.file = b.file ∧
        b'.offset = b.offset := by
  revert h
  unfold usesFile
  fun_cases a.liveBacking k io pageOffset with rintro ⟨⟩
  | case1 hb =>
    simp [hb]
  | case2 b hb hzero =>
    simp [hb, hzero]
  | case6 b hb hzero =>
    rw [hb]
    refine ⟨?_, ?_⟩
    · simp [hzero]
    · rintro b' ⟨⟩
      exact ⟨b, rfl, rfl, rfl⟩

/-- Where the frame of a page comes from: it backs the page of the file, or it has just been taken
from the allocator of `k` and belongs to nobody else in `k'`. -/
structure FrameFor (a : MapArea) (k k' : Kernel) (pageOffset p : Nat) : Prop where
  file : a.usesFile pageOffset = true → ∃ b, a.fileBacking = some b ∧
    b.offset + pageOffset < usizeSize ∧ k'.Backs b.file ((b.offset + pageOffset) / pageSize) p
  own : a.usesFile pageOffset = false → k'.Loose p ∧ ∃ j, p = k.phys.supply j

theorem chooseFrame_spec {k k' : Kernel} {pageOffset : Nat} {live : Option FileBacking}
    {r : Except Errno (Nat × Bool)} (hk : k.WellFormed)
    (hlive : a.liveBacking k io pageOffset = .ok live)
    (h : a.chooseFrame k io ext pageOffset live = (r, k')) :
    k.Obtains ext k' ∧ ∀ p fill, r = .ok (p, fill) → a.FrameFor k k' pageOffset p := by
  obtain ⟨huses, hwindow⟩ := liveBacking_spec hlive
  revert h
  fun_cases chooseFrame a k io ext pageOffset live with try rintro ⟨⟩
  | case1 b' hwhole =>
    intro h
    obtain ⟨b, hb, hfile, hoffset⟩ := hwindow b' rfl
    have huse : a.usesFile pageOffset = true := by simpa [hwhole] using huses.symm
    obtain ⟨hobt, hback⟩ := sharedFileFrame_spec hk h
    refine ⟨hobt, fun p fill hr ↦ ⟨fun _ ↦ ⟨b, hb, ?_⟩, fun hfalse ↦ ?_⟩⟩
    · rw [← hfile, ← hoffset]
      exact hback p fill hr
    · simp [huse] at hfalse
  | case2 b' hcut phys halloc | case6 phys halloc =>
    exact ⟨obtains_setPhys hk ⟨0, Phys.frameAlloc_none halloc⟩, by simp⟩
  | case3 b' hcut p phys halloc k₁ hoff =>
    intro h
    obtain ⟨rfl, rfl⟩ := Prod.mk.inj h
    obtain ⟨-, hwf, hev, -⟩ := obtains_frameAlloc_some ext hk halloc
    exact ⟨⟨hwf, 1, hev⟩, by simp⟩
  | case4 b' hcut p phys halloc k₁ fileOffset hoff readLen e k₂ hread =>
    obtain ⟨-, hwf, hev, -⟩ := obtains_frameAlloc_some ext hk halloc
    obtain ⟨⟨hwf₂, m, hev₂⟩, -⟩ := readFileAt_spec hwf hread
    exact ⟨⟨hwf₂, _, hev.trans hev₂⟩, by simp⟩
  | case5 b' hcut p phys halloc k₁ fileOffset hoff readLen bytes k₂ hread =>
    have hnot : a.usesFile pageOffset = false := by simp_all
    obtain ⟨rfl, hwf, hev, hloose⟩ := obtains_frameAlloc_some ext hk halloc
    obtain ⟨⟨hwf₂, m, hev₂⟩, -⟩ := readFileAt_spec hwf hread
    refine ⟨⟨hwf₂.store _ _, _, (hev.trans hev₂).store (by omega) _⟩,
      fun q fill hq ↦ ⟨fun htrue ↦ ?_, fun _ ↦ ?_⟩⟩
    · simp [hnot] at htrue
    · cases hq
      have hloose₂ := hev₂.loose hloose
      exact ⟨{ hloose₂ with }, 0, rfl⟩
  | case7 p phys halloc =>
    have hnot : a.usesFile pageOffset = false := by simpa using huses.symm
    obtain ⟨hp, hwf, hev, hloose⟩ := obtains_frameAlloc_some ext hk halloc
    refine ⟨⟨hwf, 1, hev⟩, fun q fill hq ↦ ⟨fun htrue ↦ ?_, fun _ ↦ ?_⟩⟩
    · simp [hnot] at htrue
    · cases hq
      exact ⟨hloose, 0, hp⟩

theorem installFrame_spec {ppn : Nat} {cow : Bool} (h : a.installFrame s vpn ppn cow = (r, a', s')) :
    (∃ phys, s.k.phys.Consumes phys ∧ s'.k = s.k.setPhys phys) ∧
      ((r = .ok () ∧ a' = a.withFrames (a.dataFrames.insert vpn ppn) ∧
          (s.pt.entry vpn).isValid = false ∧
          ∀ v, s'.pt.entry v = if v = vpn then ⟨ppn, a.pageFlags cow⟩ else s.pt.entry v) ∨
        ((∃ e, r = .error e) ∧ a' = a.withFrames (a.dataFrames.erase vpn) ∧
          ∀ v, s'.pt.entry v = s.pt.entry v)) := by
  unfold installFrame at h
  rcases hmap : s.pt.map s.k.phys vpn ppn (a.installFlags cow) with ⟨res, pt, phys⟩
  rw [hmap] at h
  obtain ⟨hc, ⟨rfl, hinvalid, hentry⟩ | ⟨⟨e, rfl⟩, hentry⟩⟩ := map_spec hmap
  · obtain ⟨rfl, rfl, rfl⟩ := h
    refine ⟨⟨phys, hc, rfl⟩, .inl ⟨rfl, rfl, hinvalid, fun v ↦ ?_⟩⟩
    have hself := hentry vpn
    rw [if_pos rfl] at hself
    cases cow with
    | false =>
      rw [pageFlags_false]
      exact hentry v
    | true =>
      have hvalid : (pt.entry vpn).isValid = true := by
        rw [hself]
        rfl
      simp only [if_true]
      rw [entry_setPteCow hvalid, hself, hentry]
      split_ifs <;> rfl
  · obtain ⟨rfl, rfl, rfl⟩ := h
    exact ⟨⟨phys, hc, rfl⟩, .inr ⟨⟨e, rfl⟩, rfl, hentry⟩⟩

/-- `map_one`: on success the page had no valid entry and gets one for its frame; on an error no entry
changes, and the record loses at most this page. -/
theorem mapOne_spec (hk : s.k.WellFormed) {r : Except Errno Bool}
    (h : a.mapOne s io ext vpn = (r, a', s')) : s.k.Obtains ext s'.k ∧
      ((∃ fill p, r = .ok fill ∧ a' = a.withFrames (a.dataFrames.insert vpn p) ∧
          (s.pt.entry vpn).isValid = false ∧
          (∀ v, s'.pt.entry v = if v = vpn then
            ⟨p, a.pageFlags (a.usesFile ((vpn - a.vpnRange.start) * pageSize) && !a.shared &&
              a.mapPerm.write)⟩ else s.pt.entry v) ∧
          a.FrameFor s.k s'.k ((vpn - a.vpnRange.start) * pageSize) p) ∨
        ((∃ e, r = .error e) ∧
          (a' = a ∨ a' = a.withFrames (a.dataFrames.erase vpn)) ∧
          ∀ v, s'.pt.entry v = s.pt.entry v)) := by
  revert h
  fun_cases mapOne a s io ext vpn with rintro ⟨⟩
  | case1 pageOffset e hlive =>
    exact ⟨Kernel.Obtains.refl hk, .inr ⟨⟨e, rfl⟩, .inl rfl, fun _ ↦ rfl⟩⟩
  | case2 pageOffset live hlive e k₁ hchoose =>
    exact ⟨(chooseFrame_spec hk hlive hchoose).1, .inr ⟨⟨e, rfl⟩, .inl rfl, fun _ ↦ rfl⟩⟩
  | case3 pageOffset live hlive ppn fill k₁ hchoose e a₁ s₁ hinstall =>
    obtain ⟨hobt, -⟩ := chooseFrame_spec hk hlive hchoose
    obtain ⟨⟨phys, hc, hk'⟩, ⟨hok, -⟩ | ⟨-, rfl, hentry⟩⟩ := installFrame_spec hinstall
    · nomatch hok
    · rw [hk']
      exact ⟨hobt.trans (obtains_setPhys hobt.1 hc), .inr ⟨⟨e, rfl⟩, .inr rfl, hentry⟩⟩
  | case4 pageOffset live hlive ppn fill k₁ hchoose a₁ s₁ hinstall =>
    obtain ⟨hobt, hfor⟩ := chooseFrame_spec hk hlive hchoose
    obtain ⟨⟨phys, hc, hk'⟩, ⟨-, rfl, hinvalid, hentry⟩ | ⟨⟨e, herr⟩, -⟩⟩ := installFrame_spec hinstall
    · have hobt₁ : k₁.Obtains ext s'.k := by
        rw [hk']
        exact obtains_setPhys hobt.1 hc
      have hcow : a.privateFileCow pageOffset live =
          (a.usesFile pageOffset && !a.shared && a.mapPerm.write) := by
        rw [← (liveBacking_spec hlive).1]
        rfl
      rw [hcow] at hentry
      refine ⟨hobt.trans hobt₁, .inl ⟨fill, ppn, rfl, rfl, hinvalid, hentry, ?_, ?_⟩⟩
      · intro huse
        rw [hk']
        exact (hfor ppn fill rfl).file huse
      · intro huse
        obtain ⟨hloose, hj⟩ := (hfor ppn fill rfl).own huse
        exact ⟨hobt₁.loose hloose, hj⟩
    · nomatch herr

theorem usesFile_of_anonymous (h : a.fileBacking = none) (pageOffset : Nat) :
    a.usesFile pageOffset = false := by
  simp [usesFile, h]

variable {d : Std.ExtTreeMap Nat Nat}

theorem injective_cons {p : Nat} (hp : d[vpn]? = some p) (hnew : ∀ v ∈ vpns, d[v]? ≠ some p)
    (hinj : ∀ v ∈ vpns, ∀ w ∈ vpns, d[v]? = d[w]? → v = w) :
    ∀ v ∈ vpn :: vpns, ∀ w ∈ vpn :: vpns, d[v]? = d[w]? → v = w := by
  intro v hv w hw heq
  rcases mem_cons.mp hv with rfl | hv' <;> rcases mem_cons.mp hw with rfl | hw'
  · rfl
  · exact absurd (heq.symm.trans hp) (hnew w hw')
  · exact absurd (heq.trans hp) (hnew v hv')
  · exact hinj v hv' w hw' heq

theorem mapEach_spec {done : List Nat} (hk : s.k.WellFormed) (hanon : a.fileBacking = none)
    (hnodup : vpns.Nodup) (h : mapEach io ext vpns done a s = (.ok (), a', s')) :
    s.k.Obtains ext s'.k ∧ ∃ d, a' = a.withFrames d ∧
      (∀ v ∉ vpns, d[v]? = a.dataFrames[v]? ∧ s'.pt.entry v = s.pt.entry v) ∧
      (∀ v ∈ vpns, ∃ p, d[v]? = some p ∧ s'.pt.entry v = ⟨p, (a.installFlags false).mapped⟩ ∧
        s'.k.Loose p ∧ ∃ j, p = s.k.phys.supply j) ∧
      ∀ v ∈ vpns, ∀ w ∈ vpns, d[v]? = d[w]? → v = w := by
  induction vpns generalizing done a s with
  | nil =>
    simp only [mapEach, Prod.mk.injEq, true_and] at h
    obtain ⟨rfl, rfl⟩ := h
    exact ⟨Kernel.Obtains.refl hk, a.dataFrames, rfl, by simp, by simp, by simp⟩
  | cons vpn vpns ih =>
    obtain ⟨hnotin, hnodup⟩ := nodup_cons.mp hnodup
    simp only [mapEach] at h
    rcases hone : a.mapOne s io ext vpn with ⟨r, a₁, s₁⟩
    rw [hone] at h
    obtain ⟨hobt, ⟨fill, p, rfl, rfl, -, hentry, hfor⟩ | ⟨⟨e, rfl⟩, -⟩⟩ := mapOne_spec hk hone
    · rw [usesFile_of_anonymous hanon, Bool.false_and, Bool.false_and, pageFlags_false] at hentry
      obtain ⟨hloose, hj⟩ := hfor.own (usesFile_of_anonymous hanon _)
      obtain ⟨hobt', d, rfl, hout, hin, hinj⟩ := ih
        (a := a.withFrames (a.dataFrames.insert vpn p)) hobt.1 hanon hnodup h
      simp only [dataFrames_withFrames] at hout
      obtain ⟨hdv, hev⟩ := hout vpn hnotin
      rw [getElem?_insert_self] at hdv
      rw [hentry, if_pos rfl] at hev
      obtain ⟨hwf, m, hevolves⟩ := hobt
      have hnew : ∀ v ∈ vpns, d[v]? ≠ some p := by
        intro v hv heq
        obtain ⟨q, hq, -, -, i, hi⟩ := hin v hv
        exact hloose.not_supply i ((Option.some.inj (heq.symm.trans hq)).trans hi)
      refine ⟨Kernel.Obtains.trans ⟨hwf, m, hevolves⟩ hobt', d, rfl, ?_, ?_, ?_⟩
      · intro v hv
        simp only [mem_cons, not_or] at hv
        obtain ⟨hd, he⟩ := hout v hv.2
        rw [he, hentry, if_neg hv.1, hd]
        simp [Std.ExtTreeMap.getElem?_insert, Ne.symm hv.1]
      · intro v hv
        rcases mem_cons.mp hv with rfl | hv
        · exact ⟨p, hdv, hev, hobt'.loose hloose, hj⟩
        · obtain ⟨q, hq, he, hl, i, hi⟩ := hin v hv
          exact ⟨q, hq, he, hl, m + i, by rw [hi, hevolves.consumes.1]⟩
      · exact injective_cons hdv hnew hinj
    · rcases a₁.unmapEach s₁.pt (done ++ [vpn]) with ⟨a₂, pt₂⟩
      simp at h

/-! ### Replacing frames -/

/-- The core of `remap_one_with_data` and `privatize_one`: a frame taken from the allocator, with the
given contents, replaces the frame of a page that has a valid entry. -/
theorem replaceFrame_spec (ext : Nat → Nat) (hk : s.k.WellFormed) {data : PageBytes}
    (h : a.replaceFrame s vpn data = (r, a', s')) : s.k.Obtains ext s'.k ∧
      ((r = .ok () ∧ ∃ p, a' = a.withFrames (a.dataFrames.insert vpn p) ∧
          (s.pt.entry vpn).isValid = true ∧
          (∀ v, s'.pt.entry v =
            if v = vpn then ⟨p, (PTEFlags.ofPerm a.mapPerm).mapped⟩ else s.pt.entry v) ∧
          s'.k.Loose p ∧ (∃ j, p = s.k.phys.supply j) ∧ s'.k.phys.mem p = data) ∨
        ((∃ e, r = .error e) ∧ a' = a ∧ ∀ v, s'.pt.entry v = s.pt.entry v)) := by
  revert h
  fun_cases replaceFrame a s vpn data with
  | case1 phys halloc =>
    rintro ⟨⟩
    exact ⟨obtains_setPhys hk ⟨0, Phys.frameAlloc_none halloc⟩, .inr ⟨⟨_, rfl⟩, rfl, fun _ ↦ rfl⟩⟩
  | case2 p phys halloc s₁ e hreplace =>
    intro h
    obtain ⟨rfl, rfl, rfl⟩ := by simpa only [Prod.mk.injEq] using h
    obtain ⟨rfl, hwf, hev, -⟩ := obtains_frameAlloc_some ext hk halloc
    exact ⟨⟨hwf.store _ _, 1, hev.store (by omega) data⟩, .inr ⟨⟨e, rfl⟩, rfl, fun _ ↦ rfl⟩⟩
  | case3 p phys halloc s₁ pt hreplace =>
    rintro ⟨⟩
    obtain ⟨rfl, hwf, hev, hloose⟩ := obtains_frameAlloc_some ext hk halloc
    refine ⟨⟨hwf.store _ _, 1, hev.store (by omega) data⟩, .inl ⟨rfl, s.k.phys.supply 0, rfl, ?_,
      entry_replacePte hreplace, { hloose with }, ⟨0, rfl⟩, ?_⟩⟩
    · unfold replacePte at hreplace
      split_ifs at hreplace with hvalid
      exact hvalid
    · exact Function.update_self _ _ _

/-- The pages `vpns` got copies of their frames in frames of their own, and nothing else changed. -/
structure Privatizes (ext : Nat → Nat) (vpns : List Nat) (a : MapArea)
    (frames : Std.ExtTreeMap Nat Nat) (s s' : PtState) : Prop where
  obtains : s.k.Obtains ext s'.k
  frame_eq : ∀ v ∉ vpns, frames[v]? = a.dataFrames[v]?
  entry_eq : ∀ v ∉ vpns, s'.pt.entry v = s.pt.entry v
  copied : ∀ v ∈ vpns, ∃ old p, a.dataFrames[v]? = some old ∧ frames[v]? = some p ∧
    (s.pt.entry v).isValid = true ∧ s'.pt.entry v = ⟨p, (PTEFlags.ofPerm a.mapPerm).mapped⟩ ∧
    s'.k.Loose p ∧ (∃ j, p = s.k.phys.supply j) ∧ s'.k.phys.mem p = s.k.phys.mem old
  injective : ∀ v ∈ vpns, ∀ w ∈ vpns, frames[v]? = frames[w]? → v = w

theorem privatizeEach_spec (ext : Nat → Nat) (hk : s.k.WellFormed) (hnodup : vpns.Nodup)
    (hown : ∀ v p i : Nat, a.dataFrames[v]? = some p → p ≠ s.k.phys.supply i)
    (h : privatizeEach vpns a s = (r, a', s')) :
    ∃ vpns' d, vpns' ⊆ vpns ∧ (r = .ok () → vpns' = vpns) ∧ a' = a.withFrames d ∧
      Privatizes ext vpns' a d s s' := by
  induction vpns generalizing a s with
  | nil =>
    simp only [privatizeEach, Prod.mk.injEq] at h
    obtain ⟨rfl, rfl, rfl⟩ := h
    exact ⟨[], a.dataFrames, by simp, by simp, rfl,
      ⟨Kernel.Obtains.refl hk, by simp, by simp, by simp, by simp⟩⟩
  | cons vpn vpns ih =>
    obtain ⟨hnotin, hnodup⟩ := nodup_cons.mp hnodup
    simp only [privatizeEach, privatizeOne] at h
    cases hold : a.dataFrames[vpn]? with
    | none =>
      simp only [hold, Prod.mk.injEq] at h
      obtain ⟨rfl, rfl, rfl⟩ := h
      exact ⟨[], a.dataFrames, by simp, by simp, rfl,
        ⟨Kernel.Obtains.refl hk, by simp, by simp, by simp, by simp⟩⟩
    | some old =>
      simp only [hold] at h
      rcases hone : a.replaceFrame s vpn (s.k.phys.mem old) with ⟨r₁, a₁, s₁⟩
      rw [hone] at h
      obtain ⟨hobt, ⟨rfl, p, rfl, hvalid, hentry, hloose, ⟨j, hj⟩, hmem⟩ | ⟨⟨e, rfl⟩, rfl, hentry⟩⟩ :=
        replaceFrame_spec ext hk hone
      · obtain ⟨hwf, m, hevolves⟩ := hobt
        have hinsert : ∀ v : Nat, v ≠ vpn → (a.dataFrames.insert vpn p)[v]? = a.dataFrames[v]? := by
          intro v hv
          simp [Std.ExtTreeMap.getElem?_insert, Ne.symm hv]
        have hown₁ : ∀ v q i : Nat, (a.dataFrames.insert vpn p)[v]? = some q → q ≠ s₁.k.phys.supply i := by
          intro v q i hq
          by_cases hv : v = vpn
          · subst hv
            simp only [getElem?_insert_self, Option.some.injEq] at hq
            exact hq ▸ hloose.not_supply i
          · rw [hinsert v hv] at hq
            rw [hevolves.consumes.1]
            exact hown v q _ hq
        obtain ⟨vpns', d, hsub, hall, rfl, hp⟩ := ih
          hwf hnodup hown₁ h
        have hvpn : vpn ∉ vpns' := fun hmem ↦ hnotin (hsub hmem)
        have hdv : d[vpn]? = some p := by
          rw [hp.frame_eq vpn hvpn, dataFrames_withFrames, getElem?_insert_self]
        have hrest : ∀ v ∈ vpns', v ≠ vpn := fun v hv heq ↦ hvpn (heq ▸ hv)
        have hnew : ∀ v ∈ vpns', d[v]? ≠ some p := by
          intro v hv heq
          obtain ⟨-, q, -, hq, -, -, -, ⟨i, hi⟩, -⟩ := hp.copied v hv
          obtain rfl : p = q := Option.some.inj (heq.symm.trans hq)
          exact hloose.not_supply i hi
        refine ⟨vpn :: vpns', d, cons_subset_cons vpn hsub, fun hr ↦ by rw [hall hr], rfl,
          ⟨Kernel.Obtains.trans ⟨hwf, m, hevolves⟩ hp.obtains, ?_, ?_, ?_, ?_⟩⟩
        · intro v hv
          simp only [mem_cons, not_or] at hv
          rw [hp.frame_eq v hv.2, dataFrames_withFrames, hinsert v hv.1]
        · intro v hv
          simp only [mem_cons, not_or] at hv
          rw [hp.entry_eq v hv.2, hentry, if_neg hv.1]
        · intro v hv
          rcases mem_cons.mp hv with rfl | hv
          · refine ⟨old, p, hold, hdv, hvalid, ?_, hp.obtains.loose hloose, ⟨j, hj⟩, ?_⟩
            · rw [hp.entry_eq v hvpn, hentry, if_pos rfl]
            · obtain ⟨-, m', hevolves'⟩ := hp.obtains
              rw [hevolves'.mem_eq hloose.not_supply, hmem]
          · obtain ⟨old', q, hold', hq, hvalid', he, hl, ⟨i, hi⟩, hmem'⟩ := hp.copied v hv
            rw [dataFrames_withFrames, hinsert v (hrest v hv)] at hold'
            rw [hentry, if_neg (hrest v hv)] at hvalid'
            refine ⟨old', q, hold', hq, hvalid', he, hl, ⟨m + i, by rw [hi, hevolves.consumes.1]⟩, ?_⟩
            rw [hmem', hevolves.mem_eq fun i ↦ hown v old' i hold']
        · exact injective_cons hdv hnew hp.injective
      · obtain ⟨rfl, rfl, rfl⟩ := h
        exact ⟨[], _, by simp, by simp, rfl, ⟨hobt, by simp, fun v _ ↦ hentry v, by simp, by simp⟩⟩

/-! ### Installing given frames -/

/-- `remap_existing_frames`. On success every page of the list has an entry for its frame, where there
was no valid one; an error changes no valid entry. -/
theorem remapFrames_spec (ext : Nat → Nat) (hk : s.k.WellFormed)
    (hnodup : (pages.map Prod.fst).Nodup) (h : remapFrames flags pages s = (r, s')) :
    s.k.Obtains ext s'.k ∧
      (∀ v, (s.pt.entry v).isValid = true → s'.pt.entry v = s.pt.entry v) ∧
      (∀ v, v ∉ pages.map Prod.fst → s'.pt.entry v = s.pt.entry v) ∧
      (r = .ok () → ∀ e ∈ pages, (s.pt.entry e.1).isValid = false ∧
        s'.pt.entry e.1 = ⟨e.2, flags.mapped⟩) := by
  induction pages generalizing s with
  | nil =>
    obtain ⟨rfl, rfl⟩ := h
    exact ⟨Kernel.Obtains.refl hk, fun _ _ ↦ rfl, fun _ _ ↦ rfl, by simp⟩
  | cons page pages ih =>
    obtain ⟨vpn, ppn⟩ := page
    obtain ⟨hnotin, hnodup⟩ := nodup_cons.mp hnodup
    simp only [remapFrames] at h
    rcases hmap : s.pt.map s.k.phys vpn ppn flags with ⟨res, pt, phys⟩
    rw [hmap] at h
    obtain ⟨hc, hres⟩ := map_spec hmap
    have hobt : s.k.Obtains ext (s.k.setPhys phys) := obtains_setPhys hk hc
    rcases hres with ⟨rfl, hinvalid, hentry⟩ | ⟨⟨e, rfl⟩, hentry⟩
    · obtain ⟨hobt', hvalid, hout, hin⟩ := ih hobt.1 hnodup h
      refine ⟨hobt.trans hobt', fun v hv ↦ ?_, fun v hv ↦ ?_, fun hr e he ↦ ?_⟩
      · have hne : v ≠ vpn := by
          rintro rfl
          simp [hinvalid] at hv
        have hsame : pt.entry v = s.pt.entry v := by rw [hentry, if_neg hne]
        rw [hvalid v (by rw [hsame]; exact hv), hsame]
      · simp only [map_cons, mem_cons, not_or] at hv
        rw [hout v hv.2, hentry, if_neg hv.1]
      · rcases mem_cons.mp he with rfl | he
        · refine ⟨hinvalid, ?_⟩
          rw [hout vpn hnotin, hentry, if_pos rfl]
        · have hne : e.1 ≠ vpn := fun heq ↦ hnotin (mem_map.mpr ⟨e, he, heq⟩)
          obtain ⟨hinv, hnew⟩ := hin hr e he
          rw [hentry, if_neg hne] at hinv
          exact ⟨hinv, hnew⟩
    · obtain ⟨rfl, rfl⟩ := h
      exact ⟨hobt, fun v _ ↦ hentry v, fun v _ ↦ hentry v, by simp⟩

theorem installGiven_ok {mapped : List Nat}
    (h : installGiven flags pages mapped frames s = (.ok d, s')) :
    remapFrames flags pages s = (.ok (), s') ∧
      d = pages.foldl (fun d e ↦ d.insert e.1 e.2) frames := by
  induction pages generalizing s mapped frames with
  | nil =>
    obtain ⟨rfl, rfl⟩ := h
    exact ⟨rfl, rfl⟩
  | cons page pages ih =>
    obtain ⟨vpn, ppn⟩ := page
    simp only [installGiven] at h
    simp only [remapFrames]
    rcases hmap : s.pt.map s.k.phys vpn ppn flags with ⟨res, pt, phys⟩
    rw [hmap] at h
    cases res with
    | error e => simp at h
    | ok u => exact ih h

theorem getElem?_foldl_insert (hnodup : (pages.map Prod.fst).Nodup)
    (frames : Std.ExtTreeMap Nat Nat) (v p : Nat) :
    (pages.foldl (fun d e ↦ d.insert e.1 e.2) frames)[v]? = some p ↔
      (v, p) ∈ pages ∨ (v ∉ pages.map Prod.fst ∧ frames[v]? = some p) := by
  induction pages generalizing frames with
  | nil => simp
  | cons page pages ih =>
    obtain ⟨vpn, ppn⟩ := page
    obtain ⟨hnotin, hnodup⟩ := nodup_cons.mp hnodup
    rw [foldl_cons, ih hnodup]
    by_cases hv : v = vpn
    · subst hv
      have hnot : (v, p) ∉ pages := fun hmem ↦ hnotin (mem_map.mpr ⟨_, hmem, rfl⟩)
      simp [hnot, hnotin, eq_comm]
    · simp [hv, Std.ExtTreeMap.getElem?_insert, Ne.symm hv]

theorem nodup_map_fst_zip {α β : Type} {l : List α} (h : l.Nodup) (l' : List β) :
    ((l.zip l').map Prod.fst).Nodup := by
  rw [zip_eq_zip_take_min, map_fst_zip (by simp)]
  exact h.sublist (take_sublist _ _)

theorem getElem?_installGiven (hnodup : (pages.map Prod.fst).Nodup)
    (h : installGiven flags pages [] ∅ s = (.ok d, s')) (v p : Nat) :
    d[v]? = some p ↔ (v, p) ∈ pages := by
  obtain ⟨-, rfl⟩ := installGiven_ok h
  rw [getElem?_foldl_insert hnodup]
  simp

theorem installGiven_error {mapped : List Nat} {e : Errno}
    (h : installGiven flags pages mapped frames s = (.error e, s')) :
    (∃ phys, s.k.phys.Consumes phys ∧ s'.k = s.k.setPhys phys) ∧ (∀ v ∈ mapped, (s'.pt.entry v).isValid = false) ∧
      ∀ v ∉ mapped, s'.pt.entry v = s.pt.entry v ∨
        ((s.pt.entry v).isValid = false ∧ (s'.pt.entry v).isValid = false) := by
  induction pages generalizing s mapped frames with
  | nil => simp [installGiven] at h
  | cons page pages ih =>
    obtain ⟨vpn, ppn⟩ := page
    simp only [installGiven] at h
    rcases hmap : s.pt.map s.k.phys vpn ppn flags with ⟨res, pt, phys⟩
    rw [hmap] at h
    obtain ⟨hc, ⟨rfl, hinvalid, hentry⟩ | ⟨⟨e', rfl⟩, hentry⟩⟩ := map_spec hmap
    · obtain ⟨⟨phys', hc', hk'⟩, hin, hout⟩ := ih h
      refine ⟨⟨phys', hc.trans hc', hk'⟩, fun v hv ↦ hin v (mem_append_left _ hv), fun v hv ↦ ?_⟩
      by_cases hvv : v = vpn
      · subst hvv
        exact .inr ⟨hinvalid, hin v (by simp)⟩
      · have hsame : pt.entry v = s.pt.entry v := by rw [hentry, if_neg hvv]
        have := hout v (by simp [hv, hvv])
        rwa [hsame] at this
    · obtain ⟨-, rfl⟩ := h
      refine ⟨⟨phys, hc, rfl⟩, fun v hv ↦ isValid_entry_foldl_tryUnmap hv pt, fun v hv ↦ .inl ?_⟩
      exact (entry_foldl_tryUnmap_of_notMem hv pt).trans (hentry v)

/-- The flags that `modify_user_pte_perm` gives an entry. -/
def protectFlags (perm : MapPermission) (e : PageTableEntry) : PTEFlags :=
  (if e.isCow then { PTEFlags.ofPerm perm with cow := true, write := false }
    else PTEFlags.ofPerm perm).mapped

theorem entry_modifyUserPtePerm (perm : MapPermission) (pt : PageTable) (vpn v : Nat) :
    (modifyUserPtePerm perm pt vpn).entry v =
      if v = vpn ∧ (pt.entry v).visible = true then ⟨(pt.entry v).ppn, protectFlags perm (pt.entry v)⟩
      else pt.entry v := by
  unfold modifyUserPtePerm
  rw [translate_eq]
  by_cases hvis : (pt.entry vpn).visible = true
  · have hvalid := PageTableEntry.isValid_of_visible hvis
    simp only [hvis, if_true]
    rw [entry_modifyPte hvalid]
    by_cases hv : v = vpn
    · subst hv
      simp [hvis, protectFlags]
    · simp [hv]
  · simp only [hvis]
    by_cases hv : v = vpn
    · subst hv
      simp [hvis]
    · simp [hv]

theorem entry_foldl_modifyUserPtePerm (perm : MapPermission) (hnodup : vpns.Nodup) (pt : PageTable)
    (v : Nat) : (vpns.foldl (modifyUserPtePerm perm) pt).entry v =
      if v ∈ vpns ∧ (pt.entry v).visible = true then
        ⟨(pt.entry v).ppn, protectFlags perm (pt.entry v)⟩
      else pt.entry v := by
  induction vpns generalizing pt with
  | nil => simp
  | cons w vpns ih =>
    obtain ⟨hnotin, hnodup⟩ := nodup_cons.mp hnodup
    rw [foldl_cons, ih hnodup]
    by_cases hv : v = w
    · subst hv
      simp [hnotin, entry_modifyUserPtePerm]
    · simp [hv, entry_modifyUserPtePerm]

theorem getElem?_rebaseFrames {oldStart newStart newPages : Nat}
    (hlo : ∀ v p : Nat, frames[v]? = some p → oldStart ≤ v) (v p : Nat) :
    (rebaseFrames frames oldStart newStart newPages)[v]? = some p ↔
      ∃ w, frames[w]? = some p ∧ w - oldStart < newPages ∧ newStart + (w - oldStart) = v := by
  -- the pages that stay, at their new places
  set pages := (frames.toList.filter fun e ↦ e.1 - oldStart < newPages).map
    fun e ↦ (newStart + (e.1 - oldStart), e.2) with hpages
  have hfold : rebaseFrames frames oldStart newStart newPages =
      pages.foldl (fun d e ↦ d.insert e.1 e.2) ∅ := by
    simp [rebaseFrames, hpages, foldl_map, foldl_filter]
  have hdistinct : frames.toList.Nodup := .of_map Prod.fst (by
    rw [map_fst_toList_eq_keys]
    exact nodup_keys)
  have hnodup : (pages.map Prod.fst).Nodup := by
    rw [hpages, List.map_map]
    refine (hdistinct.filter _).map_on fun x hx y hy heq ↦ ?_
    have hx := mem_toList_iff_getElem?_eq_some.mp (List.mem_of_mem_filter hx)
    have hy := mem_toList_iff_getElem?_eq_some.mp (List.mem_of_mem_filter hy)
    have hfst : x.1 = y.1 := by
      have := hlo _ _ hx
      have := hlo _ _ hy
      simp only [Function.comp_apply] at heq
      omega
    exact Prod.ext hfst (Option.some.inj (hx.symm.trans (hfst ▸ hy)))
  rw [hfold, getElem?_foldl_insert hnodup]
  simp [hpages, mem_toList_iff_getElem?_eq_some, and_assoc, and_comm]

end MapArea

end RespOS.Mm
