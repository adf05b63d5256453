import RespOS.Mm.Isolation

/-!
# The pages that `mremap` moves

A move takes the entries of the area out and installs them again at the new place, from the frames and
the permission of the area alone. What fork and the page faults have noted in the entries is lost: the
mark of a page that is shared copy-on-write, and the write protection of a shared file page for which
`page_mkwrite` is still to be called. A move keeps the state of its pages exactly where no page that it
keeps was in one of these states (`movesPages_iff`).
-/

namespace RespOS.Mm

open RespOS.Basis RespOS.Fs MapArea Std.ExtTreeMap PTEFlags

/-- A store to the page traps: the page is marked copy-on-write, or it is a page of a shared file that
may be written and has not been written yet. -/
def WriteTrapped (a : MapArea) (e : PageTableEntry) : Prop :=
  e.isCow = true ∨
    a.shared = true ∧ a.fileBacking.isSome = true ∧ a.mapPerm.write = true ∧ e.writable = false

namespace MemorySet

variable {s s' : MmState} {r : VPNRange} {oldAddr oldLen newLen newAddr v : Nat}

/-- The pages from the floor of an address up to the floor of the end, as `mremap_range` takes them. -/
def floorRange (addr len : Nat) : VPNRange :=
  ⟨floorVpn (virtAddr addr), floorVpn (virtAddr (addr + len))⟩

/-- The page is resident in the old range and has a place among the first `newPages` pages. -/
def Survives (ms : MemorySet) (old : VPNRange) (newPages : Nat) (a : MapArea) (v p : Nat) : Prop :=
  a ∈ ms.areas ∧ a.dataFrames[v]? = some p ∧ old.start ≤ v ∧ v < old.stop ∧ v - old.start < newPages

/-- A move between two ranges keeps the frame of each page and the state in which stores to it trap, and
it changes no entry outside the two ranges. -/
structure MovesPages (s s' : MmState) (old new : VPNRange) (newPages : Nat) : Prop where
  page : ∀ a v p, s.ms.Survives old newPages a v p →
    (s'.ms.pageTable.entry (new.start + (v - old.start))).isValid = true ∧
      (s'.ms.pageTable.entry (new.start + (v - old.start))).ppn = p ∧
      (WriteTrapped a (s.ms.pageTable.entry v) →
        (s'.ms.pageTable.entry (new.start + (v - old.start))).writable = false ∧
        (s'.ms.pageTable.entry (new.start + (v - old.start))).isCow =
          (s.ms.pageTable.entry v).isCow)
  frame : ∀ v, old.contain v = false → new.contain v = false →
    s'.ms.pageTable.entry v = s.ms.pageTable.entry v

theorem entry_removeAreaWithOverlapRange (hframed : ∀ a ∈ s.ms.areas, a.mapType = .framed)
    (hv : r.contain v = false) :
    (removeAreaWithOverlapRange s r).ms.pageTable.entry v = s.ms.pageTable.entry v := by
  refine removeAreaWithOverlapRange_invariant (I := fun ps ↦
    ps.pt.entry v = s.ms.pageTable.entry v) (fun a ha ps hentry ↦ ?_) rfl
  have hmiddle : (a.cut r).middle.mapType = .framed := hframed a ha
  rw [snd_unmap hmiddle]
  refine (entry_unmapPtesOnly_of_none ?_).trans hentry
  refine Option.eq_none_iff_forall_ne_some.mpr fun p hp ↦ ?_
  have hin := (dataFrames_middle hp).2
  simp only [VPNRange.contain, Bool.and_eq_false_iff, decide_eq_false_iff_not] at hv
  omega

theorem detachArea_pages {middle : MapArea} {s₁ : MmState} (hgeo : Geometry s.ms.areas)
    (h : detachArea s r = some (middle, s₁)) :
    (∀ a v p, a ∈ s.ms.areas → a.dataFrames[v]? = some p → r.start ≤ v → v < r.stop →
        middle.dataFrames[v]? = some p ∧ middle.mapPerm = a.mapPerm) ∧
      ∀ v, r.contain v = false → s₁.ms.pageTable.entry v = s.ms.pageTable.entry v := by
  obtain ⟨l₁, a₀, l₂, hsplit, hlo, hhi, rfl, rfl⟩ := detachArea_cases h
  refine ⟨fun a v p ha hp hstart hstop ↦ ?_, fun v hv ↦ ?_⟩
  · have hin := (hgeo.wellFormed ha).keys v p hp
    obtain rfl : a = a₀ := by
      refine (geometry_iff.mp hgeo).2.eq_of_mem ha (by rw [hsplit]; simp) hin ?_
      simp only [start, stop]
      omega
    rw [splitByOverlap, getElem?_dataFrames_part]
    exact ⟨by simp [hstart, hstop, hp], rfl⟩
  · refine entry_unmapPtesOnly_of_none (Option.eq_none_iff_forall_ne_some.mpr fun p hp ↦ ?_)
    have hin := (dataFrames_middle hp).2
    simp only [VPNRange.contain, Bool.and_eq_false_iff, decide_eq_false_iff_not] at hv
    omega

/-- After a successful move the entries of the kept pages are those of their frames and of the
permission of the area, and no entry outside the two ranges has changed. -/
theorem entries_of_move (h : s.ms.Sound s.k) (hk : s.k.WellFormed) {maymove : Bool}
    {fixedAddr : Option Nat} (hne : newAddr ≠ oldAddr)
    (hok : mremapRange s oldAddr oldLen newLen maymove fixedAddr = .ok newAddr s') :
    (∀ a v p, s.ms.Survives (floorRange oldAddr oldLen) (newLen / pageSize) a v p →
      s'.ms.pageTable.entry
          ((floorRange newAddr newLen).start + (v - (floorRange oldAddr oldLen).start)) =
        ⟨p, (ofPerm a.mapPerm).mapped⟩) ∧
      ∀ v, (floorRange oldAddr oldLen).contain v = false →
        (floorRange newAddr newLen).contain v = false →
        s'.ms.pageTable.entry v = s.ms.pageTable.entry v := by
  have hremapped := remapped_mremapRange h.geometry oldAddr oldLen newLen maymove fixedAddr
  rw [hok] at hremapped
  generalize ho : Outcome.ok newAddr s' = o at hremapped
  cases hremapped with
  | panic | err => nomatch ho
  | same | shrink | extend => exact absurd (Outcome.ok.inj ho).1 hne
  | @move addr middle s₁ s₂ hle hpos hmax hdetach hclear hfree =>
    obtain ⟨hpages, houter⟩ := detachArea_pages h.geometry hdetach
    obtain ⟨-, hstart, hwithin, -⟩ := detachArea_spec hle h.geometry hdetach
    have hdetached : Detached ⟨fun _ ↦ 0, {}⟩ (.mremap oldAddr oldLen newLen maymove fixedAddr) s s₁
        middle := detached_detachArea h hk hle (.inl rfl) (.inr (.inl rfl)) hdetach
    have hnew : floorRange addr newLen = ⟨floorVpn addr, floorVpn (addr + newLen)⟩ := by
      rw [floorRange, virtAddr_of_le (by omega), virtAddr_of_le hmax]
    -- the removal at the target changes nothing outside it
    have hcleared : s₂.k.WellFormed ∧ ∀ v, (floorRange addr newLen).contain v = false →
        s₂.ms.pageTable.entry v = s₁.ms.pageTable.entry v := by
      rcases hclear with rfl | ⟨-, rfl⟩
      · exact ⟨hdetached.obtains.1, fun _ _ ↦ rfl⟩
      rw [hnew]
      exact ⟨(obtains_removeAreaWithOverlapRange hdetached.obtains.1 :
        s₁.k.Obtains (fun _ ↦ 0) _).1, fun v hv ↦
          entry_removeAreaWithOverlapRange (hdetached.shrinks.framed h.framed) hv⟩
    set x := middle.rebase (floorVpn addr) (newLen / pageSize) with hx
    have hlookup : ∀ v p : Nat, x.dataFrames[v]? = some p ↔ ∃ w, middle.dataFrames[w]? = some p ∧
        w - middle.start < newLen / pageSize ∧ floorVpn addr + (w - middle.start) = v :=
      getElem?_rebaseFrames fun v p hp ↦ (hwithin v p hp).1
    have hnodup : (x.dataFrames.toList.map Prod.fst).Nodup := by
      rw [map_fst_toList_eq_keys]
      exact nodup_keys
    unfold placeMoved at ho
    simp only [← hx] at ho
    rcases hremap : x.remapExistingFrames ⟨s₂.ms.pageTable, s₂.k⟩ with ⟨res, ps⟩
    rw [hremap] at ho
    cases res with
    | error e => nomatch ho
    | ok u =>
      obtain ⟨rfl, rfl⟩ := Outcome.ok.inj ho
      obtain ⟨-, -, hout, hin⟩ := remapFrames_spec (fun _ ↦ 0) hcleared.1 hnodup hremap
      refine ⟨fun a v p ⟨ha, hp, hlo, hhi, hlt⟩ ↦ ?_, fun v hold hoff ↦ ?_⟩
      · obtain ⟨hmiddle, hperm⟩ := hpages a v p ha hp hlo hhi
        have hmoved : x.dataFrames[floorVpn newAddr + (v - (floorRange oldAddr oldLen).start)]? =
            some p :=
          (hlookup _ p).mpr ⟨v, hmiddle, by rw [hstart]; exact hlt, by rw [hstart]; rfl⟩
        rw [← hperm, hnew]
        exact (hin rfl _ (mem_toList_iff_getElem?_eq_some.mpr hmoved)).2
      · refine ((hout v fun hmem ↦ ?_).trans (hcleared.2 v hoff)).trans (houter v hold)
        obtain ⟨e, he, rfl⟩ := List.mem_map.mp hmem
        obtain ⟨w, -, hlt, hw⟩ := (hlookup e.1 e.2).mp (mem_toList_iff_getElem?_eq_some.mp he)
        have hfit := floorVpn_add_le newAddr newLen
        simp only [hnew, VPNRange.contain, Bool.and_eq_false_iff, decide_eq_false_iff_not] at hoff
        omega

end MemorySet

namespace Machine

open MemorySet

/-- A move keeps the state of its pages exactly where no page that it keeps traps stores. -/
theorem movesPages_iff {m : Machine} {ok : Machine → Label → Prop} (hrun : Run Init ok Step m)
    {l : Label} (hadm : m.Admissible l) {ms : MemorySet} (hms : ms ∈ m.spaces)
    {oldAddr oldLen newLen newAddr : Nat} {maymove : Bool} {fixedAddr : Option Nat} {s' : MmState}
    (hok : mremapRange ⟨ms, (m.settle l).k⟩ oldAddr oldLen newLen maymove fixedAddr = .ok newAddr s')
    (hne : newAddr ≠ oldAddr) :
    MovesPages ⟨ms, (m.settle l).k⟩ s' (floorRange oldAddr oldLen) (floorRange newAddr newLen)
        (newLen / pageSize) ↔
      ∀ a v p, ms.Survives (floorRange oldAddr oldLen) (newLen / pageSize) a v p →
        ¬ WriteTrapped a (ms.pageTable.entry v) := by
  have hinv := (inv_of_reachable hrun).settle hadm
  obtain ⟨hentry, hframe⟩ := entries_of_move (hinv.sound ms hms) hinv.kernel hne hok
  constructor
  · intro hmoves a v p hsurvives htrapped
    obtain ⟨-, -, hkept⟩ := hmoves.page a v p hsurvives
    obtain ⟨hwrite, hcow⟩ := hkept htrapped
    rw [hentry a v p hsurvives] at hwrite hcow
    rcases htrapped with hmarked | ⟨-, -, hperm, -⟩
    · exact absurd (hcow.trans hmarked) (by simp [PageTableEntry.isCow, ofPerm, mapped])
    · exact absurd hwrite (by simp [PageTableEntry.writable, ofPerm, mapped, hperm])
  · intro htrapped
    refine ⟨fun a v p hsurvives ↦ ?_, hframe⟩
    rw [hentry a v p hsurvives]
    exact ⟨rfl, rfl, fun h ↦ absurd h (htrapped a v p hsurvives)⟩

def movePage : Label :=
  { sid := 0, action := .op (.mremap 0x2000000000 0x1000 0x1000 true (some 0x2000001000)) }

/-- The page is written and moved by one page: its frame and its permission arrive. -/
theorem movesPages_of_written : ∃ m, Run Init (fun _ _ ↦ True) Step m ∧ ∃ ms ∈ m.spaces, ∃ s',
    MovesPages ⟨ms, (m.settle movePage).k⟩ s' (floorRange 0x2000000000 0x1000)
      (floorRange 0x2000001000 0x1000) (0x1000 / pageSize) := by
  obtain ⟨m, hrun, ms, hms, hprivate, hcow, hmove⟩ : ∃ m, Run Init (fun _ _ ↦ True) Step m ∧
      ∃ ms, m.spaces[0]? = some ms ∧ (∀ a ∈ ms.areas, a.shared = false) ∧
        (ms.pageTable.entry 0x2000000).isCow = false ∧
        ((mremapRange ⟨ms, (m.settle movePage).k⟩ 0x2000000000 0x1000 0x1000 true
          (some 0x2000001000)).andThen fun addr s ↦
            if addr = 0x2000001000 then .ok addr s else .panic).isOk = true := by
    refine exists_of_runLabels init_oneSpace plain_written (fun _ _ _ ↦ trivial) ?_
    decide +kernel
  have hmem := List.mem_of_getElem? hms
  have hplain : Plain movePage := by simp [movePage, Plain]
  cases hok : mremapRange ⟨ms, (m.settle movePage).k⟩ 0x2000000000 0x1000 0x1000 true
    (some 0x2000001000) with rw [hok] at hmove
  | err | panic => cases hmove
  | ok addr s' =>
    obtain rfl : addr = 0x2000001000 := by
      by_contra hne
      simp [Outcome.andThen, hne, Outcome.isOk] at hmove
    have hadm : m.Admissible movePage := admissible_of_plain hplain
    have hiff := movesPages_iff hrun hadm hmem hok (by decide)
    refine ⟨m, hrun, ms, hmem, s', hiff.mpr ?_⟩
    rintro a v p ⟨ha, -, hlo, hhi, -⟩ (hmarked | ⟨hshared, -⟩)
    · have hrange : floorRange 0x2000000000 0x1000 = ⟨0x2000000, 0x2000001⟩ := by decide
      rw [hrange] at hlo hhi
      obtain rfl : v = 0x2000000 := by simp only at hlo hhi; omega
      simp [hcow] at hmarked
    · simp [hprivate a ha] at hshared

/-- The page is written, shared with a child, and moved: the parent may then write the frame that the
child still uses. -/
theorem writable_after_move : ∃ m, Run Init (fun _ _ ↦ True) Step m ∧
    (∃ ms, m.spaces[0]? = some ms ∧ (ms.pageTable.entry 0x2000000).isCow = true ∧
      (ms.pageTable.entry 0x2000000).ppn = 2) ∧ (∃ b, m.Records 1 b 0x2000000 2) ∧
    ∃ m', m.next movePage = some m' ∧ ∃ ms', m'.spaces[0]? = some ms' ∧
      (ms'.pageTable.entry 0x2000001).ppn = 2 ∧
      (ms'.pageTable.entry 0x2000001).storable = true ∧
      (ms'.pageTable.entry 0x2000001).isCow = false := by
  have hplain : ∀ l ∈ writtenPage ++ [forkSpace], Plain l := by
    simp [writtenPage, forkSpace, Plain]
  refine exists_of_runLabels init_oneSpace hplain (fun _ _ _ ↦ trivial) ?_
  decide +kernel

end Machine

end RespOS.Mm
