import RespOS.Mm.MachineStep

/-!
# Where an automatic mapping goes

`choose_mmap_start` looks for a free range from `mmap_start` upwards, jumping past every area in its
way. Above its start the search finds a hole where one is left (`chooseLoop_of_hole`), so a request
without an address fails for lack of address space only if all holes lie below `mmap_start`
(`noMem_iff_cursor`).

`mmap_start` moves up with every automatic mapping. It moves back only when `munmap` removes the range
that ends exactly there, so what is unmapped elsewhere is not found again (`hole_below_start`).
-/

namespace RespOS.Mm

open RespOS.Basis List MemorySet

namespace MemorySet

/-- `mapLen` bytes at the address end in the mapping window and meet no area. -/
def HoleAt (areas : List MapArea) (mapLen addr : Nat) : Prop :=
  addr + mapLen ≤ mmapMaxAddr ∧
    ∀ a ∈ areas, a.vpnRange.intersectWith (byteRange addr (addr + mapLen)) = false

section Search

variable {areas : List MapArea} {mapLen addr start : Nat} {a : MapArea}

theorem HoleAt.stop_le (hhole : HoleAt areas mapLen addr) (ha : a ∈ areas) (hle : start ≤ addr)
    (hmeets : a.vpnRange.intersectWith (byteRange start (start + mapLen)) = true) :
    floorVpn start < a.vpnRange.stop ∧ a.vpnRange.stop * pageSize ≤ addr := by
  have hbound := hhole.1
  have hfree := hhole.2 a ha
  simp only [byteRange] at hmeets hfree
  rw [virtAddr_of_le (by omega), virtAddr_of_le (by omega)] at hmeets hfree
  simp only [VPNRange.intersectWith_eq_true] at hmeets
  simp only [VPNRange.intersectWith_eq_false] at hfree
  have hceil : ceilVpn (start + mapLen) ≤ ceilVpn (addr + mapLen) := by
    unfold ceilVpn pageSize
    omega
  refine ⟨hmeets.2, ?_⟩
  have hstop : a.vpnRange.stop ≤ floorVpn addr := by omega
  unfold floorVpn pageSize at *
  omega

/-- The areas that the search can still meet: each jump leaves one of them behind. -/
def ahead (areas : List MapArea) (start : Nat) : List MapArea :=
  areas.filter fun a ↦ floorVpn start < a.vpnRange.stop

theorem length_ahead_lt (ha : a ∈ areas) (hstop : floorVpn start < a.vpnRange.stop) :
    (ahead areas (a.vpnRange.stop * pageSize)).length < (ahead areas start).length := by
  have hfloor : floorVpn (a.vpnRange.stop * pageSize) = a.vpnRange.stop :=
    Nat.mul_div_cancel _ (by decide)
  have hsub : ahead areas (a.vpnRange.stop * pageSize) =
      (ahead areas start).filter fun b ↦ a.vpnRange.stop < b.vpnRange.stop := by
    unfold ahead
    rw [filter_filter, hfloor]
    refine filter_congr fun b _ ↦ ?_
    simp only [← Bool.decide_and, decide_eq_decide]
    omega
  rw [hsub]
  refine length_filter_lt_length_iff_exists.mpr ⟨a, ?_, by simp⟩
  exact mem_filter.mpr ⟨ha, decide_eq_true hstop⟩

theorem chooseLoop_of_hole (hhole : HoleAt areas mapLen addr) {fuel : Nat} (hle : start ≤ addr)
    (hfuel : (ahead areas start).length < fuel) :
    ∃ found, chooseLoop areas mapLen fuel start = .ok found := by
  induction fuel generalizing start with
  | zero => exact absurd hfuel (Nat.not_lt_zero _)
  | succ fuel ih =>
    have hbound := hhole.1
    have hmax : mmapMaxAddr < 2 ^ (vaWidth - 1) ∧ 2 ^ (vaWidth - 1) < usizeSize := by decide
    have hadd : checkedAdd start mapLen = some (start + mapLen) :=
      checkedAdd_eq_some.mpr ⟨by omega, rfl⟩
    rw [chooseLoop, hadd]
    simp only [if_neg (show ¬ mmapMaxAddr < start + mapLen by omega)]
    split
    · -- the area in the way ends at or before the hole, so the hole is still ahead
      rename_i a hfind
      have ha := mem_of_find?_eq_some hfind
      have hmeets := find?_some hfind
      obtain ⟨hstop, hjump⟩ := hhole.stop_le ha hle hmeets
      have husize : usizeOfVpn a.vpnRange.stop = a.vpnRange.stop * pageSize := by
        have hlt : a.vpnRange.stop * pageSize < 2 ^ (vaWidth - 1) := by omega
        have hmod : a.vpnRange.stop * pageSize % 2 ^ vaWidth = a.vpnRange.stop * pageSize :=
          Nat.mod_eq_of_lt (Nat.lt_trans hlt (by decide))
        simp only [usizeOfVpn, hmod, if_pos hlt]
      rw [husize]
      have hless := length_ahead_lt ha hstop
      exact ih hjump (by omega)
    · exact ⟨start, rfl⟩

theorem holeAt_of_chooseLoop {found fuel : Nat} (htop : ∀ a ∈ areas, a.vpnRange.stop < 2 ^ 27)
    (h : chooseLoop areas mapLen fuel start = .ok found) :
    start ≤ found ∧ HoleAt areas mapLen found := by
  fun_induction chooseLoop areas mapLen fuel start with
  | case4 fuel start stop hadd hmax r a hfind ih =>
    obtain ⟨hle, hhole⟩ := ih h
    refine ⟨Nat.le_trans ?_ hle, hhole⟩
    obtain ⟨-, rfl⟩ := checkedAdd_eq_some.mp hadd
    have hmeets : a.vpnRange.intersectWith r = true := by simpa using find?_some hfind
    have hstop := htop a (mem_of_find?_eq_some hfind)
    simp only [r, VPNRange.intersectWith_eq_true] at hmeets
    rw [virtAddr_of_le (show start ≤ mmapMaxAddr by omega)] at hmeets
    have hva : a.vpnRange.stop * pageSize % 2 ^ vaWidth = a.vpnRange.stop * pageSize := by
      refine Nat.mod_eq_of_lt ?_
      unfold vaWidth pageSize at *
      omega
    simp only [usizeOfVpn, hva]
    unfold floorVpn pageSize usizeSize vaWidth mmapMaxAddr at *
    split_ifs <;> omega
  | case5 fuel start stop hadd hmax r hfind =>
    obtain ⟨-, rfl⟩ := checkedAdd_eq_some.mp hadd
    obtain rfl := Except.ok.inj h
    refine ⟨Nat.le_refl _, by omega, fun a ha ↦ ?_⟩
    exact Bool.eq_false_of_not_eq_true (find?_eq_none.mp hfind a ha)
  | _ => cases h

theorem chooseLoop_eq_error {fuel : Nat} {e : Errno} (h : chooseLoop areas mapLen fuel start = .error e) :
    e = .ENOMEM := by
  fun_induction chooseLoop areas mapLen fuel start with
  | case4 _ _ _ _ _ _ _ _ ih => exact ih h
  | case5 => cases h
  | _ => exact (Except.error.inj h).symm

end Search

variable {s : MmState} {req : MmapRequest}

theorem prepareMmap_ne_noMem (haddr : req.addr = none) {above : Nat} (hle : s.ms.mmapStart ≤ above)
    (hhole : HoleAt s.ms.areas req.mapLen above) : prepareMmap s req ≠ .err .ENOMEM s := by
  intro hnomem
  have hfuel : (ahead s.ms.areas s.ms.mmapStart).length < s.ms.areas.length + 1 :=
    Nat.lt_succ_of_le (length_filter_le ..)
  obtain ⟨start, hfound⟩ := chooseLoop_of_hole hhole hle hfuel
  have hend : start + req.mapLen ≤ mmapMaxAddr := (chooseLoop_eq_ok hfound).1
  have hhint : MmapRequest.isHint req = false := by simp [MmapRequest.isHint, haddr]
  have hadd : checkedAdd start req.mapLen = some (start + req.mapLen) := by
    refine checkedAdd_eq_some.mpr ⟨?_, rfl⟩
    exact Nat.lt_of_le_of_lt hend (by decide)
  have hfirst : s.ms.firstStart req = .ok start := by
    simp [firstStart, chooseMmapStart, haddr, hfound, hhint]
  have hbounded : boundedEnd start req.mapLen = .ok (start + req.mapLen) := by
    simp [boundedEnd, hadd, Nat.not_lt.mpr hend]
  have hsecond : s.ms.secondStart req start (start + req.mapLen) = .ok (start, start + req.mapLen) := by
    simp [secondStart, hhint]
  simp only [prepareMmap, hfirst, hbounded, hsecond] at hnomem
  split_ifs at hnomem <;> simp at hnomem

theorem prepareMmap_of_error {e : Errno} (haddr : req.addr = none)
    (h : s.ms.chooseMmapStart none req.mapLen = .error e) : prepareMmap s req = .err e s := by
  simp [prepareMmap, firstStart, haddr, h]

theorem prepareMmap_eq_noMem (haddr : req.addr = none)
    (htop : ∀ a ∈ s.ms.areas, a.vpnRange.stop < 2 ^ 27)
    (hnone : ∀ above, s.ms.mmapStart ≤ above → ¬ HoleAt s.ms.areas req.mapLen above) :
    prepareMmap s req = .err .ENOMEM s := by
  cases hloop : chooseLoop s.ms.areas req.mapLen (s.ms.areas.length + 1) s.ms.mmapStart with
  | error e =>
    obtain rfl := chooseLoop_eq_error hloop
    exact prepareMmap_of_error haddr hloop
  | ok found =>
    obtain ⟨hle, hhole⟩ := holeAt_of_chooseLoop htop hloop
    exact absurd hhole (hnone found hle)

/-- A request without an address fails for lack of address space only if the mapping window has no hole
of its length, exactly where not all such holes lie below `mmap_start`. No area has the last page of the
address space. -/
theorem noMem_iff_cursor (haddr : req.addr = none)
    (htop : ∀ a ∈ s.ms.areas, a.vpnRange.stop < 2 ^ 27) :
    (prepareMmap s req = .err .ENOMEM s →
      ∀ addr, mmapMinAddr ≤ addr → ¬ HoleAt s.ms.areas req.mapLen addr) ↔
    ∀ addr, mmapMinAddr ≤ addr → HoleAt s.ms.areas req.mapLen addr →
      ∃ above, s.ms.mmapStart ≤ above ∧ HoleAt s.ms.areas req.mapLen above := by
  constructor
  · intro honly addr hmin hhole
    by_contra hnone
    simp only [not_exists, not_and] at hnone
    exact honly (prepareMmap_eq_noMem haddr htop hnone) addr hmin hhole
  · intro hcursor hnomem addr hmin hhole
    obtain ⟨above, hle, habove⟩ := hcursor addr hmin hhole
    exact prepareMmap_ne_noMem haddr hle habove hnomem

end MemorySet

namespace Machine

def mapAnywhere (mapLen : Nat) (hpos : 0 < mapLen) : Label :=
  { sid := 0
    action := .op (.mmap ⟨none, mapLen, hpos, .rwu, false, false, false, false⟩ (.anonymous false)) }

/-- An area of the window's last page, two pages at its start of which one has been unmapped again. -/
def scattered : List Label :=
  [{ sid := 0, action := .op (.mmap ⟨some 0x21fffff000, 0x1000, pageSize_pos, .rwu, true, false, false,
      false⟩ (.anonymous false)) },
    mapAnywhere 0x2000 (by decide),
    { sid := 0, action := .op (.munmap mmapMinAddr 0x1000) }]

/-- The search passes the area at the window's end in vain, and no hole of that length is left. -/
theorem noMem_after_munmap : ∃ m, Run Init (fun _ _ ↦ True) Step m ∧ ∃ ms, m.spaces[0]? = some ms ∧
    ms.areas.map MapArea.vpnRange = [⟨0x2000001, 0x2000002⟩, ⟨0x21fffff, 0x2200000⟩] ∧
    ∀ addr, mmapMinAddr ≤ addr → ¬ MemorySet.HoleAt ms.areas 0x1ffffe000 addr := by
  have hplain : ∀ l ∈ scattered, Plain l := by simp [scattered, mapAnywhere, Plain]
  obtain ⟨m, hrun, ms, hms, hareas, hstart, hchoose⟩ : ∃ m, Run Init (fun _ _ ↦ True) Step m ∧
      ∃ ms, m.spaces[0]? = some ms ∧
        ms.areas.map MapArea.vpnRange = [⟨0x2000001, 0x2000002⟩, ⟨0x21fffff, 0x2200000⟩] ∧
        ms.mmapStart = 0x2000002000 ∧ ms.chooseMmapStart none 0x1ffffe000 = .error .ENOMEM := by
    refine exists_of_runLabels init_oneSpace hplain (fun _ _ _ ↦ trivial) ?_
    decide +kernel
  have hrange : ∀ a ∈ ms.areas,
      a.vpnRange = ⟨0x2000001, 0x2000002⟩ ∨ a.vpnRange = ⟨0x21fffff, 0x2200000⟩ := by
    intro a ha
    simpa [hareas] using mem_map_of_mem (f := MapArea.vpnRange) ha
  obtain ⟨a, ha, hlow⟩ : ∃ a ∈ ms.areas, a.vpnRange = ⟨0x2000001, 0x2000002⟩ := by
    rw [← mem_map, hareas]
    exact mem_cons_self
  refine ⟨m, hrun, ms, hms, hareas, (@noMem_iff_cursor ⟨ms, m.k⟩
    ⟨none, 0x1ffffe000, by decide, .rwu, false, false, false, false⟩ rfl ?_).mpr ?_ ?_⟩
  · intro a ha
    rcases hrange a ha with h | h <;> simp [h]
  · -- a hole below `mmap_start` would meet the lower area
    intro addr hmin hhole
    by_cases hle : ms.mmapStart ≤ addr
    · exact ⟨addr, hle, hhole⟩
    · have hbound : addr + 0x1ffffe000 ≤ mmapMaxAddr := hhole.1
      have hfree : a.vpnRange.intersectWith (byteRange addr (addr + 0x1ffffe000)) = false :=
        hhole.2 a ha
      rw [hlow, byteRange, virtAddr_of_le (by omega), virtAddr_of_le (by omega)] at hfree
      simp only [VPNRange.intersectWith_eq_false, floorVpn, ceilVpn, pageSize] at hfree
      rw [hstart] at hle
      clear hhole hareas hrange
      unfold mmapMinAddr mmapMaxAddr at *
      omega
  · exact prepareMmap_of_error rfl hchoose

/-- The mapping window but for its last page is mapped, and two pages at its start are unmapped: two pages
are not found again. -/
theorem hole_below_start : ∃ m, Run Init (fun _ _ ↦ True) Step m ∧ ∃ ms, m.spaces[0]? = some ms ∧
    MemorySet.HoleAt ms.areas 0x2000 mmapMinAddr ∧
    ∀ k, MemorySet.prepareMmap ⟨ms, k⟩ ⟨none, 0x2000, by decide, .rwu, false, false, false, false⟩ =
      .err .ENOMEM ⟨ms, k⟩ := by
  have hplain : ∀ l ∈ [mapAnywhere 0x1fffff000 (by decide),
      { sid := 0, action := .op (.munmap mmapMinAddr 0x2000) }], Plain l := by
    simp [mapAnywhere, Plain]
  obtain ⟨m, hrun, ms, hms, hareas, hstart⟩ : ∃ m, Run Init (fun _ _ ↦ True) Step m ∧
      ∃ ms, m.spaces[0]? = some ms ∧ ms.areas.map MapArea.vpnRange = [⟨0x2000002, 0x21fffff⟩] ∧
        ms.mmapStart = 0x21fffff000 := by
    refine exists_of_runLabels init_oneSpace hplain (fun _ _ _ ↦ trivial) ?_
    decide +kernel
  refine ⟨m, hrun, ms, hms, ⟨by decide, fun a ha ↦ ?_⟩, fun k ↦ ?_⟩
  · have hrange : a.vpnRange = ⟨0x2000002, 0x21fffff⟩ := by
      simpa [hareas] using mem_map_of_mem (f := MapArea.vpnRange) ha
    rw [hrange]
    decide
  · simp [prepareMmap, firstStart, chooseMmapStart,
      chooseLoop, checkedAdd, hstart, usizeSize, mmapMaxAddr]

end Machine

end RespOS.Mm
