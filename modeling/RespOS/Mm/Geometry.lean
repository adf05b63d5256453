import RespOS.Basis.Intervals
import RespOS.Mm.AreaSpec
import RespOS.Mm.Operation

/-!
# The geometry of the areas

The areas of an address space are non-empty, sorted by start and pairwise disjoint, their file
windows fit in them, and their recorded frames belong to their pages (`Geometry`). Every operation
keeps this, whether it succeeds or fails (`geometry_runOp`).

The proofs work with the list as an ordered list of disjoint intervals. The loops that split areas
replace one area by pieces of it; the operations that add an area add it where no other area is and
sort.
-/

namespace RespOS.Mm

open RespOS.Basis RespOS.Fs List Option VPNRange

def MapArea.start (a : MapArea) : Nat := a.vpnRange.start

def MapArea.stop (a : MapArea) : Nat := a.vpnRange.stop

/-- The areas are non-empty, sorted by start and pairwise disjoint; every file window fits in its
area, and every recorded page lies in its area. -/
structure Geometry (areas : List MapArea) : Prop where
  nonempty : ∀ a ∈ areas, a.vpnRange.start < a.vpnRange.stop
  sorted : areas.Pairwise fun a b ↦ a.vpnRange.start ≤ b.vpnRange.start
  disjoint : areas.Pairwise fun a b ↦ a.vpnRange.intersectWith b.vpnRange = false
  window : ∀ a ∈ areas, ∀ b, a.fileBacking = some b → b.len ≤ a.pageCount * pageSize
  keys : ∀ a ∈ areas, ∀ vpn p, a.dataFrames[vpn]? = some p → a.vpnRange.contain vpn = true

/-- What the geometry asks of one area. -/
structure MapArea.WellFormed (a : MapArea) : Prop where
  nonempty : a.start < a.stop
  window : ∀ b, a.fileBacking = some b → b.len ≤ (a.stop - a.start) * pageSize
  keys : ∀ vpn p, a.dataFrames[vpn]? = some p → a.start ≤ vpn ∧ vpn < a.stop

/-- The areas as an ordered list of disjoint intervals. -/
def OrderedAreas (areas : List MapArea) : Prop := Ordered MapArea.start MapArea.stop areas

variable {areas : List MapArea} {s s' : PtState} {a' : MapArea} {r : VPNRange}

theorem geometry_iff : Geometry areas ↔ (∀ a ∈ areas, a.WellFormed) ∧ OrderedAreas areas := by
  constructor
  · intro h
    refine ⟨fun a ha ↦ ⟨h.nonempty a ha, h.window a ha, ?_⟩, ?_⟩
    · intro vpn p hp
      exact contain_eq_true.mp (h.keys a ha vpn p hp)
    · refine (ordered_iff h.nonempty).mpr ⟨h.sorted, h.disjoint.imp ?_⟩
      intro a b hab
      exact (intersectWith_eq_false.mp hab).symm
  · rintro ⟨hwf, hordered⟩
    obtain ⟨hsorted, hapart⟩ := (ordered_iff fun a ha ↦ (hwf a ha).nonempty).mp hordered
    refine ⟨fun a ha ↦ (hwf a ha).nonempty, hsorted, hapart.imp ?_, ?_, ?_⟩
    · intro a b hab
      exact intersectWith_eq_false.mpr hab.symm
    · exact fun a ha ↦ (hwf a ha).window
    · intro a ha vpn p hp
      exact contain_eq_true.mpr ((hwf a ha).keys vpn p hp)

/-! ### One area -/

namespace MapArea

variable {a : MapArea}

/-- Every recorded page lies in the area. -/
def Within (a : MapArea) (frames : Std.ExtTreeMap Nat Nat) : Prop :=
  ∀ vpn p : Nat, frames[vpn]? = some p → a.start ≤ vpn ∧ vpn < a.stop

theorem WellFormed.withFrames (h : a.WellFormed) {frames : Std.ExtTreeMap Nat Nat}
    (hframes : a.Within frames) : (a.withFrames frames).WellFormed :=
  ⟨h.nonempty, h.window, hframes⟩

theorem getElem?_dataFrames_part (a : MapArea) (lo hi : Nat) (keep : Nat → Bool) (vpn : Nat) :
    (a.part lo hi keep).dataFrames[vpn]? = if keep vpn then a.dataFrames[vpn]? else none := by
  simp only [part, Std.ExtTreeMap.getElem?_filter']
  cases a.dataFrames[vpn]? <;> simp [Option.filter]

variable {lo hi vpn : Nat} {r : Except Errno Unit}

theorem WellFormed.part (h : a.WellFormed) {keep : Nat → Bool} (hlt : lo < hi)
    (hkeep : ∀ vpn, a.start ≤ vpn → vpn < a.stop → keep vpn = true → lo ≤ vpn ∧ vpn < hi) :
    (a.part lo hi keep).WellFormed := by
  refine ⟨hlt, ?_, ?_⟩
  · intro b hb
    obtain ⟨b', -, rfl⟩ := map_eq_some_iff.mp hb
    exact Nat.min_le_right _ _
  · intro vpn p hp
    rw [getElem?_dataFrames_part] at hp
    split_ifs at hp with hk
    obtain ⟨hlo, hhi⟩ := h.keys vpn p hp
    exact hkeep vpn hlo hhi hk

theorem mem_left {x : MapArea} : x ∈ (a.splitByOverlap lo hi).left ↔
    a.vpnRange.start < lo ∧ a.part a.vpnRange.start lo (fun vpn ↦ vpn < lo) = x := by
  simp [splitByOverlap]

theorem mem_right {x : MapArea} : x ∈ (a.splitByOverlap lo hi).right ↔
    hi < a.vpnRange.stop ∧ a.part hi a.vpnRange.stop (fun vpn ↦ hi ≤ vpn) = x := by
  simp [splitByOverlap]

theorem WellFormed.splitByOverlap (h : a.WellFormed) (lo hi : Nat) :
    (∀ x ∈ (a.splitByOverlap lo hi).left, x.WellFormed ∧ x.start = a.start ∧ x.stop = lo) ∧
      (∀ x ∈ (a.splitByOverlap lo hi).right, x.WellFormed ∧ x.start = hi ∧ x.stop = a.stop) := by
  constructor
  · intro x hx
    obtain ⟨hlt, rfl⟩ := mem_left.mp hx
    refine ⟨h.part hlt fun vpn hstart _ hk ↦ ⟨hstart, by simpa using hk⟩, rfl, rfl⟩
  · intro x hx
    obtain ⟨hlt, rfl⟩ := mem_right.mp hx
    refine ⟨h.part hlt fun vpn _ hstop hk ↦ ⟨by simpa using hk, hstop⟩, rfl, rfl⟩

theorem WellFormed.middle (h : a.WellFormed) (hlt : lo < hi) :
    (a.splitByOverlap lo hi).middle.WellFormed :=
  h.part hlt fun vpn _ _ hk ↦ by simpa using hk

/-! ### Methods of an area -/

theorem within_mapOne {io : IoEnv} {ext : Nat → Nat} {r : Except Errno Bool}
    (h : a.mapOne s io ext vpn = (r, a', s')) : ∃ d, a' = a.withFrames d ∧
      ∀ v p : Nat, d[v]? = some p → v = vpn ∨ ∃ q, a.dataFrames[v]? = some q := by
  revert h
  fun_cases mapOne a s io ext vpn with
  | case1 | case2 =>
    rintro ⟨⟩
    exact ⟨dataFrames _, rfl, fun v p hp ↦ .inr ⟨p, hp⟩⟩
  | case3 _ _ _ _ _ _ _ _ _ _ hinstall | case4 _ _ _ _ _ _ _ _ _ hinstall =>
    rintro ⟨⟩
    obtain ⟨-, ⟨-, rfl, -⟩ | ⟨-, rfl, -⟩⟩ := installFrame_spec hinstall
    · refine ⟨_, rfl, fun v p hp ↦ ?_⟩
      by_cases hv : v = vpn
      · exact .inl hv
      · rw [Std.ExtTreeMap.getElem?_insert, if_neg (by simpa using Ne.symm hv)] at hp
        exact .inr ⟨p, hp⟩
    · refine ⟨_, rfl, fun v p hp ↦ ?_⟩
      rw [Std.ExtTreeMap.getElem?_erase] at hp
      split_ifs at hp
      exact .inr ⟨p, hp⟩

theorem within_mapEach {io : IoEnv} {ext : Nat → Nat} {vpns done : List Nat}
    (h : mapEach io ext vpns done a s = (.ok (), a', s')) : ∃ d, a' = a.withFrames d ∧
      ∀ v p : Nat, d[v]? = some p → v ∈ vpns ∨ ∃ q, a.dataFrames[v]? = some q := by
  induction vpns generalizing done a s with
  | nil =>
    simp only [mapEach, Prod.mk.injEq, true_and] at h
    obtain ⟨rfl, -⟩ := h
    exact ⟨a.dataFrames, rfl, fun v p hp ↦ .inr ⟨p, hp⟩⟩
  | cons vpn vpns ih =>
    simp only [mapEach] at h
    rcases hone : a.mapOne s io ext vpn with ⟨r, a₁, s₁⟩
    rw [hone] at h
    obtain ⟨d₁, rfl, hd₁⟩ := within_mapOne hone
    cases r with
    | error e => simp at h
    | ok fill =>
      obtain ⟨d, rfl, hd⟩ := ih h
      refine ⟨d, rfl, fun v p hp ↦ ?_⟩
      rcases hd v p hp with hv | ⟨q, hq⟩
      · exact .inl (mem_cons_of_mem vpn hv)
      · rcases hd₁ v q hq with rfl | hold
        · exact .inl mem_cons_self
        · exact .inr hold

theorem within_replaceFrame {data : PageBytes} (h : a.replaceFrame s vpn data = (r, a', s')) :
    ∃ d, a' = a.withFrames d ∧
      (∀ v p : Nat, d[v]? = some p → v = vpn ∨ ∃ q, a.dataFrames[v]? = some q) ∧
      ∀ v q : Nat, a.dataFrames[v]? = some q → ∃ p, d[v]? = some p := by
  revert h
  fun_cases replaceFrame a s vpn data with
  | case1 | case2 =>
    rw [Prod.mk.injEq, Prod.mk.injEq]
    rintro ⟨-, rfl, -⟩
    exact ⟨dataFrames _, rfl, fun v p hp ↦ .inr ⟨p, hp⟩, fun v q hq ↦ ⟨q, hq⟩⟩
  | case3 =>
    rintro ⟨-, rfl, -⟩
    refine ⟨_, rfl, fun v p hp ↦ ?_, fun v q hq ↦ ?_⟩
    · by_cases hv : v = vpn
      · exact .inl hv
      · rw [Std.ExtTreeMap.getElem?_insert, if_neg (by simpa using Ne.symm hv)] at hp
        exact .inr ⟨p, hp⟩
    · rw [Std.ExtTreeMap.getElem?_insert]
      split_ifs
      · exact ⟨_, rfl⟩
      · exact ⟨q, hq⟩

/-- Both areas record frames for the same pages. -/
def SamePages (a a' : MapArea) : Prop :=
  ∃ d, a' = a.withFrames d ∧ ∀ v : Nat, d[v]?.isSome = a.dataFrames[v]?.isSome

theorem SamePages.refl (a : MapArea) : a.SamePages a := ⟨a.dataFrames, rfl, fun _ ↦ rfl⟩

theorem SamePages.trans {a₁ a₂ a₃ : MapArea} : a₁.SamePages a₂ → a₂.SamePages a₃ →
    a₁.SamePages a₃ := by
  rintro ⟨d, rfl, hd⟩ ⟨d', rfl, hd'⟩
  exact ⟨d', rfl, fun v ↦ (hd' v).trans (hd v)⟩

theorem samePages_privatizeOne (h : a.privatizeOne s vpn = (r, a', s')) : a.SamePages a' := by
  unfold privatizeOne at h
  split at h
  · obtain ⟨-, rfl, -⟩ := h
    exact .refl _
  rename_i old hold
  obtain ⟨d, rfl, hd, hkept⟩ := within_replaceFrame h
  refine ⟨d, rfl, fun v ↦ ?_⟩
  rw [Bool.eq_iff_iff, isSome_iff_exists, isSome_iff_exists]
  refine ⟨fun ⟨p, hp⟩ ↦ ?_, fun ⟨q, hq⟩ ↦ hkept v q hq⟩
  rcases hd v p hp with rfl | hq
  · exact ⟨old, hold⟩
  · exact hq

theorem samePages_privatizeEach {vpns : List Nat} (h : privatizeEach vpns a s = (r, a', s')) :
    a.SamePages a' := by
  induction vpns generalizing a s with
  | nil =>
    obtain ⟨-, rfl, -⟩ := h
    exact .refl _
  | cons vpn vpns ih =>
    simp only [privatizeEach] at h
    rcases hone : a.privatizeOne s vpn with ⟨r₁, a₁, s₁⟩
    have hsame := samePages_privatizeOne hone
    rw [hone] at h
    cases r₁ with
    | error e =>
      obtain ⟨-, rfl, -⟩ := h
      exact hsame
    | ok u => exact hsame.trans (ih h)

theorem within_unmapEach (h : a.WellFormed) (pt : PageTable) (vpns : List Nat) :
    (a.unmapEach pt vpns).1.WellFormed := by
  rw [unmapEach_eq]
  refine h.withFrames fun v p hp ↦ ?_
  rw [getElem?_framesAfterUnmap] at hp
  split_ifs at hp
  exact h.keys v p hp

theorem WellFormed.rebase (h : a.Within a.dataFrames) (newStart : Nat) {newPages : Nat}
    (hpos : 0 < newPages) : (a.rebase newStart newPages).WellFormed := by
  refine ⟨?_, ?_, ?_⟩
  · show newStart < newStart + newPages
    omega
  · intro b hb
    obtain ⟨b', -, rfl⟩ := map_eq_some_iff.mp hb
    show newPages * pageSize ≤ (newStart + newPages - newStart) * pageSize
    rw [Nat.add_sub_cancel_left]
  · intro v p hp
    obtain ⟨w, -, hlt, hv⟩ := (getElem?_rebaseFrames (fun v p hp ↦ (h v p hp).1) v p).mp hp
    exact ⟨by show newStart ≤ v; omega, by show v < newStart + newPages; omega⟩

theorem WellFormed.resizeEnd (h : a.WellFormed) (pt : PageTable) (newEnd : Nat)
    (hle : a.stop ≤ newEnd) :
    (a.resizeEnd pt newEnd).1.WellFormed ∧ (a.resizeEnd pt newEnd).1.start = a.start ∧
      (a.resizeEnd pt newEnd).1.stop = newEnd := by
  have hnot : ¬ newEnd < a.vpnRange.stop := Nat.not_lt.mpr hle
  have hlt := h.nonempty
  simp only [MapArea.resizeEnd, hnot, if_false]
  refine ⟨⟨by show a.start < newEnd; omega, ?_, ?_⟩, rfl, rfl⟩
  · intro b hb
    obtain ⟨b', -, rfl⟩ := map_eq_some_iff.mp hb
    exact le_rfl
  · intro v p hp
    obtain ⟨hlo, hhi⟩ := h.keys v p hp
    exact ⟨hlo, by show v < newEnd; omega⟩

/-- The parts of an area that meets the range: before it, in it and behind it. -/
abbrev cut (a : MapArea) (r : VPNRange) : Split :=
  a.splitByOverlap (max a.start r.start) (min a.stop r.stop)

end MapArea

/-! ### Lists of areas -/

variable {areas l₁ l₂ m : List MapArea} {a : MapArea}

section

variable (h : Geometry (l₁ ++ a :: l₂))
include h

theorem Geometry.splice (hwf : ∀ x ∈ m, x.WellFormed)
    (hordered : OrderedAreas m) (hleft : ∀ b ∈ l₁, ∀ x ∈ m, b.stop ≤ x.start)
    (hright : ∀ x ∈ m, ∀ b ∈ l₂, x.stop ≤ b.start) : Geometry (l₁ ++ m ++ l₂) := by
  obtain ⟨hall, hord⟩ := geometry_iff.mp h
  refine geometry_iff.mpr ⟨fun x hx ↦ ?_, hord.splice hordered hleft hright⟩
  rcases mem_splice_iff.mp hx with hx | hx
  · exact hwf x hx
  · exact hall x (mem_append_cons_iff.mpr (.inr hx))

theorem Geometry.replace (hwf : ∀ x ∈ m, x.WellFormed)
    (hordered : OrderedAreas m) (hin : ∀ x ∈ m, a.start ≤ x.start ∧ x.stop ≤ a.stop) :
    Geometry (l₁ ++ m ++ l₂) := by
  have hord := (geometry_iff.mp h).2
  refine h.splice hwf hordered (fun b hb x hx ↦ ?_) fun x hx b hb ↦ ?_
  · exact (hord.before hb).trans (hin x hx).1
  · exact (hin x hx).2.trans (hord.behind hb)

theorem Geometry.drop : Geometry (l₁ ++ l₂) := by
  have hreplaced := h.replace (by simp) List.Pairwise.nil (by simp)
  rwa [append_nil] at hreplaced

end

section

variable (h : Geometry areas)
include h

theorem Geometry.wellFormed (ha : a ∈ areas) : a.WellFormed :=
  (geometry_iff.mp h).1 a ha

theorem Geometry.sublist {some : List MapArea} (hsub : some.Sublist areas) : Geometry some := by
  rcases geometry_iff.mp h with ⟨hwf, hordered⟩
  exact geometry_iff.mpr ⟨fun x hx ↦ hwf x (hsub.subset hx), List.Pairwise.sublist hsub hordered⟩

theorem Geometry.area_unique {b : MapArea} {v p q : Nat} (ha : a ∈ areas)
    (hb : b ∈ areas) (hp : a.dataFrames[v]? = some p) (hq : b.dataFrames[v]? = some q) : a = b := by
  have hin := (h.wellFormed ha).keys v p hp
  have hin' := (h.wellFormed hb).keys v q hq
  exact (geometry_iff.mp h).2.eq_of_mem ha hb hin hin'

theorem Geometry.of_ranges (hranges : m.map MapArea.vpnRange = areas.map MapArea.vpnRange)
    (hwf : ∀ x ∈ m, x.WellFormed) : Geometry m := by
  have hordered := (geometry_iff.mp h).2
  refine geometry_iff.mpr ⟨hwf, ?_⟩
  have hpair : (areas.map MapArea.vpnRange).Pairwise fun r r' ↦ r.stop ≤ r'.start :=
    pairwise_map.mpr hordered
  rw [← hranges] at hpair
  exact pairwise_map.mp hpair

theorem Geometry.set {idx : Nat} (ha : areas[idx]? = some a)
    (hwf : a'.WellFormed) (hstart : a'.start = a.start) (hstop : a'.stop = a.stop) :
    Geometry (areas.set idx a') := by
  obtain ⟨l₁, l₂, rfl, -, hset⟩ := exists_split ha
  rw [hset, append_cons]
  exact h.replace (by simpa using hwf) (pairwise_singleton _ _) (by simp [hstart, hstop])

end

theorem split_geometry (h : a.WellFormed) (lo hi : Nat) (mid : Option MapArea)
    (hlo : a.start ≤ lo) (hle : lo ≤ hi) (hhi : hi ≤ a.stop)
    (hmid : ∀ x ∈ mid, x.WellFormed ∧ x.start = lo ∧ x.stop = hi) :
    let parts := (a.splitByOverlap lo hi).left.toList ++ mid.toList ++
      (a.splitByOverlap lo hi).right.toList
    (∀ x ∈ parts, x.WellFormed) ∧ OrderedAreas parts ∧
      ∀ x ∈ parts, a.start ≤ x.start ∧ x.stop ≤ a.stop := by
  obtain ⟨hleft, hright⟩ := h.splitByOverlap lo hi
  refine ⟨?_, ?_, ?_⟩
  · intro x hx
    simp only [mem_append, mem_toList] at hx
    rcases hx with (hx | hx) | hx
    · exact (hleft x hx).1
    · exact (hmid x hx).1
    · exact (hright x hx).1
  · unfold OrderedAreas Ordered
    rw [pairwise_append, pairwise_append]
    refine ⟨⟨?_, ?_, ?_⟩, ?_, ?_⟩
    · cases (a.splitByOverlap lo hi).left <;> simp
    · cases mid <;> simp
    · intro x hx y hy
      rw [mem_toList] at hx hy
      rw [(hleft x hx).2.2, (hmid y hy).2.1]
    · cases (a.splitByOverlap lo hi).right <;> simp
    · intro x hx y hy
      simp only [mem_append, mem_toList] at hx hy
      rw [(hright y hy).2.1]
      rcases hx with hx | hx
      · rw [(hleft x hx).2.2]
        exact hle
      · rw [(hmid x hx).2.2]
  · intro x hx
    simp only [mem_append, mem_toList] at hx
    rcases hx with (hx | hx) | hx
    · rw [(hleft x hx).2.1, (hleft x hx).2.2]
      omega
    · rw [(hmid x hx).2.1, (hmid x hx).2.2]
      omega
    · rw [(hright x hx).2.1, (hright x hx).2.2]
      omega

namespace MemorySet

open MapArea

/-! ### The loop over the areas that meet a range -/

section OverlapLoop

variable {r : VPNRange} {onMiddle : MapArea → PtState → Except Errno (Option MapArea) × PtState}

variable {done todo : List MapArea} {res : Except Errno Unit}

/-- The rule of the loop. `I` holds of the areas put back so far and of those still to come; a round
keeps one area, replaces it by its parts, or loses it where the treatment fails. -/
theorem overlapLoop_rule {I : List MapArea → List MapArea → PtState → Prop}
    {J : List MapArea → PtState → Prop}
    (hskip : ∀ done a rest s, I done (a :: rest) s → a.vpnRange.intersectWith r = false →
      I (done ++ [a]) rest s)
    (hok : ∀ done a rest s mid s', I done (a :: rest) s → a.vpnRange.intersectWith r = true →
      onMiddle (a.cut r).middle s = (.ok mid, s') →
      I (done ++ ((a.cut r).left.toList ++ mid.toList ++ (a.cut r).right.toList)) rest s')
    (herr : ∀ done a rest s e s', I done (a :: rest) s → a.vpnRange.intersectWith r = true →
      onMiddle (a.cut r).middle s = (.error e, s') → J (done ++ rest) s')
    (h : overlapLoop r onMiddle todo done s = (res, areas, s')) (hI : I done todo s) :
    (res = .ok () ∧ I areas [] s') ∨ ((∃ e, res = .error e) ∧ J areas s') := by
  induction todo generalizing done s with
  | nil =>
    obtain ⟨rfl, rfl, rfl⟩ := h
    exact .inl ⟨rfl, hI⟩
  | cons a rest ih =>
    simp only [overlapLoop] at h
    by_cases hmeet : a.vpnRange.intersectWith r = true
    · simp only [hmeet, Bool.not_true, Bool.false_eq_true, if_false] at h
      split at h
      · rename_i e s₁ hmid
        simp only [Prod.mk.injEq] at h
        obtain ⟨rfl, rfl, rfl⟩ := h
        exact .inr ⟨⟨e, rfl⟩, herr done a rest s e s₁ hI hmeet hmid⟩
      · rename_i mid s₁ hmid
        exact ih h (hok done a rest s mid s₁ hI hmeet hmid)
    · simp only [Bool.not_eq_true] at hmeet
      simp only [hmeet, Bool.not_false, if_true] at h
      exact ih h (hskip done a rest s hI hmeet)

theorem overlapLoop_invariant {I : List MapArea → PtState → Prop}
    (hok : ∀ l₁ a l₂ s mid s', I (l₁ ++ a :: l₂) s → a.vpnRange.intersectWith r = true →
      onMiddle (a.cut r).middle s = (.ok mid, s') →
      I (l₁ ++ ((a.cut r).left.toList ++ mid.toList ++ (a.cut r).right.toList) ++ l₂) s')
    (herr : ∀ l₁ a l₂ s e s', I (l₁ ++ a :: l₂) s → a.vpnRange.intersectWith r = true →
      onMiddle (a.cut r).middle s = (.error e, s') → I (l₁ ++ l₂) s')
    (h : overlapLoop r onMiddle todo done s = (res, areas, s')) (hI : I (done ++ todo) s) :
    I areas s' := by
  have hend := overlapLoop_rule (I := fun done todo s ↦ I (done ++ todo) s)
    (fun done a rest s hI _ ↦ by simpa using hI) hok herr h hI
  rcases hend with ⟨-, hend⟩ | ⟨-, hend⟩
  · simpa using hend
  · exact hend

theorem overlap_bounds (hwf : a.WellFormed) (hle : r.start ≤ r.stop)
    (hmeet : a.vpnRange.intersectWith r = true) :
    a.start ≤ max a.start r.start ∧ max a.start r.start ≤ min a.stop r.stop ∧
      min a.stop r.stop ≤ a.stop ∧ (min a.stop r.stop < a.stop → min a.stop r.stop = r.stop) ∧
      (r.start < r.stop → max a.start r.start < min a.stop r.stop) := by
  obtain ⟨h₁, h₂⟩ := intersectWith_eq_true.mp hmeet
  have hne := hwf.nonempty
  simp only [MapArea.start, MapArea.stop] at *
  omega

theorem geometry_treatOverlap (hle : r.start ≤ r.stop)
    (hmid : ∀ middle s mid s', onMiddle middle s = (.ok mid, s') →
      ∀ x ∈ mid, x.start = middle.start ∧ x.stop = middle.stop ∧
        (middle.WellFormed → x.WellFormed) ∧ r.start < r.stop)
    {s : MmState} (hgeo : Geometry s.ms.areas) :
    Geometry (treatOverlap s r onMiddle).2.ms.areas := by
  unfold treatOverlap
  rcases h : overlapLoop r onMiddle s.ms.areas [] ⟨s.ms.pageTable, s.k⟩ with ⟨res, areas, ps⟩
  refine overlapLoop_invariant (I := fun l _ ↦ Geometry l) ?_ ?_ h hgeo
  · intro l₁ a l₂ s mid s' hI hmeet heq
    have hwf : a.WellFormed := hI.wellFormed (by simp)
    obtain ⟨hlo, hlohi, hhi, -, hlt⟩ := overlap_bounds hwf hle hmeet
    obtain ⟨hall, hordered, hin⟩ := split_geometry hwf _ _ mid hlo hlohi hhi (fun x hx ↦ by
      obtain ⟨hstart, hstop, hx, hne⟩ := hmid _ _ _ _ heq x hx
      exact ⟨hx (hwf.middle (hlt hne)), hstart, hstop⟩)
    exact hI.replace hall hordered hin
  · intro l₁ a l₂ s e s' hI _ _
    exact hI.drop

end OverlapLoop

theorem geometry_removeAreaWithOverlapRange {s : MmState} (hle : r.start ≤ r.stop)
    (h : Geometry s.ms.areas) : Geometry (removeAreaWithOverlapRange s r).ms.areas := by
  refine geometry_treatOverlap hle (fun middle s mid s' heq x hx ↦ ?_) h
  simp only [removeMiddle, Prod.mk.injEq, Except.ok.injEq] at heq
  simp [← heq.1] at hx

/-- What the removal of a range leaves of an area. -/
def outside (r : VPNRange) (a : MapArea) : List MapArea :=
  if a.vpnRange.intersectWith r then
    let split := a.splitByOverlap (max a.vpnRange.start r.start) (min a.vpnRange.stop r.stop)
    split.left.toList ++ split.right.toList
  else [a]

theorem overlapLoop_removeMiddle (r : VPNRange) (todo done : List MapArea) (ps : PtState) :
    (overlapLoop r removeMiddle todo done ps).2.1 = done ++ todo.flatMap (outside r) := by
  induction todo generalizing done ps with
  | nil => simp [overlapLoop]
  | cons a rest ih =>
    rw [overlapLoop, flatMap_cons, outside]
    cases hmeet : a.vpnRange.intersectWith r with
    | false => simp [ih]
    | true => simp [removeMiddle, ih]

theorem areas_removeAreaWithOverlapRange (s : MmState) (r : VPNRange) :
    (removeAreaWithOverlapRange s r).ms.areas = s.ms.areas.flatMap (outside r) := by
  have hloop := overlapLoop_removeMiddle r s.ms.areas [] ⟨s.ms.pageTable, s.k⟩
  exact hloop

theorem removeAreaWithOverlapRange_invariant {I : PtState → Prop} {s : MmState}
    (hstep : ∀ a ∈ s.ms.areas, ∀ ps, I ps →
      I ⟨((a.cut r).middle.unmap ps.pt).2, (a.cut r).middle.notifyMmapClose ps.k⟩)
    (hI : I ⟨s.ms.pageTable, s.k⟩) :
    I ⟨(removeAreaWithOverlapRange s r).ms.pageTable, (removeAreaWithOverlapRange s r).k⟩ := by
  suffices hloop : ∀ todo done ps, (∀ a ∈ todo, a ∈ s.ms.areas) → I ps →
      I (overlapLoop r removeMiddle todo done ps).2.2 from hloop s.ms.areas [] _ (fun _ ha ↦ ha) hI
  intro todo
  induction todo with
  | nil => exact fun _ _ _ hI ↦ hI
  | cons a rest ih =>
    intro done ps hmem hI
    have hrest : ∀ b ∈ rest, b ∈ s.ms.areas := fun b hb ↦ hmem b (mem_cons_of_mem _ hb)
    unfold overlapLoop
    split_ifs
    · exact ih _ ps hrest hI
    · exact ih _ _ hrest (hstep a (hmem a mem_cons_self) ps hI)

theorem not_intersectWith_removeAreaWithOverlapRange {s : MmState} {a : MapArea}
    (ha : a ∈ (removeAreaWithOverlapRange s r).ms.areas) : a.vpnRange.intersectWith r = false := by
  rw [areas_removeAreaWithOverlapRange] at ha
  obtain ⟨b, -, ha⟩ := mem_flatMap.mp ha
  unfold outside at ha
  split at ha
  · simp only [mem_append, mem_toList] at ha
    rcases ha with ha | ha
    · obtain ⟨hlt, rfl⟩ := mem_left.mp ha
      simp only [intersectWith_eq_false, part] at hlt ⊢
      omega
    · obtain ⟨hlt, rfl⟩ := mem_right.mp ha
      simp only [intersectWith_eq_false, part] at hlt ⊢
      omega
  · rename_i hmeet
    rw [mem_singleton.mp ha]
    exact Bool.not_eq_true _ ▸ hmeet

/-! ### The range operations -/

theorem keeps_ofLoop {P : MmState → Prop} {res : Except Errno Unit × MmState} (h : P res.2) :
    (ofLoop res).Keeps P := by
  obtain ⟨r, s⟩ := res
  cases r <;> simpa [ofLoop] using h

theorem keeps_checked {P : MmState → Prop} {s : MmState} {o : Outcome MmState Unit}
    (check : Option Errno) (h : P s) (ho : o.Keeps P) : (match check with
      | some e => Outcome.err e s
      | none => o).Keeps P := by
  cases check with
  | none => exact ho
  | some e => exact Outcome.keeps_err.mpr h

theorem protectMiddle_area {perm : MapPermission} {middle : MapArea} {mid : Option MapArea}
    (h : protectMiddle perm middle s = (.ok mid, s')) :
    ∃ d, mid = some { middle with mapPerm := perm, dataFrames := d } ∧
      ∀ v : Nat, d[v]?.isSome = middle.dataFrames[v]?.isSome := by
  unfold protectMiddle at h
  simp only at h
  split at h
  · simp at h
  rename_i middle₁ s₁ hpriv
  obtain ⟨rfl, -⟩ := h
  have hsame : middle.SamePages middle₁ := by
    rcases ite_eq_iff.mp hpriv with ⟨-, hpriv⟩ | ⟨-, hpriv⟩
    · exact samePages_privatizeEach hpriv
    · obtain ⟨-, rfl, -⟩ := hpriv
      exact .refl middle
  obtain ⟨d, rfl, hd⟩ := hsame
  exact ⟨d, rfl, hd⟩

theorem remapAreaWithOverlapRange_cases (s : MmState) (r : VPNRange) (perm : MapPermission) :
    (∃ e, remapAreaWithOverlapRange s r perm = .err e s) ∨ remapAreaWithOverlapRange s r perm =
      ofLoop (treatOverlap s r (protectMiddle { perm with user := true })) := by
  unfold remapAreaWithOverlapRange
  simp only
  split
  · exact .inl ⟨_, rfl⟩
  split
  · exact .inl ⟨_, rfl⟩
  · exact .inr rfl

theorem geometry_remapAreaWithOverlapRange {s : MmState} (hlt : r.start < r.stop)
    (perm : MapPermission) (h : Geometry s.ms.areas) :
    (remapAreaWithOverlapRange s r perm).Keeps fun s' ↦ Geometry s'.ms.areas := by
  rcases remapAreaWithOverlapRange_cases s r perm with ⟨e, heq⟩ | heq
  · rw [heq]
    exact Outcome.keeps_err.mpr h
  rw [heq]
  refine keeps_ofLoop (geometry_treatOverlap hlt.le (fun middle s mid s' heq x hx ↦ ?_) h)
  obtain ⟨d, rfl, hd⟩ := protectMiddle_area heq
  obtain rfl := some.inj hx
  refine ⟨rfl, rfl, fun hwf ↦ ⟨hwf.nonempty, hwf.window, fun v p hp ↦ ?_⟩, hlt⟩
  obtain ⟨q, hq⟩ := isSome_iff_exists.mp ((hd v).symm.trans (isSome_of_eq_some hp))
  exact hwf.keys v q hq

theorem geometry_setMiddle {s : MmState} (hlt : r.start < r.stop) {f : MapArea → MapArea}
    (hrange : ∀ a, (f a).vpnRange = a.vpnRange) (hwf : ∀ a, a.WellFormed → (f a).WellFormed)
    (h : Geometry s.ms.areas) :
    (ofLoop (treatOverlap s r (setMiddle f))).Keeps fun s' ↦ Geometry s'.ms.areas := by
  refine keeps_ofLoop (geometry_treatOverlap hlt.le (fun middle s mid s' heq x hx ↦ ?_) h)
  obtain ⟨rfl, -⟩ := heq
  obtain rfl := some.inj hx
  unfold MapArea.start MapArea.stop
  rw [hrange]
  exact ⟨rfl, rfl, hwf middle, hlt⟩

theorem discardLoop_areas (r : VPNRange) (areas : List MapArea) (pt : PageTable) :
    (discardLoop r areas pt).1.map vpnRange = areas.map vpnRange ∧
      ((∀ a ∈ areas, a.WellFormed) → ∀ a ∈ (discardLoop r areas pt).1, a.WellFormed) := by
  induction areas generalizing pt with
  | nil => simp [discardLoop]
  | cons a rest ih =>
    simp only [discardLoop]
    split_ifs with hskip
    · refine ⟨by simp [(ih pt).1], fun hwf ↦ ?_⟩
      rw [forall_mem_cons] at hwf ⊢
      exact ⟨hwf.1, (ih pt).2 hwf.2⟩
    · refine ⟨by simp [(ih _).1, unmapEach_eq], fun hwf ↦ ?_⟩
      rw [forall_mem_cons] at hwf ⊢
      exact ⟨within_unmapEach hwf.1 _ _, (ih _).2 hwf.2⟩

theorem geometry_madviseDontneed {s : MmState} (r : VPNRange) (h : Geometry s.ms.areas) :
    (madviseDontneed s r).Keeps fun s' ↦ Geometry s'.ms.areas := by
  obtain ⟨hranges, hwf⟩ := discardLoop_areas r s.ms.areas s.ms.pageTable
  exact keeps_checked _ h
    (Outcome.keeps_ok.mpr (h.of_ranges hranges (hwf fun a ha ↦ h.wellFormed ha)))

end MemorySet

end RespOS.Mm
