import RespOS.Mm.MachineStep

/-!
# Resident pages and the page table

The walk of `PageTable::translate` stops at an entry that is readable or executable, so it does not
see a resident page whose entry permits nothing. `fork` unwraps the entry of every resident page of the
parent, and `debug_check_invariants` expects one.

An entry without access comes from `mprotect` to no access over a resident page, from `mprotect` to
write-only over a resident page of a shared file mapping, whose entry loses WRITE again, and from a
shared mapping without access, which is populated at once. In the runs whose steps do none of this
(`GivesAccess`) every resident page is seen, with its frame (`residency_of_run`).
`fork_panics_after_mprotect` is the shortest run that breaks it.
-/

namespace RespOS.Mm

open RespOS.Basis RespOS.Fs MapArea List PageTableEntry MemorySet

/-! ### `debug_check_invariants` -/

/-- The assertions of `debug_check_invariants`. -/
inductive CheckFailure
  | emptyVma
  | overlappingVmas
  | windowOverflow
  | windowTooLong
  | frameOutsideVma
  | frameWithoutPte
  | invalidPte
  | userBit
  | readBit
  | executeBit
  | sharedCow
  | writableCow
  | writeBit
  deriving DecidableEq, Repr

variable {a : MapArea} {ppn v p : Nat} {perm : MapPermission} {s s' : MmState}

namespace MemorySet

/-- The assertions about an area and the area before it. -/
def checkBounds (previousEnd : Option Nat) (a : MapArea) : Option CheckFailure :=
  if !(a.vpnRange.start < a.vpnRange.stop) then some .emptyVma
  else if previousEnd.any fun stop ↦ a.vpnRange.start < stop then some .overlappingVmas
  else
    match a.fileBacking with
    | none => none
    | some b =>
      if checkedAdd b.offset b.len = none then some .windowOverflow
      else if a.pageCount * pageSize < b.len then some .windowTooLong
      else none

/-- The assertions about one resident page. -/
def checkFrame (a : MapArea) (pt : PageTable) (vpn : Nat) : Option CheckFailure :=
  if !a.vpnRange.contain vpn then some .frameOutsideVma
  else
    match pt.translate vpn with
    | none => some .frameWithoutPte
    | some pte =>
      if !pte.isValid then some .invalidPte
      else if a.mapPerm.user && !pte.flags.user then some .userBit
      else if a.mapPerm.read && !pte.flags.read then some .readBit
      else if a.mapPerm.execute && !pte.flags.execute then some .executeBit
      else if a.shared && pte.isCow then some .sharedCow
      else if pte.isCow && pte.flags.write then some .writableCow
      else if !pte.isCow && !(a.shared && a.fileBacking.isSome && a.mapPerm.write &&
          !pte.flags.write) && pte.flags.write != a.mapPerm.write then some .writeBit
      else none

/-- The loop of `debug_check_invariants` over the areas. -/
def checkAreas (pt : PageTable) : Option Nat → List MapArea → Option CheckFailure
  | _, [] => none
  | previousEnd, a :: rest =>
    (checkBounds previousEnd a).or ((a.dataFrames.keys.findSome? (checkFrame a pt)).or
      (checkAreas pt (some a.vpnRange.stop) rest))

/-- `debug_check_invariants`: the first assertion that fails. -/
def debugCheckInvariants (ms : MemorySet) : Option CheckFailure :=
  checkAreas ms.pageTable none ms.areas

theorem checkBounds_ne (previousEnd : Option Nat) (a : MapArea) :
    checkBounds previousEnd a ≠ some .frameWithoutPte := by
  unfold checkBounds
  split_ifs
  · simp
  · simp
  · split
    · simp
    · split_ifs <;> simp

theorem translate_of_checkFrame {pt : PageTable} {vpn : Nat}
    (h : checkFrame a pt vpn = some .frameWithoutPte) : pt.translate vpn = none := by
  unfold checkFrame at h
  split_ifs at h
  · simp at h
  · split at h
    · assumption
    · split_ifs at h <;> simp at h

theorem translate_of_debugCheckInvariants {ms : MemorySet}
    (h : ms.debugCheckInvariants = some .frameWithoutPte) :
    ∃ a ∈ ms.areas, ∃ v p : Nat, a.dataFrames[v]? = some p ∧ ms.pageTable.translate v = none := by
  have hloop : ∀ (areas : List MapArea) (previousEnd : Option Nat),
      checkAreas ms.pageTable previousEnd areas = some .frameWithoutPte →
      ∃ a ∈ areas, ∃ v p : Nat, a.dataFrames[v]? = some p ∧ ms.pageTable.translate v = none := by
    intro areas
    induction areas with
    | nil => simp [checkAreas]
    | cons a rest ih =>
      intro previousEnd hcheck
      simp only [checkAreas, Option.or_eq_some_iff] at hcheck
      rcases hcheck with hbounds | ⟨-, hframe | ⟨-, hrest⟩⟩
      · exact absurd hbounds (checkBounds_ne previousEnd a)
      · obtain ⟨v, hv, hnone⟩ := exists_of_findSome?_eq_some hframe
        obtain ⟨p, hp⟩ := mem_keys_iff.mp hv
        exact ⟨a, mem_cons_self, v, p, hp, translate_of_checkFrame hnone⟩
      · obtain ⟨b, hb, hrec⟩ := ih _ hrest
        exact ⟨b, mem_cons_of_mem a hb, hrec⟩
  exact hloop ms.areas none h

end MemorySet

/-! ### Entries that show their area -/

/-- The entry of a resident page is seen by the walk and grants what the area permits, but for
writing. -/
structure Shows (a : MapArea) (e : PageTableEntry) : Prop where
  accessible : a.mapPerm.accessible = true
  visible : e.visible = true
  read : a.mapPerm.read = true → e.readable = true
  execute : a.mapPerm.execute = true → e.executable = true

/-- The step gives every resident page some access. -/
def GivesAccess (m : Machine) (l : Label) : Prop :=
  match l.action with
  | .op (.mmap req source) => source.shared = true → req.mapPerm.accessible = true
  | .op (.mprotect r perm) => ∀ a v p, m.Records l.sid a v p → r.start ≤ v → v < r.stop →
      (residentPerm a perm).accessible = true
  | _ => True

section Shows

variable {a a' : MapArea} {e e' : PageTableEntry} {perm : MapPermission}

theorem Shows.congr (h : Shows a e) (hperm : a'.mapPerm = a.mapPerm) : Shows a' e :=
  ⟨hperm ▸ h.accessible, h.visible, hperm ▸ h.read, hperm ▸ h.execute⟩

section

variable (haccess : a.mapPerm.accessible = true)
include haccess

theorem shows_of_flags (hvalid : e.flags.valid = true)
    (hread : e.flags.read = (a.mapPerm.read || a.mapPerm.write))
    (hexecute : e.flags.execute = a.mapPerm.execute) : Shows a e := by
  refine ⟨haccess, ?_, fun h ↦ ?_, fun h ↦ hexecute.trans h⟩
  · simp only [visible, isValid, readable,
      executable, hvalid, hread, hexecute, Bool.true_and]
    exact haccess
  · simp [readable, hread, h]

theorem shows_ofPerm : Shows a ⟨ppn, (PTEFlags.ofPerm a.mapPerm).mapped⟩ :=
  shows_of_flags haccess rfl rfl rfl

theorem shows_pageFlags {cow : Bool} : Shows a ⟨ppn, a.pageFlags cow⟩ := by
  refine shows_of_flags haccess rfl ?_ ?_ <;>
  · simp only [pageFlags, installFlags]
    split_ifs <;> rfl

end

theorem accessible_of_write (hwrite : perm.write = true) : perm.accessible = true := by
  simp [MapPermission.accessible, hwrite]

theorem accessible_of_residentPerm (h : (residentPerm a perm).accessible = true) :
    perm.accessible = true := by
  unfold residentPerm at h
  split_ifs at h
  · simp only [MapPermission.accessible, Bool.or_false] at h ⊢
    simp only [Bool.or_eq_true] at h ⊢
    tauto
  · exact h

theorem shows_protectFlags (haccess : (residentPerm a perm).accessible = true)
    (hperm : a'.mapPerm = { perm with user := true }) :
    Shows a' ⟨ppn, protectFlags (residentPerm a { perm with user := true }) e⟩ := by
  have hflags : ∀ rp : MapPermission, (protectFlags rp e).valid = true ∧
      (protectFlags rp e).read = (rp.read || rp.write) ∧
      (protectFlags rp e).execute = rp.execute := by
    intro rp
    unfold protectFlags
    split_ifs <;> exact ⟨rfl, rfl, rfl⟩
  obtain ⟨hvalid, hread, hexecute⟩ := hflags (residentPerm a { perm with user := true })
  have hresident : (residentPerm a { perm with user := true }).read = perm.read ∧
      (residentPerm a { perm with user := true }).execute = perm.execute ∧
      (residentPerm a { perm with user := true }).accessible = true := by
    unfold residentPerm at haccess ⊢
    split_ifs at haccess ⊢ <;> exact ⟨rfl, rfl, haccess⟩
  obtain ⟨hrp, hxp, haccess'⟩ := hresident
  have hshows := shows_of_flags (e := ⟨ppn, _⟩)
    (a := { a' with mapPerm := residentPerm a { perm with user := true } }) haccess' hvalid hread hexecute
  refine ⟨?_, hshows.visible, fun h ↦ hshows.read ?_, fun h ↦ hshows.execute ?_⟩
  · rw [hperm]
    exact (accessible_of_residentPerm haccess : perm.accessible = true)
  · rw [hperm] at h
    exact hrp.trans h
  · rw [hperm] at h
    exact hxp.trans h

theorem shows_of_kept_flags (h : Shows a e) (hperm : a'.mapPerm = a.mapPerm)
    (hvalid : e'.flags.valid = true) (hread : e'.flags.read = e.flags.read)
    (hexecute : e'.flags.execute = e.flags.execute) : Shows a' e' := by
  refine ⟨hperm ▸ h.accessible, ?_, fun hr ↦ ?_, fun hx ↦ ?_⟩
  · have hvisible := h.visible
    simp only [visible, isValid, readable, executable, Bool.and_eq_true] at hvisible ⊢
    rw [hvalid, hread, hexecute]
    exact ⟨rfl, hvisible.2⟩
  · exact hread.trans (h.read (hperm ▸ hr))
  · exact hexecute.trans (h.execute (hperm ▸ hx))

end Shows

namespace MemorySet

/-- A loop whose treatment keeps the resident pages of its part, and gives the part the new
permission, does so for the whole range. -/
theorem overlapLoop_recorded {r : VPNRange} {areas areas' : List MapArea} {ps ps' : PtState}
    (hwf : ∀ a ∈ areas, a.WellFormed)
    (h : overlapLoop r (protectMiddle perm) areas [] ps = (.ok (), areas', ps')) (ha : a ∈ areas)
    (hp : a.dataFrames[v]? = some p) (hlo : r.start ≤ v) (hhi : v < r.stop) :
    ∃ a' ∈ areas', a'.mapPerm = perm ∧ ∃ p', a'.dataFrames[v]? = some p' := by
  obtain ⟨hstart, hstop⟩ := (hwf a ha).keys v p hp
  simp only [start, stop] at hstart hstop
  -- the area is still to come, or its page is in an area put back
  have hend := overlapLoop_rule (I := fun done todo _ ↦ a ∈ todo ∨
      ∃ a' ∈ done, a'.mapPerm = perm ∧ ∃ p', a'.dataFrames[v]? = some p') (J := fun _ _ ↦ True)
    ?_ ?_ (fun _ _ _ _ _ _ _ _ _ ↦ trivial) h (.inl ha)
  · simpa using hend
  · rintro done b rest s (hb | ⟨a', ha', hnew⟩) hmeet
    · rcases mem_cons.mp hb with rfl | hb
      · rw [VPNRange.intersectWith_eq_false] at hmeet
        omega
      · exact .inl hb
    · exact .inr ⟨a', mem_append_left _ ha', hnew⟩
  · rintro done b rest s mid s' (hb | ⟨a', ha', hnew⟩) - heq
    · rcases mem_cons.mp hb with rfl | hb
      · -- the page lies in the middle part, which the treatment keeps
        obtain ⟨d, rfl, hkept⟩ := protectMiddle_area heq
        have hmiddle : (a.cut r).middle.dataFrames[v]? = some p := by
          rcases dataFrames_splitByOverlap (hwf a ha) (max a.vpnRange.start r.start)
            (min a.vpnRange.stop r.stop) hp with ⟨x, -, -, hlt⟩ | hframe | ⟨x, -, -, hge⟩
          · omega
          · exact hframe
          · omega
        exact .inr ⟨{ (a.cut r).middle with mapPerm := perm, dataFrames := d }, by simp, rfl,
          Option.isSome_iff_exists.mp ((hkept v).trans (Option.isSome_of_eq_some hmiddle))⟩
      · exact .inl hb
    · exact .inr ⟨a', mem_append_left _ ha', hnew⟩

theorem recorded_remapAreaWithOverlapRange {r : VPNRange} (hgeo : Geometry s.ms.areas)
    (h : remapAreaWithOverlapRange s r perm = .ok () s') (ha : a ∈ s.ms.areas)
    (hrec : a.dataFrames[v]? = some p) (hlo : r.start ≤ v) (hhi : v < r.stop) :
    ∃ a' ∈ s'.ms.areas, a'.mapPerm = { perm with user := true } ∧
      ∃ p', a'.dataFrames[v]? = some p' := by
  rcases remapAreaWithOverlapRange_cases s r perm with ⟨e, heq⟩ | heq
  · simp [heq] at h
  rw [heq] at h
  rcases hloop : overlapLoop r (protectMiddle { perm with user := true }) s.ms.areas []
    ⟨s.ms.pageTable, s.k⟩ with ⟨res, areas', ps⟩
  simp only [treatOverlap, hloop, ofLoop] at h
  cases res with
  | error e => simp at h
  | ok u =>
    simp only [Outcome.ok.injEq, true_and] at h
    obtain ⟨a', ha', hperm, hrec'⟩ :=
      overlapLoop_recorded (fun b hb ↦ hgeo.wellFormed hb) hloop ha hrec hlo hhi
    rw [← h]
    exact ⟨a', ha', hperm, hrec'⟩

end MemorySet

/-! ### One step -/

theorem PageOrigin.shows {env : OpEnv} {op : Op} {a' : MapArea} (h : PageOrigin env op s s' a' v p)
    (hold : ∀ a ∈ s.ms.areas, ∀ v p : Nat, a.dataFrames[v]? = some p →
      Shows a (s.ms.pageTable.entry v))
    (hmmap : ∀ req source, op = .mmap req source → source.shared = true →
      req.mapPerm.accessible = true)
    (hprotect : ∀ r perm, op = .mprotect r perm → ∀ a ∈ s.ms.areas, ∀ v p : Nat,
      a.dataFrames[v]? = some p → r.start ≤ v → v < r.stop →
        (residentPerm a perm).accessible = true) : Shows a' (s'.ms.pageTable.entry v) := by
  cases h with
  | kept ha _ hrec hperm hentry =>
    rw [hentry]
    exact (hold _ ha v p hrec).congr hperm
  | protect hop ha _ hrec hv hperm _ hentry =>
    rw [hentry, if_pos (hold _ ha v p hrec).visible]
    exact shows_protectFlags (hprotect _ _ hop _ ha v p hrec hv.1 hv.2) hperm
  | @copied a r perm old _ ha _ hrec _ hperm _ _ hread hwrite _ _ hentry =>
    -- the area permitted something before, and not writing
    have haccess := (hold _ ha v old hrec).accessible
    have hseen : (a.mapPerm.read || a.mapPerm.execute) = true := by
      simpa [MapPermission.accessible, hread] using haccess
    rw [hentry, if_pos hseen]
    have hwrite' : a'.mapPerm.write = true := by
      rw [hperm]
      exact hwrite
    rw [← hperm]
    exact shows_ofPerm (accessible_of_write hwrite')
  | resolved _ _ _ _ hperm _ _ hwrite _ hentry | replaced _ _ _ _ hperm _ hwrite _ _ hentry
  | opened _ _ _ _ hperm _ hwrite hentry =>
    rw [hentry, ← hperm]
    exact shows_ofPerm (accessible_of_write (hperm ▸ hwrite))
  | filled _ _ _ hperm haccess _ _ hentry =>
    rw [hentry]
    exact shows_pageFlags (hperm ▸ haccess)
  | moved _ ha _ hrec hperm hentry =>
    rw [hentry, ← hperm]
    exact shows_ofPerm (hperm ▸ (hold _ ha _ p hrec).accessible)
  | anonymous hop hby _ hentry | segment hop hby _ hentry =>
    rw [hentry, ← hby.mapPerm]
    exact shows_ofPerm (hby.mapPerm ▸ hmmap _ _ hop rfl)
  | file hop hby _ _ hentry =>
    rw [hentry, ← hby.mapPerm]
    exact shows_of_flags (hby.mapPerm ▸ hmmap _ _ hop rfl) rfl rfl rfl

namespace Machine

variable {m m' : Machine} {l : Label} {i v p : Nat} {a : MapArea}

/-- Every resident page shows its area. -/
def Resident (m : Machine) : Prop := ∀ i a v p, m.Records i a v p → Shows a (m.pte i v)

theorem Advance.resident (h : m.Advance l m') (hinv : m.Inv) (hold : m.Resident)
    (hok : GivesAccess m l) : m'.Resident := by
  intro i a v p hrec
  cases h.origin hinv hrec with
  | same hrec hpte =>
    rw [hpte]
    exact hold i a v p hrec
  | @changed op ms s haction hi hms heffect hk hspaces hsegment hmem hrec' horigin =>
    rw [hi, pte_of_set hms hspaces]
    refine horigin.shows (fun b hb w q hq ↦ ?_) (fun req source hop hshared ↦ ?_)
      fun r perm hop b hb w q hq hlo hhi ↦ ?_
    · rw [← pte_eq hms]
      exact hold l.sid b w q ⟨ms, hms, hb, hq⟩
    · subst hop
      simp only [GivesAccess, haction] at hok
      exact hok hshared
    · subst hop
      simp only [GivesAccess, haction] at hok
      exact hok b w q ⟨ms, hms, hb, hq⟩ hlo hhi
  | marked _ _ hrec hcow hpte =>
    rw [hpte, parentEntry, if_pos hcow]
    exact shows_of_kept_flags (hold i a v p hrec) rfl rfl rfl rfl
  | inherited _ _ _ hrec ha' _ hchild _ =>
    rw [hchild, childEntry]
    have hperm : a.mapPerm = _ := congrArg mapPerm ha'
    split_ifs <;> exact shows_of_kept_flags (hold _ _ v p hrec) hperm rfl rfl rfl

theorem resident_of_run (h : Run Init GivesAccess Step m) : m.Resident := by
  exact invariant_of_advance (fun m hm i a v p hrec ↦ absurd hrec hm.not_records)
    (fun m l _ _ hm ↦ hm) (fun m l m' hinv hok hm hadv ↦ hadv.resident hinv hm hok) h

theorem translate_of_shows {ms : MemorySet} (h : Shows a (ms.pageTable.entry v)) :
    ms.pageTable.translate v = some (ms.pageTable.entry v) := by
  rw [PageTable.translate_eq, if_pos h.visible]

theorem mem_of_mprotect {env : OpEnv} {r : UserRange} {a' : MapArea} {p' : Nat}
    (hsound : s.ms.Sound s.k) (heffect : Effect env (.mprotect r perm) s s') (ha : a ∈ s.ms.areas)
    (hrec : a.dataFrames[v]? = some p) (horigin : PageOrigin env (.mprotect r perm) s s' a' v p') :
    s'.k.phys.mem p' = s.k.phys.mem p := by
  obtain ⟨-, n, hev⟩ := heffect.obtains
  have hsame : ∀ b ∈ s.ms.areas, ∀ q : Nat, b.dataFrames[v]? = some q → q = p := by
    intro b hb q hq
    have hvalid := (hsound.valid a ha v p hrec).2
    rw [(hsound.valid b hb v q hq).2] at hvalid
    exact hvalid
  cases horigin with
  | kept hb _ hrec' | protect _ hb _ hrec' =>
    obtain rfl := hsame _ hb _ hrec'
    exact hev.mem_eq (hsound.owned _ hb v _ hrec')
  | copied _ hb _ hrec' _ _ _ _ _ _ _ hmem =>
    rw [hmem, hsame _ hb _ hrec']
  | resolved hop | replaced hop | opened hop | filled hop | moved hop | anonymous hop
  | segment hop | file hop => simp at hop

/-- In every run whose steps give each resident page some access, the walk sees every resident page,
with its frame. So `debug_check_invariants` and `fork` find every entry they expect, and an `mprotect`
that succeeds leaves the pages of its range with the same bytes and the access of the new
permission. -/
theorem residency_of_run (hrun : Run Init GivesAccess Step m) :
    (∀ i a v p, m.Records i a v p → ∃ ms pte, m.spaces[i]? = some ms ∧
      ms.pageTable.translate v = some pte ∧ pte.isValid = true ∧ pte.ppn = p) ∧
    (∀ ms ∈ m.spaces, ms.debugCheckInvariants ≠ some .frameWithoutPte) ∧
    (∀ l ms, m.Admissible l → m.spaces[l.sid]? = some ms →
      MemorySet.fromExistedUser ⟨ms, (m.settle l).k⟩ ≠ .panic) ∧
    ∀ l ms r perm s', m.Admissible l → l.action = .op (.mprotect r perm) → GivesAccess m l →
      m.spaces[l.sid]? = some ms →
      runOp ⟨(m.settle l).others l.sid, l.io⟩ ⟨ms, (m.settle l).k⟩ (.mprotect r perm) = .ok () s' →
      ∀ a v p, m.Records l.sid a v p → r.start ≤ v → v < r.stop →
        ∃ a' ∈ s'.ms.areas, ∃ p' pte, a'.dataFrames[v]? = some p' ∧
          s'.ms.pageTable.translate v = some pte ∧ pte.ppn = p' ∧
          s'.k.phys.mem p' = m.k.phys.mem p ∧
          (perm.read = true → pte.readable = true) ∧
          (perm.execute = true → pte.executable = true) := by
  have hinv := inv_of_reachable hrun
  have hresident := resident_of_run hrun
  have hshows : ∀ (i : Nat) (ms : MemorySet), m.spaces[i]? = some ms → ∀ a ∈ ms.areas, ∀ v p : Nat,
      a.dataFrames[v]? = some p → Shows a (ms.pageTable.entry v) := by
    intro i ms hms a ha v p hp
    rw [← pte_eq hms]
    exact hresident i a v p ⟨ms, hms, ha, hp⟩
  refine ⟨?_, ?_, ?_, ?_⟩
  · rintro i a v p ⟨ms, hms, ha, hp⟩
    obtain ⟨hvalid, hppn⟩ := (hinv.sound ms (mem_of_getElem? hms)).valid a ha v p hp
    exact ⟨ms, _, hms, translate_of_shows (hshows i ms hms a ha v p hp), hvalid, hppn⟩
  · intro ms hms hcheck
    obtain ⟨i, hi⟩ := mem_iff_getElem?.mp hms
    obtain ⟨a, ha, v, p, hp, hnone⟩ := translate_of_debugCheckInvariants hcheck
    rw [translate_of_shows (hshows i ms hi a ha v p hp)] at hnone
    simp at hnone
  · intro l ms hadm hms
    have hsettled := hinv.settle hadm
    exact fork_ne_panic (hsettled.sound ms (mem_of_getElem? hms)).geometry
      hsettled.kernel fun a ha v p hp ↦ (hshows l.sid ms hms a ha v p hp).visible
  · intro l ms r perm s' hadm haction hok hms hs' a v p hrec hlo hhi
    have hsettled := hinv.settle hadm
    have hsound := hsettled.sound ms (mem_of_getElem? hms)
    obtain ⟨ms', hms', ha, hp⟩ := hrec
    obtain rfl := Option.some.inj (hms.symm.trans hms')
    have heffect : Effect ⟨(m.settle l).others l.sid, l.io⟩ (.mprotect r perm)
        ⟨ms, (m.settle l).k⟩ s' := by
      have hkeeps := effect_runOp ⟨(m.settle l).others l.sid, l.io⟩ (.mprotect r perm)
        (s := ⟨ms, (m.settle l).k⟩) hsound hsettled.kernel trivial
      rw [hs'] at hkeeps
      exact hkeeps s' rfl
    obtain ⟨a', ha', hperm, p', hp'⟩ := recorded_remapAreaWithOverlapRange
      hsound.geometry hs' ha hp hlo hhi
    have horigin := heffect.page a' ha' v p' hp'
    have hshown : Shows a' (s'.ms.pageTable.entry v) := by
      refine horigin.shows (hshows l.sid ms hms) (by simp) fun r' perm' hop b hb w q hq hlo' hhi' ↦ ?_
      obtain ⟨rfl, rfl⟩ := Op.mprotect.inj hop
      simp only [GivesAccess, haction] at hok
      exact hok b w q ⟨ms, hms, hb, hq⟩ hlo' hhi'
    refine ⟨a', ha', p', _, hp', translate_of_shows hshown, (horigin.valid hsound).2,
      mem_of_mprotect hsound heffect ha hp horigin, fun hread ↦ ?_, fun hexecute ↦ ?_⟩
    · exact hshown.read (by rw [hperm]; exact hread)
    · exact hshown.execute (by rw [hperm]; exact hexecute)

/-- `mprotect` to no access over the written page: the page stays resident, the walk does not see its
entry, `debug_check_invariants` fails and `fork` panics. -/
theorem fork_panics_after_mprotect :
    ∃ m, Run Init (fun _ _ ↦ True) Step m ∧ ∃ ms, m.spaces[0]? = some ms ∧
      (∃ a, m.Records 0 a 0x2000000 2) ∧ ms.pageTable.translate 0x2000000 = none ∧
      ms.debugCheckInvariants = some .frameWithoutPte ∧
      m.next { sid := 0, action := .fork } = none := by
  refine exists_of_runLabels init_oneSpace (plain_writtenPage {}) (fun _ _ _ ↦ trivial) ?_
  decide +kernel

/-- Read-only instead of no access: the walk sees the written page. -/
theorem translate_after_mprotect :
    ∃ m, Run Init GivesAccess Step m ∧ (∃ a, m.Records 0 a 0x2000000 2) ∧
      ∃ ms pte, m.spaces[0]? = some ms ∧ ms.pageTable.translate 0x2000000 = some pte ∧
        pte.isValid = true ∧ pte.ppn = 2 := by
  have hok : ∀ l ∈ writtenPage ++ [protectPage { read := true }], ∀ m, GivesAccess m l := by
    intro l hl m
    simp only [writtenPage, protectPage, cons_append, nil_append, mem_cons,
      not_mem_nil, or_false] at hl
    rcases hl with rfl | rfl | rfl
    · exact fun h ↦ absurd h (by decide)
    · trivial
    · intro a v p _ _ _
      simp [residentPerm, MapPermission.accessible]
  obtain ⟨m, hrun, a, hrecords⟩ : ∃ m, Run Init GivesAccess Step m ∧ ∃ a, m.Records 0 a 0x2000000 2 := by
    refine exists_of_runLabels init_oneSpace (plain_writtenPage _) hok ?_
    decide +kernel
  exact ⟨m, hrun, ⟨a, hrecords⟩, (residency_of_run hrun).1 0 a 0x2000000 2 hrecords⟩

end Machine

end RespOS.Mm
