import RespOS.Basis.Runs
import RespOS.Mm.Machine

/-!
# The steps of the system

`Advance` lists what a step of the system can be, with the specification of the operation in place of
its definition. From it follow the invariant of every reachable state (`inv_of_reachable`) and the
origin of every page recorded after a step (`Advance.origin`). Frames that some address space records
keep what they are across a step: a loose frame stays loose (`Advance.loose`) and a frame that a file is
shared through stays so (`Advance.backs`).
-/

namespace RespOS.Mm

open RespOS.Basis RespOS.Fs List Option Kernel

variable {a : MapArea} {v p f idx : Nat}

theorem MapArea.count_pos (h : a.dataFrames[v]? = some p) : 0 < a.count p := by
  unfold MapArea.count
  rw [countP_pos_iff]
  exact ⟨(v, p), Std.ExtTreeMap.mem_toList_iff_getElem?_eq_some.mpr h, by simp⟩

variable {ms ms' : MemorySet} {k : Kernel} {segments : List (List Nat)} {s : MmState}
  {ok : Machine → Label → Prop}

theorem MemorySet.count_pos (ha : a ∈ ms.areas) (h : a.dataFrames[v]? = some p) :
    0 < ms.count p := by
  have hle : a.count p ≤ ms.count p := le_sum_of_mem (mem_map_of_mem ha)
  have := MapArea.count_pos h
  omega

namespace Machine

variable {m m' : Machine} {l : Label} {i j : Nat} {a b : MapArea} {v w p : Nat}

open MemorySet

theorem owners_ne_zero (h : m.Records i a v p) : m.owners p ≠ 0 := by
  obtain ⟨ms, hms, ha, hrec⟩ := h
  have hle : ms.count p ≤ m.owners p := le_sum_of_mem (mem_map_of_mem (mem_of_getElem? hms))
  have := count_pos ha hrec
  omega

theorem others_ne_zero (h : m.Records j a v p) (hne : j ≠ i) : m.others i p ≠ 0 := by
  obtain ⟨ms, hms, ha, hrec⟩ := h
  have hmem : ms ∈ m.spaces.eraseIdx i := mem_eraseIdx_iff_getElem?.mpr ⟨j, hne, hms⟩
  have hle : ms.count p ≤ ((m.spaces.eraseIdx i).map fun ms ↦ ms.count p).sum :=
    le_sum_of_mem (mem_map_of_mem hmem)
  have := count_pos ha hrec
  unfold others
  omega

theorem pins_ne_zero (h : m.Records j a v p) (hms : m.spaces[i]? = some ms) :
    ms.pins (m.others i) p ≠ 0 := by
  unfold pins
  by_cases hne : j = i
  · obtain ⟨ms', hms', ha, hrec⟩ := h
    rw [hne, hms] at hms'
    obtain rfl := some.inj hms'
    have := count_pos ha hrec
    omega
  · have := others_ne_zero h hne
    omega

section Settle

theorem Inv.settle (h : m.Inv) (hadm : m.Admissible l) : (m.settle l).Inv := by
  have hshared : ∀ key q, (m.settle l).k.sharedFilePages key = some q →
      m.k.sharedFilePages key = some q := fun key q hq ↦ (filter_eq_some_iff.mp hq).1
  -- the frames handed out from here on: those of before, or those of the label
  have hsupply : Function.Injective (m.settle l).k.phys.supply ∧
      ∀ n, (m.settle l).Unowned ((m.settle l).k.phys.supply n) := by
    cases hl : l.supply with
    | some f =>
      have heq : (m.settle l).k.phys.supply = f := by
        simp [Machine.settle, setPhys, phys, hl]
      rw [heq]
      exact hadm.supply f hl
    | none =>
      have heq : (m.settle l).k.phys.supply = m.k.phys.supply := by
        simp [Machine.settle, setPhys, phys, hl]
      rw [heq]
      refine ⟨h.kernel.caches.supply_injective, fun n ↦ ⟨?_, h.kernel.caches.supply_not_cached n,
        fun key hkey ↦ h.kernel.supply_not_shared n key (hshared key _ hkey), ?_⟩⟩
      · rintro i a v ⟨ms, hms, ha, hrec⟩
        exact (h.sound ms (mem_of_getElem? hms)).owned a ha v _ hrec n rfl
      · exact fun frames hframes hmem ↦ h.segments frames hframes _ hmem n rfl
  obtain ⟨hinj, hfree⟩ := hsupply
  refine ⟨⟨⟨hinj, fun n ↦ (hfree n).not_cached, h.kernel.caches.frame_injective,
    h.kernel.caches.registered⟩, h.kernel.fileCache, fun n key ↦ (hfree n).not_shared key,
    fun key key' q hq hq' ↦ h.kernel.shared_injective key key' q (hshared _ _ hq) (hshared _ _ hq'),
    fun key q hq ↦ h.kernel.shared_not_cached key q (hshared _ _ hq)⟩, fun ms hms ↦ ?_, ?_⟩
  · have hsound := h.sound ms hms
    refine { hsound with owned := ?_ }
    rintro a ha v q hrec n rfl
    obtain ⟨i, hi⟩ := mem_iff_getElem?.mp hms
    exact (hfree n).not_recorded i a v ⟨ms, hi, ha, hrec⟩
  · rintro frames hframes q hq n rfl
    exact (hfree n).not_segment frames hframes hq

theorem loose_settle (hinv : (m.settle l).Inv) (hrec : m.Records i a v p) (h : m.k.Loose p) :
    (m.settle l).k.Loose p := by
  obtain ⟨ms, hms, ha, hframe⟩ := hrec
  refine ⟨(hinv.sound ms (mem_of_getElem? hms)).owned a ha v p hframe, h.not_cached,
    fun key hkey ↦ h.not_shared key (filter_eq_some_iff.mp hkey).1⟩

theorem backs_settle (hrec : m.Records i a v p) (h : m.k.Backs f idx p) :
    (m.settle l).k.Backs f idx p := by
  have hlive : ∀ key, m.k.sharedFilePages key = some p →
      (m.settle l).k.sharedFilePages key = some p := fun key hkey ↦
    filter_eq_some_iff.mpr ⟨hkey, by simp [owners_ne_zero hrec]⟩
  unfold Kernel.Backs at h ⊢
  cases hobj : (m.k.files f).object with
  | regular c =>
    rw [hobj] at h
    rw [show ((m.settle l).k.files f).object = .regular c from hobj]
    exact h
  | devShm id =>
    rw [hobj] at h
    rw [show ((m.settle l).k.files f).object = .devShm id from hobj]
    exact hlive _ h
  | memfd id =>
    rw [hobj] at h
    rw [show ((m.settle l).k.files f).object = .memfd id from hobj]
    exact hlive _ h

end Settle

/-! ### What a step can be -/

/-- What a step from the settled state `m` can be. -/
inductive Advance (m : Machine) (l : Label) (m' : Machine) : Prop
  | op {op : Op} {ms : MemorySet} {s : MmState} (haction : l.action = .op op)
      (hms : m.spaces[l.sid]? = some ms)
      (hrun : (runOp ⟨m.others l.sid, l.io⟩ ⟨ms, m.k⟩ op).state? = some s)
      (heffect : Effect ⟨m.others l.sid, l.io⟩ op ⟨ms, m.k⟩ s) (hsound : s.ms.Sound s.k)
      (hsegment : ∀ req attachId frames, op = .mmap req (.segment attachId frames) →
        frames ∈ m.segments)
      (hm' : m' = { m with k := s.k, spaces := m.spaces.set l.sid s.ms })
  | forkFailed {ms : MemorySet} {s : MmState} (haction : l.action = .fork)
      (hms : m.spaces[l.sid]? = some ms) (hparent : MemorySet.ParentAfter ⟨ms, m.k⟩ s)
      (hm' : m' = { m with k := s.k, spaces := m.spaces.set l.sid s.ms })
  | forked {ms child : MemorySet} {s : MmState} (haction : l.action = .fork)
      (hms : m.spaces[l.sid]? = some ms) (hparent : MemorySet.ParentAfter ⟨ms, m.k⟩ s)
      (hchild : MemorySet.ChildAfter ⟨ms, m.k⟩ s child)
      (hm' : m' = { m with k := s.k, spaces := m.spaces.set l.sid s.ms ++ [child] })
  | store {ms : MemorySet} {vpn offset : Nat} {byte : UInt8} {phys : Phys}
      (haction : l.action = .store vpn offset byte) (hms : m.spaces[l.sid]? = some ms)
      (hstorable : (ms.pageTable.entry vpn).storable = true)
      (hphys : phys = m.k.phys.store (ms.pageTable.entry vpn).ppn
        (Function.update (m.k.phys.mem (ms.pageTable.entry vpn).ppn) offset byte))
      (hm' : m' = { m with k := m.k.setPhys phys })
  | segment {phys : Phys} {new : List (List Nat)} {pages : Nat} (haction : l.action = .shmget pages)
      (hobtains : ∀ ext, m.k.Obtains ext (m.k.setPhys phys))
      (hnew : ∀ frames ∈ new, ∀ p ∈ frames, (m.k.setPhys phys).Loose p ∧ ∃ j, p = m.k.phys.supply j)
      (hm' : m' = { m with k := m.k.setPhys phys, segments := m.segments ++ new })

theorem allocFrames_spec (hk : k.WellFormed) {n : Nat} {r : Option (List Nat)} {phys : Phys}
    (h : allocFrames n k.phys = (r, phys)) : (∀ ext, k.Obtains ext (k.setPhys phys)) ∧
      ∀ frames, r = some frames → ∀ p ∈ frames, (k.setPhys phys).Loose p ∧
        ∃ j, p = k.phys.supply j := by
  generalize hphys : k.phys = phys₀ at h
  fun_induction allocFrames n phys₀ generalizing k r phys with
  | case1 phys₀ =>
    cases h
    subst hphys
    exact ⟨fun ext ↦ .refl hk, by simp⟩
  | case2 n phys₀ phys₁ halloc =>
    cases h
    subst hphys
    exact ⟨fun ext ↦ obtains_setPhys hk ⟨0, Phys.frameAlloc_none halloc⟩, by simp⟩
  | case3 n phys₀ p phys₁ halloc phys₂ hrest ih =>
    cases h
    subst hphys
    have hfirst := fun ext ↦ obtains_frameAlloc_some ext hk halloc
    obtain ⟨hobt, -⟩ := ih (hfirst fun _ ↦ 0).2.1 rfl hrest
    exact ⟨fun ext ↦ .trans ⟨(hfirst ext).2.1, 1, (hfirst ext).2.2.1⟩ (hobt ext), by simp⟩
  | case4 n phys₀ p phys₁ halloc rest phys₂ hrest ih =>
    cases h
    subst hphys
    have hfirst := fun ext ↦ obtains_frameAlloc_some ext hk halloc
    obtain ⟨hp, hwf, -, hloose⟩ := hfirst fun _ ↦ 0
    obtain ⟨hobt, hframes⟩ := ih hwf rfl hrest
    refine ⟨fun ext ↦ .trans ⟨(hfirst ext).2.1, 1, (hfirst ext).2.2.1⟩ (hobt ext), fun frames hr q hq ↦ ?_⟩
    cases hr
    rcases mem_cons.mp hq with rfl | hq
    · exact ⟨(hobt fun _ ↦ 0).loose hloose, 0, hp⟩
    obtain ⟨hqloose, j, hj⟩ := hframes rest rfl q hq
    refine ⟨hqloose, j + 1, ?_⟩
    rw [hj]
    exact ((Phys.frameAlloc_some halloc).2.1.1 j).trans (by rw [Nat.add_comm])

theorem Step.advance (hinv : m.Inv) (h : m.Step l m') :
    (m.settle l).Inv ∧ (m.settle l).Advance l m' := by
  obtain ⟨hadm, hnext⟩ := h
  have hsettled := hinv.settle hadm
  refine ⟨hsettled, ?_⟩
  obtain ⟨ms, hms, hact⟩ := bind_eq_some_iff.mp hnext
  have hms₁ : (m.settle l).spaces[l.sid]? = some ms := hms
  have hsound := hsettled.sound ms (mem_of_getElem? hms)
  revert hact
  fun_cases (m.settle l).act l ms with try rintro ⟨⟩
  | case2 op haction s hs =>
    have hseg : op.SegmentOwned (m.settle l).k := by
      cases op with
      | mmap req source =>
        cases source with
        | segment attachId frames =>
          exact hsettled.segments frames (hadm.segment req attachId frames haction)
        | _ => trivial
      | _ => trivial
    have heffect := effect_runOp ⟨(m.settle l).others l.sid, l.io⟩ op hsound hsettled.kernel hseg s hs
    exact .op haction hms₁ hs heffect
      (heffect.sound hsound hseg (geometry_runOp _ ⟨ms, (m.settle l).k⟩ op hsound.geometry s hs))
      (fun req attachId frames hop ↦ hadm.segment req attachId frames (hop ▸ haction)) rfl
  | case4 haction e s hs =>
    have hfork := fork_spec (s := ⟨ms, (m.settle l).k⟩) hsound.geometry hsettled.kernel
    rw [hs] at hfork
    exact .forkFailed haction hms₁ hfork rfl
  | case5 haction child s hs =>
    have hfork := fork_spec (s := ⟨ms, (m.settle l).k⟩) hsound.geometry hsettled.kernel
    rw [hs] at hfork
    exact .forked haction hms₁ hfork.1 hfork.2 rfl
  | case6 vpn offset byte haction e hstore =>
    exact .store haction hms₁ hstore rfl rfl
  | case8 pages haction phys hphys =>
    obtain ⟨hobt, -⟩ := allocFrames_spec hsettled.kernel hphys
    refine .segment haction hobt (fun frames hmem ↦ absurd hmem not_mem_nil) ?_
    rw [append_nil]
  | case9 pages haction frames phys hphys =>
    obtain ⟨hobt, hnew⟩ := allocFrames_spec hsettled.kernel hphys
    refine .segment haction hobt (fun frames' hmem ↦ ?_) rfl
    exact mem_singleton.mp hmem ▸ hnew frames rfl

/-! ### The kernel state across a step -/

section

variable (h : m.Advance l m')
include h

theorem Advance.kernel :
    (∃ ext : Nat → Nat, (∀ i a v p, m.Records i a v p → ext p ≠ 0) ∧ m.k.Obtains ext m'.k) ∨
      ∃ p bytes, m'.k = m.k.setPhys (m.k.phys.store p bytes) := by
  cases h with
  | op _ hms _ heffect _ _ hm' =>
    subst hm'
    exact .inl ⟨_, fun i a v p hrec ↦ pins_ne_zero hrec hms, heffect.obtains⟩
  | forkFailed _ _ hparent hm' | forked _ _ hparent _ hm' =>
    subst hm'
    exact .inl ⟨fun _ ↦ 1, fun _ _ _ _ _ ↦ Nat.one_ne_zero, hparent.obtains _⟩
  | store _ _ _ hphys hm' =>
    subst hm' hphys
    exact .inr ⟨_, _, rfl⟩
  | segment _ hobtains _ hm' =>
    subst hm'
    exact .inl ⟨fun _ ↦ 1, fun _ _ _ _ _ ↦ Nat.one_ne_zero, hobtains _⟩

theorem Advance.wellFormed (hinv : m.Inv) : m'.k.WellFormed := by
  rcases h.kernel with ⟨_, -, hobt⟩ | ⟨p, bytes, hk⟩
  · exact hobt.1
  · rw [hk]
    exact hinv.kernel.store p bytes

theorem Advance.not_supply (hp : ∀ n, p ≠ m.k.phys.supply n) : ∀ n, p ≠ m'.k.phys.supply n := by
  rcases h.kernel with ⟨_, -, hobt⟩ | ⟨p, bytes, hk⟩
  · exact hobt.not_supply hp
  · rw [hk]
    exact hp

theorem Advance.loose (hp : m.k.Loose p) : m'.k.Loose p := by
  rcases h.kernel with ⟨_, -, hobt⟩ | ⟨q, bytes, hk⟩
  · exact hobt.loose hp
  · rw [hk]
    exact { hp with }

theorem Advance.backs (hrec : m.Records i a v p) (hb : m.k.Backs f idx p) : m'.k.Backs f idx p := by
  rcases h.kernel with ⟨ext, hext, -, n, hev⟩ | ⟨q, bytes, hk⟩
  · exact hev.backs (hext i a v p hrec) hb
  · rw [hk]
    exact hb

end

/-! ### The address spaces across a step -/

/-- Where a page recorded after a step comes from. -/
inductive Origin (m : Machine) (l : Label) (m' : Machine) (i : Nat) (a' : MapArea) (v p : Nat) : Prop
  /-- The page and its entry are untouched. -/
  | same (hrec : m.Records i a' v p) (hpte : m'.pte i v = m.pte i v)
  /-- The page belongs to the address space in which an operation ran. -/
  | changed {op : Op} {ms : MemorySet} {s : MmState} (haction : l.action = .op op) (hi : i = l.sid)
      (hms : m.spaces[l.sid]? = some ms)
      (heffect : Effect ⟨m.others l.sid, l.io⟩ op ⟨ms, m.k⟩ s) (hk : m'.k = s.k)
      (hspaces : m'.spaces = m.spaces.set l.sid s.ms)
      (hsegment : ∀ req attachId frames, op = .mmap req (.segment attachId frames) →
        frames ∈ m.segments) (hmem : a' ∈ s.ms.areas)
      (hrec' : a'.dataFrames[v]? = some p)
      (horigin : PageOrigin ⟨m.others l.sid, l.io⟩ op ⟨ms, m.k⟩ s a' v p)
  /-- A fork marked the page of the parent. -/
  | marked (haction : l.action = .fork) (hi : i = l.sid) (hrec : m.Records i a' v p)
      (hcow : MemorySet.forksCow a' = true)
      (hpte : m'.pte i v = MemorySet.parentEntry a' (m.pte i v))
  /-- The child of a fork got the page of the parent. -/
  | inherited {a : MapArea} (haction : l.action = .fork) (hi : i = m.spaces.length)
      (hsid : l.sid < m.spaces.length) (hrec : m.Records l.sid a v p)
      (ha' : a' = a.withFrames a'.dataFrames) (hvisible : (m.pte l.sid v).visible = true)
      (hchild : m'.pte i v = MemorySet.childEntry a p (m.pte l.sid v))
      (hparent : m'.pte l.sid v = MemorySet.parentEntry a (m.pte l.sid v))

theorem Inv.area_unique (hinv : m.Inv) {q : Nat} (h : m.Records i a v p) (h' : m.Records i b v q) :
    a = b := by
  obtain ⟨ms, hms, ha, hp⟩ := h
  obtain ⟨ms', hms', hb, hq⟩ := h'
  obtain rfl := some.inj (hms.symm.trans hms')
  exact (hinv.sound ms (mem_of_getElem? hms)).geometry.area_unique ha hb hp hq

theorem records_set (h : Records ⟨k, m.spaces.set j ms, segments⟩ i a v p) :
    (i = j ∧ a ∈ ms.areas ∧ a.dataFrames[v]? = some p) ∨ (i ≠ j ∧ m.Records i a v p) := by
  obtain ⟨ms', hms', ha, hrec⟩ := h
  simp only [getElem?_set] at hms'
  split_ifs at hms' with hij hlt
  · obtain rfl := some.inj hms'
    exact .inl ⟨hij.symm, ha, hrec⟩
  · exact .inr ⟨Ne.symm hij, ms', hms', ha, hrec⟩

theorem pte_set_of_ne (hne : i ≠ j) (v : Nat) :
    pte ⟨k, m.spaces.set j ms, segments⟩ i v = m.pte i v := by
  simp only [pte, getElem?_set, if_neg (Ne.symm hne)]

theorem pte_eq (hms : m.spaces[i]? = some ms) (v : Nat) : m.pte i v = ms.pageTable.entry v := by
  simp only [pte, hms]

theorem pte_set_self (hms : m.spaces[j]? = some ms') (v : Nat) :
    pte ⟨k, m.spaces.set j ms, segments⟩ j v = ms.pageTable.entry v := by
  have hlt : j < m.spaces.length := (List.getElem?_eq_some_iff.mp hms).1
  simp only [pte, List.getElem?_set_self hlt]

theorem pte_of_set (hms : m.spaces[j]? = some ms) (hspaces : m'.spaces = m.spaces.set j ms')
    (v : Nat) : m'.pte j v = ms'.pageTable.entry v := by
  have hlt : j < m.spaces.length := (List.getElem?_eq_some_iff.mp hms).1
  exact pte_eq (by rw [hspaces, List.getElem?_set_self hlt]) v

section Append

variable {spaces : List MemorySet} {child : MemorySet} {k : Kernel} {segments : List (List Nat)}

theorem records_append (h : Records ⟨k, spaces ++ [child], segments⟩ i a v p) :
    (i < spaces.length ∧ Records ⟨k, spaces, segments⟩ i a v p) ∨
      (i = spaces.length ∧ a ∈ child.areas ∧ a.dataFrames[v]? = some p) := by
  obtain ⟨ms, hms, ha, hrec⟩ := h
  rcases Nat.lt_trichotomy i spaces.length with hlt | heq | hgt
  · rw [List.getElem?_append_left hlt] at hms
    exact .inl ⟨hlt, ms, hms, ha, hrec⟩
  · subst heq
    simp only [getElem?_concat_length, some.injEq] at hms
    exact .inr ⟨rfl, hms ▸ ha, hrec⟩
  · rw [getElem?_eq_none (by simp; omega)] at hms
    simp at hms

theorem Records.append (h : Records ⟨k, spaces, segments⟩ i a v p) (child : MemorySet) :
    Records ⟨k, spaces ++ [child], segments⟩ i a v p := by
  obtain ⟨ms, hms, hrest⟩ := h
  have hlt : i < spaces.length := (List.getElem?_eq_some_iff.mp hms).1
  exact ⟨ms, by rw [List.getElem?_append_left hlt]; exact hms, hrest⟩

theorem pte_append_of_lt (hlt : i < spaces.length) (v : Nat) :
    pte ⟨k, spaces ++ [child], segments⟩ i v = pte ⟨k, spaces, segments⟩ i v := by
  simp only [pte, List.getElem?_append_left hlt]

theorem pte_append_length (v : Nat) :
    pte ⟨k, spaces ++ [child], segments⟩ spaces.length v = child.pageTable.entry v := by
  simp only [pte, getElem?_concat_length]

end Append

theorem Origin.of_parent (hinv : m.Inv) (haction : l.action = .fork)
    (hms : m.spaces[l.sid]? = some ms) (hparent : MemorySet.ParentAfter ⟨ms, m.k⟩ s)
    (hpte : ∀ v, m'.pte l.sid v = s.ms.pageTable.entry v) (ha : a ∈ s.ms.areas)
    (hrec : a.dataFrames[v]? = some p) : Origin m l m' l.sid a v p := by
  rw [hparent.areas] at ha
  have hold : m.Records l.sid a v p := ⟨ms, hms, ha, hrec⟩
  rcases hparent.entries v with heq | ⟨b, hb, q, hq, hcow, -, heq⟩
  · exact .same hold (by rw [hpte, heq, pte_eq hms])
  · obtain rfl : a = b := hinv.area_unique hold ⟨ms, hms, hb, hq⟩
    exact .marked haction rfl hold hcow (by rw [hpte, heq, pte_eq hms])

theorem Advance.origin (h : m.Advance l m') (hinv : m.Inv) (hrec : m'.Records i a v p) :
    Origin m l m' i a v p := by
  cases h with subst hm'
  | op haction hms hrun heffect hsound hsegment hm' =>
    rcases records_set hrec with ⟨rfl, ha, hp⟩ | ⟨hne, hold⟩
    · exact .changed haction rfl hms heffect rfl rfl hsegment ha hp (heffect.page a ha v p hp)
    · exact .same hold (pte_set_of_ne hne v)
  | forkFailed haction hms hparent hm' =>
    rcases records_set hrec with ⟨rfl, ha, hp⟩ | ⟨hne, hold⟩
    · exact .of_parent hinv haction hms hparent (pte_set_self hms) ha hp
    · exact .same hold (pte_set_of_ne hne v)
  | @forked ms child s haction hms hparent hchild hm' =>
    have hlt : l.sid < m.spaces.length := (List.getElem?_eq_some_iff.mp hms).1
    have hlen : (m.spaces.set l.sid s.ms).length = m.spaces.length := List.length_set
    have hpte : ∀ w, pte ⟨s.k, m.spaces.set l.sid s.ms ++ [child], m.segments⟩ l.sid w =
        s.ms.pageTable.entry w := fun w ↦
      (pte_append_of_lt (hlen ▸ hlt) w).trans (pte_set_self hms w)
    rcases records_append hrec with ⟨hi, hrec⟩ | ⟨hi, hc, hp⟩
    · rcases records_set hrec with ⟨rfl, ha, hp⟩ | ⟨hne, hold⟩
      · exact .of_parent hinv haction hms hparent hpte ha hp
      · exact .same hold ((pte_append_of_lt hi v).trans (pte_set_of_ne hne v))
    obtain ⟨b, hb, hba⟩ := hchild.area a hc
    obtain ⟨hbrec, hvisible, hentry, hparentEntry⟩ := hba.page v p hp
    refine .inherited haction (hi.trans hlen) hlt ⟨ms, hms, hb, hbrec⟩ hba.eq ?_ ?_ ?_
    · rw [pte_eq hms]
      exact hvisible
    · rw [hi, pte_append_length, pte_eq hms]
      exact hentry
    · rw [hpte, pte_eq hms]
      exact hparentEntry
  | store _ _ _ _ hm' | segment _ _ _ hm' =>
    exact .same hrec rfl

/-! ### The frame of a page across a step -/

/-- Where the frame of a page recorded after a step comes from. -/
inductive FrameOrigin (m : Machine) (l : Label) (m' : Machine) (i : Nat) (a' : MapArea) (v p : Nat) :
    Prop
  /-- Some page recorded the frame before: the same page, the page it was moved from, or the page of
  the parent of a fork. -/
  | old {i₀ w : Nat} {a : MapArea} (hrec : m.Records i₀ a w p) (hsame : a'.SameBacking a)
      (hspace : i = i₀ ∨ (l.action = .fork ∧ i₀ = l.sid ∧ i = m.spaces.length))
      (hpage : w = v ∨ ∃ oldAddr oldLen newLen maymove fixedAddr,
        l.action = .op (.mremap oldAddr oldLen newLen maymove fixedAddr))
  /-- The allocator handed out the frame for this page. -/
  | fresh (hi : i = l.sid) (hloose : m'.k.Loose p) (hsupply : ∃ n, p = m.k.phys.supply n)
  /-- The frame is that of a page of a file. -/
  | backed {f idx : Nat} (hbacks : m'.k.Backs f idx p) (hfile : a'.fileBacking ≠ none)
  /-- The frame belongs to a segment. -/
  | segment {req : MmapRequest} {attachId : Nat} {frames : List Nat}
      (haction : l.action = .op (.mmap req (.segment attachId frames)))
      (hframes : frames ∈ m.segments) (hmem : p ∈ frames) (hattach : a'.shmAttachId = some attachId)

theorem Origin.frame {a' : MapArea} (h : Origin m l m' i a' v p) : FrameOrigin m l m' i a' v p := by
  cases h with
  | same hrec | marked _ _ hrec => exact .old hrec (.refl a') (.inl rfl) (.inl rfl)
  | inherited haction hi _ hrec ha' =>
    refine .old hrec ?_ (.inr ⟨haction, rfl, hi⟩) (.inl rfl)
    rw [ha']
    exact ⟨rfl, rfl, rfl, rfl, rfl⟩
  | changed haction hi hms heffect hk hspaces hsegment _ _ horigin =>
    cases horigin with
    | kept ha hof hrec | protect _ ha hof hrec | resolved _ ha hof hrec | opened _ ha hof hrec =>
      exact .old ⟨_, hms, ha, hrec⟩ hof.same (.inl hi) (.inl rfl)
    | moved hop ha hof hrec =>
      exact .old ⟨_, hms, ha, hrec⟩ hof.same (.inl hi) (.inr ⟨_, _, _, _, _, hop ▸ haction⟩)
    | copied _ _ _ _ _ _ _ _ _ _ hfresh | replaced _ _ _ _ _ _ _ hfresh | anonymous _ _ hfresh =>
      exact .fresh hi (hk ▸ hfresh.1) hfresh.2
    | filled _ _ _ _ _ hframe =>
      cases huses : a'.usesFile ((v - a'.start) * pageSize) with
      | true =>
        obtain ⟨b, hb, -, hbacks⟩ := hframe.file huses
        exact .backed (hk ▸ hbacks) (by simp [hb])
      | false =>
        obtain ⟨hloose, hsupply⟩ := hframe.own huses
        exact .fresh hi (hk ▸ hloose) hsupply
    | segment hop hby hmem =>
      obtain ⟨-, -, hattach⟩ := hby.source
      exact .segment (hop ▸ haction) (hsegment _ _ _ hop) hmem hattach
    | file _ hby _ hbacks =>
      obtain ⟨-, -, len, hb⟩ := hby.source
      exact .backed (hk ▸ hbacks) (by simp [hb])

theorem Inv.not_supply (hinv : m.Inv) (h : m.Records i a v p) (n : Nat) :
    p ≠ m.k.phys.supply n := by
  obtain ⟨ms, hms, ha, hrec⟩ := h
  exact (hinv.sound ms (mem_of_getElem? hms)).owned a ha v p hrec n

theorem Advance.fresh_unique (h : m.Advance l m') (hinv : m.Inv) (hloose : m'.k.Loose p)
    (hsupply : ∃ n, p = m.k.phys.supply n) (hrec : m'.Records i a v p) (hrec' : m'.Records j b w p) :
    i = j ∧ v = w := by
  obtain ⟨n, hn⟩ := hsupply
  have hnew : ∀ i a v, ¬ m.Records i a v p := fun i a v hold ↦ hinv.not_supply hold n hn
  cases h with subst hm'
  | op haction hms hrun heffect hsound hsegment hm' =>
    rcases records_set hrec with ⟨hi, ha, hp⟩ | ⟨-, hold⟩
    · rcases records_set hrec' with ⟨hj, hb, hq⟩ | ⟨-, hold⟩
      · exact ⟨hi.trans hj.symm, heffect.fresh_unique a ha b hb v w p hp hq ⟨hloose, n, hn⟩⟩
      · exact absurd hold (hnew _ _ _)
    · exact absurd hold (hnew _ _ _)
  | forkFailed haction hms hparent hm' =>
    rcases records_set hrec with ⟨-, ha, hp⟩ | ⟨-, hold⟩
    · exact absurd ⟨_, hms, hparent.areas ▸ ha, hp⟩ (hnew l.sid a v)
    · exact absurd hold (hnew _ _ _)
  | forked haction hms hparent hchild hm' =>
    rcases records_append hrec with ⟨-, hrec⟩ | ⟨-, hc, hp⟩
    · rcases records_set hrec with ⟨-, ha, hp⟩ | ⟨-, hold⟩
      · exact absurd ⟨_, hms, hparent.areas ▸ ha, hp⟩ (hnew l.sid a v)
      · exact absurd hold (hnew _ _ _)
    · obtain ⟨b, hb, hba⟩ := hchild.area a hc
      exact absurd ⟨_, hms, hb, (hba.page v p hp).recorded⟩ (hnew l.sid b v)
  | store _ _ _ _ hm' | segment _ _ _ hm' =>
    exact absurd hrec (hnew _ _ _)

/-! ### The invariant of every reachable state -/

theorem sound_mono {k' : Kernel} (h : ms.Sound k)
    (hsupply : ∀ p, (∀ n, p ≠ k.phys.supply n) → ∀ n, p ≠ k'.phys.supply n) : ms.Sound k' :=
  { h with owned := fun a ha v p hp ↦ hsupply p (h.owned a ha v p hp) }

theorem not_writable_cowFlags (ppn : Nat) (e : PageTableEntry) :
    (⟨ppn, cowFlags e⟩ : PageTableEntry).writable = false := rfl

theorem sound_parent {s' : MmState} (h : s.ms.Sound s.k) (hparent : MemorySet.ParentAfter s s') :
    s'.ms.Sound s'.k := by
  have hareas := hparent.areas
  refine ⟨hareas ▸ h.geometry, hareas ▸ h.framed, ?_, ?_, ?_⟩ <;> rw [hareas]
  · intro a ha v p hp
    have hold := h.valid a ha v p hp
    rcases hparent.entries v with heq | ⟨b, -, q, -, hcow, -, heq⟩
    · exact heq ▸ hold
    · rw [heq, parentEntry, if_pos hcow]
      exact ⟨rfl, hold.2⟩
  · intro a ha v p hp hwritable
    rcases hparent.entries v with heq | ⟨b, -, q, -, hcow, -, heq⟩
    · rw [heq] at hwritable ⊢
      exact h.writable a ha v p hp hwritable
    · rw [heq, parentEntry, if_pos hcow, not_writable_cowFlags] at hwritable
      simp at hwritable
  · exact fun a ha v p hp ↦ (hparent.obtains fun _ ↦ 0).not_supply (h.owned a ha v p hp)

theorem sound_child {s' : MmState} {child : MemorySet} (h : s.ms.Sound s.k)
    (hparent : MemorySet.ParentAfter s s') (hchild : MemorySet.ChildAfter s s' child) :
    child.Sound s'.k where
  geometry := hchild.geometry
  framed c hc := by
    obtain ⟨a, ha, hca⟩ := hchild.area c hc
    rw [hca.eq]
    exact h.framed a ha
  valid c hc v p hp := by
    obtain ⟨a, -, hca⟩ := hchild.area c hc
    rw [(hca.page v p hp).child]
    unfold childEntry
    split_ifs <;> exact ⟨rfl, rfl⟩
  writable c hc v p hp hwritable := by
    obtain ⟨a, ha, hca⟩ := hchild.area c hc
    have hpage := hca.page v p hp
    rw [hpage.child] at hwritable ⊢
    unfold childEntry at hwritable ⊢
    split_ifs at hwritable ⊢
    · rw [not_writable_cowFlags] at hwritable
      simp at hwritable
    · rw [hca.eq]
      exact h.writable a ha v p hpage.recorded hwritable
  owned c hc v p hp := by
    obtain ⟨a, ha, hca⟩ := hchild.area c hc
    exact (hparent.obtains fun _ ↦ 0).not_supply (h.owned a ha v p (hca.page v p hp).recorded)

theorem Advance.inv (h : m.Advance l m') (hinv : m.Inv) : m'.Inv := by
  have hother : ∀ ms ∈ m.spaces, ms.Sound m'.k := fun ms hms ↦
    sound_mono (hinv.sound ms hms) fun p hp ↦ h.not_supply hp
  have hsegments : ∀ frames ∈ m.segments, ∀ p ∈ frames, ∀ n, p ≠ m'.k.phys.supply n :=
    fun frames hframes p hp ↦ h.not_supply (hinv.segments frames hframes p hp)
  refine ⟨h.wellFormed hinv, fun ms hms ↦ ?_, ?_⟩
  · cases h with
    | op _ _ _ _ hsound _ hm' =>
      subst hm'
      rcases mem_or_eq_of_mem_set hms with hms | rfl
      · exact hother ms hms
      · exact hsound
    | forkFailed _ hold hparent hm' =>
      subst hm'
      rcases mem_or_eq_of_mem_set hms with hms | rfl
      · exact hother ms hms
      · exact sound_parent (hinv.sound _ (mem_of_getElem? hold)) hparent
    | forked _ hold hparent hchild hm' =>
      subst hm'
      have hparentSound := hinv.sound _ (mem_of_getElem? hold)
      rcases mem_append.mp hms with hms | hms
      · rcases mem_or_eq_of_mem_set hms with hms | rfl
        · exact hother ms hms
        · exact sound_parent hparentSound hparent
      · rw [mem_singleton.mp hms]
        exact sound_child hparentSound hparent hchild
    | store _ _ _ _ hm' | segment _ _ _ hm' =>
      subst hm'
      exact hother ms hms
  · cases h with
    | segment _ _ hnew hm' =>
      subst hm'
      intro frames hframes p hp
      rcases mem_append.mp hframes with hframes | hframes
      · exact hsegments frames hframes p hp
      · exact (hnew frames hframes p hp).1.not_supply
    | op _ _ _ _ _ _ hm' | forkFailed _ _ _ hm' | forked _ _ _ _ hm' | store _ _ _ _ hm' =>
      exact hm' ▸ hsegments

theorem sound_of_areas_eq_nil (h : ms.areas = []) (k : Kernel) : ms.Sound k := by
  refine ⟨?_, ?_, ?_, ?_, ?_⟩ <;> simp only [h]
  · exact geometry_iff.mpr ⟨by simp, List.Pairwise.nil⟩
  all_goals simp

theorem Init.not_records (h : m.Init) {i : Nat} : ¬ m.Records i a v p := by
  rintro ⟨ms, hms, ha, -⟩
  rw [(h.spaces ms (mem_of_getElem? hms)).1] at ha
  simp at ha

theorem Init.inv (h : m.Init) : m.Inv where
  kernel := h.kernel
  sound ms hms := sound_of_areas_eq_nil (h.spaces ms hms).1 m.k
  segments := by simp [h.segments]

theorem Inv.of_obtains {k' : Kernel} {spaces : List MemorySet} (h : m.Inv)
    (hobt : m.k.Obtains (fun _ ↦ 0) k') (hspaces : ∀ ms ∈ spaces, ms ∈ m.spaces ∨ ms.areas = [])
    (hsegments : ∀ frames ∈ segments, frames ∈ m.segments) : Inv ⟨k', spaces, segments⟩ where
  kernel := hobt.1
  sound ms hms := by
    rcases hspaces ms hms with hold | hempty
    · exact sound_mono (h.sound ms hold) fun _ hp ↦ hobt.not_supply hp
    · exact sound_of_areas_eq_nil hempty k'
  segments frames hframes p hp :=
    hobt.not_supply (h.segments frames (hsegments frames hframes) p hp)

theorem inv_of_reachable (h : Run Init ok Step m) : m.Inv :=
  h.invariant (fun _ hm ↦ hm.inv) fun _ _ _ hinv _ hstep ↦
    let ⟨hsettled, hadvance⟩ := Step.advance hinv hstep
    hadvance.inv hsettled

theorem invariant_of_advance {I : Machine → Prop} (hinit : ∀ m, Init m → I m)
    (hsettle : ∀ m l, m.Inv → (m.settle l).Inv → I m → I (m.settle l))
    (hadvance : ∀ m l m', (m.settle l).Inv → ok m l → I (m.settle l) → (m.settle l).Advance l m' →
      I m') (h : Run Init ok Step m) : I m := by
  refine Run.invariant_of_auxiliary (fun _ hrun ↦ inv_of_reachable hrun) hinit ?_ h
  intro m l m' hinv hm hok hstep
  obtain ⟨hsettled, hadv⟩ := Step.advance hinv hstep
  exact hadvance m l m' hsettled hok (hsettle m l hinv hsettled hm) hadv

/-! ### Runs on given labels -/

def runLabels (m : Machine) (labels : List Label) : Option Machine := labels.foldlM next m

/-- A label that leaves the allocator alone and attaches no segment. -/
def Plain (l : Label) : Prop :=
  l.supply = none ∧ ∀ req attachId frames, l.action ≠ .op (.mmap req (.segment attachId frames))

theorem admissible_of_plain {l : Label} (h : Plain l) : m.Admissible l := by
  obtain ⟨hsupply, hsegment⟩ := h
  exact ⟨fun f hf ↦ by simp [hsupply] at hf, fun req attachId frames hl ↦
    absurd hl (hsegment req attachId frames)⟩

instance decidableRecorded (i v p : Nat) : Decidable (∃ a, m.Records i a v p) :=
  decidable_of_iff (∃ ms, m.spaces[i]? = some ms ∧ ∃ a ∈ ms.areas, a.dataFrames[v]? = some p) (by
    simp only [Records]
    grind)

theorem exists_of_runLabels {P : Machine → Prop} [DecidablePred P] (hinit : m.Init)
    {labels : List Label} (hplain : ∀ l ∈ labels, Plain l) (hok : ∀ l ∈ labels, ∀ m, ok m l)
    (h : (m.runLabels labels).any (fun m' ↦ decide (P m')) = true) :
    ∃ m', Run Init ok Step m' ∧ P m' :=
  Run.exists_of_foldlM
    (fun l hl m _ hnext ↦ ⟨hok l hl m, admissible_of_plain (hplain l hl), hnext⟩) hinit h

def oneSpace : Machine where
  k := .boot [] (fun _ ↦ .empty) (fun _ ↦ { object := .memfd 0 }) (fun _ ↦ { data := .empty })
    (fun _ ↦ .empty) 2
  spaces := [{ pageTable := .fromKernel 1 }]

theorem init_oneSpace : oneSpace.Init where
  kernel := wellFormed_boot (by simp)
  unshared _ := rfl
  spaces ms hms := by
    obtain rfl := mem_singleton.mp hms
    exact ⟨rfl, PageTable.entry_fromKernel 1⟩
  segments := rfl

def fileSpace : Machine where
  k := .boot [0] (fun _ ↦ ⟨1, fun _ ↦ 0, fun _ _ ↦ rfl⟩) (fun _ ↦ { object := .regular 0 })
    (fun _ ↦ { data := .empty }) (fun _ ↦ .empty) 2
  spaces := [{ pageTable := .fromKernel 1 }]

theorem init_fileSpace : fileSpace.Init where
  kernel := wellFormed_boot fun f c hc ↦ by
    obtain rfl := FileObject.regular.inj hc
    exact mem_singleton_self 0
  unshared _ := rfl
  spaces ms hms := by
    obtain rfl := mem_singleton.mp hms
    exact ⟨rfl, PageTable.entry_fromKernel 1⟩
  segments := rfl

theorem pageSize_pos : 0 < pageSize := by
  decide

def mapFile : Label :=
  { sid := 0, action := .op (.mmap ⟨none, 0x1000, pageSize_pos, .rwu, false, false, false, false⟩
      (.file 0 0 false)) }

/-- A private anonymous page at the start of the mapping window, written once. -/
def writtenPage : List Label :=
  [{ sid := 0, action := .op (.mmap ⟨none, 0x1000, pageSize_pos, .rwu, false, false, false, false⟩
      (.anonymous false)) },
    { sid := 0, action := .op (.fault .store 0x2000000000 none) }]

def protectPage (perm : MapPermission) : Label :=
  { sid := 0, action := .op (.mprotect ⟨⟨0x2000000, 0x2000001⟩, by decide⟩ perm) }

theorem plain_written : ∀ l ∈ writtenPage, Plain l := by
  simp [writtenPage, Plain]

theorem plain_writtenPage (perm : MapPermission) :
    ∀ l ∈ writtenPage ++ [protectPage perm], Plain l := by
  simp [writtenPage, protectPage, Plain]

end Machine

end RespOS.Mm
