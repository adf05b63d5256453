import RespOS.Mm.MachineStep
import RespOS.Mm.MmapNotify

/-!
# Write seals of memfds

`add_seals` grants `F_SEAL_WRITE` while `writable_shared_mappings` is zero. The system here is the one of
the address spaces with two more steps: an address space is dropped, and a seal is added.

`sealed_of_run` proves that the count of a memfd is the number of pages of its writable shared mappings in
all address spaces, so that the seal is granted only where there is none, in the runs in which no step
grows such a mapping where it stands. `sealed_while_mapped` is a run with such a step: `mremap` grows a
mapping by a page that is not counted, the unmapping takes off one page too many, and the seal is granted
while another writable mapping exists.
-/

namespace RespOS.Fs

/-- The seals that `add_seals` is asked for. -/
structure SealRequest where
  sealSeal : Bool := false
  sealWrite : Bool := false
  /-- A bit outside `F_SEAL_MASK`. -/
  unknown : Bool := false

def Kernel.addSeals (k : Kernel) (f : Nat) (req : SealRequest) : Except Errno Unit × Kernel :=
  match (k.files f).object with
  | .memfd id =>
    let fd := k.memfds id
    if req.unknown then (.error .EINVAL, k)
    else if !(k.files f).writable then (.error .EPERM, k)
    else if fd.sealSeal then (.error .EPERM, k)
    else if req.sealWrite && decide (0 < fd.writableSharedMappings) then (.error .EBUSY, k)
    else
      let fd := { fd with
        sealSeal := fd.sealSeal || req.sealSeal
        sealWrite := fd.sealWrite || req.sealWrite }
      (.ok (), { k with memfds := Function.update k.memfds id fd })
  | _ => (.error .EINVAL, k)

theorem Kernel.addSeals_eq (k : Kernel) (f : Nat) (req : SealRequest) :
    ∃ memfds, (k.addSeals f req).2 = { k with memfds := memfds } ∧
      ∀ id, (memfds id).writableSharedMappings = (k.memfds id).writableSharedMappings := by
  fun_cases addSeals k f req with
  | case5 id =>
    refine ⟨_, rfl, fun id' ↦ ?_⟩
    by_cases heq : id' = id
    · subst heq
      rw [Function.update_self]
    · rw [Function.update_of_ne heq]
  | _ => exact ⟨k.memfds, rfl, fun _ ↦ rfl⟩

end RespOS.Fs

namespace RespOS.Mm

open RespOS.Basis RespOS.Fs

/-- The steps: one of the address spaces, the drop of an address space, and a call of `add_seals`. -/
inductive SealLabel
  | mm (l : Label)
  | drop (sid : Nat)
  | addSeals (f : Nat) (req : SealRequest)

namespace Machine

def sealNext (m : Machine) : SealLabel → Option Machine
  | .mm l => m.next l
  | .drop sid => (m.spaces[sid]?).map fun ms ↦
      { m with k := MemorySet.notifyAllClose ms.areas m.k, spaces := m.spaces.eraseIdx sid }
  | .addSeals f req => some { m with k := (m.k.addSeals f req).2 }

def SealStep (m : Machine) (l : SealLabel) (m' : Machine) : Prop :=
  (∀ l', l = .mm l' → m.Admissible l') ∧ m.sealNext l = some m'

/-- The system starts with empty address spaces; a new memfd has no mappings. -/
structure SealInit (m : Machine) : Prop where
  init : m.Init
  unmapped : ∀ id, (m.k.memfds id).writableSharedMappings = 0

/-- The condition: an operation does not grow a writable shared mapping of a memfd where it stands. -/
def KeepsCount (m : Machine) : SealLabel → Prop
  | .mm l => ∀ ms op, m.spaces[l.sid]? = some ms → l.action = .op op → op.Counted ⟨ms, m.k⟩
  | _ => True

/-- The pages of the writable shared mappings of a memfd, in all address spaces. -/
def writablePages (m : Machine) (id : Nat) : Nat :=
  (m.spaces.map fun ms ↦ Mm.writablePages m.k.files id ms.areas).sum

/-- The count of every memfd is the number of these pages. -/
def Balanced (m : Machine) : Prop :=
  ∀ id, (m.k.memfds id).writableSharedMappings = m.writablePages id

section Steps

variable {m m' : Machine}

variable {sid : Nat} {ms : MemorySet} {k' : Kernel}

theorem sum_spaces {spaces : List MemorySet} (f : MemorySet → Nat) (hms : spaces[sid]? = some ms) :
    (spaces.map f).sum = f ms + ((spaces.eraseIdx sid).map f).sum ∧
      ∀ ms', ((spaces.set sid ms').map f).sum = f ms' + ((spaces.eraseIdx sid).map f).sum := by
  obtain ⟨hlt, rfl⟩ := List.getElem?_eq_some_iff.mp hms
  refine ⟨?_, fun ms' ↦ ?_⟩
  · exact (((List.getElem_cons_eraseIdx_perm hlt).map f).sum_eq).symm
  · exact ((List.set_perm_cons_eraseIdx hlt ms').map f).sum_eq

section

variable (h : m.Balanced)
include h

theorem Balanced.set {ms' : MemorySet} (hms : m.spaces[sid]? = some ms)
    (htally : Tallies ms.areas m.k ms'.areas k') :
    Balanced { m with k := k', spaces := m.spaces.set sid ms' } := by
  intro id
  obtain ⟨htotal, hset⟩ := sum_spaces (fun ms ↦ Mm.writablePages m.k.files id ms.areas) hms
  have hmoved := htally.count id _ ((h id).trans htotal)
  rw [writablePages, htally.files, hset ms']
  exact hmoved

theorem Balanced.append {child : MemorySet} (htally : Tallies [] m.k child.areas k') :
    Balanced { m with k := k', spaces := m.spaces ++ [child] } := by
  intro id
  have hmoved := htally.count id _ ((h id).trans (Nat.zero_add _).symm)
  rw [hmoved]
  simp only [writablePages, htally.files, List.map_append, List.map_cons, List.map_nil,
    List.sum_append, List.sum_cons, List.sum_nil]
  omega

theorem Balanced.erase (hms : m.spaces[sid]? = some ms) (htally : Tallies ms.areas m.k [] k') :
    Balanced { m with k := k', spaces := m.spaces.eraseIdx sid } := by
  intro id
  obtain ⟨htotal, -⟩ := sum_spaces (fun ms ↦ Mm.writablePages m.k.files id ms.areas) hms
  have hmoved := htally.count id _ ((h id).trans htotal)
  rw [writablePages_nil, Nat.zero_add] at hmoved
  rw [writablePages, htally.files]
  exact hmoved

theorem Balanced.same {segments : List (List Nat)} (hsame : m.k.SameMemfds k') :
    Balanced { m with k := k', segments := segments } := by
  intro id
  rw [hsame.memfds, h id]
  simp only [writablePages, hsame.files]

theorem Balanced.next {l : Label} (hinv : m.Inv) (hadm : m.Admissible l)
    (hcounted : m.KeepsCount (.mm l)) (hnext : m.next l = some m') : m'.Balanced := by
  have hsettled : (m.settle l).Balanced := h.same ⟨rfl, rfl⟩
  have hinv' := hinv.settle hadm
  obtain ⟨ms, hms, hact⟩ := Option.bind_eq_some_iff.mp hnext
  have hms' : (m.settle l).spaces[l.sid]? = some ms := hms
  revert hact
  fun_cases (m.settle l).act l ms with try rintro ⟨⟩
  | case2 op haction s hrun =>
    have hop : op.Counted ⟨ms, (m.settle l).k⟩ := by
      have hop := hcounted ms op hms haction
      cases op <;> exact hop
    exact hsettled.set hms'
      (tallies_runOp (hinv'.sound ms (List.mem_of_getElem? hms')).geometry hop s hrun)
  | case4 _ e s hres =>
    have hfork := MemorySet.tallies_fork ⟨ms, (m.settle l).k⟩
    rw [hres] at hfork
    refine hsettled.set hms' ?_
    have hframe := hfork.2.frame ms.areas []
    simpa [hfork.1] using hframe
  | case5 _ child s hres =>
    have hfork := MemorySet.tallies_fork ⟨ms, (m.settle l).k⟩
    rw [hres] at hfork
    have hparent : Balanced { m.settle l with spaces := (m.settle l).spaces.set l.sid s.ms } :=
      hsettled.set hms' (by simpa [hfork.1] using Tallies.refl ms.areas (m.settle l).k)
    exact hparent.append hfork.2
  | case6 | case8 | case9 =>
    exact hsettled.same (Kernel.sameMemfds_setPhys _ _)

end

theorem Inv.sealStep {l : SealLabel} (h : m.Inv) (hstep : m.SealStep l m') : m'.Inv := by
  obtain ⟨hadm, hnext⟩ := hstep
  cases l with
  | mm l =>
    obtain ⟨hsettled, hadvance⟩ := Step.advance h ⟨hadm l rfl, hnext⟩
    exact hadvance.inv hsettled
  | drop sid =>
    obtain ⟨ms, -, rfl⟩ := Option.map_eq_some_iff.mp hnext
    exact h.of_obtains (MemorySet.obtains_notifyAllClose ms.areas h.kernel)
      (fun ms hms ↦ .inl (List.mem_of_mem_eraseIdx hms)) fun _ hframes ↦ hframes
  | addSeals f req =>
    obtain rfl := Option.some.inj hnext
    obtain ⟨memfds, heq, -⟩ := m.k.addSeals_eq f req
    refine h.of_obtains ?_ (fun ms hms ↦ .inl hms) fun _ hframes ↦ hframes
    rw [heq]
    exact Kernel.obtains_memfds h.kernel memfds

theorem Balanced.sealStep {l : SealLabel} (h : m.Balanced) (hinv : m.Inv) (hcount : m.KeepsCount l)
    (hstep : m.SealStep l m') : m'.Balanced := by
  obtain ⟨hadm, hnext⟩ := hstep
  cases l with
  | mm l => exact h.next hinv (hadm l rfl) hcount hnext
  | drop sid =>
    obtain ⟨ms, hms, rfl⟩ := Option.map_eq_some_iff.mp hnext
    exact h.erase hms (tallies_notifyAllClose ms.areas m.k)
  | addSeals f req =>
    obtain rfl := Option.some.inj hnext
    obtain ⟨memfds, heq, hsame⟩ := m.k.addSeals_eq f req
    intro id
    rw [heq]
    exact (hsame id).trans (h id)

theorem SealInit.balanced (h : m.SealInit) : m.Balanced := by
  intro id
  have hzero : (m.spaces.map fun ms ↦ Mm.writablePages m.k.files id ms.areas) =
      m.spaces.map fun _ ↦ 0 := by
    refine List.map_congr_left fun ms hms ↦ ?_
    rw [(h.init.spaces ms hms).1, writablePages_nil]
  rw [h.unmapped id, writablePages, hzero]
  simp

theorem balanced_of_run (hrun : Run SealInit KeepsCount SealStep m) : m.Inv ∧ m.Balanced :=
  hrun.invariant (I := fun m ↦ m.Inv ∧ m.Balanced) (fun _ hm ↦ ⟨hm.init.inv, hm.balanced⟩)
    fun _ _ _ hm hcount hstep ↦ ⟨hm.1.sealStep hstep, hm.2.sealStep hm.1 hcount hstep⟩

end Steps

theorem not_mapped_of_zero {m : Machine} {id : Nat} (hinv : m.Inv) (hzero : m.writablePages id = 0) :
    ∀ ms ∈ m.spaces, ∀ a ∈ ms.areas, a.writableMemfd m.k.files ≠ some id := by
  intro ms hms a ha hmemfd
  have hspace : Mm.writablePages m.k.files id ms.areas ≤ m.writablePages id :=
    List.le_sum_of_mem (List.mem_map_of_mem hms)
  have harea : a.writablePages m.k.files id ≤ Mm.writablePages m.k.files id ms.areas :=
    List.le_sum_of_mem (List.mem_map_of_mem ha)
  have hnonempty := ((hinv.sound ms hms).geometry.wellFormed ha).nonempty
  simp only [MapArea.writablePages, hmemfd, if_true, MapArea.pageCount, VPNRange.pageCount] at harea
  simp only [MapArea.start, MapArea.stop] at hnonempty
  omega

/-- In every run that grows no writable shared mapping of a memfd where it stands, the count of a memfd is
the number of pages of its writable shared mappings in all address spaces, and `add_seals` grants
`F_SEAL_WRITE` only where there is no such mapping. -/
theorem sealed_of_run {m : Machine} (hrun : Run SealInit KeepsCount SealStep m) :
    (∀ id, (m.k.memfds id).writableSharedMappings = m.writablePages id) ∧
      ∀ f id req k, (m.k.files f).object = .memfd id → req.sealWrite = true →
        m.k.addSeals f req = (.ok (), k) →
        ∀ ms ∈ m.spaces, ∀ a ∈ ms.areas, a.writableMemfd m.k.files ≠ some id := by
  obtain ⟨hinv, hbalanced⟩ := balanced_of_run hrun
  refine ⟨hbalanced, fun f id req k hobj hwrite hseal ↦ ?_⟩
  refine not_mapped_of_zero hinv ((hbalanced id).symm.trans ?_)
  by_contra hpos
  have hbusy : (req.sealWrite && decide (0 < (m.k.memfds id).writableSharedMappings)) = true := by
    simp [hwrite, Nat.pos_of_ne_zero hpos]
  unfold Kernel.addSeals at hseal
  simp only [hobj, hbusy, if_true] at hseal
  split_ifs at hseal <;> simp at hseal

/-! ### Runs -/

/-- A computed list of steps that leave the allocator alone and attach no segment shows that a state
with a decidable property is reached. -/
theorem exists_of_sealLabels {ok : Machine → SealLabel → Prop} {P : Machine → Prop} [DecidablePred P]
    {m : Machine} (hinit : m.SealInit) {labels : List SealLabel} (hplain : ∀ l, .mm l ∈ labels → Plain l)
    (hok : ∀ l ∈ labels, ∀ m, ok m l)
    (h : (labels.foldlM sealNext m).any (fun m' ↦ decide (P m')) = true) :
    ∃ m', Run SealInit ok SealStep m' ∧ P m' := by
  refine Run.exists_of_foldlM (fun l hl m _ hnext ↦ ⟨hok l hl m, ?_, hnext⟩) hinit h
  rintro l' rfl
  exact admissible_of_plain (hplain l' hl)

instance decidableGranted (k : Kernel) (f : Nat) (req : SealRequest) :
    Decidable (∃ k', k.addSeals f req = (.ok (), k')) :=
  match k.addSeals f req with
  | (.ok (), k') => isTrue ⟨k', rfl⟩
  | (.error _, _) => isFalse (by simp)

def memfdSpace : Machine where
  k := .boot [] (fun _ ↦ .empty) (fun _ ↦ { object := .memfd 0 }) (fun _ ↦ { data := .empty })
    (fun _ ↦ .empty) 2
  spaces := [{ pageTable := .fromKernel 1 }]

theorem init_memfdSpace : memfdSpace.SealInit where
  init := init_oneSpace
  unmapped _ := rfl

def mapMemfd (addr : Nat) : SealLabel :=
  .mm { sid := 0, action := .op (.mmap ⟨some addr, 0x1000, pageSize_pos, .rwu, true, false, false, false⟩
      (.file 0 0 true)) }

/-- Two writable shared pages; the first grows by a page where it stands and is unmapped. The count is
zero, and the write seal is granted, while the second is mapped. -/
theorem sealed_while_mapped : ∃ m, Run SealInit (fun _ _ ↦ True) SealStep m ∧
      (m.k.memfds 0).writableSharedMappings = 0 ∧ m.writablePages 0 = 1 ∧
      (∃ k, m.k.addSeals 0 { sealWrite := true } = (.ok (), k)) ∧
      ∃ ms ∈ m.spaces, ∃ a ∈ ms.areas, a.writableMemfd m.k.files = some 0 := by
  have hplain : ∀ l, .mm l ∈ [mapMemfd 0x2000000000, mapMemfd 0x2000010000,
      .mm { sid := 0, action := .op (.mremap 0x2000000000 0x1000 0x2000 false none) },
      .mm { sid := 0, action := .op (.munmap 0x2000000000 0x2000) }] → Plain l := by
    simp [mapMemfd, Plain]
  refine exists_of_sealLabels init_memfdSpace hplain (fun _ _ _ ↦ trivial) ?_
  decide +kernel

/-- One writable shared page is made read-only and another is unmapped: the count is zero, and no
writable shared mapping is left when the seal is granted. -/
theorem sealed_after_mprotect :
    ∃ m, Run SealInit KeepsCount SealStep m ∧ (m.k.memfds 0).writableSharedMappings = 0 ∧
      m.writablePages 0 = 0 ∧ (∃ k, m.k.addSeals 0 { sealWrite := true } = (.ok (), k)) ∧
      (∃ ms ∈ m.spaces, ms.areas ≠ []) ∧
      ∀ ms ∈ m.spaces, ∀ a ∈ ms.areas, a.writableMemfd m.k.files ≠ some 0 := by
  have hplain : ∀ l, .mm l ∈ [mapMemfd 0x2000000000, mapMemfd 0x2000010000,
      .mm { sid := 0, action := .op (.mprotect ⟨⟨0x2000000, 0x2000001⟩, by decide⟩ { read := true }) },
      .mm { sid := 0, action := .op (.munmap 0x2000010000 0x1000) }] → Plain l := by
    simp [mapMemfd, Plain]
  obtain ⟨m, hrun, hcount, hfile, ⟨k, hseal⟩, hareas⟩ : ∃ m, Run SealInit KeepsCount SealStep m ∧
      (m.k.memfds 0).writableSharedMappings = 0 ∧ (m.k.files 0).object = .memfd 0 ∧
      (∃ k, m.k.addSeals 0 { sealWrite := true } = (.ok (), k)) ∧ ∃ ms ∈ m.spaces, ms.areas ≠ [] := by
    refine exists_of_sealLabels init_memfdSpace hplain (fun l hl m ↦ ?_) ?_
    · simp only [mapMemfd, List.mem_cons, List.not_mem_nil, or_false] at hl
      rcases hl with rfl | rfl | rfl | rfl <;>
        (intro ms op _ hop; obtain rfl := Action.op.inj hop; trivial)
    · decide +kernel
  obtain ⟨hbalanced, hsealed⟩ := sealed_of_run hrun
  exact ⟨m, hrun, hcount, (hbalanced 0).symm.trans hcount, ⟨k, hseal⟩, hareas,
    hsealed 0 0 _ k hfile rfl hseal⟩

end Machine

end RespOS.Mm
