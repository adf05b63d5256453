import RespOS.Mm.Address
import RespOS.Mm.Frame

/-!
# Permissions, page-table entries and the Sv39 table

`MapPermission` and `PTEFlags` are the bit sets of `mm/memory_set.rs` and of
`arch/rv64/mm/page_table.rs`, one Boolean field for each bit. The user half of the three-level table
is a tree: a root page whose entries lead to middle pages, whose entries lead to leaf pages of
entries. Branch entries are written by `find_pte_create` only, always with VALID as their single
flag, so a branch is either absent or present.

The walk of `translate` stops at the first entry with READ or EXECUTE set. A branch entry has
neither, hence a page translates exactly when its leaf entry is valid and readable or executable
(`translate_eq_some`); an entry written with neither bit is valid but invisible to `translate`.

The operations above this module are stated through `PageTable.entry`, the leaf entry of a page
where a missing leaf counts as an empty entry: each operation changes it at one page.
-/

namespace RespOS.Mm

open Function (update update_of_ne)

/-! ### Permission bits -/

/-- `MapPermission`, the permission bits of a mapping. -/
structure MapPermission where
  read : Bool := false
  write : Bool := false
  execute : Bool := false
  user : Bool := false
  global : Bool := false
  accessed : Bool := false
  dirty : Bool := false
  deriving DecidableEq, Repr

/-- `PTEFlags`, the flag bits of a page-table entry; COW is a software bit. -/
structure PTEFlags where
  valid : Bool := false
  read : Bool := false
  write : Bool := false
  execute : Bool := false
  user : Bool := false
  global : Bool := false
  accessed : Bool := false
  dirty : Bool := false
  cow : Bool := false
  deriving DecidableEq, Repr

namespace MapPermission

def contains (p wanted : MapPermission) : Bool :=
  (!wanted.read || p.read) && (!wanted.write || p.write) && (!wanted.execute || p.execute) &&
    (!wanted.user || p.user) && (!wanted.global || p.global) &&
    (!wanted.accessed || p.accessed) && (!wanted.dirty || p.dirty)

/-- `READ | WRITE | USER`, the permission of an anonymous heap page. -/
def rwu : MapPermission := { read := true, write := true, user := true }

def accessible (p : MapPermission) : Bool := p.read || p.write || p.execute

end MapPermission

namespace PTEFlags

/-- `PTEFlags::from(MapPermission)`: the same bits, and WRITE implies READ. -/
def ofPerm (p : MapPermission) : PTEFlags where
  valid := false
  read := p.read || p.write
  write := p.write
  execute := p.execute
  user := p.user
  global := p.global
  accessed := p.accessed
  dirty := p.dirty
  cow := false

/-- `flags | VALID | ACCESSED | DIRTY`, as every leaf entry is written. -/
def mapped (f : PTEFlags) : PTEFlags := { f with valid := true, accessed := true, dirty := true }

def removeWrite (f : PTEFlags) : PTEFlags := { f with write := false }

end PTEFlags

/-- `PageTableEntry`: a frame number and the flags. -/
structure PageTableEntry where
  ppn : Nat := 0
  flags : PTEFlags := {}
  deriving DecidableEq, Repr

namespace PageTableEntry

def isValid (e : PageTableEntry) : Bool := e.flags.valid

def readable (e : PageTableEntry) : Bool := e.flags.read

def writable (e : PageTableEntry) : Bool := e.flags.write

def executable (e : PageTableEntry) : Bool := e.flags.execute

def isCow (e : PageTableEntry) : Bool := e.flags.cow

/-- A store through the entry succeeds: it is valid and writable. The copy-on-write mark is a bit of
the kernel's own, which the hardware ignores. -/
def storable (e : PageTableEntry) : Bool := e.isValid && e.writable

/-- The walk stops at this entry: it is valid and readable or executable. -/
def visible (e : PageTableEntry) : Bool := e.isValid && (e.readable || e.executable)

theorem isValid_of_visible {e : PageTableEntry} (h : e.visible = true) : e.isValid = true :=
  (Bool.and_eq_true_iff.mp h).1

end PageTableEntry

/-! ### The table -/

/-- A page of leaf entries. -/
structure LeafTable where
  ppn : Nat
  entries : Nat → PageTableEntry

/-- A page whose entries are absent or lead to leaf pages. -/
structure MidTable where
  ppn : Nat
  entries : Nat → Option LeafTable

/-- `PageTable`: the root page, the frames of all table pages, and the user half of the tree. -/
structure PageTable where
  rootPpn : Nat
  frames : List Nat
  root : Nat → Option MidTable

namespace PageTable

/-- A table with an empty user half, as `PageTable::from_kernel` builds it on a fresh frame. -/
def fromKernel (ppn : Nat) : PageTable := ⟨ppn, [ppn], fun _ ↦ none⟩

/-- The root index of `VirtPageNum::indexes`. User pages lie below `2 ^ 27`, where the mask of the
source changes nothing. -/
def index0 (vpn : Nat) : Nat := vpn / 2 ^ 18

/-- The middle index of `VirtPageNum::indexes`. -/
def index1 (vpn : Nat) : Nat := vpn / 2 ^ 9 % 512

/-- The leaf index of `VirtPageNum::indexes`. -/
def index2 (vpn : Nat) : Nat := vpn % 512

/-- The leaf page that holds the entry of a page, if the branches to it exist. -/
def findLeaf (pt : PageTable) (vpn : Nat) : Option LeafTable :=
  (pt.root (index0 vpn)).bind fun mid ↦ mid.entries (index1 vpn)

def findPte (pt : PageTable) (vpn : Nat) : Option PageTableEntry :=
  (pt.findLeaf vpn).map fun leaf ↦ leaf.entries (index2 vpn)

/-- The leaf entry of a page; a missing leaf page counts as an empty entry. -/
def entry (pt : PageTable) (vpn : Nat) : PageTableEntry := (pt.findPte vpn).getD {}

/-- `translate`: the walk yields the leaf entry when it is valid and has READ or EXECUTE, and
nothing otherwise. -/
def translate (pt : PageTable) (vpn : Nat) : Option PageTableEntry :=
  match pt.findPte vpn with
  | some pte => if pte.visible then some pte else none
  | none => none

/-- Writes the leaf entry of a page whose leaf page exists. -/
def setPte (pt : PageTable) (vpn : Nat) (pte : PageTableEntry) : PageTable :=
  match pt.root (index0 vpn) with
  | none => pt
  | some mid =>
    match mid.entries (index1 vpn) with
    | none => pt
    | some leaf =>
      let leaf := { leaf with entries := update leaf.entries (index2 vpn) pte }
      let mid := { mid with entries := update mid.entries (index1 vpn) (some leaf) }
      { pt with root := update pt.root (index0 vpn) (some mid) }

/-- The first round of `find_pte_create`: the middle page exists or is allocated. -/
def createMid (pt : PageTable) (phys : Phys) (vpn : Nat) : Bool × PageTable × Phys :=
  match pt.root (index0 vpn) with
  | some _ => (true, pt, phys)
  | none =>
    match phys.frameAlloc with
    | (none, phys) => (false, pt, phys)
    | (some ppn, phys) =>
      (true,
        { pt with
          frames := pt.frames ++ [ppn]
          root := update pt.root (index0 vpn) (some ⟨ppn, fun _ ↦ none⟩) }, phys)

/-- The second round of `find_pte_create`: the leaf page exists or is allocated. -/
def createLeaf (pt : PageTable) (phys : Phys) (vpn : Nat) : Bool × PageTable × Phys :=
  match pt.root (index0 vpn) with
  | none => (false, pt, phys)
  | some mid =>
    match mid.entries (index1 vpn) with
    | some _ => (true, pt, phys)
    | none =>
      match phys.frameAlloc with
      | (none, phys) => (false, pt, phys)
      | (some ppn, phys) =>
        let mid := { mid with
          entries := update mid.entries (index1 vpn) (some ⟨ppn, fun _ ↦ {}⟩) }
        (true,
          { pt with
            frames := pt.frames ++ [ppn]
            root := update pt.root (index0 vpn) (some mid) }, phys)

/-- `find_pte_create`: both branches exist or are allocated; the table pages allocated before a
failure stay in the table. -/
def findPteCreate (pt : PageTable) (phys : Phys) (vpn : Nat) : Bool × PageTable × Phys :=
  match pt.createMid phys vpn with
  | (false, pt, phys) => (false, pt, phys)
  | (true, pt, phys) => pt.createLeaf phys vpn

/-- `map`: installs a leaf entry where there is no valid one. -/
def map (pt : PageTable) (phys : Phys) (vpn ppn : Nat) (flags : PTEFlags) :
    Except Errno Unit × PageTable × Phys :=
  match pt.findPteCreate phys vpn with
  | (false, pt, phys) => (.error .ENOMEM, pt, phys)
  | (true, pt, phys) =>
    if (pt.entry vpn).isValid then (.error .EEXIST, pt, phys)
    else (.ok (), pt.setPte vpn ⟨ppn, flags.mapped⟩, phys)

/-- `try_unmap`: clears a valid leaf entry. -/
def tryUnmap (pt : PageTable) (vpn : Nat) : PageTable :=
  if (pt.entry vpn).isValid then pt.setPte vpn {} else pt

/-- `modify_pte`: new flags for the same frame. The source panics where there is no valid entry;
its callers have just translated the page. -/
def modifyPte (pt : PageTable) (vpn : Nat) (flags : PTEFlags) : PageTable :=
  if (pt.entry vpn).isValid then pt.setPte vpn ⟨(pt.entry vpn).ppn, flags.mapped⟩ else pt

/-- `replace_pte`: a new frame and new flags for a page with a valid entry, without allocation. -/
def replacePte (pt : PageTable) (vpn ppn : Nat) (flags : PTEFlags) : Except Errno PageTable :=
  if (pt.entry vpn).isValid then .ok (pt.setPte vpn ⟨ppn, flags.mapped⟩) else .error .EFAULT

/-- `set_pte_cow` and `make_pte_cow`. -/
def setPteCow (pt : PageTable) (vpn : Nat) : PageTable :=
  pt.setPte vpn { pt.entry vpn with flags := { (pt.entry vpn).flags with cow := true } }

def clearPteCow (pt : PageTable) (vpn : Nat) : PageTable :=
  pt.setPte vpn { pt.entry vpn with flags := { (pt.entry vpn).flags with cow := false } }

/-! ### The table through its entries -/

section Entries

variable {pt pt' : PageTable} {phys phys' : Phys} {vpn ppn : Nat} {flags : PTEFlags}

theorem index_ext {v w : Nat} (h0 : index0 v = index0 w) (h1 : index1 v = index1 w)
    (h2 : index2 v = index2 w) : v = w := by
  unfold index0 at h0
  unfold index1 at h1
  unfold index2 at h2
  omega

theorem translate_eq (pt : PageTable) (vpn : Nat) :
    pt.translate vpn = if (pt.entry vpn).visible then some (pt.entry vpn) else none := by
  unfold translate entry
  cases pt.findPte vpn with
  | none => simp [PageTableEntry.visible, PageTableEntry.isValid]
  | some pte => rfl

theorem translate_eq_some {pte : PageTableEntry} :
    pt.translate vpn = some pte ↔ pt.entry vpn = pte ∧ pte.visible = true := by
  rw [translate_eq]
  split_ifs with h
  · constructor
    · intro heq
      obtain rfl := Option.some.inj heq
      exact ⟨rfl, h⟩
    · rintro ⟨rfl, -⟩
      rfl
  · simp only [false_iff, not_and]
    rintro rfl
    exact h

theorem isValid_of_translate {pte : PageTableEntry} (h : pt.translate vpn = some pte) :
    (pt.entry vpn).isValid = true := by
  obtain ⟨rfl, hvisible⟩ := translate_eq_some.mp h
  exact PageTableEntry.isValid_of_visible hvisible

theorem findLeaf_isSome_of_isValid (h : (pt.entry vpn).isValid = true) :
    (pt.findLeaf vpn).isSome = true := by
  cases hleaf : pt.findLeaf vpn with
  | none => simp [entry, findPte, hleaf, PageTableEntry.isValid] at h
  | some leaf => rfl

theorem entry_setPte (hleaf : (pt.findLeaf vpn).isSome = true) (pte : PageTableEntry) (v : Nat) :
    (pt.setPte vpn pte).entry v = if v = vpn then pte else pt.entry v := by
  obtain ⟨mid, hmid, leaf, hl⟩ : ∃ mid, pt.root (index0 vpn) = some mid ∧
      ∃ leaf, mid.entries (index1 vpn) = some leaf := by
    cases hroot : pt.root (index0 vpn) with
    | none => simp [findLeaf, hroot] at hleaf
    | some mid => exact ⟨mid, rfl, Option.isSome_iff_exists.mp (by simpa [findLeaf, hroot] using hleaf)⟩
  simp only [setPte, hmid, hl, entry, findPte, findLeaf]
  by_cases h0 : index0 v = index0 vpn
  · by_cases h1 : index1 v = index1 vpn
    · by_cases h2 : index2 v = index2 vpn
      · obtain rfl := index_ext h0 h1 h2
        simp
      · have hne : v ≠ vpn := fun h ↦ h2 (h ▸ rfl)
        simp [h0, h1, hmid, hl, update_of_ne h2, hne]
    · have hne : v ≠ vpn := fun h ↦ h1 (h ▸ rfl)
      simp [h0, hmid, update_of_ne h1, hne]
  · have hne : v ≠ vpn := fun h ↦ h0 (h ▸ rfl)
    simp [update_of_ne h0, hne]

theorem createMid_spec {ok : Bool} (h : pt.createMid phys vpn = (ok, pt', phys')) :
    phys.Consumes phys' ∧ ∀ v, pt'.entry v = pt.entry v := by
  revert h
  fun_cases pt.createMid phys vpn with rintro ⟨⟩
  | case1 =>
    exact ⟨Phys.Consumes.refl _, fun _ ↦ rfl⟩
  | case2 _ phys₁ halloc =>
    exact ⟨⟨0, Phys.frameAlloc_none halloc⟩, fun _ ↦ rfl⟩
  | case3 hnone frame phys₁ halloc =>
    refine ⟨⟨1, (Phys.frameAlloc_some halloc).2.1⟩, fun v ↦ ?_⟩
    by_cases h0 : index0 v = index0 vpn
    · simp [entry, findPte, findLeaf, h0, hnone]
    · simp [entry, findPte, findLeaf, update_of_ne h0]

theorem createLeaf_spec {ok : Bool} (h : pt.createLeaf phys vpn = (ok, pt', phys')) :
    phys.Consumes phys' ∧ (∀ v, pt'.entry v = pt.entry v) ∧
      (ok = true → (pt'.findLeaf vpn).isSome = true) := by
  revert h
  fun_cases pt.createLeaf phys vpn with rintro ⟨⟩
  | case1 =>
    exact ⟨Phys.Consumes.refl _, fun _ ↦ rfl, by simp⟩
  | case2 mid hmid leaf hleaf =>
    exact ⟨Phys.Consumes.refl _, fun _ ↦ rfl, fun _ ↦ by simp [findLeaf, hmid, hleaf]⟩
  | case3 mid hmid hnone phys₁ halloc =>
    exact ⟨⟨0, Phys.frameAlloc_none halloc⟩, fun _ ↦ rfl, by simp⟩
  | case4 mid hmid hnone frame phys₁ halloc mid' =>
    refine ⟨⟨1, (Phys.frameAlloc_some halloc).2.1⟩, fun v ↦ ?_, fun _ ↦ by simp [findLeaf, mid']⟩
    by_cases h0 : index0 v = index0 vpn
    · by_cases h1 : index1 v = index1 vpn
      · simp [entry, findPte, findLeaf, h0, h1, hmid, hnone, mid']
      · simp [entry, findPte, findLeaf, h0, hmid, update_of_ne h1, mid']
    · simp [entry, findPte, findLeaf, update_of_ne h0]

theorem findPteCreate_spec {ok : Bool} (h : pt.findPteCreate phys vpn = (ok, pt', phys')) :
    phys.Consumes phys' ∧ (∀ v, pt'.entry v = pt.entry v) ∧
      (ok = true → (pt'.findLeaf vpn).isSome = true) := by
  revert h
  fun_cases pt.findPteCreate phys vpn with
  | case1 pt₁ phys₁ hmid =>
    rintro ⟨⟩
    obtain ⟨hphys, hentry⟩ := createMid_spec hmid
    exact ⟨hphys, hentry, by simp⟩
  | case2 pt₁ phys₁ hmid =>
    intro h
    obtain ⟨hphys, hentry⟩ := createMid_spec hmid
    obtain ⟨hphys', hentry', hleaf⟩ := createLeaf_spec h
    exact ⟨hphys.trans hphys', fun v ↦ (hentry' v).trans (hentry v), hleaf⟩

/-- What `map` does to the entries: on success it installs one entry at a page that had no valid
one, on an error it changes none. -/
theorem map_spec {r : Except Errno Unit} (h : pt.map phys vpn ppn flags = (r, pt', phys')) :
    phys.Consumes phys' ∧
      ((r = .ok () ∧ (pt.entry vpn).isValid = false ∧
          ∀ v, pt'.entry v = if v = vpn then ⟨ppn, flags.mapped⟩ else pt.entry v) ∨
        ((∃ e, r = .error e) ∧ ∀ v, pt'.entry v = pt.entry v)) := by
  revert h
  fun_cases pt.map phys vpn ppn flags with
  | case1 pt₁ phys₁ hcreate | case2 pt₁ phys₁ hcreate =>
    rintro ⟨⟩
    obtain ⟨hphys, hentry, -⟩ := findPteCreate_spec hcreate
    exact ⟨hphys, .inr ⟨⟨_, rfl⟩, hentry⟩⟩
  | case3 pt₁ phys₁ hcreate hvalid =>
    rintro ⟨⟩
    obtain ⟨hphys, hentry, hleaf⟩ := findPteCreate_spec hcreate
    refine ⟨hphys, .inl ⟨rfl, ?_, fun v ↦ ?_⟩⟩
    · rw [← hentry]
      exact Bool.not_eq_true _ ▸ hvalid
    · rw [entry_setPte (hleaf rfl), hentry]

theorem entry_tryUnmap_of_ne {v : Nat} (hv : v ≠ vpn) : (pt.tryUnmap vpn).entry v = pt.entry v := by
  unfold tryUnmap
  split_ifs with hvalid
  · rw [entry_setPte (findLeaf_isSome_of_isValid hvalid), if_neg hv]
  · rfl

theorem isValid_entry_tryUnmap_self : ((pt.tryUnmap vpn).entry vpn).isValid = false := by
  unfold tryUnmap
  split_ifs with hvalid
  · rw [entry_setPte (findLeaf_isSome_of_isValid hvalid), if_pos rfl]
    rfl
  · exact Bool.not_eq_true _ ▸ hvalid

theorem entry_modifyPte (hvalid : (pt.entry vpn).isValid = true) (v : Nat) :
    (pt.modifyPte vpn flags).entry v =
      if v = vpn then ⟨(pt.entry vpn).ppn, flags.mapped⟩ else pt.entry v := by
  rw [modifyPte, if_pos hvalid, entry_setPte (findLeaf_isSome_of_isValid hvalid)]

theorem entry_replacePte (h : pt.replacePte vpn ppn flags = .ok pt') (v : Nat) :
    pt'.entry v = if v = vpn then ⟨ppn, flags.mapped⟩ else pt.entry v := by
  unfold replacePte at h
  split_ifs at h with hvalid
  obtain rfl := Except.ok.inj h
  rw [entry_setPte (findLeaf_isSome_of_isValid hvalid)]

section

variable (hvalid : (pt.entry vpn).isValid = true)
include hvalid

theorem entry_setPteCow (v : Nat) : (pt.setPteCow vpn).entry v =
      if v = vpn then ⟨(pt.entry vpn).ppn, { (pt.entry vpn).flags with cow := true }⟩
      else pt.entry v := by
  rw [setPteCow, entry_setPte (findLeaf_isSome_of_isValid hvalid)]

theorem entry_clearPteCow (v : Nat) : (pt.clearPteCow vpn).entry v =
      if v = vpn then ⟨(pt.entry vpn).ppn, { (pt.entry vpn).flags with cow := false }⟩
      else pt.entry v := by
  rw [clearPteCow, entry_setPte (findLeaf_isSome_of_isValid hvalid)]

theorem entry_modifyPte_clearPteCow (perm : MapPermission)
    (v : Nat) : ((pt.modifyPte vpn (.ofPerm perm)).clearPteCow vpn).entry v =
      if v = vpn then ⟨(pt.entry vpn).ppn, (PTEFlags.ofPerm perm).mapped⟩ else pt.entry v := by
  have hmod : ∀ w, (pt.modifyPte vpn (.ofPerm perm)).entry w = _ := entry_modifyPte hvalid
  rw [entry_clearPteCow (by rw [hmod, if_pos rfl]; rfl), hmod, hmod, if_pos rfl]
  split_ifs <;> rfl

end

@[simp] theorem entry_fromKernel (ppn v : Nat) : (fromKernel ppn).entry v = {} := rfl

end Entries

end PageTable

end RespOS.Mm
