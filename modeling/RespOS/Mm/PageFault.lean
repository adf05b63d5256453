import RespOS.Mm.Mmap

/-!
# Page faults, fork and kernel access to user memory

`handle_page_fault` with the copy-on-write branch, the first store to a shared file page, the lazy
installation of a page and the retry of a fault that another hart has resolved; the downward growth
of a stack area; `from_existed_user`, which builds the child of a fork; and
`copy_kernel_bytes_to_user` with the fault-in pass it makes first.

`Arc::strong_count` of a frame is the number of its owners: the records of all address spaces, the
pages of the page caches, and the System V segments.
-/

namespace RespOS.Mm

open RespOS.Fs

inductive PageFaultCause
  | instruction
  | load
  | store
  deriving DecidableEq, Repr

inductive PageFaultOutcome
  | minor
  | major
  | retry
  deriving DecidableEq, Repr

/-- The permission an access needs. -/
def PageFaultCause.neededPerm : PageFaultCause → MapPermission
  | .instruction => { execute := true }
  | .load => { read := true }
  | .store => { write := true }

def stackGuardGapPages : Nat := 256

namespace MemorySet

def setArea (ms : MemorySet) (idx : Nat) (a : MapArea) : MemorySet :=
  { ms with areas := ms.areas.set idx a }

/-- The state after a method of the area at `idx` has run. -/
def afterArea (s : MmState) (idx : Nat) (a : MapArea) (ps : PtState) : MmState :=
  ⟨s.ms.withPt ps.pt (s.ms.areas.set idx a), ps.k⟩

/-- `expand_grows_down`: the index of the area that grew by the page at the stack pointer, and the
address space after that. -/
def expandGrowsDown (ms : MemorySet) (faultVpn : Nat) (userSp : Option Nat) :
    Option (Nat × MemorySet) :=
  match userSp with
  | none => none
  | some sp =>
    if floorVpn (virtAddr sp) ≠ faultVpn then none
    else
      match ms.areas.findIdx? fun a ↦ a.growsDown && a.vpnRange.start == faultVpn + 1 with
      | none => none
      | some idx =>
        let tooClose := match idx with
          | 0 => false
          | prev + 1 =>
            match ms.areas[prev]? with
            | some before => decide (faultVpn - before.vpnRange.stop < stackGuardGapPages)
            | none => false
        if tooClose then none
        else
          ms.areas[idx]?.map fun a ↦
            (idx, ms.setArea idx { a with vpnRange := ⟨faultVpn, a.vpnRange.stop⟩ })

/-- `Arc::strong_count` of a frame, with `others` the owners outside this address space and outside
the page caches. -/
def strongCount (s : MmState) (others : Nat → Nat) (p : Nat) : Nat :=
  s.ms.count p + others p + s.k.caches.frameCount p

/-- The owners of a frame outside the page caches. -/
def pins (ms : MemorySet) (others : Nat → Nat) (p : Nat) : Nat := ms.count p + others p

/-- The copy-on-write branch: a frame with no other owner becomes writable again, any other frame,
and every frame of a file mapping, is replaced by a copy. -/
def cowFault (s : MmState) (others : Nat → Nat) (idx : Nat) (a : MapArea) (vpn : Nat) :
    Outcome MmState PageFaultOutcome :=
  if a.shared then .err .EFAULT s
  else if !a.mapPerm.write then .err .EFAULT s
  else
    match a.dataFrames[vpn]? with
    | none => .err .EFAULT s
    | some old =>
      if strongCount s others old = 1 ∧ a.fileBacking = none then
        let pt := (s.ms.pageTable.modifyPte vpn (PTEFlags.ofPerm a.mapPerm)).clearPteCow vpn
        .ok .minor { s with ms := { s.ms with pageTable := pt } }
      else
        match a.remapOneWithData ⟨s.ms.pageTable, s.k⟩ vpn (s.k.phys.mem old) with
        | (.error e, a, ps) => .err e (afterArea s idx a ps)
        | (.ok (), a, ps) => .ok .minor (afterArea s idx a ps)

/-- The first store to a resident page of a writable shared file mapping: space is reserved in the
file before the entry becomes writable. -/
def mkwriteFault (s : MmState) (io : IoEnv) (a : MapArea) (b : FileBacking) (vpn : Nat) :
    Outcome MmState PageFaultOutcome :=
  let pageOffset := (vpn - a.vpnRange.start) * pageSize
  match checkedAdd b.offset pageOffset with
  | none => .err Errno.EIO s
  | some fileOffset =>
    match s.k.getStat io b.file with
    | .error e => .err e s
    | .ok stat =>
      if stat.size ≤ fileOffset then .err Errno.EIO s
      else
        let writeLen := min (stat.size - fileOffset) pageSize
        match a.dataFrames[vpn]? with
        | none => .err .EFAULT s
        | some frame =>
          let data := (List.range writeLen).map (s.k.phys.mem frame)
          match s.k.reserveSharedMmapWrite io b.file fileOffset data with
          | (.error e, k) => .err e { s with k := k }
          | (.ok (), k) =>
            let pt := s.ms.pageTable.modifyPte vpn (PTEFlags.ofPerm a.mapPerm)
            .ok .minor ⟨{ s.ms with pageTable := pt }, k⟩

/-- The installation of a page that has no visible entry. -/
def lazyFault (s : MmState) (others : Nat → Nat) (io : IoEnv) (cause : PageFaultCause) (idx : Nat)
    (a : MapArea) (vpn : Nat) : Outcome MmState PageFaultOutcome :=
  if !a.mapPerm.contains cause.neededPerm then .err .EFAULT s
  else
    match a.mapOne ⟨s.ms.pageTable, s.k⟩ io (s.ms.pins others) vpn with
    | (.error e, a, ps) => .err e (afterArea s idx a ps)
    | (.ok requiredIo, a, ps) =>
      .ok (if requiredIo then .major else .minor) (afterArea s idx a ps)

def grants (pte : PageTableEntry) : PageFaultCause → Bool
  | .instruction => pte.executable
  | .load => pte.readable
  | .store => pte.writable

/-- `handle_page_fault` once the area of the page is known. -/
def faultInArea (s : MmState) (others : Nat → Nat) (io : IoEnv) (cause : PageFaultCause) (idx : Nat)
    (a : MapArea) (vpn : Nat) : Outcome MmState PageFaultOutcome :=
  if !a.mapPerm.user then .err .EFAULT s
  else
    match s.ms.pageTable.translate vpn with
    | none => lazyFault s others io cause idx a vpn
    | some pte =>
      if cause = .store ∧ pte.isCow = true then cowFault s others idx a vpn
      else
        match if cause = .store ∧ pte.writable = false ∧ a.shared = true ∧ a.mapPerm.write = true
          then a.fileBacking else none with
        | some b => mkwriteFault s io a b vpn
        | none =>
          if a.mapPerm.contains cause.neededPerm && grants pte cause then .ok .retry s
          else .err .EFAULT s

def handlePageFault (s : MmState) (others : Nat → Nat) (io : IoEnv) (cause : PageFaultCause)
    (stval : Nat) (userSp : Option Nat) : Outcome MmState PageFaultOutcome :=
  if stval = 0 ∨ trampoline ≤ stval then .err .EFAULT s
  else
    let vpn := floorVpn (virtAddr stval)
    match s.ms.areas.findIdx? fun a ↦ a.vpnRange.contain vpn with
    | some idx =>
      match s.ms.areas[idx]? with
      | some a => faultInArea s others io cause idx a vpn
      | none => .err .EFAULT s
    | none =>
      match s.ms.expandGrowsDown vpn userSp with
      | none => .err .EFAULT s
      | some (idx, ms) =>
        match ms.areas[idx]? with
        | some a => faultInArea { s with ms := ms } others io cause idx a vpn
        | none => .err .EFAULT s

/-! ### Fork -/

/-- The state of the copying loops of `from_existed_user`: both page tables, the kernel state, and
the pages copied so far. -/
structure ForkState where
  parent : PageTable
  child : PageTable
  k : Kernel
  copied : List Nat

/-- One resident page of a fork, and whether the copy succeeded: shared and read-only pages keep
their flags; a page of a writable private area becomes read-only and copy-on-write on both sides. -/
def forkPage (a : MapArea) (vpn ppn : Nat) (pte : PageTableEntry) (st : ForkState) :
    Except Errno Unit × ForkState :=
  let cow := !a.shared && a.mapPerm.write
  let flags := if cow then { pte.flags with write := false, dirty := false } else pte.flags
  match st.child.map st.k.phys vpn ppn flags with
  | (.error e, child, phys) => (.error e, { st with child := child, k := st.k.setPhys phys })
  | (.ok (), child, phys) =>
    (.ok (),
      { st with
        child := if cow then child.setPteCow vpn else child
        parent := if cow then (st.parent.modifyPte vpn flags).setPteCow vpn else st.parent
        k := st.k.setPhys phys })

/-- The loop over the pages of an area. A resident page without a visible entry is the `unwrap` that
fails. `frames` is the record of the child's area. -/
def forkPages (a : MapArea) : List Nat → Std.ExtTreeMap Nat Nat → ForkState →
    Outcome ForkState (Std.ExtTreeMap Nat Nat)
  | [], frames, st => .ok frames st
  | vpn :: rest, frames, st =>
    match if a.wipeOnFork || st.copied.contains vpn then none else a.dataFrames[vpn]? with
    | none => forkPages a rest frames st
    | some ppn =>
      match st.parent.translate vpn with
      | none => .panic
      | some pte =>
        match forkPage a vpn ppn pte { st with copied := st.copied ++ [vpn] } with
        | (.error e, st) => .err e st
        | (.ok (), st) => forkPages a rest (frames.insert vpn ppn) st

/-- The notifications of `recycle_data_pages`, which the drop of an address space runs. -/
def notifyAllClose (areas : List MapArea) (k : Kernel) : Kernel :=
  areas.foldl (fun k a ↦ a.notifyMmapClose k) k

/-- The loop over the areas of the parent; `areas` are those of the child, which is dropped where the
copy of a page fails. -/
def forkAreas : List MapArea → List MapArea → ForkState → Outcome ForkState (List MapArea)
  | [], areas, st => .ok areas st
  | a :: rest, areas, st =>
    if a.dontfork then forkAreas rest areas st
    else
      match forkPages a a.vpnRange.vpns ∅ st with
      | .panic => .panic
      | .err e st => .err e { st with k := notifyAllClose areas st.k }
      | .ok frames st =>
        let new := { a.fromAnother with dataFrames := frames }
        forkAreas rest (areas ++ [new]) { st with k := new.notifyMmapOpen st.k }

/-- `from_existed_user`: the address space of the child of a fork. -/
def fromExistedUser (s : MmState) : Outcome MmState MemorySet :=
  match s.k.phys.frameAlloc with
  | (none, phys) => .err .ENOMEM { s with k := s.k.setPhys phys }
  | (some root, phys) =>
    match forkAreas s.ms.areas []
        ⟨s.ms.pageTable, PageTable.fromKernel root, s.k.setPhys phys, []⟩ with
    | .panic => .panic
    | .err e st => .err e ⟨{ s.ms with pageTable := st.parent }, st.k⟩
    | .ok areas st =>
      .ok { s.ms with pageTable := st.child, areas := areas }
        ⟨{ s.ms with pageTable := st.parent }, st.k⟩

/-! ### Kernel access to user memory -/

/-- `check_user_access_range`: the first objection to an access of the pages. -/
def checkUserAccess (ms : MemorySet) (wanted : MapPermission) (vpns : List Nat) : Option Errno :=
  ms.checkPages .EFAULT
    (fun a ↦ if a.mapPerm.contains { wanted with user := true } then none else some .EFAULT) vpns

/-- `ensure_user_page_access` needs a fault for the page. -/
def needsFault (pt : PageTable) (perm : MapPermission) (vpn : Nat) : Bool :=
  match pt.translate vpn with
  | some pte =>
    (perm.read && !pte.readable) || (perm.write && (!pte.writable || pte.isCow)) ||
      (perm.execute && !pte.executable)
  | none => true

/-- The fault that `ensure_user_page_access` raises. -/
def accessCause (perm : MapPermission) : PageFaultCause :=
  if perm.write then .store else if perm.execute then .instruction else .load

/-- `ensure_user_page_access` over the pages of a range: one fault for each page that needs one. -/
def ensureUserPageAccess (others : Nat → Nat) (io : IoEnv) (perm : MapPermission) :
    List Nat → MmState → Outcome MmState Unit
  | [], s => .ok () s
  | vpn :: rest, s =>
    if needsFault s.ms.pageTable perm vpn then
      (handlePageFault s others io (accessCause perm) (usizeOfVpn vpn) none).andThen fun _ s ↦
        ensureUserPageAccess others io perm rest s
    else ensureUserPageAccess others io perm rest s

def checkedUserByteRange (start len : Nat) : Except Errno VPNRange :=
  if len = 0 then .ok ⟨floorVpn (virtAddr start), floorVpn (virtAddr start)⟩
  else
    match checkedAdd start len with
    | none => .error .EFAULT
    | some stop =>
      match checkedAdd stop (pageSize - 1) with
      | none => .error .EFAULT
      | some bound =>
        let rounded := bound / pageSize * pageSize
        if start = 0 ∨ trampoline ≤ start ∨ trampoline < rounded then .error .EFAULT
        else .ok ⟨floorVpn (virtAddr start), floorVpn (virtAddr rounded)⟩

/-- The copy loop of `copy_kernel_bytes_to_user`; each round copies to the end of a page, so as many
rounds as bytes are enough. -/
def copyOutLoop : Nat → Nat → List UInt8 → MmState → Outcome MmState Unit
  | 0, _, _, s => .ok () s
  | fuel + 1, cur, data, s =>
    if data = [] then .ok () s
    else
      let va := virtAddr cur
      let off := pageOffset va
      let n := min (pageSize - off) data.length
      match s.ms.pageTable.translate (floorVpn va) with
      | none => .err .EFAULT s
      | some pte =>
        let bytes := s.k.phys.mem pte.ppn
        let phys := s.k.phys.store pte.ppn fun i ↦
          if off ≤ i ∧ i < off + n then data.getD (i - off) 0 else bytes i
        copyOutLoop fuel (cur + n) (data.drop n) { s with k := s.k.setPhys phys }

/-- The fault-in pass of `copy_kernel_bytes_to_user`: the range is checked and every page that needs
it is faulted in for writing. -/
def prepareCopyOut (s : MmState) (others : Nat → Nat) (io : IoEnv) (start len : Nat) :
    Outcome MmState Unit :=
  match checkedUserByteRange start len with
  | .error e => .err e s
  | .ok r =>
    match s.ms.checkUserAccess { write := true } r.vpns with
    | some e => .err e s
    | none => ensureUserPageAccess others io { write := true } r.vpns s

def copyKernelBytesToUser (s : MmState) (others : Nat → Nat) (io : IoEnv) (start : Nat)
    (data : List UInt8) : Outcome MmState Unit :=
  (prepareCopyOut s others io start data.length).andThen fun _ s ↦
    copyOutLoop data.length start data s

end MemorySet

end RespOS.Mm
