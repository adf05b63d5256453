import RespOS.Fs.OpenFile
import RespOS.Mm.PageTable

/-!
# Virtual memory areas

`MapArea` and its methods from `mm/memory_set.rs`. An area covers a range of pages with one
permission and one backing: anonymous memory, a window of a file, or the frames of a System V
segment. `dataFrames` records the frame of every resident page; the frame of a page is owned by the
area as long as it is recorded there.

The methods that install or remove entries act on the page table and on the kernel state, which
`PtState` puts together. They return the changed area next to their result, since the source changes
the area in place also where it fails. `ext` counts the owners of a frame outside the page caches.

Areas of direct type occur in the kernel address space only; `mapOne` is the framed branch of
`map_one`.
-/

namespace RespOS.Mm

open RespOS.Fs

inductive MapType
  | direct
  | framed
  deriving DecidableEq, Repr

structure MapArea where
  vpnRange : VPNRange
  dataFrames : Std.ExtTreeMap Nat Nat := ∅
  mapType : MapType := .framed
  mapPerm : MapPermission
  shared : Bool := false
  locked : Bool := false
  growsDown : Bool := false
  wipeOnFork : Bool := false
  dontfork : Bool := false
  fileBacking : Option FileBacking := none
  shmAttachId : Option Nat := none

/-- The state the methods of an area act on besides the area itself. -/
structure PtState where
  pt : PageTable
  k : Kernel

def splitFileWindow (offset len delta rangeLen : Nat) : Nat × Nat :=
  (saturatingAdd offset delta, min (len - delta) rangeLen)

namespace MapArea

/-! ### Construction and splitting -/

/-- `MapArea::new`, which fails its assertion on a reversed range. -/
def new (startVa endVa : Nat) (mapType : MapType) (mapPerm : MapPermission) : Option MapArea :=
  (VPNRange.new (floorVpn startVa) (ceilVpn endVa)).map fun r ↦
    { vpnRange := r, mapType := mapType, mapPerm := mapPerm }

def pageCount (a : MapArea) : Nat := a.vpnRange.pageCount

/-- The file window of a part of an area, by `meta_for_subrange`. -/
def windowForSubrange (a : MapArea) (rangeStart rangeEnd : Nat) : Option FileBacking :=
  a.fileBacking.map fun b ↦
    let window := splitFileWindow b.offset b.len ((rangeStart - a.vpnRange.start) * pageSize)
      ((rangeEnd - rangeStart) * pageSize)
    { b with offset := window.1, len := window.2 }

/-- The part of an area on `[lo, hi)`: the frames of the pages that `keep` selects and the other
attributes, the file window moved along. -/
def part (a : MapArea) (lo hi : Nat) (keep : Nat → Bool) : MapArea :=
  { a with
    vpnRange := ⟨lo, hi⟩
    dataFrames := a.dataFrames.filter fun vpn _ ↦ keep vpn
    fileBacking := a.windowForSubrange lo hi }

/-- `MapAreaSplit`. -/
structure Split where
  left : Option MapArea
  middle : MapArea
  right : Option MapArea

/-- `split_by_overlap`. The frames go to the parts by `BTreeMap::split_off` at the two bounds. -/
def splitByOverlap (a : MapArea) (overlapStart overlapEnd : Nat) : Split where
  left :=
    if a.vpnRange.start < overlapStart then
      some (a.part a.vpnRange.start overlapStart fun vpn ↦ vpn < overlapStart)
    else none
  middle := a.part overlapStart overlapEnd fun vpn ↦ overlapStart ≤ vpn && vpn < overlapEnd
  right :=
    if overlapEnd < a.vpnRange.stop then
      some (a.part overlapEnd a.vpnRange.stop fun vpn ↦ overlapEnd ≤ vpn)
    else none

/-- `from_another`: the same area without frames. -/
def fromAnother (a : MapArea) : MapArea := { a with dataFrames := ∅ }

def notifyMmapOpen (a : MapArea) (k : Kernel) : Kernel :=
  match a.fileBacking with
  | some b => k.mmapOpen b.file a.shared a.mapPerm.write a.pageCount
  | none => k

def notifyMmapClose (a : MapArea) (k : Kernel) : Kernel :=
  match a.fileBacking with
  | some b => k.mmapClose b.file a.shared a.mapPerm.write a.pageCount
  | none => k

def unmapOne (a : MapArea) (pt : PageTable) (vpn : Nat) : MapArea × PageTable :=
  (match a.mapType with
    | .framed => { a with dataFrames := a.dataFrames.erase vpn }
    | .direct => a, pt.tryUnmap vpn)

/-- `unmap_one` on several pages in turn. -/
def unmapEach (a : MapArea) (pt : PageTable) (vpns : List Nat) : MapArea × PageTable :=
  vpns.foldl (fun s vpn ↦ s.1.unmapOne s.2 vpn) (a, pt)

/-- `unmap`: the resident pages of a framed area, every page of a direct one. -/
def unmap (a : MapArea) (pt : PageTable) : MapArea × PageTable :=
  match a.mapType with
  | .direct => a.unmapEach pt a.vpnRange.vpns
  | .framed => a.unmapEach pt a.dataFrames.keys

/-- `unmap_ptes_only`: the entries of the resident pages are cleared, the frames stay recorded. -/
def unmapPtesOnly (a : MapArea) (pt : PageTable) : PageTable :=
  a.dataFrames.keys.foldl PageTable.tryUnmap pt

/-! ### Installing entries -/

/-- The window of the file as `map_one` sees it at a fault: `some none` is a page without file
contents (anonymous memory, or the zero pages of a program segment behind its file part), `none` an
offset that overflows, lies behind the end of the file or cannot be looked up. -/
def liveBacking (a : MapArea) (k : Kernel) (io : IoEnv) (pageOffset : Nat) :
    Except Errno (Option FileBacking) :=
  match a.fileBacking with
  | none => .ok none
  | some b =>
    if !b.liveEof && b.len ≤ pageOffset then .ok none
    else
      match checkedAdd b.offset pageOffset with
      | none => .error Errno.EIO
      | some fileOffset =>
        match k.getStat io b.file with
        | .error e => .error e
        | .ok stat =>
          if stat.size ≤ fileOffset then .error Errno.EIO
          else
            .ok (some { b with
              len := if b.liveEof then stat.size - b.offset else min b.len (stat.size - b.offset) })

/-- The page is the last, partial page of the file part of a program segment. -/
def fixedPartialFilePage (a : MapArea) (pageOffset : Nat) : Bool :=
  match a.fileBacking with
  | none => false
  | some b => !b.liveEof && pageOffset < b.len && b.len < saturatingAdd pageOffset pageSize

/-- The frame `map_one` chooses for a page of a framed area: a frame of the file where the page shows
file contents, and otherwise a new frame, filled from the file for a partial page. The Boolean
returned says whether the file was read. -/
def chooseFrame (a : MapArea) (k : Kernel) (io : IoEnv) (ext : Nat → Nat) (pageOffset : Nat)
    (live : Option FileBacking) : Except Errno (Nat × Bool) × Kernel :=
  match live with
  | some b =>
    if !a.fixedPartialFilePage pageOffset then k.sharedFileFrame io ext b pageOffset
    else
      match k.phys.frameAlloc with
      | (none, phys) => (.error .ENOMEM, k.setPhys phys)
      | (some p, phys) =>
        let k := k.setPhys phys
        match checkedAdd b.offset pageOffset with
        | none => (.error Errno.EIO, k)
        | some fileOffset =>
          let readLen := min (b.len - pageOffset) pageSize
          match k.readFileAt io ext b.file fileOffset readLen with
          | (.error e, k) => (.error e, k)
          | (.ok bytes, k) =>
            (.ok (p, readLen != 0), k.setPhys (k.phys.store p fun i ↦ bytes.getD i 0))
  | none =>
    match k.phys.frameAlloc with
    | (none, phys) => (.error .ENOMEM, k.setPhys phys)
    | (some p, phys) => (.ok (p, false), k.setPhys phys)

/-- A writable private page that shows a frame of the file is installed read-only and marked
copy-on-write. -/
def privateFileCow (a : MapArea) (pageOffset : Nat) (live : Option FileBacking) : Bool :=
  live.isSome && !a.fixedPartialFilePage pageOffset && !a.shared && a.mapPerm.write

/-- The flags `map_one` installs: a writable shared file page starts without WRITE, so that its first
store can reserve space. -/
def installFlags (a : MapArea) (cow : Bool) : PTEFlags :=
  if cow || (a.shared && a.fileBacking.isSome && a.mapPerm.write) then
    (PTEFlags.ofPerm a.mapPerm).removeWrite
  else PTEFlags.ofPerm a.mapPerm

/-- The end of `map_one`: the frame is recorded and the entry installed; where that fails the record
is removed again. -/
def installFrame (a : MapArea) (s : PtState) (vpn ppn : Nat) (cow : Bool) :
    Except Errno Unit × MapArea × PtState :=
  match s.pt.map s.k.phys vpn ppn (a.installFlags cow) with
  | (.error e, pt, phys) =>
    (.error e, { a with dataFrames := a.dataFrames.erase vpn }, ⟨pt, s.k.setPhys phys⟩)
  | (.ok (), pt, phys) =>
    (.ok (), { a with dataFrames := a.dataFrames.insert vpn ppn },
      ⟨if cow then pt.setPteCow vpn else pt, s.k.setPhys phys⟩)

/-- `map_one` for a framed area. On success the Boolean says whether the file was read. -/
def mapOne (a : MapArea) (s : PtState) (io : IoEnv) (ext : Nat → Nat) (vpn : Nat) :
    Except Errno Bool × MapArea × PtState :=
  let pageOffset := (vpn - a.vpnRange.start) * pageSize
  match a.liveBacking s.k io pageOffset with
  | .error e => (.error e, a, s)
  | .ok live =>
    match a.chooseFrame s.k io ext pageOffset live with
    | (.error e, k) => (.error e, a, { s with k := k })
    | (.ok (ppn, requiredIo), k) =>
      match a.installFrame { s with k := k } vpn ppn (a.privateFileCow pageOffset live) with
      | (.error e, a, s) => (.error e, a, s)
      | (.ok (), a, s) => (.ok requiredIo, a, s)

/-- The loop of `map`: every page is installed; where one fails, the pages so far are removed. -/
def mapEach (io : IoEnv) (ext : Nat → Nat) : List Nat → List Nat → MapArea → PtState →
    Except Errno Unit × MapArea × PtState
  | [], _, a, s => (.ok (), a, s)
  | vpn :: rest, done, a, s =>
    match a.mapOne s io ext vpn with
    | (.error e, a, s) =>
      match a.unmapEach s.pt (done ++ [vpn]) with
      | (a, pt) => (.error e, a, { s with pt := pt })
    | (.ok _, a, s) => mapEach io ext rest (done ++ [vpn]) a s

def map (a : MapArea) (s : PtState) (io : IoEnv) (ext : Nat → Nat) :
    Except Errno Unit × MapArea × PtState :=
  mapEach io ext a.vpnRange.vpns [] a s

/-- `remap_one_with_data` and `privatize_one` share this core: a new frame with the given contents
replaces the frame of a page that has a valid entry. -/
def replaceFrame (a : MapArea) (s : PtState) (vpn : Nat) (data : PageBytes) :
    Except Errno Unit × MapArea × PtState :=
  match s.k.phys.frameAlloc with
  | (none, phys) => (.error .ENOMEM, a, { s with k := s.k.setPhys phys })
  | (some p, phys) =>
    let s := { s with k := s.k.setPhys (phys.store p data) }
    match s.pt.replacePte vpn p (PTEFlags.ofPerm a.mapPerm) with
    | .error e => (.error e, a, s)
    | .ok pt => (.ok (), { a with dataFrames := a.dataFrames.insert vpn p }, { s with pt := pt })

def remapOneWithData (a : MapArea) (s : PtState) (vpn : Nat) (data : PageBytes) :
    Except Errno Unit × MapArea × PtState :=
  a.replaceFrame s vpn data

/-- `privatize_one`: a private copy replaces the frame of a resident page. -/
def privatizeOne (a : MapArea) (s : PtState) (vpn : Nat) : Except Errno Unit × MapArea × PtState :=
  match a.dataFrames[vpn]? with
  | none => (.error .EFAULT, a, s)
  | some old => a.replaceFrame s vpn (s.k.phys.mem old)

/-- `privatize_one` on several pages, up to the first failure. -/
def privatizeEach : List Nat → MapArea → PtState → Except Errno Unit × MapArea × PtState
  | [], a, s => (.ok (), a, s)
  | vpn :: rest, a, s =>
    match a.privatizeOne s vpn with
    | (.error e, a, s) => (.error e, a, s)
    | (.ok (), a, s) => privatizeEach rest a s

/-- `resize_end`: pages cut off are unmapped, and the file window becomes the whole area. -/
def resizeEnd (a : MapArea) (pt : PageTable) (newEnd : Nat) : MapArea × PageTable :=
  let (a, pt) :=
    if newEnd < a.vpnRange.stop then
      a.unmapEach pt (⟨newEnd, a.vpnRange.stop⟩ : VPNRange).vpns
    else (a, pt)
  ({ a with
      vpnRange := ⟨a.vpnRange.start, newEnd⟩
      fileBacking := a.fileBacking.map fun b ↦
        { b with len := (newEnd - a.vpnRange.start) * pageSize } }, pt)

/-- The frames of `rebase`: each page moves with its offset, pages beyond the new length are
dropped. -/
def rebaseFrames (frames : Std.ExtTreeMap Nat Nat) (oldStart newStart newPages : Nat) :
    Std.ExtTreeMap Nat Nat :=
  frames.toList.foldl
    (fun acc e ↦ if e.1 - oldStart < newPages then acc.insert (newStart + (e.1 - oldStart)) e.2
      else acc) ∅

def rebase (a : MapArea) (newStart newPages : Nat) : MapArea :=
  { a with
    dataFrames := rebaseFrames a.dataFrames a.vpnRange.start newStart newPages
    vpnRange := ⟨newStart, newStart + newPages⟩
    fileBacking := a.fileBacking.map fun b ↦ { b with len := newPages * pageSize } }

/-- `remap_existing_frames`: an entry for every recorded frame, up to the first failure. -/
def remapFrames (flags : PTEFlags) : List (Nat × Nat) → PtState → Except Errno Unit × PtState
  | [], s => (.ok (), s)
  | (vpn, ppn) :: rest, s =>
    match s.pt.map s.k.phys vpn ppn flags with
    | (.error e, pt, phys) => (.error e, ⟨pt, s.k.setPhys phys⟩)
    | (.ok (), pt, phys) => remapFrames flags rest ⟨pt, s.k.setPhys phys⟩

def remapExistingFrames (a : MapArea) (s : PtState) : Except Errno Unit × PtState :=
  remapFrames (PTEFlags.ofPerm a.mapPerm) a.dataFrames.toList s

end MapArea

end RespOS.Mm
