import RespOS.Mm.MemorySet

/-!
# Mapping, unmapping, moving and growing areas

`mmap_area` with its address selection and its five kinds of backing, `munmap_range`,
`mremap_range` with its four cases, and the growth of the heap by
`ensure_private_writable_anonymous_range` with the merge of adjacent areas.

`mmapFileBacking` builds the backing of a file mapping, as `sys_mmap` does before it takes the lock of
the address space. The eager installation of anonymous shared pages panics where memory runs out
(`push_empty_map_area` unwraps the result); every other failure is an error.
-/

namespace RespOS.Mm

open RespOS.Fs

inductive MmapBacking
  | lazyAnonymous
  | sharedAnonymous
  | sharedFrames (attachId : Nat) (frames : List Nat)
  | privateFile (file offset len : Nat)
  | sharedFileFrames (file offset len validLen : Nat) (frames : List Nat)

/-- The arguments of `mmap_area` besides the backing. Its callers pass a length of at least one
page. -/
structure MmapRequest where
  addr : Option Nat
  mapLen : Nat
  mapLen_pos : 0 < mapLen
  mapPerm : MapPermission
  replace : Bool := false
  noreplace : Bool := false
  locked : Bool := false
  growsDown : Bool := false

/-- The loop of `mmap_shared_file_frames` over page numbers. The frames obtained so far are owned by
the call, so they count as owners. -/
def sharedFramesLoop (io : IoEnv) (ext : Nat → Nat) (backing : FileBacking) :
    List Nat → List Nat → Kernel → Except Errno (List Nat) × Kernel
  | [], frames, k => (.ok frames, k)
  | page :: rest, frames, k =>
    match k.sharedFileFrame io (fun p ↦ ext p + frames.count p) backing (page * pageSize) with
    | (.error e, k) => (.error e, k)
    | (.ok (p, _), k) => sharedFramesLoop io ext backing rest (frames ++ [p]) k

def mmapSharedFileFrames (k : Kernel) (io : IoEnv) (ext : Nat → Nat) (file offset len mapLen : Nat) :
    Except Errno (List Nat) × Kernel :=
  sharedFramesLoop io ext ⟨file, offset, len, true⟩ (List.range (mapLen / pageSize)) [] k

def mmapFileBacking (k : Kernel) (io : IoEnv) (ext : Nat → Nat) (file offset mapLen : Nat)
    (shared : Bool) : Except Errno MmapBacking × Kernel :=
  match k.getStat io file with
  | .error e => (.error e, k)
  | .ok stat =>
    let fileLen := min (stat.size - offset) mapLen
    if shared then
      match mmapSharedFileFrames k io ext file offset fileLen mapLen with
      | (.error e, k) => (.error e, k)
      | (.ok frames, k) => (.ok (.sharedFileFrames file offset mapLen fileLen frames), k)
    else (.ok (.privateFile file offset fileLen), k)

namespace MemorySet

/-! ### Address selection -/

/-- The loop of `choose_mmap_start` for a free address: past the first area in the way, until none
is. No area is in the way twice, so one round more than there are areas is enough. -/
def chooseLoop (areas : List MapArea) (mapLen : Nat) : Nat → Nat → Except Errno Nat
  | 0, _ => .error .ENOMEM
  | fuel + 1, start =>
    match checkedAdd start mapLen with
    | none => .error .ENOMEM
    | some stop =>
      if mmapMaxAddr < stop then .error .ENOMEM
      else
        let r : VPNRange := ⟨floorVpn (virtAddr start), ceilVpn (virtAddr stop)⟩
        match areas.find? fun a ↦ a.vpnRange.intersectWith r with
        | some a => chooseLoop areas mapLen fuel (usizeOfVpn a.vpnRange.stop)
        | none => .ok start

def chooseMmapStart (ms : MemorySet) (addr : Option Nat) (mapLen : Nat) : Except Errno Nat :=
  match addr with
  | some start => .ok start
  | none => chooseLoop ms.areas mapLen (ms.areas.length + 1) ms.mmapStart

def byteRange (start stop : Nat) : VPNRange := ⟨floorVpn (virtAddr start), ceilVpn (virtAddr stop)⟩

/-- The request is a hint, neither fixed nor fixed without replacement. -/
def MmapRequest.isHint (req : MmapRequest) : Bool :=
  req.addr.isSome && !req.replace && !req.noreplace

/-- The address `prepare_mmap` starts from: a hint outside the mapping window is replaced by a free
address. -/
def firstStart (ms : MemorySet) (req : MmapRequest) : Except Errno Nat :=
  match ms.chooseMmapStart req.addr req.mapLen with
  | .error e => .error e
  | .ok start =>
    let fits := match checkedAdd start req.mapLen with
      | some stop => decide (stop ≤ mmapMaxAddr)
      | none => false
    if MmapRequest.isHint req && (decide (start < mmapMinAddr) || !fits) then
      ms.chooseMmapStart none req.mapLen
    else .ok start

/-- The address range of a mapping that ends in the mapping window. -/
def boundedEnd (start mapLen : Nat) : Except Errno Nat :=
  match checkedAdd start mapLen with
  | none => .error .ENOMEM
  | some stop => if mmapMaxAddr < stop then .error .ENOMEM else .ok stop

/-- The second address of `prepare_mmap`: a hint that meets another area is replaced by a free
address. -/
def secondStart (ms : MemorySet) (req : MmapRequest) (start stop : Nat) : Except Errno (Nat × Nat) :=
  if MmapRequest.isHint req && ms.areaIntersects (byteRange start stop) then
    match ms.chooseMmapStart none req.mapLen with
    | .error e => .error e
    | .ok start =>
      match boundedEnd start req.mapLen with
      | .error e => .error e
      | .ok stop => .ok (start, stop)
  else .ok (start, stop)

/-- `prepare_mmap`: the address range of the new mapping. A fixed request removes what is there, any
other request meets no area. -/
def prepareMmap (s : MmState) (req : MmapRequest) : Outcome MmState (Nat × Nat) :=
  match s.ms.firstStart req with
  | .error e => .err e s
  | .ok start =>
    if start < mmapMinAddr then .err .EINVAL s
    else
      match boundedEnd start req.mapLen with
      | .error e => .err e s
      | .ok stop =>
        match s.ms.secondStart req start stop with
        | .error e => .err e s
        | .ok (start, stop) =>
          let intersects := s.ms.areaIntersects (byteRange start stop)
          if req.noreplace && intersects then .err .EEXIST s
          else if req.replace then
            .ok (start, stop) (removeAreaWithOverlapRange s (byteRange start stop))
          else if intersects then .err .EINVAL s
          else .ok (start, stop) s

/-! ### Installing the new area -/

/-- The loop that installs given frames; where an entry cannot be installed, those installed so far
are removed. `frames` is the record of the area under construction. -/
def installGiven (flags : PTEFlags) : List (Nat × Nat) → List Nat → Std.ExtTreeMap Nat Nat →
    PtState → Except Errno (Std.ExtTreeMap Nat Nat) × PtState
  | [], _, frames, s => (.ok frames, s)
  | (vpn, ppn) :: rest, mapped, frames, s =>
    match s.pt.map s.k.phys vpn ppn flags with
    | (.error e, pt, phys) => (.error e, ⟨mapped.foldl PageTable.tryUnmap pt, s.k.setPhys phys⟩)
    | (.ok (), pt, phys) =>
      installGiven flags rest (mapped ++ [vpn]) (frames.insert vpn ppn) ⟨pt, s.k.setPhys phys⟩

/-- The end of `mmap_area`: the area is added, the automatic start moves behind it, and the areas are
sorted. -/
def commitArea (s : MmState) (req : MmapRequest) (start stop : Nat) (a : MapArea) (ps : PtState) :
    Outcome MmState Nat :=
  .ok start
    ⟨{ s.ms with
        pageTable := ps.pt
        areas := sortAreas (s.ms.areas ++ [a])
        mmapStart := if req.addr.isNone then stop else s.ms.mmapStart }, ps.k⟩

/-- The new area before its backing is attached. -/
def blankArea (req : MmapRequest) (start stop : Nat) (shared : Bool) : MapArea where
  vpnRange := byteRange start stop
  mapPerm := req.mapPerm
  shared := shared
  locked := req.locked
  growsDown := req.growsDown

/-- The part of `mmap_area` that follows the address selection. -/
def installArea (s : MmState) (io : IoEnv) (ext : Nat → Nat) (req : MmapRequest)
    (backing : MmapBacking) (start stop : Nat) : Outcome MmState Nat :=
  let ps : PtState := ⟨s.ms.pageTable, s.k⟩
  match backing with
  | .lazyAnonymous => commitArea s req start stop (blankArea req start stop false) ps
  | .sharedAnonymous =>
    match (blankArea req start stop true).map ps io ext with
    | (.error _, _, _) => .panic
    | (.ok (), a, ps) => commitArea s req start stop a ps
  | .sharedFrames attachId frames =>
    let a := { blankArea req start stop true with shmAttachId := some attachId }
    match installGiven (PTEFlags.ofPerm req.mapPerm) (a.vpnRange.vpns.zip frames) [] ∅ ps with
    | (.error e, ps) => .err e ⟨{ s.ms with pageTable := ps.pt }, ps.k⟩
    | (.ok dataFrames, ps) =>
      commitArea s req start stop { a with dataFrames := dataFrames } ps
  | .privateFile file offset len =>
    let a := { blankArea req start stop false with fileBacking := some ⟨file, offset, len, true⟩ }
    commitArea s req start stop a ps
  | .sharedFileFrames file offset len validLen frames =>
    if frames.length ≠ req.mapLen / pageSize then .err .EINVAL s
    else
      let a := { blankArea req start stop true with fileBacking := some ⟨file, offset, len, true⟩ }
      let flags := PTEFlags.ofPerm req.mapPerm
      let flags := if req.mapPerm.write then flags.removeWrite else flags
      let pages := (a.vpnRange.vpns.zip frames).filter fun e ↦
        decide ((e.1 - a.vpnRange.start) * pageSize < validLen)
      match installGiven flags pages [] ∅ ps with
      | (.error e, ps) => .err e ⟨{ s.ms with pageTable := ps.pt }, ps.k⟩
      | (.ok dataFrames, ps) =>
        let a := { a with dataFrames := dataFrames }
        commitArea s req start stop a { ps with k := a.notifyMmapOpen ps.k }

def mmapArea (s : MmState) (io : IoEnv) (ext : Nat → Nat) (req : MmapRequest)
    (backing : MmapBacking) : Outcome MmState Nat :=
  let badFrames := match backing with
    | .sharedFrames _ frames => decide (frames.length ≠ req.mapLen / pageSize)
    | _ => false
  if badFrames then .err .EINVAL s
  else
    (prepareMmap s req).andThen fun range s ↦
      installArea s io ext req backing range.1 range.2

def munmapRange (s : MmState) (addr mapLen : Nat) : Outcome MmState Unit :=
  match checkedAdd addr mapLen with
  | none => .err .EINVAL s
  | some stop =>
    if mmapMaxAddr < stop then .err .ENOMEM s
    else
      let s := removeAreaWithOverlapRange s (byteRange addr stop)
      .ok () { s with ms := { s.ms with
        mmapStart := if s.ms.mmapStart = stop then addr else s.ms.mmapStart } }

/-! ### Moving -/

/-- `take_exact_area`: the area that contains the range is split, and its middle part taken out. -/
def takeExactArea (r : VPNRange) : List MapArea → List MapArea → Option (MapArea × List MapArea)
  | [], _ => none
  | a :: rest, done =>
    if a.vpnRange.containRange r then
      let split := a.splitByOverlap r.start r.stop
      some (split.middle, done ++ (split.left.toList ++ split.right.toList) ++ rest)
    else takeExactArea r rest (done ++ [a])

/-- `extend_area_end` on the areas: the last area that contains the range is extended; where it is
larger than the range, only its middle part is, and a right part goes to the end of the list. -/
def extendAreaEnd (r : VPNRange) (newEnd : Nat) (areas : List MapArea) (pt : PageTable) :
    Option (List MapArea × PageTable) :=
  match areas.reverse.findIdx? fun a ↦ a.vpnRange.containRange r with
  | none => none
  | some i =>
    let idx := areas.length - 1 - i
    match areas[idx]? with
    | none => none
    | some a =>
      if a.vpnRange.start ≠ r.start ∨ a.vpnRange.stop ≠ r.stop then
        let split := a.splitByOverlap r.start r.stop
        let (middle, pt) := split.middle.resizeEnd pt newEnd
        some (areas.take idx ++ (split.left.toList ++ [middle]) ++ areas.drop (idx + 1) ++
          split.right.toList, pt)
      else
        let (a, pt) := a.resizeEnd pt newEnd
        some (areas.take idx ++ [a] ++ areas.drop (idx + 1), pt)

/-- The common end of the two moving cases of `mremap_range`: the area goes to its new range, its
entries are installed there, and it joins the other areas. -/
def placeMoved (s : MmState) (middle : MapArea) (newStart newPages newAddr : Nat) :
    Outcome MmState Nat :=
  let a := middle.rebase newStart newPages
  match a.remapExistingFrames ⟨s.ms.pageTable, s.k⟩ with
  | (.error e, ps) => .err e ⟨{ s.ms with pageTable := ps.pt }, ps.k⟩
  | (.ok (), ps) =>
    .ok newAddr ⟨s.ms.withPt ps.pt (sortAreas (s.ms.areas ++ [a])), a.notifyMmapOpen ps.k⟩

/-- Takes the area of `oldRange` out of the address space and clears its entries. -/
def detachArea (s : MmState) (oldRange : VPNRange) : Option (MapArea × MmState) :=
  (takeExactArea oldRange s.ms.areas []).map fun (middle, areas) ↦
    (middle, ⟨s.ms.withPt (middle.unmapPtesOnly s.ms.pageTable) areas, middle.notifyMmapClose s.k⟩)

/-- `mremap_range` with a fixed target. -/
def mremapFixed (s : MmState) (oldRange : VPNRange) (newLen newAddr : Nat) : Outcome MmState Nat :=
  match checkedAdd newAddr newLen with
  | none => .err .ENOMEM s
  | some newEnd =>
    if newAddr < mmapMinAddr ∨ mmapMaxAddr < newEnd then .err .ENOMEM s
    else
      let newStart := floorVpn (virtAddr newAddr)
      let newRange : VPNRange := ⟨newStart, floorVpn (virtAddr newEnd)⟩
      if oldRange.intersectWith newRange then .err .EINVAL s
      else
        match detachArea s oldRange with
        | none => .err .EFAULT s
        | some (middle, s) =>
          placeMoved (removeAreaWithOverlapRange s newRange) middle newStart (newLen / pageSize)
            newAddr

/-- `mremap_range` to a free range, where the area cannot grow in place. -/
def mremapMove (s : MmState) (oldRange : VPNRange) (newLen : Nat) : Outcome MmState Nat :=
  match s.ms.chooseMmapStart none newLen with
  | .error e => .err e s
  | .ok newAddr =>
    match checkedAdd newAddr newLen with
    | none => .err .ENOMEM s
    | some newEnd =>
      let newStart := floorVpn (virtAddr newAddr)
      let newRange : VPNRange := ⟨newStart, floorVpn (virtAddr newEnd)⟩
      if s.ms.areaIntersects newRange then .err .ENOMEM s
      else
        match detachArea s oldRange with
        | none => .err .EFAULT s
        | some (middle, s) => placeMoved s middle newStart (newLen / pageSize) newAddr

/-- `mremap_range` to a larger length: in place where the pages behind the area are free, and
otherwise by a move if that is allowed. -/
def mremapGrow (s : MmState) (oldAddr oldEnd newLen : Nat) (oldRange : VPNRange) (maymove : Bool) :
    Outcome MmState Nat :=
  match checkedAdd oldAddr newLen with
  | none => .err .ENOMEM s
  | some newEnd =>
    let extension : VPNRange := ⟨floorVpn (virtAddr oldEnd), floorVpn (virtAddr newEnd)⟩
    if newEnd ≤ mmapMaxAddr && !s.ms.areaIntersects extension then
      match extendAreaEnd oldRange (floorVpn (virtAddr newEnd)) s.ms.areas s.ms.pageTable with
      | none => .err .EFAULT s
      | some (areas, pt) => .ok oldAddr { s with ms := s.ms.withPt pt areas }
    else if !maymove then .err .ENOMEM s
    else mremapMove s oldRange newLen

def mremapRange (s : MmState) (oldAddr oldLen newLen : Nat) (maymove : Bool)
    (fixedAddr : Option Nat) : Outcome MmState Nat :=
  match checkedAdd oldAddr oldLen with
  | none => .err .ENOMEM s
  | some oldEnd =>
    match VPNRange.new (floorVpn (virtAddr oldAddr)) (floorVpn (virtAddr oldEnd)) with
    | none => .panic
    | some oldRange =>
      if newLen / pageSize = 0 ∨ oldLen / pageSize = 0 then .err .EINVAL s
      else
        match fixedAddr with
        | some newAddr => mremapFixed s oldRange newLen newAddr
        | none =>
          if newLen = oldLen then .ok oldAddr s
          else if newLen < oldLen then
            match VPNRange.new (floorVpn (virtAddr (oldAddr + newLen))) (floorVpn (virtAddr oldEnd)) with
            | none => .panic
            | some r => .ok oldAddr (removeAreaWithOverlapRange s r)
          else mremapGrow s oldAddr oldEnd newLen oldRange maymove

/-! ### The heap -/

def isPrivateWritableAnonymous (a : MapArea) : Bool :=
  a.mapType == .framed && !a.shared && a.fileBacking.isNone && a.mapPerm.write && a.mapPerm.user

def canMergePrivateAnonymous (left right : MapArea) : Bool :=
  left.vpnRange.stop == right.vpnRange.start && left.mapType == .framed &&
    right.mapType == .framed && !left.shared && !right.shared && left.fileBacking.isNone &&
    right.fileBacking.isNone && left.shmAttachId.isNone && right.shmAttachId.isNone &&
    left.mapPerm == right.mapPerm && left.locked == right.locked &&
    left.growsDown == right.growsDown && left.wipeOnFork == right.wipeOnFork &&
    left.dontfork == right.dontfork

/-- One merge: the left area takes over the range and the frames of the right one. -/
def mergeAreas (left right : MapArea) : MapArea :=
  { left with
    vpnRange := ⟨left.vpnRange.start, right.vpnRange.stop⟩
    dataFrames := left.dataFrames ∪ right.dataFrames }

/-- The loop of `merge_adjacent_private_anonymous_areas` with the area it stands at. -/
def mergeLoop : MapArea → List MapArea → List MapArea
  | a, [] => [a]
  | a, b :: rest =>
    if canMergePrivateAnonymous a b then mergeLoop (mergeAreas a b) rest else a :: mergeLoop b rest

/-- `merge_adjacent_private_anonymous_areas`. -/
def mergeAdjacent (areas : List MapArea) : List MapArea :=
  match sortAreas areas with
  | [] => []
  | a :: rest => mergeLoop a rest

/-- The loop that fills the holes of a range with anonymous areas. The cursor moves in every round,
so as many rounds as pages are enough. -/
def fillHoles (stop : Nat) : Nat → Nat → List MapArea → List MapArea
  | 0, _, areas => areas
  | fuel + 1, cursor, areas =>
    if stop ≤ cursor then areas
    else
      match areas.find? fun a ↦ a.vpnRange.contain cursor with
      | some a => fillHoles stop fuel (min a.vpnRange.stop stop) areas
      | none =>
        let starts := (areas.map fun a ↦ a.vpnRange.start).filter fun start ↦
          cursor < start && start < stop
        let next := starts.foldl min stop
        fillHoles stop fuel next (sortAreas (areas ++ [⟨⟨cursor, next⟩, ∅, .framed,
          MapPermission.rwu, false, false, false, false, false, none, none⟩]))

def ensurePrivateWritableAnonymousRange (s : MmState) (r : VPNRange) : Outcome MmState Unit :=
  if s.ms.areas.any fun a ↦ a.vpnRange.intersectWith r && !isPrivateWritableAnonymous a then
    .err .ENOMEM s
  else
    let areas := fillHoles r.stop (r.stop - r.start) r.start s.ms.areas
    .ok () { s with ms := { s.ms with areas := mergeAdjacent areas } }

end MemorySet

end RespOS.Mm
