import RespOS.Mm.MapArea

/-!
# Address spaces

`MemorySet` holds the page table of an address space and its areas, sorted by start. The operations
that treat every area meeting a page range (`munmap`, `mprotect`, `mlock`, the two fork advices)
share one loop in the source, written out five times: split the area at the bounds of the overlap,
treat the middle, put the parts back. `overlapLoop` is that loop with the treatment of the middle as a
parameter. Where the treatment fails, the area that was taken out is lost, as in the source.

An operation acts on `MmState`, an address space together with the kernel state. `others` counts the
owners of a frame outside this address space and outside the page caches.
-/

namespace RespOS.Mm

open RespOS.Fs

structure MemorySet where
  brk : Nat := 0
  heapBottom : Nat := 0
  mmapStart : Nat := mmapMinAddr
  pageTable : PageTable
  areas : List MapArea := []

/-- One address space and the kernel state. -/
structure MmState where
  ms : MemorySet
  k : Kernel

/-- The number of pages of an area whose recorded frame is `p`. -/
def MapArea.count (a : MapArea) (p : Nat) : Nat := a.dataFrames.toList.countP fun e ↦ e.2 = p

namespace MemorySet

/-- The number of recorded pages of the address space whose frame is `p`. -/
def count (ms : MemorySet) (p : Nat) : Nat := (ms.areas.map fun a ↦ a.count p).sum

/-- The address space after a method of an area has changed the page table. -/
def withPt (ms : MemorySet) (pt : PageTable) (areas : List MapArea) : MemorySet :=
  { ms with pageTable := pt, areas := areas }

/-- `areas.sort_by_key(start)`. -/
def sortAreas (areas : List MapArea) : List MapArea :=
  areas.insertionSort fun a b ↦ a.vpnRange.start ≤ b.vpnRange.start

def areaIntersects (ms : MemorySet) (r : VPNRange) : Bool :=
  ms.areas.any fun a ↦ a.vpnRange.intersectWith r

/-- The lookup `areas.iter().rev().find(..)`. -/
def findArea (ms : MemorySet) (vpn : Nat) : Option MapArea :=
  ms.areas.reverse.find? fun a ↦ a.vpnRange.contain vpn

/-! ### The loop over the areas that meet a range -/

/-- The loop over `areas` that splits every area meeting `r` and treats its middle part. `done` are
the areas put back so far. -/
def overlapLoop (r : VPNRange)
    (onMiddle : MapArea → PtState → Except Errno (Option MapArea) × PtState) :
    List MapArea → List MapArea → PtState → Except Errno Unit × List MapArea × PtState
  | [], done, s => (.ok (), done, s)
  | a :: rest, done, s =>
    if !a.vpnRange.intersectWith r then overlapLoop r onMiddle rest (done ++ [a]) s
    else
      let split := a.splitByOverlap (max a.vpnRange.start r.start) (min a.vpnRange.stop r.stop)
      match onMiddle split.middle s with
      | (.error e, s) => (.error e, done ++ rest, s)
      | (.ok middle, s) =>
        overlapLoop r onMiddle rest
          (done ++ (split.left.toList ++ middle.toList ++ split.right.toList)) s

def treatOverlap (s : MmState) (r : VPNRange)
    (onMiddle : MapArea → PtState → Except Errno (Option MapArea) × PtState) :
    Except Errno Unit × MmState :=
  match overlapLoop r onMiddle s.ms.areas [] ⟨s.ms.pageTable, s.k⟩ with
  | (res, areas, ps) => (res, ⟨s.ms.withPt ps.pt areas, ps.k⟩)

/-- The treatment of `remove_area_with_overlap_range`: the part is unmapped and dropped. -/
def removeMiddle (middle : MapArea) (s : PtState) : Except Errno (Option MapArea) × PtState :=
  (.ok none, ⟨(middle.unmap s.pt).2, middle.notifyMmapClose s.k⟩)

def removeAreaWithOverlapRange (s : MmState) (r : VPNRange) : MmState :=
  (treatOverlap s r removeMiddle).2

/-- `modify_user_pte_perm`: the entry gets the new permission; a copy-on-write entry keeps its mark
and stays read-only. -/
def modifyUserPtePerm (mapPerm : MapPermission) (pt : PageTable) (vpn : Nat) : PageTable :=
  match pt.translate vpn with
  | none => pt
  | some pte =>
    let flags := PTEFlags.ofPerm mapPerm
    pt.modifyPte vpn (if pte.isCow then { flags with cow := true, write := false } else flags)

/-- The treatment of `mprotect`. A private file area that becomes writable first gets private copies
of its resident pages; a shared file area keeps its entries read-only. -/
def protectMiddle (newPerm : MapPermission) (middle : MapArea) (s : PtState) :
    Except Errno (Option MapArea) × PtState :=
  let oldWritable := middle.mapPerm.write
  let newWritable := newPerm.write
  let s := if oldWritable && !newWritable then { s with k := middle.notifyMmapClose s.k } else s
  match if !middle.shared && middle.fileBacking.isSome && !oldWritable && newWritable then
      MapArea.privatizeEach middle.dataFrames.keys middle s
    else (.ok (), middle, s) with
  | (.error e, _, s) => (.error e, s)
  | (.ok (), middle, s) =>
    let residentPerm := if middle.shared && middle.fileBacking.isSome && newWritable then
        { newPerm with write := false }
      else newPerm
    let pt := middle.dataFrames.keys.foldl (modifyUserPtePerm residentPerm) s.pt
    let middle := { middle with mapPerm := newPerm }
    let k := if !oldWritable && newWritable then middle.notifyMmapOpen s.k else s.k
    (.ok (some middle), ⟨pt, k⟩)

/-- The first check of a range operation: every page lies in a user area; `verdict` is a further
objection to an area. -/
def checkPages (ms : MemorySet) (missing : Errno) (verdict : MapArea → Option Errno) :
    List Nat → Option Errno
  | [] => none
  | vpn :: rest =>
    match ms.findArea vpn with
    | none => some missing
    | some a =>
      match verdict a with
      | some e => some e
      | none => checkPages ms missing verdict rest

/-- The objection to an area without USER permission. -/
def needsUser (e : Errno) (a : MapArea) : Option Errno := if a.mapPerm.user then none else some e

/-- The second check of `mprotect`: shared file areas that become writable must be allowed to. -/
def checkWriteAllowed (k : Kernel) (r : VPNRange) : List MapArea → Option Errno
  | [] => none
  | a :: rest =>
    match if a.vpnRange.intersectWith r && a.shared then a.fileBacking else none with
    | none => checkWriteAllowed k r rest
    | some b =>
      match k.mmapAllowed b.file true true with
      | .error e => some e
      | .ok () => checkWriteAllowed k r rest

/-- The outcome of a call that ran the loop. -/
def ofLoop (res : Except Errno Unit × MmState) : Outcome MmState Unit :=
  match res with
  | (.ok (), s) => .ok () s
  | (.error e, s) => .err e s

/-- `remap_area_with_overlap_range`, the `mprotect` of an address space. -/
def remapAreaWithOverlapRange (s : MmState) (r : VPNRange) (mapPerm : MapPermission) :
    Outcome MmState Unit :=
  let newPerm := { mapPerm with user := true }
  match s.ms.checkPages .ENOMEM (needsUser .EFAULT) r.vpns with
  | some e => .err e s
  | none =>
    match if newPerm.write then checkWriteAllowed s.k r s.ms.areas else none with
    | some e => .err e s
    | none => ofLoop (treatOverlap s r (protectMiddle newPerm))

/-- A treatment that only changes an attribute of the middle part. -/
def setMiddle (f : MapArea → MapArea) (middle : MapArea) (s : PtState) :
    Except Errno (Option MapArea) × PtState :=
  (.ok (some (f middle)), s)

def adviseForkBehavior (s : MmState) (r : VPNRange) (wipeOnFork : Bool) : Outcome MmState Unit :=
  let verdict (a : MapArea) : Option Errno :=
    if !a.mapPerm.user then some .EFAULT
    else if a.shared || a.fileBacking.isSome then some .EINVAL else none
  match s.ms.checkPages .ENOMEM verdict r.vpns with
  | some e => .err e s
  | none => ofLoop (treatOverlap s r (setMiddle fun a ↦ { a with wipeOnFork := wipeOnFork }))

def adviseDontfork (s : MmState) (r : VPNRange) (dontfork : Bool) : Outcome MmState Unit :=
  match s.ms.checkPages .EFAULT (needsUser .EFAULT) r.vpns with
  | some e => .err e s
  | none => ofLoop (treatOverlap s r (setMiddle fun a ↦ { a with dontfork := dontfork }))

def setLockedRange (s : MmState) (r : VPNRange) (locked : Bool) : Outcome MmState Unit :=
  match s.ms.checkPages .ENOMEM (needsUser .ENOMEM) r.vpns with
  | some e => .err e s
  | none => ofLoop (treatOverlap s r (setMiddle fun a ↦ { a with locked := locked }))

/-- The loop of `discard_private_pages_for_madvise` over the areas. -/
def discardLoop (r : VPNRange) : List MapArea → PageTable → List MapArea × PageTable
  | [], pt => ([], pt)
  | a :: rest, pt =>
    let (a, pt) :=
      if a.shared || !a.vpnRange.intersectWith r then (a, pt)
      else a.unmapEach pt
        (⟨max a.vpnRange.start r.start, min a.vpnRange.stop r.stop⟩ : VPNRange).vpns
    let (rest, pt) := discardLoop r rest pt
    (a :: rest, pt)

/-- `check_madvise_range` for the advice `MADV_DONTNEED`, then `discard_private_pages_for_madvise`. -/
def madviseDontneed (s : MmState) (r : VPNRange) : Outcome MmState Unit :=
  let verdict (a : MapArea) : Option Errno :=
    if !a.mapPerm.user then some .ENOMEM else if a.locked then some .EINVAL else none
  match s.ms.checkPages .ENOMEM verdict r.vpns with
  | some e => .err e s
  | none =>
    match discardLoop r s.ms.areas s.ms.pageTable with
    | (areas, pt) => .ok () { s with ms := s.ms.withPt pt areas }

end MemorySet

end RespOS.Mm
