import RespOS.Mm.Effect

/-!
# Where the pages of an address space come from

`Effect env op s s'` says what one operation can do to the resident pages, whether it succeeds or
fails. Every page recorded after the operation has an origin (`PageOrigin`): it was recorded before and
kept its entry, or it was given a permission, opened for writing, copied, moved, filled at a fault, or
belongs to a new area. Every area after the operation comes from one before it or is new, and no entry
becomes storable without a record. `Sound` collects what these statements rest on.

The invariants of runs are proved from these statements alone. The offset of a page in its area is kept
except where the operation cuts the area in two (`Op.Cuts`) or grows it downwards (`Op.Grows`).
-/

namespace RespOS.Mm

open RespOS.Basis RespOS.Fs

/-! ### Areas -/

/-- The operation can start a part of an area at this page. -/
def Op.Cuts (ms : MemorySet) (x : Nat) : Op → Prop
  | .mmap req _ => req.replace = true ∧ ∃ start, ms.firstStart req = .ok start ∧
      x = (MemorySet.byteRange start (start + req.mapLen)).stop
  | .munmap addr mapLen => x = (MemorySet.byteRange addr (addr + mapLen)).stop
  | .mremap oldAddr oldLen newLen _ fixedAddr =>
    x = floorVpn (virtAddr oldAddr) ∨ x = floorVpn (virtAddr (oldAddr + oldLen)) ∨
      ∃ newAddr, fixedAddr = some newAddr ∧ x = floorVpn (virtAddr (newAddr + newLen))
  | .mprotect r _ => x = r.start ∨ x = r.stop
  | .setLocked r _ => x = r.start ∨ x = r.stop
  | .adviseFork r _ => x = r.start ∨ x = r.stop
  | .adviseDontfork r _ => x = r.start ∨ x = r.stop
  | .dontneed _ => False
  | .growHeap _ => False
  | .fault _ _ _ => False

/-- The operation is a fault right below an area that grows downwards. -/
def Op.Grows (a : MapArea) : Op → Prop
  | .fault _ stval userSp => userSp.isSome = true ∧ a.growsDown = true ∧
      a.start = floorVpn (virtAddr stval) + 1
  | _ => False

/-- The two areas have the same backing, but for the window of the file. -/
structure MapArea.SameBacking (a' a : MapArea) : Prop where
  mapType : a'.mapType = a.mapType
  shared : a'.shared = a.shared
  shmAttachId : a'.shmAttachId = a.shmAttachId
  growsDown : a'.growsDown = a.growsDown
  file : (a'.fileBacking.map fun b ↦ (b.file, b.liveEof)) =
    a.fileBacking.map fun b ↦ (b.file, b.liveEof)

/-- The area shows a new mapping of this source. -/
structure MapArea.BackedBy (req : MmapRequest) (a : MapArea) (source : MapSource) : Prop where
  mapType : a.mapType = .framed
  mapPerm : a.mapPerm = req.mapPerm
  growsDown : a.growsDown = req.growsDown
  source : match source with
    | .anonymous shared => a.shared = shared ∧ a.fileBacking = none ∧ a.shmAttachId = none
    | .segment attachId _ => a.shared = true ∧ a.fileBacking = none ∧ a.shmAttachId = some attachId
    | .file f offset shared => a.shared = shared ∧ a.shmAttachId = none ∧
        ∃ len, a.fileBacking = some ⟨f, offset, len, true⟩

/-- Where an area comes from. -/
inductive AreaOrigin (op : Op) (s : MmState) (a' : MapArea) : Prop
  | old {a : MapArea} (ha : a ∈ s.ms.areas) (hsame : a'.SameBacking a)
  | mmap {req : MmapRequest} {source : MapSource} (hop : op = .mmap req source)
      (hby : a'.BackedBy req source)
  | heap {r : UserRange} (hop : op = .growHeap r) (hframed : a'.mapType = .framed)
      (hshared : a'.shared = false) (hfile : a'.fileBacking = none)

/-! ### Pages -/

/-- Page `v'` of the area `a'` is what became of page `v` of the area `a`. -/
structure PageOf (op : Op) (ms : MemorySet) (a' a : MapArea) (v' v : Nat) : Prop where
  same : a'.SameBacking a
  index : a.shared = true → v' - a'.start = v - a.start ∨
    (∃ x, op.Cuts ms x ∧ a.start < x ∧ x < a.stop) ∨ op.Grows a
  offset : ∀ b b', a.fileBacking = some b → a'.fileBacking = some b' →
    b.offset + (v - a.start) * pageSize < usizeSize →
      op.Grows a ∨ b'.offset + (v' - a'.start) * pageSize = b.offset + (v - a.start) * pageSize

/-- The frame has just been taken from the allocator for one page. -/
def Fresh (s s' : MmState) (p : Nat) : Prop := s'.k.Loose p ∧ ∃ j, p = s.k.phys.supply j

/-- The permission `mprotect` gives the entries of resident pages. -/
def residentPerm (a : MapArea) (perm : MapPermission) : MapPermission :=
  if a.shared && a.fileBacking.isSome && perm.write then { perm with write := false } else perm

/-- Where a page recorded after the operation comes from. -/
inductive PageOrigin (env : OpEnv) (op : Op) (s s' : MmState) (a' : MapArea) (v p : Nat) : Prop
  /-- The page was there before and its entry is unchanged. -/
  | kept {a : MapArea} (ha : a ∈ s.ms.areas) (hof : PageOf op s.ms a' a v v)
      (hrec : a.dataFrames[v]? = some p) (hperm : a'.mapPerm = a.mapPerm)
      (hentry : s'.ms.pageTable.entry v = s.ms.pageTable.entry v)
  /-- `mprotect` changed the permission of the page. -/
  | protect {a : MapArea} {r : UserRange} {perm : MapPermission} (hop : op = .mprotect r perm)
      (ha : a ∈ s.ms.areas) (hof : PageOf op s.ms a' a v v) (hrec : a.dataFrames[v]? = some p)
      (hv : r.start ≤ v ∧ v < r.stop) (hperm : a'.mapPerm = { perm with user := true })
      (hfile : a.shared = false → a.fileBacking ≠ none →
        a.mapPerm.write = true ∨ perm.write = false)
      (hentry : s'.ms.pageTable.entry v =
        if (s.ms.pageTable.entry v).visible = true then
          ⟨(s.ms.pageTable.entry v).ppn, MapArea.protectFlags
            (residentPerm a { perm with user := true }) (s.ms.pageTable.entry v)⟩
        else s.ms.pageTable.entry v)
  /-- `mprotect` made the private file area writable and copied the page. -/
  | copied {a : MapArea} {r : UserRange} {perm : MapPermission} {old : Nat}
      (hop : op = .mprotect r perm) (ha : a ∈ s.ms.areas) (hof : PageOf op s.ms a' a v v)
      (hrec : a.dataFrames[v]? = some old) (hv : r.start ≤ v ∧ v < r.stop)
      (hperm : a'.mapPerm = { perm with user := true }) (hshared : a.shared = false)
      (hfile : a.fileBacking ≠ none) (hread : a.mapPerm.write = false) (hwrite : perm.write = true)
      (hfresh : Fresh s s' p) (hmem : s'.k.phys.mem p = s.k.phys.mem old)
      (hentry : s'.ms.pageTable.entry v =
        ⟨p, if a.mapPerm.read || a.mapPerm.execute then
            (PTEFlags.ofPerm { perm with user := true }).mapped
          else (PTEFlags.ofPerm a.mapPerm).mapped⟩)
  /-- A copy-on-write fault found no other owner of the frame. -/
  | resolved {a : MapArea} {cause : PageFaultCause} {stval : Nat} {userSp : Option Nat}
      (hop : op = .fault cause stval userSp) (ha : a ∈ s.ms.areas) (hof : PageOf op s.ms a' a v v)
      (hrec : a.dataFrames[v]? = some p) (hperm : a'.mapPerm = a.mapPerm)
      (hshared : a.shared = false) (hanon : a.fileBacking = none) (hwrite : a.mapPerm.write = true)
      (hcount : MemorySet.strongCount s env.others p = 1)
      (hentry : s'.ms.pageTable.entry v =
        ⟨(s.ms.pageTable.entry v).ppn, (PTEFlags.ofPerm a.mapPerm).mapped⟩)
  /-- A copy-on-write fault copied the page. -/
  | replaced {a : MapArea} {cause : PageFaultCause} {stval : Nat} {userSp : Option Nat} {old : Nat}
      (hop : op = .fault cause stval userSp) (ha : a ∈ s.ms.areas) (hof : PageOf op s.ms a' a v v)
      (hrec : a.dataFrames[v]? = some old) (hperm : a'.mapPerm = a.mapPerm)
      (hshared : a.shared = false) (hwrite : a.mapPerm.write = true)
      (hfresh : Fresh s s' p) (hmem : s'.k.phys.mem p = s.k.phys.mem old)
      (hentry : s'.ms.pageTable.entry v = ⟨p, (PTEFlags.ofPerm a.mapPerm).mapped⟩)
  /-- The first store to a page of a shared file mapping made its entry writable. -/
  | opened {a : MapArea} {cause : PageFaultCause} {stval : Nat} {userSp : Option Nat}
      (hop : op = .fault cause stval userSp) (ha : a ∈ s.ms.areas) (hof : PageOf op s.ms a' a v v)
      (hrec : a.dataFrames[v]? = some p) (hperm : a'.mapPerm = a.mapPerm)
      (hshared : a.shared = true) (hwrite : a.mapPerm.write = true)
      (hentry : s'.ms.pageTable.entry v =
        ⟨(s.ms.pageTable.entry v).ppn, (PTEFlags.ofPerm a.mapPerm).mapped⟩)
  /-- A fault installed the page. -/
  | filled {a : MapArea} {cause : PageFaultCause} {stval : Nat} {userSp : Option Nat}
      (hop : op = .fault cause stval userSp) (ha : a ∈ s.ms.areas) (hof : PageOf op s.ms a' a v v)
      (hperm : a'.mapPerm = a.mapPerm) (haccess : a.mapPerm.accessible = true)
      (hframe : a'.FrameFor s.k s'.k ((v - a'.start) * pageSize) p)
      (hinvalid : (s.ms.pageTable.entry v).isValid = false)
      (hentry : s'.ms.pageTable.entry v = ⟨p, a'.pageFlags
        (a'.usesFile ((v - a'.start) * pageSize) && !a'.shared && a'.mapPerm.write)⟩)
  /-- `mremap` moved the page. -/
  | moved {a : MapArea} {w oldAddr oldLen newLen : Nat} {maymove : Bool} {fixedAddr : Option Nat}
      (hop : op = .mremap oldAddr oldLen newLen maymove fixedAddr) (ha : a ∈ s.ms.areas)
      (hof : PageOf op s.ms a' a v w) (hrec : a.dataFrames[w]? = some p)
      (hperm : a'.mapPerm = a.mapPerm)
      (hentry : s'.ms.pageTable.entry v = ⟨p, (PTEFlags.ofPerm a.mapPerm).mapped⟩)
  /-- A page of a new anonymous shared area. -/
  | anonymous {req : MmapRequest} (hop : op = .mmap req (.anonymous true))
      (hby : a'.BackedBy req (.anonymous true)) (hfresh : Fresh s s' p)
      (hentry : s'.ms.pageTable.entry v = ⟨p, (PTEFlags.ofPerm req.mapPerm).mapped⟩)
  /-- A page of an attached System V segment. -/
  | segment {req : MmapRequest} {attachId : Nat} {frames : List Nat}
      (hop : op = .mmap req (.segment attachId frames))
      (hby : a'.BackedBy req (.segment attachId frames)) (hmem : p ∈ frames)
      (hentry : s'.ms.pageTable.entry v = ⟨p, (PTEFlags.ofPerm req.mapPerm).mapped⟩)
  /-- A page of a new shared file mapping. -/
  | file {req : MmapRequest} {f offset : Nat} (hop : op = .mmap req (.file f offset true))
      (hby : a'.BackedBy req (.file f offset true))
      (hlt : offset + (v - a'.start) * pageSize < usizeSize)
      (hbacks : s'.k.Backs f ((offset + (v - a'.start) * pageSize) / pageSize) p)
      (hentry : s'.ms.pageTable.entry v = ⟨p, (PTEFlags.ofPerm req.mapPerm).removeWrite.mapped⟩)

/-- Some area records a frame for the page. -/
def MemorySet.Recorded (ms : MemorySet) (v : Nat) : Prop :=
  ∃ a ∈ ms.areas, ∃ p, a.dataFrames[v]? = some p

/-- What holds of an address space in every state: the entry of a recorded page is valid, shows the
recorded frame and is writable only where the area is, and no recorded frame is free. -/
structure MemorySet.Sound (k : Kernel) (ms : MemorySet) : Prop where
  geometry : Geometry ms.areas
  framed : ∀ a ∈ ms.areas, a.mapType = .framed
  valid : ∀ a ∈ ms.areas, ∀ v p : Nat, a.dataFrames[v]? = some p →
    (ms.pageTable.entry v).isValid = true ∧ (ms.pageTable.entry v).ppn = p
  writable : ∀ a ∈ ms.areas, ∀ v p : Nat, a.dataFrames[v]? = some p →
    (ms.pageTable.entry v).writable = true →
      a.mapPerm.write = true ∧ (ms.pageTable.entry v).readable = true
  owned : ∀ a ∈ ms.areas, ∀ v p : Nat, a.dataFrames[v]? = some p → ∀ i, p ≠ k.phys.supply i

/-- What one operation can do. -/
structure Effect (env : OpEnv) (op : Op) (s s' : MmState) : Prop where
  obtains : s.k.Obtains (s.ms.pins env.others) s'.k
  area : ∀ a' ∈ s'.ms.areas, AreaOrigin op s a'
  page : ∀ a' ∈ s'.ms.areas, ∀ v p : Nat, a'.dataFrames[v]? = some p → PageOrigin env op s s' a' v p
  fresh_unique : ∀ a ∈ s'.ms.areas, ∀ b ∈ s'.ms.areas, ∀ v w p : Nat, a.dataFrames[v]? = some p →
    b.dataFrames[w]? = some p → Fresh s s' p → v = w
  storable : (∀ oldAddr oldLen newLen maymove fixedAddr,
      op ≠ .mremap oldAddr oldLen newLen maymove fixedAddr) →
    ∀ v, (s'.ms.pageTable.entry v).storable = true → s'.ms.Recorded v ∨
      ((s.ms.pageTable.entry v).storable = true ∧ ¬ s.ms.Recorded v)

end RespOS.Mm
