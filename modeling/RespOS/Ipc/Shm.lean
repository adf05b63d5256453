import RespOS.Mm.MachineStep

/-!
# System V shared memory

`SHM_TABLE` holds the segments and, in `attach_owners`, the segment of every attach id. An attachment
itself is an area of an address space with an attach id, whose pages record frames of the segment; the
table does not count attachments but looks for such areas in the address spaces of all tasks.

`ShmWorld` is the table together with the address spaces and the kernel state of `Machine`. A step is a
call of `shmget`, `shmat`, `shmdt` or `shmctl(IPC_RMID)`, an operation, a fork or a store in an address
space, or the end of an address space by `exec` or `exit`. A call is one step, so in the states between
steps no call is in progress.

`ShmInv` holds in every reachable state (`shmInv_of_run`): no two segments share a frame, and the frames
of segments are in no page cache.

Times, process ids, the index of a segment and the lock flag, which only `shmctl` reports, are left out.
-/

namespace RespOS.Ipc

open RespOS.Basis RespOS.Fs RespOS.Mm List MemorySet Outcome Option

/-! ### Segments and the table -/

def IPC_PRIVATE : Int := 0
def IPC_CREAT : Nat := 0o1000
def IPC_EXCL : Nat := 0o2000
def SHM_HUGETLB : Nat := 0o4000
def SHM_RDONLY : Nat := 0o10000
def SHM_RND : Nat := 0o20000
def SHM_REMAP : Nat := 0o40000
def SHM_EXEC : Nat := 0o100000
def SHMMIN : Nat := 1
def MODE_MASK : Nat := 0o777

def hasFlag (flags flag : Nat) : Bool := decide (flags &&& flag ≠ 0)

structure Cred where
  euid : Nat
  egid : Nat

structure ShmSegment where
  key : Int
  id : Nat
  size : Nat
  mapLen : Nat
  mode : Nat
  uid : Nat
  gid : Nat
  cuid : Nat
  cgid : Nat
  markedRemoved : Bool
  pendingAttaches : Nat
  frames : List Nat
  mapLen_pos : 0 < mapLen
  mapLen_aligned : mapLen % pageSize = 0

/-- The mode bits of the class of a task: owner, group or other. -/
def ShmSegment.available (segment : ShmSegment) (cred : Cred) : Nat :=
  let shift :=
    if cred.euid % 2 ^ 32 = segment.uid ∨ cred.euid % 2 ^ 32 = segment.cuid then 6
    else if cred.egid % 2 ^ 32 = segment.gid ∨ cred.egid % 2 ^ 32 = segment.cgid then 3
    else 0
  segment.mode >>> shift &&& 0o7

def shmAccessAllowed (segment : ShmSegment) (cred : Cred) (requested : Nat) : Bool :=
  if requested = 0 then true
  else if cred.euid = 0 then true
  else
    let needed := (if hasFlag requested 0o400 then 0o4 else 0) |||
      (if hasFlag requested 0o200 then 0o2 else 0)
    decide (segment.available cred &&& needed = needed)

/-- `ShmTable`; both maps are lists in the order of their keys. -/
structure ShmTable where
  nextId : Nat := 1
  nextAttachId : Nat := 1
  segments : List ShmSegment := []
  attachOwners : List (Nat × Nat) := []

variable {shmid size shmflg attachId shmaddr : Nat} {ms : MemorySet}

namespace ShmTable

def findByKey (t : ShmTable) (key : Int) : Option ShmSegment :=
  t.segments.find? fun segment ↦ decide (segment.key = key) && !segment.markedRemoved

def get (t : ShmTable) (shmid : Nat) : Option ShmSegment :=
  t.segments.find? fun segment ↦ decide (segment.id = shmid)

/-- `segments.get_mut`: the segment of an id is changed. -/
def modify (t : ShmTable) (shmid : Nat) (f : ShmSegment → ShmSegment) : ShmTable :=
  { t with segments := t.segments.map fun segment ↦ if segment.id = shmid then f segment else segment }

/-- `remove_segment` for every segment that the test selects. -/
def removeSegments (t : ShmTable) (dead : ShmSegment → Bool) : ShmTable :=
  { t with
    segments := t.segments.filter fun segment ↦ !dead segment
    attachOwners := t.attachOwners.filter fun entry ↦
      !t.segments.any fun segment ↦ dead segment && decide (segment.id = entry.2) }

theorem mem_of_get {t : ShmTable} {segment : ShmSegment} (h : t.get shmid = some segment) :
    segment ∈ t.segments ∧ segment.id = shmid := by
  refine ⟨mem_of_find?_eq_some h, ?_⟩
  have hid := find?_some h
  simpa using hid

end ShmTable

/-- A resident page of the area has one of the frames. -/
def holdsFrame (a : MapArea) (frames : List Nat) : Bool :=
  a.dataFrames.toList.any fun entry ↦ decide (entry.2 ∈ frames)

theorem holdsFrame_iff {a : MapArea} {frames : List Nat} :
    holdsFrame a frames = true ↔ ∃ v p : Nat, a.dataFrames[v]? = some p ∧ p ∈ frames := by
  simp only [holdsFrame, List.any_eq_true, decide_eq_true_eq, Prod.exists,
    Std.ExtTreeMap.mem_toList_iff_getElem?_eq_some]

def shmAttachIdsForFrames (ms : MemorySet) (frames : List Nat) : List Nat :=
  ((ms.areas.filter fun a ↦ holdsFrame a frames).filterMap MapArea.shmAttachId).eraseDups

def shmAttachIds (ms : MemorySet) : List Nat := (ms.areas.filterMap MapArea.shmAttachId).eraseDups

def hasShmAttachId (ms : MemorySet) (attachId : Nat) : Bool :=
  ms.areas.any fun a ↦ decide (a.shmAttachId = some attachId)

/-- `remove_shm_attachment`: every area with the attach id of the area at the page is unmapped. -/
def removeShmAttachment (ms : MemorySet) (vpn : Nat) : Option (Nat × MemorySet) :=
  ((ms.findArea vpn).bind MapArea.shmAttachId).map fun attachId ↦
    let gone := ms.areas.filter fun a ↦ decide (a.shmAttachId = some attachId)
    (attachId, { ms with
      areas := ms.areas.filter fun a ↦ decide (a.shmAttachId ≠ some attachId)
      pageTable := gone.foldl (fun pt a ↦ (a.unmap pt).2) ms.pageTable })

/-! ### The calls -/

/-- The limits that `/proc/sys/kernel` sets. -/
structure ShmLimits where
  shmmax : Nat
  shmmni : Nat
  shmall : Nat

/-- The table, the kernel state, the live address spaces and the ids of their tasks. -/
structure ShmWorld where
  k : Kernel
  spaces : List MemorySet
  creds : Nat → Cred
  limits : ShmLimits
  table : ShmTable := {}

/-- A call, made by a task of the address space that the label names. -/
inductive ShmCall
  | shmget (key : Int) (size shmflg : Nat)
  | shmat (shmid shmaddr shmflg : Nat)
  | shmdt (shmaddr : Nat)
  | rmid (shmid : Nat)
  /-- An operation, a fork or a store. -/
  | mem (action : Action)
  /-- `shared`: a task of another process keeps the address space. -/
  | exec (shared : Bool)
  | exit (shared : Bool)

/-- One step, with what the rest of the system contributes. -/
structure ShmLabel where
  sid : Nat
  call : ShmCall
  io : IoEnv := {}
  allocFails : List Bool := []
  supply : Option (Nat → Nat) := none

/-- The label of an action of the address spaces. -/
def ShmLabel.label (l : ShmLabel) (action : Action) : Label :=
  ⟨l.sid, action, l.io, l.allocFails, l.supply⟩

namespace ShmWorld

/-- The address spaces with the frames that the table pins. -/
def machine (w : ShmWorld) : Machine := ⟨w.k, w.spaces, w.table.segments.map ShmSegment.frames⟩

def settle (w : ShmWorld) (l : ShmLabel) : ShmWorld :=
  { w with k := (w.machine.settle (l.label .fork)).k }

/-- The number of pages that a size takes, in bytes. -/
def roundUp (size : Nat) : Nat := (size + (pageSize - 1)) / pageSize * pageSize

theorem roundUp_pos (h : 0 < size) : 0 < roundUp size := by
  have hpages : 0 < (size + (pageSize - 1)) / pageSize :=
    Nat.div_pos (by simp only [pageSize]; omega) (by decide)
  exact Nat.mul_pos hpages (by decide)

def sysShmget (w : ShmWorld) (sid : Nat) (key : Int) (size shmflg : Nat) :
    Outcome ShmWorld Nat :=
  let cred := w.creds sid
  if hasFlag shmflg SHM_HUGETLB then .err .EINVAL w
  else
    match if key ≠ IPC_PRIVATE then w.table.findByKey key else none with
    | some segment =>
      if hasFlag shmflg IPC_CREAT && hasFlag shmflg IPC_EXCL then .err .EEXIST w
      else if segment.size < size then .err .EINVAL w
      else if !shmAccessAllowed segment cred (shmflg &&& 0o600) then .err .EACCES w
      else .ok segment.id w
    | none =>
      if key ≠ IPC_PRIVATE ∧ hasFlag shmflg IPC_CREAT = false then .err .ENOENT w
      else if hsize : size < SHMMIN ∨ w.limits.shmmax < size then .err .EINVAL w
      else if checkedAdd size (pageSize - 1) = none then .err .ENOMEM w
      else
        let pageCount := roundUp size / pageSize
        let usedPages := (w.table.segments.map fun segment ↦ segment.mapLen / pageSize).sum
        if w.limits.shmall < usedPages + pageCount then .err .ENOSPC w
        else
          match Machine.allocFrames pageCount w.k.phys with
          | (none, phys) => .err .ENOMEM { w with k := w.k.setPhys phys }
          | (some frames, phys) =>
            let w := { w with k := w.k.setPhys phys }
            -- `alloc_id`
            if w.limits.shmmni ≤ w.table.segments.length then .err .ENOSPC w
            else
              match checkedAdd w.table.nextId 1 with
              | none => .err .ENOSPC w
              | some nextId =>
                let segment : ShmSegment :=
                  { key := key
                    id := w.table.nextId
                    size := size
                    mapLen := roundUp size
                    mode := shmflg &&& MODE_MASK
                    uid := cred.euid % 2 ^ 32
                    gid := cred.egid % 2 ^ 32
                    cuid := cred.euid % 2 ^ 32
                    cgid := cred.egid % 2 ^ 32
                    markedRemoved := false
                    pendingAttaches := 0
                    frames := frames
                    mapLen_pos := roundUp_pos (by simp only [SHMMIN] at hsize; omega)
                    mapLen_aligned := Nat.mul_mod_left _ _ }
                let table := { w.table with
                  nextId := nextId
                  segments := w.table.segments ++ [segment] }
                .ok segment.id { w with table := table }

def shmAttachCount (w : ShmWorld) (frames : List Nat) : Nat :=
  (w.spaces.map fun ms ↦ (shmAttachIdsForFrames ms frames).length).sum

def shmAttachIdInUse (w : ShmWorld) (attachId : Nat) : Bool :=
  w.spaces.any fun ms ↦ hasShmAttachId ms attachId

/-- A segment that is marked removed, with no attachment or pending one. -/
def dead (w : ShmWorld) (segment : ShmSegment) : Bool :=
  segment.markedRemoved && decide (segment.pendingAttaches = 0) &&
    decide (w.shmAttachCount segment.frames = 0)

def removeDead (w : ShmWorld) : ShmWorld := { w with table := w.table.removeSegments w.dead }

def releaseShmAttachments (w : ShmWorld) (attachIds : List Nat) : ShmWorld :=
  if attachIds.isEmpty then w
  else
    let unused := attachIds.filter fun attachId ↦ !w.shmAttachIdInUse attachId
    let owners := w.table.attachOwners.filter fun entry ↦ decide (entry.1 ∉ unused)
    removeDead { w with table := { w.table with attachOwners := owners } }

def attachAddr (shmaddr shmflg : Nat) : Except Errno (Option Nat) :=
  if shmaddr = 0 then
    if hasFlag shmflg SHM_REMAP then .error .EINVAL else .ok none
  else if shmaddr % pageSize = 0 then .ok (some shmaddr)
  else if hasFlag shmflg SHM_RND then
    let rounded := shmaddr / pageSize * pageSize
    if rounded = 0 ∧ hasFlag shmflg SHM_REMAP = true then .error .EINVAL else .ok (some rounded)
  else .error .EINVAL

def attachRequest (segment : ShmSegment) (addr : Option Nat) (shmflg : Nat) : MmapRequest where
  addr := addr
  mapLen := segment.mapLen
  mapLen_pos := segment.mapLen_pos
  mapPerm :=
    { read := true
      write := !hasFlag shmflg SHM_RDONLY
      execute := hasFlag shmflg SHM_EXEC
      user := true }
  replace := hasFlag shmflg SHM_REMAP
  noreplace := addr.isSome && !hasFlag shmflg SHM_REMAP

/-- The access that `sys_shmat` asks `shm_access_allowed` for. -/
def attachNeeded (shmflg : Nat) : Nat :=
  (if hasFlag shmflg SHM_RDONLY then 0o400 else 0o600) |||
    (if hasFlag shmflg SHM_EXEC then 0o100 else 0)

/-- The first hold of the table lock by `sys_shmat`. -/
def beginAttach (t : ShmTable) (shmid nextAttachId : Nat) : ShmTable :=
  { t.modify shmid fun segment ↦ { segment with
      pendingAttaches := segment.pendingAttaches + 1 } with
    nextAttachId := nextAttachId
    attachOwners := t.attachOwners ++ [(t.nextAttachId, shmid)] }

/-- The second hold of the table lock by `sys_shmat`; `attached` is the result of the mapping. -/
def finishAttach (w : ShmWorld) (shmid attachId : Nat) (attached : Bool) : ShmWorld :=
  let table := w.table.modify shmid fun segment ↦ { segment with
    pendingAttaches := segment.pendingAttaches - 1 }
  let owners :=
    if attached then table.attachOwners
    else table.attachOwners.filter fun entry ↦ decide (entry.1 ≠ attachId)
  removeDead { w with table := { table with attachOwners := owners } }

/-- `sys_shmat` by a task of the address space `ms`. -/
def sysShmat (w : ShmWorld) (io : IoEnv) (sid : Nat) (ms : MemorySet)
    (shmid shmaddr shmflg : Nat) : Outcome ShmWorld Nat :=
  if shmflg &&& (SHM_RDONLY ||| SHM_RND ||| SHM_REMAP ||| SHM_EXEC) ≠ shmflg then .err .EINVAL w
  else
    match attachAddr shmaddr shmflg with
    | .error e => .err e w
    | .ok addr =>
      match w.table.get shmid with
      | none => .err .EINVAL w
      | some segment =>
        if !shmAccessAllowed segment (w.creds sid) (attachNeeded shmflg) then .err .EACCES w
        else
          match checkedAdd w.table.nextAttachId 1 with
          | none => .err .ENOSPC w
          | some nextAttachId =>
            let attachId := w.table.nextAttachId
            let req := attachRequest segment addr shmflg
            let result := MemorySet.mmap ⟨ms, w.k⟩ ⟨w.machine.others sid, io⟩ req
              (.segment attachId segment.frames)
            let w := { w with table := beginAttach w.table shmid nextAttachId }
            match result with
            | .panic => .panic
            | .ok start s =>
              .ok start (finishAttach { w with k := s.k, spaces := w.spaces.set sid s.ms }
                shmid attachId true)
            | .err e s =>
              .err (if addr.isSome && !hasFlag shmflg SHM_REMAP && decide (e = .EEXIST) then .EINVAL
                else e) (finishAttach { w with k := s.k, spaces := w.spaces.set sid s.ms }
                  shmid attachId false)

def sysShmdt (w : ShmWorld) (sid : Nat) (ms : MemorySet) (shmaddr : Nat) : Outcome ShmWorld Nat :=
  if shmaddr % pageSize ≠ 0 then .err .EINVAL w
  else
    match removeShmAttachment ms (floorVpn (virtAddr shmaddr)) with
    | none => .err .EINVAL w
    | some (attachId, ms) =>
      .ok 0 (releaseShmAttachments { w with spaces := w.spaces.set sid ms } [attachId])

/-- `sys_shmctl` with `IPC_RMID`. -/
def sysShmctlRmid (w : ShmWorld) (sid shmid : Nat) : Outcome ShmWorld Nat :=
  match w.table.get shmid with
  | none => .err .EINVAL w
  | some segment =>
    let cred := w.creds sid
    if cred.euid ≠ 0 ∧ cred.euid % 2 ^ 32 ≠ segment.uid then .err .EPERM w
    else if segment.pendingAttaches = 0 ∧ w.shmAttachCount segment.frames = 0 then
      .ok 0 { w with table := w.table.removeSegments fun s ↦ decide (s.id = shmid) }
    else
      .ok 0 { w with table := w.table.modify shmid fun s ↦ { s with markedRemoved := true } }

/-- `exec` has installed the new image, here still without areas; the old address space is dropped
unless another process uses it. -/
def execSpace (w : ShmWorld) (sid : Nat) (ms : MemorySet) (shared : Bool) : ShmWorld :=
  match w.k.phys.frameAlloc with
  | (none, phys) => { w with k := w.k.setPhys phys }
  | (some root, phys) =>
    let fresh : MemorySet := { pageTable := .fromKernel root }
    let k := w.k.setPhys phys
    if shared then
      let creds := Function.update w.creds w.spaces.length (w.creds sid)
      releaseShmAttachments { w with k := k, spaces := w.spaces ++ [fresh], creds := creds }
        (shmAttachIds ms)
    else
      releaseShmAttachments { w with
        k := MemorySet.notifyAllClose ms.areas k
        spaces := w.spaces.set sid fresh } (shmAttachIds ms)

/-- The part of `exit_process_group` that concerns the address space: `recycle_data_pages` and the
release of its attachments, unless another process uses it. -/
def exitSpace (w : ShmWorld) (sid : Nat) (ms : MemorySet) (shared : Bool) : ShmWorld :=
  if shared then w
  else
    let recycled := { ms with
      areas := []
      pageTable := ms.areas.foldl (fun pt a ↦ (a.unmap pt).2) ms.pageTable }
    releaseShmAttachments { w with
      k := MemorySet.notifyAllClose ms.areas w.k
      spaces := w.spaces.set sid recycled } (shmAttachIds ms)

/-- An action of the address spaces. Segments come from `shmget` and `shmat` only. -/
def memStep (w : ShmWorld) (l : ShmLabel) (ms : MemorySet) (action : Action) : Option ShmWorld :=
  match action with
  | .shmget _ => none
  | .op (.mmap _ (.segment _ _)) => none
  | action =>
    (w.machine.act (l.label action) ms).map fun m ↦
      { w with
        k := m.k
        spaces := m.spaces
        creds := Function.update w.creds w.spaces.length (w.creds l.sid) }

def next (w : ShmWorld) (l : ShmLabel) : Option ShmWorld :=
  (w.spaces[l.sid]?).bind fun ms ↦
    let w := w.settle l
    match l.call with
    | .shmget key size shmflg => (w.sysShmget l.sid key size shmflg).state?
    | .shmat shmid shmaddr shmflg => (w.sysShmat l.io l.sid ms shmid shmaddr shmflg).state?
    | .shmdt shmaddr => (w.sysShmdt l.sid ms shmaddr).state?
    | .rmid shmid => (w.sysShmctlRmid l.sid shmid).state?
    | .mem action => w.memStep l ms action
    | .exec shared => some (w.execSpace l.sid ms shared)
    | .exit shared => some (w.exitSpace l.sid ms shared)

/-- The step relation; the allocator hands out frames that nobody owns. -/
def Step (w : ShmWorld) (l : ShmLabel) (w' : ShmWorld) : Prop :=
  w.machine.Admissible (l.label .fork) ∧ w.next l = some w'

/-- The system starts with empty address spaces and no segments. -/
structure Init (w : ShmWorld) : Prop where
  machine : w.machine.Init
  table : w.table = {}

/-! ### What a step can be -/

end ShmWorld

/-- The segments have the same frames and the same access rights. -/
structure ShmSegment.SameAccess (s' s : ShmSegment) : Prop where
  id : s'.id = s.id
  frames : s'.frames = s.frames
  available : s'.available = s.available

/-- The table has only segments of another one, which may be marked or waited for differently. -/
def ShmTable.Derived (t' t : ShmTable) : Prop :=
  ∃ g : ShmSegment → ShmSegment, (∀ s, (g s).SameAccess s) ∧
    ∀ s' ∈ t'.segments, ∃ s ∈ t.segments, s' = g s

namespace ShmTable.Derived

variable {t t' t'' : ShmTable}

theorem refl (t : ShmTable) : t.Derived t := ⟨id, fun _ ↦ ⟨rfl, rfl, rfl⟩, fun s hs ↦ ⟨s, hs, rfl⟩⟩

theorem trans (h : t''.Derived t') (h' : t'.Derived t) : t''.Derived t := by
  rcases h with ⟨g, hg, hsub⟩
  rcases h' with ⟨g', hg', hsub'⟩
  refine ⟨fun s ↦ g (g' s), fun s ↦ ?_, fun s'' hs'' ↦ ?_⟩
  · exact ⟨(hg _).id.trans (hg' s).id, (hg _).frames.trans (hg' s).frames,
      (hg _).available.trans (hg' s).available⟩
  · rcases hsub s'' hs'' with ⟨s', hs', rfl⟩
    rcases hsub' s' hs' with ⟨s, hs, rfl⟩
    exact ⟨s, hs, rfl⟩

theorem of_subset (h : ∀ s ∈ t'.segments, s ∈ t.segments) : t'.Derived t :=
  ⟨id, fun _ ↦ ⟨rfl, rfl, rfl⟩, fun s hs ↦ ⟨s, h s hs, rfl⟩⟩

theorem modify (t : ShmTable) (shmid : Nat) {f : ShmSegment → ShmSegment}
    (hf : ∀ s, (f s).SameAccess s) : (t.modify shmid f).Derived t := by
  refine ⟨fun s ↦ if s.id = shmid then f s else s, fun s ↦ ?_, fun s' hs' ↦ ?_⟩
  · dsimp only
    split
    · exact hf s
    · exact ⟨rfl, rfl, rfl⟩
  · rcases mem_map.mp hs' with ⟨s, hs, rfl⟩
    exact ⟨s, hs, rfl⟩

theorem removeSegments (t : ShmTable) (dead : ShmSegment → Bool) :
    (t.removeSegments dead).Derived t :=
  of_subset fun _ hs ↦ (mem_filter.mp hs).1

theorem mem_frames (h : t'.Derived t) :
    ∀ frames ∈ t'.segments.map ShmSegment.frames, frames ∈ t.segments.map ShmSegment.frames := by
  rcases h with ⟨g, hg, hsub⟩
  intro frames hframes
  rcases mem_map.mp hframes with ⟨s', hs', rfl⟩
  rcases hsub s' hs' with ⟨s, hs, rfl⟩
  exact mem_map.mpr ⟨s, hs, (hg s).frames.symm⟩

end ShmTable.Derived

namespace ShmWorld

variable {w w' : ShmWorld} {l : ShmLabel}

structure ShmInv (w : ShmWorld) : Prop where
  inv : w.machine.Inv
  loose : ∀ s ∈ w.table.segments, ∀ p ∈ s.frames, w.k.Loose p
  disjoint : ∀ s ∈ w.table.segments, ∀ s' ∈ w.table.segments, ∀ p ∈ s.frames, p ∈ s'.frames → s = s'

structure Idle (w w' : ShmWorld) : Prop where
  obtains : w.k.Obtains (fun _ ↦ 0) w'.k
  spaces : w'.spaces = w.spaces
  creds : w'.creds = w.creds
  table : w'.table = w.table

structure Creates (w : ShmWorld) (segment : ShmSegment) (w' : ShmWorld) : Prop where
  obtains : w.k.Obtains (fun _ ↦ 0) w'.k
  fresh : ∀ p ∈ segment.frames, w'.k.Loose p ∧ ∃ j, p = w.k.phys.supply j
  spaces : w'.spaces = w.spaces
  creds : w'.creds = w.creds
  id : segment.id = w.table.nextId
  unmarked : segment.markedRemoved = false
  pending : segment.pendingAttaches = 0
  table : w'.table = { w.table with
    nextId := w.table.nextId + 1
    segments := w.table.segments ++ [segment] }

/-- `shmat` has come as far as the mapping; `attached` is its result. -/
structure Attaches (w : ShmWorld) (l : ShmLabel) (ms : MemorySet) (shmid shmaddr shmflg : Nat)
    (segment : ShmSegment) (addr : Option Nat) (s : MmState) (attached : Bool) (w' : ShmWorld) :
    Prop where
  chosen : attachAddr shmaddr shmflg = .ok addr
  get : w.table.get shmid = some segment
  allowed : shmAccessAllowed segment (w.creds l.sid) (attachNeeded shmflg) = true
  mmap : (∃ start, MemorySet.mmap ⟨ms, w.k⟩ ⟨w.machine.others l.sid, l.io⟩
      (attachRequest segment addr shmflg) (.segment w.table.nextAttachId segment.frames) =
        .ok start s ∧ attached = true) ∨
    ∃ e, MemorySet.mmap ⟨ms, w.k⟩ ⟨w.machine.others l.sid, l.io⟩ (attachRequest segment addr shmflg)
      (.segment w.table.nextAttachId segment.frames) = .err e s ∧ attached = false
  eq : w' = finishAttach { w with
      table := beginAttach w.table shmid (w.table.nextAttachId + 1)
      k := s.k
      spaces := w.spaces.set l.sid s.ms } shmid w.table.nextAttachId attached

/-- What a step from the settled state `w` can be. -/
inductive Moves (w : ShmWorld) (l : ShmLabel) (w' : ShmWorld) : Prop
  /-- An operation, a fork or a store. -/
  | mem {action : Action} {m' : Machine} (hcall : l.call = .mem action)
      (hplain : ∀ req attachId frames, action ≠ .op (.mmap req (.segment attachId frames)))
      (hadvance : w.machine.Advance (l.label action) m') (hk : w'.k = m'.k)
      (hspaces : w'.spaces = m'.spaces) (htable : w'.table = w.table)
      (hsegments : m'.segments = w.machine.segments)
      (hcreds : w'.creds = Function.update w.creds w.spaces.length (w.creds l.sid))
  /-- `shmat` has come as far as the mapping. -/
  | attach {segment : ShmSegment} {addr : Option Nat} {shmid shmaddr shmflg attachId : Nat}
      {m' : Machine} (hcall : l.call = .shmat shmid shmaddr shmflg)
      (hget : w.table.get shmid = some segment)
      (hallowed : shmAccessAllowed segment (w.creds l.sid) (attachNeeded shmflg) = true)
      (hadvance : w.machine.Advance
        (l.label (.op (.mmap (attachRequest segment addr shmflg) (.segment attachId segment.frames)))) m')
      (hk : w'.k = m'.k) (hspaces : w'.spaces = m'.spaces)
      (hsegments : m'.segments = w.machine.segments) (hcreds : w'.creds = w.creds)
      (htable : w'.table.Derived w.table)
  /-- `shmget` has made a segment. -/
  | create {segment : ShmSegment} (hcreates : w.Creates segment w')
  /-- Areas and segments can only have gone. -/
  | shrink (hobtains : w.k.Obtains (fun _ ↦ 0) w'.k) (hinv : w'.machine.Inv)
      (hspaces : ∀ (i : Nat) (ms' : MemorySet), w'.spaces[i]? = some ms' → ms'.areas = [] ∨
        ∃ ms : MemorySet, w.spaces[i]? = some ms ∧ ∀ a ∈ ms'.areas, a ∈ ms.areas)
      (hcreds : ∀ i < w.spaces.length, w'.creds i = w.creds i)
      (htable : w'.table.Derived w.table)

/-! #### The table functions -/

theorem derived_removeDead (w : ShmWorld) : w.removeDead.table.Derived w.table :=
  .removeSegments w.table w.dead

theorem derived_releaseShmAttachments (w : ShmWorld) (attachIds : List Nat) :
    (w.releaseShmAttachments attachIds).table.Derived w.table := by
  unfold releaseShmAttachments
  split
  · exact .refl w.table
  · exact (derived_removeDead _).trans (.of_subset fun _ hs ↦ hs)

theorem derived_finishAttach (w : ShmWorld) (shmid attachId : Nat) (attached : Bool) :
    (w.finishAttach shmid attachId attached).table.Derived w.table := by
  have hmodify : (w.table.modify shmid fun s ↦ { s with
      pendingAttaches := s.pendingAttaches - 1 }).Derived w.table :=
    .modify w.table shmid fun _ ↦ ⟨rfl, rfl, rfl⟩
  exact (derived_removeDead _).trans (.trans (.of_subset fun _ hs ↦ hs) hmodify)

theorem derived_beginAttach (t : ShmTable) (shmid nextAttachId : Nat) :
    (beginAttach t shmid nextAttachId).Derived t := by
  have hmodify : (t.modify shmid fun s ↦ { s with
      pendingAttaches := s.pendingAttaches + 1 }).Derived t :=
    .modify t shmid fun _ ↦ ⟨rfl, rfl, rfl⟩
  exact .trans (.of_subset fun _ hs ↦ hs) hmodify

section

variable (w : ShmWorld) (attachIds : List Nat)

@[simp] theorem releaseShmAttachments_k : (w.releaseShmAttachments attachIds).k = w.k := by
  unfold releaseShmAttachments
  split <;> rfl

@[simp] theorem releaseShmAttachments_spaces :
    (w.releaseShmAttachments attachIds).spaces = w.spaces := by
  unfold releaseShmAttachments
  split <;> rfl

@[simp] theorem releaseShmAttachments_creds :
    (w.releaseShmAttachments attachIds).creds = w.creds := by
  unfold releaseShmAttachments
  split <;> rfl

end

/-! #### The steps -/

section

variable (h : w.ShmInv)
include h

theorem ShmInv.settle (hadm : w.machine.Admissible (l.label .fork)) : (w.settle l).ShmInv := by
  have hinv : (w.machine.settle (l.label .fork)).Inv := h.inv.settle hadm
  refine ⟨hinv, fun s hs p hp ↦ ?_, h.disjoint⟩
  have hold := h.loose s hs p hp
  refine ⟨?_, hold.not_cached, fun key hkey ↦ ?_⟩
  · exact hinv.segments s.frames (mem_map.mpr ⟨s, hs, rfl⟩) p hp
  · exact hold.not_shared key (filter_eq_some_iff.mp hkey).1

theorem moves_of_same (hobtains : w.k.Obtains (fun _ ↦ 0) w'.k)
    (hspaces : w'.spaces = w.spaces) (hcreds : w'.creds = w.creds)
    (htable : w'.table.Derived w.table) : Moves w l w' := by
  refine .shrink hobtains ?_ (fun i ms' hms' ↦ ?_) (fun i _ ↦ by rw [hcreds]) htable
  · refine h.inv.of_obtains hobtains (fun ms hms ↦ .inl ?_) htable.mem_frames
    show ms ∈ w.spaces
    exact hspaces ▸ hms
  · exact .inr ⟨ms', hspaces ▸ hms', fun a ha ↦ ha⟩

theorem Idle.moves (hidle : w.Idle w') : Moves w l w' :=
  moves_of_same h hidle.obtains hidle.spaces hidle.creds (hidle.table ▸ .refl _)

theorem Idle.refl : w.Idle w := ⟨.refl h.inv.kernel, rfl, rfl, rfl⟩

theorem sysShmget_cases {sid : Nat} {key : Int}
    (hstate : (w.sysShmget sid key size shmflg).state? = some w') :
    w.Idle w' ∨ ∃ segment, w.Creates segment w' := by
  have hsame : w.Idle w := .refl h
  revert hstate
  fun_cases w.sysShmget sid key size shmflg with
  | case10 _ _ _ _ _ _ _ _ phys hphys =>
    rintro ⟨⟩
    exact .inl ⟨(Machine.allocFrames_spec h.inv.kernel hphys).1 _, rfl, rfl, rfl⟩
  | case11 _ _ _ _ _ _ _ _ frames phys hphys | case12 _ _ _ _ _ _ _ _ frames phys hphys =>
    intro hstate
    rw [← some.inj hstate]
    exact .inl ⟨(Machine.allocFrames_spec h.inv.kernel hphys).1 _, rfl, rfl, rfl⟩
  | case13 _ _ _ _ _ _ _ _ _ frames phys hphys _ _ nextId hnext =>
    intro hstate
    obtain rfl := (checkedAdd_eq_some.mp hnext).2
    rw [← some.inj hstate]
    have hspec := Machine.allocFrames_spec h.inv.kernel hphys
    exact .inr ⟨_, ⟨hspec.1 _, hspec.2 frames rfl, rfl, rfl, rfl, rfl, rfl, rfl⟩⟩
  | _ =>
    rintro ⟨⟩
    exact .inl hsame

theorem moves_shmget {key : Int}
    (hstate : (w.sysShmget l.sid key size shmflg).state? = some w') : Moves w l w' := by
  rcases sysShmget_cases h hstate with hidle | ⟨segment, hcreates⟩
  · exact hidle.moves h
  · exact .create hcreates

theorem advance_attach {req : MmapRequest} {segment : ShmSegment} {s : MmState}
    (hadm : w.machine.Admissible (l.label .fork)) (hms : w.spaces[l.sid]? = some ms)
    (hsegment : segment ∈ w.table.segments)
    (hmmap : (mmap ⟨ms, (w.settle l).k⟩ ⟨(w.settle l).machine.others l.sid, l.io⟩ req
      (.segment attachId segment.frames)).state? = some s) :
    (w.settle l).machine.Advance (l.label (.op (.mmap req (.segment attachId segment.frames))))
      { (w.settle l).machine with k := s.k, spaces := w.spaces.set l.sid s.ms } := by
  have hstep : w.machine.Step (l.label (.op (.mmap req (.segment attachId segment.frames))))
      ⟨s.k, w.spaces.set l.sid s.ms, w.machine.segments⟩ := by
    refine ⟨⟨hadm.supply, ?_⟩, ?_⟩
    · rintro req' attachId' frames' heq
      simp only [ShmLabel.label, Action.op.injEq, Op.mmap.injEq, MapSource.segment.injEq] at heq
      rw [← heq.2.2]
      exact mem_map.mpr ⟨segment, hsegment, rfl⟩
    · have hrun : (runOp ⟨(w.settle l).machine.others l.sid, l.io⟩ ⟨ms, (w.settle l).k⟩
          (.mmap req (.segment attachId segment.frames))).state? = some s := by
        rw [← hmmap]
        exact state?_void _
      show (w.spaces[l.sid]?).bind _ = _
      rw [hms, bind_some]
      unfold Machine.act
      simp only [ShmLabel.label]
      split
      · rename_i hnone
        exact absurd (hrun.symm.trans hnone) (some_ne_none s)
      · rename_i s' hsome
        rw [← some.inj (hrun.symm.trans hsome)]
        rfl
  exact (Machine.Step.advance h.inv hstep).2

end

theorem sysShmat_cases (hstate : (w.sysShmat l.io l.sid ms shmid shmaddr shmflg).state? = some w') :
    w' = w ∨ ∃ segment addr s attached,
      Attaches w l ms shmid shmaddr shmflg segment addr s attached w' := by
  revert hstate
  fun_cases w.sysShmat l.io l.sid ms shmid shmaddr shmflg with
  | case6 => exact nofun
  | case7 _ addr haddr segment hget hallowed nextAttachId hnext attachId req result _ start s hmmap =>
    intro hstate
    obtain rfl := (checkedAdd_eq_some.mp hnext).2
    rw [← some.inj hstate]
    exact .inr ⟨segment, addr, s, true, haddr, hget, by simpa using hallowed, .inl ⟨start, hmmap, rfl⟩,
      rfl⟩
  | case8 _ addr haddr segment hget hallowed nextAttachId hnext attachId req result _ e s hmmap =>
    intro hstate
    obtain rfl := (checkedAdd_eq_some.mp hnext).2
    rw [← some.inj hstate]
    exact .inr ⟨segment, addr, s, false, haddr, hget, by simpa using hallowed, .inr ⟨e, hmmap, rfl⟩,
      rfl⟩
  | _ =>
    rintro ⟨⟩
    exact .inl rfl

theorem moves_shmat (h : w.ShmInv) (hadm : w.machine.Admissible (l.label .fork))
    (hms : w.spaces[l.sid]? = some ms) (hcall : l.call = .shmat shmid shmaddr shmflg)
    (hstate : ((w.settle l).sysShmat l.io l.sid ms shmid shmaddr shmflg).state? = some w') :
    Moves (w.settle l) l w' := by
  rcases sysShmat_cases hstate with rfl | ⟨segment, addr, s, attached, hattaches⟩
  · exact (Idle.refl (h.settle hadm)).moves (h.settle hadm)
  have hmem : segment ∈ w.table.segments := (ShmTable.mem_of_get hattaches.get).1
  have hmmap : (mmap ⟨ms, (w.settle l).k⟩ ⟨(w.settle l).machine.others l.sid, l.io⟩
      (attachRequest segment addr shmflg) (.segment w.table.nextAttachId segment.frames)).state? =
        some s := by
    rcases hattaches.mmap with ⟨start, heq, -⟩ | ⟨e, heq, -⟩ <;> exact congrArg state? heq
  rw [hattaches.eq]
  refine .attach hcall hattaches.get hattaches.allowed (advance_attach h hadm hms hmem hmmap)
    rfl rfl rfl rfl ?_
  exact (derived_finishAttach _ _ _ _).trans (derived_beginAttach _ _ _)

theorem entry_foldl_unmap {gone : List MapArea} {v : Nat} (hframed : ∀ a ∈ gone, a.mapType = .framed)
    (hv : ∀ a ∈ gone, a.dataFrames[v]? = none) (pt : PageTable) :
    (gone.foldl (fun pt a ↦ (a.unmap pt).2) pt).entry v = pt.entry v := by
  induction gone generalizing pt with
  | nil => rfl
  | cons a gone ih =>
    rw [foldl_cons, ih (fun b hb ↦ hframed b (mem_cons_of_mem a hb))
      (fun b hb ↦ hv b (mem_cons_of_mem a hb))]
    rw [MapArea.snd_unmap (hframed a mem_cons_self)]
    exact MapArea.entry_unmapPtesOnly_of_none (hv a mem_cons_self)

theorem removeShmAttachment_eq {ms' : MemorySet} {vpn : Nat}
    (h : removeShmAttachment ms vpn = some (attachId, ms')) :
    ms'.areas = (ms.areas.filter fun a ↦ decide (a.shmAttachId ≠ some attachId)) ∧
      ms'.pageTable = (ms.areas.filter fun a ↦ decide (a.shmAttachId = some attachId)).foldl
        (fun pt a ↦ (a.unmap pt).2) ms.pageTable := by
  rcases map_eq_some_iff.mp h with ⟨id, -, heq⟩
  rcases heq with ⟨rfl, rfl⟩
  exact ⟨rfl, rfl⟩

theorem sound_removeShmAttachment {ms' : MemorySet} {k : Kernel} {vpn : Nat} (hsound : ms.Sound k)
    (h : removeShmAttachment ms vpn = some (attachId, ms')) : ms'.Sound k := by
  rcases removeShmAttachment_eq h with ⟨hareas, hpt⟩
  have hmem : ∀ a ∈ ms'.areas, a ∈ ms.areas ∧ a.shmAttachId ≠ some attachId := by
    intro a ha
    rw [hareas] at ha
    simpa using mem_filter.mp ha
  -- a recorded page of an area that stays is in no area that goes
  have hentry : ∀ a ∈ ms'.areas, ∀ v p : Nat, a.dataFrames[v]? = some p →
      ms'.pageTable.entry v = ms.pageTable.entry v := by
    intro a ha v p hrec
    rw [hpt]
    apply entry_foldl_unmap
    · exact fun b hb ↦ hsound.framed b (mem_filter.mp hb).1
    · intro b hb
      by_contra hsome
      rcases ne_none_iff_exists'.mp hsome with ⟨q, hq⟩
      have hb' := mem_filter.mp hb
      have hsame := hsound.geometry.area_unique (hmem a ha).1 hb'.1 hrec hq
      rw [hsame] at ha
      exact (hmem b ha).2 (of_decide_eq_true hb'.2)
  refine ⟨?_, fun a ha ↦ hsound.framed a (hmem a ha).1, ?_, ?_, ?_⟩
  · rw [hareas]
    exact hsound.geometry.sublist filter_sublist
  · intro a ha v p hrec
    rw [hentry a ha v p hrec]
    exact hsound.valid a (hmem a ha).1 v p hrec
  · intro a ha v p hrec
    rw [hentry a ha v p hrec]
    exact hsound.writable a (hmem a ha).1 v p hrec
  · exact fun a ha ↦ hsound.owned a (hmem a ha).1

theorem moves_shmdt (h : w.ShmInv) (hms : w.spaces[l.sid]? = some ms)
    (hstate : (w.sysShmdt l.sid ms shmaddr).state? = some w') : Moves w l w' := by
  have hsame : Moves w l w := (Idle.refl h).moves h
  unfold sysShmdt at hstate
  split at hstate
  · exact some.inj hstate ▸ hsame
  split at hstate
  · exact some.inj hstate ▸ hsame
  rename_i attachId ms' hremove
  rw [← some.inj hstate]
  have hderived := derived_releaseShmAttachments { w with spaces := w.spaces.set l.sid ms' } [attachId]
  refine .shrink ?_ ⟨?_, ?_, ?_⟩ ?_ ?_ hderived
  · exact .refl h.inv.kernel
  · simpa [machine] using h.inv.kernel
  · intro ms₁ hms₁
    rcases mem_or_eq_of_mem_set hms₁ with hold | rfl
    · exact h.inv.sound ms₁ hold
    · exact sound_removeShmAttachment (h.inv.sound ms (mem_of_getElem? hms)) hremove
  · intro frames hframes p hp
    exact h.inv.segments frames (hderived.mem_frames frames hframes) p hp
  · intro i ms₁ hms₁
    rw [releaseShmAttachments_spaces] at hms₁
    by_cases hi : i = l.sid
    · subst hi
      have hlt := (List.getElem?_eq_some_iff.mp hms).1
      rw [List.getElem?_set_self hlt] at hms₁
      refine .inr ⟨ms, hms, fun a ha ↦ ?_⟩
      rw [← some.inj hms₁, (removeShmAttachment_eq hremove).1] at ha
      exact (mem_filter.mp ha).1
    · rw [getElem?_set_ne (Ne.symm hi)] at hms₁
      exact .inr ⟨ms₁, hms₁, fun a ha ↦ ha⟩
  · intro i _
    rw [releaseShmAttachments_creds]

theorem moves_rmid (h : w.ShmInv) (hstate : (w.sysShmctlRmid l.sid shmid).state? = some w') :
    Moves w l w' := by
  have hsame : Moves w l w := (Idle.refl h).moves h
  unfold sysShmctlRmid at hstate
  split at hstate
  · exact some.inj hstate ▸ hsame
  dsimp only at hstate
  split_ifs at hstate
  · exact some.inj hstate ▸ hsame
  · rw [← some.inj hstate]
    exact moves_of_same h (.refl h.inv.kernel) rfl rfl (.removeSegments _ _)
  · rw [← some.inj hstate]
    exact moves_of_same h (.refl h.inv.kernel) rfl rfl (.modify _ _ fun _ ↦ ⟨rfl, rfl, rfl⟩)

theorem memStep_cases {action : Action} (h : w.memStep l ms action = some w') :
    (∀ req attachId frames, action ≠ .op (.mmap req (.segment attachId frames))) ∧
      (∀ pages, action ≠ .shmget pages) ∧
      ∃ m', w.machine.act (l.label action) ms = some m' ∧ w' = { w with
        k := m'.k
        spaces := m'.spaces
        creds := Function.update w.creds w.spaces.length (w.creds l.sid) } := by
  unfold memStep at h
  split at h
  · exact nomatch h
  · exact nomatch h
  · rename_i hpages hsegment
    rcases map_eq_some_iff.mp h with ⟨m', hact, rfl⟩
    exact ⟨hsegment, hpages, m', hact, rfl⟩

theorem moves_mem {action : Action} (h : w.ShmInv) (hadm : w.machine.Admissible (l.label .fork))
    (hms : w.spaces[l.sid]? = some ms) (hcall : l.call = .mem action)
    (hmem : (w.settle l).memStep l ms action = some w') : Moves (w.settle l) l w' := by
  rcases memStep_cases hmem with ⟨hplain, hpages, m', hact, rfl⟩
  have hstep : w.machine.Step (l.label action) m' := by
    refine ⟨⟨hadm.supply, fun req attachId frames heq ↦ ?_⟩, ?_⟩
    · exact absurd heq (hplain req attachId frames)
    · show (w.spaces[l.sid]?).bind _ = _
      rw [hms]
      exact hact
  have hadvance := (Machine.Step.advance h.inv hstep).2
  refine .mem hcall hplain hadvance rfl rfl rfl ?_ rfl
  cases hadvance with
  | op _ _ _ _ _ _ hm' | forkFailed _ _ _ hm' | forked _ _ _ _ hm' | store _ _ _ _ hm' =>
    exact hm' ▸ rfl
  | segment haction => exact absurd haction (hpages _)

theorem moves_of_emptied {w₁ : ShmWorld} {attachIds : List Nat} (h : w.ShmInv)
    (hobtains : w.k.Obtains (fun _ ↦ 0) w₁.k)
    (hspaces : ∀ (i : Nat) (ms' : MemorySet), w₁.spaces[i]? = some ms' →
      ms'.areas = [] ∨ w.spaces[i]? = some ms')
    (hcreds : ∀ i < w.spaces.length, w₁.creds i = w.creds i) (htable : w₁.table = w.table) :
    Moves w l (w₁.releaseShmAttachments attachIds) := by
  have hderived := htable ▸ derived_releaseShmAttachments w₁ attachIds
  refine .shrink (by simpa using hobtains) ?_ (fun i ms' hms' ↦ ?_) (fun i hi ↦ ?_) hderived
  · have hareas : ∀ ms ∈ w₁.spaces, ms ∈ w.spaces ∨ ms.areas = [] := by
      intro ms hms
      rcases mem_iff_getElem?.mp hms with ⟨i, hi⟩
      exact (hspaces i ms hi).symm.imp_left mem_of_getElem?
    simpa [machine] using h.inv.of_obtains hobtains hareas hderived.mem_frames
  · rw [releaseShmAttachments_spaces] at hms'
    exact (hspaces i ms' hms').imp_right fun hold ↦ ⟨ms', hold, fun a ha ↦ ha⟩
  · rw [releaseShmAttachments_creds]
    exact hcreds i hi

theorem emptied_set {fresh : MemorySet} (hfresh : fresh.areas = []) (i : Nat) (ms' : MemorySet)
    (hms' : (w.spaces.set l.sid fresh)[i]? = some ms') :
    ms'.areas = [] ∨ w.spaces[i]? = some ms' := by
  rw [getElem?_set] at hms'
  split_ifs at hms'
  · exact .inl (some.inj hms' ▸ hfresh)
  · exact .inr hms'

theorem moves_exec (h : w.ShmInv) (shared : Bool) : Moves w l (w.execSpace l.sid ms shared) := by
  unfold execSpace
  split
  · rename_i phys hphys
    have hobtains : w.k.Obtains (fun _ ↦ 0) (w.k.setPhys phys) :=
      Kernel.obtains_setPhys h.inv.kernel ⟨0, Phys.frameAlloc_none hphys⟩
    exact moves_of_same h hobtains rfl rfl (.refl _)
  rename_i root phys hphys
  rcases Kernel.obtains_frameAlloc_some (fun _ ↦ 0) h.inv.kernel hphys with ⟨-, hwf, hev, -⟩
  have hobtains : w.k.Obtains (fun _ ↦ 0) (w.k.setPhys phys) := ⟨hwf, 1, hev⟩
  split
  · refine moves_of_emptied h hobtains (fun i ms' hms' ↦ ?_) (fun i hi ↦ ?_) rfl
    · rcases Nat.lt_or_ge i w.spaces.length with hlt | hge
      · rw [getElem?_append_left hlt] at hms'
        exact .inr hms'
      · rw [getElem?_append_right hge] at hms'
        exact .inl (mem_singleton.mp (mem_of_getElem? hms') ▸ rfl)
    · exact Function.update_of_ne (Nat.ne_of_lt hi) _ _
  · exact moves_of_emptied h (hobtains.trans (obtains_notifyAllClose ms.areas hwf))
      (emptied_set rfl) (fun _ _ ↦ rfl) rfl

theorem moves_exit (h : w.ShmInv) (shared : Bool) : Moves w l (w.exitSpace l.sid ms shared) := by
  unfold exitSpace
  split
  · exact (Idle.refl h).moves h
  · exact moves_of_emptied h (obtains_notifyAllClose ms.areas h.inv.kernel) (emptied_set rfl)
      (fun _ _ ↦ rfl) rfl

theorem Step.moves (h : w.ShmInv) (hstep : w.Step l w') :
    (w.settle l).ShmInv ∧ Moves (w.settle l) l w' := by
  rcases hstep with ⟨hadm, hnext⟩
  have hsettled := h.settle hadm
  refine ⟨hsettled, ?_⟩
  rcases bind_eq_some_iff.mp hnext with ⟨ms, hms, hcall⟩
  cases hl : l.call with rw [hl] at hcall
  | shmget key size shmflg =>
    exact moves_shmget hsettled hcall
  | shmat shmid shmaddr shmflg =>
    exact moves_shmat h hadm hms hl hcall
  | shmdt shmaddr =>
    exact moves_shmdt hsettled hms hcall
  | rmid shmid =>
    exact moves_rmid hsettled hcall
  | mem action =>
    exact moves_mem h hadm hms hl hcall
  | exec shared =>
    exact some.inj hcall ▸ moves_exec hsettled shared
  | exit shared =>
    exact some.inj hcall ▸ moves_exit hsettled shared

theorem ShmInv.of_derived (h : w.ShmInv) (hinv : w'.machine.Inv)
    (hloose : ∀ p, w.k.Loose p → w'.k.Loose p) (htable : w'.table.Derived w.table) : w'.ShmInv := by
  rcases htable with ⟨g, hg, hsub⟩
  refine ⟨hinv, ?_, ?_⟩
  · intro s' hs' p hp
    rcases hsub s' hs' with ⟨s, hs, rfl⟩
    exact hloose p (h.loose s hs p ((hg s).frames ▸ hp))
  · intro s₁ hs₁ s₂ hs₂ p hp₁ hp₂
    rcases hsub s₁ hs₁ with ⟨s, hs, rfl⟩
    rcases hsub s₂ hs₂ with ⟨s', hs', rfl⟩
    rw [(hg s).frames] at hp₁
    rw [(hg s').frames] at hp₂
    rw [h.disjoint s hs s' hs' p hp₁ hp₂]

theorem machine_eq {m' : Machine} (hk : w'.k = m'.k) (hspaces : w'.spaces = m'.spaces)
    (hsegments : m'.segments = w.machine.segments)
    (htable : ∀ frames ∈ w'.machine.segments, frames ∈ w.machine.segments) (hinv : m'.Inv) :
    w'.machine.Inv := by
  refine ⟨?_, ?_, ?_⟩
  · show w'.k.WellFormed
    rw [hk]
    exact hinv.kernel
  · show ∀ ms ∈ w'.spaces, ms.Sound w'.k
    rw [hk, hspaces]
    exact hinv.sound
  · show ∀ frames ∈ w'.machine.segments, ∀ p ∈ frames, ∀ i, p ≠ w'.k.phys.supply i
    rw [hk]
    exact fun frames hframes ↦ hinv.segments frames (hsegments ▸ htable frames hframes)

theorem Moves.shmInv (h : w.ShmInv) (hmoves : Moves w l w') : w'.ShmInv := by
  cases hmoves with
  | mem _ _ hadvance hk hspaces htable hsegments _ =>
    have hderived : w'.table.Derived w.table := htable ▸ .refl _
    exact h.of_derived (machine_eq hk hspaces hsegments hderived.mem_frames (hadvance.inv h.inv))
      (fun p hp ↦ hk ▸ hadvance.loose hp) hderived
  | attach _ _ _ hadvance hk hspaces hsegments _ hderived =>
    exact h.of_derived (machine_eq hk hspaces hsegments hderived.mem_frames (hadvance.inv h.inv))
      (fun p hp ↦ hk ▸ hadvance.loose hp) hderived
  | @create segment hcreates =>
    have hsegments : w'.table.segments = w.table.segments ++ [segment] := by rw [hcreates.table]
    have hnew : ∀ s ∈ w.table.segments, ∀ p ∈ segment.frames, p ∉ s.frames := by
      intro s hs p hp hmem
      rcases (hcreates.fresh p hp).2 with ⟨j, rfl⟩
      exact (h.loose s hs _ hmem).not_supply j rfl
    have hold : (⟨w'.k, w.spaces, w.machine.segments⟩ : Machine).Inv :=
      h.inv.of_obtains hcreates.obtains (fun _ hms ↦ .inl hms) fun _ hf ↦ hf
    refine ⟨⟨hold.kernel, ?_, ?_⟩, ?_, ?_⟩
    · show ∀ ms ∈ w'.spaces, ms.Sound w'.k
      rw [hcreates.spaces]
      exact hold.sound
    · intro frames hframes p hp
      have hframes : frames ∈ w'.table.segments.map ShmSegment.frames := hframes
      rw [hsegments, map_append, mem_append] at hframes
      rcases hframes with hframes | hframes
      · exact hold.segments frames hframes p hp
      · rw [map_singleton, mem_singleton] at hframes
        exact (hcreates.fresh p (hframes ▸ hp)).1.not_supply
    · intro s hs p hp
      rw [hsegments, mem_append, mem_singleton] at hs
      rcases hs with hs | rfl
      · exact hcreates.obtains.loose (h.loose s hs p hp)
      · exact (hcreates.fresh p hp).1
    · intro s hs s' hs' p hp hp'
      rw [hsegments, mem_append, mem_singleton] at hs hs'
      rcases hs with hs | rfl <;> rcases hs' with hs' | rfl
      · exact h.disjoint s hs s' hs' p hp hp'
      · exact absurd hp (hnew s hs p hp')
      · exact absurd hp' (hnew s' hs' p hp)
      · rfl
  | shrink hobtains hinv _ _ hderived =>
    exact h.of_derived hinv (fun p hp ↦ hobtains.loose hp) hderived

theorem Init.shmInv (h : w.Init) : w.ShmInv := by
  refine ⟨h.machine.inv, ?_, ?_⟩ <;> simp [h.table]

theorem shmInv_of_run {ok : ShmWorld → ShmLabel → Prop} (hrun : Run Init ok Step w) : w.ShmInv := by
  refine hrun.invariant (fun _ h ↦ h.shmInv) ?_
  intro w l w' h _ hstep
  rcases Step.moves h hstep with ⟨hsettled, hmoves⟩
  exact hmoves.shmInv hsettled

theorem exists_of_labels {init : ShmWorld → Prop} {ok : ShmWorld → ShmLabel → Prop}
    {P : ShmWorld → Prop} [DecidablePred P] (hinit : init w) {labels : List ShmLabel}
    (hsupply : ∀ l ∈ labels, l.supply = none) (hok : ∀ l ∈ labels, ∀ w, ok w l)
    (h : (labels.foldlM next w).any (fun w' ↦ decide (P w')) = true) :
    ∃ w', Run init ok Step w' ∧ P w' :=
  Run.exists_of_foldlM (fun l hl w _ hnext ↦ ⟨hok l hl w,
    Machine.admissible_of_plain ⟨hsupply l hl, fun _ _ _ hfork ↦ nomatch hfork⟩, hnext⟩) hinit h

def oneTask : ShmWorld where
  k := Machine.fileSpace.k
  spaces := [{ pageTable := .fromKernel 1 }]
  creds := fun _ ↦ ⟨1000, 1000⟩
  limits := ⟨0x1000000, 32, 0x1000⟩

theorem init_oneTask : oneTask.Init where
  machine := Machine.init_fileSpace
  table := rfl

/-- In every run, a frame of a segment belongs to no other segment, to no page cache and not to
`SHARED_FILE_PAGES`. -/
theorem segments_of_run {ok : ShmWorld → ShmLabel → Prop} (hrun : Run Init ok Step w) :
    ∀ s ∈ w.table.segments, ∀ p ∈ s.frames, (∀ s' ∈ w.table.segments, p ∈ s'.frames → s = s') ∧
      ¬ w.k.caches.Cached p ∧ ∀ key, w.k.sharedFilePages key ≠ some p := by
  have hinv := shmInv_of_run hrun
  intro s hs p hp
  have hloose := hinv.loose s hs p hp
  exact ⟨fun s' hs' hp' ↦ hinv.disjoint s hs s' hs' p hp hp', hloose.not_cached, hloose.not_shared⟩

/-- A page of a file is read between the calls that make two segments. -/
theorem segments_after_shmget : ∃ w, Run Init (fun _ _ ↦ True) Step w ∧
    ∃ s ∈ w.table.segments, ∃ s' ∈ w.table.segments, s.frames ≠ [] ∧ s'.frames ≠ [] ∧
      (∀ p ∈ s.frames, p ∉ s'.frames) ∧
      ∃ page, (w.k.caches.cache 0).pages[0]? = some page ∧ page.frame ∉ s.frames := by
  have hsupply : ∀ l ∈ [({ sid := 0, call := .shmget IPC_PRIVATE 0x1000 0o600 } : ShmLabel),
      { sid := 0, call := .mem Machine.mapFile.action },
      { sid := 0, call := .mem (.op (.fault .load 0x2000000000 none)) },
      { sid := 0, call := .shmget IPC_PRIVATE 0x1000 0o600 }], l.supply = none := by
    simp
  obtain ⟨w, hrun, ⟨s, hs, s', hs', hne, hframes, hframes'⟩, hcached⟩ :
      ∃ w, Run Init (fun _ _ ↦ True) Step w ∧
        (∃ s ∈ w.table.segments, ∃ s' ∈ w.table.segments, s.id ≠ s'.id ∧ s.frames ≠ [] ∧
          s'.frames ≠ []) ∧ ((w.k.caches.cache 0).pages[0]?).isSome = true :=
    exists_of_labels init_oneTask hsupply (fun _ _ _ ↦ trivial) (by decide +kernel)
  have hown := segments_of_run hrun s hs
  obtain ⟨page, hpage⟩ := isSome_iff_exists.mp hcached
  refine ⟨w, hrun, s, hs, s', hs', hframes, hframes', fun p hp hp' ↦ ?_, page, hpage, fun hp ↦ ?_⟩
  · exact hne (congrArg _ ((hown p hp).1 s' hs' hp'))
  · exact (hown _ hp).2.1 ⟨0, 0, page, hpage, rfl⟩

end ShmWorld

end RespOS.Ipc
