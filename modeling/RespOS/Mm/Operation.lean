import RespOS.Mm.PageFault

/-!
# The operations of an address space

`Op` lists the operations that change one address space, with the arguments their callers pass after
they have checked them: page ranges are non-empty (`checked_user_page_range` rejects an empty one),
and the backing of a file mapping comes from `mmap_file_backing`. `runOp` runs one of them;
`OpEnv` is what the rest of the system contributes to the run, the owners of frames elsewhere and the
errors of the file system.
-/

namespace RespOS.Mm

open RespOS.Fs

/-- What a new mapping shows. -/
inductive MapSource
  | anonymous (shared : Bool)
  | segment (attachId : Nat) (frames : List Nat)
  | file (file offset : Nat) (shared : Bool)

def MapSource.shared : MapSource → Bool
  | .anonymous shared => shared
  | .segment _ _ => true
  | .file _ _ shared => shared

inductive Op
  | mmap (req : MmapRequest) (source : MapSource)
  | munmap (addr mapLen : Nat)
  | mremap (oldAddr oldLen newLen : Nat) (maymove : Bool) (fixedAddr : Option Nat)
  | mprotect (r : UserRange) (perm : MapPermission)
  | setLocked (r : UserRange) (locked : Bool)
  | adviseFork (r : UserRange) (wipeOnFork : Bool)
  | adviseDontfork (r : UserRange) (dontfork : Bool)
  | dontneed (r : UserRange)
  | growHeap (r : UserRange)
  | fault (cause : PageFaultCause) (stval : Nat) (userSp : Option Nat)

structure OpEnv where
  others : Nat → Nat
  io : IoEnv

namespace MemorySet

/-- The mapping part of `sys_mmap`: the backing is prepared, then the area is installed. -/
def mmap (s : MmState) (env : OpEnv) (req : MmapRequest) (source : MapSource) :
    Outcome MmState Nat :=
  let ext := s.ms.pins env.others
  match source with
  | .anonymous shared =>
    mmapArea s env.io ext req (if shared then .sharedAnonymous else .lazyAnonymous)
  | .segment attachId frames => mmapArea s env.io ext req (.sharedFrames attachId frames)
  | .file f offset shared =>
    if offset % pageSize ≠ 0 then .err .EINVAL s
    else
      match s.k.mmapAllowed f shared req.mapPerm.write with
      | .error e => .err e s
      | .ok () =>
        match mmapFileBacking s.k env.io ext f offset req.mapLen shared with
        | (.error e, k) => .err e { s with k := k }
        | (.ok backing, k) => mmapArea { s with k := k } env.io ext req backing

end MemorySet

/-- An outcome without its value. -/
def Outcome.void {σ α : Type} : Outcome σ α → Outcome σ Unit
  | .ok _ s => .ok () s
  | .err e s => .err e s
  | .panic => .panic

def runOp (env : OpEnv) (s : MmState) : Op → Outcome MmState Unit
  | .mmap req source => Outcome.void (MemorySet.mmap s env req source)
  | .munmap addr mapLen => MemorySet.munmapRange s addr mapLen
  | .mremap oldAddr oldLen newLen maymove fixedAddr =>
    Outcome.void (MemorySet.mremapRange s oldAddr oldLen newLen maymove fixedAddr)
  | .mprotect r perm => MemorySet.remapAreaWithOverlapRange s r.toVPNRange perm
  | .setLocked r locked => MemorySet.setLockedRange s r.toVPNRange locked
  | .adviseFork r wipeOnFork => MemorySet.adviseForkBehavior s r.toVPNRange wipeOnFork
  | .adviseDontfork r dontfork => MemorySet.adviseDontfork s r.toVPNRange dontfork
  | .dontneed r => MemorySet.madviseDontneed s r.toVPNRange
  | .growHeap r => MemorySet.ensurePrivateWritableAnonymousRange s r.toVPNRange
  | .fault cause stval userSp =>
    Outcome.void (MemorySet.handlePageFault s env.others env.io cause stval userSp)

@[simp] theorem Outcome.state?_void {σ α : Type} (o : Outcome σ α) :
    (Outcome.void o).state? = o.state? := by
  cases o <;> rfl

@[simp] theorem Outcome.keeps_void {σ α : Type} {P : σ → Prop} {o : Outcome σ α} :
    (Outcome.void o).Keeps P ↔ o.Keeps P := by
  cases o <;> simp [Outcome.void]

end RespOS.Mm
