import RespOS.Fs.PageCache

/-!
# Open files as the memory manager sees them

A mapping refers to an open file through the trait `FileOp`. Three kinds of file object can be mapped
page by page: a regular file, whose `File` carries the page cache of its inode (an `O_TMPFILE` has a
cache of its own and reports the inode number of its directory); a file under `/dev/shm`, a `File`
without page cache; and a memfd, a `SpecialFd`. `getStat` gives the device, the inode number and the
size each of them reports.

`sharedFileFrame` is the frame that backs one page of a file in a shared mapping, and in a private
one until it is written: the frame of the page cache where there is one, and otherwise the frame
registered in `SHARED_FILE_PAGES` under device, inode number and page index. That table holds weak
references; here it holds the entries whose frame is alive.

`IoEnv` collects the errors that the calls of one operation into the file system run into.
-/

namespace RespOS.Fs

open RespOS.Basis RespOS.Mm

def devfsDev : Nat := 0x400

def shmInoBase : Nat := 0x1000

/-- The object behind an open file: two open files are the same file when their objects are
equal. -/
inductive FileObject
  | regular (cache : Nat)
  | devShm (id : Nat)
  | memfd (id : Nat)
  deriving DecidableEq, Repr

/-- An open file: `File` or `SpecialFd`. For a regular file `dev` and `ino` are what its inode
reports, and `writeBack` is false for an `O_TMPFILE`. -/
structure OpenFile where
  object : FileObject
  readable : Bool := true
  writable : Bool := true
  dev : Nat := 0
  ino : Nat := 0
  writeBack : Bool := true
  readonlyMount : Bool := false
  readAheadPages : Nat := 16
  noReuse : Bool := false

/-- The state of a memfd that its descriptors share. -/
structure Memfd where
  data : ByteFile
  /-- `F_SEAL_SEAL`, which a memfd without `MFD_ALLOW_SEALING` has from the start. -/
  sealSeal : Bool := false
  sealWrite : Bool := false
  writableSharedMappings : Nat := 0

structure SharedFilePageKey where
  dev : Nat
  ino : Nat
  pageIndex : Nat
  deriving DecidableEq

/-- What `get_stat` reports, as far as the memory manager reads it. -/
structure FileStat where
  dev : Nat
  ino : Nat
  size : Nat

/-- The kernel state outside the address spaces. -/
structure Kernel where
  caches : Caches
  files : Nat → OpenFile
  memfds : Nat → Memfd
  shmFiles : Nat → ByteFile
  sharedFilePages : SharedFilePageKey → Option Nat

/-- The errors the file system answers with during one operation. -/
structure IoEnv where
  statFail : Option Errno := none
  pageFail : Nat → Option Errno := fun _ ↦ none
  readFail : Option Errno := none
  reserveFail : Option Errno := none

namespace Kernel

def setPhys (k : Kernel) (phys : Phys) : Kernel :=
  { k with caches := { k.caches with phys := phys } }

def phys (k : Kernel) : Phys := k.caches.phys

/-- `get_stat`. The status of a regular file takes its size from the page cache. -/
def getStat (k : Kernel) (io : IoEnv) (f : Nat) : Except Errno FileStat :=
  let file := k.files f
  match file.object with
  | .regular c =>
    match io.statFail with
    | some e => .error e
    | none => .ok ⟨file.dev, file.ino, (k.caches.cache c).fileSize⟩
  | .devShm id => .ok ⟨devfsDev, shmInoBase + id, (k.shmFiles id).len⟩
  | .memfd id => .ok ⟨0, 0, (k.memfds id).data.len⟩

def mmapAllowed (k : Kernel) (f : Nat) (shared writable : Bool) : Except Errno Unit :=
  let file := k.files f
  if !file.readable then .error .EACCES
  else if shared && writable then
    if !file.writable then .error .EACCES
    else
      match file.object with
      | .memfd id => if (k.memfds id).sealWrite then .error .EPERM else .ok ()
      | _ => .ok ()
  else .ok ()

/-- `mmap_open`, which only a memfd counts. -/
def mmapOpen (k : Kernel) (f : Nat) (shared writable : Bool) (pages : Nat) : Kernel :=
  match (k.files f).object with
  | .memfd id =>
    if shared && writable then
      { k with memfds := Function.update k.memfds id { k.memfds id with
          writableSharedMappings := (k.memfds id).writableSharedMappings + pages } }
    else k
  | _ => k

/-- `mmap_close`, which only a memfd counts. -/
def mmapClose (k : Kernel) (f : Nat) (shared writable : Bool) (pages : Nat) : Kernel :=
  match (k.files f).object with
  | .memfd id =>
    if shared && writable then
      { k with memfds := Function.update k.memfds id { k.memfds id with
          writableSharedMappings := (k.memfds id).writableSharedMappings - pages } }
    else k
  | _ => k

/-- The bytes a `/dev/shm` file shows to `read`: the frames of live shared mappings overlay the
stored bytes (`overlay_shared_file_pages`). -/
def shmByte (k : Kernel) (id i : Nat) : UInt8 :=
  match k.sharedFilePages ⟨devfsDev, shmInoBase + id, i / pageSize⟩ with
  | some p => k.phys.mem p (i % pageSize)
  | none => (k.shmFiles id).byte i

/-- `read_file_at` into a buffer of `len` bytes: the bytes read. -/
def readFileAt (k : Kernel) (io : IoEnv) (ext : Nat → Nat) (f offset len : Nat) :
    Except Errno (List UInt8) × Kernel :=
  match io.readFail with
  | some e => (.error e, k)
  | none =>
    let file := k.files f
    match file.object with
    | .regular c =>
      match k.caches.readAtAdvised io.pageFail ext c offset len file.writeBack file.readAheadPages
          (!file.noReuse) with
      | (r, caches) => (r, { k with caches := caches })
    | .devShm id =>
      (.ok ((List.range (min len ((k.shmFiles id).len - offset))).map fun i ↦
        k.shmByte id (offset + i)), k)
    | .memfd id => (.ok ((k.memfds id).data.read offset len), k)

/-- The `reserve_shared_mmap_write` of a regular file: the bytes of the page are written to the
lower inode beyond the prefix that is reserved already. Other files need no reservation. -/
def reserveSharedMmapWrite (k : Kernel) (io : IoEnv) (f offset : Nat) (data : List UInt8) :
    Except Errno Unit × Kernel :=
  let file := k.files f
  match file.object with
  | .regular c =>
    let pc := k.caches.cache c
    if data = [] then (.ok (), k)
    else if file.readonlyMount then (.error .EROFS, k)
    else if !file.writeBack then (.ok (), k)
    else if pc.fileSize ≤ offset then (.error Errno.EIO, k)
    else
      let idx := offset / pageSize
      let off := offset % pageSize
      let reserveLen := min data.length (pc.fileSize - offset)
      let reservePrefix := off + reserveLen
      let current := (pc.mmapReservedPrefixes[idx]?).getD 0
      if reservePrefix ≤ current then (.ok (), k)
      else
        match io.reserveFail with
        | some e => (.error e, k)
        | none =>
          let dataStart := max current off - off
          let bytes := (data.take reserveLen).drop dataStart
          let pc := { pc with
            lower := pc.lower.write (offset + dataStart) bytes
            mmapReservedPrefixes := pc.mmapReservedPrefixes.insert idx reservePrefix }
          (.ok (), { k with caches := k.caches.setCache c pc })
  | _ => (.ok (), k)

end Kernel

/-- `FileBacking`: the window of a file that a mapping shows. -/
structure FileBacking where
  file : Nat
  offset : Nat
  len : Nat
  liveEof : Bool
  deriving DecidableEq, Repr

namespace Kernel

/-- The branch of `shared_file_frame` for a file without page cache: the frame registered under the
key, or a new frame filled from the file and registered. -/
def fallbackFrame (k : Kernel) (io : IoEnv) (ext : Nat → Nat) (backing : FileBacking)
    (pageOffset fileOffset : Nat) : Except Errno (Nat × Bool) × Kernel :=
  match k.getStat io backing.file with
  | .error e => (.error e, k)
  | .ok stat =>
    let key : SharedFilePageKey := ⟨stat.dev, stat.ino, fileOffset / pageSize⟩
    match k.sharedFilePages key with
    | some p => (.ok (p, false), k)
    | none =>
      match k.phys.frameAlloc with
      | (none, phys) => (.error .ENOMEM, k.setPhys phys)
      | (some p, phys) =>
        let k := k.setPhys phys
        let readLen := min (backing.len - pageOffset) pageSize
        let requiredIo := decide (pageOffset < backing.len)
        match if requiredIo then k.readFileAt io ext backing.file fileOffset readLen
          else (.ok [], k) with
        | (.error e, k) => (.error e, k)
        | (.ok bytes, k) =>
          let k := k.setPhys (k.phys.store p fun i ↦ bytes.getD i 0)
          (.ok (p, requiredIo),
            { k with sharedFilePages := Function.update k.sharedFilePages key (some p) })

/-- `shared_file_frame`: the frame of one page of a file, and whether it was read for this call. -/
def sharedFileFrame (k : Kernel) (io : IoEnv) (ext : Nat → Nat) (backing : FileBacking)
    (pageOffset : Nat) : Except Errno (Nat × Bool) × Kernel :=
  match checkedAdd backing.offset pageOffset with
  | none => (.error Errno.EIO, k)
  | some fileOffset =>
    let file := k.files backing.file
    match file.object with
    | .regular c =>
      match k.caches.sharedFrameAt io.pageFail ext c (fileOffset / pageSize) file.writeBack
          file.readAheadPages (!file.noReuse) with
      | (r, caches) => (r, { k with caches := caches })
    | _ => k.fallbackFrame io ext backing pageOffset fileOffset

end Kernel

end RespOS.Fs
