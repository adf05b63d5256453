import RespOS.Basis.ByteFile
import RespOS.Mm.Address
import RespOS.Mm.Frame
import Std.Data.ExtTreeMap.Lemmas

/-!
# The page cache

The functions of `fs/page_cache.rs` for one caller at a time. A `PageCache` maps page indices to
pages; a page names the frame that holds its bytes and carries the dirty bit, the write version, the
mark of the write-back batch it is part of and its place in the global LRU order. `Caches` is the
global state: every cache, physical memory, the LRU queue and the counters.

Three things around the module are parameters of the functions that meet them. `fail i` is the error
that obtaining page `i` runs into, if any: no memory for its buffers or frames, or an error of the
lower file. `ext p` is the number of owners a frame has outside the page cache, that is, of mappings
that pin it. `held` names the pages whose `Arc` the running call itself still holds, which
`Arc::strong_count` counts as well.

The lower inode is the byte file `PageCache.lower`. Generation numbers that `next_generation` draws
for pages that are never published are not counted.
-/

namespace RespOS.Fs

open RespOS.Basis RespOS.Mm

def pageCacheGlobalMaxPages : Nat := 128 * 1024

def maxReadAheadPages : Nat := 32

structure Page where
  frame : Nat
  dirty : Bool := false
  writeVersion : Nat := 0
  writeback : Option Nat := none
  writebackError : Option Errno := none
  generation : Nat
  queued : Bool := false
  deriving DecidableEq

/-- `PageCache`, together with the lower inode it belongs to. -/
structure PageCache where
  pages : Std.ExtTreeMap Nat Page
  fileSize : Nat
  sizeVersion : Nat := 0
  dirtyPages : Nat := 0
  writebackErrorSequence : Nat := 0
  writebackError : Option Errno := none
  mmapReservedPrefixes : Std.ExtTreeMap Nat Nat := ∅
  lower : ByteFile

structure LruEntry where
  cacheId : Nat
  pageIdx : Nat
  generation : Nat
  deriving DecidableEq

/-- The state of all page caches. `registry` lists the identifiers of the caches in existence. -/
structure Caches where
  phys : Phys
  registry : List Nat
  cache : Nat → PageCache
  lru : List LruEntry
  nextGeneration : Nat
  pageCount : Nat
  dirtyPageCount : Nat
  nextWritebackId : Nat

def PageCache.new (file : ByteFile) : PageCache :=
  { pages := ∅, fileSize := file.len, lower := file }

/-- The number of pages of the cache that own the frame. -/
def PageCache.count (pc : PageCache) (p : Nat) : Nat := pc.pages.toList.countP fun e ↦ e.2.frame = p

namespace Caches

def setCache (s : Caches) (c : Nat) (pc : PageCache) : Caches :=
  { s with cache := Function.update s.cache c pc }

def setPage (s : Caches) (c idx : Nat) (page : Page) : Caches :=
  s.setCache c { s.cache c with pages := (s.cache c).pages.insert idx page }

def erasePage (s : Caches) (c idx : Nat) : Caches :=
  s.setCache c { s.cache c with pages := (s.cache c).pages.erase idx }

/-- `Arc::strong_count` of a frame as far as the page caches hold it. -/
def frameCount (s : Caches) (p : Nat) : Nat := (s.registry.map fun c ↦ (s.cache c).count p).sum

def touchPage (s : Caches) (c idx : Nat) : Caches :=
  let generation := s.nextGeneration
  let s := { s with nextGeneration := generation + 1 }
  match (s.cache c).pages[idx]? with
  | none => s
  | some page =>
    let s' := s.setPage c idx { page with generation := generation, queued := true }
    if page.queued then s' else { s' with lru := s'.lru ++ [⟨c, idx, generation⟩] }

/-- `reclaim_lru_entry`; the Boolean says that the page was removed. -/
def reclaimLruEntry (s : Caches) (held : Nat → Nat → Bool) (ext : Nat → Nat) (e : LruEntry) :
    Bool × Caches :=
  match (s.cache e.cacheId).pages[e.pageIdx]? with
  | none => (false, s)
  | some page =>
    if !page.queued then (false, s)
    else
      let s := s.setPage e.cacheId e.pageIdx { page with queued := false }
      if page.generation ≠ e.generation then (false, s.touchPage e.cacheId e.pageIdx)
      else if page.dirty || held e.cacheId e.pageIdx || ext page.frame != 0 then
        (false, s.touchPage e.cacheId e.pageIdx)
      else (true, s.erasePage e.cacheId e.pageIdx)

/-- The loop of `reclaim_global`, with the number of entries still to scan. -/
def reclaimLoop (held : Nat → Nat → Bool) (ext : Nat → Nat) : Nat → Caches → Caches
  | 0, s => s
  | scan + 1, s =>
    if s.pageCount ≤ pageCacheGlobalMaxPages then s
    else
      match s.lru with
      | [] => s
      | e :: rest =>
        match ({ s with lru := rest } : Caches).reclaimLruEntry held ext e with
        | (true, s) => reclaimLoop held ext scan { s with pageCount := s.pageCount - 1 }
        | (false, s) => reclaimLoop held ext scan s

def reclaimGlobal (s : Caches) (held : Nat → Nat → Bool) (ext : Nat → Nat) : Caches :=
  reclaimLoop held ext s.lru.length s

/-! ### Loading pages -/

/-- The read-ahead window of a miss on page `idx`, cut at the end of the file. -/
def loadWindow (pc : PageCache) (lower : Bool) (idx readAhead : Nat) : Nat :=
  if lower && idx * pageSize < pc.fileSize then
    min (max 1 (min readAhead maxReadAheadPages)) ((pc.fileSize + pageSize - 1) / pageSize - idx)
  else 1

/-- How many pages a miss on page `idx` loads: the read-ahead window, cut before the first page that
is cached already. -/
def loadPages (pc : PageCache) (lower : Bool) (idx readAhead : Nat) : Nat :=
  let window := loadWindow pc lower idx readAhead
  match (List.range' 1 (window - 1)).find? fun run ↦ pc.pages.contains (idx + run) with
  | some run => run
  | none => window

/-- The bytes that a load puts in page `i` of a run starting at page `idx`: the lower file as far as
`readLen` bytes from the start of the run, zeros beyond. -/
def loadedBytes (lower : ByteFile) (idx readLen i : Nat) : PageBytes := fun off ↦
  if (i - idx) * pageSize + off < readLen then lower.byte (i * pageSize + off) else 0

/-- Publishes a freshly loaded page: a cleared frame, filled, inserted and counted. -/
def publishPage (s : Caches) (c i : Nat) (bytes : PageBytes) : Caches :=
  let (frame, phys) := s.phys.take
  let s := { s with
    phys := phys.store frame bytes
    nextGeneration := s.nextGeneration + 1
    pageCount := s.pageCount + 1 }
  s.setPage c i { frame := frame, generation := s.nextGeneration - 1 }

/-- `get_or_load_with_status`; `lower` says whether the caller gives the lower inode. On success page
`idx` is cached, and the Boolean returned says whether the lower file was read. -/
def getOrLoadWithStatus (s : Caches) (fail : Nat → Option Errno) (ext : Nat → Nat) (c idx : Nat)
    (lower : Bool) (readAhead : Nat) (markAccessed : Bool) : Except Errno Bool × Caches :=
  match (s.cache c).pages[idx]? with
  | some _ => (.ok false, if markAccessed then s.touchPage c idx else s)
  | none =>
    let pc := s.cache c
    let n := loadPages pc lower idx readAhead
    let readLen := if lower then min (pc.fileSize - idx * pageSize) (n * pageSize) else 0
    match (List.range' idx n).findSome? fail with
    | some e => (.error e, s)
    | none =>
      let s := (List.range' idx n).foldl
        (fun s i ↦ s.publishPage c i (loadedBytes pc.lower idx readLen i)) s
      let s := (List.range' idx n).foldl (fun s i ↦ s.touchPage c i) s
      let s := s.reclaimGlobal (fun c' i ↦ c' = c && idx ≤ i && i < idx + n) ext
      (.ok (readLen != 0), if markAccessed then s.touchPage c idx else s)

/-- `shared_frame_at`: the frame of a cached or loaded page. -/
def sharedFrameAt (s : Caches) (fail : Nat → Option Errno) (ext : Nat → Nat) (c idx : Nat)
    (lower : Bool) (readAhead : Nat) (markAccessed : Bool) : Except Errno (Nat × Bool) × Caches :=
  match s.getOrLoadWithStatus fail ext c idx lower readAhead markAccessed with
  | (.error e, s) => (.error e, s)
  | (.ok fill, s) =>
    match (s.cache c).pages[idx]? with
    | some page => (.ok (page.frame, fill), s)
    | none => (.error Errno.EIO, s)

/-- The loop of `read_at_advised` from `pos` to `stop`; each round reads to the end of a page, so
`stop - pos` rounds are enough. -/
def readLoop (fail : Nat → Option Errno) (ext : Nat → Nat) (c : Nat) (lower : Bool)
    (readAhead : Nat) (markAccessed : Bool) (stop : Nat) :
    Nat → Nat → Caches → List UInt8 → Except Errno (List UInt8) × Caches
  | 0, _, s, out => (.ok out, s)
  | fuel + 1, pos, s, out =>
    if stop ≤ pos then (.ok out, s)
    else
      let idx := pos / pageSize
      let off := pos % pageSize
      let n := min (stop - pos) (pageSize - off)
      match s.getOrLoadWithStatus fail ext c idx lower readAhead markAccessed with
      | (.error e, s) => (.error e, s)
      | (.ok _, s) =>
        let bytes := match (s.cache c).pages[idx]? with
          | some page => (List.range n).map fun i ↦ s.phys.mem page.frame (off + i)
          | none => []
        readLoop fail ext c lower readAhead markAccessed stop fuel (pos + n) s (out ++ bytes)

/-- `read_at_advised` into a buffer of `len` bytes: the bytes copied. -/
def readAtAdvised (s : Caches) (fail : Nat → Option Errno) (ext : Nat → Nat) (c offset len : Nat)
    (lower : Bool) (readAhead : Nat) (markAccessed : Bool) : Except Errno (List UInt8) × Caches :=
  let fileSize := (s.cache c).fileSize
  let pos := min offset fileSize
  let stop := min fileSize (saturatingAdd offset len)
  readLoop fail ext c lower readAhead markAccessed stop (stop - pos) pos s []

end Caches

end RespOS.Fs
