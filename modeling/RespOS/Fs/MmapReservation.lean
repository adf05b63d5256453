import RespOS.Basis.Runs
import RespOS.Mm.Address

/-!
# Reserved prefixes of shared pages

Before a page of a writable shared mapping opens for stores, `File::reserve_shared_mmap_write` of
`fs/file.rs` writes it to the lower file, and the page cache records how long a prefix of the page is
allocated there, so that the next store does not write it again. The state is one regular file with a
page cache and the bytes allocated in the lower file. A write-back is a step of its own, also where
`truncate` and `punch_hole` do one, and a lower operation that fails changes nothing.

`PageCache::resize` cuts the records; `PageCache::punch_hole` leaves them as they are. The records stay
true through a call exactly when no hole meets a recorded prefix and no reservation starts inside a page
past bytes that nothing has allocated.
-/

namespace RespOS.Fs

open RespOS.Basis RespOS.Mm Function

/-- A file with its page cache. A page without a record has the reserved prefix 0. -/
structure ReservedFile where
  fileSize : Nat
  allocated : Nat → Bool
  mmapReservedPrefixes : Nat → Nat := fun _ ↦ 0

/-- What a call meets: the mount and the description it goes through, the checks before the lower
operation, and the answer of that operation, with the bytes written where it writes. -/
structure LowerEnv where
  readonly : Bool := false
  writeBack : Bool := true
  check : Option Errno := none
  lower : Except Errno Nat

namespace ReservedFile

def writeAt (f : ReservedFile) (offset len : Nat) : ReservedFile :=
  { f with allocated := fun i ↦ f.allocated i || decide (offset ≤ i ∧ i < offset + len) }

/-- `reserve_shared_mmap_write`, with `reserve_mmap_prefix`. -/
def reserveSharedMmapWrite (f : ReservedFile) (env : LowerEnv) (offset len : Nat) :
    Except Errno Unit × ReservedFile :=
  if len = 0 then (.ok (), f)
  else if env.readonly then (.error .EROFS, f)
  else if !env.writeBack then (.ok (), f)
  else if f.fileSize ≤ offset then (.error Errno.EIO, f)
  else
    let page := offset / pageSize
    let pageOffset := offset % pageSize
    let reserveLen := min len (f.fileSize - offset)
    let current := f.mmapReservedPrefixes page
    if pageOffset + reserveLen ≤ current then (.ok (), f)
    else
      match env.check, env.lower with
      | some e, _ | none, .error e => (.error e, f)
      | none, .ok written =>
        let dataStart := max current pageOffset - pageOffset
        let g := f.writeAt (offset + dataStart) (min written (reserveLen - dataStart))
        if written = reserveLen - dataStart then
          (.ok (), { g with
            mmapReservedPrefixes := update g.mmapReservedPrefixes page (pageOffset + reserveLen) })
        else (.error Errno.EIO, g)

def resize (f : ReservedFile) (newSize : Nat) : ReservedFile where
  fileSize := newSize
  allocated := f.allocated
  mmapReservedPrefixes page :=
    if newSize < f.fileSize then
      if newSize ≤ page * pageSize then 0
      else min (f.mmapReservedPrefixes page) (newSize - page * pageSize)
    else f.mmapReservedPrefixes page

/-- `File::truncate`. A lower file that has no name any more is left alone. -/
def truncate (f : ReservedFile) (env : LowerEnv) (size : Nat) : Except Errno Unit × ReservedFile :=
  if env.readonly then (.error .EROFS, f)
  else
    match env.check with
    | some e => (.error e, f)
    | none =>
      if env.writeBack && size != f.fileSize then
        match env.lower with
        | .ok _ =>
          (.ok (), { f with allocated := fun i ↦ f.allocated i && decide (i < size) }.resize size)
        | .error .ENOENT => (.ok (), f.resize size)
        | .error e => (.error e, f)
      else (.ok (), f.resize size)

/-- `File::punch_hole`: the cache drops or clears the pages and keeps the records. -/
def punchHole (f : ReservedFile) (env : LowerEnv) (offset len : Nat) :
    Except Errno Unit × ReservedFile :=
  if env.readonly then (.error .EROFS, f)
  else
    let stop := min (offset + len) f.fileSize
    if stop ≤ offset then (.ok (), f)
    else if !env.writeBack then (.error .EOPNOTSUPP, f)
    else
      match env.check, env.lower with
      | some e, _ | none, .error e => (.error e, f)
      | none, .ok _ =>
        (.ok (), { f with
          allocated := fun i ↦ f.allocated i && !decide (offset ≤ i ∧ i < stop) })

/-- The calls on the file; `write` is a buffered write and `writeBack` the write of some of its bytes to
the lower file. -/
inductive Call
  | reserve (offset len : Nat)
  | write (offset len : Nat)
  | writeBack (offset len : Nat)
  | truncate (size : Nat)
  | punchHole (offset len : Nat)

def exec (f : ReservedFile) (env : LowerEnv) : Call → ReservedFile
  | .reserve offset len => (f.reserveSharedMmapWrite env offset len).2
  | .write offset len =>
    { f with fileSize := if len = 0 then f.fileSize else max f.fileSize (offset + len) }
  | .writeBack offset len => f.writeAt offset len
  | .truncate size => (f.truncate env size).2
  | .punchHole offset len => (f.punchHole env offset len).2

def Init (f : ReservedFile) : Prop := ∀ page, f.mmapReservedPrefixes page = 0

/-- The recorded prefixes are allocated. -/
def Truthful (f : ReservedFile) : Prop :=
  ∀ page i, i < f.mmapReservedPrefixes page → f.allocated (page * pageSize + i) = true

/-- What carries it: the recorded prefixes also lie inside the file. -/
def Inv (f : ReservedFile) : Prop :=
  ∀ page i, i < f.mmapReservedPrefixes page →
    f.allocated (page * pageSize + i) = true ∧ page * pageSize + i < f.fileSize

/-- The condition on a call. -/
def Spares (f : ReservedFile) : Call → Prop
  | .reserve offset len => 0 < len → offset < f.fileSize →
    ∀ i < offset % pageSize, f.mmapReservedPrefixes (offset / pageSize) ≤ i →
      f.allocated (offset / pageSize * pageSize + i) = true
  | .punchHole offset len => ∀ page, ∀ i < f.mmapReservedPrefixes page,
    offset ≤ page * pageSize + i → min (offset + len) f.fileSize ≤ page * pageSize + i
  | _ => True

variable {f : ReservedFile} {env : LowerEnv} {offset len size : Nat}

theorem Inv.truthful (h : f.Inv) : f.Truthful := fun page i hi ↦ (h page i hi).1

theorem Inv.writeAt (h : f.Inv) : (f.writeAt offset len).Inv := by
  intro page i hi
  obtain ⟨hall, hsize⟩ := h page i hi
  exact ⟨by simp [ReservedFile.writeAt, hall], hsize⟩

theorem Inv.reserve (h : f.Inv) (hok : f.Spares (.reserve offset len)) :
    (f.reserveSharedMmapWrite env offset len).2.Inv := by
  simp only [reserveSharedMmapWrite]
  split_ifs with hlen _ _ hsize
  all_goals try exact h
  split
  · exact h
  · exact h
  split_ifs with hwritten
  · intro page i hi
    by_cases hpage : page = offset / pageSize
    · subst hpage
      simp only [update_self] at hi
      have hdiv := Nat.div_add_mod' offset pageSize
      simp only [ReservedFile.writeAt, Bool.or_eq_true, decide_eq_true_eq]
      refine ⟨?_, by omega⟩
      by_cases hold : i < f.mmapReservedPrefixes (offset / pageSize)
      · exact .inl (h _ i hold).1
      · by_cases hbefore : i < offset % pageSize
        · exact .inl (hok (by omega) (by omega) i hbefore (by omega))
        · exact .inr (by omega)
    · simp only [update_of_ne hpage] at hi
      exact h.writeAt page i hi
  · exact h.writeAt

theorem Inv.resize (h : f.Inv) {allocated : Nat → Bool}
    (hkeep : ∀ i < size, f.allocated i = true → allocated i = true) :
    ({ f with allocated := allocated }.resize size).Inv := by
  intro page i hi
  have hold := h page i
  have hcut : i < f.mmapReservedPrefixes page ∧
      (i < f.mmapReservedPrefixes page → page * pageSize + i < size) := by
    simp only [ReservedFile.resize] at hi
    split_ifs at hi <;> omega
  exact ⟨hkeep _ (hcut.2 hcut.1) (hold hcut.1).1, hcut.2 hcut.1⟩

theorem Inv.exec (h : f.Inv) {c : Call} (hok : f.Spares c) : (f.exec env c).Inv := by
  cases c with
  | reserve offset len => exact h.reserve hok
  | write offset len =>
    intro page i hi
    have hsize := (h page i hi).2
    refine ⟨(h page i hi).1, ?_⟩
    simp only [ReservedFile.exec]
    split_ifs <;> omega
  | writeBack offset len => exact h.writeAt
  | truncate size =>
    simp only [ReservedFile.exec, ReservedFile.truncate]
    repeat' split
    · exact h
    · exact h
    · exact h.resize fun i hi hall ↦ by simp [hall, hi]
    · exact h.resize fun _ _ ↦ id
    · exact h
    · exact h.resize fun _ _ ↦ id
  | punchHole offset len =>
    simp only [ReservedFile.exec, ReservedFile.punchHole]
    repeat' split
    all_goals try exact h
    intro page i hi
    have hspared := hok page i hi
    refine ⟨?_, (h page i hi).2⟩
    simp only [(h page i hi).1, Bool.true_and, Bool.not_eq_true', decide_eq_false_iff_not]
    omega

/-- The condition is needed: where the lower operation succeeds, a call that does not meet it leaves a
record that is not true. -/
theorem spares_of_exec (c : Call) (h : ∀ env, (f.exec env c).Truthful) : f.Spares c := by
  cases c with
  | reserve offset len =>
    intro hlen hsize i hi hcurrent
    have hwritten := h ⟨false, true, none, .ok (min len (f.fileSize - offset))⟩
      (offset / pageSize) i
    have hmax : max (f.mmapReservedPrefixes (offset / pageSize)) (offset % pageSize) =
      offset % pageSize := max_eq_right (by omega)
    have hdiv := Nat.div_add_mod' offset pageSize
    simp only [exec, reserveSharedMmapWrite] at hwritten
    rw [if_neg (by omega), if_neg (by simp), if_neg (by simp), if_neg (by omega),
      if_neg (by omega)] at hwritten
    simp only [hmax, Nat.sub_self, Nat.sub_zero, if_true, update_self, Nat.add_zero, writeAt,
      Nat.min_self] at hwritten
    have := hwritten (by omega)
    simpa [show ¬ offset ≤ offset / pageSize * pageSize + i by omega] using this
  | punchHole offset len =>
    intro page i hi hoffset
    by_contra hstop
    have hpunched := h ⟨false, true, none, .ok 0⟩ page i
    simp only [exec, ReservedFile.punchHole] at hpunched
    rw [if_neg (by simp), if_neg (by omega), if_neg (by simp)] at hpunched
    simpa [show page * pageSize + i < min (offset + len) f.fileSize by omega, hoffset] using
      hpunched hi
  | _ => trivial

def step (f : ReservedFile) (l : LowerEnv × Call) (g : ReservedFile) : Prop := f.exec l.1 l.2 = g

/-- A file of one page that nothing has allocated, and a lower file that writes all of the page. -/
def sparsePage : ReservedFile := { fileSize := pageSize, allocated := fun _ ↦ false }

def plainLower : LowerEnv := { lower := .ok pageSize }

end ReservedFile

end RespOS.Fs
