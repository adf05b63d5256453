import RespOS.Fs.FileCopy

/-!
# The file-size limit and the calls that write

`RLIMIT_FSIZE` is applied by the callers of the file layer: before each chunk, `write` and `pwrite64` ask
`limit_regular_file_write` how much of it may go to the file. `sendfile`, `copy_file_range` and `splice`
use the loops of `copy_file_data` and `splice_copy`, which do not ask.

`keepsLimit_iff_within` says for which calls the limit is kept whatever the lower layers answer.
`sendfile_past_limit` and `straddling_write_returns_zero` are the two ways the code misses it. The
checks that end a call before its loop (descriptors, access modes, flags) and the copy-out of the new
offsets behind it are left out.
-/

namespace RespOS.Fs

open Nat List

/-- `usize::MAX`, which as a limit stands for none. -/
def usizeMax : Nat := usizeSize - 1

/-- What the limiter says about `requested` bytes at `offset` of a file of `size` bytes. -/
def limitAt (limit size offset requested : Nat) : Except Errno Nat :=
  if limit = usizeMax then .ok requested
  else if limit ≤ offset ∧ size ≤ offset then .error .EFBIG
  else if saturatingAdd offset requested ≤ limit ∨ saturatingAdd offset requested ≤ size then
    .ok requested
  else .ok (limit - offset)

/-- `limit_regular_file_write` on a regular file. -/
def limitRegularFileWrite (limit : Nat) (o : Output) (requested : Nat) (a : Answer) :
    Except Errno Nat :=
  match a.stat with
  | some e => .error e
  | none => limitAt limit o.file.size o.offset requested

/-- The loop of `sys_write` and `sys_pwrite64`. A fault in the copy from the caller ends `write` with the
error and `pwrite64` with what it has written; the offset of `pwrite64` may overflow. -/
def limitedLoop (faultKeeps : Bool) (limit len : Nat) (env : Nat → Answer) (i total : Nat)
    (o : Output) : Output × Except Errno Nat :=
  if total < len then
    let requested := min (len - total) ioChunkSize
    match limitRegularFileWrite limit o requested (env i) with
    | .error e => (o, progressOr total e)
    | .ok 0 => (o, .ok total)
    | .ok chunkLen =>
      match (env i).copy with
      | some e => (o, if faultKeeps then progressOr total e else .error e)
      | none =>
        match o.put chunkLen (env i) with
        | (o', .error e) => (o', progressOr total e)
        | (o', .ok written) =>
          if o'.explicit.any (usizeSize ≤ ·) then (o', progressOr (total + written) .EINVAL)
          else if 0 < written ∧ chunkLen ≤ written then
            limitedLoop faultKeeps limit len env (i + 1) (total + written) o'
          else (o', .ok (total + written))
  else (o, .ok total)
termination_by len - total

/-! ### The calls -/

def Target.seek (f : Target) (offset : Option Nat) : Target := { f with pos := offset.getD f.pos }

/-- `seek` of the input, which moves the output's offset where the two are one description. -/
def Target.seekInput (f : Target) (shared : Bool) (offset : Option Nat) : Target :=
  if shared then f.seek offset else f

/-- A call with the file as its output. `shared` says that the input is the same open file
description. -/
inductive WriteCall
  | write (len : Nat)
  | pwrite64 (len offset : Nat)
  | sendfile (count : Nat) (inOffset : Option Nat) (shared : Bool)
  | copyFileRange (len : Nat) (inOffset outOffset : Option Nat) (shared : Bool)
  | splice (len : Nat) (outOffset : Option Nat)

namespace WriteCall

/-- The output as the loop of the call finds it: explicit offsets of `sendfile` and `copy_file_range` are
put into the shared ones first, and put back behind the loop. -/
def output (f : Target) : WriteCall → Output
  | write _ => ⟨f, none⟩
  | pwrite64 _ offset => ⟨f, some offset⟩
  | sendfile _ inOffset shared => ⟨f.seekInput shared inOffset, none⟩
  | copyFileRange _ inOffset outOffset shared => ⟨(f.seekInput shared inOffset).seek outOffset, none⟩
  | splice _ outOffset => ⟨f, outOffset⟩

/-- The bytes that the input still has: those of the output, where the two are one description, and
`bytes` where they are not. A shared input is the file itself, of which only the size matters. -/
def content (f : Target) (bytes : List UInt8) (shared : Bool) : List UInt8 :=
  if shared then replicate f.size 0 else bytes

/-- The size the call leaves and its result; a call for no bytes returns at once. -/
def run (limit : Nat) (env : Nat → Answer) (bytes : List UInt8) (f : Target) (c : WriteCall) :
    Nat × Except Errno Nat :=
  let limited (r : Output × Except Errno Nat) := (r.1.file.size, r.2)
  let copied (r : Except Errno Nat × Copying) := (r.2.out.file.size, r.1)
  match c with
  | write len => limited (limitedLoop false limit len env 0 0 (c.output f))
  | pwrite64 len _ => limited (limitedLoop true limit len env 0 0 (c.output f))
  | sendfile len _ shared | copyFileRange len _ _ shared =>
    copied (copyFileData shared env (content f bytes shared) len { out := c.output f })
  | splice len _ =>
    if f.append then (f.size, .error .EINVAL)
    else
      -- the output is no pipe
      copied (spliceCopy (fun i ↦ { env i with writable := none }) bytes len false false false
        { out := c.output f })

/-- The bytes a call that asks the limiter asks for. -/
def limited : WriteCall → Option Nat
  | write len | pwrite64 len _ => some len
  | _ => none

/-- The limiter lets nothing of the first chunk through. -/
def Refused (limit : Nat) (env : Nat → Answer) (f : Target) (c : WriteCall) : Prop :=
  ∃ len, c.limited = some len ∧ len ≠ 0 ∧ (env 0).stat = none ∧
    limitAt limit f.size (c.output f).offset (min len ioChunkSize) ∈ [.ok 0, .error .EFBIG]

/-- The call keeps the limit, whatever the layers below answer. -/
def KeepsLimit (limit : Nat) (bytes : List UInt8) (f : Target) (c : WriteCall) : Prop :=
  ∀ env, (c.run limit env bytes f).1 ≤ max f.size limit ∧
    (c.Refused limit env f → (c.run limit env bytes f).2 = .error .EFBIG)

end WriteCall

/-- `n` bytes at the offset end below the bound, or have no place below `usize::MAX`. -/
def Fits (bound offset n : Nat) : Prop := offset + n < usizeSize → offset + n ≤ bound

/-- A chunk that starts between the limit and the end of the file, and ends behind the end. -/
def Straddles (limit size offset requested : Nat) : Prop :=
  limit ≠ usizeMax ∧ limit ≤ offset ∧ offset < size ∧ size < saturatingAdd offset requested

/-- Whether `n` bytes of an input that has `avail` can be copied. Where input and output are one description,
the position has moved twice for each full chunk before the last, and behind the first write with the append
flag nothing is left to read. -/
def Possible (shared append : Bool) (avail n : Nat) : Prop :=
  if shared then
    if append then n ≤ min ioChunkSize avail else n + (n - 1) / ioChunkSize * ioChunkSize ≤ avail
  else n ≤ avail

/-- Where a copy of `n` bytes ends. -/
def Output.stop (o : Output) (shared : Bool) (n : Nat) : Nat :=
  o.offset + if shared && !o.file.append then 2 * n else n

/-- Every part of `count` bytes that can be copied ends below the bound. -/
def CopyRoom (bound : Nat) (shared : Bool) (o : Output) (avail count : Nat) : Prop :=
  ∀ n, 0 < n → n ≤ count → Possible shared o.file.append avail n →
    o.stop shared n < usizeSize → o.stop shared n ≤ bound

/-- The calls that keep the limit. -/
def WriteCall.Within (limit : Nat) (bytes : List UInt8) (f : Target) (c : WriteCall) : Prop :=
  match c with
  | write len | pwrite64 len _ =>
    ¬Straddles limit f.size (c.output f).offset (min len ioChunkSize)
  | sendfile len _ shared | copyFileRange len _ _ shared =>
    CopyRoom (max f.size limit) shared (c.output f)
      (if shared then f.size - (c.output f).file.pos else bytes.length) len
  | splice len _ => f.append = true ∨ CopyRoom (max f.size limit) false (c.output f) bytes.length len

/-! ### What a chunk does to the size -/

variable {bound n limit size len i total : Nat} {faultKeeps : Bool} {o : Output}

variable {offset m k requested count avail : Nat} {a : Answer}

theorem limitAt_fits (h : limitAt limit size offset requested = .ok n) :
    Fits (max size limit) offset n := by
  unfold limitAt at h
  unfold Fits saturatingAdd usizeMax at *
  split_ifs at h <;> cases h <;> omega

theorem limitAt_eq_zero_iff (hreq : requested ≠ 0) :
    limitAt limit size offset requested = .ok 0 ↔ Straddles limit size offset requested := by
  unfold limitAt Straddles saturatingAdd usizeMax
  split_ifs <;> simp only [Except.ok.injEq, false_iff] <;> omega

theorem Output.put_size_le (hsize : o.file.size ≤ bound) (hfits : Fits bound o.offset n) :
    (o.put n a).1.file.size ≤ bound := by
  unfold Fits at hfits
  rw [Output.put_size]
  unfold Output.store Answer.reached
  split_ifs <;> simp_all
  omega

/-! ### Whole calls -/

theorem limitedLoop_size_le {env : Nat → Answer} (hlimit : limit ≤ bound)
    (hsize : o.file.size ≤ bound) :
    (limitedLoop faultKeeps limit len env i total o).1.file.size ≤ bound := by
  have hchunk {i requested n : Nat} {o o' : Output} {r : Except Errno Nat}
      (hsize : o.file.size ≤ bound) (hlim : limitRegularFileWrite limit o requested (env i) = .ok n)
      (hput : o.put n (env i) = (o', r)) : o'.file.size ≤ bound := by
    unfold limitRegularFileWrite at hlim
    split at hlim
    · cases hlim
    · have hle := Output.put_size_le (a := env i) (le_max_left _ _) (limitAt_fits hlim)
      rw [hput] at hle
      exact hle.trans (Nat.max_le.mpr ⟨hsize, hlimit⟩)
  fun_induction limitedLoop faultKeeps limit len env i total o with
  | case1 | case2 | case3 | case8 => exact hsize
  | case4 i total o _ _ n _ hlim _ o' e hput | case5 i total o _ _ n _ hlim _ o' written hput _
  | case7 i total o _ _ n _ hlim _ o' written hput _ _ =>
    exact hchunk hsize hlim hput
  | case6 i total o _ _ n _ hlim _ o' written hput _ _ ih => exact ih (hchunk hsize hlim hput)

theorem limitedLoop_refused {env : Nat → Answer} {r : Except Errno Nat} (hlen : len ≠ 0)
    (hstat : (env 0).stat = none) (h : limitAt limit o.file.size o.offset (min len ioChunkSize) = r)
    (hr : r ∈ [.ok 0, .error .EFBIG]) : (limitedLoop faultKeeps limit len env 0 0 o).2 = r := by
  rw [limitedLoop, if_pos (Nat.pos_of_ne_zero hlen)]
  rcases List.mem_pair.mp hr with rfl | rfl <;> simp [limitRegularFileWrite, hstat, h, progressOr]

section Copied

variable {env : Nat → Answer} {asks shared : Bool} {bytes kbuf : List UInt8} {s s' : Copying}

theorem drain_size_le (hsize : s.out.file.size ≤ bound) (hfits : Fits bound s.out.offset kbuf.length) :
    (drain asks env s kbuf).2.out.file.size ≤ bound := by
  fun_induction drain asks env s kbuf with
  | case1 | case2 => exact hsize
  | case3 | case4 | case5 => exact Output.put_size_le hsize hfits
  | case6 s kbuf hne a _ o s' k hput _ ih =>
    obtain ⟨-, hle, hoff, -⟩ := Output.put_eq_ok hput
    refine ih (Output.put_size_le hsize hfits) ?_
    unfold Fits at *
    simp only [s', o, hoff, length_drop]
    omega

/-- A state of the copying loop: a shared input has no offset of its own, and with the append flag it ends
where the output does. -/
structure Linked (shared : Bool) (bytes : List UInt8) (s : Copying) : Prop where
  explicit : shared = true → s.out.explicit = none
  size : shared = true → s.out.file.append = true → bytes.length ≤ s.out.file.size

theorem stop_eq (h : Linked shared bytes s) :
    s.out.stop shared n = (s.skip shared n).out.offset + n := by
  have hexp := h.explicit
  unfold Output.stop Copying.skip Output.offset
  cases shared <;> cases happ : s.out.file.append <;> simp_all
  omega

theorem possible_iff (hpos : 0 < n) (hn : n ≤ ioChunkSize) {append : Bool} :
    Possible shared append avail n ↔ n ≤ avail := by
  have hzero : (n - 1) / ioChunkSize = 0 := Nat.div_eq_of_lt (by omega)
  unfold Possible
  split_ifs <;> simp [hzero, hn]

theorem chunk_next (h : Linked shared bytes s) (hlen : kbuf.length = ioChunkSize)
    (havail : ioChunkSize ≤ bytes.length - s.pos shared)
    (hdone : Drained (s.skip shared kbuf.length) kbuf s')
    (hinput : s'.input = (s.skip shared kbuf.length).input) :
    Linked shared bytes s' ∧ ∀ m, 0 < m →
      (Possible shared s'.out.file.append (bytes.length - s'.pos shared) m ↔
        Possible shared s.out.file.append (bytes.length - s.pos shared) (m + ioChunkSize)) ∧
      s'.out.stop shared m = s.out.stop shared (m + ioChunkSize) := by
  obtain ⟨-, hoff, happend, hpos⟩ := hdone
  have hne : kbuf ≠ [] := by
    rintro rfl
    simp [ioChunkSize, Mm.pageSize] at hlen
  rw [hlen] at hoff happend hpos hinput
  cases shared with
  | false =>
    have hoff : s'.out.offset = s.out.offset + ioChunkSize := hoff
    have hinput : s'.input = s.input + ioChunkSize := hinput
    refine ⟨⟨by simp, by simp⟩, fun m hm ↦ ⟨?_, ?_⟩⟩
    · simp only [Possible, Copying.pos, Bool.false_eq_true, if_false, hinput] at havail ⊢
      omega
    · simp only [Output.stop, hoff, Bool.false_and, Bool.false_eq_true, if_false]
      omega
  | true =>
    have happend : s'.out.file.append = s.out.file.append := happend
    obtain ⟨hexp', hpos'⟩ := hpos (h.explicit rfl) hne
    cases happ : s.out.file.append with
    | true =>
      have hoff : s'.out.offset = s.out.file.size + ioChunkSize := by
        simpa [Copying.skip, Output.offset, happ] using hoff
      have hsize := h.size rfl happ
      have hsize' : s'.out.file.size = s.out.file.size + ioChunkSize := by
        simpa [Output.offset, happend, happ] using hoff
      refine ⟨⟨fun _ ↦ hexp', fun _ _ ↦ by omega⟩, fun m hm ↦ ⟨?_, ?_⟩⟩
      · rw [happend, happ]
        simp only [Possible, if_true, Copying.pos, hpos', hoff, le_min_iff]
        generalize ioChunkSize = chunk
        omega
      · simp only [Output.stop, happend, happ, hoff]
        simp [Output.offset, happ]
        omega
    | false =>
      have hpos : s.out.offset = s.out.file.pos := by simp [Output.offset, happ, h.explicit rfl]
      have hoff : s'.out.offset = s.out.file.pos + ioChunkSize + ioChunkSize := by
        simpa [Copying.skip, Output.offset, happ, h.explicit rfl] using hoff
      refine ⟨⟨fun _ ↦ hexp', fun _ h ↦ by simp [happend, happ] at h⟩, fun m hm ↦ ⟨?_, ?_⟩⟩
      · have hdiv : (m + ioChunkSize - 1) / ioChunkSize = (m - 1) / ioChunkSize + 1 := by
          rw [show m + ioChunkSize - 1 = m - 1 + ioChunkSize by omega]
          exact Nat.add_div_right _ (by decide)
        rw [happend, happ]
        simp only [Possible, if_true, Bool.false_eq_true, if_false, Copying.pos, hpos', hoff, hdiv,
          Nat.succ_mul] at havail ⊢
        omega
      · simp only [Output.stop, happend, happ, hoff, hpos]
        simp
        omega

theorem Linked.fits (h : Linked shared bytes s) (hne : kbuf ≠ []) (hcount : kbuf.length ≤ count)
    (hchunk : kbuf.length ≤ ioChunkSize) (havail : kbuf.length ≤ bytes.length - s.pos shared)
    (hroom : CopyRoom bound shared s.out (bytes.length - s.pos shared) count) :
    Fits bound (s.skip shared kbuf.length).out.offset kbuf.length := by
  have hpos := length_pos_iff.mpr hne
  have hfits := hroom _ hpos hcount ((possible_iff hpos hchunk).mpr havail)
  rwa [stop_eq h] at hfits

theorem copyLoop_size_le (h : Linked shared bytes s) (hwritable : ∀ i, (env i).writable = none)
    (hsize : s.out.file.size ≤ bound)
    (hroom : CopyRoom bound shared s.out (bytes.length - s.pos shared) (count - total)) :
    (copyLoop asks false shared env bytes count total s).2.out.file.size ≤ bound := by
  have hskip {s : Copying} {n : Nat} : (s.skip shared n).out.file.size = s.out.file.size := by
    cases shared <;> rfl
  fun_induction copyLoop asks false shared env bytes count total s with
  | case1 | case2 | case3 | case4 | case8 => exact hsize
  | case5 total s _ _ chunkLen k _ kbuf hne _ _ s' hdrain
  | case7 total s _ _ chunkLen k _ kbuf hne _ _ s' hdrain _ =>
    have hlen : kbuf.length = min (min k chunkLen) (bytes.length - s.pos shared) := by simp [kbuf]
    have hle := @drain_size_le bound env asks kbuf (s.skip shared kbuf.length) (hskip.trans_le hsize)
      (h.fits hne (by omega) (by omega) (by omega) hroom)
    rwa [hdrain] at hle
  | case6 total s hlt _ chunkLen k _ kbuf hne _ rest s' hdrain hgo ih =>
    have hlen : kbuf.length = min (min k chunkLen) (bytes.length - s.pos shared) := by simp [kbuf]
    have hchunk : chunkLen = min (count - total) ioChunkSize := by
      simp only [chunkLen, hwritable, Option.elim_none]
      omega
    have hle := @drain_size_le bound env asks kbuf (s.skip shared kbuf.length) (hskip.trans_le hsize)
      (h.fits hne (by omega) (by omega) (by omega) hroom)
    have hdone := @drained asks env kbuf (s.skip shared kbuf.length) (by rw [hdrain, hgo.1])
    have hinput := @input_drain asks env kbuf (s.skip shared kbuf.length)
    rw [hdrain] at hle hdone hinput
    by_cases hfull : kbuf.length = ioChunkSize
    · obtain ⟨hlinked, hnext⟩ := chunk_next h hfull (by omega) hdone hinput
      refine ih hlinked hle fun m hm hcount hpossible ↦ ?_
      rw [(hnext m hm).2]
      exact hroom _ (by omega) (by omega) ((hnext m hm).1.mp hpossible)
    · -- nothing more is asked for
      rw [copyLoop, if_neg (by omega)]
      exact hle

end Copied

/-- An input of at least `n` bytes, read in full chunks up to `n`, and an output that takes all. -/
def plainInput (n i : Nat) : Answer where
  read := .ok (n - i * ioChunkSize)
  stored := ioChunkSize

section Reached

variable {asks shared : Bool} {bytes kbuf : List UInt8} {s s' : Copying}

theorem drain_plain (hne : kbuf ≠ []) (hlen : kbuf.length ≤ ioChunkSize)
    (hfits : s.out.offset + kbuf.length < usizeSize) :
    ∃ s', drain asks (plainInput n) s kbuf = (.ok [], s') ∧ s'.clock = s.clock + 1 ∧
      s.out.offset + kbuf.length ≤ s'.out.file.size := by
  obtain ⟨l, hl⟩ := Nat.exists_eq_succ_of_ne_zero (mt length_eq_zero_iff.mp hne)
  have hput : (s.out.put kbuf.length (plainInput n s.clock)).2 = .ok (l + 1) := by
    rw [Output.put_of_fits hfits, hl]
    simp only [plainInput, Option.elim_none, Except.ok.injEq]
    omega
  obtain ⟨hreached, -, hoff, -⟩ := Output.put_eq_ok hput
  have hplace : ¬ usizeSize ≤ s.out.offset + (l + 1) := by omega
  refine ⟨{ s with
    out := (s.out.put kbuf.length (plainInput n s.clock)).1
    written := s.written ++ kbuf.take ((plainInput n s.clock).reached s.out.offset kbuf.length)
    clock := s.clock + 1 }, ?_, rfl, ?_⟩
  · have hdrop : kbuf.drop (l + 1) = [] := drop_eq_nil_of_le (by omega)
    rw [drain, if_neg hne]
    simp only [hput, hoff, hdrop, decide_eq_false hplace, Bool.and_false]
    rw [drain, if_pos rfl]
    simp [plainInput]
  · simp only [Output.put_size, ← hreached, Output.store, Nat.succ_ne_zero, if_false]
    omega

theorem copyLoop_stopped {env : Nat → Answer} (hread : (env s.clock).read = .ok 0) :
    (copyLoop asks false shared env bytes count total s).2 = s := by
  rw [copyLoop]
  simp only [hread, Nat.zero_min, take_zero, if_true]
  split_ifs <;> rfl

theorem copyLoop_reaches (h : Linked shared bytes s) (hn : n ≤ count)
    (htotal : total = s.clock * ioChunkSize) (hlt : total < n)
    (hpossible : Possible shared s.out.file.append (bytes.length - s.pos shared) (n - total))
    (hfits : s.out.stop shared (n - total) < usizeSize) : s.out.stop shared (n - total) ≤
      (copyLoop asks false shared (plainInput n) bytes count total s).2.out.file.size := by
  induction hk : n - total using Nat.strong_induction_on generalizing total s with
  | _ k ih =>
  rw [hk] at hpossible hfits
  have hread : (plainInput n s.clock).read = .ok k := by
    rw [← hk, htotal]
    rfl
  have hnext : total + ioChunkSize = (s.clock + 1) * ioChunkSize := by rw [succ_mul, htotal]
  have hchunk : min (min (count - total) ioChunkSize) ((plainInput n s.clock).writable.elim count (max 1)) =
      min (count - total) ioChunkSize := by
    simp only [plainInput, Option.elim_none]
    omega
  set j := min k ioChunkSize with hj
  have hmin : min k (min (count - total) ioChunkSize) = j := by omega
  have hpos : 0 < j := by
    have hchunk : 0 < ioChunkSize := by decide
    omega
  have havail : j ≤ bytes.length - s.pos shared := by
    unfold Possible at hpossible
    split_ifs at hpossible <;> omega
  have hplace : (s.skip shared j).out.offset + j < usizeSize := by
    rw [← stop_eq h]
    unfold Output.stop at *
    split_ifs at * <;> omega
  set kbuf := (bytes.drop (s.pos shared)).take j with hkbuf
  have hlen : kbuf.length = j := by simp [hkbuf]; omega
  have hne : kbuf ≠ [] := length_pos_iff.mp (by omega)
  obtain ⟨s', hdrain, hclock, hsize⟩ := @drain_plain n asks kbuf (s.skip shared kbuf.length) hne
    (by omega) (by rwa [hlen])
  rw [hlen] at hsize hdrain
  rw [copyLoop, if_pos (by omega)]
  have hready : (asks && !(plainInput n s.clock).ready) = false := by simp [plainInput]
  simp only [hready, hread, hchunk, hmin, ← hkbuf, if_neg hne, hlen, hdrain, Bool.false_and,
    Bool.false_eq_true, if_false, true_and]
  have hclock : s'.clock = s.clock + 1 := hclock.trans (by cases shared <;> rfl)
  by_cases hlast : k ≤ ioChunkSize
  · have hend : s.out.stop shared k ≤ s'.out.file.size := by
      rwa [← stop_eq h, hj, Nat.min_eq_left hlast] at hsize
    split_ifs
    · rw [copyLoop_stopped]
      · exact hend
      · simp only [plainInput, hclock, ← hnext, Except.ok.injEq]
        omega
    · exact hend
  · have hfull : kbuf.length = ioChunkSize := by omega
    have hdone := @drained asks (plainInput n) kbuf (s.skip shared j) (by rw [hdrain])
    have hinput := @input_drain asks (plainInput n) kbuf (s.skip shared j)
    rw [hdrain, ← hlen] at hdone hinput
    obtain ⟨hlinked, hafter⟩ := chunk_next h hfull (by omega) hdone hinput
    have hrest : k - ioChunkSize + ioChunkSize = k := by omega
    have hsub : n - (total + j) = k - ioChunkSize := by omega
    obtain ⟨hpossible', hstop'⟩ := hafter (k - ioChunkSize) (by omega)
    rw [hrest] at hpossible' hstop'
    rw [if_pos (by omega), ← hstop']
    refine ih (k - ioChunkSize) (by omega) hlinked ?_ (by omega) ?_ ?_ hsub
    · rw [hclock, ← hnext]
      omega
    · rw [hsub]
      exact hpossible'.mpr hpossible
    · rwa [hsub, hstop']

theorem copyLoop_keeps_iff (h : Linked shared bytes s) (hclock : s.clock = 0)
    (hsize : s.out.file.size ≤ bound) :
    (∀ env, (∀ i, (env i).writable = none) →
      (copyLoop asks false shared env bytes count 0 s).2.out.file.size ≤ bound) ↔
      CopyRoom bound shared s.out (bytes.length - s.pos shared) count := by
  refine ⟨fun hkeeps n hpos hn hpossible hfits ↦ ?_, fun hroom env hwritable ↦ ?_⟩
  · exact (copyLoop_reaches h hn (by rw [hclock, Nat.zero_mul]) hpos hpossible hfits).trans
      (hkeeps (plainInput n) fun _ ↦ rfl)
  · exact copyLoop_size_le h hwritable hsize hroom

end Reached

/-! ### Which calls keep the limit -/

theorem limitAt_refused_iff :
    (len ≠ 0 → limitAt limit size offset (min len ioChunkSize) ∈ [.ok 0, .error .EFBIG] →
      limitAt limit size offset (min len ioChunkSize) = .error .EFBIG) ↔
        ¬Straddles limit size offset (min len ioChunkSize) := by
  have hchunk : 0 < ioChunkSize := by decide
  by_cases hlen : len = 0
  · unfold Straddles saturatingAdd
    omega
  · rw [← limitAt_eq_zero_iff (by omega), List.mem_pair]
    cases limitAt limit size offset (min len ioChunkSize) <;> simp [hlen]

namespace WriteCall

variable {limit : Nat} {bytes : List UInt8} {f : Target}

theorem output_size (c : WriteCall) : (c.output f).file.size = f.size := by
  cases c with
  | write | pwrite64 | splice => rfl
  | sendfile _ _ shared | copyFileRange _ _ _ shared => cases shared <;> rfl

theorem limited_keeps_iff {c : WriteCall} (hlen : c.limited = some len)
    (hrun : ∀ env, c.run limit env bytes f =
      ((limitedLoop faultKeeps limit len env 0 0 (c.output f)).1.file.size,
        (limitedLoop faultKeeps limit len env 0 0 (c.output f)).2)) :
    c.KeepsLimit limit bytes f ↔ ¬Straddles limit f.size (c.output f).offset (min len ioChunkSize) := by
  have hresult (env) (hne : len ≠ 0) (hstat : (env 0).stat = none)
      (hr : limitAt limit f.size (c.output f).offset (min len ioChunkSize) ∈
        [.ok 0, .error .EFBIG]) :
      (c.run limit env bytes f).2 = limitAt limit f.size (c.output f).offset (min len ioChunkSize) := by
    rw [hrun, limitedLoop_refused hne hstat (by rw [output_size]) hr]
  rw [← limitAt_refused_iff]
  constructor
  · intro h hne hr
    rw [← hresult (plainInput 0) hne rfl hr]
    exact (h (plainInput 0)).2 ⟨len, hlen, hne, rfl, hr⟩
  · intro h env
    refine ⟨?_, fun ⟨len', hlen', hne, hstat, hr⟩ ↦ ?_⟩
    · rw [hrun]
      exact limitedLoop_size_le (le_max_right _ _) ((output_size c).trans_le (le_max_left _ _))
    · rw [hlen] at hlen'
      cases hlen'
      rw [hresult env hne hstat hr]
      exact h hne hr

theorem keepsLimit_iff_size {c : WriteCall} (h : c.limited = none) :
    c.KeepsLimit limit bytes f ↔ ∀ env, (c.run limit env bytes f).1 ≤ max f.size limit := by
  refine forall_congr' fun env ↦ and_iff_left ?_
  rintro ⟨len, hlen, -⟩
  rw [h] at hlen
  cases hlen

theorem copied_keeps_iff {c : WriteCall} {asks shared : Bool} (hlimited : c.limited = none)
    (hexp : shared = true → (c.output f).explicit = none)
    (hrun : ∀ env, (c.run limit env bytes f).1 =
      (copyLoop asks false shared (fun i ↦ { env i with writable := none }) (content f bytes shared) len 0
        { out := c.output f }).2.out.file.size) :
    c.KeepsLimit limit bytes f ↔ CopyRoom (max f.size limit) shared (c.output f)
      (if shared then f.size - (c.output f).file.pos else bytes.length) len := by
  have hlinked : Linked shared (content f bytes shared) { out := c.output f } := by
    refine ⟨hexp, ?_⟩
    rintro rfl -
    simp [content, output_size]
  have havail : (content f bytes shared).length - Copying.pos { out := c.output f } shared =
      if shared then f.size - (c.output f).file.pos else bytes.length := by
    cases shared <;> simp [content, Copying.pos]
  have hiff := @copyLoop_keeps_iff (max f.size limit) len asks shared _ _ hlinked rfl
    ((output_size c).trans_le (le_max_left _ _))
  rw [havail] at hiff
  rw [keepsLimit_iff_size hlimited, ← hiff]
  refine ⟨fun h env hwritable ↦ ?_, fun h env ↦ ?_⟩
  · have henv : (fun i ↦ { env i with writable := none }) = env :=
      funext fun i ↦ by rw [← hwritable i]
    rw [← henv, ← hrun]
    exact h env
  · rw [hrun]
    exact h _ fun _ ↦ rfl

/-- `sendfile` from a file to itself with the offset behind its end reads nothing. -/
example : (sendfile 10 none true).Within 4096 [] ⟨4096, 5000, false⟩ := by
  intro n hpos _ hpossible
  simp [Possible, output, Target.seekInput, Target.seek] at hpossible
  omega

theorem straddling_write_returns_zero :
    (write 10).Refused 4096 (plainInput 10) ⟨8192, 8190, false⟩ ∧
    ((write 10).run 4096 (plainInput 10) [] ⟨8192, 8190, false⟩).2 = .ok 0 := by
  have hzero : limitAt 4096 8192 8190 10 = .ok 0 := by decide
  exact ⟨⟨10, rfl, by decide, rfl, List.mem_pair.mpr (.inl hzero)⟩,
    limitedLoop_refused (by decide) rfl hzero (by decide)⟩

end WriteCall

end RespOS.Fs
