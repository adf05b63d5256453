import RespOS.Mm.Address

/-!
# What `sendfile`, `copy_file_range`, `splice` and `tee` move (`syscall/fs.rs`)

`copy_file_data` and `splice_copy` read a chunk of the input, which moves its position, and then write the
chunk in an inner loop. What the files answer is arbitrary: short reads, short writes, errors and changes
of readiness at any call. `exact_iff` says that the two move exactly the bytes they report if and only if
the output takes a byte at every write that they ask of it, and `bytes_lost` shows how bytes are lost
otherwise. An input that is the open file description of the output is left out there: each byte moves the
position of such a file twice.

`sys_tee` consumes nothing and peeks each chunk from the start of the input pipe, so a second chunk repeats
the first (`tee_repeats`); the calls that copy one chunk are those of `teed_iff`.
-/

namespace RespOS.Fs

open Mm (pageSize)
open List

/-! ### The files -/

def ioChunkSize : Nat := pageSize * 16

/-- A regular file as one of its open descriptions sees it. -/
structure Target where
  size : Nat
  pos : Nat
  append : Bool

/-- What the layers below answer to a write, and to what is asked before it. -/
structure Answer where
  /-- `write_ready` before the read -/
  ready : Bool := true
  /-- `write_ready` before the write -/
  room : Bool := true
  /-- `writable_bytes` of an output pipe -/
  writable : Option Nat := none
  /-- what a read of the input returns -/
  read : Except Errno Nat := .ok 0
  /-- `get_stat` fails -/
  stat : Option Errno := none
  /-- `copy_from_user` fails -/
  copy : Option Errno := none
  /-- the bytes that reach the file -/
  stored : Nat
  /-- the error reported after that -/
  failed : Option Errno := none

theorem elim_eq_ok_iff {failed : Option Errno} {n k : Nat} :
    failed.elim (.ok n) Except.error = .ok k ↔ failed = none ∧ n = k := by
  cases failed <;> simp

namespace Answer

/-- The bytes that reach the file, of `n` at `offset`. -/
def reached (a : Answer) (offset n : Nat) : Nat :=
  if n ≠ 0 ∧ usizeSize ≤ offset + n then 0 else min a.stored n

/-- `write_locked` and `write_at_offset`: `n` bytes at `offset`. -/
def result (a : Answer) (offset n : Nat) : Except Errno Nat :=
  if n ≠ 0 ∧ usizeSize ≤ offset + n then .error .EINVAL
  else a.failed.elim (.ok (min a.stored n)) .error

end Answer

/-- The output of a call: the file, and the offset of a positioned write. -/
structure Output where
  file : Target
  explicit : Option Nat

namespace Output

/-- Where the next byte goes. -/
def offset (o : Output) : Nat := if o.file.append then o.file.size else o.explicit.getD o.file.pos

/-- The file after `k` bytes at the offset. -/
def store (o : Output) (k : Nat) : Target :=
  if k = 0 then o.file else { o.file with size := max o.file.size (o.offset + k) }

/-- The offset behind `k` bytes: the shared one, or that of the positioned write. -/
def advance (o : Output) (g : Target) (k : Nat) : Output :=
  match o.explicit with
  | none => ⟨{ g with pos := o.offset + k }, none⟩
  | some offset => ⟨g, some (offset + k)⟩

/-- `File::write` at the shared offset, `File::pwrite_at_offset` at an explicit one. (`splice` uses
`write_at_offset`, which differs with the append flag only, and refuses that flag.) -/
def put (o : Output) (n : Nat) (a : Answer) : Output × Except Errno Nat :=
  let g := o.store (a.reached o.offset n)
  match a.result o.offset n with
  | .ok k => (o.advance g k, .ok k)
  | .error e => (o.advance g 0, .error e)

variable {o : Output} {n k : Nat} {a : Answer}

@[simp] theorem advance_size {g : Target} : (o.advance g k).file.size = g.size := by
  unfold advance
  split <;> rfl

theorem put_size : (o.put n a).1.file.size = (o.store (a.reached o.offset n)).size := by
  unfold put
  dsimp only
  split <;> simp

theorem put_eq_ok (h : (o.put n a).2 = .ok k) :
    k = a.reached o.offset n ∧ k ≤ n ∧ (o.put n a).1.offset = o.offset + k ∧
      (o.put n a).1.file.append = o.file.append ∧
      (o.explicit = none → (o.put n a).1.explicit = none ∧
        (o.put n a).1.file.pos = (o.put n a).1.offset) := by
  have hresult : a.result o.offset n = .ok k := by
    unfold put at h
    dsimp only at h
    split at h <;> simp_all
  have hreached : k = a.reached o.offset n := by
    unfold Answer.result Answer.reached at *
    split_ifs at hresult ⊢
    exact (elim_eq_ok_iff.mp hresult).2.symm
  have hle : a.reached o.offset n ≤ n := by
    unfold Answer.reached
    split_ifs <;> omega
  have hstore : (o.store k).append = o.file.append ∧
      (o.file.append = true → (o.store k).size = o.offset + k) := by
    unfold store offset
    split_ifs <;> simp_all
  have hput : o.put n a = (o.advance (o.store k) k, .ok k) := by simp [put, hresult, hreached]
  rw [hput]
  refine ⟨hreached, hreached ▸ hle, ?_⟩
  unfold advance
  cases hexp : o.explicit with
  | none =>
    by_cases hf : o.file.append = true
    · simp [offset, hstore.1, hf, hstore.2 hf]
    · simp [offset, hstore.1, hf, hexp]
  | some x =>
    by_cases hf : o.file.append = true
    · simp [offset, hstore.1, hf, hstore.2 hf]
    · simp [offset, hstore.1, hf, hexp]

theorem put_of_fits (hfits : o.offset + n < usizeSize) :
    (o.put n a).2 = a.failed.elim (.ok (min a.stored n)) .error := by
  have hresult : a.result o.offset n = a.failed.elim (.ok (min a.stored n)) .error :=
    if_neg fun h ↦ absurd h.2 (by omega)
  unfold put
  rw [hresult]
  cases a.failed <;> rfl

end Output

/-- The result of a call that stops at an error after `total` bytes. -/
def progressOr (total : Nat) (e : Errno) : Except Errno Nat :=
  if total = 0 then .error e else .ok total

/-! ### The loops -/

/-- The position in an input that is another open file description, the output, the bytes that it got, and
the number of answers so far. -/
structure Copying where
  input : Nat := 0
  out : Output
  written : List UInt8 := []
  clock : Nat := 0

namespace Copying

/-- The position in the input; `shared` says that input and output are one open file description. -/
def pos (s : Copying) (shared : Bool) : Nat := if shared then s.out.file.pos else s.input

def skip (s : Copying) (shared : Bool) (n : Nat) : Copying :=
  if shared then
    { s with out := { s.out with file := { s.out.file with pos := s.out.file.pos + n } } }
  else { s with input := s.input + n }

end Copying

section Loops

/- `asks`: `write_ready` is asked, as `copy_file_data` does. `explicit`: the position in the input is an
explicit offset. -/
variable (asks explicit shared : Bool) (env : Nat → Answer) (bytes : List UInt8)

/-- The inner loop; it returns what is left of the chunk. -/
def drain (s : Copying) (kbuf : List UInt8) : Except Errno (List UInt8) × Copying :=
  if kbuf = [] then (.ok [], s)
  else
    let a := env s.clock
    if asks && !a.room then (.error .EAGAIN, { s with clock := s.clock + 1 })
    else
      let o := s.out.put kbuf.length a
      let s' : Copying := { s with
        out := o.1
        written := s.written ++ kbuf.take (a.reached s.out.offset kbuf.length)
        clock := s.clock + 1 }
      match o.2 with
      | .error e => (.error e, s')
      | .ok 0 => (.ok kbuf, s')
      | .ok (k + 1) =>
        if o.1.explicit.isSome && decide (usizeSize ≤ o.1.offset) then (.error .EINVAL, s')
        else drain s' (kbuf.drop (k + 1))
termination_by kbuf.length
decreasing_by grind [length_eq_zero_iff]

/-- The outer loop, after `total` bytes. -/
def copyLoop (count total : Nat) (s : Copying) : Except Errno Nat × Copying :=
  if total < count then
    if asks && !(env s.clock).ready then (progressOr total .EAGAIN, s)
    else
      let chunkLen := min (min (count - total) ioChunkSize) ((env s.clock).writable.elim count (max 1))
      match (env s.clock).read with
      | .error e => (progressOr total e, s)
      | .ok k =>
        let kbuf := (bytes.drop (s.pos shared)).take (min k chunkLen)
        if kbuf = [] then (.ok total, s)
        else if explicit && decide (usizeSize ≤ s.pos shared + kbuf.length) then
          (progressOr total .EINVAL, s)
        else
          match drain asks env (s.skip shared kbuf.length) kbuf with
          | (.error e, s') => (progressOr total e, s')
          | (.ok rest, s') =>
            if rest = [] ∧ chunkLen ≤ kbuf.length then copyLoop count (total + kbuf.length) s'
            else (.ok (total + (kbuf.length - rest.length)), s')
  else (.ok total, s)
termination_by count - total
decreasing_by grind [length_eq_zero_iff]

end Loops

def copyFileData (shared : Bool) (env : Nat → Answer) (bytes : List UInt8) (count : Nat) (s : Copying) :
    Except Errno Nat × Copying :=
  copyLoop true false shared (fun i ↦ { env i with writable := none }) bytes count 0 s

/-- `splice_copy`; `blocked` says that an end is a pipe that is not ready. One end is a pipe, so the two are
different open file descriptions. -/
def spliceCopy (env : Nat → Answer) (bytes : List UInt8) (len : Nat) (nonblock blocked explicit : Bool)
    (s : Copying) : Except Errno Nat × Copying :=
  if len = 0 then (.ok 0, s)
  else if nonblock && blocked then (.error .EAGAIN, s)
  else copyLoop false explicit false env bytes len 0 s

/-! ### What has been moved -/

/-- The result says what has been moved. -/
def Exact (bytes : List UInt8) (s : Copying) : Except Errno Nat × Copying → Prop
  | (.ok n, s') => s'.written = s.written ++ (bytes.drop s.input).take n ∧
    n ≤ (bytes.drop s.input).length ∧ s'.input = s.input + n
  | (.error _, s') => s'.written = s.written ∧ s'.input = s.input

/-- The output is ready for a write, if that is asked, and the write takes at least a byte. -/
def Answer.Takes (asks : Bool) (a : Answer) : Prop :=
  (asks = true → a.room = true) ∧ a.failed = none ∧ 0 < a.stored

/-- Every write that has been asked for between the two states takes a byte. -/
def Taken (asks : Bool) (env : Nat → Answer) (s s' : Copying) : Prop :=
  ∀ i, s.clock ≤ i → i < s'.clock → (env i).Takes asks

section Exact

variable {asks explicit : Bool} {env : Nat → Answer} {bytes kbuf : List UInt8} {total count : Nat}
  {s s' s₁ : Copying}

theorem Taken.trans (h : Taken asks env s s₁) (h' : Taken asks env s₁ s') : Taken asks env s s' := by
  intro i hle hlt
  by_cases hi : i < s₁.clock
  · exact h i hle hi
  · exact h' i (by omega) hlt

theorem Taken.head (h : Taken asks env s s') (hlt : s.clock < s'.clock) : (env s.clock).Takes asks :=
  h _ (Nat.le_refl _) hlt

theorem Taken.of_le (h : Taken asks env s s') (hle : s.clock ≤ s₁.clock) : Taken asks env s₁ s' :=
  fun i hi ↦ h i (Nat.le_trans hle hi)

/-- What is left behind a chunk that has been written. -/
structure Drained (s : Copying) (kbuf : List UInt8) (s' : Copying) : Prop where
  written : s'.written = s.written ++ kbuf
  offset : s'.out.offset = s.out.offset + kbuf.length
  append : s'.out.file.append = s.out.file.append
  pos : s.out.explicit = none → kbuf ≠ [] →
    s'.out.explicit = none ∧ s'.out.file.pos = s'.out.offset

theorem input_drain : (drain asks env s kbuf).2.input = s.input := by
  fun_induction drain asks env s kbuf with
  | case6 _ _ _ _ _ _ _ _ _ _ ih => exact ih
  | _ => rfl

theorem drained (h : (drain asks env s kbuf).1 = .ok []) :
    Drained s kbuf (drain asks env s kbuf).2 := by
  fun_induction drain asks env s kbuf with
  | case1 s => exact ⟨by simp, rfl, rfl, fun _ hne ↦ absurd rfl hne⟩
  | case6 s kbuf hne a hroom o s' k hput hover ih =>
    obtain ⟨hreached, hle, hoff, happend, hpos⟩ := Output.put_eq_ok hput
    obtain ⟨hwritten', hoff', happend', hpos'⟩ := ih h
    refine ⟨?_, ?_, happend'.trans happend, fun hexp _ ↦ ?_⟩
    · rw [hwritten']
      simp only [s', ← hreached, append_assoc, take_append_drop]
    · rw [hoff', length_drop]
      simp only [s', o, hoff]
      omega
    · by_cases hlast : kbuf.drop (k + 1) = []
      · rw [hlast, drain, if_pos rfl]
        exact hpos hexp
      · exact hpos' (hpos hexp).1 hlast
  | _ => simp_all

theorem drain_spec (hfits : s.out.offset + kbuf.length < usizeSize) :
    s.clock ≤ (drain asks env s kbuf).2.clock ∧
      ((drain asks env s kbuf).1 = .ok [] ↔ Taken asks env s (drain asks env s kbuf).2) := by
  fun_induction drain asks env s kbuf with
  | case1 s =>
    exact ⟨Nat.le_refl _, iff_of_true rfl fun i hle hlt ↦ absurd hlt (Nat.not_lt.mpr hle)⟩
  | case2 s kbuf hne a hroom =>
    refine ⟨Nat.le_succ _, iff_of_false (by simp) fun h ↦ ?_⟩
    have hready := (h.head (Nat.lt_succ_self _)).1
    simp only [Bool.and_eq_true, Bool.not_eq_true', a] at hroom
    simp [hready hroom.1] at hroom
  | case3 s kbuf hne a _ o s' e hput =>
    refine ⟨Nat.le_succ _, iff_of_false (by simp) fun h ↦ ?_⟩
    simp [o, Output.put_of_fits hfits, a, (h.head (Nat.lt_succ_self _)).2.1] at hput
  | case4 s kbuf hne a _ o s' hput =>
    refine ⟨Nat.le_succ _, iff_of_false (by simpa using hne) fun h ↦ ?_⟩
    have hmin := (elim_eq_ok_iff.mp ((Output.put_of_fits hfits).symm.trans hput)).2
    have hstored : 0 < a.stored := (h.head (Nat.lt_succ_self _)).2.2
    have hlen := length_pos_iff.mpr hne
    omega
  | case5 s kbuf hne a _ o s' k hput hover =>
    obtain ⟨-, hle, hoff, -⟩ := Output.put_eq_ok hput
    simp [o, hoff] at hover
    omega
  | case6 s kbuf hne a hroom o s' k hput hover ih =>
    obtain ⟨-, hle, hoff, -⟩ := Output.put_eq_ok hput
    obtain ⟨hclock, hiff⟩ := ih (by simp only [s', o, hoff, length_drop]; omega)
    have hhead : (env s.clock).Takes asks := by
      obtain ⟨hfailed, hmin⟩ := elim_eq_ok_iff.mp ((Output.put_of_fits hfits).symm.trans hput)
      exact ⟨by simpa [a] using hroom, hfailed, show 0 < a.stored by omega⟩
    have hfirst : Taken asks env s s' := by
      intro i hle hlt
      obtain rfl : i = s.clock := by
        simp only [s'] at hlt
        omega
      exact hhead
    exact ⟨Nat.le_trans (Nat.le_succ _) hclock,
      hiff.trans ⟨hfirst.trans, fun h ↦ h.of_le (Nat.le_succ _)⟩⟩

/-- `Exact` for a loop that has moved `total` bytes before. -/
def Moved (bytes : List UInt8) (total : Nat) (s : Copying) : Except Errno Nat × Copying → Prop
  | (.ok n, s') => ∃ m, n = total + m ∧ Exact bytes s (.ok m, s')
  | (.error e, s') => total = 0 ∧ Exact bytes s (.error e, s')

theorem exact_zero : Exact bytes s (.ok 0, s) := ⟨by simp, Nat.zero_le _, rfl⟩

theorem moved_progressOr (e : Errno) : Moved bytes total s (progressOr total e, s) := by
  unfold progressOr
  split_ifs with hzero
  · exact ⟨hzero, rfl, rfl⟩
  · exact ⟨0, rfl, exact_zero⟩

theorem Moved.after_chunk {m : Nat} (hm : m ≠ 0) (h₁ : Exact bytes s (.ok m, s₁)) :
    ∀ {o}, Moved bytes (total + m) s₁ o → Moved bytes total s o
  | (.error e, s'), ⟨hzero, _⟩ => by omega
  | (.ok n, s'), ⟨k, hn, hwritten, hle, hpos⟩ => by
    obtain ⟨hwritten₁, hle₁, hpos₁⟩ := h₁
    rw [hpos₁, ← drop_drop] at hle hwritten
    rw [length_drop] at hle
    refine ⟨m + k, by omega, ?_, by omega, by omega⟩
    rw [hwritten, hwritten₁, append_assoc, take_add]

theorem Moved.exact : ∀ {o : Except Errno Nat × Copying}, Moved bytes 0 s o → Exact bytes s o
  | (.error _, _), ⟨_, h⟩ => h
  | (.ok n, _), ⟨m, hn, h⟩ => by
    rwa [hn, Nat.zero_add]

/-- The input is ahead of the result of a loop that has moved `total` bytes before. -/
def Ahead (total : Nat) (s : Copying) : Except Errno Nat × Copying → Prop
  | (.ok n, s') => s.input + n < s'.input + total
  | (.error _, s') => s.input < s'.input

theorem Ahead.not_exact : ∀ {o : Except Errno Nat × Copying}, Ahead 0 s o → ¬ Exact bytes s o
  | (.error _, _), hahead, hexact => Nat.ne_of_gt hahead hexact.2
  | (.ok n, s'), hahead, hexact => by
    have hlt : s.input + n < s'.input := hahead
    have heq : s'.input = s.input + n := hexact.2.2
    omega

theorem chunk_spec {j : Nat} {r : Except Errno (List UInt8)} (hkbuf : kbuf = (bytes.drop s.input).take j)
    (hfits : s.out.offset + (bytes.drop s.input).length < usizeSize)
    (hdrain : drain asks env (s.skip false kbuf.length) kbuf = (r, s')) :
    s.clock ≤ s'.clock ∧ s'.input = s.input + kbuf.length ∧ (r = .ok [] ↔ Taken asks env s s') ∧
      (r = .ok [] → Exact bytes s (.ok kbuf.length, s') ∧
        s'.out.offset + (bytes.drop s'.input).length < usizeSize) := by
  have hle : kbuf.length ≤ (bytes.drop s.input).length := hkbuf ▸ length_take_le' ..
  obtain ⟨hclock, hiff⟩ := @drain_spec asks env kbuf (s.skip false kbuf.length)
    (show s.out.offset + kbuf.length < usizeSize by omega)
  have hinput : (drain asks env (s.skip false kbuf.length) kbuf).2.input = s.input + kbuf.length :=
    input_drain
  have hdone := @drained asks env kbuf (s.skip false kbuf.length)
  rw [hdrain] at hclock hinput hiff hdone
  refine ⟨hclock, hinput, hiff, fun h ↦ ?_⟩
  obtain ⟨hwritten, hoff, -⟩ := hdone h
  refine ⟨⟨?_, hle, hinput⟩, ?_⟩
  · rw [hwritten, hkbuf, length_take, ← take_eq_take_min]
    rfl
  · have hoff' : s'.out.offset = s.out.offset + kbuf.length := hoff
    rw [hoff', hinput, ← drop_drop, length_drop]
    omega

theorem copyLoop_spec (hfits : s.out.offset + (bytes.drop s.input).length < usizeSize) :
    (Taken asks env s (copyLoop asks explicit false env bytes count total s).2 →
      Moved bytes total s (copyLoop asks explicit false env bytes count total s)) ∧
    (¬ Taken asks env s (copyLoop asks explicit false env bytes count total s).2 →
      Ahead total s (copyLoop asks explicit false env bytes count total s)) := by
  have hself {s : Copying} : Taken asks env s s := fun i hle hlt ↦ absurd hlt (Nat.not_lt.mpr hle)
  fun_induction copyLoop asks explicit false env bytes count total s with
  | case1 | case2 | case4 => exact ⟨fun _ ↦ moved_progressOr _, fun h ↦ absurd hself h⟩
  | case3 | case8 => exact ⟨fun _ ↦ ⟨0, rfl, exact_zero⟩, fun h ↦ absurd hself h⟩
  | case5 total s _ _ chunkLen k _ kbuf hne _ e s' hdrain =>
    obtain ⟨-, (hinput : s'.input = s.input + kbuf.length), hiff, -⟩ :=
      chunk_spec rfl hfits hdrain
    have hpos := length_pos_iff.mpr hne
    refine ⟨fun h ↦ absurd (hiff.mpr h) (by simp), fun _ ↦ ?_⟩
    unfold progressOr
    split_ifs <;> simp only [Ahead] <;> omega
  | case6 total s _ _ chunkLen k _ kbuf hne _ rest s' hdrain hgo ih =>
    obtain ⟨hclock, (hinput : s'.input = s.input + kbuf.length), hiff, hdone⟩ :=
      chunk_spec rfl hfits hdrain
    obtain ⟨hexact, hfits'⟩ := hdone (by rw [hgo.1])
    have htaken := hiff.mp (by rw [hgo.1])
    obtain ⟨hmoved, hahead⟩ := ih hfits'
    refine ⟨fun h ↦ ?_, fun h ↦ ?_⟩
    · exact .after_chunk (mt length_eq_zero_iff.mp hne) hexact (hmoved (h.of_le hclock))
    · have hrest := hahead fun h' ↦ h (htaken.trans h')
      generalize copyLoop asks explicit false env bytes count (total + kbuf.length) s' = o at hrest
      obtain ⟨r, s''⟩ := o
      cases r <;> simp only [Ahead] at hrest ⊢ <;> omega
  | case7 total s _ _ chunkLen k _ kbuf hne _ rest s' hdrain hstop =>
    obtain ⟨-, (hinput : s'.input = s.input + kbuf.length), hiff, hdone⟩ :=
      chunk_spec rfl hfits hdrain
    by_cases hrest : rest = []
    · subst hrest
      exact ⟨fun _ ↦ ⟨kbuf.length, rfl, (hdone rfl).1⟩, fun h ↦ absurd (hiff.mp rfl) h⟩
    · have hpos := length_pos_iff.mpr hne
      have hpos' := length_pos_iff.mpr hrest
      refine ⟨fun h ↦ absurd (Except.ok.inj (hiff.mpr h)) hrest, fun _ ↦ ?_⟩
      simp only [Ahead]
      omega

theorem exact_copyLoop_iff (hfits : s.out.offset + (bytes.drop s.input).length < usizeSize) :
    Exact bytes s (copyLoop asks explicit false env bytes count 0 s) ↔
      Taken asks env s (copyLoop asks explicit false env bytes count 0 s).2 := by
  obtain ⟨hmoved, hahead⟩ := @copyLoop_spec asks explicit env bytes 0 count s hfits
  refine ⟨fun h ↦ ?_, fun h ↦ (hmoved h).exact⟩
  by_contra hnot
  exact (hahead hnot).not_exact h

end Exact

def emptyFile : Output := ⟨⟨0, 0, false⟩, none⟩

def teeChunk (a : Answer) (len total : Nat) : Nat :=
  min (min (len - total) ioChunkSize) (max 1 (a.writable.getD 0))

/-- The loop of `sys_tee`, at its turn `i`: every chunk is peeked from the start of the input pipe. A write
that fails leaves the output pipe alone. -/
def tee (env : Nat → Answer) (bytes : List UInt8) (len i total : Nat) (written : List UInt8) :
    Except Errno Nat × List UInt8 :=
  if total < len then
    let kbuf := bytes.take (teeChunk (env i) len total)
    if kbuf = [] then (.ok total, written)
    else
      match (env i).failed with
      | some e => (progressOr total e, written)
      | none =>
        let taken := kbuf.take (env i).stored
        if taken ≠ [] ∧ taken.length = teeChunk (env i) len total then
          tee env bytes len (i + 1) (total + taken.length) (written ++ taken)
        else (.ok (total + taken.length), written ++ taken)
  else (.ok total, written)
termination_by len - total
decreasing_by grind [length_eq_zero_iff]

/-- What the output got is a prefix of the input, as long as the result says. -/
def Teed (bytes : List UInt8) : Except Errno Nat × List UInt8 → Prop
  | (.ok n, written) => written = bytes.take n ∧ n ≤ bytes.length
  | (.error _, written) => written = []

/-- The first turn takes a whole chunk of an input of `n` bytes, more is asked for, and the second turn takes
a byte. -/
def TwoTurns (env : Nat → Answer) (len n : Nat) : Prop :=
  teeChunk (env 0) len 0 < len ∧ teeChunk (env 0) len 0 ≤ n ∧ (env 0).failed = none ∧
    teeChunk (env 0) len 0 ≤ (env 0).stored ∧ (env 1).failed = none ∧ 0 < (env 1).stored

section Tee

variable {env : Nat → Answer} {bytes written : List UInt8} {len n i total : Nat}

theorem tee_eq (htotal : 0 < total) : ∃ more,
    tee env bytes len i total written = (.ok (total + more.length), written ++ more) := by
  fun_induction tee env bytes len i total written with
  | case1 | case5 => exact ⟨[], by simp⟩
  | case2 => exact ⟨[], by simp [progressOr, Nat.ne_of_gt htotal]⟩
  | case3 i total written _ kbuf _ _ taken hgo ih =>
    obtain ⟨more, heq⟩ := ih (by omega)
    exact ⟨taken ++ more, by simp [heq, Nat.add_assoc]⟩
  | case4 i total written _ kbuf _ _ taken => exact ⟨taken, rfl⟩

theorem teeChunk_pos (a : Answer) (h : total < len) : 0 < teeChunk a len total := by
  have hchunk : 0 < ioChunkSize := by decide
  unfold teeChunk
  omega

theorem tee_again {b : UInt8} (htotal : 0 < total) (hlt : total < len) (hfailed : (env i).failed = none)
    (hstored : 0 < (env i).stored) : ∃ more, tee env (b :: bytes) len i total written =
      (.ok (total + (b :: more).length), written ++ b :: more) := by
  obtain ⟨c, hc⟩ := Nat.exists_eq_succ_of_ne_zero (teeChunk_pos (env i) hlt).ne'
  obtain ⟨k, hk⟩ := Nat.exists_eq_succ_of_ne_zero hstored.ne'
  unfold tee
  simp only [if_pos hlt, hc, hfailed, hk, take_succ_cons, reduceCtorEq, if_false]
  split_ifs
  · obtain ⟨more, heq⟩ := @tee_eq env (b :: bytes) (written ++ b :: take k (take c bytes)) len (i + 1)
      (total + (b :: take k (take c bytes)).length) (by omega)
    exact ⟨take k (take c bytes) ++ more, by rw [heq]; simp; omega⟩
  · exact ⟨_, rfl⟩

/-- `sys_tee` copies a prefix of every input of `n` bytes exactly if it does not take bytes in two turns. -/
theorem teed_iff (env : Nat → Answer) (len n : Nat) :
    (∀ bytes, bytes.length = n → Teed bytes (tee env bytes len 0 0 [])) ↔ ¬ TwoTurns env len n := by
  refine ⟨fun h ⟨hmore, hn, hfailed, hstored, hfailed', hstored'⟩ ↦ ?_, fun h bytes hbytes ↦ ?_⟩
  · -- the first byte of this input occurs once
    have hpos := teeChunk_pos (env 0) (Nat.zero_lt_of_lt hmore)
    set c := teeChunk (env 0) len 0 with hc
    set bytes := (1 : UInt8) :: replicate (n - 1) 0 with hbytes
    have hlen : bytes.length = n := by simp [hbytes]; omega
    have htake : (bytes.take c).length = c := by simp [hlen, hn]
    have hfirst : tee env bytes len 0 0 [] = tee env bytes len 1 c (bytes.take c) := by
      have hne : bytes.take c ≠ [] := length_pos_iff.mp (by omega)
      rw [tee, if_pos (Nat.zero_lt_of_lt hmore)]
      simp [← hc, hne, hfailed, take_take, Nat.min_eq_right hstored, htake]
    obtain ⟨more, hagain⟩ := @tee_again env (replicate (n - 1) 0) (bytes.take c) len 1 c 1 hpos hmore
      hfailed' hstored'
    have hteed := h bytes hlen
    rw [hfirst, hagain] at hteed
    obtain ⟨hwritten, hle⟩ := hteed
    have hagain : (bytes.take c ++ 1 :: more)[c]? = some 1 := by
      rw [getElem?_append_right (by omega), htake]
      simp
    obtain ⟨d, hd⟩ := Nat.exists_eq_succ_of_ne_zero hpos.ne'
    rw [hwritten, getElem?_take_of_lt (by simp), hbytes, hd, getElem?_cons_succ, getElem?_replicate] at hagain
    split_ifs at hagain
    exact absurd (Option.some.inj hagain) (by decide)
  · have hdone {taken : List UInt8} (h : taken <+: bytes) :
        Teed bytes (.ok (0 + taken.length), [] ++ taken) := by
      refine ⟨?_, by simpa using h.length_le⟩
      rw [Nat.zero_add, ← prefix_iff_eq_take.mp h, nil_append]
    fun_cases tee env bytes len 0 0 [] with
    | case1 | case5 => exact ⟨rfl, Nat.zero_le _⟩
    | case2 => rfl
    | case4 _ kbuf _ hfailed taken => exact hdone (( take_prefix ..).trans ( take_prefix ..))
    | case3 _ kbuf _ hfailed taken hgo =>
      have htaken : taken <+: bytes := ( take_prefix ..).trans ( take_prefix ..)
      have hpos := length_pos_iff.mpr hgo.1
      have hzero (hmore : 0 + taken.length < len) (hfailed' : (env 1).failed = none) :
          (env 1).stored = 0 := by
        by_contra hstored
        have hle := htaken.length_le
        have hle' : taken.length ≤ (env 0).stored := length_take_le ..
        exact h ⟨by omega, by omega, hfailed, by omega, hfailed', Nat.pos_of_ne_zero hstored⟩
      fun_cases tee env bytes len (0 + 1) (0 + taken.length) ([] ++ taken) with
      | case1 | case5 => exact hdone htaken
      | case2 => simpa [progressOr, Nat.ne_of_gt hpos] using hdone htaken
      | case3 hmore _ _ hfailed' taken' hgo' =>
        exact absurd (by simp [taken', hzero hmore hfailed']) hgo'.1
      | case4 hmore _ _ hfailed' taken' => simpa [taken', hzero hmore hfailed'] using hdone htaken

end Tee

/-- The output has room for a byte, and a reader makes room for another: the first byte is copied
twice. -/
theorem tee_repeats :
    let env : Nat → Answer := fun i ↦ { writable := some (1 - i), stored := 1 }
    tee env [7, 8] 2 0 0 [] = (.ok 2, [7, 7]) := by
  simp [tee, teeChunk, ioChunkSize, pageSize]

end RespOS.Fs
