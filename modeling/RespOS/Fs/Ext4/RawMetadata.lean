import RespOS.Basis.Interleaving
import RespOS.Fs.Ext4.Inode

/-!
# The cache of raw inode metadata

`raw_metadata` returns the cached metadata of the inode, or reads those of the lower inode and caches
them. It releases the metadata lock before it reads and takes it again to publish. An operation that
changes the lower inode drops the cached metadata when it is done; on a directory it also counts up the
namespace generation.

The publication does not look at what has happened since the read: it stamps what it holds with the
generation of the moment. So metadata that were read before a change and are published after its
invalidation stay in the cache, for files and for directories alike (`stale_nlink`). In the runs in
which no thread holds such metadata when the last operation under way invalidates the cache
(`Invalidates`), and in which no operation fails half way, what `raw_metadata` returns agrees with the
lower inode (`rawMetadata_of_run`).

The timestamps are outside the claim: `commit_lower_setattr` writes them without invalidating, since
`stat` takes them from `MetadataState.times`.
-/

namespace RespOS.Fs.Ext4

open RespOS.Basis

structure RawState where
  metadata : MetadataState := {}
  lower : LowerInode

/-- A call under way: `raw_metadata` after a miss or after its read, or an operation that has changed
the lower inode and is going to call `namespace_changed` or `invalidate_raw_metadata`. -/
inductive RawCall
  | idle
  | missed
  | read (lower : LowerInode)
  | changed (inNamespace : Bool)

/-- The sections. `touch` is a commit of timestamps alone. `abandon` is an operation that returns an
error after its change, without an invalidation: `write_at` and `truncate` when a lower call fails
after `file_truncate`, `create_inode` when `file_close` fails. -/
inductive RawAction
  | rawMetadata
  | readLower (succeeds : Bool)
  | publish
  | change (lower : LowerInode) (inNamespace : Bool)
  | invalidate
  | abandon
  | touch (atime mtime ctime : Option TimeSpec)

def LowerInode.attributes (i : LowerInode) : Nat × Nat × Nat × Nat × Nat :=
  (i.size, i.nlink, i.mode, i.uid, i.gid)

/-- The choice of `unlink`: the storage of a directory, and of a file that loses its last link, is
reclaimed later. -/
def removesDeferred (ty : InodeType) (nlink : Nat) : Bool := ty = .directory || nlink ≤ 1

def rawSection (ty : InodeType) (_ : Nat) (a : RawAction) (s : RawState) (l : RawCall) :
    Option (RawState × RawCall) :=
  match a, l with
  | .rawMetadata, .idle =>
    match s.metadata.cachedRaw ty with
    | some _ => some (s, .idle)
    | none => some ({ s with metadata := s.metadata.missRaw ty }, .missed)
  | .readLower succeeds, .missed => some (s, if succeeds then .read s.lower else .idle)
  | .publish, .read lower =>
    some ({ s with metadata := s.metadata.publishRaw ty lower }, .idle)
  | .change lower inNamespace, .idle => some ({ s with lower := lower }, .changed inNamespace)
  | .invalidate, .changed inNamespace =>
    some ({ s with
      metadata := if inNamespace then s.metadata.namespaceChanged
        else s.metadata.invalidateRawMetadata }, .idle)
  | .abandon, .changed _ => some (s, .idle)
  | .touch atime mtime ctime, .idle =>
    some ({ s with lower := s.lower.setattr none none atime mtime ctime }, .idle)
  | _, _ => none

structure RawInit (c : Config RawState RawCall) : Prop where
  shared : c.shared.metadata = {}
  thread : ∀ t, c.thread t = .idle

/-- No operation is under way between its change and its invalidation. -/
def Quiet (c : Config RawState RawCall) : Prop := ∀ t inNamespace, c.thread t ≠ .changed inNamespace

/-- What is cached, and what has been read but not published, agrees with the lower inode. -/
structure Coherent (c : Config RawState RawCall) : Prop where
  cached : ∀ raw, c.shared.metadata.raw = some raw → raw.attributes = c.shared.lower.attributes
  read : ∀ t lower, c.thread t = .read lower → lower.attributes = c.shared.lower.attributes

/-- The condition: when the last operation under way invalidates the cache, no thread holds metadata
from before a change; an operation fails half way only if nothing from before its change is cached or
held. -/
def Invalidates (c : Config RawState RawCall) (l : Nat × RawAction) : Prop :=
  match l.2 with
  | .invalidate => (∀ u inNamespace, u ≠ l.1 → c.thread u ≠ .changed inNamespace) →
      ∀ u lower, c.thread u = .read lower → lower.attributes = c.shared.lower.attributes
  | .abandon => Coherent c
  | _ => True

section Runs

variable {ty : InodeType} {c : Config RawState RawCall} {t : Nat} {a : RawAction}

theorem quiet_of_update {s : RawState} {k : RawCall}
    (hquiet : Quiet ⟨s, Function.update c.thread t k⟩) {u : Nat} (hu : u ≠ t) (inNamespace : Bool) :
    c.thread u ≠ .changed inNamespace := by
  have := hquiet u inNamespace
  rwa [show (⟨s, Function.update c.thread t k⟩ : Config RawState RawCall).thread u = c.thread u from
    Function.update_of_ne hu k c.thread] at this

theorem read_of_update {k : RawCall} {u : Nat} {lower : LowerInode}
    (hk : ∀ lower, k ≠ .read lower) (hread : Function.update c.thread t k u = .read lower) :
    c.thread u = .read lower := by
  by_cases hu : u = t
  · subst hu
    rw [Function.update_self] at hread
    exact absurd hread (hk lower)
  · rwa [Function.update_of_ne hu] at hread

theorem coherent_of_section {s : RawState} {k : RawCall}
    (h : rawSection ty t a c.shared (c.thread t) = some (s, k)) (hok : Invalidates c (t, a))
    (hold : Quiet c → Coherent c) (hquiet : Quiet ⟨s, Function.update c.thread t k⟩) :
    Coherent ⟨s, Function.update c.thread t k⟩ := by
  have hbefore : (∀ inNamespace, c.thread t ≠ .changed inNamespace) → Coherent c := by
    refine fun hself ↦ hold fun u inNamespace ↦ ?_
    by_cases hu : u = t
    · rw [hu]
      exact hself inNamespace
    · exact quiet_of_update hquiet hu inNamespace
  generalize hl : c.thread t = l at h
  revert h
  fun_cases rawSection ty t a c.shared l with
  | case1 | case8 =>
    -- a hit of the cache, or timestamps
    rintro ⟨⟩
    have hc := hbefore (by simp [hl])
    exact ⟨hc.cached, fun u lower hu ↦ hc.read u lower (read_of_update (by simp) hu)⟩
  | case2 =>
    rintro ⟨⟩
    have hc := hbefore (by simp [hl])
    refine ⟨fun raw hraw ↦ ?_, fun u lower hu ↦ hc.read u lower (read_of_update (by simp) hu)⟩
    simp only [MetadataState.missRaw] at hraw
    split_ifs at hraw
    exact hc.cached raw hraw
  | case3 succeeds =>
    -- the read
    rintro ⟨⟩
    have hc := hbefore (by simp [hl])
    refine ⟨hc.cached, fun u lower hu ↦ ?_⟩
    by_cases hut : u = t
    · subst hut
      simp only [Function.update_self] at hu
      split_ifs at hu
      obtain rfl := RawCall.read.inj hu
      rfl
    · simp only [Function.update_of_ne hut] at hu
      exact hc.read u lower hu
  | case4 lower =>
    -- the publication
    rintro ⟨⟩
    have hc := hbefore (by simp [hl])
    refine ⟨fun raw hraw ↦ ?_, fun u lower hu ↦ hc.read u lower (read_of_update (by simp) hu)⟩
    simp only [MetadataState.publishRaw] at hraw
    split_ifs at hraw
    · obtain rfl := Option.some.inj hraw
      exact hc.read t lower hl
    · exact hc.cached raw hraw
  | case5 =>
    -- a change leaves its operation under way
    rintro ⟨⟩
    exact absurd (Function.update_self t _ c.thread) (hquiet t _)
  | case6 inNamespace =>
    -- the invalidation
    rintro ⟨⟩
    refine ⟨fun raw hraw ↦ ?_, fun u lower hu ↦ ?_⟩
    · cases inNamespace <;> exact absurd hraw (by simp [MetadataState.namespaceChanged,
        MetadataState.invalidateRawMetadata])
    · exact hok (fun v b hv ↦ quiet_of_update hquiet hv b) u lower (read_of_update (by simp) hu)
  | case7 =>
    -- an operation that fails half way
    rintro ⟨⟩
    exact ⟨hok.cached, fun u lower hu ↦ hok.read u lower (read_of_update (by simp) hu)⟩
  | _ => exact nofun

theorem coherent_of_run (hrun : Run RawInit Invalidates (Config.Step (rawSection ty)) c)
    (hquiet : Quiet c) : Coherent c := by
  refine hrun.invariant (I := fun c ↦ Quiet c → Coherent c) (fun c hc _ ↦ ?_) ?_ hquiet
  · exact ⟨by simp [hc.shared], by simp [hc.thread]⟩
  · rintro c ⟨t, a⟩ c' hold hok hstep hquiet
    obtain ⟨s, k, hsec, rfl⟩ := Config.step_iff.mp hstep
    exact coherent_of_section hsec hok hold hquiet

/-- In every run in which no thread holds metadata from before a change when the cache is invalidated
for the last time, and no operation fails half way: whenever no operation is under way, the metadata
that `raw_metadata` would return from the cache, and those that a call has read and is about to return,
agree with the lower inode, so that `unlink` chooses by the true link count. -/
theorem rawMetadata_of_run (hrun : Run RawInit Invalidates (Config.Step (rawSection ty)) c)
    (hquiet : Quiet c) : (∀ raw, c.shared.metadata.cachedRaw ty = some raw →
      raw.attributes = c.shared.lower.attributes ∧
      removesDeferred ty raw.nlink = removesDeferred ty c.shared.lower.nlink) ∧
    ∀ t lower, c.thread t = .read lower →
      lower.attributes = c.shared.lower.attributes ∧
      removesDeferred ty lower.nlink = removesDeferred ty c.shared.lower.nlink := by
  have hc := coherent_of_run hrun hquiet
  have hnlink : ∀ i j : LowerInode, i.attributes = j.attributes →
      i.attributes = j.attributes ∧ removesDeferred ty i.nlink = removesDeferred ty j.nlink :=
    fun i j heq ↦ ⟨heq, by rw [show i.nlink = j.nlink from congrArg (·.2.1) heq]⟩
  refine ⟨fun raw hraw ↦ hnlink _ _ (hc.cached raw ?_), fun t lower ht ↦ hnlink _ _ (hc.read t lower ht)⟩
  unfold MetadataState.cachedRaw at hraw
  split_ifs at hraw
  exact (Option.filter_eq_some_iff.mp hraw).1

end Runs

/-! ### Metadata published after the invalidation -/

def linkedOnce : LowerInode := ⟨0o100644, 0, 0, 0, ⟨0, 0⟩, ⟨0, 0⟩, ⟨0, 0⟩, 7, 0, 0, 1⟩

def linkedOnceState : Config RawState RawCall := ⟨{ lower := linkedOnce }, fun _ ↦ .idle⟩

theorem init_linkedOnceState : RawInit linkedOnceState := ⟨rfl, fun _ ↦ rfl⟩

/-- A second link is made and the cache invalidated between the read and the publication of
`raw_metadata`. -/
def linkDuringStat : List (Nat × RawAction) :=
  [(0, .rawMetadata), (0, .readLower true), (1, .change { linkedOnce with nlink := 2 } false),
    (1, .invalidate), (0, .publish)]

/-- No operation is under way, `raw_metadata` returns a link count of one from the cache, and the file
has two links: `unlink` reclaims the storage of a file that has a link left. -/
theorem stale_nlink :
    ∃ c, Run RawInit (fun _ _ ↦ True) (Config.Step (rawSection .regular)) c ∧ Quiet c ∧
      ∃ raw, c.shared.metadata.cachedRaw .regular = some raw ∧ raw.nlink = 1 ∧
        c.shared.lower.nlink = 2 ∧ removesDeferred .regular raw.nlink = true ∧
        removesDeferred .regular c.shared.lower.nlink = false := by
  obtain ⟨c, hc⟩ : ∃ c, linkedOnceState.runLabels (rawSection .regular) linkDuringStat = some c :=
    ⟨_, rfl⟩
  refine ⟨c, Config.run_of_runLabels (.start init_linkedOnceState) hc, fun t ↦ ?_, ?_⟩
  · rcases t with _ | _ | t
    · obtain rfl := Option.some.inj hc
      simp
    · obtain rfl := Option.some.inj hc
      simp
    · rw [Config.thread_of_runLabels (by simp [linkDuringStat]) hc]
      simp [linkedOnceState]
  · obtain rfl := Option.some.inj hc
    exact ⟨_, rfl, rfl, rfl, rfl, rfl⟩

/-- A second link made before the read is in the cached metadata. -/
theorem nlink_after_link :
    ∃ c, Run RawInit Invalidates (Config.Step (rawSection .regular)) c ∧ Quiet c ∧
      ∃ raw, c.shared.metadata.cachedRaw .regular = some raw ∧ c.shared.lower.nlink = 2 ∧
        raw.attributes = c.shared.lower.attributes := by
  have hstart : Run RawInit Invalidates (Config.Step (rawSection .regular)) _ :=
    .start init_linkedOnceState
  have hchange := hstart.next (1, RawAction.change { linkedOnce with nlink := 2 } false) trivial rfl
  have hinvalidate := hchange.next (1, RawAction.invalidate) (fun _ u lower hu ↦ by
    by_cases h : u = 1
    · subst h
      simp at hu
    · simp [h, linkedOnceState] at hu) rfl
  have hmiss := hinvalidate.next (0, RawAction.rawMetadata) trivial rfl
  have hread := hmiss.next (0, RawAction.readLower true) trivial rfl
  have hpublish := hread.next (0, RawAction.publish) trivial rfl
  refine ⟨_, hpublish, fun t inNamespace ↦ ?_, _, rfl, rfl, ?_⟩
  · by_cases h0 : t = 0
    · simp [h0]
    · by_cases h1 : t = 1 <;> simp [h0, h1, linkedOnceState]
  · refine ((rawMetadata_of_run hpublish fun t inNamespace ↦ ?_).1 _ rfl).1
    by_cases h0 : t = 0
    · simp [h0]
    · by_cases h1 : t = 1 <;> simp [h0, h1, linkedOnceState]

end RespOS.Fs.Ext4
