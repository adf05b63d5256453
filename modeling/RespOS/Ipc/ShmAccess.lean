import RespOS.Ipc.Shm

/-!
# The access rights of a segment

The mode of a segment grants read, write and execute to the owner, to the group and to others.
`sys_shmat` asks `shm_access_allowed` once, with the mode bits of the attachment in octal; that function
looks at the bits for read and write only, so an attachment with `SHM_EXEC` is executable whatever the
mode says. Later `mprotect` asks the files of the areas in its range, not segments, so a page attached
read-only can be made writable or executable.

In the runs in which both ask for no more than that (`KeepsAccess`) the mode grants the permission of
every area that maps a frame of a segment (`access_within_of_run`). `access_exceeded` is the run that
breaks it.
-/

namespace RespOS.Ipc

open RespOS.Basis RespOS.Fs RespOS.Mm

/-- The mode of the segment lets the task write, where the permission does, and execute, where the
permission does. Root may do both. -/
def ShmSegment.Grants (segment : ShmSegment) (cred : Cred) (perm : MapPermission) : Prop :=
  cred.euid ≠ 0 →
    (perm.write = true → (segment.available cred).testBit 1 = true) ∧
      (perm.execute = true → (segment.available cred).testBit 0 = true)

theorem ShmSegment.SameAccess.grants {s s' : ShmSegment} {cred : Cred} {perm : MapPermission}
    (h : s'.SameAccess s) (hgrants : s.Grants cred perm) : s'.Grants cred perm := by
  unfold ShmSegment.Grants at hgrants ⊢
  rwa [h.available]

namespace ShmWorld

variable {w w' : ShmWorld} {l : ShmLabel}

theorem testBit_of_shmAccessAllowed {segment : ShmSegment} {cred : Cred} {shmflg : Nat}
    (h : shmAccessAllowed segment cred (attachNeeded shmflg) = true) (hroot : cred.euid ≠ 0)
    (hwrite : hasFlag shmflg SHM_RDONLY = false) : (segment.available cred).testBit 1 = true := by
  have hneeded : attachNeeded shmflg ≠ 0 ∧ hasFlag (attachNeeded shmflg) 0o400 = true ∧
      hasFlag (attachNeeded shmflg) 0o200 = true := by
    unfold attachNeeded
    rw [hwrite]
    cases hasFlag shmflg SHM_EXEC <;> decide
  rcases hneeded with ⟨hne, hread, hwrite⟩
  unfold shmAccessAllowed at h
  rw [if_neg hne, if_neg hroot, hread, hwrite] at h
  have hmask := of_decide_eq_true h
  have hbit := congrArg (fun n : Nat ↦ n.testBit 1) hmask
  rw [Nat.testBit_and] at hbit
  exact (Bool.and_eq_true_iff.mp (hbit.trans (by decide))).1

/-- Every area that maps a frame of a segment has a permission that the mode grants. -/
def AccessWithin (w : ShmWorld) : Prop :=
  ∀ i a v p, w.machine.Records i a v p → ∀ segment ∈ w.table.segments, p ∈ segment.frames →
    segment.Grants (w.creds i) a.mapPerm

/-- The step asks for no access to a segment that its mode does not grant: `shmat` not for execute, and
`mprotect` neither for write nor for execute. -/
def KeepsAccess (w : ShmWorld) (l : ShmLabel) : Prop :=
  match l.call with
  | .shmat shmid _ shmflg => hasFlag shmflg SHM_EXEC = true → ∀ segment,
      w.table.get shmid = some segment → segment.Grants (w.creds l.sid) { execute := true }
  | .mem (.op (.mprotect r perm)) => ∀ a v p, w.machine.Records l.sid a v p → r.start ≤ v →
      v < r.stop → ∀ segment ∈ w.table.segments, p ∈ segment.frames →
        segment.Grants (w.creds l.sid) perm
  | _ => True

/-! ### One step -/

theorem grants_of_derived {cred : Cred} {a : MapArea} {p : Nat} {t' t : ShmTable}
    (htable : t'.Derived t)
    (h : ∀ segment ∈ t.segments, p ∈ segment.frames → segment.Grants cred a.mapPerm) :
    ∀ segment ∈ t'.segments, p ∈ segment.frames → segment.Grants cred a.mapPerm := by
  rcases htable with ⟨g, hg, hsub⟩
  intro s' hs' hp
  rcases hsub s' hs' with ⟨s, hs, rfl⟩
  exact (hg s).grants (h s hs ((hg s).frames ▸ hp))

/-- What a step of the address spaces does to the permission of a page with the frame of a segment. -/
inductive PermOrigin (w : ShmWorld) (l : Label) (i : Nat) (a' : MapArea) (p : Nat) : Prop
  /-- The permission is that of a page before, of this address space or of the parent. -/
  | old {a : MapArea} {i₀ v : Nat} (hrec : w.machine.Records i₀ a v p)
      (hperm : a'.mapPerm = a.mapPerm)
      (hspace : i = i₀ ∨ (l.action = .fork ∧ i₀ = l.sid ∧ i = w.spaces.length))
  | protect {a : MapArea} {v : Nat} {r : UserRange} {perm : MapPermission}
      (haction : l.action = .op (.mprotect r perm)) (hi : i = l.sid)
      (hrec : w.machine.Records l.sid a v p) (hv : r.start ≤ v ∧ v < r.stop)
      (hperm : a'.mapPerm = { perm with user := true })
  | attach {req : MmapRequest} {attachId : Nat} {frames : List Nat}
      (haction : l.action = .op (.mmap req (.segment attachId frames))) (hi : i = l.sid)
      (hmem : p ∈ frames) (hperm : a'.mapPerm = req.mapPerm)

theorem permOrigin_of_advance {m' : Machine} {label : Label} {i v p : Nat} {a' : MapArea}
    {segment : ShmSegment} (h : w.ShmInv) (hadvance : w.machine.Advance label m')
    (hrec : m'.Records i a' v p) (hsegment : segment ∈ w.table.segments) (hp : p ∈ segment.frames) :
    PermOrigin w label i a' p := by
  have hloose := h.loose segment hsegment p hp
  have hnew : ∀ s s' : MmState, s.k = w.k → ¬ Fresh s s' p := by
    rintro s s' hk ⟨-, j, hj⟩
    rw [hk] at hj
    exact hloose.not_supply j hj
  have hbacked : ∀ f idx, ¬ m'.k.Backs f idx p := fun _ _ hbacks ↦
    hbacks.not_loose (hadvance.loose hloose)
  cases hadvance.origin h.inv hrec with
  | same hold | marked _ hi hold => exact .old hold rfl (.inl rfl)
  | inherited haction hi _ hold ha' =>
    exact .old hold (ha' ▸ rfl) (.inr ⟨haction, rfl, hi⟩)
  | changed haction hi hms heffect hk _ _ _ _ horigin =>
    cases horigin with
    | kept ha _ hframe hperm | resolved _ ha _ hframe hperm | opened _ ha _ hframe hperm
    | moved _ ha _ hframe hperm => exact .old ⟨_, hms, ha, hframe⟩ hperm (.inl hi)
    | protect hop ha _ hframe hv hperm =>
      exact .protect (hop ▸ haction) hi ⟨_, hms, ha, hframe⟩ hv hperm
    | copied _ _ _ _ _ _ _ _ _ _ hfresh | replaced _ _ _ _ _ _ _ hfresh | anonymous _ _ hfresh =>
      exact absurd hfresh (hnew _ _ rfl)
    | filled _ _ _ _ _ hframe =>
      cases huses : a'.usesFile ((v - a'.start) * pageSize) with
      | true =>
        rcases hframe.file huses with ⟨b, -, -, hbacks⟩
        exact absurd (hk ▸ hbacks) (hbacked _ _)
      | false =>
        rcases hframe.own huses with ⟨-, j, hj⟩
        exact absurd hj (hloose.not_supply j)
    | segment hop hby hmem => exact .attach (hop ▸ haction) hi hmem hby.mapPerm
    | file _ _ _ hbacks => exact absurd (hk ▸ hbacks) (hbacked _ _)

theorem Moves.accessWithin (h : w.ShmInv) (hmoves : Moves w l w') (hok : KeepsAccess w l)
    (hold : w.AccessWithin) : w'.AccessWithin := by
  intro i a v p hrec
  cases hmoves with
  | @mem action m' hcall hplain hadvance hk hspaces htable _ hcreds =>
    have hrec : m'.Records i a v p := by
      rcases hrec with ⟨ms, hms, hrest⟩
      exact ⟨ms, hspaces ▸ hms, hrest⟩
    rw [htable]
    intro segment hsegment hp
    unfold KeepsAccess at hok
    rw [hcall] at hok
    have hother : ∀ i₀ a₀ v₀, w.machine.Records i₀ a₀ v₀ p → w'.creds i₀ = w.creds i₀ := by
      rintro i₀ a₀ v₀ ⟨ms, hms, -⟩
      rw [hcreds]
      exact Function.update_of_ne (Nat.ne_of_lt (List.getElem?_eq_some_iff.mp hms).1) _ _
    cases permOrigin_of_advance h hadvance hrec hsegment hp with
    | @old a₀ i₀ v₀ hrec₀ hperm hspace =>
      rw [hperm]
      rcases hspace with rfl | ⟨-, rfl, rfl⟩
      · rw [hother i a₀ v₀ hrec₀]
        exact hold i a₀ v₀ p hrec₀ segment hsegment hp
      · rw [hcreds, Function.update_self]
        exact hold l.sid a₀ v₀ p hrec₀ segment hsegment hp
    | @protect a₀ v₀ r perm haction hi hrec₀ hv hperm =>
      have haction : action = .op (.mprotect r perm) := haction
      rw [haction] at hok
      have hi : i = l.sid := hi
      rw [hi, hother l.sid a₀ v₀ hrec₀, hperm]
      exact hok a₀ v₀ p hrec₀ hv.1 hv.2 segment hsegment hp
    | attach haction => exact absurd haction (hplain _ _ _)
  | @attach attached addr shmid shmaddr shmflg attachId m' hcall hget hallowed hadvance hk hspaces _
      hcreds htable =>
    have hrec : m'.Records i a v p := by
      rcases hrec with ⟨ms, hms, hrest⟩
      exact ⟨ms, hspaces ▸ hms, hrest⟩
    refine grants_of_derived htable fun segment hsegment hp ↦ ?_
    rw [hcreds]
    unfold KeepsAccess at hok
    rw [hcall] at hok
    cases permOrigin_of_advance h hadvance hrec hsegment hp with
    | @old a₀ i₀ v₀ hrec₀ hperm hspace =>
      rw [hperm]
      rcases hspace with rfl | ⟨haction, -⟩
      · exact hold i a₀ v₀ p hrec₀ segment hsegment hp
      · simp [ShmLabel.label] at haction
    | protect haction => simp [ShmLabel.label] at haction
    | @attach req attachId' frames haction hi hmem hperm =>
      simp only [ShmLabel.label, Action.op.injEq, Op.mmap.injEq, MapSource.segment.injEq] at haction
      rcases haction with ⟨rfl, -, rfl⟩
      have hsame := h.disjoint segment hsegment attached (ShmTable.mem_of_get hget).1 p hp hmem
      have hi : i = l.sid := hi
      rw [hsame, hperm, hi]
      intro hroot
      refine ⟨fun hwrite ↦ ?_, fun hexecute ↦ ?_⟩
      · exact testBit_of_shmAccessAllowed hallowed hroot (by simpa [attachRequest] using hwrite)
      · exact (hok hexecute attached hget hroot).2 rfl
  | create hcreates =>
    have hrec₀ : w.machine.Records i a v p := by
      rcases hrec with ⟨ms, hms, hrest⟩
      have hms : w'.spaces[i]? = some ms := hms
      rw [hcreates.spaces] at hms
      exact ⟨ms, hms, hrest⟩
    intro segment hsegment hp
    rw [hcreates.creds]
    rw [hcreates.table, List.mem_append, List.mem_singleton] at hsegment
    rcases hsegment with hsegment | rfl
    · exact hold i a v p hrec₀ segment hsegment hp
    · rcases (hcreates.fresh p hp).2 with ⟨j, hj⟩
      exact absurd hj (h.inv.not_supply hrec₀ j)
  | shrink _ _ hspaces hcreds htable =>
    rcases hrec with ⟨ms', hms', ha, hframe⟩
    rcases hspaces i ms' hms' with hempty | ⟨ms, hms, hsub⟩
    · rw [hempty] at ha
      cases ha
    · rw [hcreds i (List.getElem?_eq_some_iff.mp hms).1]
      exact grants_of_derived htable (hold i a v p ⟨ms, hms, hsub a ha, hframe⟩)

theorem Init.accessWithin (h : w.Init) : w.AccessWithin := by
  intro i a v p _ segment hsegment
  rw [h.table] at hsegment
  exact nomatch hsegment

/-- In every run in which no step asks for access to a segment that its mode does not grant: an area of
a task other than root that maps a frame of a segment is writable only if the mode bits of the task's
class grant write, and executable only if they grant execute. -/
theorem access_within_of_run (hrun : Run Init KeepsAccess Step w) {i : Nat} {ms : MemorySet}
    {a : MapArea} {v p : Nat} {segment : ShmSegment} (hms : w.spaces[i]? = some ms)
    (ha : a ∈ ms.areas) (hframe : a.dataFrames[v]? = some p) (hsegment : segment ∈ w.table.segments)
    (hp : p ∈ segment.frames) (hroot : (w.creds i).euid ≠ 0) :
    (a.mapPerm.write = true → (segment.available (w.creds i)).testBit 1 = true) ∧
      (a.mapPerm.execute = true → (segment.available (w.creds i)).testBit 0 = true) := by
  have hwithin : w.AccessWithin := by
    refine hrun.invariant_of_auxiliary (fun _ hrun ↦ shmInv_of_run hrun)
      (fun _ hinit ↦ hinit.accessWithin) fun w l w' hinv hold hok hstep ↦ ?_
    rcases Step.moves hinv hstep with ⟨hsettled, hmoves⟩
    exact hmoves.accessWithin hsettled hok hold
  exact hwithin i a v p ⟨ms, hms, ha, hframe⟩ segment hsegment hp hroot

def createReadOnly : ShmLabel := { sid := 0, call := .shmget IPC_PRIVATE 0x1000 0o444 }

/-- The owner of a segment with mode 444 attaches it read-only and makes the page writable, and attaches
it once more, executable. -/
theorem access_exceeded : ∃ w, Run Init (fun _ _ ↦ True) Step w ∧ (w.creds 0).euid = 1000 ∧
      ∃ ms segment, w.spaces[0]? = some ms ∧ segment ∈ w.table.segments ∧ segment.mode = 0o444 ∧
        (∃ a ∈ ms.areas, ∃ v p : Nat, a.dataFrames[v]? = some p ∧ p ∈ segment.frames ∧
          a.mapPerm.write = true ∧ (segment.available (w.creds 0)).testBit 1 = false) ∧
        ∃ a ∈ ms.areas, ∃ v p : Nat, a.dataFrames[v]? = some p ∧ p ∈ segment.frames ∧
          a.mapPerm.execute = true ∧ (segment.available (w.creds 0)).testBit 0 = false := by
  have hsupply : ∀ l ∈ [createReadOnly, { sid := 0, call := .shmat 1 0x2000000000 SHM_RDONLY },
      { sid := 0, call := .mem (.op (.mprotect ⟨⟨0x2000000, 0x2000001⟩, by decide⟩
        { read := true, write := true })) },
      { sid := 0, call := .shmat 1 0x2000010000 (SHM_RDONLY ||| SHM_EXEC) }], l.supply = none := by
    simp [createReadOnly]
  obtain ⟨w, hrun, huid, ms, hms, segment, hsegment, hmode, ⟨a, ha, hold, hwrite⟩, b, hb, hold',
      hexecute⟩ : ∃ w, Run Init (fun _ _ ↦ True) Step w ∧ (w.creds 0).euid = 1000 ∧
      ∃ ms, w.spaces[0]? = some ms ∧ ∃ segment ∈ w.table.segments, segment.mode = 0o444 ∧
        (∃ a ∈ ms.areas, holdsFrame a segment.frames = true ∧ a.mapPerm.write = true ∧
          (segment.available (w.creds 0)).testBit 1 = false) ∧
        ∃ a ∈ ms.areas, holdsFrame a segment.frames = true ∧ a.mapPerm.execute = true ∧
          (segment.available (w.creds 0)).testBit 0 = false := by
    refine exists_of_labels init_oneTask hsupply (fun _ _ _ ↦ trivial) ?_
    decide +kernel
  rcases holdsFrame_iff.mp hold with ⟨v, p, hrec, hp⟩
  rcases holdsFrame_iff.mp hold' with ⟨v', p', hrec', hp'⟩
  exact ⟨w, hrun, huid, ms, segment, hms, hsegment, hmode, ⟨a, ha, v, p, hrec, hp, hwrite⟩, b, hb, v', p',
    hrec', hp', hexecute⟩

/-- Attached read-only and protected once more as it is, the page stays read-only. -/
theorem access_within_read_only :
    ∃ w, Run Init KeepsAccess Step w ∧ ∃ ms a, ∃ v p : Nat, ∃ segment, w.spaces[0]? = some ms ∧
      a ∈ ms.areas ∧ a.dataFrames[v]? = some p ∧ segment ∈ w.table.segments ∧ p ∈ segment.frames ∧
      (w.creds 0).euid ≠ 0 ∧
      ((a.mapPerm.write = true → (segment.available (w.creds 0)).testBit 1 = true) ∧
        (a.mapPerm.execute = true → (segment.available (w.creds 0)).testBit 0 = true)) := by
  have hsupply : ∀ l ∈ [createReadOnly, { sid := 0, call := .shmat 1 0x2000000000 SHM_RDONLY },
      { sid := 0, call := .mem (.op (.mprotect ⟨⟨0x2000000, 0x2000001⟩, by decide⟩
        { read := true })) }], l.supply = none := by
    simp [createReadOnly]
  obtain ⟨w, hrun, huid, ms, hms, segment, hsegment, a, ha, hold⟩ :
      ∃ w, Run Init KeepsAccess Step w ∧ (w.creds 0).euid ≠ 0 ∧ ∃ ms, w.spaces[0]? = some ms ∧
        ∃ segment ∈ w.table.segments, ∃ a ∈ ms.areas, holdsFrame a segment.frames = true := by
    refine exists_of_labels init_oneTask hsupply (fun l hl w ↦ ?_) ?_
    · simp only [createReadOnly, List.mem_cons, List.not_mem_nil, or_false] at hl
      rcases hl with rfl | rfl | rfl
      · trivial
      · intro hexec
        exact absurd hexec (by decide)
      · intro a v p _ _ _ segment _ _ _
        exact ⟨by simp, by simp⟩
    · decide +kernel
  rcases holdsFrame_iff.mp hold with ⟨v, p, hrec, hp⟩
  exact ⟨w, hrun, ms, a, v, p, segment, hms, ha, hrec, hsegment, hp, huid,
    access_within_of_run hrun hms ha hrec hsegment hp huid⟩

end ShmWorld

end RespOS.Ipc
