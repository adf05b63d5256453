import RespOS.Base

/-!
# Physical frames

Physical memory is a map from frame numbers to page contents. The allocator is reduced to what its
clients can observe: a call to `frame_alloc` may fail, and when it succeeds it hands out a frame that
nobody owns, cleared to zero. `Phys.supply` lists the frame numbers the allocator will hand out, in
order, and `Phys.allocFails` says for each of the next calls whether it fails; a physical memory of
any finite size is one such list of failures. The bookkeeping of `StackFrameAllocator` itself is not
modelled in this module.

`Phys.Consumes` relates the memory before and after any sequence of allocations and of stores into
the frames so allocated: the supply moves on and every frame that was not handed out keeps its
bytes.
-/

namespace RespOS.Mm

abbrev PageBytes := Nat → UInt8

/-- Physical memory together with the allocator's future answers. -/
structure Phys where
  /-- The bytes of each frame. -/
  mem : Nat → PageBytes
  /-- The frame numbers that will be handed out, in order. -/
  supply : Nat → Nat
  /-- For each of the next calls whether it fails; calls beyond the list succeed. -/
  allocFails : List Bool

namespace Phys

/-- Hands out the next frame, cleared by `FrameTracker::new`. -/
def take (phys : Phys) : Nat × Phys :=
  (phys.supply 0,
    { phys with
      mem := Function.update phys.mem (phys.supply 0) fun _ ↦ 0
      supply := fun i ↦ phys.supply (i + 1) })

/-- `frame_alloc`: either no frame, or the next one. -/
def frameAlloc (phys : Phys) : Option Nat × Phys :=
  match phys.allocFails with
  | true :: rest => (none, { phys with allocFails := rest })
  | fails =>
    let (ppn, phys) := phys.take
    (some ppn, { phys with allocFails := fails.tail })

/-- Overwrites a whole frame, as `copy_from_slice` on its bytes does. -/
def store (phys : Phys) (ppn : Nat) (bytes : PageBytes) : Phys :=
  { phys with mem := Function.update phys.mem ppn bytes }

/-- `phys'` comes from `phys` by handing out the next `n` frames and storing into these only. -/
def ConsumesN (phys phys' : Phys) (n : Nat) : Prop :=
  (∀ i, phys'.supply i = phys.supply (n + i)) ∧
    ∀ p, (∀ i < n, p ≠ phys.supply i) → phys'.mem p = phys.mem p

/-- `phys'` comes from `phys` by allocations and by stores into the frames allocated. -/
def Consumes (phys phys' : Phys) : Prop := ∃ n, phys.ConsumesN phys' n

theorem Consumes.refl (phys : Phys) : phys.Consumes phys := ⟨0, by simp [ConsumesN]⟩

variable {a b c phys phys' : Phys}

theorem ConsumesN.trans {n m : Nat} (hab : a.ConsumesN b n) (hbc : b.ConsumesN c m) :
    a.ConsumesN c (n + m) := by
  refine ⟨fun i ↦ ?_, fun p hp ↦ ?_⟩
  · rw [hbc.1, hab.1, Nat.add_assoc]
  · have hb : c.mem p = b.mem p := by
      refine hbc.2 p fun i hi ↦ ?_
      rw [hab.1]
      exact hp (n + i) (by omega)
    rw [hb, hab.2 p fun i hi ↦ hp i (by omega)]

theorem Consumes.trans (hab : a.Consumes b) (hbc : b.Consumes c) : a.Consumes c := by
  obtain ⟨n, hab⟩ := hab
  obtain ⟨m, hbc⟩ := hbc
  exact ⟨n + m, hab.trans hbc⟩

theorem frameAlloc_cases (phys : Phys) :
    (∃ rest, phys.frameAlloc = (none, { phys with allocFails := rest })) ∨
      ∃ rest, phys.frameAlloc = (some (phys.supply 0),
        { mem := Function.update phys.mem (phys.supply 0) fun _ ↦ 0
          supply := fun i ↦ phys.supply (i + 1)
          allocFails := rest }) := by
  unfold frameAlloc
  split
  · exact .inl ⟨_, rfl⟩
  · exact .inr ⟨_, rfl⟩

theorem frameAlloc_none (h : phys.frameAlloc = (none, phys')) : phys.ConsumesN phys' 0 := by
  rcases phys.frameAlloc_cases with ⟨rest, hc⟩ | ⟨rest, hc⟩
  · rw [hc] at h
    obtain rfl := (Prod.mk.inj h).2
    exact ⟨fun i ↦ by simp, fun p _ ↦ rfl⟩
  · rw [hc] at h
    exact absurd (Prod.mk.inj h).1 (by simp)

theorem frameAlloc_some {p : Nat} (h : phys.frameAlloc = (some p, phys')) :
    p = phys.supply 0 ∧ phys.ConsumesN phys' 1 ∧ phys'.mem p = fun _ ↦ 0 := by
  rcases phys.frameAlloc_cases with ⟨rest, hc⟩ | ⟨rest, hc⟩
  · rw [hc] at h
    exact absurd (Prod.mk.inj h).1 (by simp)
  rw [hc] at h
  obtain ⟨hp, hphys⟩ := Prod.mk.inj h
  obtain rfl := Option.some.inj hp
  subst hphys
  refine ⟨rfl, ⟨fun i ↦ by simp [Nat.add_comm], fun q hq ↦ ?_⟩, by simp⟩
  exact Function.update_of_ne (hq 0 (by omega)) _ _

theorem ConsumesN.store {n : Nat} (h : phys.ConsumesN phys' n) {i : Nat} (hi : i < n)
    (bytes : PageBytes) : phys.ConsumesN (phys'.store (phys.supply i) bytes) n := by
  refine ⟨h.1, fun p hp ↦ ?_⟩
  exact (Function.update_of_ne (hp i hi) _ _).trans (h.2 p hp)

end Phys

end RespOS.Mm
