import RespOS.Mm.ForkSpec

/-!
# The system of address spaces

`Machine` is the kernel state together with every address space and the System V segments. A step
picks an address space and runs one operation in it, forks it, stores a byte through its page table as
a user program does, or creates a segment. The label of a step also carries the errors of the file
system, the allocations that fail and, where frames have been freed, the frames the allocator hands
out from here on; these may be any frames that nobody owns. A frame that one operation frees is not
handed out again before that operation ends.

`SHARED_FILE_PAGES` holds weak references: before each step the entries whose frame no address space
records are dropped (`settle`).

`Inv` holds in every reachable state (`inv_of_reachable`). `Origin` says where every recorded page of
the state after a step comes from; the results about whole runs are proved from it, case by case.
-/

namespace RespOS.Mm

open RespOS.Basis RespOS.Fs PTEFlags MapArea

/-- The kernel, its address spaces, and the frames of the System V segments. -/
structure Machine where
  k : Kernel
  spaces : List MemorySet
  segments : List (List Nat) := []

inductive Action
  | op (op : Op)
  | fork
  | store (vpn offset : Nat) (byte : UInt8)
  | shmget (pages : Nat)

/-- One step: the address space, what happens, and what the rest of the system contributes. -/
structure Label where
  sid : Nat
  action : Action
  io : IoEnv := {}
  allocFails : List Bool := []
  supply : Option (Nat → Nat) := none

namespace Machine

/-- The number of pages of all address spaces whose recorded frame is `p`. -/
def owners (m : Machine) (p : Nat) : Nat := (m.spaces.map fun ms ↦ ms.count p).sum

/-- The owners of a frame outside one address space and outside the page caches. -/
def others (m : Machine) (sid p : Nat) : Nat :=
  ((m.spaces.eraseIdx sid).map fun ms ↦ ms.count p).sum +
    (m.segments.map fun frames ↦ frames.count p).sum

/-- The state in which a step starts: weak references to frames without owner are dead, and the
allocator has the answers of the label. -/
def settle (m : Machine) (l : Label) : Machine :=
  { m with k :=
    { m.k.setPhys ⟨m.k.phys.mem, l.supply.getD m.k.phys.supply, l.allocFails⟩ with
      sharedFilePages := fun key ↦ (m.k.sharedFilePages key).filter fun p ↦ m.owners p ≠ 0 } }

def allocFrames : Nat → Phys → Option (List Nat) × Phys
  | 0, phys => (some [], phys)
  | n + 1, phys =>
    match phys.frameAlloc with
    | (none, phys) => (none, phys)
    | (some p, phys) =>
      match allocFrames n phys with
      | (none, phys) => (none, phys)
      | (some frames, phys) => (some (p :: frames), phys)

/-- The action of the label in one address space; there is no next state after a panic. -/
def act (m : Machine) (l : Label) (ms : MemorySet) : Option Machine :=
  match l.action with
  | .op op =>
    match (runOp ⟨m.others l.sid, l.io⟩ ⟨ms, m.k⟩ op).state? with
    | none => none
    | some s => some { m with k := s.k, spaces := m.spaces.set l.sid s.ms }
  | .fork =>
    match MemorySet.fromExistedUser ⟨ms, m.k⟩ with
    | .panic => none
    | .err _ s => some { m with k := s.k, spaces := m.spaces.set l.sid s.ms }
    | .ok child s => some { m with k := s.k, spaces := m.spaces.set l.sid s.ms ++ [child] }
  | .store vpn offset byte =>
    let e := ms.pageTable.entry vpn
    -- an access that the page table does not allow is a fault, and no step of its own
    if e.storable then
      some { m with k := m.k.setPhys (m.k.phys.store e.ppn
        (Function.update (m.k.phys.mem e.ppn) offset byte)) }
    else none
  | .shmget pages =>
    match allocFrames pages m.k.phys with
    | (none, phys) => some { m with k := m.k.setPhys phys }
    | (some frames, phys) =>
      some { m with k := m.k.setPhys phys, segments := m.segments ++ [frames] }

def next (m : Machine) (l : Label) : Option Machine :=
  (m.spaces[l.sid]?).bind fun ms ↦ (m.settle l).act l ms

/-- The area `a` of address space `i` records the frame `p` for page `v`. -/
def Records (m : Machine) (i : Nat) (a : MapArea) (v p : Nat) : Prop :=
  ∃ ms, m.spaces[i]? = some ms ∧ a ∈ ms.areas ∧ a.dataFrames[v]? = some p

/-- The entry of page `v` in the page table of address space `i`. -/
def pte (m : Machine) (i v : Nat) : PageTableEntry :=
  match m.spaces[i]? with
  | some ms => ms.pageTable.entry v
  | none => {}

structure Unowned (m : Machine) (p : Nat) : Prop where
  not_recorded : ∀ i a v, ¬ m.Records i a v p
  not_cached : ¬ m.k.caches.Cached p
  not_shared : ∀ key, m.k.sharedFilePages key ≠ some p
  not_segment : ∀ frames ∈ m.segments, p ∉ frames

/-- The allocator hands out frames that nobody owns, each once, and an attached segment exists. -/
structure Admissible (m : Machine) (l : Label) : Prop where
  supply : ∀ f, l.supply = some f → Function.Injective f ∧ ∀ i, (m.settle l).Unowned (f i)
  segment : ∀ req attachId frames, l.action = .op (.mmap req (.segment attachId frames)) →
    frames ∈ m.segments

def Step (m : Machine) (l : Label) (m' : Machine) : Prop := m.Admissible l ∧ m.next l = some m'

/-- The system starts with empty address spaces and no segments. -/
structure Init (m : Machine) : Prop where
  kernel : m.k.WellFormed
  unshared : ∀ key, m.k.sharedFilePages key = none
  spaces : ∀ ms ∈ m.spaces, ms.areas = [] ∧ ∀ v, ms.pageTable.entry v = {}
  segments : m.segments = []

structure Inv (m : Machine) : Prop where
  kernel : m.k.WellFormed
  sound : ∀ ms ∈ m.spaces, ms.Sound m.k
  segments : ∀ frames ∈ m.segments, ∀ p ∈ frames, ∀ i, p ≠ m.k.phys.supply i

end Machine

/-! ### Soundness is kept by every operation -/

section Sound

variable {env : OpEnv} {op : Op} {s s' : MmState} {a' : MapArea} {v p : Nat}

theorem PageOrigin.valid (h : PageOrigin env op s s' a' v p) (hsound : s.ms.Sound s.k) :
    (s'.ms.pageTable.entry v).isValid = true ∧ (s'.ms.pageTable.entry v).ppn = p := by
  cases h with
  | kept ha _ hrec _ hentry =>
    rw [hentry]
    exact hsound.valid _ ha v p hrec
  | protect _ ha _ hrec _ _ _ hentry =>
    have hold := hsound.valid _ ha v p hrec
    rw [hentry]
    split_ifs
    · exact ⟨rfl, hold.2⟩
    · exact hold
  | copied _ _ _ _ _ _ _ _ _ _ _ _ hentry =>
    rw [hentry]
    split_ifs <;> exact ⟨rfl, rfl⟩
  | resolved _ ha _ hrec _ _ _ _ _ hentry | opened _ ha _ hrec _ _ _ hentry =>
    rw [hentry]
    exact ⟨rfl, (hsound.valid _ ha v p hrec).2⟩
  | replaced _ _ _ _ _ _ _ _ _ hentry | filled _ _ _ _ _ _ _ hentry | moved _ _ _ _ _ hentry
  | anonymous _ _ _ hentry | segment _ _ _ hentry | file _ _ _ _ hentry => exact hentry ▸ ⟨rfl, rfl⟩

theorem writable_ofPerm {perm : MapPermission} {ppn : Nat}
    (h : (⟨ppn, (ofPerm perm).mapped⟩ : PageTableEntry).writable = true) :
    perm.write = true ∧ (⟨ppn, (ofPerm perm).mapped⟩ : PageTableEntry).readable = true := by
  have hwrite : perm.write = true := h
  refine ⟨hwrite, ?_⟩
  simp [PageTableEntry.readable, mapped, ofPerm, hwrite]

theorem write_of_writable_protectFlags {perm : MapPermission} {ppn : Nat} {e : PageTableEntry}
    (h : (⟨ppn, protectFlags perm e⟩ : PageTableEntry).writable = true) :
    perm.write = true ∧ e.isCow = false ∧ protectFlags perm e = (ofPerm perm).mapped := by
  unfold protectFlags at h ⊢
  cases hcow : e.isCow with
  | true => simp [hcow, PageTableEntry.writable, mapped] at h
  | false =>
    rw [hcow] at h
    exact ⟨h, rfl, rfl⟩

theorem pageFlags_of_writable {a : MapArea} {ppn : Nat} {cow : Bool}
    (h : (⟨ppn, a.pageFlags cow⟩ : PageTableEntry).writable = true) :
    a.pageFlags cow = (ofPerm a.mapPerm).mapped := by
  unfold pageFlags installFlags at h ⊢
  split_ifs at h ⊢ with hif
  · simp [PageTableEntry.writable, mapped, removeWrite] at h
  obtain rfl : cow = false := by
    simp only [Bool.or_eq_true, not_or, Bool.not_eq_true] at hif
    exact hif.1
  rfl

variable (hsound : s.ms.Sound s.k)
include hsound

theorem PageOrigin.writable (h : PageOrigin env op s s' a' v p)
    (hwritable : (s'.ms.pageTable.entry v).writable = true) :
    a'.mapPerm.write = true ∧ (s'.ms.pageTable.entry v).readable = true := by
  cases h with rw [hentry] at hwritable ⊢
  | kept ha _ hrec hperm hentry =>
    rw [hperm]
    exact hsound.writable _ ha v p hrec hwritable
  | protect _ ha _ hrec _ hperm _ hentry =>
    rw [hperm]
    split_ifs at hwritable ⊢ with hvisible
    · obtain ⟨hwrite, -, hflags⟩ := write_of_writable_protectFlags hwritable
      rw [hflags] at hwritable ⊢
      refine ⟨?_, (writable_ofPerm hwritable).2⟩
      unfold residentPerm at hwrite
      split_ifs at hwrite
      exact hwrite
    · -- an entry that the walk does not see is not readable, and so not writable
      have hold := (hsound.valid _ ha v p hrec).1
      have hread := (hsound.writable _ ha v p hrec hwritable).2
      simp [PageTableEntry.visible, hold, hread] at hvisible
  | copied _ _ _ _ _ hperm _ _ hread _ _ _ hentry =>
    rw [hperm]
    split_ifs at hwritable ⊢
    · exact writable_ofPerm hwritable
    · rw [(writable_ofPerm hwritable).1] at hread
      simp at hread
  | resolved _ _ _ _ hperm _ _ _ _ hentry | replaced _ _ _ _ hperm _ _ _ _ hentry
  | opened _ _ _ _ hperm _ _ hentry | moved _ _ _ _ hperm hentry =>
    rw [hperm]
    exact writable_ofPerm hwritable
  | filled _ _ _ _ _ _ _ hentry =>
    have hflags := pageFlags_of_writable hwritable
    rw [hflags] at hwritable ⊢
    exact writable_ofPerm hwritable
  | anonymous _ hby _ hentry | segment _ hby _ hentry =>
    rw [hby.mapPerm]
    exact writable_ofPerm hwritable
  | file _ _ _ _ hentry =>
    simp [PageTableEntry.writable, mapped, removeWrite] at hwritable

theorem PageOrigin.owned (h : PageOrigin env op s s' a' v p)
    (hseg : op.SegmentOwned s.k) (hobt : s.k.Obtains (s.ms.pins env.others) s'.k) :
    ∀ i, p ≠ s'.k.phys.supply i := by
  have hold : ∀ a ∈ s.ms.areas, ∀ w : Nat, a.dataFrames[w]? = some p →
      ∀ i, p ≠ s'.k.phys.supply i := fun a ha w hrec ↦ hobt.not_supply (hsound.owned a ha w p hrec)
  cases h with
  | kept ha _ hrec | protect _ ha _ hrec | resolved _ ha _ hrec | opened _ ha _ hrec =>
    exact hold _ ha v hrec
  | copied _ _ _ _ _ _ _ _ _ _ hfresh | replaced _ _ _ _ _ _ _ hfresh | anonymous _ _ hfresh =>
    exact hfresh.1.not_supply
  | filled _ _ _ _ _ hframe =>
    cases huses : a'.usesFile ((v - a'.start) * pageSize) with
    | true =>
      obtain ⟨b, -, -, hbacks⟩ := hframe.file huses
      exact hbacks.not_supply hobt.1
    | false => exact (hframe.own huses).1.not_supply
  | moved _ ha _ hrec => exact hold _ ha _ hrec
  | segment hop _ hmem =>
    subst hop
    exact hobt.not_supply (hseg p hmem)
  | file _ _ _ hbacks => exact hbacks.not_supply hobt.1

theorem Effect.sound (h : Effect env op s s')
    (hseg : op.SegmentOwned s.k) (hgeo : Geometry s'.ms.areas) : s'.ms.Sound s'.k where
  geometry := hgeo
  framed a' ha' := by
    cases h.area a' ha' with
    | old ha hsame => rw [hsame.mapType, hsound.framed _ ha]
    | mmap _ hby => exact hby.mapType
    | heap _ hframed => exact hframed
  valid a' ha' v p hrec := (h.page a' ha' v p hrec).valid hsound
  writable a' ha' v p hrec := (h.page a' ha' v p hrec).writable hsound
  owned a' ha' v p hrec := (h.page a' ha' v p hrec).owned hsound hseg h.obtains

end Sound

end RespOS.Mm
