import RespOS.Basis.Runs
import RespOS.Mm.Address

/-!
# Kernel stacks (`task/kstack.rs`)

The stack of a task lies in a slot. `KernelStack::new` takes the slot before it maps the stack, under
another lock; the slot is given back when that fails, or when the stack is dropped, and is then used again.
`slots_of_run` says that no two stacks meet, whatever other tasks come and go in between.
-/

namespace RespOS.Task

open RespOS.Basis RespOS.Mm

/-- `KernelStackAllocator`; `recycled` starts with the slot that was freed last. -/
structure KernelStackAllocator where
  current : Nat := 0
  recycled : List Nat := []

namespace KernelStackAllocator

def alloc (a : KernelStackAllocator) : Nat × KernelStackAllocator :=
  match a.recycled with
  | slot :: recycled => (slot, { a with recycled })
  | [] => (a.current, { a with current := a.current + 1 })

/-- `dealloc`, which fails its assertion on a slot that is free. -/
def dealloc (a : KernelStackAllocator) (slot : Nat) : Option KernelStackAllocator :=
  if slot ∈ a.recycled then none else some { a with recycled := slot :: a.recycled }

end KernelStackAllocator

def kernelStackTop : Nat := 0xfffffffffffff000

def kernelStackSize : Nat := pageSize * 2 ^ 4 - pageSize

def kernelStackTopEdge (slot : Nat) : Nat := kernelStackTop - slot * (kernelStackSize + pageSize)

/-- The slots of the stacks and of the calls of `new`, and the most that there were at once. -/
structure KernelStacks where
  allocator : KernelStackAllocator := {}
  held : List Nat := []
  peak : Nat := 0

inductive StackAction
  | alloc
  /-- `new` fails to map the stack, or the stack is dropped. -/
  | dealloc (slot : Nat)

namespace KernelStacks

def next (s : KernelStacks) : StackAction → Option KernelStacks
  | .alloc =>
    let (slot, allocator) := s.allocator.alloc
    some ⟨allocator, slot :: s.held, max s.peak (s.held.length + 1)⟩
  | .dealloc slot =>
    if slot ∈ s.held then
      (s.allocator.dealloc slot).map fun allocator ↦ { s with allocator, held := s.held.erase slot }
    else none

def Step (s : KernelStacks) (a : StackAction) (s' : KernelStacks) : Prop := s.next a = some s'

def Init (s : KernelStacks) : Prop := s = {}

/-- The slots that were made are those held and those recycled. -/
structure Inv (s : KernelStacks) : Prop where
  perm : (s.held ++ s.allocator.recycled).Perm (List.range s.allocator.current)
  peak : s.allocator.current = s.peak

theorem Inv.alloc {s s' : KernelStacks} (h : Inv s) (hstep : s.Step .alloc s') : Inv s' := by
  obtain ⟨hperm, hpeak⟩ := h
  have hlen := hperm.length_eq
  obtain rfl := Option.some.inj hstep
  split
  · rename_i slot recycled hfree
    rw [hfree] at hperm hlen
    exact ⟨List.perm_middle.symm.trans hperm, by grind⟩
  · rename_i hfree
    -- nothing is recycled, so all slots are held
    rw [hfree, List.append_nil] at hperm hlen
    refine ⟨?_, by grind⟩
    rw [hfree, List.append_nil, List.range_succ]
    exact (hperm.cons _).trans (List.perm_append_singleton ..).symm

theorem Inv.dealloc {s s' : KernelStacks} {slot : Nat} (h : Inv s) (hstep : s.Step (.dealloc slot) s') :
    Inv s' := by
  simp only [Step, next] at hstep
  split_ifs at hstep with hheld
  obtain ⟨allocator, hfree, rfl⟩ := Option.map_eq_some_iff.mp hstep
  unfold KernelStackAllocator.dealloc at hfree
  split_ifs at hfree
  obtain rfl := Option.some.inj hfree
  exact ⟨(List.perm_middle.trans ((List.perm_cons_erase hheld).symm.append_right _)).trans h.perm, h.peak⟩

/-- In every run, a slot is held once, and its holder can give it back; slots are numbered below the most
that were held at once; and while that many fit, a page lies between any two stacks. -/
theorem slots_of_run {s : KernelStacks} (hrun : Run Init (fun _ _ ↦ True) Step s) :
    s.held.Nodup ∧ ∀ slot ∈ s.held, (s.allocator.dealloc slot).isSome ∧ slot < s.peak ∧
      (s.peak * (kernelStackSize + pageSize) ≤ kernelStackTop → ∀ other ∈ s.held, slot < other →
        kernelStackTopEdge other + pageSize ≤ kernelStackTopEdge slot - kernelStackSize) := by
  have hinv : Inv s := by
    refine hrun.invariant (by rintro _ rfl; exact ⟨.refl _, rfl⟩) fun s a s' h _ hstep ↦ ?_
    cases a with
    | alloc => exact h.alloc hstep
    | dealloc slot => exact h.dealloc hstep
  have hnodup := hinv.perm.nodup_iff.mpr List.nodup_range
  have hlt {slot : Nat} (hslot : slot ∈ s.held) : slot < s.peak :=
    hinv.peak ▸ List.mem_range.mp (hinv.perm.mem_iff.mp (List.mem_append_left _ hslot))
  refine ⟨hnodup.of_append_left, fun slot hslot ↦ ⟨?_, hlt hslot, fun hfits other hother hless ↦ ?_⟩⟩
  · rw [KernelStackAllocator.dealloc, if_neg (List.disjoint_of_nodup_append hnodup hslot)]
    rfl
  · have := hlt hother
    unfold kernelStackTopEdge kernelStackSize pageSize at *
    omega

/-- A slot is used again while another one is held. -/
theorem slots_after_reuse : ∃ s, Run Init (fun _ _ ↦ True) Step s ∧ s.held = [0, 1] ∧ s.peak = 2 ∧
    kernelStackTopEdge 1 + pageSize ≤ kernelStackTopEdge 0 - kernelStackSize := by
  obtain ⟨s, hrun, hheld, hpeak⟩ :
      ∃ s, Run Init (fun _ _ ↦ True) Step s ∧ s.held = [0, 1] ∧ s.peak = 2 :=
    Run.exists_of_runWhile (s := ({} : KernelStacks)) rfl [.alloc, .alloc, .dealloc 0, .alloc] (by decide)
  have hslots := (slots_of_run hrun).2 0 (by simp [hheld])
  exact ⟨s, hrun, hheld, hpeak, hslots.2.2 (by rw [hpeak]; decide) 1 (by simp [hheld]) Nat.zero_lt_one⟩

end KernelStacks

end RespOS.Task
