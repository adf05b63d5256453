import Mathlib

/-!
# Ordered lists of disjoint intervals

Each element `a` of a list stands for the half-open interval `[lo a, hi a)`. A list is ordered when
every interval ends before the ones behind it start; for non-empty intervals this is the same as
being sorted by `lo` and pairwise disjoint (`ordered_iff`). The lemmas cover what a program does to
such a list: putting others in the place of one interval (`Ordered.splice`), and adding a disjoint
one and sorting (`ordered_insertionSort_append`).
-/

namespace RespOS.Basis

open List

section Intervals

variable {α : Type*} {lo hi : α → Nat}

/-- Every interval of the list ends at or before the start of the later ones. -/
def Ordered (lo hi : α → Nat) (l : List α) : Prop := l.Pairwise fun a b ↦ hi a ≤ lo b

/-- Two intervals have no point in common. -/
def Apart (lo hi : α → Nat) (a b : α) : Prop := hi a ≤ lo b ∨ hi b ≤ lo a

variable {a x : α} {l : List α}

theorem Apart.symm {b : α} (h : Apart lo hi a b) : Apart lo hi b a := Or.symm h

theorem mem_append_cons_iff {l₁ l₂ : List α} : x ∈ l₁ ++ a :: l₂ ↔ x = a ∨ x ∈ l₁ ++ l₂ :=
  perm_middle.mem_iff.trans mem_cons

theorem mem_splice_iff {l₁ m l₂ : List α} : x ∈ l₁ ++ m ++ l₂ ↔ x ∈ m ∨ x ∈ l₁ ++ l₂ := by
  simp only [mem_append]
  tauto

/-- A list around one of its positions. -/
theorem exists_split {i : Nat} (h : l[i]? = some a) :
    ∃ l₁ l₂, l = l₁ ++ a :: l₂ ∧ l₁.length = i ∧ ∀ b, l.set i b = l₁ ++ b :: l₂ := by
  obtain ⟨hlt, rfl⟩ := List.getElem?_eq_some_iff.mp h
  refine ⟨l.take i, l.drop (i + 1), ?_, ?_, fun b ↦ ?_⟩
  · rw [List.getElem_cons_drop, List.take_append_drop]
  · exact length_take_of_le hlt.le
  · rw [set_eq_take_append_cons_drop, if_pos hlt]

section Splice

variable {l₁ m l₂ : List α} {a b : α} (h : Ordered lo hi (l₁ ++ a :: l₂))

include h

theorem Ordered.before (hb : b ∈ l₁) : hi b ≤ lo a :=
  (pairwise_append.mp h).2.2 b hb a mem_cons_self

theorem Ordered.behind (hb : b ∈ l₂) : hi a ≤ lo b :=
  (pairwise_cons.mp (pairwise_append.mp h).2.1).1 b hb

/-- Intervals between its neighbours take the place of one interval in the list. -/
theorem Ordered.splice (hm : Ordered lo hi m) (hleft : ∀ b ∈ l₁, ∀ x ∈ m, hi b ≤ lo x)
    (hright : ∀ x ∈ m, ∀ b ∈ l₂, hi x ≤ lo b) : Ordered lo hi (l₁ ++ m ++ l₂) := by
  obtain ⟨h₁, h₂, hcross⟩ := pairwise_append.mp h
  rw [Ordered, append_assoc]
  refine pairwise_append.mpr ⟨h₁, pairwise_append.mpr
    ⟨hm, (pairwise_cons.mp h₂).2, hright⟩, fun b hb x hx ↦ ?_⟩
  rcases mem_append.mp hx with hx | hx
  · exact hleft b hb x hx
  · exact hcross b hb x (mem_cons_of_mem a hx)

end Splice

theorem Ordered.pairwise_apart (h : Ordered lo hi l) : l.Pairwise (Apart lo hi) :=
  h.imp fun hab ↦ Or.inl hab

/-- Two positions of an ordered list that hold the same point are the same position. -/
theorem Ordered.eq_of_mem (h : Ordered lo hi l) {b : α} (ha : a ∈ l) (hb : b ∈ l) {x : Nat}
    (hxa : lo a ≤ x ∧ x < hi a) (hxb : lo b ≤ x ∧ x < hi b) : a = b := by
  by_contra hne
  have : Std.Symm (Apart lo hi) := ⟨fun _ _ hab ↦ hab.symm⟩
  have hapart : Apart lo hi a b := h.pairwise_apart.forall ha hb hne
  rcases hapart with hab | hab <;> omega

/-- For non-empty intervals, ordered means sorted by start and pairwise disjoint. -/
theorem ordered_iff (hne : ∀ a ∈ l, lo a < hi a) :
    Ordered lo hi l ↔ l.Pairwise (fun a b ↦ lo a ≤ lo b) ∧ l.Pairwise (Apart lo hi) := by
  constructor
  · intro h
    refine ⟨?_, h.pairwise_apart⟩
    refine List.Pairwise.imp_of_mem ?_ h
    intro a b ha _ hab
    exact (hne a ha).le.trans hab
  · rintro ⟨hsorted, hapart⟩
    have hboth := hsorted.and hapart
    refine List.Pairwise.imp_of_mem ?_ hboth
    rintro a b ha hb ⟨hle, hab | hab⟩
    · exact hab
    · have := hne b hb
      omega

/-- Adding an interval apart from all others and sorting by start gives an ordered list again. -/
theorem ordered_insertionSort_append (h : Ordered lo hi l) (hne : ∀ a ∈ l, lo a < hi a)
    (hx : lo x < hi x) (hapart : ∀ a ∈ l, Apart lo hi a x) :
    Ordered lo hi ((l ++ [x]).insertionSort fun a b ↦ lo a ≤ lo b) := by
  have hperm : ((l ++ [x]).insertionSort fun a b ↦ lo a ≤ lo b).Perm (l ++ [x]) :=
    perm_insertionSort _ _
  have hall : ∀ a ∈ (l ++ [x]).insertionSort fun a b ↦ lo a ≤ lo b, lo a < hi a := by
    intro a ha
    rcases mem_append.mp (hperm.mem_iff.mp ha) with ha | ha
    · exact hne a ha
    · rw [mem_singleton.mp ha]
      exact hx
  have hpair : (l ++ [x]).Pairwise (Apart lo hi) := by
    refine pairwise_append.mpr ⟨h.pairwise_apart, pairwise_singleton _ _, ?_⟩
    intro a ha b hb
    rw [mem_singleton.mp hb]
    exact hapart a ha
  refine (ordered_iff hall).mpr ⟨?_, ?_⟩
  · have : Std.Total fun a b : α ↦ lo a ≤ lo b := ⟨fun a b ↦ Nat.le_total _ _⟩
    have : IsTrans α fun a b ↦ lo a ≤ lo b := ⟨fun a b c ↦ Nat.le_trans⟩
    exact pairwise_insertionSort _ _
  · exact hperm.symm.pairwise hpair fun hab ↦ hab.symm

end Intervals

end RespOS.Basis
