import Mathlib

/-!
# Chains of parents

The nodes of a forest are numbered, and each knows its parent. `Climbs parent n d` says that `n` steps lead
from the node `d` to one without a parent. A function that recurses over the parents of a node is given as
many steps as there are nodes: `Climbs.lt_of_bounded` says that these are enough wherever the recursion
ends at all, because the nodes on a chain that ends have different heights.
-/

namespace RespOS.Basis

/-- The chain of parents from `d` ends after `n` steps. -/
inductive Climbs (parent : Nat → Option Nat) : Nat → Nat → Prop
  | top {d : Nat} (hd : parent d = none) : Climbs parent 0 d
  | up {n d p : Nat} (hd : parent d = some p) (hp : Climbs parent n p) : Climbs parent (n + 1) d

namespace Climbs

variable {parent : Nat → Option Nat} {n m d bound : Nat}

theorem unique (h : Climbs parent n d) (h' : Climbs parent m d) : n = m := by
  induction h generalizing m with
  | top hd =>
    cases h' with
    | top => rfl
    | up hd' => simp [hd] at hd'
  | up hd _ ih =>
    cases h' with
    | top hd' => simp [hd] at hd'
    | up hd' hp' =>
      obtain rfl := Option.some.inj (hd.symm.trans hd')
      rw [ih hp']

variable (hparent : ∀ d p, parent d = some p → p < bound) (hd : d < bound) (h : Climbs parent n d)
include hparent hd h

/-- A chain of height `n` has a node of every smaller height. -/
theorem exists_of_le (hm : m ≤ n) : ∃ e, e < bound ∧ Climbs parent m e := by
  induction h with
  | @top d hd' =>
    obtain rfl : m = 0 := by omega
    exact ⟨d, hd, .top hd'⟩
  | @up n d p hd' hp ih =>
    by_cases heq : m = n + 1
    · exact ⟨d, hd, heq ▸ .up hd' hp⟩
    · exact ih (hparent d p hd') (by omega)

/-- A chain that ends is shorter than the number of nodes. -/
theorem lt_of_bounded : n < bound := by
  have hex : ∀ i : Fin (n + 1), ∃ e, e < bound ∧ Climbs parent i e :=
    fun i ↦ h.exists_of_le hparent hd (Nat.lt_succ_iff.mp i.isLt)
  choose node hlt hnode using hex
  have hinj : Function.Injective fun i ↦ (⟨node i, hlt i⟩ : Fin bound) := by
    intro i j hij
    have hnodes : node i = node j := congrArg Fin.val hij
    exact Fin.ext ((hnode i).unique (hnodes ▸ hnode j))
  have hcard := Fintype.card_le_of_injective _ hinj
  rwa [Fintype.card_fin, Fintype.card_fin] at hcard

end Climbs

end RespOS.Basis
