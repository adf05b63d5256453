import Mathlib

/-!
# Counting the elements of a list that changes in one place

How often a predicate holds in a list after one element is replaced or removed. The equations are
stated with the two counts on both sides, so that no subtraction occurs.
-/

namespace RespOS.Basis

section Counting

variable {α : Type*} {l : List α} {i : Nat} {a b : α}

variable (p : α → Bool) (h : l[i]? = some a)
include h

theorem countP_set_add :
    (l.set i b).countP p + (if p a then 1 else 0) = l.countP p + (if p b then 1 else 0) := by
  obtain ⟨hlt, rfl⟩ := List.getElem?_eq_some_iff.mp h
  rw [(List.set_perm_cons_eraseIdx hlt b).countP_eq p,
    ← (List.getElem_cons_eraseIdx_perm hlt).countP_eq p, List.countP_cons, List.countP_cons]
  omega

theorem countP_eraseIdx_add : (l.eraseIdx i).countP p + (if p a then 1 else 0) = l.countP p := by
  obtain ⟨hlt, rfl⟩ := List.getElem?_eq_some_iff.mp h
  rw [← (List.getElem_cons_eraseIdx_perm hlt).countP_eq p, List.countP_cons]

end Counting

end RespOS.Basis
