import Mathlib

/-!
# Deferred values that are written behind

A value is deferred by storing it as pending under a generation number; a later flush writes it. A
flush reads the pending value, writes it below, and then removes the pending value if its generation is
still the one that was read. Several flushes may be under way, and values may be deferred in between.

`WriteBehind` is one such value with its history: `log` holds the values deferred so far, and
`committed` is the number of the value that the last write wrote. Two conditions make the protocol
safe. A value is never deferred under a generation that a flush under way has read, and a flush does
not begin while another one has still to write an older value. `WriteBehind.Safe` is what then holds:
nothing is removed before it or a later value has been written, and what has been written is the newest
of all written values. `Safe.moves` is the step rule.
-/

namespace RespOS.Basis

open Function (update update_apply)

/-- A flush of one thread. The number says which of the deferred values it has read. -/
inductive Flight (α : Type*)
  | idle
  | read (generation : Nat) (value : α) (number : Nat)
  | wrote (generation : Nat) (number : Nat)
  deriving DecidableEq

/-- A deferred value, what has been written below, and the history. -/
@[ext]
structure WriteBehind (α : Type*) where
  pending : Option (Nat × α)
  lower : α
  log : List α
  committed : Nat
  flight : Nat → Flight α

namespace WriteBehind

variable {α : Type*} {w w' : WriteBehind α}

/-- What a step can do, with the two conditions on deferring and on beginning a flush. -/
inductive Moves (w w' : WriteBehind α) : Prop
  | same (heq : w' = w)
  | defer (generation : Nat) (value : α) (hread : ∀ t x n, w.flight t ≠ .read generation x n)
      (hwrote : ∀ t n, w.flight t ≠ .wrote generation n)
      (heq : w' = { w with pending := some (generation, value), log := w.log ++ [value] })
  | begin (t generation : Nat) (value : α) (hpending : w.pending = some (generation, value))
      (hnewest : ∀ u g x n, w.flight u = .read g x n → n = w.log.length)
      (heq : w' = { w with
        flight := update w.flight t (.read generation value w.log.length) })
  | commit (t generation number : Nat) (value : α)
      (hflight : w.flight t = .read generation value number)
      (heq : w' = { w with
        lower := value, committed := number
        flight := update w.flight t (.wrote generation number) })
  | fail (t : Nat) (heq : w' = { w with flight := update w.flight t .idle })
  | finish (t generation number : Nat) (hflight : w.flight t = .wrote generation number)
      (heq : w' = { w with
        pending := if w.pending.any (·.1 = generation) then none else w.pending
        flight := update w.flight t .idle })

/-- What holds along all moves. -/
structure Safe (w : WriteBehind α) : Prop where
  pending : ∀ g x, w.pending = some (g, x) → w.log.getLast? = some x
  removed : w.pending = none → w.committed = w.log.length
  committed : w.committed ≤ w.log.length
  lower : ∀ n, w.committed = n + 1 → w.log[n]? = some w.lower
  read : ∀ t g x n, w.flight t = .read g x n →
    n ≤ w.log.length ∧ w.committed ≤ n ∧ (∀ k, n = k + 1 → w.log[k]? = some x) ∧ n ≠ 0 ∧
      ∀ y, w.pending = some (g, y) → n = w.log.length
  wrote : ∀ t g n, w.flight t = .wrote g n →
    n ≤ w.committed ∧ ∀ y, w.pending = some (g, y) → n = w.log.length
  equal : ∀ t u g x n g' x' n', w.flight t = .read g x n → w.flight u = .read g' x' n' → n = n'

/-- Nothing is pending or has been written yet. -/
theorem safe_start (lower : α) : Safe ⟨none, lower, [], 0, fun _ ↦ .idle⟩ where
  pending := by simp
  removed _ := rfl
  committed := Nat.le_refl 0
  lower := by simp
  read := by simp
  wrote := by simp
  equal := by simp

theorem flight_update {t u : Nat} {f f' : Flight α} (h : update w.flight t f u = f') :
    f = f' ∨ w.flight u = f' := by
  rw [update_apply] at h
  split_ifs at h
  · exact .inl h
  · exact .inr h

/-- What another flush than the updated one is at. -/
theorem flight_of_update {t u : Nat} {f f' : Flight α} (h : update w.flight t f u = f')
    (hne : f ≠ f') : w.flight u = f' :=
  (flight_update h).resolve_left hne

variable {generation : Nat} {value : α}

variable (h : w.Safe)
include h

/-- Deferring a value under a generation that no flush has read. -/
theorem Safe.defer (hread : ∀ t x n, w.flight t ≠ .read generation x n)
    (hwrote : ∀ t n, w.flight t ≠ .wrote generation n) :
    Safe { w with pending := some (generation, value), log := w.log ++ [value] } where
  pending g x hx := by
    simp only [Option.some.injEq, Prod.mk.injEq] at hx
    simp [hx.2]
  removed := by simp
  committed := by
    have := h.committed
    simp only [List.length_append, List.length_singleton]
    omega
  lower n hn := by
    have hlower := h.lower n hn
    have hlt := (List.getElem?_eq_some_iff.mp hlower).1
    simpa [List.getElem?_append_left hlt] using hlower
  read t g x n hf := by
    obtain ⟨hle, hcommitted, hvalue, hpos, -⟩ := h.read t g x n hf
    refine ⟨by simp only [List.length_append]; omega, hcommitted, fun k hk ↦ ?_, hpos,
      fun y hy ↦ ?_⟩
    · have hold := hvalue k hk
      have hlt := (List.getElem?_eq_some_iff.mp hold).1
      simpa [List.getElem?_append_left hlt] using hold
    · simp only [Option.some.injEq, Prod.mk.injEq] at hy
      exact absurd (hy.1 ▸ hf) (hread t x n)
  wrote t g n hf := by
    refine ⟨(h.wrote t g n hf).1, fun y hy ↦ ?_⟩
    simp only [Option.some.injEq, Prod.mk.injEq] at hy
    exact absurd (hy.1 ▸ hf) (hwrote t n)
  equal := h.equal

/-- A flush that begins while nobody has still to write an older value. -/
theorem Safe.begin (t : Nat) (hpending : w.pending = some (generation, value))
    (hnewest : ∀ u g x n, w.flight u = .read g x n → n = w.log.length) : Safe { w with
      flight := update w.flight t (.read generation value w.log.length) } where
  __ := h
  read u g x n hf := by
    rcases flight_update hf with hnew | hold
    · obtain ⟨-, rfl, rfl⟩ := Flight.read.inj hnew
      have hlast := h.pending _ _ hpending
      refine ⟨Nat.le_refl _, h.committed, fun k hk ↦ ?_, fun hzero ↦ ?_, fun _ _ ↦ rfl⟩
      · rw [List.getLast?_eq_getElem?, hk] at hlast
        exact hlast
      · rw [List.length_eq_zero_iff.mp hzero] at hlast
        simp at hlast
    · exact h.read u g x n hold
  wrote u g n hf := h.wrote u g n (flight_of_update hf (by simp))
  equal u v g x n g' x' n' hu hv := by
    have hlast : ∀ v g x n, update w.flight t
        (.read generation value w.log.length) v = .read g x n → n = w.log.length := by
      intro v g x n hv
      rcases flight_update hv with hnew | hold
      · exact ((Flight.read.inj hnew).2.2).symm
      · exact hnewest v g x n hold
    exact (hlast u g x n hu).trans (hlast v g' x' n' hv).symm

theorem Safe.commit (t : Nat) {number : Nat}
    (hflight : w.flight t = .read generation value number) : Safe { w with
      lower := value, committed := number
      flight := update w.flight t (.wrote generation number) } := by
  obtain ⟨hle, hcommitted, hvalue, -, hgeneration⟩ := h.read t generation value number hflight
  refine
    { pending := h.pending
      removed := fun hnone ↦ ?_
      committed := hle
      lower := hvalue
      read := fun u g x n hf ↦ ?_
      wrote := fun u g n hf ↦ ?_
      equal := fun u v g x n g' x' n' hu hv ↦ ?_ }
  · have := h.removed hnone
    show number = w.log.length
    omega
  · have hold := flight_of_update hf (by simp)
    obtain ⟨hle', -, hvalue', hpos', hgeneration'⟩ := h.read u g x n hold
    exact ⟨hle', Nat.le_of_eq (h.equal t u _ _ _ _ _ _ hflight hold), hvalue', hpos', hgeneration'⟩
  · rcases flight_update hf with hnew | hold
    · obtain ⟨rfl, rfl⟩ := Flight.wrote.inj hnew
      exact ⟨Nat.le_refl _, hgeneration⟩
    · obtain ⟨hn, hgeneration'⟩ := h.wrote u g n hold
      exact ⟨Nat.le_trans hn hcommitted, hgeneration'⟩
  · exact h.equal u v g x n g' x' n' (flight_of_update hu (by simp)) (flight_of_update hv (by simp))

/-- A flush that is over, with the pending value as it was. -/
theorem Safe.leave (t : Nat) : Safe { w with flight := update w.flight t .idle } where
  __ := h
  read u g x n hf := h.read u g x n (flight_of_update hf (by simp))
  wrote u g n hf := h.wrote u g n (flight_of_update hf (by simp))
  equal u v g x n g' x' n' hu hv :=
    h.equal u v g x n g' x' n' (flight_of_update hu (by simp)) (flight_of_update hv (by simp))

/-- Removing the pending value after its number has been written. -/
theorem Safe.remove (hnumber : w.committed = w.log.length) : Safe { w with pending := none } where
  pending := by simp
  removed _ := hnumber
  __ := h
  read t g x n hf := by
    obtain ⟨hle, hcommitted, hvalue, hpos, -⟩ := h.read t g x n hf
    exact ⟨hle, hcommitted, hvalue, hpos, by simp⟩
  wrote t g n hf := ⟨(h.wrote t g n hf).1, by simp⟩

theorem Safe.finish (t : Nat) {number : Nat} (hflight : w.flight t = .wrote generation number) :
    Safe { w with
      pending := if w.pending.any (·.1 = generation) then none else w.pending
      flight := update w.flight t .idle } := by
  split_ifs with hany
  · obtain ⟨⟨g, y⟩, hpending, hg⟩ := (Option.any_eq_true _ _).mp hany
    obtain rfl : g = generation := by simpa using hg
    obtain ⟨hn, hlast⟩ := h.wrote t g number hflight
    have hlen := hlast y hpending
    have hcommitted := h.committed
    exact (h.leave t).remove (show w.committed = w.log.length by omega)
  · exact h.leave t

/-- The step rule. -/
theorem Safe.moves (hmoves : w.Moves w') : w'.Safe := by
  cases hmoves with rw [heq]
  | same heq =>
    exact h
  | defer generation value hread hwrote heq =>
    exact h.defer hread hwrote
  | begin t generation value hpending hnewest heq =>
    exact h.begin t hpending hnewest
  | commit t generation number value hflight heq =>
    exact h.commit t hflight
  | fail t heq =>
    exact h.leave t
  | finish t generation number hflight heq =>
    exact h.finish t hflight

/-- A value that a move removes is the last deferred one, and the last write has written it. -/
theorem Safe.of_removed (hmoves : w.Moves w') {g : Nat} {x : α}
    (hpending : w.pending = some (g, x)) (hnone : w'.pending = none) :
    w.log.getLast? = some x ∧ w.committed = w.log.length := by
  refine ⟨h.pending g x hpending, ?_⟩
  have hremoved := (h.moves hmoves).removed hnone
  -- only the end of a flush removes a value, and it keeps the history
  cases hmoves with
  | defer _ _ _ _ heq => simp [heq] at hnone
  | same heq | begin _ _ _ _ _ heq | commit _ _ _ _ _ heq | fail _ heq => simp [heq, hpending] at hnone
  | finish _ _ _ _ heq => rwa [heq] at hremoved

/-- When nothing is pending, what has been written is the last deferred value. -/
theorem Safe.lower_eq (hnone : w.pending = none) {x : α}
    (hlast : w.log.getLast? = some x) : w.lower = x := by
  have hlen := h.removed hnone
  rw [List.getLast?_eq_getElem?] at hlast
  obtain ⟨hlt, -⟩ := List.getElem?_eq_some_iff.mp hlast
  have hlower := h.lower (w.log.length - 1) (by omega)
  exact Option.some.inj (hlower.symm.trans hlast)

end WriteBehind

end RespOS.Basis
