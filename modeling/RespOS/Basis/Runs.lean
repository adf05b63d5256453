import Mathlib

/-!
# Runs of a transition system whose steps meet a condition

A transition system is a relation `step s l s'` between a state, a label and a next state. A run
starts in a state that satisfies `init` and takes finitely many steps. `Run` restricts the runs
further to those in which every step meets a condition `ok` on the state before the step and on the
label; with `ok` always true it is plain reachability.

`Run.invariant` is the induction rule every safety result below goes through, and
`Run.invariant_of_auxiliary` is the same rule when an auxiliary invariant is already known. A run can be
given as a list of labels (`runWhile`) where the steps are computed and the condition is decidable.
-/

namespace RespOS.Basis

open Option

section Runs

variable {σ ℓ : Type*} {init : σ → Prop} {ok : σ → ℓ → Prop} {step : σ → ℓ → σ → Prop}

/-- The states reached from an initial state by steps that all meet `ok`. -/
inductive Run (init : σ → Prop) (ok : σ → ℓ → Prop) (step : σ → ℓ → σ → Prop) : σ → Prop
  | start {s : σ} : init s → Run init ok step s
  | next {s s' : σ} (l : ℓ) : Run init ok step s → ok s l → step s l s' → Run init ok step s'

/-- A property that holds initially and is preserved by every step that meets the condition holds
in every state reached. -/
theorem Run.invariant {I : σ → Prop} (hinit : ∀ s, init s → I s)
    (hstep : ∀ s l s', I s → ok s l → step s l s' → I s') {s : σ} (hrun : Run init ok step s) :
    I s := by
  induction hrun with
  | start h => exact hinit _ h
  | next l _ hok h ih => exact hstep _ l _ ih hok h

/-- The invariant rule relative to an auxiliary invariant of the same runs. -/
theorem Run.invariant_of_auxiliary {A I : σ → Prop} (haux : ∀ s, Run init ok step s → A s)
    (hinit : ∀ s, init s → I s) (hstep : ∀ s l s', A s → I s → ok s l → step s l s' → I s')
    {s : σ} (hrun : Run init ok step s) : I s := by
  induction hrun with
  | start h => exact hinit _ h
  | next l hrun hok h ih => exact hstep _ l _ (haux _ hrun) ih hok h

variable {s s' : σ} {next : σ → ℓ → Option σ} {labels : List ℓ}

/-- The state after the labels of a list, if each of them meets the condition and leads on. -/
def runWhile (ok : σ → ℓ → Prop) [∀ s l, Decidable (ok s l)] (next : σ → ℓ → Option σ) :
    List ℓ → σ → Option σ
  | [], s => some s
  | l :: labels, s => if ok s l then (next s l).bind (runWhile ok next labels) else none

theorem Run.of_runWhile [∀ s l, Decidable (ok s l)]
    (hrun : Run init ok (fun s l s' ↦ next s l = some s') s)
    (h : runWhile ok next labels s = some s') :
    Run init ok (fun s l s' ↦ next s l = some s') s' := by
  induction labels generalizing s with
  | nil =>
    obtain rfl := some.inj h
    exact hrun
  | cons l labels ih =>
    simp only [runWhile] at h
    split_ifs at h with hok
    obtain ⟨s₁, hnext, hrest⟩ := bind_eq_some_iff.mp h
    exact ih (.next l hrun hok hnext) hrest

/-- A computed run shows that a state with a decidable property is reached. -/
theorem Run.exists_of_runWhile [∀ s l, Decidable (ok s l)] {P : σ → Prop} [DecidablePred P]
    (hinit : init s) (labels : List ℓ)
    (h : (runWhile ok next labels s).any (fun s' ↦ decide (P s')) = true) :
    ∃ s', Run init ok (fun s l s' ↦ next s l = some s') s' ∧ P s' := by
  obtain ⟨s', hs', hP⟩ := (any_eq_true _ _).mp h
  exact ⟨s', Run.of_runWhile (.start hinit) hs', of_decide_eq_true hP⟩

section

variable (hstep : ∀ l ∈ labels, ∀ s s', next s l = some s' → ok s l ∧ step s l s')
include hstep

/-- A list of labels, each of which meets the condition and takes a step whatever the state, is a
run. -/
theorem Run.of_foldlM
    (hrun : Run init ok step s) (h : labels.foldlM next s = some s') : Run init ok step s' := by
  induction labels generalizing s with
  | nil =>
    obtain rfl : s = s' := some.inj h
    exact hrun
  | cons l labels ih =>
    obtain ⟨s₁, hnext, hrest⟩ := bind_eq_some_iff.mp h
    obtain ⟨hok, hs₁⟩ := hstep l List.mem_cons_self s s₁ hnext
    exact ih (fun l hl ↦ hstep l (List.mem_cons_of_mem _ hl)) (.next l hrun hok hs₁) hrest

/-- A computed list of such labels shows that a state with a decidable property is reached. -/
theorem Run.exists_of_foldlM {P : σ → Prop} [DecidablePred P] (hinit : init s)
    (h : (labels.foldlM next s).any (fun s' ↦ decide (P s')) = true) :
    ∃ s', Run init ok step s' ∧ P s' := by
  obtain ⟨s', hs', hP⟩ := (any_eq_true _ _).mp h
  exact ⟨s', Run.of_foldlM hstep (.start hinit) hs', of_decide_eq_true hP⟩

end

/-- A property of what an optional value holds is decided by looking at it. -/
instance decidableExistsEqSome {α : Type*} (o : Option α) (p : α → Prop) [DecidablePred p] :
    Decidable (∃ a, o = some a ∧ p a) :=
  match o with
  | none => isFalse (by simp)
  | some a => decidable_of_iff (p a) (by simp)

/-- What a step that its guard lets through is. -/
theorem of_guard {p : Prop} [Decidable p] (h : (if p then some s else none) = some s') :
    p ∧ s = s' := by
  split_ifs at h with hp
  exact ⟨hp, some.inj h⟩

end Runs

end RespOS.Basis
