import RespOS.Basis.Runs

/-!
# Interleavings of threads over a shared state

A configuration is a shared state together with the local state of every thread. A program is given
by its atomic sections: `section t a s l` says what thread `t` makes of the shared state `s` and of its
local state `l` when it takes the section `a`, or that it cannot take it. A step of a configuration is a
section of one thread, so the runs are all interleavings of the sections of any number of threads.

`Config.invariant` is the rule by which the safety results about concurrent code are proved: an
invariant has one part about the shared state and one about the local state of each thread; the
section's own thread and the shared state are one obligation, the other threads are the other.
-/

namespace RespOS.Basis

/-- What a section that is taken leaves behind. -/
theorem of_taken {σ τ : Type*} {s s' : σ} {k k' : τ} (h : some (s, k) = some (s', k')) :
    s = s' ∧ k = k' :=
  Prod.mk.inj (Option.some.inj h)

/-- A shared state and the local states of the threads. -/
structure Config (σ τ : Type*) where
  shared : σ
  thread : Nat → τ

namespace Config

variable {σ τ α : Type*} {sec : Nat → α → σ → τ → Option (σ × τ)} {c c' : Config σ τ}

/-- One section of the thread that the label names. -/
def next (sec : Nat → α → σ → τ → Option (σ × τ)) (c : Config σ τ) (l : Nat × α) :
    Option (Config σ τ) :=
  (sec l.1 l.2 c.shared (c.thread l.1)).map fun r ↦ ⟨r.1, Function.update c.thread l.1 r.2⟩

def Step (sec : Nat → α → σ → τ → Option (σ × τ)) (c : Config σ τ) (l : Nat × α)
    (c' : Config σ τ) : Prop :=
  c.next sec l = some c'

theorem step_iff {l : Nat × α} : c.Step sec l c' ↔
    ∃ s' k, sec l.1 l.2 c.shared (c.thread l.1) = some (s', k) ∧
      c' = ⟨s', Function.update c.thread l.1 k⟩ := by
  simp only [Step, next, Option.map_eq_some_iff, Prod.exists]
  exact exists_congr fun _ ↦ exists_congr fun _ ↦ and_congr_right fun _ ↦ eq_comm

/-- The state after the sections of a list. -/
def runLabels (sec : Nat → α → σ → τ → Option (σ × τ)) (c : Config σ τ)
    (labels : List (Nat × α)) : Option (Config σ τ) :=
  labels.foldlM (next sec) c

variable {init : Config σ τ → Prop} {labels : List (Nat × α)}

/-- A list of sections that meet the condition in any state is a run. -/
theorem run_of_forall_ok {ok : Config σ τ → Nat × α → Prop} (hok : ∀ l ∈ labels, ∀ c, ok c l)
    (hc : Run init ok (Step sec) c) (h : c.runLabels sec labels = some c') :
    Run init ok (Step sec) c' :=
  Run.of_foldlM (fun l hl c _ hnext ↦ ⟨hok l hl c, hnext⟩) hc h

theorem run_of_runLabels (hc : Run init (fun _ _ ↦ True) (Step sec) c)
    (h : c.runLabels sec labels = some c') : Run init (fun _ _ ↦ True) (Step sec) c' :=
  run_of_forall_ok (fun _ _ _ ↦ trivial) hc h

/-- A thread that takes no section keeps its local state. -/
theorem thread_of_runLabels {t : Nat} (ht : ∀ l ∈ labels, l.1 ≠ t)
    (h : c.runLabels sec labels = some c') : c'.thread t = c.thread t := by
  induction labels generalizing c with
  | nil =>
    obtain rfl : c = c' := Option.some.inj h
    rfl
  | cons l labels ih =>
    obtain ⟨c₁, hnext, hrest⟩ := Option.bind_eq_some_iff.mp h
    obtain ⟨s', k, -, rfl⟩ := step_iff.mp hnext
    rw [ih (fun m hm ↦ ht m (List.mem_cons_of_mem l hm)) hrest]
    exact Function.update_of_ne (ht l List.mem_cons_self).symm _ _

/-- The invariant rule: the part `I` about the shared state and the part `J` about every thread hold
initially, a section keeps `I` and the part of its own thread, and it keeps the part of every other
thread. -/
theorem invariant {ok : Config σ τ → Nat × α → Prop} {I : σ → Prop} {J : σ → Nat → τ → Prop}
    (hinit : ∀ c, init c → I c.shared ∧ ∀ t, J c.shared t (c.thread t))
    (hown : ∀ (c : Config σ τ) (t : Nat) (a : α) (s' : σ) (k : τ), I c.shared →
      (∀ u, J c.shared u (c.thread u)) → ok c (t, a) → sec t a c.shared (c.thread t) = some (s', k) →
        I s' ∧ J s' t k)
    (hother : ∀ (c : Config σ τ) (t : Nat) (a : α) (s' : σ) (k : τ) (u : Nat), I c.shared →
      (∀ u, J c.shared u (c.thread u)) → ok c (t, a) → sec t a c.shared (c.thread t) = some (s', k) →
        u ≠ t → J s' u (c.thread u)) (hrun : Run init ok (Step sec) c) :
    I c.shared ∧ ∀ t, J c.shared t (c.thread t) := by
  refine hrun.invariant hinit ?_
  rintro c ⟨t, a⟩ c' ⟨hI, hJ⟩ hok hstep
  obtain ⟨s', k, hsec, rfl⟩ := step_iff.mp hstep
  obtain ⟨hI', hJ'⟩ := hown c t a s' k hI hJ hok hsec
  refine ⟨hI', fun u ↦ ?_⟩
  by_cases hu : u = t
  · subst hu
    simpa using hJ'
  · simpa [Function.update_of_ne hu] using hother c t a s' k u hI hJ hok hsec hu

end Config

end RespOS.Basis
