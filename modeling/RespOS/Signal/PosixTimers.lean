import RespOS.Base

/-!
# Periodic timers (`syscall/time.rs`)

`check_posix_timers` rearms a periodic timer from the time of the check, where its comment says from
the old deadline. `nextInstant_iff` says in which runs the deadlines are those of the grid all the
same. `late_check_shifts` is a timer that is served a millisecond late.
-/

namespace RespOS.Signal

open List

/-- The deadline that `check_posix_timers` leaves in a timer, from the reading of its clock. -/
def checkPosixTimer (intervalMs deadlineMs : Nat) : Except Errno Nat → Nat
  | .error _ => deadlineMs
  | .ok nowMs =>
    if deadlineMs = 0 ∨ nowMs < deadlineMs then deadlineMs
    else if intervalMs = 0 then 0
    else saturatingAdd nowMs intervalMs

/-- The deadline after checks at several times. -/
def deadlineAfter (i d : Nat) (times : List Nat) : Nat :=
  times.foldl (fun deadline t ↦ checkPosixTimer i deadline (.ok t)) d

/-- The first instant after `t` of the grid `d`, `d + i`, `d + 2 * i` and so on. -/
def NextInstant (d i t x : Nat) : Prop := IsLeast {x | t < x ∧ ∃ k, x = d + k * i} x

variable {d i k t : Nat} {times : List Nat}

theorem nextInstant_add_iff (hi : 0 < i) (hle : d ≤ t) : NextInstant d i t (t + i) ↔ i ∣ t - d := by
  constructor
  · rintro ⟨⟨-, j, hj⟩, -⟩
    have hsum : t - d + i = i * j := by
      rw [Nat.mul_comm]
      omega
    exact (Nat.dvd_add_left (Nat.dvd_refl i)).mp ⟨j, hsum⟩
  · rintro ⟨m, hm⟩
    obtain rfl : t = d + m * i := by
      rw [Nat.mul_comm]
      omega
    refine ⟨⟨by omega, m + 1, by rw [Nat.succ_mul, Nat.add_assoc]⟩, ?_⟩
    rintro y ⟨hy, j, rfl⟩
    have hlt : m < j := Nat.lt_of_mul_lt_mul_right (Nat.lt_of_add_lt_add_left hy)
    have hmul := Nat.mul_le_mul_right i hlt
    rw [Nat.succ_mul] at hmul
    omega

theorem nextInstant_check_iff (hd : 0 < d) (hi : 0 < i) (hfit : d + k * i ≤ t → t + i < usizeSize)
    (hleast : ∀ j, t < d + j * i → d + k * i ≤ d + j * i) :
    NextInstant d i t (checkPosixTimer i (d + k * i) (.ok t)) ↔ (d + k * i ≤ t → i ∣ t - d) := by
  by_cases hdue : d + k * i ≤ t
  · have := hfit hdue
    rw [checkPosixTimer, if_neg (by omega), if_neg (by omega), saturatingAdd,
      Nat.min_eq_left (by omega), nextInstant_add_iff hi (by omega)]
    simp [hdue]
  · rw [checkPosixTimer, if_pos (by omega)]
    refine iff_of_true ⟨⟨by omega, k, rfl⟩, ?_⟩ fun h ↦ absurd h hdue
    rintro y ⟨hy, j, rfl⟩
    exact hleast j hy

/-- After every check of a run the deadline is the next instant of the grid, if and only if every check
that finds the timer due runs at an instant of the grid. -/
theorem nextInstant_iff (hd : 0 < d) (hi : 0 < i) (hmono : times.Pairwise (· ≤ ·))
    (hfit : ∀ before t, before ++ [t] <+: times → deadlineAfter i d before ≤ t → t + i < usizeSize) :
    (∀ before t, before ++ [t] <+: times → NextInstant d i t (deadlineAfter i d (before ++ [t]))) ↔
      ∀ before t, before ++ [t] <+: times → deadlineAfter i d before ≤ t → i ∣ t - d := by
  induction times using reverseRecOn with
  | nil => simp
  | append_singleton times t ih =>
    obtain ⟨hmono, -, hlast⟩ := pairwise_append.mp hmono
    have hsplit : ∀ P : List Nat → Nat → Prop, (∀ before u, before ++ [u] <+: times ++ [t] → P before u) ↔
        (∀ before u, before ++ [u] <+: times → P before u) ∧ P times t := by
      simp [prefix_concat_iff, or_imp, forall_and, and_comm]
    rw [hsplit] at hfit ⊢
    rw [hsplit, ← ih hmono hfit.1]
    refine and_congr_right fun hall ↦ ?_
    -- where the deadline stands before the last check
    obtain ⟨k, hgrid, hleast⟩ : ∃ k, deadlineAfter i d times = d + k * i ∧
        ∀ j, t < d + j * i → d + k * i ≤ d + j * i := by
      rcases eq_nil_or_concat times with rfl | ⟨before, u, rfl⟩
      · exact ⟨0, by simp [deadlineAfter], fun j _ ↦ by omega⟩
      rw [concat_eq_append] at *
      obtain ⟨⟨-, k, hk⟩, hleast⟩ := hall before u (prefix_refl _)
      rw [hk] at hleast
      exact ⟨k, hk, fun j hj ↦ hleast ⟨(hlast u (by simp) t (by simp)).trans_lt hj, j, rfl⟩⟩
    rw [deadlineAfter, foldl_concat, ← deadlineAfter, hgrid]
    exact nextInstant_check_iff hd hi (hgrid ▸ hfit.2) hleast

/-- A timer of 10 ms over three periods: the first check comes early, the others in time. -/
theorem punctual_check : NextInstant 10 10 30 (deadlineAfter 10 10 [4, 10, 20, 30]) := by
  have hdue : ∀ before t, before ++ [t] <+: [4, 10, 20, 30] → deadlineAfter 10 10 before ≤ t →
      t ∈ [10, 20, 30] := by
    intro before t h hle
    rcases before with - | ⟨b, before⟩
    · obtain rfl : t = 4 := by simpa using h
      exact absurd hle (by decide)
    · rw [cons_append, cons_prefix_cons] at h
      exact h.2.subset (by simp)
  exact (nextInstant_iff (by decide) (by decide) (by decide) fun before t h hle ↦
      (by decide : ∀ u ∈ [10, 20, 30], u + 10 < usizeSize) t (hdue before t h hle)).mpr
    (fun before t h hle ↦ (by decide : ∀ u ∈ [10, 20, 30], 10 ∣ u - 10) t (hdue before t h hle))
    [4, 10, 20] 30 (prefix_refl _)

/-- A timer of 10 ms that is served a millisecond late: the next deadline is 21 and not 20. -/
theorem late_check_shifts : ¬ NextInstant 10 10 11 (deadlineAfter 10 10 [11]) :=
  fun h ↦ absurd (h.2 ⟨by decide, 1, rfl⟩ : 21 ≤ 20) (by decide)

end RespOS.Signal
