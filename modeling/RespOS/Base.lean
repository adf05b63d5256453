import Mathlib

/-!
# Errors, outcomes and machine words

The kernel's fallible functions return `SysResult`, but by the time they return an error they may
already have changed the state they borrowed. `Outcome` keeps both: a call ends with a value and a
state, with an error number and the state it leaves behind, or with a kernel panic (`unwrap`,
`expect`, `assert!`), after which there is no state to speak of.

`usize` is a natural number here; the two overflow-sensitive operations the memory manager uses on
it, `checked_add` and `saturating_add`, carry the bound `2 ^ 64` explicitly.
-/

namespace RespOS

/-- The error numbers of `syscall::Errno` that the modelled functions return. -/
inductive Errno
  | EPERM | ENOENT | EIO | EAGAIN | ENOMEM | EACCES | EFAULT | ENOTBLK | EBUSY | EEXIST | ENODEV
  | ENOTDIR | EINVAL | EBADF | ENOSPC | EROFS | EFBIG | EISDIR | EXDEV | ENOTEMPTY | ELOOP
  | ENAMETOOLONG | ESRCH | EINTR | ETIMEDOUT | EMSGSIZE | EOPNOTSUPP | EPIPE | EADDRINUSE
  | ENOTCONN | ESPIPE | EMFILE
  deriving DecidableEq, Repr

/-- How a call on a state of type `σ` ends. -/
inductive Outcome (σ α : Type)
  | ok (value : α) (state : σ)
  | err (e : Errno) (state : σ)
  | panic

namespace Outcome

variable {σ τ α β : Type}

/-- The state a call leaves behind; none after a panic. -/
def state? : Outcome σ α → Option σ
  | ok _ s => some s
  | err _ s => some s
  | panic => none

def isOk : Outcome σ α → Bool
  | ok _ _ => true
  | _ => false

/-- Sequencing: an error or a panic ends the computation, as `?` does. -/
def andThen : Outcome σ α → (α → σ → Outcome σ β) → Outcome σ β
  | ok a s, f => f a s
  | err e s, _ => err e s
  | panic, _ => panic

/-- An error of one kind is answered by another attempt. -/
def onErr (o : Outcome σ α) (e : Errno) (f : σ → Outcome σ α) : Outcome σ α :=
  match o with
  | ok a s => ok a s
  | err e' s => if e' = e then f s else err e' s
  | panic => panic

/-- The same outcome on a larger state. -/
def mapState (f : σ → τ) : Outcome σ α → Outcome τ α
  | ok a s => ok a (f s)
  | err e s => err e (f s)
  | panic => panic

/-- Whatever state the call leaves behind satisfies `P`, after an error as well. -/
def Keeps (P : σ → Prop) (o : Outcome σ α) : Prop := ∀ s, o.state? = some s → P s

variable {o : Outcome σ α} {P : σ → Prop} {Q : α → σ → Prop}

theorem eq_ok_of_isOk (h : o.isOk = true) : ∃ a s, o = ok a s := by
  cases o with
  | ok a s => exact ⟨a, s, rfl⟩
  | err e s | panic => simp [isOk] at h

@[simp] theorem keeps_ok {a : α} {s : σ} : (ok a s).Keeps P ↔ P s := by
  simp [Keeps, state?]

@[simp] theorem keeps_err {e : Errno} {s : σ} : (err e s : Outcome σ α).Keeps P ↔ P s := by
  simp [Keeps, state?]

@[simp] theorem keeps_panic : (panic : Outcome σ α).Keeps P := by
  simp [Keeps, state?]

theorem Keeps.mono {Q : σ → Prop} (h : o.Keeps P) (himp : ∀ s, P s → Q s) : o.Keeps Q :=
  fun s hs ↦ himp s (h s hs)

/-- A success leaves a value and a state that satisfy `Q`, and an error a state that satisfies `P`. -/
def Ensures (Q : α → σ → Prop) (P : σ → Prop) : Outcome σ α → Prop
  | ok a s => Q a s
  | err _ s => P s
  | panic => True

@[simp] theorem ensures_err {e : Errno} {s : σ} : (err e s).Ensures Q P ↔ P s := Iff.rfl

theorem Ensures.mono {Q' : α → σ → Prop} {P' : σ → Prop} (h : o.Ensures Q P)
    (hQ : ∀ a s, Q a s → Q' a s) (hP : ∀ s, P s → P' s) : o.Ensures Q' P' := by
  cases o with
  | ok a s => exact hQ a s h
  | err e s => exact hP s h
  | panic => trivial

theorem Ensures.andThen {R : β → σ → Prop} {f : α → σ → Outcome σ β} (ho : o.Ensures Q P)
    (hf : ∀ a s, Q a s → (f a s).Ensures R P) : (o.andThen f).Ensures R P := by
  cases o with
  | ok a s => exact hf a s ho
  | err e s => exact ho
  | panic => trivial

theorem Ensures.onErr {e : Errno} {f : σ → Outcome σ α} (ho : o.Ensures Q P)
    (hf : ∀ s, P s → (f s).Ensures Q P) : (o.onErr e f).Ensures Q P := by
  cases o with
  | ok a s => exact ho
  | err e' s =>
    unfold Outcome.onErr
    dsimp only
    split
    · exact hf s ho
    · exact ho
  | panic => trivial

theorem Ensures.keeps (h : o.Ensures (fun _ ↦ P) P) : o.Keeps P := by
  cases o with
  | ok a s => exact keeps_ok.mpr h
  | err e s => exact keeps_err.mpr h
  | panic => exact keeps_panic

end Outcome

/-- The number of values of a `usize` on rv64. -/
def usizeSize : Nat := 2 ^ 64

/-- `usize::checked_add`. -/
def checkedAdd (a b : Nat) : Option Nat := if a + b < usizeSize then some (a + b) else none

/-- `usize::saturating_add`. -/
def saturatingAdd (a b : Nat) : Nat := min (a + b) (usizeSize - 1)

theorem checkedAdd_eq_some {a b c : Nat} : checkedAdd a b = some c ↔ a + b < usizeSize ∧ c = a + b := by
  unfold checkedAdd
  split_ifs with h
  · simp [h, eq_comm]
  · simp [h]

end RespOS
