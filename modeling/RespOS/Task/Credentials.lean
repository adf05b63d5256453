import RespOS.Base
import RespOS.Basis.Runs

/-!
# User ids and capabilities

The user ids belong to the process, the capability sets and the `fsuid` to the thread. `set_uid_triplet`
writes all of them from the thread that makes the call, and decides from the effective uid that the process
had before the call whether that thread gives up its capabilities.

`caps_cleared` says in which runs a thread that has made such a call has lost its capabilities.
`clear_iff_sheds` says that a call which is not of this kind leaves its thread with capabilities.
`second_caller_keeps_caps` is the thread that comes second, `stepwise_drop_keeps_permitted` one thread
that gives up its ids in two calls.

The ids that the task control blocks have besides those of the process are never read and are left out. The
masks are natural numbers, of which only emptiness matters here.
-/

namespace RespOS.Task

open RespOS.Basis

structure Uids where
  uid : Nat
  euid : Nat
  suid : Nat
  deriving DecidableEq

def Uids.Nonroot (ids : Uids) : Prop := ids.uid ≠ 0 ∧ ids.euid ≠ 0 ∧ ids.suid ≠ 0

instance (ids : Uids) : Decidable ids.Nonroot := inferInstanceAs (Decidable (_ ∧ _ ∧ _))

structure CapState where
  effective : Nat
  permitted : Nat
  inheritable : Nat
  deriving DecidableEq

def ROOT_CAP_MASK : Nat := 2 ^ 32 - 1

def CapState.root : CapState := ⟨ROOT_CAP_MASK, ROOT_CAP_MASK, 0⟩

/-- Nothing is effective and nothing can become so. -/
def CapState.Clear (caps : CapState) : Prop := caps.effective = 0 ∧ caps.permitted = 0

instance (caps : CapState) : Decidable caps.Clear := inferInstanceAs (Decidable (_ ∧ _))

structure Credentials where
  ids : Uids
  fsuid : Nat → Nat
  caps : Nat → CapState

namespace Credentials

/-! ### The calls -/

/-- What `set_uid_triplet` makes of the capabilities of the calling thread. -/
def uidCaps (caps : CapState) (oldEuid uid euid suid : Nat) : CapState :=
  if euid = 0 then { caps with effective := caps.permitted }
  else if oldEuid = 0 then
    if uid ≠ 0 ∧ suid ≠ 0 then { caps with effective := 0, permitted := 0 }
    else { caps with effective := 0 }
  else caps

def setUidTriplet (c : Credentials) (t uid euid suid : Nat) : Credentials where
  ids := ⟨uid, euid, suid⟩
  fsuid := Function.update c.fsuid t euid
  caps := Function.update c.caps t (uidCaps (c.caps t) c.ids.euid uid euid suid)

def isUnchangedId (id : Nat) : Bool := id = usizeSize - 1 || id = 2 ^ 32 - 1

def resolveNewId (newId oldId : Nat) : Nat := if isUnchangedId newId then oldId else newId

def canSetUid (ids : Uids) (target : Nat) : Bool :=
  target = ids.uid || target = ids.euid || target = ids.suid

def sysSetuid (c : Credentials) (t uid : Nat) : Except Errno Credentials :=
  if c.ids.euid = 0 then .ok (c.setUidTriplet t uid uid uid)
  else if uid = c.ids.uid ∨ uid = c.ids.euid ∨ uid = c.ids.suid then
    .ok (c.setUidTriplet t c.ids.uid uid c.ids.suid)
  else .error .EPERM

def sysSetreuid (c : Credentials) (t ruid euid : Nat) : Except Errno Credentials :=
  let newRuid := resolveNewId ruid c.ids.uid
  let newEuid := resolveNewId euid c.ids.euid
  if c.ids.euid ≠ 0 ∧ (canSetUid c.ids newRuid = false ∨ canSetUid c.ids newEuid = false) then
    .error .EPERM
  else
    let newSuid :=
      if isUnchangedId ruid = false ∨ isUnchangedId euid = false ∧ newEuid ≠ c.ids.uid then newEuid
      else c.ids.suid
    .ok (c.setUidTriplet t newRuid newEuid newSuid)

def sysSetresuid (c : Credentials) (t ruid euid suid : Nat) : Except Errno Credentials :=
  let newRuid := resolveNewId ruid c.ids.uid
  let newEuid := resolveNewId euid c.ids.euid
  let newSuid := resolveNewId suid c.ids.suid
  if c.ids.euid ≠ 0 ∧ (canSetUid c.ids newRuid = false ∨ canSetUid c.ids newEuid = false ∨
      canSetUid c.ids newSuid = false) then .error .EPERM
  else .ok (c.setUidTriplet t newRuid newEuid newSuid)

end Credentials

inductive UidCall
  | setuid (uid : Nat)
  | setreuid (ruid euid : Nat)
  | setresuid (ruid euid suid : Nat)

namespace Credentials

def call (c : Credentials) (t : Nat) : UidCall → Except Errno Credentials
  | .setuid uid => c.sysSetuid t uid
  | .setreuid ruid euid => c.sysSetreuid t ruid euid
  | .setresuid ruid euid suid => c.sysSetresuid t ruid euid suid

end Credentials

/-! ### What a caller without the effective uid of root asks for -/

namespace UidCall

open Credentials

def target (ids : Uids) : UidCall → Uids
  | setuid uid => ⟨ids.uid, uid, ids.suid⟩
  | setreuid ruid euid =>
    ⟨resolveNewId ruid ids.uid, resolveNewId euid ids.euid,
      if isUnchangedId ruid = false ∨ isUnchangedId euid = false ∧ resolveNewId euid ids.euid ≠ ids.uid
      then resolveNewId euid ids.euid else ids.suid⟩
  | setresuid ruid euid suid =>
    ⟨resolveNewId ruid ids.uid, resolveNewId euid ids.euid, resolveNewId suid ids.suid⟩

/-- The test of an unprivileged call: each id it names is one of the process. -/
def permitted (ids : Uids) : UidCall → Bool
  | setuid uid => canSetUid ids uid
  | setreuid ruid euid =>
    canSetUid ids (resolveNewId ruid ids.uid) && canSetUid ids (resolveNewId euid ids.euid)
  | setresuid ruid euid suid =>
    canSetUid ids (resolveNewId ruid ids.uid) && canSetUid ids (resolveNewId euid ids.euid) &&
      canSetUid ids (resolveNewId suid ids.suid)

end UidCall

namespace Credentials

variable {c c' : Credentials} {t x : Nat} {call : UidCall}

theorem call_eq (hroot : c.ids.euid ≠ 0) : c.call t call =
    if call.permitted c.ids = true then .ok (c.setUidTriplet t (call.target c.ids).uid
      (call.target c.ids).euid (call.target c.ids).suid) else .error .EPERM := by
  cases call with
  | setuid uid =>
    simp only [Credentials.call, sysSetuid, if_neg hroot, UidCall.permitted, canSetUid, Bool.or_eq_true,
      decide_eq_true_eq, or_assoc]
    rfl
  | setreuid ruid euid | setresuid ruid euid suid =>
    simp only [Credentials.call, sysSetreuid, sysSetresuid, ne_eq, hroot, not_false_eq_true, true_and,
      ← Bool.not_eq_true, ← not_and_or, ite_not, UidCall.permitted, UidCall.target, Bool.and_eq_true,
      and_assoc]

theorem call_cases (h : c.call t call = .ok c') : ∃ ids : Uids,
    c' = c.setUidTriplet t ids.uid ids.euid ids.suid ∧
      (c.ids.euid = 0 ∨ c.ids.euid ≠ 0 ∧ call.permitted c.ids = true ∧ ids = call.target c.ids) := by
  by_cases hroot : c.ids.euid = 0
  · cases call <;>
    · simp only [Credentials.call, sysSetuid, sysSetreuid, sysSetresuid, hroot, ne_eq, not_true_eq_false,
        false_and, if_true, if_false] at h
      cases h
      exact ⟨⟨_, _, _⟩, rfl, .inl hroot⟩
  · rw [call_eq hroot] at h
    split_ifs at h with hperm
    cases h
    exact ⟨_, rfl, .inr ⟨hroot, hperm, rfl⟩⟩

/-- The thread acts with no privilege of root. -/
def Dropped (c : Credentials) (t : Nat) : Prop := (c.caps t).Clear ∧ c.fsuid t ≠ 0

theorem dropped_of_ne {uid euid suid : Nat} (hne : x ≠ t) :
    (c.setUidTriplet t uid euid suid).Dropped x ↔ c.Dropped x := by
  simp [Dropped, setUidTriplet, Function.update_of_ne hne]

theorem dropped_self_iff {ids : Uids} (hids : ids.Nonroot) :
    (c.setUidTriplet t ids.uid ids.euid ids.suid).Dropped t ↔ c.ids.euid = 0 ∨ (c.caps t).Clear := by
  simp only [Dropped, setUidTriplet, Function.update_self, uidCaps, if_neg hids.2.1]
  by_cases hroot : c.ids.euid = 0
  · rw [if_pos hroot, if_pos ⟨hids.1, hids.2.2⟩]
    exact iff_of_true ⟨⟨rfl, rfl⟩, hids.2.1⟩ (.inl hroot)
  · rw [if_neg hroot]
    constructor
    · exact fun h ↦ .inr h.1
    · exact fun h ↦ ⟨h.resolve_left hroot, hids.2.1⟩

end Credentials

/-! ### Runs -/

/-- The credentials, and the threads that have made a successful call since the ids became nonzero, the call
that made them so included. -/
structure CredWorld extends Credentials where
  asked : Nat → Bool

abbrev CredLabel := Nat × UidCall

namespace CredWorld

/-- A failed call changes nothing. -/
def next (w : CredWorld) (l : CredLabel) : Option CredWorld :=
  match w.toCredentials.call l.1 l.2 with
  | .error _ => some w
  | .ok c =>
    some ⟨c, Function.update (if w.ids.Nonroot then w.asked else fun _ ↦ false) l.1
      (decide c.ids.Nonroot)⟩

abbrev Step (w : CredWorld) (l : CredLabel) (w' : CredWorld) : Prop := w.next l = some w'

/-- A process of root that has made no such call. -/
def Init (w : CredWorld) : Prop := w.ids = ⟨0, 0, 0⟩ ∧ ∀ t, w.asked t = false

/-- A thread that asks for ids other than 0, and may have them, does so while the effective uid of the process
is 0, or has no capabilities any more. -/
def Sheds (w : CredWorld) (l : CredLabel) : Prop :=
  w.ids.euid ≠ 0 → l.2.permitted w.ids = true → (l.2.target w.ids).Nonroot → (w.caps l.1).Clear

instance (w : CredWorld) (l : CredLabel) : Decidable (w.Sheds l) :=
  inferInstanceAs (Decidable (_ → _ → _ → _))

/-- A call that gets there while the effective uid is not 0 leaves its thread without privilege if and only
if it is of this kind. -/
theorem clear_iff_sheds {w : CredWorld} {l : CredLabel} (hroot : w.ids.euid ≠ 0)
    (hperm : l.2.permitted w.ids = true) (hids : (l.2.target w.ids).Nonroot) :
    (∃ w', w.Step l w' ∧ w'.Dropped l.1) ↔ w.Sheds l := by
  have hcall := (Credentials.call_eq (t := l.1) hroot).trans (if_pos hperm)
  have hdropped := Credentials.dropped_self_iff (c := w.toCredentials) (t := l.1) hids
  simp only [Step, next, hcall, Option.some.injEq, exists_eq_left']
  constructor
  · exact fun h _ _ _ ↦ (hdropped.mp h).resolve_left hroot
  · exact fun h ↦ hdropped.mpr (.inr (h hroot hperm hids))

def Inv (w : CredWorld) : Prop := w.ids.Nonroot → ∀ t, w.asked t = true → w.Dropped t

theorem Inv.step {w w' : CredWorld} {l : CredLabel} (hI : w.Inv) (hok : w.Sheds l)
    (h : w.Step l w') : w'.Inv := by
  simp only [Step, next] at h
  split at h
  · cases h
    exact hI
  rename_i c hcall
  cases h
  intro hids t hasked
  rcases Credentials.call_cases hcall with ⟨ids, rfl, hcase⟩
  have hids : ids.Nonroot := hids
  by_cases ht : t = l.1
  · subst ht
    refine (Credentials.dropped_self_iff hids).mpr ?_
    rcases hcase with hroot | ⟨hroot, hperm, rfl⟩
    · exact .inl hroot
    · exact .inr (hok hroot hperm hids)
  · refine (Credentials.dropped_of_ne ht).mpr ?_
    simp only [Function.update_of_ne ht] at hasked
    split_ifs at hasked with hold
    exact hI hold t hasked

/-- In a process without an id of root, the threads that have asked for that have no capabilities and no
`fsuid` of root. -/
theorem caps_cleared {w : CredWorld} (hrun : Run Init Sheds Step w) (hids : w.ids.Nonroot) (t : Nat)
    (hasked : w.asked t = true) :
    (w.caps t).effective = 0 ∧ (w.caps t).permitted = 0 ∧ w.fsuid t ≠ 0 := by
  have hI : w.Inv := hrun.invariant (fun _ hinit _ t ht ↦ absurd ht (by simp [hinit.2 t]))
    fun _ _ _ hI hok h ↦ hI.step hok h
  rcases hI hids t hasked with ⟨⟨heffective, hpermitted⟩, hfsuid⟩
  exact ⟨heffective, hpermitted, hfsuid⟩

/-- A process of root in which every thread has the capabilities of root. -/
def root : CredWorld := ⟨⟨⟨0, 0, 0⟩, fun _ ↦ 0, fun _ ↦ .root⟩, fun _ ↦ false⟩

theorem root_init : root.Init := ⟨rfl, fun _ ↦ rfl⟩

/-- The first of two threads gives up root in one call. -/
theorem caps_cleared_first : ∃ w, Run Init Sheds Step w ∧ w.ids.Nonroot ∧ w.asked 1 = true ∧
    (w.caps 1).effective = 0 ∧ (w.caps 1).permitted = 0 ∧ w.fsuid 1 ≠ 0 := by
  obtain ⟨w, hrun, hids, hasked⟩ : ∃ w, Run Init Sheds Step w ∧ w.ids.Nonroot ∧ w.asked 1 = true :=
    Run.exists_of_runWhile root_init [(1, .setuid 1000), (2, .setuid 5)] (by decide +kernel)
  exact ⟨w, hrun, hids, hasked, caps_cleared hrun hids 1 hasked⟩

/-- Two threads make the same call; the second keeps all its capabilities. -/
theorem second_caller_keeps_caps : ∃ w, Run Init (fun _ _ ↦ True) Step w ∧ w.ids = ⟨1000, 1000, 1000⟩ ∧
    w.asked 2 = true ∧ w.caps 2 = .root :=
  Run.exists_of_runWhile root_init [(1, .setuid 1000), (2, .setuid 1000)] (by decide +kernel)

theorem stepwise_drop_keeps_permitted : ∃ w, Run Init (fun _ _ ↦ True) Step w ∧
    w.ids = ⟨1000, 1000, 1000⟩ ∧ w.asked 1 = true ∧ (w.caps 1).permitted = ROOT_CAP_MASK :=
  Run.exists_of_runWhile root_init
    [(1, .setresuid (2 ^ 32 - 1) 1000 (2 ^ 32 - 1)), (1, .setresuid 1000 1000 1000)]
    (by decide +kernel)

end CredWorld

end RespOS.Task
