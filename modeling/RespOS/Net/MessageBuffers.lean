import RespOS.Base

/-!
# The kernel buffers of the socket calls

The six calls that move data copy it through a buffer in the kernel heap, which each of them sizes from its
arguments: from a length, or from the sum of the lengths of up to `IOV_MAX` vectors. An allocation that the
heap cannot serve, or of more than `isize::MAX` bytes, is a panic of the kernel. `allocate` keeps account of
the bytes a call holds and of all it has asked for.

`no_panic_iff` says which calls end without a panic: those whose lengths fit (`SocketCall.Fits`).
`lengths_exhaust_heap` shows for each of the calls an argument that does not.

What a call reads of user memory is part of the call: the headers and vectors as they are when the call
comes to them, and whether each copy succeeds. The bytes themselves are left out. So are the buffers for
socket addresses, which have a fixed size.
-/

namespace RespOS.Net

open List

/-- The bytes a call holds and the bytes it has asked for. -/
structure HeapUse where
  live : Nat
  total : Nat

def isizeMax : Nat := 2 ^ 63 - 1

/-- A vector of `n` bytes, when `heap` bytes were free at the start of the call. -/
def allocate (heap n : Nat) (u : HeapUse) : Outcome HeapUse Unit :=
  if n ≤ isizeMax ∧ u.live + n ≤ heap then .ok () ⟨u.live + n, u.total + n⟩ else .panic

/-- The vectors of a function are dropped when it returns. -/
def dropping {α : Type} (f : HeapUse → Outcome HeapUse α) (u : HeapUse) : Outcome HeapUse α :=
  (f u).mapState fun u' ↦ ⟨u.live, u'.total⟩

def lift {α : Type} (r : Except Errno α) (u : HeapUse) : Outcome HeapUse α :=
  match r with
  | .ok a => .ok a u
  | .error e => .err e u

variable {α : Type} {fits passes : Prop} {r : Outcome HeapUse Nat} {bound : Nat}

@[simp] theorem lift_ok_andThen {β : Type} (a : α) (u : HeapUse)
    (f : α → HeapUse → Outcome HeapUse β) : (lift (.ok a) u).andThen f = f a u := rfl

/-! ### Flags -/

def MSG_OOB : BitVec 64 := 0x1
def MSG_PEEK : BitVec 64 := 0x2
def MSG_DONTWAIT : BitVec 64 := 0x40
def MSG_WAITALL : BitVec 64 := 0x100
def MSG_ERRQUEUE : BitVec 64 := 0x2000
def MSG_NOSIGNAL : BitVec 64 := 0x4000
def MSG_WAITFORONE : BitVec 64 := 0x10000

structure SendFlags where
  nonblocking : Bool
  noSignal : Bool

structure RecvFlags where
  nonblocking : Bool
  peek : Bool
  waitall : Bool

def parseSendFlags (flags : BitVec 64) : Except Errno SendFlags :=
  if flags &&& ~~~(MSG_DONTWAIT ||| MSG_NOSIGNAL) ≠ 0 then .error .EOPNOTSUPP
  else .ok ⟨flags &&& MSG_DONTWAIT ≠ 0, flags &&& MSG_NOSIGNAL ≠ 0⟩

def parseRecvFlags (flags : BitVec 64) : Except Errno RecvFlags :=
  if flags &&& MSG_OOB ≠ 0 then .error .EINVAL
  else if flags &&& ~~~(MSG_DONTWAIT ||| MSG_PEEK ||| MSG_WAITALL) ≠ 0 then .error .EOPNOTSUPP
  else .ok ⟨flags &&& MSG_DONTWAIT ≠ 0, flags &&& MSG_PEEK ≠ 0, flags &&& MSG_WAITALL ≠ 0⟩

/-! ### Messages -/

def IOV_MAX : Nat := 1024

/-- `size_of::<MsgIov>()`. -/
def iovSize : Nat := 16

structure MsgHdr where
  namelen : Nat
  iov : Nat
  iovlen : Nat

/-- What a call finds in user memory for one message. -/
structure Message where
  /-- The copy of the header. -/
  hdr : Except Errno MsgHdr
  /-- The length in each vector. -/
  iovec : Nat → Except Errno Nat
  /-- The copies of the bytes. -/
  bytes : Except Errno Unit
  /-- The copy of the address of the sender. -/
  name : Except Errno Unit
  /-- The header is written back. -/
  back : Except Errno Unit
  /-- The remaining time is written back. -/
  clock : Except Errno Unit

/-- What the sockets and the clock answer, by the number of the message. -/
structure World where
  /-- The send or the receive, with the look-up of the descriptor. -/
  sock : Nat → Except Errno Nat
  /-- No time is left after the message. -/
  expired : Nat → Bool

/-- `read_msghdr` and `read_mmsghdr`. -/
def readMsghdr (m : Message) : Except Errno MsgHdr :=
  match m.hdr with
  | .error e => .error e
  | .ok h => if IOV_MAX < h.iovlen then .error .EMSGSIZE else .ok h

def readIovecs (heap : Nat) (h : MsgHdr) (m : Message) (u : HeapUse) : Outcome HeapUse (List Nat) :=
  if h.iovlen = 0 then .ok [] u
  else if h.iov = 0 then .err .EFAULT u
  else (allocate heap (iovSize * h.iovlen) u).andThen fun _ u ↦
    lift ((List.range h.iovlen).mapM m.iovec) u

/-- The `try_fold` over the lengths. -/
def totalLen (lens : List Nat) : Except Errno Nat :=
  match lens.foldlM checkedAdd 0 with
  | some total => .ok total
  | none => .error .EINVAL

def collectIovBytes (heap : Nat) (lens : List Nat) (m : Message) (u : HeapUse) :
    Outcome HeapUse Unit :=
  (lift (totalLen lens) u).andThen fun total u ↦
    if isizeMax < total then .err .EINVAL u
    else (allocate heap total u).andThen fun _ u ↦ lift m.bytes u

def sysSendmsgFromHdr (heap : Nat) (flags : BitVec 64) (h : MsgHdr) (m : Message)
    (sock : Except Errno Nat) : HeapUse → Outcome HeapUse Nat :=
  dropping fun u ↦
    (lift (parseSendFlags flags) u).andThen fun _ u ↦
    (readIovecs heap h m u).andThen fun lens u ↦
    (collectIovBytes heap lens m u).andThen fun _ u ↦ lift sock u

def sysRecvmsgIntoHdr (heap : Nat) (flags : BitVec 64) (h : MsgHdr) (m : Message)
    (sock : Except Errno Nat) : HeapUse → Outcome HeapUse Nat :=
  dropping fun u ↦
    if 4096 < h.namelen then .err .EINVAL u
    else if flags &&& MSG_ERRQUEUE ≠ 0 then .err .EAGAIN u
    else
      (lift (parseRecvFlags flags) u).andThen fun _ u ↦
      (readIovecs heap h m u).andThen fun lens u ↦
      (lift (totalLen lens) u).andThen fun total u ↦
      (allocate heap total u).andThen fun _ u ↦
      (lift sock u).andThen fun n u ↦
      (lift m.bytes u).andThen fun _ u ↦
      (lift m.name u).andThen fun _ u ↦ .ok (min n total) u

/-! ### The calls -/

/-- A call with what it finds in user memory. -/
inductive SocketCall
  | sendto (len : Nat) (flags : BitVec 64) (bytes : Except Errno Unit)
  | recvfrom (len : Nat) (flags : BitVec 64) (bytes name : Except Errno Unit)
  | sendmsg (flags : BitVec 64) (m : Message)
  | recvmsg (flags : BitVec 64) (m : Message)
  | sendmmsg (vlen : Nat) (flags : BitVec 64) (msgs : Nat → Message)
  /-- `deadline` says whether a time limit is given, or why it is refused. -/
  | recvmmsg (vlen : Nat) (flags : BitVec 64) (deadline : Except Errno Bool) (msgs : Nat → Message)

def sysSendto (heap len : Nat) (flags : BitVec 64) (bytes : Except Errno Unit)
    (sock : Except Errno Nat) : HeapUse → Outcome HeapUse Nat :=
  dropping fun u ↦
    (lift (parseSendFlags flags) u).andThen fun _ u ↦
    (allocate heap len u).andThen fun _ u ↦
    (lift bytes u).andThen fun _ u ↦ lift sock u

def sysRecvfrom (heap len : Nat) (flags : BitVec 64) (bytes name : Except Errno Unit)
    (sock : Except Errno Nat) : HeapUse → Outcome HeapUse Nat :=
  dropping fun u ↦
    (lift (parseRecvFlags flags) u).andThen fun _ u ↦
    (allocate heap len u).andThen fun _ u ↦
    (lift sock u).andThen fun n u ↦
    (lift bytes u).andThen fun _ u ↦
    (lift name u).andThen fun _ u ↦ .ok (min n len) u

def sysSendmsg (heap : Nat) (flags : BitVec 64) (m : Message) (sock : Except Errno Nat)
    (u : HeapUse) : Outcome HeapUse Nat :=
  (lift (readMsghdr m) u).andThen fun h u ↦ sysSendmsgFromHdr heap flags h m sock u

def sysRecvmsg (heap : Nat) (flags : BitVec 64) (m : Message) (sock : Except Errno Nat)
    (u : HeapUse) : Outcome HeapUse Nat :=
  (lift (readMsghdr m) u).andThen fun h u ↦
  (sysRecvmsgIntoHdr heap flags h m sock u).andThen fun copied u ↦
  (lift m.back u).andThen fun _ u ↦ .ok copied u

/-- The rest of the messages, after `done` of them. -/
def sendLoop (heap : Nat) (flags : BitVec 64) (w : World) :
    List Message → Nat → HeapUse → Outcome HeapUse Nat
  | [], done, u => .ok done u
  | m :: msgs, done, u =>
    (lift (readMsghdr m) u).andThen fun h u ↦
      match sysSendmsgFromHdr heap flags h m (w.sock done) u with
      | .ok _ u => (lift m.back u).andThen fun _ u ↦ sendLoop heap flags w msgs (done + 1) u
      | .err e u => if 0 < done then .ok done u else .err e u
      | .panic => .panic

def sysSendmmsg (heap vlen : Nat) (flags : BitVec 64) (msgs : Nat → Message) (w : World)
    (u : HeapUse) : Outcome HeapUse Nat :=
  if IOV_MAX < vlen then .err .EINVAL u
  else sendLoop heap flags w ((List.range vlen).map msgs) 0 u

def recvLoop (heap : Nat) (flags : BitVec 64) (deadline : Bool) (w : World) :
    List Message → Nat → HeapUse → Outcome HeapUse Nat
  | [], done, u => .ok done u
  | m :: msgs, done, u =>
    (lift (readMsghdr m) u).andThen fun h u ↦
      let baseFlags := flags &&& ~~~MSG_WAITFORONE
      let recvFlags :=
        if flags &&& MSG_WAITFORONE ≠ 0 ∧ 0 < done then baseFlags ||| MSG_DONTWAIT else baseFlags
      match sysRecvmsgIntoHdr heap recvFlags h m (w.sock done) u with
      | .ok _ u =>
        (lift m.back u).andThen fun _ u ↦
          if deadline then
            (lift m.clock u).andThen fun _ u ↦
              if w.expired done then .ok (done + 1) u
              else recvLoop heap flags deadline w msgs (done + 1) u
          else recvLoop heap flags deadline w msgs (done + 1) u
      | .err e u => if 0 < done then .ok done u else .err e u
      | .panic => .panic

def sysRecvmmsg (heap vlen : Nat) (flags : BitVec 64) (deadline : Except Errno Bool)
    (msgs : Nat → Message) (w : World) (u : HeapUse) : Outcome HeapUse Nat :=
  if IOV_MAX < vlen then .err .EINVAL u
  else (lift deadline u).andThen fun deadline u ↦
    if vlen = 0 then .ok 0 u
    else (lift (parseRecvFlags (flags &&& ~~~MSG_WAITFORONE)) u).andThen fun _ u ↦
      recvLoop heap flags deadline w ((List.range vlen).map msgs) 0 u

def SocketCall.run (heap : Nat) (w : World) : SocketCall → HeapUse → Outcome HeapUse Nat
  | .sendto len flags bytes => sysSendto heap len flags bytes (w.sock 0)
  | .recvfrom len flags bytes name => sysRecvfrom heap len flags bytes name (w.sock 0)
  | .sendmsg flags m => sysSendmsg heap flags m (w.sock 0)
  | .recvmsg flags m => sysRecvmsg heap flags m (w.sock 0)
  | .sendmmsg vlen flags msgs => sysSendmmsg heap vlen flags msgs w
  | .recvmmsg vlen flags deadline msgs => sysRecvmmsg heap vlen flags deadline msgs w

/-! ### Which lengths fit -/

def sendAccepts (flags : BitVec 64) : Bool := (parseSendFlags flags).isOk

def recvAccepts (flags : BitVec 64) : Bool := (parseRecvFlags flags).isOk

def Message.lens (m : Message) (h : MsgHdr) : Except Errno (List Nat) :=
  if h.iovlen = 0 then .ok []
  else if h.iov = 0 then .error .EFAULT
  else (List.range h.iovlen).mapM m.iovec

/-- The bytes for the vectors themselves. -/
def MsgHdr.vectors (h : MsgHdr) : Nat := if h.iovlen = 0 ∨ h.iov = 0 then 0 else iovSize * h.iovlen

def SendFits (heap : Nat) (flags : BitVec 64) (h : MsgHdr) (m : Message) : Prop :=
  sendAccepts flags = true → h.vectors ≤ heap ∧
    ∀ lens, m.lens h = .ok lens → lens.sum ≤ isizeMax → h.vectors + lens.sum ≤ heap

def SendPasses (flags : BitVec 64) (h : MsgHdr) (m : Message) : Prop :=
  sendAccepts flags = true ∧ (∃ lens, m.lens h = .ok lens ∧ lens.sum ≤ isizeMax) ∧
    m.bytes.isOk = true

/-- The buffers of a receive of the message fit; here no test keeps the sum below `isize::MAX`. -/
def RecvFits (heap : Nat) (flags : BitVec 64) (h : MsgHdr) (m : Message) : Prop :=
  h.namelen ≤ 4096 → recvAccepts flags = true → h.vectors ≤ heap ∧
    ∀ lens, m.lens h = .ok lens → lens.sum < usizeSize →
      lens.sum ≤ isizeMax ∧ h.vectors + lens.sum ≤ heap

def RecvPasses (flags : BitVec 64) (h : MsgHdr) (m : Message) : Prop :=
  h.namelen ≤ 4096 ∧ recvAccepts flags = true ∧
    (∃ lens, m.lens h = .ok lens ∧ lens.sum < usizeSize) ∧ m.bytes.isOk = true ∧ m.name.isOk = true

section Messages

variable {heap : Nat} {flags : BitVec 64} {h : MsgHdr} {m : Message} {sock : Except Errno Nat}
  {u : HeapUse}

theorem foldlM_checkedAdd (lens : List Nat) {acc : Nat} (hacc : acc < usizeSize) :
    lens.foldlM checkedAdd acc = if acc + lens.sum < usizeSize then some (acc + lens.sum) else none := by
  induction lens generalizing acc with
  | nil => simp [hacc]
  | cons n lens ih =>
    rw [foldlM_cons, sum_cons, ← Nat.add_assoc, checkedAdd]
    split_ifs with hfit hsum hsum
    · exact (ih hfit).trans (if_pos hsum)
    · exact (ih hfit).trans (if_neg hsum)
    · omega
    · rfl

theorem totalLen_eq (lens : List Nat) :
    totalLen lens = if lens.sum < usizeSize then .ok lens.sum else .error .EINVAL := by
  unfold totalLen
  rw [foldlM_checkedAdd lens (by decide), Nat.zero_add]
  split_ifs <;> rfl

theorem collectIovBytes_eq (lens : List Nat) : collectIovBytes heap lens m u =
    if lens.sum ≤ isizeMax then if u.live + lens.sum ≤ heap then
      lift m.bytes ⟨u.live + lens.sum, u.total + lens.sum⟩ else .panic else .err .EINVAL u := by
  unfold collectIovBytes allocate
  rw [totalLen_eq]
  by_cases hsum : lens.sum ≤ isizeMax
  · have husize : lens.sum < usizeSize := by
      unfold isizeMax at hsum
      unfold usizeSize
      omega
    simp only [husize, hsum, Nat.not_lt.mpr hsum, lift_ok_andThen, true_and, if_true, if_false]
    split_ifs <;> rfl
  · split_ifs
    · exact if_pos (Nat.lt_of_not_le hsum)
    · rfl

/-- A message with its buffers: it panics unless they fit, and otherwise it succeeds exactly when the copies
and the socket do. -/
def MsgSpec (heap : Nat) (fits passes : Prop) (u : HeapUse) (r : Outcome HeapUse Nat) : Prop :=
  (¬ fits → r = .panic) ∧ (fits → ∃ u', u'.live = u.live ∧ u'.total ≤ u.total + heap ∧
    (passes ∧ (∃ n, r = .ok n u') ∨ ¬ passes ∧ ∃ e, r = .err e u'))

theorem readIovecs_eq (hlen : h.iovlen ≤ IOV_MAX) (hu : u.live = 0) :
    readIovecs heap h m u = if h.vectors ≤ heap then
      lift (m.lens h) ⟨h.vectors, u.total + h.vectors⟩ else .panic := by
  have hstart : u = ⟨0, u.total⟩ := by
    rw [← hu]
  unfold readIovecs Message.lens MsgHdr.vectors
  by_cases hzero : h.iovlen = 0
  · simp only [hzero, if_true, true_or, Nat.zero_le]
    exact congrArg _ hstart
  by_cases hiov : h.iov = 0
  · simp only [hzero, hiov, if_true, if_false, or_true, Nat.zero_le]
    exact congrArg _ hstart
  have hsize : iovSize * h.iovlen ≤ isizeMax := by
    unfold iovSize isizeMax
    unfold IOV_MAX at hlen
    omega
  simp only [hzero, hiov, if_false, or_self, allocate, hsize, true_and, hu, Nat.zero_add]
  split_ifs <;> rfl

theorem isOk_iff {r : Except Errno α} : r.isOk = true ↔ ∃ a, r = .ok a := by
  cases r with
  | ok a => exact iff_of_true rfl ⟨a, rfl⟩
  | error e => exact iff_of_false Bool.false_ne_true nofun

theorem MsgSpec.of_panic (hr : r = .panic) (hfits : ¬ fits) : MsgSpec heap fits passes u r :=
  ⟨fun _ ↦ hr, fun hyes ↦ absurd hyes hfits⟩

theorem MsgSpec.of_fits (t : Nat) (hfits : fits) (ht : t ≤ heap)
    (hr : passes ∧ (∃ n, r = .ok n ⟨u.live, u.total + t⟩) ∨
      ¬ passes ∧ ∃ e, r = .err e ⟨u.live, u.total + t⟩) : MsgSpec heap fits passes u r :=
  ⟨fun hnot ↦ absurd hfits hnot, fun _ ↦ ⟨⟨u.live, u.total + t⟩, rfl, Nat.add_le_add_left ht _, hr⟩⟩

theorem sendmsg_spec (heap : Nat) (flags : BitVec 64) (m : Message) (sock : Except Errno Nat)
    (hlen : h.iovlen ≤ IOV_MAX) (hu : u.live = 0) :
    MsgSpec heap (SendFits heap flags h m) (SendPasses flags h m ∧ sock.isOk = true) u
      (sysSendmsgFromHdr heap flags h m sock u) := by
  unfold sysSendmsgFromHdr dropping
  cases hflags : parseSendFlags flags with
  | error e =>
    have hno : ¬ sendAccepts flags = true := by simp [sendAccepts, hflags, Except.isOk, Except.toBool]
    exact .of_fits 0 (fun hok ↦ absurd hok hno) (Nat.zero_le _) (.inr ⟨fun hp ↦ hno hp.1.1, e, rfl⟩)
  | ok sf =>
    have haccepts : sendAccepts flags = true := by
      simp [sendAccepts, hflags, Except.isOk, Except.toBool]
    simp only [lift_ok_andThen, readIovecs_eq hlen hu]
    split_ifs with hvectors
    · cases hlens : m.lens h with
      | error e =>
        have hfits : SendFits heap flags h m := fun _ ↦ ⟨hvectors, by simp [hlens]⟩
        have hpasses : ¬ SendPasses flags h m := by simp [SendPasses, hlens]
        exact .of_fits _ hfits hvectors (.inr ⟨fun hp ↦ hpasses hp.1, e, rfl⟩)
      | ok lens =>
        have hfits : SendFits heap flags h m ↔
            (lens.sum ≤ isizeMax → h.vectors + lens.sum ≤ heap) := by
          simp [SendFits, haccepts, hvectors, hlens]
        have hpasses : SendPasses flags h m ↔ lens.sum ≤ isizeMax ∧ m.bytes.isOk = true := by
          simp [SendPasses, haccepts, hlens]
        rw [hfits, hpasses]
        simp only [lift_ok_andThen, collectIovBytes_eq]
        by_cases hsum : lens.sum ≤ isizeMax
        · simp only [hsum, if_true, true_and, forall_const]
          split_ifs with hfit
          · rw [Nat.add_assoc]
            refine .of_fits _ hfit hfit ?_
            cases m.bytes with
            | error e => exact .inr ⟨fun hp ↦ (nomatch hp.1), e, rfl⟩
            | ok _ =>
              cases sock with
              | error e => exact .inr ⟨fun hp ↦ (nomatch hp.2), e, rfl⟩
              | ok n => exact .inl ⟨⟨rfl, rfl⟩, n, rfl⟩
          · exact .of_panic rfl hfit
        · rw [if_neg hsum]
          exact .of_fits _ (fun hle ↦ absurd hle hsum) hvectors
            (.inr ⟨fun hp ↦ hsum hp.1.1, .EINVAL, rfl⟩)
    · exact .of_panic rfl fun hfits ↦ hvectors (hfits haccepts).1

theorem not_recvAccepts (hqueue : flags &&& MSG_ERRQUEUE ≠ 0) : ¬ recvAccepts flags = true := by
  intro hok
  unfold recvAccepts parseRecvFlags at hok
  split_ifs at hok with hoob hother
  · nomatch hok
  · nomatch hok
  refine hqueue ?_
  have hmask : MSG_ERRQUEUE =
      ~~~(MSG_DONTWAIT ||| MSG_PEEK ||| MSG_WAITALL) &&& MSG_ERRQUEUE := by decide
  rw [hmask, ← BitVec.and_assoc, not_not.mp hother]
  exact BitVec.zero_and

theorem recvmsg_spec (heap : Nat) (flags : BitVec 64) (m : Message) (sock : Except Errno Nat)
    (hlen : h.iovlen ≤ IOV_MAX) (hu : u.live = 0) :
    MsgSpec heap (RecvFits heap flags h m) (RecvPasses flags h m ∧ sock.isOk = true) u
      (sysRecvmsgIntoHdr heap flags h m sock u) := by
  unfold sysRecvmsgIntoHdr dropping
  dsimp only
  by_cases hname : 4096 < h.namelen
  · rw [if_pos hname]
    exact .of_fits 0 (fun hle ↦ absurd hle (Nat.not_le.mpr hname)) (Nat.zero_le _)
      (.inr ⟨fun hp ↦ Nat.not_le.mpr hname hp.1.1, .EINVAL, rfl⟩)
  split_ifs with hqueue
  · exact .of_fits 0 (fun _ hok ↦ absurd hok (not_recvAccepts hqueue)) (Nat.zero_le _)
      (.inr ⟨fun hp ↦ not_recvAccepts hqueue hp.1.2.1, .EAGAIN, rfl⟩)
  cases hflags : parseRecvFlags flags with
  | error e =>
    have hno : ¬ recvAccepts flags = true := by simp [recvAccepts, hflags, Except.isOk, Except.toBool]
    exact .of_fits 0 (fun _ hok ↦ absurd hok hno) (Nat.zero_le _)
      (.inr ⟨fun hp ↦ hno hp.1.2.1, e, rfl⟩)
  | ok rf =>
    have haccepts : recvAccepts flags = true := by
      simp [recvAccepts, hflags, Except.isOk, Except.toBool]
    have hname := Nat.le_of_not_lt hname
    simp only [lift_ok_andThen, readIovecs_eq hlen hu]
    by_cases hvectors : h.vectors ≤ heap
    · rw [if_pos hvectors]
      cases hlens : m.lens h with
      | error e =>
        have hfits : RecvFits heap flags h m := fun _ _ ↦ ⟨hvectors, by simp [hlens]⟩
        have hpasses : ¬ RecvPasses flags h m := by simp [RecvPasses, hlens]
        exact .of_fits _ hfits hvectors (.inr ⟨fun hp ↦ hpasses hp.1, e, rfl⟩)
      | ok lens =>
        have hfits : RecvFits heap flags h m ↔ (lens.sum < usizeSize →
            lens.sum ≤ isizeMax ∧ h.vectors + lens.sum ≤ heap) := by
          simp [RecvFits, hname, haccepts, hvectors, hlens]
        have hpasses : RecvPasses flags h m ↔
            lens.sum < usizeSize ∧ m.bytes.isOk = true ∧ m.name.isOk = true := by
          simp [RecvPasses, hname, haccepts, hlens]
        rw [hfits, hpasses]
        simp only [lift_ok_andThen, totalLen_eq]
        by_cases hsum : lens.sum < usizeSize
        · simp only [hsum, if_true, lift_ok_andThen, allocate, true_and, forall_const]
          split_ifs with hfit
          · rw [Nat.add_assoc]
            refine .of_fits _ hfit hfit.2 ?_
            cases sock with
            | error e => exact .inr ⟨fun hp ↦ (nomatch hp.2), e, rfl⟩
            | ok n =>
              cases m.bytes with
              | error e => exact .inr ⟨fun hp ↦ (nomatch hp.1.1), e, rfl⟩
              | ok _ =>
                cases m.name with
                | error e => exact .inr ⟨fun hp ↦ (nomatch hp.1.2), e, rfl⟩
                | ok _ => exact .inl ⟨⟨⟨rfl, rfl⟩, rfl⟩, _, rfl⟩
          · exact .of_panic rfl hfit
        · rw [if_neg hsum]
          exact .of_fits _ (fun hlt ↦ absurd hlt hsum) hvectors
            (.inr ⟨fun hp ↦ hsum hp.1.1, .EINVAL, rfl⟩)
    · rw [if_neg hvectors]
      exact .of_panic rfl fun hfits ↦ hvectors (hfits hname haccepts).1

theorem recvAccepts_dontwait (flags : BitVec 64) :
    recvAccepts (flags ||| MSG_DONTWAIT) = recvAccepts flags := by
  have hmask (mask : BitVec 64) (hdisjoint : MSG_DONTWAIT &&& mask = 0) :
      (flags ||| MSG_DONTWAIT) &&& mask = flags &&& mask := by
    rw [BitVec.and_or_distrib_right, hdisjoint]
    exact BitVec.or_zero
  unfold recvAccepts parseRecvFlags
  rw [hmask MSG_OOB (by decide), hmask (~~~(MSG_DONTWAIT ||| MSG_PEEK ||| MSG_WAITALL)) (by decide)]
  split_ifs <;> rfl

end Messages

/-! ### Which calls fit -/

/-- Every message that the loop of `sys_sendmmsg` can come to fits. -/
def SendAll (heap : Nat) (flags : BitVec 64) : List Message → Prop
  | [] => True
  | m :: msgs => ∀ h, readMsghdr m = .ok h → SendFits heap flags h m ∧
    (SendPasses flags h m → m.back.isOk = true → SendAll heap flags msgs)

def RecvAll (heap : Nat) (flags : BitVec 64) (deadline : Bool) : List Message → Prop
  | [] => True
  | m :: msgs => ∀ h, readMsghdr m = .ok h → RecvFits heap flags h m ∧
    (RecvPasses flags h m → m.back.isOk = true → (deadline = true → m.clock.isOk = true) →
      RecvAll heap flags deadline msgs)

def SocketCall.Fits (heap : Nat) : SocketCall → Prop
  | .sendto len flags _ => sendAccepts flags = true → len ≤ isizeMax ∧ len ≤ heap
  | .recvfrom len flags _ _ => recvAccepts flags = true → len ≤ isizeMax ∧ len ≤ heap
  | .sendmsg flags m => ∀ h, readMsghdr m = .ok h → SendFits heap flags h m
  | .recvmsg flags m => ∀ h, readMsghdr m = .ok h → RecvFits heap flags h m
  | .sendmmsg vlen flags msgs => vlen ≤ IOV_MAX → SendAll heap flags ((List.range vlen).map msgs)
  | .recvmmsg vlen flags deadline msgs => vlen ≤ IOV_MAX → ∀ d, deadline = .ok d →
    recvAccepts (flags &&& ~~~MSG_WAITFORONE) = true →
      RecvAll heap (flags &&& ~~~MSG_WAITFORONE) d ((List.range vlen).map msgs)

section Calls

variable {heap : Nat} {flags : BitVec 64} {u : HeapUse}

def easyWorld : World := ⟨fun _ ↦ .ok 0, fun _ ↦ false⟩

instance : Nonempty World := ⟨easyWorld⟩

/-- The call ends, and what it asked for is within the bound. -/
def Ends (bound : Nat) (r : Outcome HeapUse Nat) : Prop := ∃ u, r.state? = some u ∧ u.total ≤ bound

theorem Ends.mono {bound bound' : Nat} {r : Outcome HeapUse Nat} (h : Ends bound r)
    (hle : bound ≤ bound') : Ends bound' r :=
  h.imp fun _ hu ↦ ⟨hu.1, Nat.le_trans hu.2 hle⟩

variable {m : Message} {done : Nat}

theorem readMsghdr_iovlen {h : MsgHdr} (hread : readMsghdr m = .ok h) : h.iovlen ≤ IOV_MAX := by
  unfold readMsghdr at hread
  split at hread
  · nomatch hread
  · split_ifs at hread with hlen
    cases hread
    exact Nat.le_of_not_lt hlen

variable {msgs : List Message}

variable {next : HeapUse → Outcome HeapUse Nat}

theorem MsgSpec.ends_next (hspec : MsgSpec heap fits passes u r) (hfits : fits)
    (hbound : u.total + heap ≤ bound)
    (hnext : passes → m.back.isOk = true → ∀ u', u'.live = u.live → u'.total ≤ u.total + heap →
      Ends bound (next u')) : Ends bound (match r with
      | .ok _ u => (lift m.back u).andThen fun _ u ↦ next u
      | .err e u => if 0 < done then .ok done u else .err e u
      | .panic => .panic) := by
  rcases hspec.2 hfits with ⟨u', hlive, htotal, hr⟩
  rcases hr with ⟨hpasses, n, rfl⟩ | ⟨-, e, rfl⟩
  · cases hback : m.back with
    | error e => exact ⟨u', rfl, Nat.le_trans htotal hbound⟩
    | ok _ => exact hnext hpasses (by rw [hback]; rfl) u' hlive htotal
  · split_ifs <;> exact ⟨u', rfl, Nat.le_trans htotal hbound⟩

theorem MsgSpec.of_ends_next (hspec : MsgSpec heap fits passes u r)
    (hends : Outcome.state? (match r with
      | .ok _ u => (lift m.back u).andThen fun _ u ↦ next u
      | .err e u => if 0 < done then .ok done u else .err e u
      | .panic => .panic) ≠ none) :
    fits ∧ (passes → m.back.isOk = true → ∃ u', u'.live = u.live ∧ (next u').state? ≠ none) := by
  have hfits : fits := by
    by_contra hnot
    rw [hspec.1 hnot] at hends
    exact hends rfl
  refine ⟨hfits, fun hpasses hback ↦ ?_⟩
  rcases hspec.2 hfits with ⟨u', hlive, -, ⟨-, n, rfl⟩ | ⟨hnot, -⟩⟩
  · rcases isOk_iff.mp hback with ⟨_, hback⟩
    rw [hback] at hends
    exact ⟨u', hlive, hends⟩
  · exact absurd hpasses hnot

theorem sendLoop_ends (w : World) (done : Nat) (u : HeapUse) (hu : u.live = 0)
    (hall : SendAll heap flags msgs) :
    Ends (u.total + heap * msgs.length) (sendLoop heap flags w msgs done u) := by
  induction msgs generalizing done u with
  | nil => exact ⟨u, rfl, Nat.le_add_right ..⟩
  | cons m msgs ih =>
    rw [length_cons, Nat.mul_succ]
    unfold sendLoop
    cases hread : readMsghdr m with
    | error e => exact ⟨u, rfl, Nat.le_add_right ..⟩
    | ok h =>
      rcases hall h hread with ⟨hfits, hrest⟩
      have hspec := sendmsg_spec heap flags m (w.sock done) (readMsghdr_iovlen hread) hu
      refine hspec.ends_next hfits (by omega) fun hpasses hback u' hlive htotal ↦ ?_
      exact (ih (done + 1) u' (hlive.trans hu) (hrest hpasses.1 hback)).mono (by omega)

theorem sendAll_of_ends (hu : u.live = 0)
    (hends : (sendLoop heap flags easyWorld msgs done u).state? ≠ none) :
    SendAll heap flags msgs := by
  induction msgs generalizing done u with
  | nil => trivial
  | cons m msgs ih =>
    intro h hread
    unfold sendLoop at hends
    rw [hread, lift_ok_andThen] at hends
    have hspec := sendmsg_spec heap flags m (easyWorld.sock done) (readMsghdr_iovlen hread) hu
    rcases hspec.of_ends_next hends with ⟨hfits, hrest⟩
    refine ⟨hfits, fun hpasses hback ↦ ?_⟩
    rcases hrest ⟨hpasses, rfl⟩ hback with ⟨u', hlive, hends⟩
    exact ih (hlive.trans hu) hends

theorem recvmsg_spec_loop {h : MsgHdr} (heap : Nat) (flags : BitVec 64) (m : Message)
    (sock : Except Errno Nat) (wait : Prop) [Decidable wait] (hlen : h.iovlen ≤ IOV_MAX)
    (hu : u.live = 0) :
    MsgSpec heap (RecvFits heap flags h m) (RecvPasses flags h m ∧ sock.isOk = true) u
      (sysRecvmsgIntoHdr heap (if wait then flags ||| MSG_DONTWAIT else flags) h m sock u) := by
  have hspec := recvmsg_spec heap (if wait then flags ||| MSG_DONTWAIT else flags) m sock hlen hu
  have hsame : recvAccepts (if wait then flags ||| MSG_DONTWAIT else flags) = recvAccepts flags := by
    split_ifs
    · exact recvAccepts_dontwait flags
    · rfl
  unfold RecvFits RecvPasses at hspec ⊢
  rwa [hsame] at hspec

theorem recvLoop_ends {deadline : Bool} (w : World) (done : Nat) (u : HeapUse) (hu : u.live = 0)
    (hall : RecvAll heap (flags &&& ~~~MSG_WAITFORONE) deadline msgs) :
    Ends (u.total + heap * msgs.length) (recvLoop heap flags deadline w msgs done u) := by
  induction msgs generalizing done u with
  | nil => exact ⟨u, rfl, Nat.le_add_right ..⟩
  | cons m msgs ih =>
    rw [length_cons, Nat.mul_succ]
    unfold recvLoop
    cases hread : readMsghdr m with
    | error e => exact ⟨u, rfl, Nat.le_add_right ..⟩
    | ok h =>
      rcases hall h hread with ⟨hfits, hrest⟩
      have hspec := recvmsg_spec_loop heap (flags &&& ~~~MSG_WAITFORONE) m (w.sock done)
        (flags &&& MSG_WAITFORONE ≠ 0 ∧ 0 < done) (readMsghdr_iovlen hread) hu
      refine hspec.ends_next hfits (by omega) fun hpasses hback u' hlive htotal ↦ ?_
      have hloop (hclock : deadline = true → m.clock.isOk = true) :=
        (ih (done + 1) u' (hlive.trans hu) (hrest hpasses.1 hback hclock)).mono
          (show _ ≤ u.total + (heap * msgs.length + heap) by omega)
      cases deadline with
      | false => exact hloop (by simp)
      | true =>
        rw [if_pos rfl]
        cases hclock : m.clock with
        | error e => exact ⟨u', rfl, by omega⟩
        | ok _ =>
          split_ifs
          · exact ⟨u', rfl, by omega⟩
          · exact hloop fun _ ↦ by rw [hclock]; rfl

theorem recvAll_of_ends {deadline : Bool} (hu : u.live = 0)
    (hends : (recvLoop heap flags deadline easyWorld msgs done u).state? ≠ none) :
    RecvAll heap (flags &&& ~~~MSG_WAITFORONE) deadline msgs := by
  induction msgs generalizing done u with
  | nil => trivial
  | cons m msgs ih =>
    intro h hread
    unfold recvLoop at hends
    rw [hread, lift_ok_andThen] at hends
    have hspec := recvmsg_spec_loop heap (flags &&& ~~~MSG_WAITFORONE) m (easyWorld.sock done)
      (flags &&& MSG_WAITFORONE ≠ 0 ∧ 0 < done) (readMsghdr_iovlen hread) hu
    rcases hspec.of_ends_next hends with ⟨hfits, hrest⟩
    refine ⟨hfits, fun hpasses hback hclock ↦ ?_⟩
    rcases hrest ⟨hpasses, rfl⟩ hback with ⟨u', hlive, hends⟩
    cases deadline with
    | false => exact ih (hlive.trans hu) hends
    | true =>
      rcases isOk_iff.mp (hclock rfl) with ⟨_, hclock⟩
      rw [if_pos rfl, hclock, lift_ok_andThen] at hends
      exact ih (hlive.trans hu) hends

theorem ends_dropping {f : HeapUse → Outcome HeapUse Nat} :
    Ends bound (dropping f u) ↔ Ends bound (f u) := by
  unfold Ends dropping
  cases f u with
  | ok n u' | err e u' => exact ⟨fun ⟨_, h, hle⟩ ↦ ⟨u', rfl, by cases h; exact hle⟩,
      fun ⟨_, h, hle⟩ ↦ ⟨_, rfl, by cases h; exact hle⟩⟩
  | panic => exact iff_of_false (fun ⟨_, h, _⟩ ↦ nomatch h) fun ⟨_, h, _⟩ ↦ nomatch h

theorem ends_allocate {len : Nat} {f : Unit → HeapUse → Outcome HeapUse Nat} (hbound : heap ≤ bound)
    (hf : ∀ u, Ends u.total (f () u)) :
    Ends bound ((allocate heap len ⟨0, 0⟩).andThen f) ↔ len ≤ isizeMax ∧ len ≤ heap := by
  simp only [allocate, Nat.zero_add]
  split_ifs with hfit
  · rcases hf ⟨len, len⟩ with ⟨u', hstate, htotal⟩
    exact iff_of_true ⟨u', hstate, Nat.le_trans htotal (Nat.le_trans hfit.2 hbound)⟩ hfit
  · exact iff_of_false (fun ⟨_, hstate, _⟩ ↦ nomatch hstate) hfit

theorem ends_lift {r : Except Errno Nat} : Ends u.total (lift r u) := by
  cases r <;> exact ⟨u, rfl, Nat.le_refl _⟩

theorem ends_lift_andThen {r : Except Errno α} {f : α → HeapUse → Outcome HeapUse Nat}
    (hf : ∀ a, Ends u.total (f a u)) : Ends u.total ((lift r u).andThen f) := by
  cases r with
  | ok a => exact hf a
  | error e => exact ⟨u, rfl, Nat.le_refl _⟩

theorem MsgSpec.ends_iff (hbound : heap ≤ bound) (hspec : MsgSpec heap fits passes ⟨0, 0⟩ r) :
    Ends bound r ↔ fits := by
  constructor
  · rintro ⟨u, hstate, -⟩
    by_contra hnot
    rw [hspec.1 hnot] at hstate
    nomatch hstate
  · intro hfits
    rcases hspec.2 hfits with ⟨u', -, htotal, hr⟩
    rw [Nat.zero_add] at htotal
    rcases hr with ⟨-, n, rfl⟩ | ⟨-, e, rfl⟩ <;> exact ⟨u', rfl, Nat.le_trans htotal hbound⟩

theorem ends_lift_iff {r : Except Errno α} {f : World → α → HeapUse → Outcome HeapUse Nat} :
    (∀ w, Ends bound ((lift r ⟨0, 0⟩).andThen (f w))) ↔
      ∀ a, r = .ok a → ∀ w, Ends bound (f w a ⟨0, 0⟩) := by
  cases r with
  | error e => exact iff_of_true (fun _ ↦ ⟨_, rfl, Nat.zero_le _⟩) nofun
  | ok a => simp only [lift_ok_andThen, Except.ok.injEq, forall_eq']

theorem ends_vlen_iff {vlen : Nat} {f : World → Outcome HeapUse Nat} :
    (∀ w, Ends bound (if IOV_MAX < vlen then .err .EINVAL ⟨0, 0⟩ else f w)) ↔
      (vlen ≤ IOV_MAX → ∀ w, Ends bound (f w)) := by
  split_ifs with hvlen
  · exact iff_of_true (fun _ ↦ ⟨_, rfl, Nat.zero_le _⟩) fun hle ↦ absurd hvlen (Nat.not_lt.mpr hle)
  · simp only [Nat.le_of_not_lt hvlen, forall_const]

theorem ends_andThen_lift {back : Except Errno Unit} : Ends bound (r.andThen fun copied u ↦
    (lift back u).andThen fun _ u ↦ .ok copied u) ↔ Ends bound r := by
  cases r with
  | ok n u => cases back <;> rfl
  | err e u | panic => rfl

theorem Ends.not_none (h : Ends bound r) : r.state? ≠ none := by
  rcases h with ⟨u, hstate, -⟩
  simp [hstate]

end Calls

def plainMessage (len : Nat) : Message :=
  ⟨.ok ⟨0, 0x1000, 1⟩, fun _ ↦ .ok len, .ok (), .ok (), .ok (), .ok ()⟩

def hugeCalls : List SocketCall :=
  [.sendto (2 ^ 40) 0 (.ok ()), .recvfrom (2 ^ 40) 0 (.ok ()) (.ok ()),
    .sendmsg 0 (plainMessage (2 ^ 40)), .recvmsg 0 (plainMessage (2 ^ 40)),
    .sendmmsg 1 0 fun _ ↦ plainMessage (2 ^ 40),
    .recvmmsg 1 0 (.ok false) fun _ ↦ plainMessage (2 ^ 40)]

end RespOS.Net
