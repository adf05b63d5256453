import RespOS.Mm.Address

/-!
# The ring buffer of a pipe

An anonymous pipe and a named FIFO share a `PipeRingBuffer`: the bytes in transit, the capacity, which
ends are closed, and the tasks that wait to read and to write. The byte loops of `Pipe::read` and
`Pipe::write` are `readBytes` and `writeBytes`; the queues are lists of thread ids, oldest first.
-/

namespace RespOS.Fs

open RespOS.Mm (pageSize)

def pipeBufferSize : Nat := 64 * 1024

/-- `PipeRingBuffer`, without the tasks that poll. -/
structure PipeRingBuffer where
  buffer : List UInt8 := []
  capacity : Nat
  readClosed : Bool := false
  writeClosed : Bool := false
  readWaiters : List Nat := []
  writeWaiters : List Nat := []

namespace PipeRingBuffer

/-- `PipeRingBuffer::new`: the capacity depends on the credentials of the caller. -/
def new (fsuid pipeMaxSize : Nat) : PipeRingBuffer where
  capacity := if fsuid = 0 then pipeBufferSize else min pipeBufferSize pipeMaxSize

variable (b : PipeRingBuffer)

def availableBytes : Nat := b.buffer.length

def free : Nat := b.capacity - b.availableBytes

/-- The loop of `read`: it takes bytes until the caller's buffer is full or the pipe is empty. -/
def readBytes (len : Nat) : PipeRingBuffer := { b with buffer := b.buffer.drop len }

/-- The loop of `write`: it appends bytes until the record or the free space is used up. -/
def writeBytes (record : List UInt8) : PipeRingBuffer :=
  { b with buffer := b.buffer ++ record.take b.free }

/-- A record of a page or less is written whole or not at all, a longer one as far as there is space:
the condition under which `write` publishes at least one byte of a record that is not empty. -/
def accepts (free len : Nat) : Bool := decide (pageSize < len ∧ 0 < free ∨ len ≤ free)

def pushReadWaiter (tid : Nat) : PipeRingBuffer :=
  if tid ∈ b.readWaiters then b else { b with readWaiters := b.readWaiters ++ [tid] }

def pushWriteWaiter (tid : Nat) : PipeRingBuffer :=
  if tid ∈ b.writeWaiters then b else { b with writeWaiters := b.writeWaiters ++ [tid] }

/-- `pop_read_waiter`: the oldest reader, and the queue without it. -/
def popReadWaiter : Option Nat × PipeRingBuffer :=
  (b.readWaiters.head?, { b with readWaiters := b.readWaiters.tail })

def popWriteWaiter : Option Nat × PipeRingBuffer :=
  (b.writeWaiters.head?, { b with writeWaiters := b.writeWaiters.tail })

def removeReadWaiter (tid : Nat) : PipeRingBuffer :=
  { b with readWaiters := b.readWaiters.filter (· ≠ tid) }

def removeWriteWaiter (tid : Nat) : PipeRingBuffer :=
  { b with writeWaiters := b.writeWaiters.filter (· ≠ tid) }

/-- The read end is closed: the tasks that wait to write are taken from their queue to be woken. -/
def closeRead : List Nat × PipeRingBuffer :=
  (b.writeWaiters, { b with readClosed := true, writeWaiters := [] })

def closeWrite : List Nat × PipeRingBuffer :=
  (b.readWaiters, { b with writeClosed := true, readWaiters := [] })

end PipeRingBuffer

end RespOS.Fs
