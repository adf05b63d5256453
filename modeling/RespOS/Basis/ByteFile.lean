import Mathlib

/-!
# Byte files

A byte file has a length and a byte at every offset; the bytes at and beyond the length are zero,
which the structure carries as a field, so that a hole, a file grown by truncation and a file read
past its end all give zero bytes without a case distinction. `read` and `write` are the
operations of a plain byte array.
-/

namespace RespOS.Basis

/-- A file as an array of bytes, extended by zeros. -/
structure ByteFile where
  len : Nat
  byte : Nat → UInt8
  byte_eq_zero : ∀ i, len ≤ i → byte i = 0

namespace ByteFile

def empty : ByteFile := ⟨0, fun _ ↦ 0, fun _ _ ↦ rfl⟩

/-- The bytes `[offset, offset + n)`, cut at the end of the file. -/
def read (f : ByteFile) (offset n : Nat) : List UInt8 :=
  (List.range (min n (f.len - offset))).map fun i ↦ f.byte (offset + i)

/-- Overwrites from `offset`, growing the file where the data ends beyond it. -/
def write (f : ByteFile) (offset : Nat) (data : List UInt8) : ByteFile where
  len := max f.len (offset + data.length)
  byte i := if offset ≤ i ∧ i < offset + data.length then data.getD (i - offset) 0 else f.byte i
  byte_eq_zero i hi := by
    rw [if_neg (by omega)]
    exact f.byte_eq_zero i (by omega)

end ByteFile

end RespOS.Basis
