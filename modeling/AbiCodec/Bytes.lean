/-!
# Byte strings

Byte strings, their slices, the zero padding up to a whole number of 32-byte
words, and the big-endian reading of a byte string as a number.
-/

namespace AbiCodec

abbrev Bytes := List UInt8

/-- Bytes in one word. -/
def wordSize : Nat := 32

namespace Bytes

/-- The bytes from position `start` up to `stop`, when they are all there. -/
def slice? (data : Bytes) (start stop : Nat) : Option Bytes :=
  if start ≤ stop ∧ stop ≤ data.length then some ((data.drop start).take (stop - start)) else none

/-- The length rounded up to a whole number of words. -/
def alignedLength (length : Nat) : Nat := (length + (wordSize - 1)) / wordSize * wordSize

/-- The zero bytes that fill the last word of a byte string of this length. -/
def padding (length : Nat) : Bytes :=
  List.replicate ((wordSize - length % wordSize) % wordSize) 0

/-- The byte string, zero-padded on the right to a whole number of words. -/
def padded (data : Bytes) : Bytes := data ++ padding data.length

/-- The low `width` bytes of a number, the highest first. -/
def ofNat : (width : Nat) → (n : Nat) → Bytes
  | 0, _ => []
  | width + 1, n => ofNat width (n / 256) ++ [UInt8.ofNat n]

/-- The number whose big-endian digits in base 256 are the bytes. -/
def toNat (data : Bytes) : Nat := data.foldl (fun high b => high * 256 + b.toNat) 0

theorem length_padded (data : Bytes) : (padded data).length = alignedLength data.length := by
  simp only [padded, padding, alignedLength, wordSize, List.length_append, List.length_replicate]
  omega

theorem length_ofNat (width n : Nat) : (ofNat width n).length = width := by
  induction width generalizing n with
  | zero => rfl
  | succ width ih => simp [ofNat, ih]

end Bytes

end AbiCodec
