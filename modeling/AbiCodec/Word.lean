import AbiCodec.Bytes

/-!
# Words

A word is 256 bits.  Read as an unsigned number it is `toNat`, read in two's
complement it is `toInt`; on the wire it is 32 bytes, the highest first.
-/

namespace AbiCodec

abbrev Word := BitVec 256

namespace Word

/-- The 32 bytes of a word, the highest first. -/
def toBytes (w : Word) : Bytes := Bytes.ofNat wordSize w.toNat

/-- The word of 32 big-endian bytes; no other length is a word. -/
def ofBytes? (data : Bytes) : Option Word :=
  if data.length = wordSize then some (BitVec.ofNat 256 data.toNat) else none

/-- Whether the unsigned reading takes at most this many bits. -/
def fitsUnsigned (w : Word) (bits : Nat) : Bool := w.toNat < 1 <<< bits

/-- Whether the two's complement reading takes at most this many bits, sign included:
the magnitude of a negative word may reach the bound, any other word stays below it. -/
def fitsSigned (w : Word) (bits : Nat) : Bool :=
  if w.msb then (-w).toNat ≤ 1 <<< (bits - 1) else w.toNat < 1 <<< (bits - 1)

theorem length_toBytes (w : Word) : w.toBytes.length = wordSize := Bytes.length_ofNat _ _

end Word

end AbiCodec
