import AbiCodec.Hash.Keccak
import AbiCodec.Error

/-!
# Addresses

An address is 160 bits, written as `Z` and forty hexadecimal digits.  The case
of the letters is a checksum: a letter is a capital where the hash of the
lower-case digits has a nibble of eight or more.
-/

namespace AbiCodec

abbrev Address := BitVec 160

namespace Address

/-- Bytes in an address. -/
def size : Nat := 20

def toBytes (a : Address) : Bytes := Bytes.ofNat size a.toNat

/-- The two halves of each byte, the high one first. -/
def nibbles (data : Bytes) : List Nat := data.flatMap fun b => [b.toNat / 16, b.toNat % 16]

/-- The digit in the case that the nibble of the hash asks for. -/
def checksumDigit (digit : Char) (nibble : Nat) : Char :=
  if 8 ≤ nibble then digit.toUpper else digit

/-- The digits of at most 32 bytes, their case the checksum. -/
def checksumDigits (raw : Bytes) : List Char :=
  let digits := Hex.ofBytes raw
  let hash := keccak256Bytes (utf8Bytes (String.ofList digits))
  List.zipWith checksumDigit digits (nibbles hash)

/-- The checksummed text of at most 32 bytes. -/
def checksumText (raw : Bytes) : String := String.ofList ('Z' :: checksumDigits raw)

/-- The checksummed text of an address. -/
def text (a : Address) : String := checksumText a.toBytes

/-- What follows the mark `Z`, `z`, `0x` or `0X` of an address text. -/
def afterMark? : List Char → Option (List Char)
  | 'Z' :: digits => some digits
  | 'z' :: digits => some digits
  | '0' :: 'x' :: digits => some digits
  | '0' :: 'X' :: digits => some digits
  | _ => none

/-- Whether the case of the digits is right: they hold no small letter, or no capital, or are
the checksummed digits of the address. -/
def caseIsRight (digits : List Char) (a : Address) : Bool :=
  !(digits.any Char.isLower && digits.any Char.isUpper) || digits == checksumDigits a.toBytes

/-- The address of a text; the white space around it is skipped. -/
def read (text : String) : Except AbiError Address :=
  let refuse (cause : ValueCause) : Except AbiError Address :=
    .error (.invalidValue "" "address" (quoted text) cause)
  match afterMark? (trim text.toList) with
  | none => refuse .missingAddressMark
  | some digits =>
    if digits.length = 2 * size && digits.all Hex.isDigit then
      let a : Address := BitVec.ofNat 160 (Hex.toNat digits)
      if caseIsRight digits a then .ok a else refuse .badAddressChecksum
    else refuse .invalidAddress

end Address

end AbiCodec
