import AbiCodec.Word
import AbiCodec.Text.Hex

/-!
# Integers as text

A word is written in decimal, or in hexadecimal after `0x` or `0X`; a minus
sign before either form negates it.  White space around a form is skipped.
-/

namespace AbiCodec

namespace IntegerText

/-- The word of a number that is one. -/
def word? (n : Nat) : Option Word := if n < 1 <<< 256 then some (BitVec.ofNat 256 n) else none

/-- The word of hexadecimal digits after one `0x` that may be written again; no digit at all
is zero. -/
def readHexDigits? (digits : List Char) : Option Word :=
  let digits := (dropLead? ['0', 'x'] digits).getD digits
  if digits.all Hex.isDigit && digits.length ≤ 64 then word? (Hex.toNat digits) else none

/-- What follows `0x` or `0X`. -/
def afterHexMark? : List Char → Option (List Char)
  | '0' :: 'x' :: digits => some digits
  | '0' :: 'X' :: digits => some digits
  | _ => none

/-- The word of an unsigned form. -/
def readUnsigned? (text : List Char) : Option Word :=
  let text := trim text
  match afterHexMark? text with
  | some digits => if digits.isEmpty || 64 < digits.length then none else readHexDigits? digits
  | none => (Decimal.read? text).bind word?

/-- The two's complement word of an unsigned form below `2 ^ 255`, or of a minus sign and an
unsigned form of at most `2 ^ 255`. -/
def readSigned? (text : List Char) : Option Word :=
  match trim text with
  | '-' :: magnitude => do
    let magnitude ← readUnsigned? magnitude
    if magnitude.toNat ≤ 1 <<< 255 then some (-magnitude) else none
  | text => do
    let value ← readUnsigned? text
    if value.msb then none else some value

end IntegerText

end AbiCodec
