import AbiCodec.Bytes
import AbiCodec.Text.Blank
import AbiCodec.Text.Quoted
import AbiCodec.Text.Decimal

/-!
# Hexadecimal text

Two digits a byte.  Writing uses the lower case; reading takes either case,
wants an even number of digits and names the first byte that is no digit.
-/

namespace AbiCodec

namespace Hex

def digit (n : Nat) : Char := Nat.digitChar (n % 16)

/-- The value of a digit in either case. -/
def digitValue? (c : Char) : Option Nat :=
  if '0' ≤ c ∧ c ≤ '9' then some (c.toNat - '0'.toNat)
  else if 'a' ≤ c ∧ c ≤ 'f' then some (c.toNat - 'a'.toNat + 10)
  else if 'A' ≤ c ∧ c ≤ 'F' then some (c.toNat - 'A'.toNat + 10)
  else none

def isDigit (c : Char) : Bool := (digitValue? c).isSome

/-- The digits of the bytes, in lower case. -/
def ofBytes (data : Bytes) : List Char :=
  data.flatMap fun b => [digit (b.toNat / 16), digit b.toNat]

/-- The number of a run of digits; characters that are no digits count as zero. -/
def toNat (digits : List Char) : Nat :=
  digits.foldl (fun high c => high * 16 + (digitValue? c).getD 0) 0

/-- What keeps a text from being read. -/
inductive Fault where
  | oddLength
  | invalidDigit (byte : UInt8) (position : Nat)
deriving Repr, DecidableEq

def Fault.message : Fault → String
  | .oddLength => "Odd number of digits"
  | .invalidDigit byte position =>
    "Invalid character " ++ quotedChar (Char.ofNat byte.toNat) ++ " at position " ++
      decimal position

/-- Reads pairs of digits, `position` counting the bytes before them. -/
def readPairs (position : Nat) : Bytes → Except Fault Bytes
  | high :: low :: rest =>
    match digitValue? (Char.ofNat high.toNat), digitValue? (Char.ofNat low.toNat) with
    | some h, some l => (UInt8.ofNat (h * 16 + l) :: ·) <$> readPairs (position + 2) rest
    | none, _ => .error (.invalidDigit high position)
    | _, none => .error (.invalidDigit low (position + 1))
  | _ => .ok []

/-- The bytes written by the digits; the length is checked before the digits. -/
def read (digits : Bytes) : Except Fault Bytes :=
  if digits.length % 2 = 0 then readPairs 0 digits else .error .oddLength

/-- The text after its `0x` or `0X`, or the text itself. -/
def dropMark (text : List Char) : List Char :=
  match text with
  | '0' :: 'x' :: rest => rest
  | '0' :: 'X' :: rest => rest
  | _ => text

end Hex

/-- The bytes as `0x` and lower-case digits. -/
def hexText (data : Bytes) : String := String.ofList ('0' :: 'x' :: Hex.ofBytes data)

/-- The UTF-8 bytes of a text. -/
def utf8Bytes (text : String) : Bytes := text.toUTF8.data.toList

/-- Reads bytes from a text with or without `0x`, and white space around it. -/
def readHexText (text : String) : Except Hex.Fault Bytes :=
  Hex.read (utf8Bytes (String.ofList (Hex.dropMark (trim text.toList))))

end AbiCodec
