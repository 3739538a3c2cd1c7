import AbiCodec.Text.Printed

/-!
# Quoted text

Text between quotation marks.  The mark itself, the backslash and the usual
control characters have short escapes; a character that is not printed is
written by its code point in hexadecimal.
-/

namespace AbiCodec

/-- The written form of one character between two marks. -/
def escapeFor (mark c : Char) : List Char :=
  if c = '\x00' then ['\\', '0']
  else if c = '\t' then ['\\', 't']
  else if c = '\r' then ['\\', 'r']
  else if c = '\n' then ['\\', 'n']
  else if c = '\\' ∨ c = mark then ['\\', c]
  else if ' ' ≤ c ∧ c ≤ '~' then [c]
  else if isPrinted c then [c]
  else ['\\', 'u', '\x7b'] ++ Nat.toDigits 16 c.toNat ++ ['\x7d']

def quoteWith (mark : Char) (text : List Char) : List Char :=
  mark :: text.flatMap (escapeFor mark) ++ [mark]

/-- The text in double quotation marks. -/
def quoted (text : String) : String := String.ofList (quoteWith '\x22' text.toList)

/-- The character in single quotation marks. -/
def quotedChar (c : Char) : String := String.ofList (quoteWith '\x27' [c])

end AbiCodec
