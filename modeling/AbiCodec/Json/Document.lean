import AbiCodec.Json.Basic
import AbiCodec.Text.Hex

/-!
# JSON documents

A document is the tree of a JSON text as far as the text goes: where the text
breaks off or breaks the syntax, the arrays and objects around the break are
kept and marked as not closed.  So whoever reads a document in the order of
its text meets a refusal of its own and a break in the order they have there.
Some texts are syntax but no value: a string with half a surrogate pair, and a
number past the range of doubles.
-/

namespace AbiCodec

inductive Document where
  | null
  | bool (b : Bool)
  | number (n : Option JsonNumber)
  | string (text : Option String)
  | array (items : List Document) (closed : Bool)
  | object (fields : List (Option String × Document)) (closed : Bool)
deriving Repr

namespace Document

def isBlank (c : Char) : Bool := c == ' ' || c == '\n' || c == '\t' || c == '\r'

def skipBlanks (input : List Char) : List Char := input.dropWhile isBlank

/-- A character of a string, or the 16-bit unit of an escape. -/
inductive Piece where
  | char (c : Char)
  | unit (n : Nat)

def hexUnit? (a b c d : Char) : Option Nat := do
  let a ← Hex.digitValue? a
  let b ← Hex.digitValue? b
  let c ← Hex.digitValue? c
  let d ← Hex.digitValue? d
  some (a * 4096 + b * 256 + c * 16 + d)

def escaped? (c : Char) : Option Char :=
  if c = '\x22' ∨ c = '\\' ∨ c = '/' then some c
  else if c = 'b' then some '\x08'
  else if c = 'f' then some '\x0c'
  else if c = 'n' then some '\n'
  else if c = 'r' then some '\r'
  else if c = 't' then some '\t'
  else none

/-- The pieces of a string up to its closing mark, and the rest of the input. -/
def scanPieces : List Char → Option (List Piece × List Char)
  | [] => none
  | '\\' :: 'u' :: a :: b :: c :: d :: rest => do
    let n ← hexUnit? a b c d
    let (pieces, rest) ← scanPieces rest
    some (.unit n :: pieces, rest)
  | '\\' :: c :: rest => do
    let c ← escaped? c
    let (pieces, rest) ← scanPieces rest
    some (.char c :: pieces, rest)
  | c :: rest =>
    if c = '\x22' then some ([], rest)
    else if c < ' ' then none
    else do
      let (pieces, rest) ← scanPieces rest
      some (.char c :: pieces, rest)

def isHighUnit (n : Nat) : Bool := 0xD800 ≤ n && n ≤ 0xDBFF

def isLowUnit (n : Nat) : Bool := 0xDC00 ≤ n && n ≤ 0xDFFF

/-- The characters of the pieces, two units of a pair being one character; none when a unit
of a pair stands alone. -/
def characters? : List Piece → Option (List Char)
  | [] => some []
  | .char c :: rest => (c :: ·) <$> characters? rest
  | .unit high :: .unit low :: rest =>
    if isHighUnit high then
      if isLowUnit low then
        (Char.ofNat (0x10000 + (high - 0xD800) * 0x400 + (low - 0xDC00)) :: ·) <$>
          characters? rest
      else none
    else if isLowUnit high then none
    else (Char.ofNat high :: ·) <$> characters? (.unit low :: rest)
  | .unit n :: rest =>
    if isHighUnit n || isLowUnit n then none else (Char.ofNat n :: ·) <$> characters? rest

/-- A string after its opening mark. -/
def scanString (input : List Char) : Option (Option String × List Char) := do
  let (pieces, rest) ← scanPieces input
  some (String.ofList <$> characters? pieces, rest)

/-- Adds digits to a significand while it stays a count.  What is given is the significand,
the number of digits added, and the number of digits left. -/
def addDigits (significand added : Nat) : List Char → Nat × Nat × Nat
  | [] => (significand, added, 0)
  | c :: rest =>
    let next := significand * 10 + (c.toNat - '0'.toNat)
    if next < countLimit then addDigits next (added + 1) rest
    else (significand, added, rest.length + 1)

/-- The double of the digits before the point, the digits after it, and the exponent. -/
def doubleOf? (whole fraction : List Char) (exponent : Int) : Option Binary64 :=
  let (significand, _, left) := addDigits 0 0 whole
  let (significand, added, _) := addDigits significand 0 fraction
  Binary64.ofDecimal? significand (exponent + left - added)

/-- The number of its parts; without a fraction and an exponent it is an integer where it
can be one. -/
def numberOf? (isNegative : Bool) (whole : List Char) (fraction : Option (List Char))
    (exponent : Option Int) : Option JsonNumber :=
  let n := Nat.ofDigitChars 10 whole 0
  let double := .double isNegative <$> doubleOf? whole (fraction.getD []) (exponent.getD 0)
  if fraction.isSome || exponent.isSome then double
  else if isNegative then if 1 ≤ n ∧ n ≤ 1 <<< 63 then some (.negative n) else double
  else if n < countLimit then some (.natural n) else double

/-- The digits before the point: no zero before another digit. -/
def scanWhole (input : List Char) : Option (List Char × List Char) :=
  let digits := input.takeWhile Char.isDigit
  if digits = [] ∨ (digits.head? = some '0' ∧ 1 < digits.length) then none
  else some (digits, input.dropWhile Char.isDigit)

def scanFraction : List Char → Option (Option (List Char) × List Char)
  | '.' :: input =>
    let digits := input.takeWhile Char.isDigit
    if digits = [] then none else some (some digits, input.dropWhile Char.isDigit)
  | input => some (none, input)

def scanExponent : List Char → Option (Option Int × List Char)
  | c :: input =>
    if c = 'e' ∨ c = 'E' then
      let isNegative := input.head? = some '-'
      let input := if input.head? = some '-' ∨ input.head? = some '+' then input.drop 1 else input
      let digits := input.takeWhile Char.isDigit
      let n : Int := Nat.ofDigitChars 10 digits 0
      if digits = [] then none
      else some (some (if isNegative then -n else n), input.dropWhile Char.isDigit)
    else some (none, c :: input)
  | [] => some (none, [])

/-- A number after its minus sign, if it has one. -/
def scanNumber (isNegative : Bool) (input : List Char) : Option (Option JsonNumber × List Char) := do
  let (whole, input) ← scanWhole input
  let (fraction, input) ← scanFraction input
  let (exponent, input) ← scanExponent input
  some (numberOf? isNegative whole fraction exponent, input)

/-- What a scan gives: the tree as far as there is one, and the rest of the input unless the
text broke. -/
structure Scan where
  document : Option Document
  rest : Option (List Char)

def Scan.leaf {α : Type} (wrap : α → Document) : Option (α × List Char) → Scan
  | some (x, rest) => ⟨some (wrap x), some rest⟩
  | none => ⟨none, none⟩

def scanWord (word : String) (document : Document) (input : List Char) : Scan :=
  match dropLead? word.toList input with
  | some rest => ⟨some document, some rest⟩
  | none => ⟨none, none⟩

mutual

/-- A value at the front of the input, which starts with no blank. -/
def scanValue : (fuel : Nat) → List Char → Scan
  | 0, _ => ⟨none, none⟩
  | fuel + 1, input =>
    match input with
    | '[' :: rest =>
      match skipBlanks rest with
      | ']' :: rest => ⟨some (.array [] true), some rest⟩
      | rest =>
        let (items, rest) := scanItems fuel rest
        ⟨some (.array items rest.isSome), rest⟩
    | '\x7b' :: rest =>
      match skipBlanks rest with
      | '\x7d' :: rest => ⟨some (.object [] true), some rest⟩
      | rest =>
        let (fields, rest) := scanFields fuel rest
        ⟨some (.object fields rest.isSome), rest⟩
    | '\x22' :: rest => Scan.leaf .string (scanString rest)
    | '-' :: rest => Scan.leaf .number (scanNumber true rest)
    | 'n' :: _ => scanWord "null" .null input
    | 't' :: _ => scanWord "true" (.bool true) input
    | 'f' :: _ => scanWord "false" (.bool false) input
    | _ => Scan.leaf .number (scanNumber false input)

/-- The items of an array after its bracket or a comma, up to the closing bracket. -/
def scanItems : (fuel : Nat) → List Char → List Document × Option (List Char)
  | 0, _ => ([], none)
  | fuel + 1, input =>
    let scan := scanValue fuel input
    let first := scan.document.toList
    match scan.rest.map skipBlanks with
    | some (',' :: rest) =>
      let (others, rest) := scanItems fuel (skipBlanks rest)
      (first ++ others, rest)
    | some (']' :: rest) => (first, some rest)
    | _ => (first, none)

/-- The fields of an object after its brace or a comma, up to the closing brace. -/
def scanFields : (fuel : Nat) → List Char → List (Option String × Document) × Option (List Char)
  | 0, _ => ([], none)
  | fuel + 1, input =>
    match input with
    | '\x22' :: rest =>
      match scanString rest with
      | none => ([], none)
      | some (name, rest) =>
        match skipBlanks rest with
        | ':' :: rest =>
          let scan := scanValue fuel (skipBlanks rest)
          let first := scan.document.toList.map fun d => (name, d)
          match scan.rest.map skipBlanks with
          | some (',' :: rest) =>
            let (others, rest) := scanFields fuel (skipBlanks rest)
            (first ++ others, rest)
          | some ('\x7d' :: rest) => (first, some rest)
          | _ => (first, none)
        | _ => ([], none)
    | _ => ([], none)

end

/-- Scans a text.  Two steps take one character at least, so twice the length is fuel
enough. -/
def scan (text : List Char) : Scan := scanValue (2 * text.length + 2) (skipBlanks text)

/-- Arrays and objects that a document may nest, and one. -/
def nestingLimit : Nat := 128

/-- The levels that are left inside one more array or object. -/
def enter? (levels : Nat) : Option Nat := if 2 ≤ levels then some (levels - 1) else none

mutual

/-- The value of a document, if all of it is one and it nests no deeper than the levels. -/
def toJson? (levels : Nat) : Document → Option Json
  | .null => some .null
  | .bool b => some (.bool b)
  | .number n => .number <$> n
  | .string text => .string <$> text
  | .array items closed =>
    if closed then do
      let levels ← enter? levels
      .array <$> itemsToJson? levels items
    else none
  | .object fields closed =>
    if closed then do
      let levels ← enter? levels
      .ofFields <$> fieldsToJson? levels fields
    else none

def itemsToJson? (levels : Nat) : List Document → Option (List Json)
  | [] => some []
  | d :: rest => do
    let first ← d.toJson? levels
    let others ← itemsToJson? levels rest
    some (first :: others)

def fieldsToJson? (levels : Nat) : List (Option String × Document) → Option (List (String × Json))
  | [] => some []
  | (name, d) :: rest => do
    let name ← name
    let first ← d.toJson? levels
    let others ← fieldsToJson? levels rest
    some ((name, first) :: others)

end

mutual

/-- Whether a document whose value nobody wants is closed everywhere. -/
def isClosed : Document → Bool
  | .array items closed => closed && areClosed items
  | .object fields closed => closed && areFieldsClosed fields
  | _ => true

def areClosed : List Document → Bool
  | [] => true
  | d :: rest => d.isClosed && areClosed rest

def areFieldsClosed : List (Option String × Document) → Bool
  | [] => true
  | (_, d) :: rest => d.isClosed && areFieldsClosed rest

end

end Document

/-- The value of a JSON text. -/
def Json.read? (text : String) : Option Json := do
  let scan := Document.scan text.toList
  let document ← scan.document
  let rest ← scan.rest
  if Document.skipBlanks rest = [] then document.toJson? Document.nestingLimit else none

end AbiCodec
