import AbiCodec.AbiType.Basic
import AbiCodec.Error

/-!
# Reading the text of a type

A parameter is a type and a label.  A type is a tuple or an elementary name,
followed by array suffixes.  Plain blanks may stand before a type, before a
word of the label, and before the comma or parenthesis that ends a component.

A reader takes characters off the front of its input.  Only ASCII characters
are ever taken, so the place of an error is the same in characters and bytes.
-/

namespace AbiCodec

namespace TypeText

/-- A fault, and the input that was left when it was met. -/
structure Failure where
  fault : SyntaxFault
  rest : List Char
deriving Repr, DecidableEq

/-- What is read off the front of the input, and the rest of it. -/
abbrev Parse (α : Type) := List Char → Except Failure (α × List Char)

def fail {α : Type} (fault : SyntaxFault) : Parse α := fun rest => .error ⟨fault, rest⟩

/-- The characters of names: letters, digits, underscore and dollar sign. -/
def isWordChar (c : Char) : Bool := c.isAlphanum || c == '_' || c == '$'

def skipBlanks (input : List Char) : List Char := input.dropWhile isPlainBlank

/-- The word at the front of the input, which may be empty. -/
def wordOf (input : List Char) : List Char := input.takeWhile isWordChar

def afterWord (input : List Char) : List Char := input.dropWhile isWordChar

def startsWithDigit : List Char → Bool
  | c :: _ => c.isDigit
  | [] => false

def startsWithLetter : List Char → Bool
  | c :: _ => c.isAlpha
  | [] => false

/-- No word may follow the name. -/
def labelEnd (label : Label) : Parse Label := fun input =>
  let input := skipBlanks input
  if wordOf input = [] then .ok (label, input) else fail .unexpectedToken (afterWord input)

/-- A name may follow. -/
def labelName (label : Label) : Parse Label := fun input =>
  let input := skipBlanks input
  let word := wordOf input
  if word = [] then .ok (label, input)
  else if startsWithDigit word then fail .invalidName (afterWord input)
  else labelEnd { label with name := some (String.ofList word) } (afterWord input)

/-- The flag may follow, and then a name: a first word `indexed` is the flag. -/
def label : Parse Label := fun input =>
  let input := skipBlanks input
  if wordOf input = "indexed".toList then labelName { indexed := some true } (afterWord input)
  else labelName {} input

/-- The array suffixes after a type, no more levels than there is room for. -/
def suffixes : (room : Nat) → AbiType → Parse AbiType
  | room, element, '[' :: input =>
    let digits := input.takeWhile Char.isDigit
    match input.dropWhile Char.isDigit with
    | ']' :: rest =>
      let length? := if digits = [] then some .dynamic
        else (Decimal.readCount? digits).map ArrayLength.fixed
      match length?, room with
      | none, _ => fail .invalidLength rest
      | some _, 0 => fail .tooDeep rest
      | some length, room + 1 => suffixes room (.arrayOf element length) rest
    | rest => fail (.expected ']') rest
  | _, element, input => .ok (element, input)

/-- One component and those after it, up to the closing parenthesis.  The fuel bounds the
number of components. -/
def components (component : Parse AbiType) : (fuel : Nat) → Parse (List AbiType)
  | 0, input => fail .expectedSeparator input
  | fuel + 1, input => do
    let (first, rest) ← component input
    match skipBlanks rest with
    | ',' :: rest =>
      let (others, rest) ← components component fuel rest
      .ok (first :: others, rest)
    | ')' :: rest => .ok ([first], rest)
    | rest => fail .expectedSeparator rest

/-- A list of components in parentheses.  Each component takes a character at least, so the
length of the input is fuel enough. -/
def tupleBody (component : Parse AbiType) : Parse (List AbiType)
  | '(' :: input =>
    match skipBlanks input with
    | ')' :: rest => .ok ([], rest)
    | rest => components component (rest.length + 1) rest
  | input => fail (.expected '(') input

/-- A tuple or an elementary name, given the reader of components. -/
def base (component : Parse AbiType) : Parse AbiType := fun input =>
  let word := wordOf input
  if input.head? = some '(' then do
    let (components, rest) ← tupleBody component input
    .ok (.tuple {} components, rest)
  else if word = [] then fail .expectedType input
  else if word = "tuple".toList then do
    let (components, rest) ← tupleBody component (skipBlanks (afterWord input))
    .ok (.tuple {} components, rest)
  else if startsWithLetter word then .ok (.named (String.ofList word), afterWord input)
  else fail .invalidTypeName (afterWord input)

/-- A parameter.  At `levels = 0` no type is read; with one level more there is room for
`levels` nested levels. -/
def parameter : (levels : Nat) → Parse AbiType
  | 0, input => fail .tooDeep (skipBlanks input)
  | levels + 1, input => do
    let (bare, rest) ← base (parameter levels) (skipBlanks input)
    let (t, rest) ← suffixes levels bare rest
    let (label, rest) ← label rest
    .ok (t.withLabel label, rest)

/-- The whole input is what the reader takes, up to blanks. -/
def whole {α : Type} (source : List Char) (parse : Parse α) : Except AbiError α :=
  let located (failure : Failure) : AbiError :=
    .invalidType (String.ofList source)
      (.syntaxAt failure.fault (source.length - failure.rest.length))
  match parse source with
  | .error failure => .error (located failure)
  | .ok (result, rest) =>
    match skipBlanks rest with
    | [] => .ok result
    | rest => .error (located ⟨.trailing, rest⟩)

end TypeText

/-- The type of a text; white space around it is skipped, and the empty text is the empty
slot. -/
def AbiType.parse (text : String) : Except AbiError AbiType :=
  let source := trim text.toList
  if source = [] then .ok (.empty {}) else TypeText.whole source (TypeText.parameter (AbiType.maxDepth + 1))

/-- The types of a list of parameters, as it stands between the parentheses of a signature. -/
def AbiType.parseList (text : List Char) : Except AbiError (List AbiType) :=
  TypeText.whole ('(' :: text ++ [')']) (TypeText.tupleBody (TypeText.parameter AbiType.maxDepth))

end AbiCodec
