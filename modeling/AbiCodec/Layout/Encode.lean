import AbiCodec.Layout.Basic
import AbiCodec.Value.Text
import AbiCodec.Wire.Block

/-!
# Encoding

Writes a value under a layout.  Scalars take one word.  Byte strings and texts
are a length word and the padded bytes.  Arrays and tuples are blocks, an array
of dynamic length after a word with the number of its elements.
-/

namespace AbiCodec

namespace Layout

/-- The error of a value of the wrong shape. -/
def refuse (l : Layout) (v : Value) (cause : ValueCause) : AbiError :=
  .invalidValue (l.name.getD "") l.typeText v.inspect cause

/-- The error of a value of the right shape that does not fit. -/
def refuseRange (l : Layout) (v : Value) (cause : ValueCause) : AbiError :=
  .valueOutOfRange (l.name.getD "") l.typeText v.inspect cause

/-- The word of an address, given as such or as text. -/
def addressWord (l : Layout) (v : Value) : Except AbiError Word :=
  match v with
  | .address a => .ok (a.setWidth 256)
  | .string text =>
    match Address.read text with
    | .ok a => .ok (a.setWidth 256)
    | .error e => .error (l.refuse v (.because e.message))
  | _ => .error (l.refuse v .invalidAddress)

/-- The word of a number that fits an unsigned width. -/
def unsignedWord (l : Layout) (bits : Nat) (v : Value) : Except AbiError Word :=
  let checked (w : Word) : Except AbiError Word :=
    if w.fitsUnsigned bits then .ok w else .error (l.refuseRange v .valueOutOfBounds)
  match v with
  | .uint w => checked w
  | .int w => if w.msb then .error (l.refuseRange v .valueOutOfBounds) else checked w
  | _ => .error (l.refuse v .invalidNumber)

/-- The two's complement word of a number that fits a signed width. -/
def signedWord (l : Layout) (bits : Nat) (v : Value) : Except AbiError Word :=
  let checked (w : Word) : Except AbiError Word :=
    if w.fitsSigned bits then .ok w else .error (l.refuseRange v .valueOutOfBounds)
  match v with
  | .int w => checked w
  | .uint w => if w.msb then .error (l.refuseRange v .valueOutOfBounds) else checked w
  | _ => .error (l.refuse v .invalidNumber)

/-- The bytes of a byte string of this length. -/
def fixedBytesOf (l : Layout) (size : Nat) (v : Value) : Except AbiError Bytes :=
  match v.asBytes? with
  | none => .error (l.refuse v .invalidFixedBytes)
  | some data =>
    if data.length = size then .ok data else .error (l.refuseRange v .incorrectLength)

/-- Writes a length and the padded bytes. -/
def writePayload (data : Bytes) : Writing Nat := do
  let prefixLength ← Writing.count data.length
  let length ← Writing.bytes data
  return prefixLength + length

/-- The values of the components in order, from fields by name: every component has a name
of its own, and the first field of that name is taken. -/
def keyed (l : Layout) (v : Value) (names : List (Option String))
    (fields : List (String × Value)) : Except AbiError (List Value) := do
  distinct names []
  names.mapM fun name =>
    let name := name.getD ""
    match fields.find? fun f => f.1 == name with
    | some f => .ok f.2
    | none => .error (l.refuse v (.missingComponent name))
where
  /-- Refuses the first component that has no name, or the name of one before it. -/
  distinct : List (Option String) → (seen : List String) → Except AbiError Unit
    | [], _ => .ok ()
    | none :: _, _ => .error (l.refuse v .missingNames)
    | some name :: rest, seen =>
      if seen.contains name then .error (l.refuse v .duplicateNames)
      else distinct rest (name :: seen)

/-- The values of the components in order. -/
def tupleValues (l : Layout) (names : List (Option String)) (v : Value) :
    Except AbiError (List Value) :=
  match v with
  | .tuple entries => .ok (Record.values entries)
  | .array items => .ok items
  | .struct fields => l.keyed v names fields
  | _ => .error (l.refuse v .invalidTupleValue)

mutual

/-- Writes a value, and gives the number of bytes written. -/
def encode : Layout → Value → Writing Nat
  | l@(address _), v => do Writing.word (← l.addressWord v)
  | l@(bool _), v =>
    match v with
    | .bool b => Writing.count (if b then 1 else 0)
    | _ => Writing.fail (l.refuse v .invalidBool)
  | l@(number _ width isSigned), v => do
    Writing.word (← if isSigned then l.signedWord width.bits v else l.unsignedWord width.bits v)
  | l@(fixedBytes _ width), v => do Writing.bytes (← l.fixedBytesOf width.size v)
  | l@(bytes _), v =>
    match v.asBytes? with
    | some data => writePayload data
    | none => Writing.fail (l.refuse v .invalidBytes)
  | l@(string _), v =>
    match v with
    | .string text => writePayload (utf8Bytes text)
    | _ => Writing.fail (l.refuse v .invalidString)
  | l@(null _), v =>
    match v with
    | .null => pure 0
    | _ => Writing.fail (l.refuse v .notNull)
  | l@(array _ element length), v =>
    match v with
    | .array items => do
      let counted ← match length with
        | .dynamic => Writing.count items.length
        | .fixed n =>
          if n = items.length then pure 0
          else Writing.fail (l.refuseRange v (.expectedElements n))
      let written ← Block.write
        (items.map fun item => ⟨element.isDynamic, element.encode item⟩)
      return counted + written
    | _ => Writing.fail (l.refuse v .expectedArrayValue)
  | l@(tuple _ components), v => do
    let values ← l.tupleValues (components.map name) v
    if values.length = components.length then Block.write (slots components values)
    else Writing.fail (.argumentMismatch components.length values.length v.inspect)

/-- The children of a tuple, each with its value. -/
def slots : List Layout → List Value → List Slot
  | c :: components, v :: values => ⟨c.isDynamic, c.encode v⟩ :: slots components values
  | _, _ => []

end

/-- Writes the values of a list of parameters as one block. -/
def encodeAll (components : List Layout) (values : List Value) : Writing Nat :=
  if values.length = components.length then Block.write (slots components values)
  else Writing.fail
    (.argumentMismatch components.length values.length (Value.inspectAll values))

end Layout

end AbiCodec
