import AbiCodec.Layout.Basic
import AbiCodec.Wire.Reader

/-!
# Decoding

Reads a value under a layout.  A dynamic child of a block is read where its
head points, counted from the start of the block.  Every value passes through
the hook of the reader, children before their array or tuple.
-/

namespace AbiCodec

/-- A child of a block, and how to read it. -/
structure Part where
  isDynamic : Bool
  kindName : String
  read : Reading Value

namespace Part

/-- Reads a child of the block that starts at `base`. -/
def readIn (base : Reader) (part : Part) : Reading Value :=
  if part.isDynamic then do
    let offset ← Reading.count part.kindName
    let place ← Reading.ofExcept (base.sub offset)
    Reading.elsewhere place part.read
  else part.read

/-- Reads the children of the block that starts at `base`, in order. -/
def readAllIn (base : Reader) : List Part → Reading (List Value)
  | [] => pure []
  | part :: rest => do
    let v ← part.readIn base
    let vs ← readAllIn base rest
    return v :: vs

end Part

/-- Reads the children of the block that starts at the cursor. -/
def readBlock (parts : List Part) : Reading (List Value) := do
  let base ← Reading.inspect fun r => r.sub 0
  Part.readAllIn base parts

namespace Layout

/-- Reads a length word and so many bytes; the padding of the last ones may be missing from
loose data. -/
def readPayload (typeName : String) : Reading Bytes := do
  let length ← Reading.count typeName
  Reading.bytes length true

/-- Reads an address word, whose high bytes are zero. -/
def readAddress : Reading Value := fun r =>
  match Reading.word.runFrom r with
  | (.error e, after) => (.error e, after)
  | (.ok w, after) =>
    if w.toNat < 1 <<< 160 then (.ok (.address (w.setWidth 160)), after)
    else (.error (.malformedData "address" .addressHighBytes r.data.length r.offset), after)

def readText : Reading Value := fun r =>
  match (readPayload "string").runFrom r with
  | (.error e, after) => (.error e, after)
  | (.ok data, after) =>
    match Utf8.decode data with
    | .ok text => (.ok (.string text), after)
    | .error fault =>
      (.error (.malformedData "string" (.invalidUtf8 fault) r.data.length r.offset), after)

/-- The number of elements of an array of fixed length, when the rest of the data can hold
their heads. -/
def fixedCount (l element : Layout) (n : Nat) : Reading Nat := do
  let remaining ← Reading.inspect Reader.remaining
  if remaining < saturatingMul element.headSize n then
    Reading.inspect fun r =>
      .error (.malformedData l.typeText .insufficientLength r.data.length r.offset)
  else pure n

/-- Reads the number of elements of an array, when the data has a word for each. -/
def dynamicCount (l : Layout) : Reading Nat := fun r =>
  match (Reading.count "array").runFrom r with
  | (.error e, after) => (.error e, after)
  | (.ok n, after) =>
    if r.data.length < saturatingMul n wordSize then
      (.error (.malformedData l.typeText .insufficientLength r.data.length r.offset), after)
    else (.ok n, after)

/-- The record of the values under the names of the components. -/
def recordOf (names : List (Option String)) (values : List Value) : Reading Record :=
  match Record.ofParts? names values with
  | some record => pure record
  | none => Reading.fail (.internal .record)

mutual

/-- Reads a value. -/
def decode : Layout → Reading Value
  | l@(address _) => do Reading.coerce l.kindName (← readAddress)
  | l@(bool _) => do
    let w ← Reading.word
    Reading.coerce l.kindName (.bool (w != 0))
  | l@(number _ _ isSigned) => do
    let w ← Reading.word
    Reading.coerce l.kindName (if isSigned then .int w else .uint w)
  | l@(fixedBytes _ width) => do
    let data ← Reading.bytes width.size false
    Reading.coerce l.kindName (.fixedBytes data)
  | l@(bytes _) => do
    let data ← readPayload "bytes"
    Reading.coerce l.kindName (.bytes data)
  | l@(string _) => do Reading.coerce l.kindName (← readText)
  | l@(null _) => do
    let _ ← Reading.bytes 0 false
    Reading.coerce l.kindName .null
  | l@(array _ element length) => do
    let count ← match length with
      | .fixed n => l.fixedCount element n
      | .dynamic => l.dynamicCount
    let part : Part := ⟨element.isDynamic, element.kindName, element.decode⟩
    let items ← readBlock (List.replicate count part)
    Reading.coerce l.kindName (.array items)
  | l@(tuple _ components) => do
    let values ← readBlock (parts components)
    let record ← recordOf (components.map name) values
    Reading.coerce l.kindName (.tuple record)

/-- The children of a tuple. -/
def parts : List Layout → List Part
  | [] => []
  | c :: rest => ⟨c.isDynamic, c.kindName, c.decode⟩ :: parts rest

end

/-- Reads the values of a list of parameters as one block; the record itself does not pass
through the hook. -/
def decodeAll (components : List Layout) : Reading Record := do
  let values ← readBlock (parts components)
  recordOf (components.map name) values

end Layout

end AbiCodec
