import AbiCodec.AbiType.Text
import AbiCodec.Json.Basic
import AbiCodec.Value.Text

/-!
# Values and JSON

A JSON value is taken as a value of a type: integers may be numbers, decimal
texts or hexadecimal texts, bytes are hexadecimal texts, and a tuple is an
array, or an object by the names of its components.  The other way, numbers
become decimal texts and tuples arrays.
-/

namespace AbiCodec

namespace Value

/-- The error of a JSON value that is none of the type. -/
def mismatch (t : AbiType) (json : Json) (cause : ValueCause) : AbiError :=
  .invalidValue (t.name.getD "") t.canonicalText json.inspect cause

/-- The number of a JSON number or text; a minus sign makes a text signed. -/
def numberOfJson? : Json → Option Value
  | .number (.natural n) => some (.uint (BitVec.ofNat 256 n))
  | .number (.negative n) => some (.int (-BitVec.ofNat 256 n))
  | .string text =>
    if (trimStart text.toList).head? = some '-' then
      .int <$> IntegerText.readSigned? text.toList
    else .uint <$> IntegerText.readUnsigned? text.toList
  | _ => none

def bytesOfJson (t : AbiType) (json : Json) : Except AbiError Bytes :=
  match json with
  | .string text =>
    if (IntegerText.afterHexMark? text.toList).isSome then
      (readHexText text).mapError fun fault =>
        mismatch t json (.because fault.message)
    else .error (mismatch t json .expectedHexString)
  | _ => .error (mismatch t json .expectedHexString)

def elementaryOfJson (t : AbiType) (typeName : String) (json : Json) : Except AbiError Value :=
  if typeName = "address" then
    match json with
    | .string text =>
      match Address.read text with
      | .ok a => .ok (.address a)
      | .error e => .error (mismatch t json (.because e.message))
    | _ => .error (mismatch t json .expectedAddressString)
  else if typeName = "bool" then
    match json with
    | .bool b => .ok (.bool b)
    | _ => .error (mismatch t json .expectedBool)
  else if typeName = "string" then
    match json with
    | .string text => .ok (.string text)
    | _ => .error (mismatch t json .expectedString)
  else if typeName = "bytes" then .bytes <$> bytesOfJson t json
  else if (dropLead? "bytes".toList typeName.toList).isSome then
    .fixedBytes <$> bytesOfJson t json
  else if (dropLead? "uint".toList typeName.toList).isSome ||
      (dropLead? "int".toList typeName.toList).isSome then
    match numberOfJson? json with
    | some v => .ok v
    | none => .error (mismatch t json .invalidNumber)
  else .error (.invalidType typeName .unknownType)

mutual

/-- The value of a type that the JSON value stands for. -/
def ofJson : AbiType → Json → Except AbiError Value
  | t@(.empty _), json =>
    match json with
    | .null => .ok .null
    | _ => .error (mismatch t json .expectedNull)
  | t@(.array _ element _), json =>
    match json with
    | .array items => .array <$> items.mapM fun item => ofJson element item
    | _ => .error (mismatch t json .expectedArray)
  | t@(.tuple _ components), json =>
    match json with
    | .array items =>
      if items.length = components.length then .tuple <$> entriesOfJson components items
      else .error (.argumentMismatch components.length items.length json.text)
    | .object fields =>
      .struct <$> fieldsOfJson (mismatch t json) fields components
    | _ => .error (mismatch t json .expectedArrayOrObject)
  | t@(.elementary _ typeName), json => elementaryOfJson t typeName json

/-- The entries of a tuple from the items of an array. -/
def entriesOfJson : List AbiType → List Json → Except AbiError (List (Option String × Value))
  | t :: types, json :: items => do
    let first ← ofJson t json
    let others ← entriesOfJson types items
    .ok ((t.name, first) :: others)
  | _, _ => .ok []

/-- The fields of a tuple from the fields of an object. -/
def fieldsOfJson (refuse : ValueCause → AbiError) (fields : List (String × Json)) :
    List AbiType → Except AbiError (List (String × Value))
  | [] => .ok []
  | t :: types =>
    match t.name with
    | none => .error (refuse .unnamedComponents)
    | some name =>
      match Json.field? fields name with
      | none => .error (refuse (.missingComponent name))
      | some json => do
        let first ← ofJson t json
        let others ← fieldsOfJson refuse fields types
        .ok ((name, first) :: others)

end

mutual

/-- The JSON value that stands for the value. -/
def toJson : Value → Json
  | .address a => .string a.text
  | .bool b => .bool b
  | .uint w => .string (decimal w.toNat)
  | .int w => .string (decimalInt w.toInt)
  | .fixedBytes data => .string (hexText data)
  | .bytes data => .string (hexText data)
  | .string text => .string text
  | .array items => .array (itemsToJson items)
  | .tuple entries => .array (entriesToJson entries)
  | .struct fields => .ofFields (fieldsToJson fields)
  | .null => .null

def itemsToJson : List Value → List Json
  | [] => []
  | v :: rest => v.toJson :: itemsToJson rest

def entriesToJson : List (Option String × Value) → List Json
  | [] => []
  | (_, v) :: rest => v.toJson :: entriesToJson rest

def fieldsToJson : List (String × Value) → List (String × Json)
  | [] => []
  | (name, v) :: rest => (name, v.toJson) :: fieldsToJson rest

end

end Value

end AbiCodec
