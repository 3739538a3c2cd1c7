import AbiCodec.AbiType.Text
import AbiCodec.AbiType.Grammar
import AbiCodec.Json.Reading

/-!
# Types as JSON parameters

A parameter object has a type text, a name that may be empty, and for tuples
the list of components, which the type text leaves out: there a tuple is the
word `tuple` and its array suffixes.
-/

namespace AbiCodec

structure ParameterObject where
  name : String
  typeText : String
  components : Option (List ParameterObject)
  indexed : Option Bool
deriving Repr

namespace ParameterObject

/-- The type under the array suffixes.  A suffix holds all up to the next closing bracket,
and its length may have a plus sign.  The fuel bounds the number of suffixes. -/
def applySuffixes : (fuel : Nat) → AbiType → List Char → Except TypeCause AbiType
  | _, t, [] => .ok t
  | fuel + 1, t, '[' :: rest =>
    let digits := rest.takeWhile (· ≠ ']')
    match rest.dropWhile (· ≠ ']') with
    | ']' :: rest =>
      if digits = [] then applySuffixes fuel (.arrayOf t .dynamic) rest
      else match Decimal.readPlusCount? digits with
        | some n => applySuffixes fuel (.arrayOf t (.fixed n)) rest
        | none => .error .invalidArrayLength
    | _ => .error .invalidArraySuffix
  | _, _, _ => .error .invalidArraySuffix

/-- The array type of a tuple, or the cause that refuses the suffixes. -/
def tupleType (typeText : String) (suffix : List Char) (components : List AbiType) :
    Except AbiError AbiType :=
  (applySuffixes suffix.length (.tuple {} components) suffix).mapError (.invalidType typeText)

/-- The type of a type text that holds no tuple word and no label. -/
def plainType (typeText : String) (components : Option (List ParameterObject)) :
    Except AbiError AbiType :=
  if components.isSome then .error (.invalidType typeText .componentsOnNonTuple)
  else do
    let t ← AbiType.parse typeText
    if t.name.isSome || t.indexed.isSome then .error (.invalidType typeText .nameInType)
    else .ok t

def labelOf (name : String) (indexed : Option Bool) : Label := ⟨AbiType.nameOf name, indexed⟩

mutual

/-- The type that the object describes. -/
def toType : ParameterObject → Except AbiError AbiType
  | ⟨name, typeText, components, indexed⟩ => do
    let t ← match dropLead? "tuple".toList typeText.toList with
      | some suffix =>
        match components with
        | none => .error (.invalidType typeText .tupleWithoutComponents)
        | some components => do
          let types ← toTypes components
          tupleType typeText suffix types
      | none => plainType typeText components
    .ok (t.withLabel (labelOf name indexed))

def toTypes : List ParameterObject → Except AbiError (List AbiType)
  | [] => .ok []
  | p :: rest => do
    let first ← p.toType
    let others ← toTypes rest
    .ok (first :: others)

end

/-- The type text of a parameter object: array suffixes after a name or the word `tuple`. -/
def typeTextOf : AbiType → List Char
  | .elementary _ name => name.toList
  | .empty _ => []
  | .tuple .. => "tuple".toList
  | .array _ element length => typeTextOf element ++ length.suffix

mutual

/-- The components of the tuple under the array levels. -/
def componentsOf : AbiType → Option (List ParameterObject)
  | .elementary .. => none
  | .empty _ => none
  | .tuple _ components => some (ofTypes components)
  | .array _ element _ => componentsOf element

def ofTypes : List AbiType → List ParameterObject
  | [] => []
  | t :: rest =>
    ⟨t.name.getD "", String.ofList (typeTextOf t), componentsOf t, t.indexed⟩ :: ofTypes rest

end

/-- The object that describes the type. -/
def ofType (t : AbiType) : ParameterObject :=
  ⟨t.name.getD "", String.ofList (typeTextOf t), componentsOf t, t.indexed⟩

/-- The fields of the object; the components and the flag only when they are there. -/
def fieldsOf (name typeText : String) (components : Option Json) (indexed : Option Bool) : Json :=
  .ofFields (
    [("name", .string name), ("type", .string typeText)] ++
    (components.map fun c => ("components", c)).toList ++
    (indexed.map fun b => ("indexed", .bool b)).toList)

mutual

def toJson : ParameterObject → Json
  | ⟨name, typeText, none, indexed⟩ => fieldsOf name typeText none indexed
  | ⟨name, typeText, some components, indexed⟩ =>
    fieldsOf name typeText (some (.array (allToJson components))) indexed

def allToJson : List ParameterObject → List Json
  | [] => []
  | p :: rest => p.toJson :: allToJson rest

end

/-- The fields that have been met. -/
structure Fields where
  name : Option String := none
  typeText : Option String := none
  components : Option (Option (List ParameterObject)) := none
  indexed : Option (Option Bool) := none

/-- The fields in the order they have in an array. -/
def fieldNames : List String := ["name", "type", "components", "indexed"]

open Document in
/-- Takes in one field; the components are read only for their own field. -/
def Fields.take (levels : Nat) (fields : Fields) (name : String) (d : Document)
    (components : Unit → Except Refusal (Option (List ParameterObject))) :
    Except Refusal Fields :=
  if name = "name" then do
    let name ← once fields.name (readString levels d)
    .ok { fields with name }
  else if name = "type" then do
    let typeText ← once fields.typeText (readString levels d)
    .ok { fields with typeText }
  else if name = "components" then
    if fields.components.isSome then refuse
    else do
      let components ← components ()
      .ok { fields with components := some components }
  else if name = "indexed" then do
    let indexed ← once fields.indexed (readOption readFlag levels d)
    .ok { fields with indexed }
  else if d.isClosed then .ok fields
  else refuse

def Fields.finish (fields : Fields) : Except Refusal ParameterObject := do
  let typeText ← Document.required fields.typeText
  .ok ⟨fields.name.getD "", typeText, fields.components.getD none, fields.indexed.getD none⟩

open Document in
mutual

/-- Reads a parameter object. -/
def ofDocument (levels : Nat) : Document → Except Refusal ParameterObject
  | .object fields closed => do
    let levels ← enter levels
    let fields ← takeFields levels {} fields
    if closed then fields.finish else refuse
  | .array items closed => do
    let levels ← enter levels
    let fields ← takeItems levels fieldNames {} items
    if closed then fields.finish else refuse
  | _ => refuse

def takeFields (levels : Nat) (state : Fields) :
    List (Option String × Document) → Except Refusal Fields
  | [] => .ok state
  | (none, _) :: _ => refuse
  | (some name, d) :: rest => do
    let state ← state.take levels name d fun _ => componentsOfDocument levels d
    takeFields levels state rest

def takeItems (levels : Nat) (names : List String) (state : Fields) :
    List Document → Except Refusal Fields
  | [] => .ok state
  | d :: rest =>
    match names with
    | [] => refuse
    | name :: names => do
      let state ← state.take levels name d fun _ => componentsOfDocument levels d
      takeItems levels names state rest

def componentsOfDocument (levels : Nat) :
    Document → Except Refusal (Option (List ParameterObject))
  | .null => .ok none
  | .array items closed => do
    let levels ← enter levels
    let components ← allOfDocuments levels items
    if closed then .ok (some components) else refuse
  | _ => refuse

def allOfDocuments (levels : Nat) : List Document → Except Refusal (List ParameterObject)
  | [] => .ok []
  | d :: rest => do
    let first ← ofDocument levels d
    let others ← allOfDocuments levels rest
    .ok (first :: others)

end

end ParameterObject

namespace AbiType

/-- Reads a type from a parameter object; a type that is refused gives its own reason. -/
def ofDocument : Document.Reader AbiType := fun levels d => do
  let object ← ParameterObject.ofDocument levels d
  object.toType.mapError fun e => some e.message

/-- The type of a JSON text that holds a parameter object. -/
def ofJsonText (text : String) : Except AbiError AbiType := Document.readText ofDocument text

/-- The parameter object of a type, as JSON. -/
def toJson (t : AbiType) : Json := (ParameterObject.ofType t).toJson

end AbiType

end AbiCodec
