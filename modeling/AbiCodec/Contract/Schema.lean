import AbiCodec.AbiType.Schema
import AbiCodec.Contract.Interface

/-!
# Contract interfaces as JSON

Functions, events and constructors are objects of a document; an interface is
an array of them, each with a tag that says what it is.
-/

namespace AbiCodec

open Document

namespace StateMutability

/-- Reads the keyword, or an object whose one field is the keyword with no value.  In an item
of an interface an empty object is no value too. -/
def ofDocument (isItem : Bool) : Document.Reader StateMutability
  | _, .string text => do required (ofKeyword? (← required text))
  | levels, .object [(name, d)] true => do
    let _ ← enter levels
    let isEmpty : Bool := match d with
      | .null => true
      | .object [] true => isItem
      | _ => false
    if isEmpty then required (ofKeyword? (← required name)) else refuse
  | _, _ => refuse

end StateMutability

/-- The fields of a function, an event or a constructor that have been met. -/
structure ItemFields where
  name : Option String := none
  inputs : Option (List AbiType) := none
  outputs : Option (List AbiType) := none
  mutability : Option StateMutability := none
  isAnonymous : Option Bool := none

/-- Takes in one field. -/
def ItemFields.take (isItem : Bool) (levels : Nat) (fields : ItemFields) (name : String)
    (d : Document) : Except Refusal ItemFields :=
  if name = "name" then do
    let name ← once fields.name (readString levels d)
    .ok { fields with name }
  else if name = "inputs" then do
    let inputs ← once fields.inputs (readList AbiType.ofDocument levels d)
    .ok { fields with inputs }
  else if name = "outputs" then do
    let outputs ← once fields.outputs (readList AbiType.ofDocument levels d)
    .ok { fields with outputs }
  else if name = "stateMutability" then do
    let mutability ← once fields.mutability (StateMutability.ofDocument isItem levels d)
    .ok { fields with mutability }
  else do
    let isAnonymous ← once fields.isAnonymous (readFlag levels d)
    .ok { fields with isAnonymous }

def readItemFields (isItem : Bool) (names : List String) : Document.Reader ItemFields :=
  readFields names {} (ItemFields.take isItem)

def typesToJson (types : List AbiType) : Json := .array (types.map AbiType.toJson)

namespace Function

/-- The fields in the order they have in an array. -/
def fieldNames : List String := ["name", "inputs", "outputs", "stateMutability"]

def ofDocument (isItem : Bool) : Document.Reader Function := fun levels d => do
  let fields ← readItemFields isItem fieldNames levels d
  let name ← required fields.name
  return ⟨name, fields.inputs.getD [], fields.outputs.getD [],
    fields.mutability.getD .nonpayable⟩

/-- The function of a JSON text. -/
def ofJsonText (text : String) : Except AbiError Function := readText (ofDocument false) text

def toJson (f : Function) : Json :=
  .ofFields [("name", .string f.name), ("inputs", typesToJson f.inputs),
    ("outputs", typesToJson f.outputs), ("stateMutability", .string f.mutability.keyword)]

end Function

namespace Event

def fieldNames : List String := ["name", "inputs", "anonymous"]

def ofDocument (isItem : Bool) : Document.Reader Event := fun levels d => do
  let fields ← readItemFields isItem fieldNames levels d
  let name ← required fields.name
  return ⟨name, fields.inputs.getD [], fields.isAnonymous.getD false⟩

/-- The event of a JSON text. -/
def ofJsonText (text : String) : Except AbiError Event := readText (ofDocument false) text

def toJson (e : Event) : Json :=
  .ofFields [("name", .string e.name), ("inputs", typesToJson e.inputs),
    ("anonymous", .bool e.isAnonymous)]

end Event

namespace Constructor

def fieldNames : List String := ["inputs", "stateMutability"]

def ofDocument (isItem : Bool) : Document.Reader Constructor := fun levels d => do
  let fields ← readItemFields isItem fieldNames levels d
  return ⟨fields.inputs.getD [], fields.mutability.getD .nonpayable⟩

def toJson (c : Constructor) : Json :=
  .ofFields [("inputs", typesToJson c.inputs), ("stateMutability", .string c.mutability.keyword)]

end Constructor

namespace ContractItem

/-- Reads the rest of an item by its tag; an item of another tag is well-formed as it is. -/
def ofTagged (tag : String) : Document.Reader ContractItem := fun levels d =>
  if tag = "function" then .function <$> Function.ofDocument true levels d
  else if tag = "event" then .event <$> Event.ofDocument true levels d
  else if tag = "constructor" then .constructor <$> Constructor.ofDocument true levels d
  else match d with
    | .array (_ :: _) _ => refuse
    | _ => .ok .other

/-- Reads an item: an object with a field `type`, or an array that starts with the tag.  All
of an item has to be a value before any part of it is looked at. -/
def ofDocument : Document.Reader ContractItem := fun levels d => do
  let _ ← required (d.toJson? levels)
  match d with
  | .object fields closed =>
    let tags := fields.filter fun f => f.1 == some "type"
    let others := fields.filter fun f => !(f.1 == some "type")
    match tags with
    | [(_, .string (some tag))] => ofTagged tag levels (.object others closed)
    | _ => refuse
  | .array (.string (some tag) :: items) closed => ofTagged tag levels (.array items closed)
  | _ => refuse

end ContractItem

/-- The interface of a JSON text. -/
def ContractInterface.ofJsonText (text : String) : Except AbiError ContractInterface :=
  .ofItems <$> readText (readList ContractItem.ofDocument) text

end AbiCodec
