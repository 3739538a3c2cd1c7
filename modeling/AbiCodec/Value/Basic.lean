import AbiCodec.Address
import AbiCodec.IntegerText

/-!
# Values

A value of any type, canonical or not: integers are words that say whether they
are signed, byte strings say whether their length belongs to the type, and a
tuple may be given by position or by the names of its components.
-/

namespace AbiCodec

inductive Value where
  | address (a : Address)
  | bool (b : Bool)
  | uint (w : Word)
  /-- An integer in two's complement. -/
  | int (w : Word)
  | fixedBytes (data : Bytes)
  | bytes (data : Bytes)
  | string (text : String)
  | array (items : List Value)
  /-- The components in order, each with its name if it has one. -/
  | tuple (entries : List (Option String × Value))
  /-- Components by name, in any order. -/
  | struct (fields : List (String × Value))
  /-- The value of the empty slot. -/
  | null
deriving Repr

instance : Inhabited Value := ⟨.null⟩

/-- What decoding a list of parameters gives: values in order, some of them named. -/
abbrev Record := List (Option String × Value)

namespace Record

/-- The record of values without names. -/
def ofValues (values : List Value) : Record := values.map fun v => (none, v)

/-- The record of values and as many names. -/
def ofParts? (names : List (Option String)) (values : List Value) : Option Record :=
  if names.length = values.length then some (names.zip values) else none

def values (r : Record) : List Value := r.map Prod.snd

def names (r : Record) : List (Option String) := r.map Prod.fst

/-- The value at a position. -/
def at? (r : Record) (i : Nat) : Option Value := r[i]?.map Prod.snd

/-- The name of a position. -/
def nameAt? (r : Record) (i : Nat) : Option String := r[i]?.bind Prod.fst

/-- The first position that has the name. -/
def position? (r : Record) (name : String) : Option Nat :=
  r.findIdx? fun entry => entry.1 == some name

/-- The value of the first position that has the name. -/
def named? (r : Record) (name : String) : Option Value :=
  (r.find? fun entry => entry.1 == some name).map Prod.snd

theorem values_ofParts? {names : List (Option String)} {values : List Value} {r : Record}
    (h : ofParts? names values = some r) : r.values = values := by
  unfold ofParts? at h
  split at h
  · next same =>
    cases h
    exact List.map_snd_zip (Nat.le_of_eq same.symm)
  · cases h

theorem names_ofParts? {names : List (Option String)} {values : List Value} {r : Record}
    (h : ofParts? names values = some r) : r.names = names := by
  unfold ofParts? at h
  split at h
  · next same =>
    cases h
    exact List.map_fst_zip (Nat.le_of_eq same)
  · cases h

end Record

namespace Value

/-- The integer that a number denotes. -/
def integer? : Value → Option Int
  | .uint w => some w.toNat
  | .int w => some w.toInt
  | _ => none

/-- The word of a number that is not negative. -/
def asUnsigned? : Value → Option Word
  | .uint w => some w
  | .int w => if w.msb then none else some w
  | _ => none

/-- The two's complement word of a number that has one. -/
def asSigned? : Value → Option Word
  | .int w => some w
  | .uint w => if w.msb then none else some w
  | _ => none

/-- The bytes of a byte string of either sort. -/
def asBytes? : Value → Option Bytes
  | .bytes data => some data
  | .fixedBytes data => some data
  | _ => none

/-- The word for the kind of the value. -/
def kindName : Value → String
  | .address _ => "address"
  | .bool _ => "bool"
  | .uint _ => "uint"
  | .int _ => "int"
  | .fixedBytes _ => "fixed bytes"
  | .bytes _ => "bytes"
  | .string _ => "string"
  | .array _ => "array"
  | .tuple _ => "tuple"
  | .struct _ => "struct"
  | .null => "null"

mutual

/-- Equality of values that looks at no name of a tuple component. -/
def same : Value → Value → Bool
  | .address a, .address b => a == b
  | .bool a, .bool b => a == b
  | .uint a, .uint b => a == b
  | .int a, .int b => a == b
  | .fixedBytes a, .fixedBytes b => a == b
  | .bytes a, .bytes b => a == b
  | .string a, .string b => a == b
  | .array a, .array b => sameItems a b
  | .tuple a, .tuple b => sameEntries a b
  | .struct a, .struct b => sameFields a b
  | .null, .null => true
  | _, _ => false

def sameItems : List Value → List Value → Bool
  | [], [] => true
  | v :: vs, w :: ws => v.same w && sameItems vs ws
  | _, _ => false

def sameEntries : List (Option String × Value) → List (Option String × Value) → Bool
  | [], [] => true
  | (_, v) :: vs, (_, w) :: ws => v.same w && sameEntries vs ws
  | _, _ => false

def sameFields : List (String × Value) → List (String × Value) → Bool
  | [], [] => true
  | (m, v) :: vs, (n, w) :: ws => m == n && v.same w && sameFields vs ws
  | _, _ => false

end

/-- The unsigned number of a text. -/
def readUnsigned (text : String) : Except AbiError Value :=
  match IntegerText.readUnsigned? text.toList with
  | some w => .ok (.uint w)
  | none => .error (.invalidValue "" "uint256" (quoted text) .invalidUnsigned)

/-- The signed number of a text. -/
def readSigned (text : String) : Except AbiError Value :=
  match IntegerText.readSigned? text.toList with
  | some w => .ok (.int w)
  | none => .error (.invalidValue "" "int256" (quoted text) .invalidSigned)

/-- The address of a text. -/
def readAddress (text : String) : Except AbiError Value := .address <$> Address.read text

/-- The byte string of a hexadecimal text. -/
def readBytes (text : String) : Except AbiError Value :=
  match readHexText text with
  | .ok data => .ok (.bytes data)
  | .error fault => .error (.ofHexFault fault)

end Value

namespace Record

/-- Equality of records that looks at no name. -/
def same (r s : Record) : Bool := Value.sameEntries r s

end Record

end AbiCodec
