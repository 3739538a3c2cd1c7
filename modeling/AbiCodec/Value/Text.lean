import AbiCodec.Value.Basic

/-!
# The text of a value

A value has two written forms.  The plain form is for a reader: numbers in
decimal, addresses with their checksum, bytes in hexadecimal.  The inspected
form names the kind of every part and is what error texts show.
-/

namespace AbiCodec

def boolText (b : Bool) : String := if b then "true" else "false"

/-- The bytes as decimal numbers in brackets. -/
def inspectBytes (data : Bytes) : String :=
  "[" ++ ", ".intercalate (data.map fun b => decimal b.toNat) ++ "]"

/-- An optional name, with the word that says whether it is there. -/
def inspectName : Option String → String
  | some name => "Some(" ++ quoted name ++ ")"
  | none => "None"

namespace Value

mutual

/-- The plain form. -/
def plain : Value → String
  | .address a => a.text
  | .bool b => boolText b
  | .uint w => decimal w.toNat
  | .int w => decimalInt w.toInt
  | .fixedBytes data => hexText data
  | .bytes data => hexText data
  | .string text => quoted text
  | .array items => "[" ++ ", ".intercalate (plainItems items) ++ "]"
  | .tuple entries => "(" ++ ", ".intercalate (plainEntries entries) ++ ")"
  | .struct fields => "\x7b" ++ ", ".intercalate (plainFields fields) ++ "\x7d"
  | .null => "null"

def plainItems : List Value → List String
  | [] => []
  | v :: rest => v.plain :: plainItems rest

def plainEntries : List (Option String × Value) → List String
  | [] => []
  | (some name, v) :: rest => (name ++ ": " ++ v.plain) :: plainEntries rest
  | (none, v) :: rest => v.plain :: plainEntries rest

def plainFields : List (String × Value) → List String
  | [] => []
  | (name, v) :: rest => (name ++ ": " ++ v.plain) :: plainFields rest

end

mutual

/-- The inspected form. -/
def inspect : Value → String
  | .address a => "Address(" ++ hexText a.toBytes ++ ")"
  | .bool b => "Bool(" ++ boolText b ++ ")"
  | .uint w => "Uint(" ++ decimal w.toNat ++ ")"
  | .int w => "Int(" ++ decimalInt w.toInt ++ ")"
  | .fixedBytes data => "FixedBytes(" ++ inspectBytes data ++ ")"
  | .bytes data => "Bytes(" ++ inspectBytes data ++ ")"
  | .string text => "String(" ++ quoted text ++ ")"
  | .array items => "Array([" ++ ", ".intercalate (inspectItems items) ++ "])"
  | .tuple entries =>
    "Tuple(Record \x7b values: [" ++ ", ".intercalate (inspectEntries entries) ++ "], names: [" ++
      ", ".intercalate (entryNames entries) ++ "] \x7d)"
  | .struct fields => "Struct([" ++ ", ".intercalate (inspectFields fields) ++ "])"
  | .null => "Null"

def inspectItems : List Value → List String
  | [] => []
  | v :: rest => v.inspect :: inspectItems rest

def inspectEntries : List (Option String × Value) → List String
  | [] => []
  | (_, v) :: rest => v.inspect :: inspectEntries rest

def entryNames : List (Option String × Value) → List String
  | [] => []
  | (name, _) :: rest => inspectName name :: entryNames rest

def inspectFields : List (String × Value) → List String
  | [] => []
  | (name, v) :: rest => ("(" ++ quoted name ++ ", " ++ v.inspect ++ ")") :: inspectFields rest

end

/-- The inspected form of a list of values. -/
def inspectAll (values : List Value) : String :=
  "[" ++ ", ".intercalate (inspectItems values) ++ "]"

end Value

namespace Record

/-- The plain form of a record. -/
def plain (r : Record) : String := (Value.tuple r).plain

/-- The inspected form of a record. -/
def inspect (r : Record) : String :=
  "Record \x7b values: [" ++ ", ".intercalate (Value.inspectEntries r) ++ "], names: [" ++
    ", ".intercalate (Value.entryNames r) ++ "] \x7d"

/-- The text about a name that no position of a record has. -/
def missingNameText (name : String) : String := "no value named " ++ quoted name ++ " in record"

end Record

end AbiCodec
