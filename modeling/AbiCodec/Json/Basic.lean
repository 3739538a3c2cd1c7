import AbiCodec.Json.Binary64
import AbiCodec.Text.Quoted

/-!
# JSON values

A JSON value and its two texts: the compact text, and the inspected form that
names the kind of every part.  The fields of an object are in ascending order
of their names, each name once.
-/

namespace AbiCodec

/-- A number: a natural number below `2 ^ 64`, a negative integer down to `-2 ^ 63`, or a
double. -/
inductive JsonNumber where
  | natural (n : Nat)
  | negative (magnitude : Nat)
  | double (isNegative : Bool) (magnitude : Binary64)
deriving Repr, DecidableEq

inductive Json where
  | null
  | bool (b : Bool)
  | number (n : JsonNumber)
  | string (text : String)
  | array (items : List Json)
  | object (fields : List (String × Json))
deriving Repr

instance : Inhabited Json := ⟨.null⟩

def JsonNumber.text : JsonNumber → String
  | .natural n => decimal n
  | .negative n => "-" ++ decimal n
  | .double isNegative d => String.ofList ((if isNegative then ['-'] else []) ++ d.text)

namespace Json

/-- The fields with one more, in its place; a field of that name is replaced. -/
def insertField (name : String) (value : Json) :
    List (String × Json) → List (String × Json)
  | [] => [(name, value)]
  | (other, v) :: rest =>
    if name < other then (name, value) :: (other, v) :: rest
    else if name = other then (name, value) :: rest
    else (other, v) :: insertField name value rest

/-- The object of the fields in any order, the last of repeated names. -/
def ofFields (fields : List (String × Json)) : Json :=
  .object (fields.foldl (fun sorted (name, value) => insertField name value sorted) [])

/-- The field of a name. -/
def field? (fields : List (String × Json)) (name : String) : Option Json :=
  (fields.find? fun f => f.1 == name).map Prod.snd

/-- Four hexadecimal digits. -/
def fourDigits (n : Nat) : List Char :=
  [n / 4096, n / 256, n / 16, n].map fun d => Nat.digitChar (d % 16)

def escape (c : Char) : List Char :=
  if c = '\x22' ∨ c = '\\' then ['\\', c]
  else if c = '\x08' then ['\\', 'b']
  else if c = '\x0c' then ['\\', 'f']
  else if c = '\n' then ['\\', 'n']
  else if c = '\r' then ['\\', 'r']
  else if c = '\t' then ['\\', 't']
  else if c < ' ' then '\\' :: 'u' :: fourDigits c.toNat
  else [c]

/-- The text as a JSON string. -/
def stringText (text : String) : String :=
  String.ofList ('\x22' :: text.toList.flatMap escape ++ ['\x22'])

mutual

/-- The compact text. -/
def text : Json → String
  | .null => "null"
  | .bool b => if b then "true" else "false"
  | .number n => n.text
  | .string s => stringText s
  | .array items => "[" ++ ",".intercalate (itemTexts items) ++ "]"
  | .object fields => "\x7b" ++ ",".intercalate (fieldTexts fields) ++ "\x7d"

def itemTexts : List Json → List String
  | [] => []
  | v :: rest => v.text :: itemTexts rest

def fieldTexts : List (String × Json) → List String
  | [] => []
  | (name, v) :: rest => (stringText name ++ ":" ++ v.text) :: fieldTexts rest

end

mutual

/-- The inspected form. -/
def inspect : Json → String
  | .null => "Null"
  | .bool b => if b then "Bool(true)" else "Bool(false)"
  | .number n => "Number(" ++ n.text ++ ")"
  | .string s => "String(" ++ quoted s ++ ")"
  | .array items => "Array [" ++ ", ".intercalate (inspectItems items) ++ "]"
  | .object fields => "Object \x7b" ++ ", ".intercalate (inspectFields fields) ++ "\x7d"

def inspectItems : List Json → List String
  | [] => []
  | v :: rest => v.inspect :: inspectItems rest

def inspectFields : List (String × Json) → List String
  | [] => []
  | (name, v) :: rest => (quoted name ++ ": " ++ v.inspect) :: inspectFields rest

end

end Json

end AbiCodec
