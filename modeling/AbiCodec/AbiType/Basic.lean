import AbiCodec.Count

/-!
# Types

The tree of a type, as its text spells it: elementary names, arrays, tuples and
the empty slot, each with an optional label.  Nothing here knows which names
are real types.
-/

namespace AbiCodec

/-- The length of an array type: counted on the wire, or part of the type. -/
inductive ArrayLength where
  | dynamic
  | fixed (count : Nat)
deriving Repr, DecidableEq

/-- What may stand after a type: the flag of an event parameter, and a name. -/
structure Label where
  name : Option String := none
  indexed : Option Bool := none
deriving Repr, DecidableEq

inductive AbiType where
  | elementary (label : Label) (name : String)
  | array (label : Label) (element : AbiType) (length : ArrayLength)
  | tuple (label : Label) (components : List AbiType)
  | empty (label : Label)
deriving Repr

instance : Inhabited AbiType := ⟨.empty {}⟩

namespace AbiType

/-- The deepest nesting that the text of a type may have. -/
def maxDepth : Nat := 64

/-- The short names of the widest integers stand for the long ones. -/
def fullName (name : String) : String :=
  if name = "uint" then "uint256" else if name = "int" then "int256" else name

/-- The elementary type of a name, without a label. -/
def named (name : String) : AbiType := .elementary {} (fullName name)

def arrayOf (element : AbiType) (length : ArrayLength) : AbiType := .array {} element length

def label : AbiType → Label
  | .elementary label _ => label
  | .array label _ _ => label
  | .tuple label _ => label
  | .empty label => label

/-- The type under another label. -/
def withLabel (label : Label) : AbiType → AbiType
  | .elementary _ name => .elementary label name
  | .array _ element length => .array label element length
  | .tuple _ components => .tuple label components
  | .empty _ => .empty label

def name (t : AbiType) : Option String := t.label.name

def indexed (t : AbiType) : Option Bool := t.label.indexed

/-- Whether the parameter is marked as indexed. -/
def isIndexed (t : AbiType) : Bool := t.label.indexed == some true

/-- A name is not empty: the empty text takes the name away. -/
def nameOf (text : String) : Option String := if text = "" then none else some text

def withName (text : String) (t : AbiType) : AbiType :=
  t.withLabel { t.label with name := nameOf text }

def withIndexed (flag : Bool) (t : AbiType) : AbiType :=
  t.withLabel { t.label with indexed := some flag }

/-- The elementary name, or the word for what the type is. -/
def baseName : AbiType → String
  | .elementary _ name => name
  | .array .. => "array"
  | .tuple .. => "tuple"
  | .empty _ => ""

/-- The length of an array as a signed 64-bit number: minus one when it is dynamic, and
lengths past the signed range wrap. -/
def declaredLength? : AbiType → Option Int
  | .array _ _ .dynamic => some (-1)
  | .array _ _ (.fixed n) => some ((n : Int).bmod countLimit)
  | _ => none

def element? : AbiType → Option AbiType
  | .array _ element _ => some element
  | _ => none

def components? : AbiType → Option (List AbiType)
  | .tuple _ components => some components
  | _ => none

mutual

/-- The levels of arrays and tuples above the deepest leaf. -/
def depth : AbiType → Nat
  | .elementary .. => 0
  | .empty _ => 0
  | .array _ element _ => 1 + element.depth
  | .tuple _ components => 1 + maxDepthOf components

def maxDepthOf : List AbiType → Nat
  | [] => 0
  | t :: rest => max t.depth (maxDepthOf rest)

end

theorem label_withLabel (label : Label) (t : AbiType) : (t.withLabel label).label = label := by
  cases t <;> rfl

theorem withLabel_label (t : AbiType) : t.withLabel t.label = t := by
  cases t <;> rfl

end AbiType

end AbiCodec
