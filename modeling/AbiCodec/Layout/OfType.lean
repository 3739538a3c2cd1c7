import AbiCodec.AbiType.Grammar
import AbiCodec.Layout.Basic
import AbiCodec.Settings

/-!
# The layout of a type

A type has a layout when its names are real, it nests no deeper than the
settings allow, and no fixed-length array or tuple in it lays out more words
than they allow.
-/

namespace AbiCodec

namespace Layout

/-- The sign and the digits of the name of a number type. -/
def numberName? (name : List Char) : Option (Bool × List Char) :=
  match dropLead? "uint".toList name with
  | some digits => if digits.all Char.isDigit then some (false, digits) else none
  | none =>
    match dropLead? "int".toList name with
    | some digits => if digits.all Char.isDigit then some (true, digits) else none
    | none => none

/-- The digits of the name of a byte string type of fixed length. -/
def fixedBytesName? (name : List Char) : Option (List Char) :=
  match dropLead? "bytes".toList name with
  | some digits => if digits ≠ [] ∧ digits.all Char.isDigit then some digits else none
  | none => none

theorem eq_of_numberName? {name digits : List Char} {isSigned : Bool}
    (h : numberName? name = some (isSigned, digits)) :
    name = (if isSigned then "int".toList else "uint".toList) ++ digits ∧
      ∀ c ∈ digits, c.isDigit = true := by
  rw [numberName?] at h
  split at h
  · next unsigned =>
    split at h
    · next all =>
      cases h
      exact ⟨eq_append_of_dropLead? unsigned, List.all_eq_true.1 all⟩
    · cases h
  · split at h
    · next signed =>
      split at h
      · next all =>
        cases h
        exact ⟨eq_append_of_dropLead? signed, List.all_eq_true.1 all⟩
      · cases h
    · cases h

theorem eq_of_fixedBytesName? {name digits : List Char} (h : fixedBytesName? name = some digits) :
    name = "bytes".toList ++ digits ∧ digits ≠ [] ∧ ∀ c ∈ digits, c.isDigit = true := by
  rw [fixedBytesName?] at h
  split at h
  · next lead =>
    split at h
    · next digital =>
      cases h
      exact ⟨eq_append_of_dropLead? lead, digital.1, List.all_eq_true.1 digital.2⟩
    · cases h
  · cases h

/-- The width of a number type in bits is a positive multiple of eight up to 256, and 256
when it is left out. -/
def numberWidth? (digits : List Char) : Option ByteWidth :=
  let bits := if digits = [] then 256 else (Decimal.readCount? digits).getD 0
  if bits % 8 = 0 then ByteWidth.ofNat? (bits / 8) else none

def fixedBytesWidth? (digits : List Char) : Option ByteWidth :=
  ByteWidth.ofNat? ((Decimal.readCount? digits).getD 0)

/-- The layout of an elementary name. -/
def ofElementary (typeName : String) (name : Option String) : Except AbiError Layout :=
  if typeName = "address" then .ok (.address name)
  else if typeName = "bool" then .ok (.bool name)
  else if typeName = "string" then .ok (.string name)
  else if typeName = "bytes" then .ok (.bytes name)
  else if typeName = "" then .ok (.null name)
  else match numberName? typeName.toList with
    | some (isSigned, digits) =>
      match numberWidth? digits with
      | some width => .ok (.number name width isSigned)
      | none => .error (.invalidType typeName .invalidBitLength)
    | none =>
      match fixedBytesName? typeName.toList with
      | some digits =>
        match fixedBytesWidth? digits with
        | some width => .ok (.fixedBytes name width)
        | none => .error (.invalidType typeName .invalidBytesLength)
      | none => .error (.invalidType typeName .unknownType)

/-- The layout itself when its static words are within the limit. -/
def limited (limit : Nat) (t : AbiType) (l : Layout) : Except AbiError Layout :=
  let refusal : AbiError := .invalidType t.canonicalText (.layoutTooLarge limit)
  match l.staticWords? with
  | some words => if words ≤ limit then .ok l else .error refusal
  | none => .error refusal

mutual

/-- The layout of a type of any depth, children first. -/
def build (limit : Nat) : AbiType → Except AbiError Layout
  | .empty label => .ok (.null label.name)
  | .elementary label typeName => ofElementary typeName label.name
  | .array label element length => do
    let inner ← build limit element
    limited limit (.array label element length) (.array label.name inner length)
  | .tuple label components => do
    let inner ← buildAll limit components
    limited limit (.tuple label components) (.tuple label.name inner)

def buildAll (limit : Nat) : List AbiType → Except AbiError (List Layout)
  | [] => .ok []
  | t :: rest => do
    let first ← build limit t
    let others ← buildAll limit rest
    .ok (first :: others)

end

/-- The layout of a type under the settings. -/
def ofType (settings : Settings) (t : AbiType) : Except AbiError Layout :=
  if settings.maxDepth < t.depth then
    .error (.invalidType t.canonicalText (.tooDeep t.depth settings.maxDepth))
  else build settings.maxStaticWords t

end Layout

end AbiCodec
