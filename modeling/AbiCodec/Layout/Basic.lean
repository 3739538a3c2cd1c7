import AbiCodec.AbiType.Text
import AbiCodec.Value.Basic

/-!
# Layouts

The layout of a type on the wire: the tree of a type whose names are real.
Widths are in range by their type; `Layout.ofType` says which types have a
layout.
-/

namespace AbiCodec

/-- A width of one to 32 bytes. -/
structure ByteWidth where
  size : Nat
  pos : 0 < size
  le_wordSize : size ≤ wordSize
deriving DecidableEq

namespace ByteWidth

def ofNat? (size : Nat) : Option ByteWidth :=
  if h : 0 < size ∧ size ≤ wordSize then some ⟨size, h.1, h.2⟩ else none

def bits (width : ByteWidth) : Nat := width.size * 8

theorem size_of_ofNat? {size : Nat} {width : ByteWidth} (h : ofNat? size = some width) :
    width.size = size := by
  rw [ofNat?] at h
  split at h
  · cases h
    rfl
  · cases h

end ByteWidth

/-- The layout of a parameter; each node has the name of its label. -/
inductive Layout where
  | address (name : Option String)
  | bool (name : Option String)
  | number (name : Option String) (width : ByteWidth) (isSigned : Bool)
  | fixedBytes (name : Option String) (width : ByteWidth)
  | bytes (name : Option String)
  | string (name : Option String)
  | null (name : Option String)
  | array (name : Option String) (element : Layout) (length : ArrayLength)
  | tuple (name : Option String) (components : List Layout)

namespace Layout

def name : Layout → Option String
  | address name => name
  | bool name => name
  | number name _ _ => name
  | fixedBytes name _ => name
  | bytes name => name
  | string name => name
  | null name => name
  | array name _ _ => name
  | tuple name _ => name

def numberText (width : ByteWidth) (isSigned : Bool) : List Char :=
  (if isSigned then "int".toList else "uint".toList) ++ Decimal.ofNat width.bits

def fixedBytesText (width : ByteWidth) : List Char := "bytes".toList ++ Decimal.ofNat width.size

/-- The name of the kind, as a hook is given it. -/
def kindName : Layout → String
  | address _ => "address"
  | bool _ => "bool"
  | number _ width isSigned => String.ofList (numberText width isSigned)
  | fixedBytes _ width => String.ofList (fixedBytesText width)
  | bytes _ => "bytes"
  | string _ => "string"
  | null _ => "null"
  | array .. => "array"
  | tuple .. => "tuple"

mutual

/-- The type text of the layout. -/
def typeChars : Layout → List Char
  | address _ => "address".toList
  | bool _ => "bool".toList
  | number _ width isSigned => numberText width isSigned
  | fixedBytes _ width => fixedBytesText width
  | bytes _ => "bytes".toList
  | string _ => "string".toList
  | null _ => []
  | array _ element length => element.typeChars ++ length.suffix
  | tuple _ components => '(' :: componentChars components ++ [')']

def componentChars : List Layout → List Char
  | [] => []
  | [c] => c.typeChars
  | c :: rest => c.typeChars ++ ',' :: componentChars rest

end

def typeText (l : Layout) : String := String.ofList l.typeChars

mutual

/-- Whether the encoding goes to the tails of its block. -/
def isDynamic : Layout → Bool
  | bytes _ => true
  | string _ => true
  | array _ element length => length == .dynamic || element.isDynamic
  | tuple _ components => anyDynamic components
  | _ => false

def anyDynamic : List Layout → Bool
  | [] => false
  | c :: rest => c.isDynamic || anyDynamic rest

end

mutual

/-- The bytes that the layout takes in the heads of its block, clamped to a count. -/
def headSize : Layout → Nat
  | null _ => 0
  | array _ element (.fixed n) =>
    if element.isDynamic then wordSize else saturatingMul element.headSize n
  | tuple _ components => if anyDynamic components then wordSize else headSizes components
  | _ => wordSize

def headSizes : List Layout → Nat
  | [] => 0
  | c :: rest => saturatingAdd c.headSize (headSizes rest)

end

mutual

/-- The words of static layout, a value without bytes counted as one word; none when they are
too many to count. -/
def staticWords? : Layout → Option Nat
  | array _ element (.fixed n) => element.staticWords?.bind fun words => count? (words * n)
  | tuple _ components => (max 1) <$> staticWordsFrom? 0 components
  | _ => some 1

/-- The words of the components, added to those before them. -/
def staticWordsFrom? (words : Nat) : List Layout → Option Nat
  | [] => some words
  | c :: rest => c.staticWords?.bind fun own =>
    (count? (words + own)).bind fun words => staticWordsFrom? words rest

end

end Layout

end AbiCodec
