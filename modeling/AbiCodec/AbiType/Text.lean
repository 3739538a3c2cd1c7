import AbiCodec.AbiType.Basic
import AbiCodec.Text.Decimal

/-!
# The text of a type

A type is written in two styles.  The canonical style is the one that
signatures are hashed in: no labels, components divided by a comma.  The full
style keeps the labels and says `tuple` before a list of components.
-/

namespace AbiCodec

inductive TypeStyle where
  | canonical
  | full
deriving Repr, DecidableEq

/-- The suffix that an array length adds to the text of the element. -/
def ArrayLength.suffix : ArrayLength → List Char
  | .dynamic => ['[', ']']
  | .fixed n => '[' :: Decimal.ofNat n ++ [']']

/-- The words of a label, each after a space. -/
def Label.text (label : Label) : List Char :=
  (if label.indexed == some true then " indexed".toList else []) ++
    (match label.name with
    | some name => ' ' :: name.toList
    | none => [])

namespace TypeStyle

def tupleWord : TypeStyle → List Char
  | .canonical => []
  | .full => "tuple".toList

def separator : TypeStyle → List Char
  | .canonical => [',']
  | .full => [',', ' ']

def labelText (style : TypeStyle) (label : Label) : List Char :=
  match style with
  | .canonical => []
  | .full => label.text

end TypeStyle

namespace AbiType

mutual

/-- The text of the type without its own label. -/
def bareText (style : TypeStyle) : AbiType → List Char
  | .elementary _ name => name.toList
  | .empty _ => []
  | .array _ element length => element.bareText style ++ length.suffix
  | .tuple _ components =>
    style.tupleWord ++ '(' :: componentsText style components ++ [')']

def componentsText (style : TypeStyle) : List AbiType → List Char
  | [] => []
  | [t] => t.bareText style ++ style.labelText t.label
  | t :: rest =>
    t.bareText style ++ style.labelText t.label ++ style.separator ++ componentsText style rest

end

def text (style : TypeStyle) (t : AbiType) : List Char :=
  t.bareText style ++ style.labelText t.label

theorem componentsText_eq_intercalate (style : TypeStyle) (types : List AbiType) :
    componentsText style types = style.separator.intercalate (types.map (text style)) := by
  induction types with
  | nil => rfl
  | cons t types ih =>
    cases types with
    | nil => simp [componentsText, text]
    | cons next types =>
      rw [List.map_cons] at ih
      simp [componentsText, text, ih, List.intercalate_cons_cons]

/-- The text that signatures are made of. -/
def canonicalText (t : AbiType) : String := String.ofList (t.text .canonical)

/-- The text with all labels. -/
def fullText (t : AbiType) : String := String.ofList (t.text .full)

end AbiType

end AbiCodec
