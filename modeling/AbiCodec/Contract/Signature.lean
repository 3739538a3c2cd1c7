import AbiCodec.AbiType.Text
import AbiCodec.AbiType.Grammar
import AbiCodec.Contract.Selector

/-!
# Signatures

A written signature is a name, a list of parameters in parentheses, and what
follows; a keyword may stand before the name.  The canonical signature keeps
the name and the canonical types.
-/

namespace AbiCodec

/-- The three parts of a written signature. -/
structure SignatureParts where
  name : String
  parameters : List Char
  rest : List Char

namespace Signature

/-- What is inside the parenthesis that is open, and what follows its closing; `depth` counts
the parentheses inside that are still open. -/
def closing (depth : Nat) : List Char → Option (List Char × List Char)
  | [] => none
  | c :: rest =>
    if c = ')' then
      match depth with
      | 0 => some ([], rest)
      | depth + 1 => (closing depth rest).map fun (inside, after) => (c :: inside, after)
    else
      let depth := if c = '(' then depth + 1 else depth
      (closing depth rest).map fun (inside, after) => (c :: inside, after)

/-- The text after the keyword and the white space that sets it off, or the text itself. -/
def dropKeyword (keyword : List Char) (text : List Char) : List Char :=
  match dropLead? keyword text with
  | some (c :: rest) => if isWhiteSpace c then trimStart rest else text
  | _ => text

def isNameText (name : List Char) : Bool := !name.isEmpty && name.all TypeText.isWordChar

/-- The parts of a written signature. -/
def split (text keyword : String) : Except AbiError SignatureParts :=
  let source := dropKeyword keyword.toList (trim text.toList)
  let refuse (cause : TypeCause) : Except AbiError SignatureParts :=
    .error (.invalidType (String.ofList source) cause)
  match source.dropWhile (· ≠ '(') with
  | [] => refuse .missingParameterList
  | _ :: inner =>
    let name := trim (source.takeWhile (· ≠ '('))
    if isNameText name then
      match closing 0 inner with
      | some (parameters, rest) => .ok ⟨String.ofList name, parameters, trim rest⟩
      | none => refuse .unbalancedParentheses
    else refuse .invalidFragmentName

/-- The canonical signature. -/
def text (name : String) (inputs : List AbiType) : String :=
  String.ofList
    (name.toList ++ '(' :: AbiType.componentsText .canonical inputs ++ [')'])

end Signature

end AbiCodec
