import AbiCodec.Codec
import AbiCodec.Contract.Signature

/-!
# Functions

A function of a contract: its inputs and outputs, and how it treats the state.
Its call data are its selector and the encoded inputs.
-/

namespace AbiCodec

inductive StateMutability where
  | pure
  | view
  | nonpayable
  | payable
deriving Repr, DecidableEq

namespace StateMutability

def keyword : StateMutability → String
  | .pure => "pure"
  | .view => "view"
  | .nonpayable => "nonpayable"
  | .payable => "payable"

def ofKeyword? (word : String) : Option StateMutability :=
  [StateMutability.pure, view, nonpayable, payable].find? fun m => m.keyword == word

end StateMutability

structure Function where
  name : String
  inputs : List AbiType
  outputs : List AbiType := []
  mutability : StateMutability := .nonpayable
deriving Repr

namespace Function

/-- Takes in what follows the parameters of a signature: words for the treatment of the state,
and lists of outputs.  Each turn takes a character at least, so the length is fuel enough. -/
def readClauses (source : String) : (fuel : Nat) → Function → List Char → Except AbiError Function
  | _, f, [] => .ok f
  | 0, f, _ => .ok f
  | fuel + 1, f, rest =>
    match dropLead? "returns".toList rest with
    | some after =>
      match trimStart after with
      | '(' :: inner =>
        match Signature.closing 0 inner with
        | some (parameters, after) => do
          let outputs ← AbiType.parseList parameters
          readClauses source fuel { f with outputs } (trimStart after)
        | none => .error (.invalidType source .unbalancedParentheses)
      | _ => .error (.invalidType source .expectedReturns)
    | none =>
      let word := String.ofList (rest.takeWhile fun c => !isWhiteSpace c)
      match StateMutability.ofKeyword? word with
      | some mutability =>
        readClauses source fuel { f with mutability }
          (trimStart (rest.dropWhile fun c => !isWhiteSpace c))
      | none => .error (.invalidType source (.unexpectedWord word))

/-- The function of a written signature. -/
def parse (source : String) : Except AbiError Function := do
  let parts ← Signature.split source "function"
  let inputs ← AbiType.parseList parts.parameters
  readClauses source parts.rest.length { name := parts.name, inputs } parts.rest

/-- The canonical signature. -/
def signature (f : Function) : String := Signature.text f.name f.inputs

def selector (f : Function) : Bytes := selectorOf f.signature

/-- The call data of the arguments. -/
def encodeInput (f : Function) (values : List Value) : Except AbiError Bytes := do
  let arguments ← encode .standard (f.inputs.map .tree) values
  return joinCallData f.selector arguments

/-- The arguments of call data for this function. -/
def decodeInput (f : Function) (data : Bytes) : Except AbiError Record := do
  let (selector, arguments) ← splitCallData data
  if selector = f.selector then decode .standard none (f.inputs.map .tree) arguments false
  else .error (.malformedData f.signature (.selectorMismatch (hexText selector)) data.length 0)

/-- The values of return data. -/
def decodeOutput (f : Function) (data : Bytes) : Except AbiError Record :=
  decode .standard none (f.outputs.map .tree) data false

end Function

end AbiCodec
