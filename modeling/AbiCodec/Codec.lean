import AbiCodec.Layout.OfType
import AbiCodec.Layout.Encode
import AbiCodec.Layout.Decode
import AbiCodec.Layout.Zero

/-!
# Encoding and decoding parameters

Encodes and decodes the values of a list of parameters.  Each type is a type
tree or a text that is read when its turn comes.
-/

namespace AbiCodec

/-- A type, or the text of one. -/
inductive TypeSource where
  | text (source : String)
  | tree (t : AbiType)

def TypeSource.resolve : TypeSource → Except AbiError AbiType
  | .text source => AbiType.parse source
  | .tree t => .ok t

/-- The layouts of the types, each read and laid out before the next. -/
def layoutsOf (settings : Settings) (types : List TypeSource) : Except AbiError (List Layout) :=
  types.mapM fun source => do Layout.ofType settings (← source.resolve)

/-- The bytes of what is written at the start. -/
def outputOf (action : Writing Nat) : Except AbiError Bytes :=
  match action.runFrom [] with
  | (.ok _, data) => .ok data
  | (.error e, _) => .error e

/-- The encoding of the values. -/
def encode (settings : Settings) (types : List TypeSource) (values : List Value) :
    Except AbiError Bytes :=
  if types.length = values.length then do
    let layouts ← layoutsOf settings types
    outputOf (Layout.encodeAll layouts values)
  else .error (.argumentMismatch types.length values.length (Value.inspectAll values))

/-- The record of the data, and the reader after it. -/
def decodeFrom (layouts : List Layout) (settings : Settings) (hook : Option Hook)
    (data : Bytes) (isLoose : Bool) : Except AbiError Record × Reader :=
  (Layout.decodeAll layouts).runFrom (Reader.start data isLoose hook settings.maxInflation)

/-- The values of the data, under the names of the types. -/
def decode (settings : Settings) (hook : Option Hook) (types : List TypeSource) (data : Bytes)
    (isLoose : Bool) : Except AbiError Record := do
  let layouts ← layoutsOf settings types
  (decodeFrom layouts settings hook data isLoose).1

/-- Under accepted types, what decoding gives is the record of their layouts. -/
theorem decode_eq_decodeFrom {settings : Settings} {types : List TypeSource} {layouts : List Layout}
    (accepted : layoutsOf settings types = .ok layouts) (hook : Option Hook) (data : Bytes)
    (isLoose : Bool) : decode settings hook types data isLoose =
      (decodeFrom layouts settings hook data isLoose).1 := by
  rw [decode, accepted]
  rfl

/-- Decodes the bytes of a hexadecimal text. -/
def decodeHexText (settings : Settings) (hook : Option Hook) (types : List TypeSource)
    (text : String) (isLoose : Bool) : Except AbiError Record := do
  let data ← (readHexText text).mapError AbiError.ofHexFault
  decode settings hook types data isLoose

/-- The zero values of the types. -/
def zeroValues (settings : Settings) (types : List TypeSource) : Except AbiError Record := do
  let layouts ← layoutsOf settings types
  return Layout.zeroRecord layouts

end AbiCodec
