import AbiCodec.Codec
import AbiCodec.Value.OfJson

/-!
# Encoding and decoding JSON parameters
-/

namespace AbiCodec

/-- The encoding of values given as JSON. -/
def encodeJson (settings : Settings) (types : List TypeSource) (values : List Json) :
    Except AbiError Bytes :=
  if types.length = values.length then do
    let types ← types.mapM TypeSource.resolve
    let values ← (types.zip values).mapM fun (t, json) => Value.ofJson t json
    encode settings (types.map .tree) values
  else .error (.argumentMismatch types.length values.length (Json.array values).text)

/-- The values of the data as a JSON array. -/
def decodeJson (settings : Settings) (hook : Option Hook) (types : List TypeSource)
    (data : Bytes) (isLoose : Bool) : Except AbiError Json := do
  let record ← decode settings hook types data isLoose
  return .array (Value.itemsToJson record.values)

end AbiCodec
