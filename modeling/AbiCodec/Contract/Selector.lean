import AbiCodec.Hash.Keccak
import AbiCodec.Error

/-!
# Selectors and topics

The first four bytes of the hash of a signature select a function; the whole
hash is the first topic of an event.
-/

namespace AbiCodec

/-- Bytes in a selector. -/
def selectorSize : Nat := 4

/-- The hash of a signature. -/
def topicOf (signature : String) : Word := keccak256 (utf8Bytes signature)

/-- The selector of a signature. -/
def selectorOf (signature : String) : Bytes := (topicOf signature).toBytes.take selectorSize

/-- The selector of call data, and the arguments after it. -/
def splitCallData (data : Bytes) : Except AbiError (Bytes × Bytes) :=
  if data.length < selectorSize then
    .error (.malformedData "selector" .shortCallData data.length 0)
  else .ok (data.take selectorSize, data.drop selectorSize)

/-- Call data of a selector and arguments. -/
def joinCallData (selector arguments : Bytes) : Bytes := selector ++ arguments

end AbiCodec
