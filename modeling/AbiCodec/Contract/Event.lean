import AbiCodec.Codec
import AbiCodec.Contract.Signature

/-!
# Events

An event of a contract.  A log of it has a topic for the signature, unless the
event is anonymous, one topic for each indexed input, and the encoding of the
other inputs as data.
-/

namespace AbiCodec

structure Event where
  name : String
  inputs : List AbiType
  isAnonymous : Bool := false
deriving Repr

namespace Event

/-- The event of a written signature; every input says whether it is indexed. -/
def parse (source : String) : Except AbiError Event := do
  let parts ← Signature.split source "event"
  let isAnonymous ←
    if parts.rest = [] then .ok false
    else if parts.rest = "anonymous".toList then .ok true
    else .error (.invalidType source (.unexpectedWord (String.ofList parts.rest)))
  let inputs ← AbiType.parseList parts.parameters
  return { name := parts.name, inputs := inputs.map fun t => t.withIndexed t.isIndexed, isAnonymous }

/-- The canonical signature. -/
def signature (e : Event) : String := Signature.text e.name e.inputs

/-- The first topic of a log of the event. -/
def topic (e : Event) : Word := topicOf e.signature

/-- Whether the topic of an indexed input holds the hash of the value. -/
def isHashed : AbiType → Bool
  | .elementary _ typeName => typeName == "string" || typeName == "bytes"
  | .array .. => true
  | .tuple .. => true
  | .empty _ => false

/-- The topics after the one of the signature. -/
def inputTopics (e : Event) (topics : List Word) : Except AbiError (List Word) :=
  if e.isAnonymous then .ok topics
  else match topics with
    | [] => .error (.malformedData e.signature .missingSignatureTopic 0 0)
    | first :: rest =>
      if first = e.topic then .ok rest
      else .error (.malformedData e.signature .signatureTopicMismatch wordSize 0)

/-- The value of an indexed input: the topic itself where it is a hash. -/
def topicValue (t : AbiType) (index : Nat) (topic : Word) : Except AbiError Value :=
  if isHashed t then .ok (.fixedBytes topic.toBytes)
  else do
    let record ← decode .standard none [.tree t] topic.toBytes false
    match record.values with
    | v :: _ => .ok v
    | [] => .error (.malformedData t.canonicalText (.missingValue index) wordSize 0)

/-- The values of the inputs in order: an indexed one takes the next topic, any other the next
value of the data. -/
def collect (dataLength : Nat) : (index : Nat) → List AbiType → List Word → List Value →
    Except AbiError (List Value)
  | _, [], _, _ => .ok []
  | index, t :: inputs, topics, values =>
    if t.isIndexed then
      match topics with
      | [] => .error (.malformedData t.canonicalText (.missingTopic index) 0 0)
      | topic :: topics => do
        let first ← topicValue t index topic
        let others ← collect dataLength (index + 1) inputs topics values
        .ok (first :: others)
    else
      match values with
      | [] => .error (.malformedData t.canonicalText (.missingValue index) dataLength 0)
      | first :: values => do
        let others ← collect dataLength (index + 1) inputs topics values
        .ok (first :: others)

/-- The values of a log, in the order of the inputs and under their names. -/
def decodeLog (e : Event) (topics : List Word) (data : Bytes) : Except AbiError Record := do
  let topics ← e.inputTopics topics
  let body := e.inputs.filter fun t => !t.isIndexed
  let record ← decode .standard none (body.map .tree) data false
  let values ← collect data.length 0 e.inputs topics record.values
  match Record.ofParts? (e.inputs.map AbiType.name) values with
  | some record => .ok record
  | none => .error (.internal .record)

end Event

end AbiCodec
