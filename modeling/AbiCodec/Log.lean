import AbiCodec.Error

/-!
# Log lines

A line of a log: level, module, message, and fields.  Fields that hold encoded
bytes are shortened to their two ends.
-/

namespace AbiCodec

inductive LogLevel where
  | debug
  | info
  | warn
  | error
deriving Repr, DecidableEq

def LogLevel.text : LogLevel → String
  | .debug => "DEBUG"
  | .info => "INFO"
  | .warn => "WARN"
  | .error => "ERROR"

structure LogEntry where
  level : LogLevel
  source : String
  message : String
  fields : List (String × String) := []

namespace LogEntry

/-- The bytes of a payload that is shown whole. -/
def longestPayload : Nat := 74

/-- The payload without blanks around it; a long ASCII one by its two ends and its length. -/
def shorten (value : String) : String :=
  let text := trim value.toList
  let length := text.length
  if text = [] then "[EMPTY]"
  else if (String.ofList text).utf8ByteSize ≤ longestPayload || text.any fun c => 127 < c.toNat then
    String.ofList text
  else
    let lead := if (dropLead? ['0', 'x'] text).isSome then 18 else 16
    String.ofList (text.take lead) ++ "..." ++ String.ofList (text.drop (length - 8)) ++ "[" ++
      decimal length ++ "chars]"

/-- The words in a key that announce a payload. -/
def payloadWords : List String := ["data", "calldata", "payload", "word", "topic", "bytes"]

/-- Whether the word stands in the text. -/
def holdsWord (word : List Char) : List Char → Bool
  | [] => word.isEmpty
  | c :: rest => word.isPrefixOf (c :: rest) || holdsWord word rest

/-- Whether the key announces a payload in letters of either case.  The words are ASCII, and
no other letter has a letter of theirs as its whole lower case. -/
def isPayloadKey (key : String) : Bool :=
  let lower := key.toList.map Char.toLower
  payloadWords.any fun word => holdsWord word.toList lower

/-- The entry with one more field, shortened if its key announces a payload. -/
def addField (entry : LogEntry) (key value : String) : LogEntry :=
  let shown := if isPayloadKey key then shorten value else value
  { entry with fields := entry.fields ++ [(key, shown)] }

/-- The entry with one more field, always shortened. -/
def addPayload (entry : LogEntry) (key value : String) : LogEntry :=
  { entry with fields := entry.fields ++ [(key, shorten value)] }

/-- The line. -/
def render (entry : LogEntry) : String :=
  let fields := " ".intercalate (entry.fields.map fun (key, value) => key ++ "=" ++ value)
  let line := entry.level.text ++ " [" ++ entry.source ++ "] " ++ entry.message
  if fields = "" then line else line ++ " | " ++ fields

end LogEntry

/-- What may happen to a log, whose debug lines can be switched. -/
inductive LogStep where
  | enable
  | disable
  | log

/-- Whether debug lines are on after a step. -/
def LogStep.apply (isOn : Bool) : LogStep → Bool
  | .enable => true
  | .disable => false
  | .log => isOn

/-- Whether debug lines are on after each of the steps. -/
def LogStep.applyAll (isOn : Bool) : List LogStep → List Bool
  | [] => []
  | step :: rest => step.apply isOn :: applyAll (step.apply isOn) rest

end AbiCodec
