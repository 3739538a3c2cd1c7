import AbiCodec.AbiType.Basic
import AbiCodec.Json.Reading

/-!
# Settings

Limits on the work of one call, and whether calls are logged.
-/

namespace AbiCodec

structure Settings where
  /-- The deepest nesting of arrays and tuples. -/
  maxDepth : Nat := 32
  /-- The most words that a fixed-length array or a tuple may lay out. -/
  maxStaticWords : Nat := 1 <<< 20
  /-- The bytes that may be read for each byte of data; zero sets no limit. -/
  maxInflation : Nat := 1024
  logCalls : Bool := false
deriving Repr, DecidableEq

namespace Settings

/-- The settings for the types of contracts. -/
def standard : Settings := {}

/-- The settings for types of unknown origin. -/
def strict : Settings := { maxDepth := 8, maxStaticWords := 1 <<< 14, maxInflation := 64 }

inductive Issue where
  | noDepth
  | depthPastGrammar (depth : Nat)
  | noStaticWords
deriving Repr, DecidableEq

def Issue.message : Issue → String
  | .noDepth => "max_depth must be at least 1"
  | .depthPastGrammar depth =>
    "max_depth " ++ decimal depth ++ " exceeds the parser limit of " ++ decimal AbiType.maxDepth
  | .noStaticWords => "max_static_words must be at least 1"

/-- What is wrong with the settings. -/
def issues (s : Settings) : List Issue :=
  (if s.maxDepth = 0 then [.noDepth] else []) ++
  (if AbiType.maxDepth < s.maxDepth then [.depthPastGrammar s.maxDepth] else []) ++
  (if s.maxStaticWords = 0 then [.noStaticWords] else [])

/-- The settings if nothing is wrong with them. -/
def validated (s : Settings) : Except (List Issue) Settings :=
  if s.issues = [] then .ok s else .error s.issues

/-- The fields that have been met. -/
structure Fields where
  maxDepth : Option Nat := none
  maxStaticWords : Option Nat := none
  maxInflation : Option Nat := none
  logCalls : Option Bool := none

/-- The fields in the order they have in an array. -/
def fieldNames : List String := ["maxDepth", "maxStaticWords", "maxInflation", "logCalls"]

open Document in
def Fields.take (levels : Nat) (fields : Fields) (name : String) (d : Document) :
    Except Refusal Fields :=
  if name = "maxDepth" then do
    let maxDepth ← once fields.maxDepth (readCount levels d)
    .ok { fields with maxDepth }
  else if name = "maxStaticWords" then do
    let maxStaticWords ← once fields.maxStaticWords (readCount levels d)
    .ok { fields with maxStaticWords }
  else if name = "maxInflation" then do
    let maxInflation ← once fields.maxInflation (readCount levels d)
    .ok { fields with maxInflation }
  else do
    let logCalls ← once fields.logCalls (readFlag levels d)
    .ok { fields with logCalls }

/-- The settings of a JSON text; a missing field keeps its standard value. -/
def ofJsonText (text : String) : Except AbiError Settings := do
  let fields ← Document.readText (Document.readFields fieldNames ({} : Fields) Fields.take) text
  .ok {
    maxDepth := fields.maxDepth.getD standard.maxDepth
    maxStaticWords := fields.maxStaticWords.getD standard.maxStaticWords
    maxInflation := fields.maxInflation.getD standard.maxInflation
    logCalls := fields.logCalls.getD standard.logCalls }

/-- The standard settings under two texts of the environment: a depth, kept when it is a
count, and a flag. -/
def ofEnvironment (depth flag : Option String) : Settings :=
  let depth := depth.bind fun text => Decimal.readPlusCount? (trim text.toList)
  let flag := flag.map fun text =>
    let word := String.ofList (trim text.toList)
    word == "1" || word == "true" || word == "yes"
  { maxDepth := depth.getD standard.maxDepth, logCalls := flag.getD standard.logCalls }

def toJson (s : Settings) : Json :=
  .ofFields [
    ("maxDepth", .number (.natural s.maxDepth)),
    ("maxStaticWords", .number (.natural s.maxStaticWords)),
    ("maxInflation", .number (.natural s.maxInflation)),
    ("logCalls", .bool s.logCalls)]

/-- The settings of a coder as a log shows them, with whether it has a hook. -/
def inspectCoder (s : Settings) (hasHook : Bool) : String :=
  let flag (b : Bool) : String := if b then "true" else "false"
  "AbiCoder \x7b settings: CoderSettings \x7b max_depth: " ++ decimal s.maxDepth ++
    ", max_static_words: " ++ decimal s.maxStaticWords ++ ", max_inflation: " ++
    decimal s.maxInflation ++ ", log_calls: " ++ flag s.logCalls ++ " \x7d, coerce: " ++
    flag hasHook ++ " \x7d"

end Settings

end AbiCodec
