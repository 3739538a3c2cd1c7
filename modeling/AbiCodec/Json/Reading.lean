import AbiCodec.Json.Document
import AbiCodec.Error

/-!
# Reading documents

Readers of documents by their expected form, in the order of the text.  An
object with known fields may also be an array of their values in a fixed order;
an unknown field is skipped, a repeated one is refused.
-/

namespace AbiCodec

/-- Why a document is refused; a text only where a part has a reason of its own. -/
abbrev Refusal := Option String

namespace Document

/-- A reader knows how many levels may still be entered. -/
abbrev Reader (α : Type) := (levels : Nat) → Document → Except Refusal α

def refuse {α : Type} : Except Refusal α := .error none

def required {α : Type} : Option α → Except Refusal α
  | some x => .ok x
  | none => refuse

def enter (levels : Nat) : Except Refusal Nat := required (enter? levels)

/-- Fills a field that was empty. -/
def once {α : Type} (field : Option α) (read : Except Refusal α) : Except Refusal (Option α) :=
  if field.isSome then refuse else some <$> read

def readString : Reader String
  | _, .string text => required text
  | _, _ => refuse

def readFlag : Reader Bool
  | _, .bool b => .ok b
  | _, _ => refuse

/-- A number below `countLimit`, written as an integer. -/
def readCount : Reader Nat
  | _, .number (some (.natural n)) => .ok n
  | _, _ => refuse

def readOption {α : Type} (read : Reader α) : Reader (Option α)
  | _, .null => .ok none
  | levels, d => some <$> read levels d

def readList {α : Type} (read : Reader α) : Reader (List α)
  | levels, .array items closed => do
    let levels ← enter levels
    let xs ← items.mapM (read levels)
    if closed then .ok xs else refuse
  | _, _ => refuse

/-- Reads the fields of an object, or the items of an array as the fields of the names in
order.  `step` takes one known field into the state. -/
def readFields {σ : Type} (names : List String) (start : σ)
    (step : (levels : Nat) → σ → String → Document → Except Refusal σ) : Reader σ
  | levels, .object fields closed => do
    let levels ← enter levels
    let state ← fields.foldlM
      (fun state (name, d) => do
        let name ← required name
        if names.contains name then step levels state name d
        else if d.isClosed then .ok state
        else refuse)
      start
    if closed then .ok state else refuse
  | levels, .array items closed => do
    let levels ← enter levels
    let state ← (names.zip items).foldlM (fun state (name, d) => step levels state name d) start
    if closed && items.length ≤ names.length then .ok state else refuse
  | _, _ => refuse

/-- Reads a whole text. -/
def readText {α : Type} (read : Reader α) (text : String) : Except AbiError α :=
  let scan := scan text.toList
  let result : Except Refusal α := do
    let document ← required scan.document
    let x ← read nestingLimit document
    let rest ← required scan.rest
    if skipBlanks rest = [] then .ok x else refuse
  result.mapError fun detail => .invalidType "json" (.document detail)

end Document

end AbiCodec
