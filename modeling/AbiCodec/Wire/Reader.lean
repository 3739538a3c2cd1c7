import AbiCodec.Count
import AbiCodec.Value.Basic

/-!
# Readers

A reader is a cursor in a byte string.  Readers of parts of the same data share
one budget: the bytes that all of them have read, limited to a multiple of the
length of the whole data.  Only whole words are read; a relaxed read at the end
of the data may leave out the padding.
-/

namespace AbiCodec

/-- A function that every decoded value passes through, with the name of its kind. -/
abbrev Hook := String → Value → Value

/-- What has been read of some data, and how much may be. -/
structure Budget where
  read : Nat
  rootLength : Nat
  /-- The bytes that may be read for each byte of the data; zero sets no limit. -/
  ratio : Nat
deriving Repr, DecidableEq

namespace Budget

def fresh (rootLength ratio : Nat) : Budget := ⟨0, rootLength, ratio⟩

def limit? (budget : Budget) : Option Nat :=
  if budget.ratio = 0 then none else some (saturatingMul budget.rootLength budget.ratio)

/-- The budget after so many bytes more. -/
def spend (budget : Budget) (count : Nat) : Budget :=
  { budget with read := saturatingAdd budget.read count }

def isExceeded (budget : Budget) : Bool :=
  match budget.limit? with
  | some limit => limit < budget.read
  | none => false

/-- The error of a budget that is exceeded. -/
def error (budget : Budget) : AbiError :=
  .malformedData "data" (.inflation budget.ratio) budget.rootLength budget.read

end Budget

structure Reader where
  data : Bytes
  /-- The bytes before the cursor. -/
  offset : Nat
  /-- Whether relaxed reads are allowed. -/
  isLoose : Bool
  hook : Option Hook
  budget : Budget

/-- Reading moves the reader, also when it fails. -/
abbrev Reading (α : Type) := ExceptT AbiError (StateM Reader) α

namespace Reader

/-- A reader at the start of the data. -/
def start (data : Bytes) (isLoose : Bool) (hook : Option Hook) (ratio : Nat) : Reader :=
  ⟨data, 0, isLoose, hook, .fresh data.length ratio⟩

/-- The bytes after the cursor. -/
def remaining (r : Reader) : Except AbiError Nat :=
  if r.offset ≤ r.data.length then .ok (r.data.length - r.offset) else .error (.internal .count)

/-- The value after the hook. -/
def coerce (r : Reader) (name : String) (v : Value) : Value :=
  match r.hook with
  | some hook => hook name v
  | none => v

/-- The data from a position on. -/
def viewFrom (r : Reader) (start : Nat) : Except AbiError Reader :=
  match Bytes.slice? r.data start r.data.length with
  | some data => .ok { r with data, offset := 0 }
  | none => .error (.internal .slice)

/-- The reader of the data that starts so many bytes after the cursor. -/
def sub (r : Reader) (offset : Nat) : Except AbiError Reader :=
  match count? (r.offset + offset) with
  | some start =>
    if start ≤ r.data.length then r.viewFrom start
    else .error (.malformedData "offset" .outOfBounds r.data.length start)
  | none => .error (.malformedData "offset" .outOfBounds r.data.length maxCount)

/-- The number of bytes that a read of this length takes: whole words, or for a relaxed read
past the end of the data the length itself. -/
def takenLength (r : Reader) (length : Nat) (relaxed : Bool) : Except AbiError Nat :=
  match count? (length + (wordSize - 1)) with
  | none => .error (.malformedData "bytes" .outOfBounds r.data.length maxCount)
  | some _ =>
    let aligned := Bytes.alignedLength length
    let stop := saturatingAdd r.offset aligned
    if r.data.length < stop then
      if r.isLoose && relaxed && saturatingAdd r.offset length ≤ r.data.length then .ok length
      else .error (.malformedData "bytes" .outOfBounds r.data.length stop)
    else .ok aligned

/-- The bytes after the cursor that a read of this length takes. -/
def peek (r : Reader) (length : Nat) (relaxed : Bool) : Except AbiError Bytes := do
  let taken ← r.takenLength length relaxed
  match count? (r.offset + taken) with
  | none => .error (.internal .count)
  | some stop =>
    match Bytes.slice? r.data r.offset stop with
    | some data => .ok data
    | none => .error (.internal .slice)

end Reader

namespace Reading

/-- The outcome and the reader after it, from the reader before it. -/
def runFrom {α : Type} (action : Reading α) (r : Reader) : Except AbiError α × Reader := action r

def ofExcept {α : Type} (result : Except AbiError α) : Reading α := fun r => (result, r)

/-- What a function of the reader gives. -/
def inspect {α : Type} (f : Reader → Except AbiError α) : Reading α := fun r => (f r, r)

def fail {α : Type} (e : AbiError) : Reading α := ofExcept (.error e)

/-- Spends so many bytes of the budget, which are spent also when they are too many. -/
def charge (count : Nat) : Reading Unit := fun r =>
  let budget := r.budget.spend count
  (if budget.isExceeded then .error budget.error else .ok (), { r with budget })

/-- Moves the cursor. -/
def advance (count : Nat) : Reading Unit := fun r =>
  match count? (r.offset + count) with
  | some offset => (.ok (), { r with offset })
  | none => (.error (.internal .count), r)

/-- Reads so many bytes, and their padding unless a relaxed read has to leave it out. -/
def bytes (length : Nat) (relaxed : Bool) : Reading Bytes := do
  let taken ← inspect fun r => r.peek length relaxed
  charge taken.length
  advance taken.length
  match Bytes.slice? taken 0 length with
  | some data => pure data
  | none => fail (.internal .slice)

def word : Reading Word := do
  let data ← bytes wordSize false
  match Word.ofBytes? data with
  | some w => pure w
  | none => fail (.internal .word)

/-- Reads a length or an offset: a word that is a count. -/
def count (typeName : String) : Reading Nat := fun r =>
  match word.runFrom r with
  | (.error e, after) => (.error e, after)
  | (.ok w, after) =>
    match count? w.toNat with
    | some n => (.ok n, after)
    | none => (.error (.malformedData typeName .lengthOverflow r.data.length r.offset), after)

/-- Reads from another place of the data; the cursor stays, and the budget is shared. -/
def elsewhere {α : Type} (place : Reader) (action : Reading α) : Reading α := fun r =>
  let (result, after) := action.runFrom { place with budget := r.budget }
  (result, { r with budget := after.budget })

/-- The value after the hook of the reader. -/
def coerce (name : String) (v : Value) : Reading Value := inspect fun r => .ok (r.coerce name v)

end Reading

end AbiCodec
