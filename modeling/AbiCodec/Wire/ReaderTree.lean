import AbiCodec.Wire.Reader

/-!
# Reader trees

The readers that have been made from one reader, in the order they were made.
Each has its own cursor; the budget belongs to all of them.
-/

namespace AbiCodec

structure ReaderTree where
  /-- The readers; the budget that counts is that of the tree. -/
  readers : List Reader
  budget : Budget

/-- What a reader gives. -/
inductive ReadResult where
  | bytes (data : Bytes)
  | word (w : Word)
  | count (n : Nat)
  | value (v : Value)
  | flag (b : Bool)
  /-- The place of a reader that was added. -/
  | reader (index : Nat)

namespace ReaderTree

/-- The tree of one reader at the start of the data. -/
def start (data : Bytes) (isLoose : Bool) (hook : Option Hook) (ratio : Nat) : ReaderTree :=
  let r := Reader.start data isLoose hook ratio
  ⟨[r], r.budget⟩

/-- A reader of the tree, with the budget of the tree. -/
def reader? (tree : ReaderTree) (index : Nat) : Option Reader :=
  tree.readers[index]?.map fun r => { r with budget := tree.budget }

/-- Reads with one reader of the tree; the others keep their cursors. -/
def read {α : Type} (tree : ReaderTree) (index : Nat) (r : Reader) (action : Reading α) :
    Except AbiError α × ReaderTree :=
  let (result, after) := action.runFrom r
  (result, ⟨tree.readers.set index after, after.budget⟩)

/-- Adds a reader of the same data. -/
def add (tree : ReaderTree) (r : Reader) : Except AbiError ReadResult × ReaderTree :=
  (.ok (.reader tree.readers.length), { tree with readers := tree.readers ++ [r] })

/-- One step of a reader of the tree. -/
inductive Step where
  | bytes (length : Nat) (relaxed : Bool)
  | word
  | number
  | count (typeName : String)
  | sub (offset : Nat)
  | clone
  | data
  | isLoose
  | coerce (name : String) (v : Value)
  | decode (action : Except AbiError (Reading Value))

/-- The outcome of a step of the reader `r`, whose place in the tree is `index`. -/
def step (tree : ReaderTree) (index : Nat) (r : Reader) : Step →
    Except AbiError ReadResult × ReaderTree
  | .bytes length relaxed => tree.read index r (.bytes <$> Reading.bytes length relaxed)
  | .word => tree.read index r ((fun w => .bytes w.toBytes) <$> Reading.word)
  | .number => tree.read index r (.word <$> Reading.word)
  | .count typeName => tree.read index r (.count <$> Reading.count typeName)
  | .sub offset =>
    match r.sub offset with
    | .ok place => tree.add place
    | .error e => (.error e, tree)
  | .clone => tree.add r
  | .data => (.ok (.bytes r.data), tree)
  | .isLoose => (.ok (.flag r.isLoose), tree)
  | .coerce name v => (.ok (.value (r.coerce name v)), tree)
  | .decode action =>
    match action with
    | .ok action => tree.read index r (.value <$> action)
    | .error e => (.error e, tree)

end ReaderTree

end AbiCodec
