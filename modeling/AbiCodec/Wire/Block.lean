import AbiCodec.Wire.Output

/-!
# Blocks

A block is the encoding of a sequence of children: their heads, then their
tails.  A static child is its own head.  A dynamic child goes to the tails, and
its head is the offset of its tail from the start of the block.
-/

namespace AbiCodec

/-- A child of a block, and how to write it. -/
structure Slot where
  isDynamic : Bool
  write : Writing Nat

/-- A head: a static child in place, or a pointer with the length of the tails before it. -/
inductive Head where
  | inline (data : Bytes)
  | pointer (tailOffset : Nat)

namespace Head

def length : Head → Nat
  | .inline data => data.length
  | .pointer _ => wordSize

/-- The bytes of a head in a block whose heads have this length together. -/
def bytes (headLength : Nat) : Head → Bytes
  | .inline data => data
  | .pointer tailOffset => Word.toBytes (BitVec.ofNat 256 (headLength + tailOffset))

end Head

/-- The heads and the tails that have been staged. -/
structure Block where
  heads : List Head
  tails : Bytes

namespace Block

/-- Stages the slots after tails that are already there: a static child is written apart, a
dynamic one after the tails. -/
def stage (tails : Bytes) : List Slot → Except AbiError Block
  | [] => .ok ⟨[], tails⟩
  | slot :: rest =>
    if slot.isDynamic then
      match slot.write.runFrom tails with
      | (.error e, _) => .error e
      | (.ok _, grown) => do
        let block ← stage grown rest
        .ok ⟨.pointer tails.length :: block.heads, block.tails⟩
    else
      match slot.write.runFrom [] with
      | (.error e, _) => .error e
      | (.ok _, data) => do
        let block ← stage tails rest
        .ok ⟨.inline data :: block.heads, block.tails⟩

def headLength (block : Block) : Nat := block.heads.foldr (fun head total => head.length + total) 0

/-- The heads with their pointers resolved, then the tails. -/
def bytes (block : Block) : Bytes :=
  block.heads.flatMap (Head.bytes block.headLength) ++ block.tails

/-- Writes the slots as one block; nothing is appended when a slot fails. -/
def write (slots : List Slot) : Writing Nat :=
  match stage [] slots with
  | .ok block => Writing.append block.bytes
  | .error e => Writing.fail e

end Block

end AbiCodec
