import AbiCodec.Word
import AbiCodec.Error

/-!
# Output

Writing appends to the bytes written so far and gives the number of bytes it
appended.  A failure keeps what was appended before it.
-/

namespace AbiCodec

abbrev Writing (α : Type) := ExceptT AbiError (StateM Bytes) α

namespace Writing

/-- The outcome and the bytes after it, from the bytes before it. -/
def runFrom {α : Type} (action : Writing α) (written : Bytes) : Except AbiError α × Bytes :=
  action written

def fail {α : Type} (e : AbiError) : Writing α := throw e

/-- Appends bytes as they are. -/
def append (data : Bytes) : Writing Nat := fun written => (.ok data.length, written ++ data)

/-- Appends bytes, zero-padded to whole words. -/
def bytes (data : Bytes) : Writing Nat := append (Bytes.padded data)

def word (w : Word) : Writing Nat := append w.toBytes

/-- Appends a length or an offset as one word. -/
def count (n : Nat) : Writing Nat := word (BitVec.ofNat 256 n)

end Writing

end AbiCodec
