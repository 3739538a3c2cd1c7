import AbiCodec.Bytes
import AbiCodec.Text.Decimal

/-!
# UTF-8

The text of a byte string, or the place of its first fault.  A fault is a
sequence that no continuation can mend, with the number of its bytes, or a
sequence that the end of the bytes cuts short.
-/

namespace AbiCodec

namespace Utf8

/-- The first fault of a byte string: where it is, and the number of bytes of the
faulty sequence, or none when the sequence is cut short. -/
structure Fault where
  index : Nat
  length : Option Nat
deriving Repr, DecidableEq

def Fault.message (fault : Fault) : String :=
  match fault.length with
  | some length =>
    "invalid utf-8 sequence of " ++ decimal length ++ " bytes from index " ++ decimal fault.index
  | none => "incomplete utf-8 byte sequence from index " ++ decimal fault.index

def isContinuation (b : UInt8) : Bool := 0x80 ≤ b && b ≤ 0xBF

/-- The length of the sequence that a first byte announces. -/
def sequenceLength (first : UInt8) : Option Nat :=
  if first < 0x80 then some 1
  else if 0xC2 ≤ first && first ≤ 0xDF then some 2
  else if 0xE0 ≤ first && first ≤ 0xEF then some 3
  else if 0xF0 ≤ first && first ≤ 0xF4 then some 4
  else none

/-- Whether the second byte may follow the first: some first bytes narrow the range, so
that no overlong form, surrogate or number past the last code point is taken. -/
def mayFollow (first second : UInt8) : Bool :=
  if first = 0xE0 then 0xA0 ≤ second && second ≤ 0xBF
  else if first = 0xED then 0x80 ≤ second && second ≤ 0x9F
  else if first = 0xF0 then 0x90 ≤ second && second ≤ 0xBF
  else if first = 0xF4 then 0x80 ≤ second && second ≤ 0x8F
  else isContinuation second

/-- The first fault, `index` counting the bytes before; the end of the bytes when there
is none. -/
def firstFault (index : Nat) : Bytes → Fault
  | [] => ⟨index, none⟩
  | first :: rest =>
    match sequenceLength first, rest with
    | none, _ => ⟨index, some 1⟩
    | some 1, rest => firstFault (index + 1) rest
    | some _, [] => ⟨index, none⟩
    | some n, second :: rest =>
      if !mayFollow first second then ⟨index, some 1⟩
      else if n = 2 then firstFault (index + 2) rest
      else match rest with
        | [] => ⟨index, none⟩
        | third :: rest =>
          if !isContinuation third then ⟨index, some 2⟩
          else if n = 3 then firstFault (index + 3) rest
          else match rest with
            | [] => ⟨index, none⟩
            | fourth :: rest =>
              if !isContinuation fourth then ⟨index, some 3⟩ else firstFault (index + 4) rest

/-- The text of the bytes, or their first fault. -/
def decode (data : Bytes) : Except Fault String :=
  match String.fromUTF8? (ByteArray.mk data.toArray) with
  | some text => .ok text
  | none => .error (firstFault 0 data)

end Utf8

end AbiCodec
