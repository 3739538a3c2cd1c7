import AbiCodec.Layout.OfType
import AbiCodec.Proofs.Encoding

/-!
# What a failed encoding leaves

The children of a block are staged apart from the output, and a scalar is checked
before its word is written, so what fails leaves the output as it was. The one
thing written before a step that may still fail is the number of the elements of
an array of dynamic length: it stays behind when that array is encoded straight
into the output and one of its elements is refused.
-/

namespace AbiCodec

namespace Writing

/-- Whatever was written before, a failure leaves these bytes behind it and nothing else. -/
def Leaves (action : Writing Nat) (left : Bytes) : Prop :=
  ∀ written e after, action.runFrom written = (.error e, after) → after = written ++ left

theorem Gives.leaves {action : Writing Nat} {data : Bytes} (given : action.Gives (some data))
    (left : Bytes) : action.Leaves left := by
  intro written e after failed
  rw [given written] at failed
  cases failed

theorem leaves_fail (e : AbiError) : (fail e : Writing Nat).Leaves [] := by
  intro written e' after failed
  cases failed
  exact (List.append_nil written).symm

/-- A step that is taken before anything is written leaves nothing. -/
theorem leaves_append_of {α : Type} (step : Except AbiError α) (f : α → Bytes) :
    (do append (f (← step)) : Writing Nat).Leaves [] := by
  cases step with
  | error e => exact leaves_fail e
  | ok x => exact (gives_append (f x)).leaves []

/-- A second action leaves what the first has written, and what it leaves itself. -/
theorem Gives.seq_leaves {first second : Writing Nat} {data left : Bytes}
    (given : first.Gives (some data)) (leaves : second.Leaves left) :
    (do let m ← first; let n ← second; return m + n : Writing Nat).Leaves (data ++ left) := by
  intro written e after failed
  rw [runFrom_bind_of_ok (given written)] at failed
  rcases run : second.runFrom (written ++ data) with ⟨outcome, last⟩
  cases outcome with
  | error e' =>
    rw [runFrom_bind_of_error run] at failed
    cases failed
    rw [leaves _ _ _ run, List.append_assoc]
  | ok n =>
    rw [runFrom_bind_of_ok run] at failed
    cases failed

end Writing

open Writing

/-- A block is appended when all of its slots have been staged. -/
theorem Block.leaves_write (slots : List Slot) : (Block.write slots).Leaves [] := by
  rw [Block.write]
  cases Block.stage [] slots with
  | error e => exact leaves_fail e
  | ok block => exact (gives_append block.bytes).leaves []

namespace Layout

/-- The number that the encoding writes before it has seen the elements that it counts. -/
def countFirst? : Layout → Value → Option Nat
  | array _ _ .dynamic, .array items => some items.length
  | _, _ => none

/-- The bytes of the number that is written first. -/
def leftover (l : Layout) (v : Value) : Bytes :=
  (l.countFirst? v).elim [] fun count => Word.toBytes (BitVec.ofNat 256 count)

theorem leftover_eq_nil_iff (l : Layout) (v : Value) :
    l.leftover v = [] ↔ l.countFirst? v = none := by
  rw [leftover]
  cases l.countFirst? v with
  | none => simp
  | some count =>
    have length := Word.length_toBytes (BitVec.ofNat 256 count)
    simp only [Option.elim_some, reduceCtorEq, iff_false]
    intro empty
    rw [empty] at length
    cases length

theorem leaves_encode (l : Layout) (v : Value) : (l.encode v).Leaves (l.leftover v) := by
  cases l with
  | address name => exact leaves_append_of _ _
  | bool name =>
    cases v with
    | bool b => exact (gives_append _).leaves _
    | _ => exact leaves_fail _
  | number name width isSigned =>
    cases isSigned with
    | false => exact leaves_append_of (unsignedWord _ width.bits v) Word.toBytes
    | true => exact leaves_append_of (signedWord _ width.bits v) Word.toBytes
  | fixedBytes name width => exact leaves_append_of _ _
  | bytes name =>
    rw [encode]
    cases v.asBytes? with
    | none => exact leaves_fail _
    | some data => exact (gives_payload data).leaves _
  | string name =>
    cases v with
    | string text => exact (gives_payload _).leaves _
    | _ => exact leaves_fail _
  | null name =>
    cases v with
    | null => exact gives_nothing.leaves _
    | _ => exact leaves_fail _
  | array name element length =>
    cases length with
    | dynamic =>
      cases v with
      | array items =>
        -- The count is out before the block of the elements is staged.
        have count : leftover (array name element .dynamic) (.array items) =
            Word.toBytes (BitVec.ofNat 256 items.length) ++ [] := by
          rw [List.append_nil]
          rfl
        rw [count]
        exact (gives_append (Word.toBytes _)).seq_leaves (Block.leaves_write _)
      | _ => exact leaves_fail _
    | fixed n =>
      cases v with
      | array items =>
        rw [encode]
        by_cases same : n = items.length
        · rw [if_pos same]
          exact gives_nothing.seq_leaves (Block.leaves_write _)
        · rw [if_neg same]
          exact leaves_fail _
      | _ => exact leaves_fail _
  | tuple name components =>
    rw [encode]
    cases (tuple name components).tupleValues (components.map Layout.name) v with
    | error e => exact leaves_fail e
    | ok values =>
      change (if values.length = components.length then Block.write (slots components values)
        else fail _).Leaves _
      split
      · exact Block.leaves_write _
      · exact leaves_fail _

/-- A failed encoding leaves the output as it was, however deep in the value it failed, exactly
when its layout does not start with the number of the elements of the value. Where it does, that
number stays behind and nothing else. -/
theorem output_of_encode_failed {l : Layout} {v : Value} {written after : Bytes} {e : AbiError}
    (failed : (l.encode v).runFrom written = (.error e, after)) :
    (after = written ↔ l.countFirst? v = none) ∧
      ∀ count, l.countFirst? v = some count →
        after = written ++ Word.toBytes (BitVec.ofNat 256 count) := by
  have left := leaves_encode l v written e after failed
  constructor
  · rw [left, List.append_right_eq_self, leftover_eq_nil_iff]
  · intro count counted
    rw [left, leftover, counted, Option.elim_some]

/-- An array in an array in a tuple: no count of either is left. -/
theorem output_of_encode_failed_nested :
    let l := tuple none [array none (array none (number none ⟨1, by decide, by decide⟩ false)
      .dynamic) .dynamic]
    let v := Value.tuple [(none, .array [.array [.uint 1], .array [.uint 256]])]
    (l.encode v).runFrom [7] =
        (.error (.valueOutOfRange "" "uint8" "Uint(256)" .valueOutOfBounds), [7]) ∧
      l.countFirst? v = none := by
  intro l v
  have failed : (l.encode v).runFrom [7] =
      (.error (.valueOutOfRange "" "uint8" "Uint(256)" .valueOutOfBounds), [7]) := rfl
  exact ⟨failed, (output_of_encode_failed failed).1.1 rfl⟩

/-- The count of an array of dynamic length stays when an element is refused. -/
theorem count_left_behind :
    ∃ l, ofType .standard (.arrayOf (.named "uint8") .dynamic) = .ok l ∧
      (l.encode (.array [.uint 256])).runFrom [] =
        (.error (.valueOutOfRange "" "uint8" "Uint(256)" .valueOutOfBounds), Word.toBytes 1) ∧
      Word.toBytes 1 ≠ [] :=
  ⟨array none (number none ⟨1, by decide, by decide⟩ false) .dynamic, rfl, rfl, by decide⟩

end Layout

end AbiCodec
