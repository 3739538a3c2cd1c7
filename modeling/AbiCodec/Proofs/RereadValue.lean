import AbiCodec.Proofs.WriteOutcomes

/-!
# Values read back from text

The decimal text of a number says whether the number is negative, and not
whether its type is signed: read back, a signed number that is not negative is
an unsigned one. A layout takes both for the number that they denote, so the
value is written as before.
-/

namespace AbiCodec

namespace Value

mutual

/-- The value with an unsigned number in place of each signed one that is not negative. -/
def reread : Value → Value
  | .int w => if w.msb then .int w else .uint w
  | .array items => .array (rereadItems items)
  | .tuple entries => .tuple (rereadEntries entries)
  | v => v

def rereadItems : List Value → List Value
  | [] => []
  | v :: rest => v.reread :: rereadItems rest

def rereadEntries : List (Option String × Value) → List (Option String × Value)
  | [] => []
  | (name, v) :: rest => (name, v.reread) :: rereadEntries rest

end

theorem rereadItems_eq_map (items : List Value) : rereadItems items = items.map reread := by
  induction items with
  | nil => rfl
  | cons v items ih => rw [rereadItems, ih, List.map_cons]

theorem values_rereadEntries (entries : Record) :
    Record.values (rereadEntries entries) = entries.values.map reread := by
  induction entries with
  | nil => rfl
  | cons entry entries ih =>
    rw [rereadEntries, Record.values, List.map_cons, ← Record.values, ih]
    rfl

theorem reread_int_of_msb_eq_false {w : Word} (positive : w.msb = false) :
    (Value.int w).reread = .uint w := by
  rw [reread, positive, if_neg Bool.false_ne_true]

theorem reread_int_of_msb_eq_true {w : Word} (negative : w.msb = true) :
    (Value.int w).reread = .int w := by
  rw [reread, negative, if_pos rfl]

end Value

namespace Layout

open Writing

/-- A number that is read back is the same number for a type of unsigned numbers. -/
theorem mapError_unsignedWord_reread (l : Layout) (bits : Nat) (v : Value) :
    (l.unsignedWord bits v.reread).mapError AbiError.kind =
      (l.unsignedWord bits v).mapError AbiError.kind := by
  cases v with
  | int w =>
    cases sign : w.msb with
    | true => rw [Value.reread_int_of_msb_eq_true sign]
    | false =>
      rw [Value.reread_int_of_msb_eq_false sign, unsignedWord, unsignedWord]
      simp only [sign, Bool.false_eq_true, if_false]
      cases w.fitsUnsigned bits <;> rfl
  | _ => rfl

/-- And for a type of signed numbers. -/
theorem mapError_signedWord_reread (l : Layout) (bits : Nat) (v : Value) :
    (l.signedWord bits v.reread).mapError AbiError.kind =
      (l.signedWord bits v).mapError AbiError.kind := by
  cases v with
  | int w =>
    cases sign : w.msb with
    | true => rw [Value.reread_int_of_msb_eq_true sign]
    | false =>
      rw [Value.reread_int_of_msb_eq_false sign, signedWord, signedWord]
      simp only [sign, Bool.false_eq_true, if_false]
      cases w.fitsSigned bits <;> rfl
  | _ => rfl

/-- The slots of values are the same after reading the values back. -/
theorem sameSlots_reread (components : List Layout)
    (each : ∀ c ∈ components, ∀ v : Value, (c.encode v.reread).outcome = (c.encode v).outcome)
    (values : List Value) :
    List.Forall₂ Block.SameSlot (slots components (values.map Value.reread))
      (slots components values) := by
  have same := sameSlots_map (g := id) (h := Value.reread) fun c member v (_ : v ∈ values) =>
    ⟨rfl, each c member v⟩
  rwa [List.map_id] at same

/-- A layout that tells no signed number from an unsigned one takes a number as before. -/
theorem outcome_encode_reread_int {l : Layout} {w : Word}
    (same : (l.encode (.uint w)).outcome = (l.encode (.int w)).outcome) :
    (l.encode (Value.int w).reread).outcome = (l.encode (.int w)).outcome := by
  cases sign : w.msb with
  | true => rw [Value.reread_int_of_msb_eq_true sign]
  | false => rw [Value.reread_int_of_msb_eq_false sign, same]

/-- What is written of a value is what is written of it after reading it back. -/
theorem outcome_encode_reread (l : Layout) (v : Value) :
    (l.encode v.reread).outcome = (l.encode v).outcome := by
  induction l generalizing v with
  | address name | bool name | fixedBytes name width | bytes name | string name | null name =>
    cases v with
    | int w => exact outcome_encode_reread_int (outcome_refuse ..)
    | array items => exact outcome_refuse ..
    | tuple entries => exact outcome_refuse ..
    | _ => rfl
  | number name width isSigned =>
    cases isSigned with
    | false => exact outcome_lift_congr (mapError_unsignedWord_reread _ _ v) fun _ _ => rfl
    | true => exact outcome_lift_congr (mapError_signedWord_reread _ _ v) fun _ _ => rfl
  | array name element length ih =>
    cases v with
    | array items =>
      rw [Value.reread, Value.rereadItems_eq_map]
      exact outcome_encode_array rfl
        (List.forall₂_map_left_iff.2 (List.forall₂_same.2 fun v _ => ih v)) length
    | int w => exact outcome_encode_reread_int (outcome_refuse ..)
    | tuple entries => exact outcome_refuse ..
    | _ => rfl
  | tuple name components ih =>
    have block (values : List Value) (e e' : AbiError) (same : e.kind = e'.kind) :
        (if (values.map Value.reread).length = components.length then
          Block.write (slots components (values.map Value.reread))
          else fail e : Writing Nat).outcome =
        (if values.length = components.length then Block.write (slots components values)
          else fail e' : Writing Nat).outcome :=
      outcome_components (sameSlots_reread components ih values) rfl (List.length_map _) same
    cases v with
    | tuple entries =>
      have written := block (Record.values entries)
      rw [← Value.values_rereadEntries] at written
      exact written _ _ rfl
    | array items =>
      have written := block items
      rw [← Value.rereadItems_eq_map] at written
      exact written _ _ rfl
    | int w => exact outcome_encode_reread_int (outcome_refuse ..)
    | _ => rfl

end Layout

/-- Values encode to the same bytes after reading them back, or fail for the same reason. -/
theorem mapError_encode_reread (settings : Settings) (types : List TypeSource)
    (values : List Value) :
    (encode settings types (values.map Value.reread)).mapError AbiError.kind =
      (encode settings types values).mapError AbiError.kind := by
  unfold encode
  rw [List.length_map]
  split
  · cases layoutsOf settings types with
    | error e => rfl
    | ok layouts =>
      change (outputOf _).mapError AbiError.kind = (outputOf _).mapError AbiError.kind
      rw [mapError_outputOf, mapError_outputOf, Layout.encodeAll, Layout.encodeAll, List.length_map]
      split
      · rw [Block.outcome_write
          (Layout.sameSlots_reread layouts (fun c _ => c.outcome_encode_reread) values)]
      · rfl
  · rfl

end AbiCodec
