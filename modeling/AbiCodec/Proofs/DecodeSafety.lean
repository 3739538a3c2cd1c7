import AbiCodec.Codec
import AbiCodec.Proofs.LayoutTree
import AbiCodec.Proofs.ReaderSteps

/-!
# Decoding never faults

A reading is safe when from every reader in bounds it ends in bounds, either
with a value or with the error of malformed data. The operations of a reader
are safe, reading one after the other is, and so is every layout. The internal
faults stand for a slice, a count, a word or a record that is not what its user
relies on, and they are not errors of malformed data.
-/

namespace AbiCodec

namespace Reading

variable {α β : Type}

/-- A value of which `post` holds, or the error of malformed data. -/
def SafeOutcome (post : α → Prop) : Except AbiError α → Prop
  | .ok x => post x
  | .error e => e.kind = .malformedData

/-- From every reader in bounds, the action ends in bounds with a safe outcome. -/
def Safe (post : α → Prop) (action : Reading α) : Prop :=
  ∀ r : Reader, r.InBounds →
    (action.runFrom r).2.InBounds ∧ SafeOutcome post (action.runFrom r).1

theorem Safe.pure {post : α → Prop} {x : α} (h : post x) : Safe post (pure x) :=
  fun _ inBounds => ⟨inBounds, h⟩

theorem Safe.bind {first : α → Prop} {post : β → Prop} {action : Reading α}
    {next : α → Reading β} (safe : Safe first action)
    (resume : ∀ x, first x → Safe post (next x)) : Safe post (action >>= next) := by
  intro r inBounds
  have before := safe r inBounds
  rcases run : action.runFrom r with ⟨outcome, after⟩
  rw [run] at before
  cases outcome with
  | error e =>
    rw [runFrom_bind_of_error run]
    exact before
  | ok x =>
    rw [runFrom_bind_of_ok run]
    exact resume x before.2 after before.1

theorem Safe.inspect {post : α → Prop} {f : Reader → Except AbiError α}
    (safe : ∀ r : Reader, r.InBounds → SafeOutcome post (f r)) : Safe post (inspect f) :=
  fun r inBounds => ⟨inBounds, safe r inBounds⟩

theorem Safe.ofExcept {post : α → Prop} {result : Except AbiError α}
    (safe : SafeOutcome post result) : Safe post (ofExcept result) :=
  fun _ inBounds => ⟨inBounds, safe⟩

/-- Reading elsewhere spends the same budget and leaves the cursor where it was. -/
theorem Safe.elsewhere {post : α → Prop} {action : Reading α} (safe : Safe post action)
    {place : Reader} (placed : place.InBounds) : Safe post (elsewhere place action) := by
  intro r inBounds
  rw [runFrom_elsewhere]
  exact ⟨inBounds.withBudget _, (safe _ (placed.withBudget _)).2⟩

theorem safe_coerce (name : String) (v : Value) : Safe (fun _ => True) (coerce name v) :=
  Safe.inspect fun _ _ => trivial

theorem pay_safe {r : Reader} (inBounds : r.InBounds) {count : Nat}
    (inside : r.offset + count ≤ r.data.length) {post : α → Prop} {x : α} (h : post x) :
    (r.pay count x).2.InBounds ∧ SafeOutcome post (r.pay count x).1 := by
  unfold Reader.pay
  split
  · exact ⟨inBounds.withBudget _, rfl⟩
  · exact ⟨inBounds.consume inside, h⟩

theorem safe_bytes (length : Nat) (relaxed : Bool) : Safe (fun _ => True) (bytes length relaxed) := by
  intro r inBounds
  rw [runFrom_bytes inBounds]
  cases outcome : r.takenLength length relaxed with
  | error e =>
    rw [Reader.takenLength_error inBounds outcome]
    exact ⟨inBounds, rfl⟩
  | ok taken => exact pay_safe inBounds (Reader.takenLength_spec inBounds outcome).2 trivial

theorem safe_word : Safe (fun _ => True) word := by
  intro r inBounds
  rw [runFrom_word inBounds]
  split
  · next inside => exact pay_safe inBounds inside trivial
  · exact ⟨inBounds, rfl⟩

theorem Safe.checked {first : α → Prop} {post : β → Prop} {action : Reading α}
    {check : Reader → α → Except AbiError β} (safe : Safe first action)
    (checks : ∀ r x, first x → SafeOutcome post (check r x)) : Safe post (checked action check) := by
  intro r inBounds
  have before := safe r inBounds
  rcases run : action.runFrom r with ⟨outcome, after⟩
  rw [run] at before
  cases outcome with
  | error e =>
    rw [runFrom_checked_of_error run]
    exact before
  | ok x =>
    rw [runFrom_checked_of_ok run]
    exact ⟨before.1, checks r x before.2⟩

theorem safe_count (typeName : String) : Safe (fun _ => True) (count typeName) := by
  rw [count_eq_checked]
  apply safe_word.checked
  intro r w _
  split
  · trivial
  · rfl

theorem sub_safe {r : Reader} (inBounds : r.InBounds) (offset : Nat) :
    SafeOutcome Reader.InBounds (r.sub offset) := by
  rw [Reader.sub_eq inBounds]
  split
  · exact inBounds.viewAt _
  · exact rfl

end Reading

open Reading

namespace Part

/-- A child reads safely, in place or where its pointer leads. -/
theorem safe_readIn {base : Reader} (inBounds : base.InBounds) {part : Part}
    (safe : Safe (fun _ => True) part.read) : Safe (fun _ => True) (part.readIn base) := by
  unfold readIn
  split
  · apply Safe.bind (safe_count part.kindName)
    intro offset _
    apply Safe.bind (Safe.ofExcept (sub_safe inBounds offset))
    intro place placed
    exact Safe.elsewhere safe placed
  · exact safe

theorem safe_readAllIn {base : Reader} (inBounds : base.InBounds) (parts : List Part)
    (safe : ∀ part ∈ parts, Safe (fun _ => True) part.read) :
    Safe (fun values => values.length = parts.length) (readAllIn base parts) := by
  induction parts with
  | nil => exact Safe.pure rfl
  | cons part parts ih =>
    rcases List.forall_mem_cons.1 safe with ⟨own, others⟩
    apply Safe.bind (safe_readIn inBounds own)
    intro v _
    apply Safe.bind (ih others)
    intro vs same
    exact Safe.pure (by rw [List.length_cons, same, List.length_cons])

end Part

/-- A block of safe children reads safely, one value for each child. -/
theorem safe_readBlock (parts : List Part) (safe : ∀ part ∈ parts, Safe (fun _ => True) part.read) :
    Safe (fun values => values.length = parts.length) (readBlock parts) := by
  apply Safe.bind (Safe.inspect fun r inBounds => sub_safe inBounds 0)
  intro base inBounds
  exact Part.safe_readAllIn inBounds parts safe

namespace Layout

theorem safe_readPayload (typeName : String) : Safe (fun _ => True) (readPayload typeName) :=
  Safe.bind (safe_count typeName) fun length _ => safe_bytes length true

theorem safe_readAddress : Safe (fun _ => True) readAddress := by
  rw [readAddress_eq_checked]
  apply safe_word.checked
  intro r w _
  split
  · trivial
  · rfl

theorem safe_readText : Safe (fun _ => True) readText := by
  rw [readText_eq_checked]
  apply (safe_readPayload "string").checked
  intro r data _
  split
  · trivial
  · rfl

theorem safe_fixedCount (l element : Layout) (n : Nat) :
    Safe (fun _ => True) (l.fixedCount element n) := by
  have safe : Safe (fun _ => True) (Reading.inspect Reader.remaining) := by
    apply Safe.inspect
    intro r inBounds
    rw [Reader.remaining_eq inBounds]
    trivial
  apply Safe.bind safe
  intro remaining _
  split
  · exact Safe.inspect fun _ _ => rfl
  · exact Safe.pure trivial

theorem safe_dynamicCount (l : Layout) : Safe (fun _ => True) l.dynamicCount := by
  rw [dynamicCount_eq_checked]
  apply (safe_count "array").checked
  intro r n _
  split
  · rfl
  · trivial

theorem safe_readCount (l element : Layout) (length : ArrayLength) :
    Safe (fun _ => True) (l.readCount element length) := by
  cases length with
  | fixed n => exact safe_fixedCount l element n
  | dynamic => exact safe_dynamicCount l

theorem safe_recordOf {names : List (Option String)} {values : List Value}
    (same : names.length = values.length) : Safe (fun _ => True) (recordOf names values) := by
  rw [recordOf, Record.ofParts?, if_pos same]
  exact Safe.pure trivial

/-- A list of safe components reads safely: the block has a value for each name. -/
theorem safe_decodeAll (components : List Layout)
    (safe : ∀ c ∈ components, Safe (fun _ => True) c.decode) :
    Safe (fun _ => True) (decodeAll components) := by
  unfold decodeAll
  rw [parts_eq_map]
  have children : ∀ child ∈ components.map part, Safe (fun _ => True) child.read := by
    intro child member
    obtain ⟨c, inList, rfl⟩ := List.mem_map.1 member
    exact safe c inList
  apply Safe.bind (safe_readBlock _ children)
  intro values same
  rw [List.length_map] at same
  exact safe_recordOf (by rw [List.length_map, same])

theorem safe_decode (l : Layout) : Safe (fun _ => True) l.decode := by
  induction l with
  | address name => exact Safe.bind safe_readAddress fun _ _ => safe_coerce _ _
  | bool name => exact Safe.bind safe_word fun _ _ => safe_coerce _ _
  | number name width isSigned => exact Safe.bind safe_word fun _ _ => safe_coerce _ _
  | fixedBytes name width => exact Safe.bind (safe_bytes _ _) fun _ _ => safe_coerce _ _
  | bytes name => exact Safe.bind (safe_readPayload _) fun _ _ => safe_coerce _ _
  | string name => exact Safe.bind safe_readText fun _ _ => safe_coerce _ _
  | null name => exact Safe.bind (safe_bytes _ _) fun _ _ => safe_coerce _ _
  | array name element length safe =>
    rw [decode_array]
    apply Safe.bind (safe_readCount _ _ _)
    intro count _
    have children : ∀ child ∈ List.replicate count element.part,
        Safe (fun _ => True) child.read := List.forall_mem_replicate.2 (Or.inr safe)
    exact Safe.bind (safe_readBlock _ children) fun _ _ => safe_coerce _ _
  | tuple name components safe =>
    rw [decode_tuple]
    exact Safe.bind (safe_decodeAll components safe) fun _ _ => safe_coerce _ _

end Layout

/-- Whatever the data, decoding under accepted types gives a record or says that the data is
malformed. -/
theorem decode_ok_or_malformed {settings : Settings} {types : List TypeSource}
    {layouts : List Layout} (accepted : layoutsOf settings types = .ok layouts)
    (hook : Option Hook) {data : Bytes} (small : data.length < 2 ^ 63) (isLoose : Bool) :
    (∃ record, decode settings hook types data isLoose = .ok record) ∨
      ∃ e, decode settings hook types data isLoose = .error e ∧ e.kind = .malformedData := by
  have safe := Layout.safe_decodeAll layouts (fun l _ => Layout.safe_decode l)
    (Reader.start data isLoose hook settings.maxInflation)
    (Reader.start_inBounds small isLoose hook settings.maxInflation)
  have decoded : decode settings hook types data isLoose =
      (decodeFrom layouts settings hook data isLoose).1 := by
    rw [decode, accepted]
    rfl
  rw [decoded, decodeFrom]
  cases outcome : ((Layout.decodeAll layouts).runFrom
      (Reader.start data isLoose hook settings.maxInflation)).1 with
  | ok record => exact Or.inl ⟨record, rfl⟩
  | error e =>
    rw [outcome] at safe
    exact Or.inr ⟨e, rfl, safe.2⟩

/-- An array that claims the most elements that a word can count. -/
theorem decode_ok_or_malformed_hostileCount :
    (∃ record, decode {} none [.tree (.array {} (.tuple {} [.elementary {} "uint8",
        .elementary {} "string"]) .dynamic)]
      (List.replicate 31 0 ++ 32 :: List.replicate 32 255) true = .ok record) ∨
    ∃ e, decode {} none [.tree (.array {} (.tuple {} [.elementary {} "uint8",
        .elementary {} "string"]) .dynamic)]
      (List.replicate 31 0 ++ 32 :: List.replicate 32 255) true = .error e ∧
      e.kind = .malformedData := by
  have accepted : layoutsOf {} [.tree (.array {} (.tuple {} [.elementary {} "uint8",
      .elementary {} "string"]) .dynamic)] =
      .ok [.array none (.tuple none [.number none ⟨1, by decide, by decide⟩ false,
        .string none]) .dynamic] := rfl
  exact decode_ok_or_malformed accepted none (by decide) true

end AbiCodec
