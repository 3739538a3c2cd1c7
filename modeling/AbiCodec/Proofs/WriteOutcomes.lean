import AbiCodec.Proofs.Encoding
import AbiCodec.Proofs.Renaming

/-!
# Outcomes of writing

The outcome of writing is the bytes, or the kind of the error; what an error says
of a value and its place is left aside. Outcomes go together along a run as the
runs do. For a value without structs the names of a layout have no say in the
outcome: they only stand in what errors say.
-/

namespace AbiCodec

namespace Value

mutual

/-- Whether a tuple in the value is given by the names of its components. -/
def hasStruct : Value → Bool
  | .array items => anyStruct items
  | .tuple entries => entriesHaveStruct entries
  | .struct _ => true
  | _ => false

def anyStruct : List Value → Bool
  | [] => false
  | v :: rest => v.hasStruct || anyStruct rest

def entriesHaveStruct : List (Option String × Value) → Bool
  | [] => false
  | (_, v) :: rest => v.hasStruct || entriesHaveStruct rest

end

theorem entriesHaveStruct_eq_anyStruct (entries : Record) :
    entriesHaveStruct entries = anyStruct entries.values := by
  induction entries with
  | nil => rfl
  | cons entry entries ih =>
    rw [entriesHaveStruct, ih]
    rfl

theorem of_anyStruct_eq_false {values : List Value} (plain : anyStruct values = false) :
    ∀ v ∈ values, v.hasStruct = false := by
  induction values with
  | nil => exact fun _ member => absurd member List.not_mem_nil
  | cons v values ih =>
    rw [anyStruct, Bool.or_eq_false_iff] at plain
    exact List.forall_mem_cons.2 ⟨plain.1, ih plain.2⟩

end Value

namespace Writing

/-- The number of bytes written and all bytes after it, or the kind of the error. -/
def outcome {α : Type} (action : Writing α) (written : Bytes) : Except ErrorKind (α × Bytes) :=
  match action.runFrom written with
  | (.ok x, after) => .ok (x, after)
  | (.error e, _) => .error e.kind

theorem outcome_bind {α β : Type} (action : Writing α) (next : α → Writing β) (written : Bytes) :
    (action >>= next).outcome written =
      (action.outcome written).bind fun result => (next result.1).outcome result.2 := by
  rcases run : action.runFrom written with ⟨_ | x, after⟩
  · simp only [outcome, runFrom_bind_of_error run, run]
    rfl
  · simp only [outcome, runFrom_bind_of_ok run, run]
    rfl

theorem outcome_bind_congr {α β : Type} {action other : Writing α} {next next' : α → Writing β}
    (first : action.outcome = other.outcome) (rest : ∀ x, (next x).outcome = (next' x).outcome) :
    (action >>= next).outcome = (other >>= next').outcome := by
  funext written
  simp only [outcome_bind, first, rest]

/-- An earlier step has a say in the outcome by its value and by the kind of its error. -/
theorem outcome_lift_congr {α β : Type} {step other : Except AbiError α}
    {next next' : α → Writing β} (same : step.mapError AbiError.kind = other.mapError AbiError.kind)
    (rest : ∀ x, step = .ok x → (next x).outcome = (next' x).outcome) :
    (do next (← step) : Writing β).outcome = (do next' (← other) : Writing β).outcome := by
  cases step with
  | error e =>
    cases other with
    | error e' => exact funext fun _ => congrArg Except.error (Except.error.inj same)
    | ok y => cases same
  | ok x =>
    cases other with
    | error e' => cases same
    | ok y =>
      cases same
      exact rest x rfl

theorem outcome_fail {e e' : AbiError} (same : e.kind = e'.kind) :
    (fail e : Writing Nat).outcome = (fail e' : Writing Nat).outcome :=
  funext fun _ => congrArg Except.error same

end Writing

namespace Block

open Writing

/-- The slots go to the same part of a block, and have the same outcome there. -/
structure SameSlot (slot other : Slot) : Prop where
  isDynamic_eq : slot.isDynamic = other.isDynamic
  outcome_eq : slot.write.outcome = other.write.outcome

/-- Staging runs each slot for its outcome only. -/
theorem mapError_stage_cons (slot : Slot) (rest : List Slot) (tails : Bytes) :
    (stage tails (slot :: rest)).mapError AbiError.kind =
      (slot.write.outcome (if slot.isDynamic then tails else [])).bind fun result =>
        ((stage (if slot.isDynamic then result.2 else tails) rest).mapError AbiError.kind).map
          fun block => ⟨(if slot.isDynamic then .pointer tails.length else .inline result.2) ::
            block.heads, block.tails⟩ := by
  rw [stage, outcome]
  cases slot.isDynamic with
  | false =>
    simp only [Bool.false_eq_true, if_false]
    rcases slot.write.runFrom [] with ⟨_ | n, data⟩
    · rfl
    · simp only [Except.bind]
      cases stage tails rest <;> rfl
  | true =>
    simp only [if_true]
    rcases slot.write.runFrom tails with ⟨_ | n, data⟩
    · rfl
    · simp only [Except.bind]
      cases stage data rest <;> rfl

theorem mapError_stage {slots others : List Slot} (same : List.Forall₂ SameSlot slots others)
    (tails : Bytes) : (stage tails slots).mapError AbiError.kind =
      (stage tails others).mapError AbiError.kind := by
  induction same generalizing tails with
  | nil => rfl
  | cons first _ ih =>
    rw [mapError_stage_cons, mapError_stage_cons, first.isDynamic_eq, first.outcome_eq]
    simp only [ih]

theorem outcome_write {slots others : List Slot} (same : List.Forall₂ SameSlot slots others) :
    (write slots).outcome = (write others).outcome := by
  have staged := mapError_stage same []
  unfold write
  cases left : stage [] slots with
  | error e =>
    rw [left] at staged
    cases right : stage [] others with
    | error e' =>
      rw [right] at staged
      exact outcome_fail (Except.error.inj staged)
    | ok other =>
      rw [right] at staged
      cases staged
  | ok block =>
    rw [left] at staged
    cases right : stage [] others with
    | error e' =>
      rw [right] at staged
      cases staged
    | ok other =>
      rw [right] at staged
      cases staged
      rfl

end Block

namespace Layout

open Writing

/-- The names of the layout are of no account for what it writes of the value. -/
def WritesAlike (f : Option String → Option String) (l : Layout) (v : Value) : Prop :=
  ((l.rename f).encode v).outcome = (l.encode v).outcome

variable {f : Option String → Option String}

/-- What a refusal says is no part of the outcome. -/
theorem outcome_refuse (l l' : Layout) (v v' : Value) (cause cause' : ValueCause) :
    (fail (l.refuse v cause) : Writing Nat).outcome =
      (fail (l'.refuse v' cause') : Writing Nat).outcome := by
  have kind (l : Layout) (v : Value) (cause : ValueCause) :
      (l.refuse v cause).kind = .invalidValue := rfl
  exact outcome_fail ((kind l v cause).trans (kind l' v' cause').symm)

/-- Slots are the same, one by one, when their writing is. -/
theorem sameSlots_map {g : Layout → Layout} {h : Value → Value} {components : List Layout}
    {values : List Value}
    (alike : ∀ c ∈ components, ∀ v ∈ values, (g c).isDynamic = c.isDynamic ∧
      ((g c).encode (h v)).outcome = (c.encode v).outcome) :
    List.Forall₂ Block.SameSlot (slots (components.map g) (values.map h))
      (slots components values) := by
  induction components generalizing values with
  | nil =>
    rw [List.map_nil, slots]
    · exact .nil
    · intro _ _ _ _ same
      cases same
  | cons c components ih =>
    cases values with
    | nil =>
      rw [List.map_nil, slots, slots]
      · exact .nil
      all_goals
        intro _ _ _ _ _ same
        cases same
    | cons v values =>
      obtain ⟨place, first⟩ := alike c List.mem_cons_self v List.mem_cons_self
      rw [List.map_cons, List.map_cons, slots, slots]
      refine .cons ⟨place, first⟩ (ih ?_)
      intro d inComponents w inValues
      exact alike d (List.mem_cons_of_mem c inComponents) w (List.mem_cons_of_mem v inValues)

theorem sameSlots {components : List Layout} {values : List Value}
    (alike : ∀ c ∈ components, ∀ v ∈ values, WritesAlike f c v) :
    List.Forall₂ Block.SameSlot (slots (renameAll f components) values)
      (slots components values) := by
  have same := sameSlots_map (g := rename f) (h := id) fun c inComponents v inValues =>
    ⟨isDynamic_rename f c, alike c inComponents v inValues⟩
  rwa [List.map_id, ← renameAll_eq_map] at same

/-- Arrays have the same outcome when their elements have, one by one. -/
theorem outcome_encode_array {name name' : Option String} {element element' : Layout}
    {items items' : List Value} (place : element.isDynamic = element'.isDynamic)
    (same : List.Forall₂ (fun v w => (element.encode v).outcome = (element'.encode w).outcome)
      items items')
    (length : ArrayLength) : ((array name element length).encode (.array items)).outcome =
      ((array name' element' length).encode (.array items')).outcome := by
  have count := same.length_eq
  have block : (Block.write (items.map fun v => ⟨element.isDynamic, element.encode v⟩)).outcome =
      (Block.write (items'.map fun w => ⟨element'.isDynamic, element'.encode w⟩)).outcome := by
    apply Block.outcome_write
    rw [List.forall₂_map_left_iff, List.forall₂_map_right_iff]
    exact same.imp fun _ _ alike => ⟨place, alike⟩
  cases length with
  | dynamic =>
    rw [encode, encode, count]
    exact outcome_bind_congr rfl fun _ => outcome_bind_congr block fun _ => rfl
  | fixed n =>
    rw [encode, encode, count]
    by_cases admitted : n = items'.length
    · rw [if_pos admitted, if_pos admitted]
      exact outcome_bind_congr rfl fun _ => outcome_bind_congr block fun _ => rfl
    · -- The wrong number of elements is refused before the block.
      rw [if_neg admitted, if_neg admitted]
      exact outcome_bind_congr (outcome_fail rfl) fun _ => outcome_bind_congr block fun _ => rfl

/-- As many values as components are written as a block, and others are refused. -/
theorem outcome_components {components components' : List Layout} {values values' : List Value}
    (same : List.Forall₂ Block.SameSlot (slots components values) (slots components' values'))
    (count : components.length = components'.length) (length : values.length = values'.length)
    {e e' : AbiError} (kind : e.kind = e'.kind) :
    (if values.length = components.length then Block.write (slots components values)
      else fail e : Writing Nat).outcome =
    (if values'.length = components'.length then Block.write (slots components' values')
      else fail e' : Writing Nat).outcome := by
  rw [count, length]
  split
  · exact Block.outcome_write same
  · exact outcome_fail kind

theorem mapError_addressWord (l l' : Layout) (v : Value) :
    (l.addressWord v).mapError AbiError.kind = (l'.addressWord v).mapError AbiError.kind := by
  cases v with
  | string text =>
    simp only [addressWord]
    cases Address.read text <;> rfl
  | _ => rfl

theorem mapError_unsignedWord (l l' : Layout) (bits : Nat) (v : Value) :
    (l.unsignedWord bits v).mapError AbiError.kind =
      (l'.unsignedWord bits v).mapError AbiError.kind := by
  cases v with
  | uint w =>
    simp only [unsignedWord]
    cases w.fitsUnsigned bits <;> rfl
  | int w =>
    simp only [unsignedWord]
    cases w.msb with
    | true => rfl
    | false => cases w.fitsUnsigned bits <;> rfl
  | _ => rfl

theorem mapError_signedWord (l l' : Layout) (bits : Nat) (v : Value) :
    (l.signedWord bits v).mapError AbiError.kind =
      (l'.signedWord bits v).mapError AbiError.kind := by
  cases v with
  | int w =>
    simp only [signedWord]
    cases w.fitsSigned bits <;> rfl
  | uint w =>
    simp only [signedWord]
    cases w.msb with
    | true => rfl
    | false => cases w.fitsSigned bits <;> rfl
  | _ => rfl

theorem mapError_fixedBytesOf (l l' : Layout) (size : Nat) (v : Value) :
    (l.fixedBytesOf size v).mapError AbiError.kind =
      (l'.fixedBytesOf size v).mapError AbiError.kind := by
  unfold fixedBytesOf
  cases v.asBytes? with
  | none => rfl
  | some data =>
    by_cases sized : data.length = size
    · simp only [if_pos sized]
    · simp only [if_neg sized]
      rfl

/-- A tuple takes its values by position from anything but a struct. -/
theorem mapError_tupleValues (l l' : Layout) (names names' : List (Option String)) {v : Value}
    (plain : v.hasStruct = false) :
    (l.tupleValues names v).mapError AbiError.kind =
      (l'.tupleValues names' v).mapError AbiError.kind := by
  cases v with
  | struct fields => cases plain
  | _ => rfl

theorem hasStruct_of_tupleValues {l : Layout} {names : List (Option String)} {v : Value}
    {values : List Value} (plain : v.hasStruct = false)
    (taken : l.tupleValues names v = .ok values) : ∀ w ∈ values, w.hasStruct = false := by
  cases v with
  | struct fields => cases plain
  | tuple entries =>
    cases taken
    exact Value.of_anyStruct_eq_false (Value.entriesHaveStruct_eq_anyStruct entries ▸ plain)
  | array items =>
    cases taken
    exact Value.of_anyStruct_eq_false plain
  | _ => cases taken

/-- Names have no say in the encoding of a value without structs. -/
theorem writesAlike (f : Option String → Option String) (l : Layout) {v : Value}
    (plain : v.hasStruct = false) : WritesAlike f l v := by
  unfold WritesAlike
  induction l generalizing v with
  | address name => exact outcome_lift_congr (mapError_addressWord _ _ v) fun _ _ => rfl
  | bool name =>
    cases v with
    | bool b => rfl
    | _ => exact outcome_refuse ..
  | number name width isSigned =>
    cases isSigned with
    | false => exact outcome_lift_congr (mapError_unsignedWord _ _ width.bits v) fun _ _ => rfl
    | true => exact outcome_lift_congr (mapError_signedWord _ _ width.bits v) fun _ _ => rfl
  | fixedBytes name width =>
    exact outcome_lift_congr (mapError_fixedBytesOf _ _ width.size v) fun _ _ => rfl
  | bytes name =>
    rw [rename, encode, encode]
    cases v.asBytes? with
    | none => exact outcome_refuse ..
    | some data => rfl
  | string name =>
    cases v with
    | string text => rfl
    | _ => exact outcome_refuse ..
  | null name =>
    cases v with
    | null => rfl
    | _ => exact outcome_refuse ..
  | array name element length ih =>
    cases v with
    | array items =>
      exact outcome_encode_array (isDynamic_rename f element) (List.forall₂_same.2 fun v member =>
        ih (Value.of_anyStruct_eq_false plain v member)) length
    | _ => exact outcome_refuse ..
  | tuple name components ih =>
    rw [rename, encode, encode]
    apply outcome_lift_congr (mapError_tupleValues _ _ _ _ plain)
    intro values taken
    have same := sameSlots fun c inComponents w inValues =>
      ih c inComponents (hasStruct_of_tupleValues plain taken w inValues)
    have length : (renameAll f components).length = components.length := by
      rw [renameAll_eq_map, List.length_map]
    exact outcome_components same length rfl rfl

end Layout

theorem mapError_outputOf (action : Writing Nat) :
    (outputOf action).mapError AbiError.kind = (action.outcome []).map Prod.snd := by
  rw [outputOf, Writing.outcome]
  rcases action.runFrom [] with ⟨_ | n, data⟩ <;> rfl

end AbiCodec
