import AbiCodec.Proofs.RoundTrip

/-!
# The payload that ends an encoding

A payload ends an encoding when nothing is written after it. Unless the tails of
dynamic children can be empty, that is the payload that ends the last dynamic child
of each block on the way to it.
-/

namespace AbiCodec

namespace Layout

mutual

/-- The bytes of the byte string or text whose payload ends the encoding of a canonical value. -/
def finalPayload? : Layout → Value → Option Bytes
  | bytes _, v =>
    match v with
    | .bytes data => some data
    | _ => none
  | string _, v =>
    match v with
    | .string text => some (utf8Bytes text)
    | _ => none
  | array _ element _, v =>
    match v with
    | .array items => if element.isDynamic then items.getLast?.bind element.finalPayload? else none
    | _ => none
  | tuple _ components, v =>
    match v with
    | .tuple entries => finalPayloadOf? components (Record.values entries)
    | _ => none
  | _, _ => none

/-- The payload that ends a block, which is that of its last dynamic child. -/
def finalPayloadOf? : List Layout → List Value → Option Bytes
  | c :: components, v :: values =>
    if anyDynamic components then finalPayloadOf? components values
    else if c.isDynamic then c.finalPayload? v else none
  | _, _ => none

end

theorem anyDynamic_replicate (element : Layout) (count : Nat) :
    anyDynamic (List.replicate count element) = (count != 0 && element.isDynamic) := by
  rw [anyDynamic_eq_any, List.any_replicate]
  cases count <;> simp

theorem finalPayload?_array (name : Option String) (element : Layout) (length : ArrayLength)
    (items : List Value) : (array name element length).finalPayload? (.array items) =
      finalPayloadOf? (List.replicate items.length element) items := by
  induction items with
  | nil => simp [finalPayload?, finalPayloadOf?]
  | cons v items ih =>
    rw [List.length_cons, List.replicate_succ, finalPayloadOf?, ← ih, anyDynamic_replicate]
    cases items <;> cases dynamic : element.isDynamic <;> simp [finalPayload?, dynamic]

theorem padded_suffix_payload (data : Bytes) : Bytes.padded data <:+ payload data :=
  List.suffix_append _ _

theorem suffix_tails {components : List Layout} {values : List Value} {data : Bytes}
    (each : ∀ c ∈ components, ∀ v, c.finalPayload? v = some data →
      Bytes.padded data <:+ c.wire v)
    (final : finalPayloadOf? components values = some data) :
    Bytes.padded data <:+ Child.tails (children components values) := by
  induction components generalizing values with
  | nil => cases values <;> cases final
  | cons c components ih =>
    cases values with
    | nil => cases final
    | cons v values =>
      rcases List.forall_mem_cons.1 each with ⟨own, others⟩
      rw [finalPayloadOf?] at final
      rw [children, Child.tails_cons]
      split at final
      · exact (ih others final).trans (List.suffix_append _ _)
      · next last =>
        split at final
        · next dynamic =>
          rw [tails_of_static (Bool.eq_false_iff.2 last), List.append_nil,
            Child.tail_of_dynamic dynamic]
          exact own v final
        · cases final

/-- The payload ends the encoding, with its padding. -/
theorem suffix_wire {l : Layout} {v : Value} {data : Bytes}
    (final : l.finalPayload? v = some data) :
    Bytes.padded data <:+ l.wire v := by
  induction l generalizing v with
  | bytes name =>
    cases v with
    | bytes given =>
      cases final
      exact padded_suffix_payload data
    | _ => cases final
  | string name =>
    cases v with
    | string text =>
      cases final
      exact padded_suffix_payload _
    | _ => cases final
  | array name element length ih =>
    cases v with
    | array items =>
      rw [finalPayload?_array] at final
      rw [wire_array, Child.layOut, ← List.append_assoc]
      exact (suffix_tails (List.forall_mem_replicate.2 (Or.inr fun _ => ih)) final).trans
        (List.suffix_append _ _)
    | _ => cases final
  | tuple name components ih =>
    cases v with
    | tuple entries =>
      rw [finalPayload?] at final
      rw [wire, Child.layOut]
      exact (suffix_tails (fun c member _ => ih c member) final).trans (List.suffix_append _ _)
    | _ => cases final
  | _ => cases v <;> cases final

mutual

/-- The payload of a byte string or a text in the value, with its padding, ends the encoding. -/
inductive EndsWith : Layout → Value → Bytes → Prop where
  | bytes {name : Option String} {data : Bytes} : EndsWith (.bytes name) (.bytes data) data
  | string {name : Option String} {text : String} :
    EndsWith (.string name) (.string text) (utf8Bytes text)
  | array {name : Option String} {element : Layout} {length : ArrayLength} {items : List Value}
    {payload : Bytes} : EndsWithin (List.replicate items.length element) items payload →
      EndsWith (.array name element length) (.array items) payload
  | tuple {name : Option String} {components : List Layout}
    {entries : List (Option String × Value)} {payload : Bytes} :
    EndsWithin components (Record.values entries) payload →
      EndsWith (.tuple name components) (.tuple entries) payload

/-- A dynamic child of the block ends with the payload, and those after it have no tails. -/
inductive EndsWithin : List Layout → List Value → Bytes → Prop where
  | here {c : Layout} {components : List Layout} {v : Value} {values : List Value}
    {payload : Bytes} : c.isDynamic = true → Child.tails (children components values) = [] →
      EndsWith c v payload → EndsWithin (c :: components) (v :: values) payload
  | later {c : Layout} {components : List Layout} {v : Value} {values : List Value}
    {payload : Bytes} : EndsWithin components values payload →
      EndsWithin (c :: components) (v :: values) payload

end

mutual

/-- Whether some array in the layout has no elements, and these would be dynamic. -/
def hasVoid : Layout → Bool
  | array _ element length => (length == .fixed 0 && element.isDynamic) || element.hasVoid
  | tuple _ components => anyVoid components
  | _ => false

def anyVoid : List Layout → Bool
  | [] => false
  | c :: rest => c.hasVoid || anyVoid rest

end

theorem hasVoid_of_mem {components : List Layout} (solid : anyVoid components = false) :
    ∀ c ∈ components, c.hasVoid = false := by
  induction components with
  | nil => exact List.forall_mem_nil _
  | cons c components ih =>
    rw [anyVoid, Bool.or_eq_false_iff] at solid
    exact List.forall_mem_cons.2 ⟨solid.1, ih solid.2⟩

variable {components : List Layout} {values forms : List Value} {payload : Bytes}

theorem wordSize_le_headLengths (h : CanonicalForms components values forms)
    (dynamic : anyDynamic components = true) :
    wordSize ≤ Child.headLengths (children components forms) := by
  induction h with
  | nil => cases dynamic
  | @cons c components v form values forms _ _ ih =>
    rw [anyDynamic, Bool.or_eq_true] at dynamic
    rw [children, Child.headLengths_cons]
    rcases dynamic with here | later
    · rw [headLength_of_dynamic here]
      exact Nat.le_add_right _ _
    · exact Nat.le_trans (ih later) (Nat.le_add_left _ _)

/-- The encoding of a dynamic value takes some bytes. -/
theorem wire_ne_nil {l : Layout} (dynamic : l.isDynamic = true) (solid : l.hasVoid = false)
    {v form : Value} (h : l.canonical? v = some form) : l.wire form ≠ [] := by
  rw [← List.length_pos_iff]
  cases l with
  | bytes name =>
    obtain ⟨data, rfl⟩ := conforms_of_canonical? h
    rw [wire, Layout.payload, List.length_append, Word.length_toBytes]
    exact Nat.lt_of_lt_of_le (by decide) (Nat.le_add_right wordSize _)
  | string name =>
    obtain ⟨text, rfl⟩ := conforms_of_canonical? h
    rw [wire, Layout.payload, List.length_append, Word.length_toBytes]
    exact Nat.lt_of_lt_of_le (by decide) (Nat.le_add_right wordSize _)
  | array name element length =>
    obtain ⟨items, forms, rfl, admitted, mapped, rfl⟩ := canonical?_array_eq_some_iff.1 h
    rw [wire_array, mapped.length_of_replicate, List.length_append]
    cases length with
    | dynamic =>
      rw [countBytes, Word.length_toBytes]
      exact Nat.lt_of_lt_of_le (by decide) (Nat.le_add_right wordSize _)
    | fixed n =>
      cases beq_iff_eq.1 admitted
      rw [isDynamic_fixed] at dynamic
      rw [hasVoid, dynamic, Bool.and_true, Bool.or_eq_false_iff] at solid
      have some : items.length ≠ 0 := by simpa using solid.1
      have heads := wordSize_le_headLengths mapped (by
        rw [anyDynamic_replicate, dynamic, Bool.and_true, bne_iff_ne]
        exact some)
      exact Nat.lt_of_lt_of_le (by decide) (Nat.le_trans heads (Nat.le_trans
        (Child.headLengths_le_length_layOut _) (Nat.le_add_left _ _)))
  | tuple name components =>
    obtain ⟨values, forms, _, mapped, rfl⟩ := canonical?_tuple_eq_some_iff.1 h
    rw [wire_tuple mapped]
    exact Nat.lt_of_lt_of_le (by decide) (Nat.le_trans (wordSize_le_headLengths mapped dynamic)
      (Child.headLengths_le_length_layOut _))
  | _ => cases dynamic

theorem tails_ne_nil (solid : ∀ c ∈ components, c.hasVoid = false)
    (h : CanonicalForms components values forms) (dynamic : anyDynamic components = true) :
    Child.tails (children components forms) ≠ [] := by
  induction h with
  | nil => cases dynamic
  | @cons c components v form values forms first _ ih =>
    rcases List.forall_mem_cons.1 solid with ⟨own, others⟩
    rw [anyDynamic, Bool.or_eq_true] at dynamic
    rw [children, Child.tails_cons]
    rcases dynamic with here | later
    · rw [Child.tail_of_dynamic here]
      exact List.append_ne_nil_of_left_ne_nil (wire_ne_nil here own first) _
    · exact List.append_ne_nil_of_right_ne_nil _ (ih others later)

theorem anyDynamic_of_endsWithin (ending : EndsWithin components values payload) :
    anyDynamic components = true := by
  induction components generalizing values with
  | nil => cases ending
  | cons c components ih =>
    rw [anyDynamic, Bool.or_eq_true]
    cases ending with
    | here dynamic _ _ => exact Or.inl dynamic
    | later ending => exact Or.inr (ih ending)

theorem endsWithin_iff
    (each : ∀ c ∈ components, ∀ v form, c.canonical? v = some form →
      (c.EndsWith form payload ↔ c.finalPayload? form = some payload))
    (solid : ∀ c ∈ components, c.hasVoid = false) (h : CanonicalForms components values forms) :
    EndsWithin components forms payload ↔ finalPayloadOf? components forms = some payload := by
  induction h with
  | nil =>
    constructor
    · intro ending
      cases ending
    · intro final
      cases final
  | @cons c components v form values forms first rest ih =>
    rcases List.forall_mem_cons.1 each with ⟨own, others⟩
    rcases List.forall_mem_cons.1 solid with ⟨_, solidOthers⟩
    rw [finalPayloadOf?]
    constructor
    · intro ending
      cases ending with
      | here dynamic none ending =>
        have last : anyDynamic components = false := by
          rw [← Bool.not_eq_true]
          exact fun later => tails_ne_nil solidOthers rest later none
        rw [last, if_neg Bool.false_ne_true, if_pos dynamic]
        exact (own v form first).1 ending
      | later ending =>
        rw [anyDynamic_of_endsWithin ending, if_pos rfl]
        exact (ih others solidOthers).1 ending
    · intro final
      split at final
      · exact .later ((ih others solidOthers).2 final)
      · next last =>
        split at final
        · next dynamic =>
          exact .here dynamic (tails_of_static (Bool.eq_false_iff.2 last) forms)
            ((own v form first).2 final)
        · cases final

theorem endsWith_iff {l : Layout} (solid : l.hasVoid = false) {v form : Value}
    (h : l.canonical? v = some form) :
    l.EndsWith form payload ↔ l.finalPayload? form = some payload := by
  induction l generalizing v form payload with
  | bytes name =>
    obtain ⟨data, rfl⟩ := conforms_of_canonical? h
    constructor
    · intro ending
      cases ending
      rfl
    · intro final
      cases final
      exact .bytes
  | string name =>
    obtain ⟨text, rfl⟩ := conforms_of_canonical? h
    constructor
    · intro ending
      cases ending
      rfl
    · intro final
      cases final
      exact .string
  | array name element length ih =>
    rw [hasVoid, Bool.or_eq_false_iff] at solid
    obtain ⟨items, forms, rfl, _, mapped, rfl⟩ := canonical?_array_eq_some_iff.1 h
    have elements : EndsWithin _ forms payload ↔ _ :=
      endsWithin_iff (List.forall_mem_replicate.2 (Or.inr fun _ _ => ih solid.2))
        (List.forall_mem_replicate.2 (Or.inr solid.2)) mapped
    rw [← mapped.length_of_replicate] at elements
    rw [finalPayload?_array, ← elements]
    constructor
    · intro ending
      cases ending with
      | array within => exact within
    · exact .array
  | tuple name components ih =>
    obtain ⟨values, forms, _, mapped, rfl⟩ := canonical?_tuple_eq_some_iff.1 h
    have solid := hasVoid_of_mem solid
    have block : EndsWithin _ forms payload ↔ _ :=
      endsWithin_iff (fun c member _ _ => ih c member (solid c member)) solid mapped
    rw [finalPayload?, mapped.values_zip, ← block]
    constructor
    · intro ending
      cases ending with
      | tuple within => rwa [mapped.values_zip] at within
    · intro within
      apply EndsWith.tuple
      rwa [mapped.values_zip]
  | _ =>
    constructor
    · intro ending
      cases ending
    · intro final
      cases form <;> cases final

end Layout

end AbiCodec
