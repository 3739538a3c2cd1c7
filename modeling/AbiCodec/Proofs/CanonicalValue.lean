import AbiCodec.Proofs.LayoutTree
import Mathlib.Data.List.Forall2

/-!
# Canonical values

A layout accepts values in more than one form: an integer of either sort, a
byte string of either sort, an address as text, a tuple by position or by name.
`canonical? l v` is the one form in which `v` comes back from the wire, and it
is missing when `v` does not fit `l`. A value `Conforms` to a layout when it
has that form already; the names in it play no part.
-/

namespace AbiCodec

/-- Whether an array type of this length has arrays of so many elements. -/
def ArrayLength.admits : ArrayLength → Nat → Bool
  | .dynamic, _ => true
  | .fixed n, count => n == count

namespace Layout

/-- Whether the integer is in the range of a number type of so many bits. -/
def inRange (isSigned : Bool) (bits : Nat) (x : Int) : Bool :=
  if isSigned then -2 ^ (bits - 1) ≤ x && x < 2 ^ (bits - 1) else 0 ≤ x && x < 2 ^ bits

/-- The value of a number type that denotes the integer. -/
def numberOf (isSigned : Bool) (x : Int) : Value :=
  if isSigned then .int (BitVec.ofInt 256 x) else .uint (BitVec.ofInt 256 x)

def canonicalNumber? (isSigned : Bool) (bits : Nat) (v : Value) : Option Value :=
  v.integer?.bind fun x => if inRange isSigned bits x then some (numberOf isSigned x) else none

def canonicalAddress? : Value → Option Value
  | .address a => some (.address a)
  | .string text => (Address.read text).toOption.map .address
  | _ => none

/-- The fields that the components name, in the order of the components: every component has a
name, no two have the same, and the first field of a name is taken. -/
def fieldsInOrder? (names : List (Option String)) (fields : List (String × Value)) :
    Option (List Value) :=
  (names.mapM id).bind fun names =>
    if names.Nodup then names.mapM fun name => fields.lookup name else none

/-- The values of the components of a tuple, in order. -/
def tupleItems? (names : List (Option String)) : Value → Option (List Value)
  | .tuple entries => some (Record.values entries)
  | .array items => some items
  | .struct fields => fieldsInOrder? names fields
  | _ => none

mutual

/-- The canonical form of a value that fits the layout. -/
def canonical? : Layout → Value → Option Value
  | address _, v => canonicalAddress? v
  | bool _, v =>
    match v with
    | .bool b => some (.bool b)
    | _ => none
  | number _ width isSigned, v => canonicalNumber? isSigned width.bits v
  | fixedBytes _ width, v =>
    v.asBytes?.bind fun data => if data.length = width.size then some (.fixedBytes data) else none
  | bytes _, v => v.asBytes?.map .bytes
  | string _, v =>
    match v with
    | .string text => some (.string text)
    | _ => none
  | null _, v =>
    match v with
    | .null => some .null
    | _ => none
  | array _ element length, v =>
    match v with
    | .array items =>
      if length.admits items.length then (items.mapM element.canonical?).map .array else none
    | _ => none
  | tuple _ components, v =>
    (tupleItems? (components.map name) v).bind fun values =>
      (canonicalAll? components values).map fun forms =>
        .tuple ((components.map name).zip forms)

/-- The canonical forms of the values of a list of components, one for each. -/
def canonicalAll? : List Layout → List Value → Option (List Value)
  | [], [] => some []
  | c :: components, v :: values =>
    (c.canonical? v).bind fun form => (canonicalAll? components values).map (form :: ·)
  | _, _ => none

end

mutual

/-- The value has the form in which the layout gives values back. -/
def Conforms : Layout → Value → Prop
  | address _, v => ∃ a, v = .address a
  | bool _, v => ∃ b, v = .bool b
  | number _ _ isSigned, v => ∃ w, v = if isSigned then .int w else .uint w
  | fixedBytes _ width, v => ∃ data, v = .fixedBytes data ∧ data.length = width.size
  | bytes _, v => ∃ data, v = .bytes data
  | string _, v => ∃ text, v = .string text
  | null _, v => v = .null
  | array _ element length, v =>
    ∃ items, v = .array items ∧ length.admits items.length ∧ ∀ item ∈ items, element.Conforms item
  | tuple _ components, v =>
    ∃ entries, v = .tuple entries ∧ ConformAll components (Record.values entries)

/-- Each value conforms to its component, and there are as many of them. -/
def ConformAll : List Layout → List Value → Prop
  | [], values => values = []
  | c :: components, values =>
    ∃ v rest, values = v :: rest ∧ c.Conforms v ∧ ConformAll components rest

end

/-- The canonical record of the values of a list of parameters. -/
def canonicalRecord? (components : List Layout) (values : List Value) : Option Record :=
  (canonicalAll? components values).map fun forms => (components.map name).zip forms

/-- The values of components with their canonical forms. -/
inductive CanonicalForms : List Layout → List Value → List Value → Prop where
  | nil : CanonicalForms [] [] []
  | cons {c : Layout} {components : List Layout} {v form : Value} {values forms : List Value} :
    c.canonical? v = some form → CanonicalForms components values forms →
      CanonicalForms (c :: components) (v :: values) (form :: forms)

theorem canonicalAll?_eq_some_iff {components : List Layout} {values forms : List Value} :
    canonicalAll? components values = some forms ↔ CanonicalForms components values forms := by
  constructor
  · intro h
    induction components generalizing values forms with
    | nil =>
      cases values with
      | nil =>
        cases h
        exact .nil
      | cons v values => cases h
    | cons c components ih =>
      cases values with
      | nil => cases h
      | cons v values =>
        rw [canonicalAll?] at h
        obtain ⟨form, first, h⟩ := Option.bind_eq_some_iff.1 h
        obtain ⟨others, rest, rfl⟩ := Option.map_eq_some_iff.1 h
        exact .cons first (ih rest)
  · intro h
    induction h with
    | nil => rfl
    | cons first _ ih => rw [canonicalAll?, first, Option.bind_some, ih, Option.map_some]

theorem CanonicalForms.length_eq {components : List Layout} {values forms : List Value}
    (h : CanonicalForms components values forms) :
    values.length = components.length ∧ forms.length = components.length := by
  induction h with
  | nil => exact ⟨rfl, rfl⟩
  | cons _ _ ih => simp only [List.length_cons, ih, and_self]

theorem CanonicalForms.length_of_replicate {element : Layout} {items forms : List Value}
    (h : CanonicalForms (List.replicate items.length element) items forms) :
    forms.length = items.length := by
  rw [h.length_eq.2, List.length_replicate]

theorem CanonicalForms.values_zip {components : List Layout} {values forms : List Value}
    (h : CanonicalForms components values forms) :
    Record.values ((components.map Layout.name).zip forms) = forms := by
  apply List.map_snd_zip
  rw [List.length_map]
  exact Nat.le_of_eq h.length_eq.2

/-- The elements of an array are the components of a tuple that repeats one layout. -/
theorem canonicalAll?_replicate (element : Layout) (items : List Value) :
    canonicalAll? (List.replicate items.length element) items =
      items.mapM element.canonical? := by
  induction items with
  | nil => rfl
  | cons v items ih =>
    rw [List.length_cons, List.replicate_succ, canonicalAll?, ih, List.mapM_cons]
    cases element.canonical? v with
    | none => rfl
    | some form => cases items.mapM element.canonical? <;> rfl

theorem canonical?_array_eq_some_iff {name : Option String} {element : Layout}
    {length : ArrayLength} {v c : Value} :
    (array name element length).canonical? v = some c ↔
      ∃ items forms, v = .array items ∧ length.admits items.length = true ∧
        CanonicalForms (List.replicate items.length element) items forms ∧ c = .array forms := by
  constructor
  · intro h
    cases v with
    | array items =>
      rw [canonical?] at h
      split at h
      · next admitted =>
        obtain ⟨forms, mapped, rfl⟩ := Option.map_eq_some_iff.1 h
        rw [← canonicalAll?_replicate, canonicalAll?_eq_some_iff] at mapped
        exact ⟨items, forms, rfl, admitted, mapped, rfl⟩
      · cases h
    | _ => cases h
  · rintro ⟨items, forms, rfl, admitted, h, rfl⟩
    rw [← canonicalAll?_eq_some_iff, canonicalAll?_replicate] at h
    simp only [canonical?, admitted, if_true, h, Option.map_some]

theorem canonical?_tuple_eq_some_iff {name : Option String} {components : List Layout}
    {v c : Value} :
    (tuple name components).canonical? v = some c ↔
      ∃ values forms, tupleItems? (components.map Layout.name) v = some values ∧
        CanonicalForms components values forms ∧
        c = .tuple ((components.map Layout.name).zip forms) := by
  simp only [canonical?, Option.bind_eq_some_iff, Option.map_eq_some_iff, canonicalAll?_eq_some_iff]
  constructor
  · rintro ⟨values, items, forms, h, rfl⟩
    exact ⟨values, forms, items, h, rfl⟩
  · rintro ⟨values, forms, items, h, rfl⟩
    exact ⟨values, items, forms, h, rfl⟩

end Layout

end AbiCodec
