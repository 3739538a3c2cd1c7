import AbiCodec.Proofs.ArraySuffixes
import AbiCodec.Proofs.ElementaryNames
import AbiCodec.Proofs.PrintedType

/-!
# Parameter objects read back

A type that was read, from a text or from a parameter object, is described by an
object from which it is read again. Arrays over an elementary type go through
the text of the type, and arrays over a tuple through the suffixes behind the
word `tuple`. So no elementary name may start with that word: no name of a
layout does.
-/

namespace AbiCodec

open TypeGrammar ParameterObject

namespace AbiType

theorem label_arraysOf (t : AbiType) (plain : t.label = {}) (lengths : List ArrayLength) :
    (t.arraysOf lengths).label = {} := by
  induction lengths generalizing t with
  | nil => exact plain
  | cons length lengths ih => exact ih (.arrayOf t length) rfl

theorem arraysOf_append (t : AbiType) (lengths : List ArrayLength) (length : ArrayLength) :
    t.arraysOf (lengths ++ [length]) = .arrayOf (t.arraysOf lengths) length := by
  rw [arraysOf, List.foldl_append]
  rfl

theorem elementaryNames_arraysOf (t : AbiType) (lengths : List ArrayLength) :
    (t.arraysOf lengths).elementaryNames = t.elementaryNames := by
  induction lengths generalizing t with
  | nil => rfl
  | cons length lengths ih => exact ih (.arrayOf t length)

theorem typeTextOf_arraysOf (t : AbiType) (lengths : List ArrayLength) :
    typeTextOf (t.arraysOf lengths) = typeTextOf t ++ lengths.flatMap ArrayLength.suffix := by
  induction lengths generalizing t with
  | nil => simp [arraysOf]
  | cons length lengths ih =>
    have rest := ih (.arrayOf t length)
    rw [arrayOf, typeTextOf, List.append_assoc] at rest
    exact rest

theorem componentsOf_arraysOf (t : AbiType) (lengths : List ArrayLength) :
    componentsOf (t.arraysOf lengths) = componentsOf t := by
  induction lengths generalizing t with
  | nil => rfl
  | cons length lengths ih => exact ih (.arrayOf t length)

theorem typeTextOf_withLabel (label : Label) (t : AbiType) :
    typeTextOf (t.withLabel label) = typeTextOf t := by
  cases t <;> simp only [withLabel, typeTextOf]

theorem componentsOf_withLabel (label : Label) (t : AbiType) :
    componentsOf (t.withLabel label) = componentsOf t := by
  cases t <;> simp only [withLabel, componentsOf]

/-! ### Described types -/

/-- Types whose objects say all of them: a type without components is read from its type text, and
a tuple under array levels has described components. -/
inductive Described : AbiType → Prop where
  | plain {t : AbiType} {label : Label} : componentsOf t = none →
      AbiType.parse (String.ofList (typeTextOf t)) = .ok t → t.label = {} →
      label.name ≠ some "" → Described (t.withLabel label)
  | tuple {components : List AbiType} {lengths : List ArrayLength} {label : Label} :
      (∀ t ∈ components, Described t) → (∀ n, ArrayLength.fixed n ∈ lengths → n < countLimit) →
      label.name ≠ some "" →
      Described (((AbiType.tuple {} components).arraysOf lengths).withLabel label)

theorem withLabel_of_label {t : AbiType} (unlabelled : t.label = {}) : t.withLabel {} = t := by
  rw [← unlabelled, withLabel_label]

theorem withLabel_withLabel (first second : Label) (t : AbiType) :
    (t.withLabel first).withLabel second = t.withLabel second := by
  cases t <;> rfl

theorem Described.withLabel {t : AbiType} (described : t.Described) {label : Label}
    (named : label.name ≠ some "") : (t.withLabel label).Described := by
  cases described with
  | plain none read unlabelled _ =>
    rw [withLabel_withLabel]
    exact .plain none read unlabelled named
  | tuple each counted _ =>
    rw [withLabel_withLabel]
    exact .tuple each counted named

/-- Without components there is no tuple under the array levels, and the type text is the text. -/
theorem bareText_of_componentsOf {t : AbiType} (none : componentsOf t = none) (style : TypeStyle) :
    t.bareText style = typeTextOf t := by
  induction t with
  | array label element length ih => rw [bareText, typeTextOf, ih none]
  | tuple label components _ => cases none
  | _ => rfl

theorem text_full_of_componentsOf {t : AbiType} (none : componentsOf t = none)
    (unlabelled : t.label = {}) : t.text .full = typeTextOf t := by
  rw [text, bareText_of_componentsOf none, unlabelled]
  exact List.append_nil _

theorem Spelled.described {t : AbiType} (spelled : t.Spelled) (enough : t.levels ≤ maxDepth + 1) :
    t.Described := by
  -- A type without components is described by its own text, whatever its kind.
  have alone {u : AbiType} (spelled : u.Spelled) (enough : u.levels ≤ maxDepth + 1)
      (none : componentsOf u = none) : u.Described := by
    have bare : (u.withLabel {}).Spelled := spelled.withLabel Label.spelled_empty
    have unlabelled := label_withLabel {} u
    rw [← componentsOf_withLabel {}] at none
    have read := bare.parse_text (by rwa [levels_withLabel]) .full
    rw [text_full_of_componentsOf none unlabelled, relabel_full] at read
    have described := Described.plain none read unlabelled spelled.label.name_ne
    rwa [withLabel_withLabel, withLabel_label] at described
  induction t with
  | elementary label name => exact alone spelled enough rfl
  | array label element length ih =>
    have inner : element.levels ≤ maxDepth + 1 := Nat.le_trans (Nat.le_max_left _ _) enough
    cases ih spelled.2.1 inner with
    | plain none _ _ _ =>
      refine alone spelled enough ?_
      rwa [componentsOf, componentsOf_withLabel]
    | @tuple components lengths own each counted _ =>
      obtain rfl : own = {} := by
        rw [← label_withLabel own]
        exact spelled.2.2.1
      have array : AbiType.array label
          (((AbiType.tuple {} components).arraysOf lengths).withLabel {}) length =
          ((AbiType.tuple {} components).arraysOf (lengths ++ [length])).withLabel label := by
        rw [arraysOf_append, withLabel_of_label (label_arraysOf _ rfl lengths)]
        rfl
      rw [array]
      refine .tuple each (fun n member => ?_) spelled.label.name_ne
      rcases List.mem_append.1 member with inside | last
      · exact counted n inside
      · exact spelled.2.2.2 n (List.mem_singleton.1 last).symm
  | tuple label components ih =>
    have each : ∀ t ∈ components, t.Described := by
      intro t member
      have room := Nat.le_trans (levels_le_levelsOf member) (Nat.le_of_succ_le_succ enough)
      exact ih t member (AllSpelled.of_mem spelled.2 member) (Nat.le_succ_of_le room)
    have counted : ∀ n, ArrayLength.fixed n ∈ ([] : List ArrayLength) → n < countLimit := nofun
    exact .tuple each counted spelled.label.name_ne
  | empty label => cases spelled

theorem described_empty {label : Label} (named : label.name ≠ some "") :
    (AbiType.empty label).Described :=
  .plain (t := .empty {}) rfl rfl rfl named

theorem described_of_parse {text : String} {t : AbiType} (read : AbiType.parse text = .ok t) :
    t.Described := by
  rcases blank_or_isParameter_of_parse read with ⟨_, rfl⟩ | ⟨own, enough⟩
  · exact described_empty nofun
  · exact own.spelled.described enough

end AbiType

/-! ### Types of objects -/

namespace TypeGrammar

theorem IsPlusSuffix.count_lt {suffix : List Char} {n : Nat}
    (h : IsPlusSuffix suffix (.fixed n)) : n < countLimit := by
  cases h with
  | plain own => exact own.count_lt n rfl
  | plus own => exact own.count_lt n rfl

theorem Suffixes.count_lt {text : List Char} {lengths : List ArrayLength}
    (h : Suffixes IsPlusSuffix text lengths) :
    ∀ n, ArrayLength.fixed n ∈ lengths → n < countLimit := by
  induction h with
  | none => nofun
  | more first _ ih =>
    intro n member
    rcases List.mem_cons.1 member with rfl | member
    · exact first.count_lt
    · exact ih n member

end TypeGrammar

namespace ParameterObject

theorem labelOf_named (name : String) (indexed : Option Bool) :
    (labelOf name indexed).name ≠ some "" := by
  rw [labelOf, AbiType.nameOf]
  split
  · nofun
  · next some =>
    intro same
    exact some (Option.some.inj same)

theorem labelOf_getD {label : Label} (named : label.name ≠ some "") :
    labelOf (label.name.getD "") label.indexed = label := by
  obtain ⟨name, indexed⟩ := label
  cases name with
  | none => rfl
  | some name =>
    have other : name ≠ "" := fun same => named (congrArg some same)
    rw [labelOf, Option.getD_some, AbiType.nameOf, if_neg other]

theorem described_of_plainType {typeText : String} {components : Option (List ParameterObject)}
    {t : AbiType} (read : plainType typeText components = .ok t) : t.Described := by
  rw [plainType] at read
  split at read
  · cases read
  · obtain ⟨u, parsed, read⟩ := exists_of_bind_eq_ok read
    split at read
    · cases read
    · cases read
      exact AbiType.described_of_parse parsed

mutual

/-- What is read from an object is described. -/
theorem described_of_toType : ∀ {p : ParameterObject} {t : AbiType}, p.toType = .ok t →
    t.Described
  | ⟨name, typeText, none, indexed⟩, t, read => by
    rw [toType] at read
    split at read
    · cases read
    · obtain ⟨u, plain, read⟩ := exists_of_bind_eq_ok read
      cases read
      exact (described_of_plainType plain).withLabel (labelOf_named name indexed)
  | ⟨name, typeText, some components, indexed⟩, t, read => by
    rw [toType] at read
    split at read
    · obtain ⟨types, inner, read⟩ := exists_of_bind_eq_ok read
      obtain ⟨u, array, read⟩ := exists_of_bind_eq_ok read
      cases read
      obtain ⟨lengths, own, rfl⟩ := tupleType_eq_ok_iff.1 array
      exact .tuple (described_of_toTypes inner) own.count_lt (labelOf_named name indexed)
    · obtain ⟨u, plain, read⟩ := exists_of_bind_eq_ok read
      cases read
      exact (described_of_plainType plain).withLabel (labelOf_named name indexed)

theorem described_of_toTypes : ∀ {objects : List ParameterObject} {types : List AbiType},
    toTypes objects = .ok types → ∀ t ∈ types, t.Described
  | [], _, read => by
    cases read
    nofun
  | p :: rest, types, read => by
    rw [toTypes] at read
    obtain ⟨first, own, read⟩ := exists_of_bind_eq_ok read
    obtain ⟨others, further, read⟩ := exists_of_bind_eq_ok read
    cases read
    exact List.forall_mem_cons.2 ⟨described_of_toType own, described_of_toTypes further⟩

end

/-! ### Objects of types -/

/-- No layout has a name that starts like the word `tuple`. -/
theorem head?_of_namedBy {name chars : List Char} (h : Layout.NamedBy name chars) :
    name.head? ≠ some 't' := by
  cases h with
  | @word name member =>
    exact (by decide : ∀ name ∈ ["address", "bool", "string", "bytes", ""],
      name.toList.head? ≠ some 't') name member
  | @sized lead digits member _ _ _ =>
    have starts := (by decide : ∀ lead ∈ ["uint", "int", "bytes"],
      lead.toList.head? ≠ some 't' ∧ lead.toList ≠ []) lead member
    rw [List.head?_append_of_ne_nil _ starts.2]
    exact starts.1
  | @widest lead member =>
    exact (by decide : ∀ lead ∈ ["uint", "int"], lead.toList.head? ≠ some 't') lead member

/-- Each of the names has a layout. -/
def Known (names : List String) : Prop :=
  ∀ name ∈ names, ∃ l, Layout.ofElementary name none = .ok l

theorem head?_typeTextOf {t : AbiType} (plain : componentsOf t = none)
    (known : Known t.elementaryNames) : (typeTextOf t).head? ≠ some 't' := by
  induction t with
  | elementary label name =>
    obtain ⟨l, laid⟩ := known name List.mem_cons_self
    exact head?_of_namedBy (Layout.namedBy_of_ofElementary laid)
  | array label element length ih =>
    rw [typeTextOf, List.head?_append]
    intro head
    rcases Option.or_eq_some_iff.1 head with inner | ⟨_, behind⟩
    · exact ih plain known inner
    · cases length <;> cases behind
  | tuple label components _ => cases plain
  | empty label => nofun

theorem dropLead?_tuple_eq_none {text : List Char} (other : text.head? ≠ some 't') :
    dropLead? "tuple".toList text = none := by
  cases dropped : dropLead? "tuple".toList text with
  | none => rfl
  | some rest =>
    rw [eq_append_of_dropLead? dropped] at other
    exact absurd rfl other

theorem plainType_of_parse {typeText : String} {t : AbiType}
    (read : AbiType.parse typeText = .ok t) (unlabelled : t.label = {}) :
    plainType typeText none = .ok t := by
  have name : t.name = none := congrArg Label.name unlabelled
  have indexed : t.indexed = none := congrArg Label.indexed unlabelled
  rw [plainType, read]
  change (if t.name.isSome || t.indexed.isSome then _ else _) = _
  rw [name, indexed]
  rfl

theorem toTypes_ofTypes {types : List AbiType} (each : ∀ t ∈ types, (ofType t).toType = .ok t) :
    toTypes (ofTypes types) = .ok types := by
  induction types with
  | nil => rfl
  | cons t types ih =>
    rcases List.forall_mem_cons.1 each with ⟨own, others⟩
    rw [ofType] at own
    rw [ofTypes, toTypes, own, ih others]
    rfl

theorem suffixes_of_lengths {lengths : List ArrayLength}
    (counted : ∀ n, ArrayLength.fixed n ∈ lengths → n < countLimit) :
    Suffixes IsPlusSuffix (lengths.flatMap ArrayLength.suffix) lengths := by
  induction lengths with
  | nil => exact .none
  | cons length lengths ih =>
    have own : IsSuffix length.suffix length := ArrayLength.isSuffix fun n same =>
      counted n (same ▸ List.mem_cons_self)
    exact .more (.plain own) (ih fun n member => counted n (List.mem_cons_of_mem _ member))

theorem ofType_withLabel (label : Label) (t : AbiType) :
    ofType (t.withLabel label) =
      ⟨label.name.getD "", String.ofList (typeTextOf t), componentsOf t, label.indexed⟩ := by
  rw [ofType, AbiType.name, AbiType.indexed, AbiType.label_withLabel,
    AbiType.typeTextOf_withLabel, AbiType.componentsOf_withLabel]

/-- A described type with names that have layouts is read from its object. -/
theorem toType_of_described {t : AbiType} (described : t.Described)
    (known : Known t.elementaryNames) : (ofType t).toType = .ok t := by
  induction described with
  | @plain t label plain read unlabelled named =>
    rw [AbiType.elementaryNames_withLabel] at known
    have text : (String.ofList (typeTextOf t)).toList = typeTextOf t := String.toList_ofList
    have lead := dropLead?_tuple_eq_none (head?_typeTextOf plain known)
    rw [← text] at lead
    rw [ofType_withLabel, plain, toType, lead]
    change plainType _ none >>= _ = _
    rw [plainType_of_parse read unlabelled, labelOf_getD named]
    rfl
  | @tuple components lengths label each counted named ih =>
    rw [AbiType.elementaryNames_withLabel, AbiType.elementaryNames_arraysOf] at known
    have inner : ∀ t ∈ components, (ofType t).toType = .ok t := fun t member =>
      ih t member fun name named => known name (AbiType.mem_elementaryNamesOf.2 ⟨t, member, named⟩)
    have text : String.ofList (typeTextOf ((AbiType.tuple {} components).arraysOf lengths)) =
        "tuple" ++ String.ofList (lengths.flatMap ArrayLength.suffix) := by
      rw [AbiType.typeTextOf_arraysOf, String.ofList_append]
      rfl
    have suffixes : Suffixes IsPlusSuffix
        (String.ofList (lengths.flatMap ArrayLength.suffix)).toList lengths := by
      rw [String.toList_ofList]
      exact suffixes_of_lengths counted
    rw [ofType_withLabel, text, AbiType.componentsOf_arraysOf, componentsOf]
    refine toType_tuple_eq_ok_iff.2 ⟨components, lengths, toTypes_ofTypes inner, suffixes, ?_⟩
    rw [labelOf_getD named]

/-- A type that was read, from a text or from an object, and whose names have layouts is read again
from its object. -/
theorem toType_ofType {t : AbiType}
    (given : (∃ text, AbiType.parse text = .ok t) ∨ ∃ p : ParameterObject, p.toType = .ok t)
    (known : ∀ name ∈ t.elementaryNames, ∃ l, Layout.ofElementary name none = .ok l) :
    (ofType t).toType = .ok t := by
  refine toType_of_described ?_ known
  rcases given with ⟨text, read⟩ | ⟨p, read⟩
  · exact AbiType.described_of_parse read
  · exact described_of_toType read

/-- Two array levels over a tuple, and two over a component of it. -/
theorem toType_ofType_orders :
    let maker : AbiType := .elementary { name := "maker", indexed := some true } "address"
    let ids : AbiType := .array { name := "ids" } (.arrayOf (.named "uint8") .dynamic) (.fixed 3)
    let t : AbiType := .array { name := "orders" }
      (.arrayOf (.tuple {} [maker, ids]) (.fixed 2)) .dynamic
    AbiType.parse "tuple(address indexed maker, uint8[][3] ids)[2][] orders" = .ok t ∧
      ofType t = ⟨"orders", "tuple[2][]", some [⟨"maker", "address", none, some true⟩,
        ⟨"ids", "uint8[][3]", none, none⟩], none⟩ ∧
      (ofType t).toType = .ok t := by
  intro maker ids t
  have address : (AbiType.named "address").Spelled :=
    AbiType.spelled_named (.of_all rfl (by decide)) (by decide) (by decide)
  have uint8 : (AbiType.named "uint8").Spelled :=
    AbiType.spelled_named (.of_all rfl (by decide)) (by decide) (by decide)
  have flagged : ({ name := "maker", indexed := some true } : Label).Spelled := by
    refine ⟨nofun, fun name same => ?_⟩
    cases same
    exact ⟨.of_all rfl (by decide), by decide, fun _ => rfl⟩
  have spelledIds : ids.Spelled := by
    refine ⟨Label.spelled_name (.of_all rfl (by decide)) (by decide) (by decide),
      ⟨Label.spelled_empty, uint8, rfl, nofun⟩, rfl, fun n same => ?_⟩
    cases same
    decide
  have spelled : t.Spelled := by
    refine ⟨Label.spelled_name (.of_all rfl (by decide)) (by decide) (by decide),
      ⟨Label.spelled_empty, ⟨Label.spelled_empty, address.withLabel flagged, spelledIds, trivial⟩,
        rfl, fun n same => ?_⟩, rfl, nofun⟩
    cases same
    decide
  have text : trim "tuple(address indexed maker, uint8[][3] ids)[2][] orders".toList =
      t.text .full := rfl
  have read := AbiType.parse_of_text spelled (by decide) text
  rw [AbiType.relabel_full] at read
  have known : ∀ name ∈ t.elementaryNames, ∃ l, Layout.ofElementary name none = .ok l :=
    List.forall_mem_cons.2 ⟨⟨_, rfl⟩, List.forall_mem_singleton.2 ⟨_, rfl⟩⟩
  exact ⟨read, rfl, toType_ofType (Or.inl ⟨_, read⟩) known⟩

end ParameterObject

end AbiCodec
