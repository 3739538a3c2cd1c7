import AbiCodec.AbiType.Text
import AbiCodec.Proofs.ParsedText

/-!
# Reading the text of a type back

Types that come out of the reader of types are `Spelled`: their names and labels
are words that the reader takes for such, no element of an array has a label of
its own, and the empty slot stands nowhere in them. The text of a spelled type
is in the grammar, so the reader takes it back to the type, with the labels that
the style of the text keeps.
-/

namespace AbiCodec

open TypeText TypeGrammar

/-- A label that the reader of labels gives: a name that reads `indexed` follows the flag. -/
structure Label.Spelled (label : Label) : Prop where
  flag : label.indexed ≠ some false
  name : ∀ name, label.name = some name → Spelling name.toList ∧
    startsWithDigit name.toList = false ∧
    (name.toList = "indexed".toList → label.indexed = some true)

theorem Label.spelled_empty : ({} : Label).Spelled := ⟨nofun, nofun⟩

theorem Label.spelled_name {name : String} (own : Spelling name.toList)
    (notDigit : startsWithDigit name.toList = false) (notFlag : name.toList ≠ "indexed".toList) :
    ({ name := name } : Label).Spelled := by
  refine ⟨nofun, fun word same => ?_⟩
  cases same
  exact ⟨own, notDigit, fun flag => absurd flag notFlag⟩

theorem Label.Spelled.name_ne {label : Label} (spelled : label.Spelled) : label.name ≠ some "" := by
  intro named
  exact (spelled.name "" named).1.nonempty rfl

/-- The labels that a style writes. -/
def TypeStyle.kept : TypeStyle → Label → Label
  | .canonical, _ => {}
  | .full, label => label

theorem TypeGrammar.IsLabel.spelled {words : List Char} {label : Label} (h : IsLabel words label) :
    label.Spelled := by
  cases h with
  | none => exact Label.spelled_empty
  | name _ own notDigit notFlag =>
    refine Label.spelled_name ?_ ?_ ?_ <;> rwa [String.toList_ofList]
  | flag _ => exact ⟨nofun, nofun⟩
  | flaggedName _ _ _ own notDigit =>
    refine ⟨nofun, fun name same => ?_⟩
    cases same
    rw [String.toList_ofList]
    exact ⟨own, notDigit, fun _ => rfl⟩

/-- The text of a label stands for what the style keeps of it. -/
theorem Label.Spelled.isLabel {label : Label} (spelled : label.Spelled) (style : TypeStyle) :
    IsLabel (style.labelText label) (style.kept label) := by
  have space : Blank [' '] := List.forall_mem_singleton.2 rfl
  cases style with
  | canonical => exact .none
  | full =>
    obtain ⟨name, indexed⟩ := label
    cases indexed with
    | none =>
      cases name with
      | none => exact .none
      | some text =>
        obtain ⟨own, notDigit, flag⟩ := spelled.name text rfl
        have named := IsLabel.name space own notDigit fun same => nomatch flag same
        rw [String.ofList_toList] at named
        exact named
    | some flag =>
      cases flag with
      | false => exact absurd rfl spelled.flag
      | true =>
        cases name with
        | none => exact .flag space
        | some text =>
          obtain ⟨own, notDigit, _⟩ := spelled.name text rfl
          have named := IsLabel.flaggedName space space (List.cons_ne_nil _ _) own notDigit
          rw [String.ofList_toList] at named
          exact named

theorem Label.text_starts (label : Label) : label.text = [] ∨ ∃ rest, label.text = ' ' :: rest := by
  obtain ⟨name, indexed⟩ := label
  rw [Label.text]
  split
  · exact Or.inr ⟨_, rfl⟩
  · cases name with
    | none => exact Or.inl rfl
    | some word => exact Or.inr ⟨_, rfl⟩

theorem TypeStyle.labelText_apart (style : TypeStyle) (label : Label) (text : List Char) :
    Apart text (style.labelText label) := by
  intro c d _ head _
  cases style with
  | canonical => cases head
  | full =>
    rcases label.text_starts with none | ⟨rest, starts⟩
    · rw [TypeStyle.labelText, none] at head
      cases head
    · rw [TypeStyle.labelText, starts] at head
      cases head
      rfl

mutual

/-- The type under other labels, at every depth. -/
def AbiType.relabel (f : Label → Label) : AbiType → AbiType
  | .elementary label name => .elementary (f label) name
  | .array label element length => .array (f label) (element.relabel f) length
  | .tuple label components => .tuple (f label) (AbiType.relabelAll f components)
  | .empty label => .empty (f label)

def AbiType.relabelAll (f : Label → Label) : List AbiType → List AbiType
  | [] => []
  | t :: rest => t.relabel f :: AbiType.relabelAll f rest

end

namespace AbiType

/-- The type without any labels. -/
def unlabelled (t : AbiType) : AbiType := t.relabel fun _ => {}

mutual

def Spelled : AbiType → Prop
  | .elementary label name => label.Spelled ∧ Spelling name.toList ∧
    startsWithLetter name.toList = true ∧ name.toList ≠ "tuple".toList ∧ fullName name = name
  | .array label element length => label.Spelled ∧ element.Spelled ∧ element.label = {} ∧
    ∀ n, length = .fixed n → n < countLimit
  | .tuple label components => label.Spelled ∧ AllSpelled components
  | .empty _ => False

def AllSpelled : List AbiType → Prop
  | [] => True
  | t :: rest => t.Spelled ∧ AllSpelled rest

end

theorem label_relabel (f : Label → Label) (t : AbiType) : (t.relabel f).label = f t.label := by
  cases t <;> rfl

theorem suffixCount_relabel (f : Label → Label) (t : AbiType) :
    (t.relabel f).suffixCount = t.suffixCount := by
  induction t with
  | array label element length ih => rw [relabel, suffixCount, suffixCount, ih]
  | _ => simp only [relabel, suffixCount]

theorem levelsOf_relabelAll {f : Label → Label} {types : List AbiType}
    (each : ∀ t ∈ types, (t.relabel f).levels = t.levels) :
    levelsOf (relabelAll f types) = levelsOf types := by
  induction types with
  | nil => rfl
  | cons t types ih =>
    rcases List.forall_mem_cons.1 each with ⟨own, others⟩
    rw [relabelAll, levelsOf, levelsOf, own, ih others]

/-- Labels take no levels. -/
theorem levels_relabel (f : Label → Label) (t : AbiType) : (t.relabel f).levels = t.levels := by
  induction t with
  | array label element length ih => rw [relabel, levels, levels, ih, suffixCount_relabel]
  | tuple label components ih => rw [relabel, levels, levels, levelsOf_relabelAll ih]
  | _ => rfl

theorem Spelled.label {t : AbiType} (spelled : t.Spelled) : t.label.Spelled := by
  cases t with
  | empty label => cases spelled
  | _ => exact spelled.1

theorem Spelled.withLabel {t : AbiType} (spelled : t.Spelled) {label : Label}
    (own : label.Spelled) : (t.withLabel label).Spelled := by
  cases t with
  | empty label => cases spelled
  | _ => exact ⟨own, spelled.2⟩

theorem AllSpelled.of_mem {types : List AbiType} (spelled : AllSpelled types) {t : AbiType}
    (member : t ∈ types) : t.Spelled := by
  induction types with
  | nil => cases member
  | cons first types ih =>
    rcases List.mem_cons.1 member with rfl | member
    · exact spelled.1
    · exact ih spelled.2 member

end AbiType

/-! ### Texts of the grammar stand for spelled types -/

theorem AbiType.spelled_named {name : String} (own : Spelling name.toList)
    (letter : startsWithLetter name.toList = true) (notTuple : name.toList ≠ "tuple".toList) :
    (AbiType.named name).Spelled := by
  refine ⟨Label.spelled_empty, ?_⟩
  rw [AbiType.fullName]
  split
  · exact ⟨.of_all rfl (by decide), by decide, by decide, by decide⟩
  · next notUint =>
    split
    · exact ⟨.of_all rfl (by decide), by decide, by decide, by decide⟩
    · next notInt =>
      have full : AbiType.fullName name = name := by
        rw [AbiType.fullName, if_neg notUint, if_neg notInt]
      exact ⟨own, letter, notTuple, full⟩

theorem TypeGrammar.IsSuffix.count_lt {suffix : List Char} {length : ArrayLength}
    (h : IsSuffix suffix length) : ∀ n, length = .fixed n → n < countLimit := by
  rintro n rfl
  cases h with
  | fixed _ _ below => exact below

mutual

theorem TypeGrammar.IsType.spelled : ∀ {text : List Char} {t : AbiType}, IsType text t →
    t.Spelled ∧ t.label = {}
  | _, _, .name own letter notTuple => by
    refine ⟨AbiType.spelled_named ?_ ?_ ?_, rfl⟩ <;> rwa [String.toList_ofList]
  | _, _, .tuple _ list => ⟨⟨Label.spelled_empty, list.spelled⟩, rfl⟩
  | _, _, .array inner suffix =>
    ⟨⟨Label.spelled_empty, inner.spelled.1, inner.spelled.2, suffix.count_lt⟩, rfl⟩

theorem TypeGrammar.IsParameter.spelled : ∀ {text : List Char} {t : AbiType},
    IsParameter text t → t.Spelled
  | _, _, .intro _ type label _ _ => type.spelled.1.withLabel label.spelled

theorem TypeGrammar.IsList.spelled : ∀ {text : List Char} {types : List AbiType},
    IsList text types → AbiType.AllSpelled types
  | _, _, .empty _ => trivial
  | _, _, .parameters list => list.spelled

theorem TypeGrammar.IsParameters.spelled : ∀ {text : List Char} {types : List AbiType},
    IsParameters text types → AbiType.AllSpelled types
  | _, _, .one only => ⟨only.spelled, trivial⟩
  | _, _, .more first further => ⟨first.spelled, further.spelled⟩

end

/-- What is read off a text is spelled, unless it is the empty slot of the empty text. -/
theorem AbiType.spelled_of_parse {text : String} {t : AbiType} (read : AbiType.parse text = .ok t) :
    t = .empty {} ∨ t.Spelled := by
  rcases AbiType.blank_or_isParameter_of_parse read with ⟨_, empty⟩ | ⟨own, _⟩
  · exact Or.inl empty
  · exact Or.inr own.spelled

/-! ### The texts of spelled types are in the grammar -/

theorem ArrayLength.isSuffix {length : ArrayLength}
    (counted : ∀ n, length = .fixed n → n < countLimit) : IsSuffix length.suffix length := by
  cases length with
  | dynamic => exact .dynamic
  | fixed n =>
    have some : Decimal.ofNat n ≠ [] := Nat.toDigits_ne_nil
    refine isSuffix_of_digits (fun _ => Decimal.isDigit_of_mem_ofNat) ?_
    rw [if_neg some, Decimal.readCount?_ofNat (counted n rfl)]
    rfl

theorem TypeStyle.isTupleLead (style : TypeStyle) : IsTupleLead style.tupleWord := by
  cases style with
  | canonical => exact .nothing
  | full =>
    have nothing : Blank [] := nofun
    exact .word nothing

theorem TypeText.isParameter_text {style : TypeStyle} {t : AbiType} (spelled : t.Spelled)
    (type : IsType (t.bareText style) ((t.relabel style.kept).withLabel {})) :
    IsParameter (t.text style) (t.relabel style.kept) := by
  have nothing : Blank [] := nofun
  have labelled : ((t.relabel style.kept).withLabel {}).withLabel (style.kept t.label) =
      t.relabel style.kept := by
    rw [← t.label_relabel style.kept]
    cases t <;> rfl
  have own := IsParameter.intro nothing type (spelled.label.isLabel style)
    (style.labelText_apart t.label _) nothing
  rw [List.nil_append, List.append_nil, labelled] at own
  exact own

theorem TypeText.isParameters_componentsText {style : TypeStyle} {types : List AbiType}
    (some : types ≠ [])
    (each : ∀ t ∈ types, IsParameter (t.text style) (t.relabel style.kept)) :
    IsParameters (AbiType.componentsText style types) (AbiType.relabelAll style.kept types) := by
  induction types with
  | nil => exact absurd rfl some
  | cons t types ih =>
    rcases List.forall_mem_cons.1 each with ⟨own, others⟩
    cases types with
    | nil => exact .one own
    | cons next types =>
      have gap : Blank style.separator.tail := List.all_eq_true.1 (by cases style <;> rfl)
      have text : AbiType.componentsText style (t :: next :: types) =
          t.text style ++ ',' :: (style.separator.tail ++
            AbiType.componentsText style (next :: types)) := by
        cases style <;> simp [AbiType.componentsText, AbiType.text, TypeStyle.separator]
      rw [text]
      exact .more own (isParameters_blank_append (ih (List.cons_ne_nil _ _) others) gap)

theorem TypeText.isList_componentsText {style : TypeStyle} {types : List AbiType}
    (each : ∀ t ∈ types, IsParameter (t.text style) (t.relabel style.kept)) :
    IsList (AbiType.componentsText style types) (AbiType.relabelAll style.kept types) := by
  cases types with
  | nil => exact .empty nofun
  | cons t types => exact .parameters (isParameters_componentsText (List.cons_ne_nil _ _) each)

/-- The text of a spelled type stands for the type, with the labels that the style keeps. -/
theorem AbiType.Spelled.isType {t : AbiType} (spelled : t.Spelled) (style : TypeStyle) :
    IsType (t.bareText style) ((t.relabel style.kept).withLabel {}) := by
  induction t with
  | elementary label name =>
    obtain ⟨_, own, letter, notTuple, full⟩ := spelled
    have type := IsType.name own letter notTuple
    rw [String.ofList_toList, AbiType.named, full] at type
    exact type
  | array label element length ih =>
    obtain ⟨_, inner, plain, counted⟩ := spelled
    have unlabelled : (element.relabel style.kept).withLabel {} = element.relabel style.kept := by
      have own : (element.relabel style.kept).label = {} := by
        rw [AbiType.label_relabel, plain]
        cases style <;> rfl
      rw [← own, AbiType.withLabel_label]
    have type := ih inner
    rw [unlabelled] at type
    exact .array type (ArrayLength.isSuffix counted)
  | tuple label components ih =>
    have each : ∀ t ∈ components, IsParameter (t.text style) (t.relabel style.kept) := by
      intro t member
      have own := AllSpelled.of_mem spelled.2 member
      exact isParameter_text own (ih t member own)
    have type := IsType.tuple style.isTupleLead (isList_componentsText each)
    rw [← List.cons_append, ← List.append_assoc] at type
    exact type
  | empty label => cases spelled

theorem AbiType.Spelled.isParameter {t : AbiType} (spelled : t.Spelled) (style : TypeStyle) :
    IsParameter (t.text style) (t.relabel style.kept) :=
  isParameter_text spelled (spelled.isType style)

theorem AbiType.Spelled.text_ne_nil {t : AbiType} (spelled : t.Spelled) (style : TypeStyle) :
    t.text style ≠ [] :=
  (spelled.isParameter style).ne_nil

/-- The text of a spelled type, with nothing before or after it. -/
theorem TypeText.parameter_whole (style : TypeStyle) {t : AbiType} (spelled : t.Spelled)
    {levels : Nat} (enough : t.levels ≤ levels) :
    parameter levels (t.text style) = .ok (t.relabel style.kept, []) := by
  rw [← AbiType.levels_relabel style.kept] at enough
  have read := parameter_of_isParameter (spelled.isParameter style) enough .nil
  rwa [List.append_nil] at read

/-- The text of a spelled type reads back to the type, with the labels that the style keeps. -/
theorem AbiType.parse_of_text {style : TypeStyle} {t : AbiType} (spelled : t.Spelled)
    (enough : t.levels ≤ maxDepth + 1) {text : String} (given : trim text.toList = t.text style) :
    AbiType.parse text = .ok (t.relabel style.kept) := by
  have own := spelled.isParameter style
  rw [← given] at own
  rw [← AbiType.levels_relabel style.kept] at enough
  exact AbiType.parse_of_isParameter own enough

end AbiCodec
