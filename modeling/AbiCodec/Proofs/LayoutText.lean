import AbiCodec.Contract.Event
import AbiCodec.Contract.Function
import AbiCodec.Proofs.ElementaryNames
import AbiCodec.Proofs.Renaming

/-!
# The text of a layout

A layout has a type text of its own, put together from its kinds and widths, and
a type has the canonical text that signatures are made of. The text of a layout
is never longer than that of its type, and the two are the same exactly when no
width in the type has a zero in front: such a zero stays in the canonical text
and is not in the layout. Types of the same layout without such zeros have the
same canonical text, so they give the same selectors and topics.
-/

namespace AbiCodec

/-! ### Digits of a number -/

namespace Decimal

theorem exists_digitChar {c : Char} (digit : c.isDigit = true) : ∃ d < 10, c = d.digitChar := by
  simp only [Char.isDigit, Bool.and_eq_true, decide_eq_true_eq, ge_iff_le, UInt32.le_iff_toNat_le]
    at digit
  have low : 48 ≤ c.toNat := digit.1
  have high : c.toNat ≤ 57 := digit.2
  have small : c.toNat - 48 < 10 := by omega
  refine ⟨c.toNat - 48, small, Char.toNat_inj.1 ?_⟩
  rw [Nat.toNat_digitChar_of_lt_ten small]
  omega

/-- Behind the digits of a positive number every digit stays as it is written. -/
theorem ofNat_ofDigitChars_of_pos {digits : List Char} (all : ∀ c ∈ digits, c.isDigit = true)
    {n : Nat} (pos : 0 < n) : ofNat (Nat.ofDigitChars 10 digits n) = ofNat n ++ digits := by
  induction digits generalizing n with
  | nil => rw [Nat.ofDigitChars_nil, List.append_nil]
  | cons c digits ih =>
    rcases List.forall_mem_cons.1 all with ⟨own, others⟩
    obtain ⟨d, small, rfl⟩ := exists_digitChar own
    have step : ofNat (10 * n + d) = ofNat n ++ [d.digitChar] := by
      rw [ofNat, ← Nat.toDigits_append_toDigits (by decide) pos small,
        Nat.toDigits_of_lt_base small]
      rfl
    rw [Nat.ofDigitChars_cons_digitChar_of_lt_ten small, ih others (by omega), step,
      List.append_assoc, List.singleton_append]

/-- A positive number is written without the zeros at the front of its digits. -/
theorem ofNat_ofDigitChars {digits : List Char} (all : ∀ c ∈ digits, c.isDigit = true)
    (pos : Nat.ofDigitChars 10 digits 0 ≠ 0) :
    ofNat (Nat.ofDigitChars 10 digits 0) = digits.dropWhile (· == '0') := by
  induction digits with
  | nil => exact absurd Nat.ofDigitChars_nil pos
  | cons c digits ih =>
    rcases List.forall_mem_cons.1 all with ⟨own, others⟩
    obtain ⟨d, small, rfl⟩ := exists_digitChar own
    rw [Nat.ofDigitChars_cons_digitChar_of_lt_ten small, Nat.mul_zero, Nat.zero_add] at pos ⊢
    rcases Nat.eq_zero_or_pos d with rfl | some
    · rw [ih others pos]
      rfl
    · have other : (d.digitChar == '0') = false := by
        rw [beq_eq_false_iff_ne, ne_eq, Nat.digitChar_eq_zero]
        exact Nat.ne_of_gt some
      rw [ofNat_ofDigitChars_of_pos others some, List.dropWhile_cons, other,
        if_neg Bool.false_ne_true, ofNat, Nat.toDigits_of_lt_base small]
      rfl

end Decimal

/-! ### Texts that leave something out -/

/-- The characters are not more than the text, and are the text exactly when it is plain. -/
structure Condenses (chars text : List Char) (plain : Prop) : Prop where
  length_le : chars.length ≤ text.length
  eq_iff : chars = text ↔ plain

namespace Condenses

theorem refl (text : List Char) : Condenses text text True :=
  ⟨Nat.le_refl _, iff_of_true rfl trivial⟩

theorem congr {chars text : List Char} {plain other : Prop} (h : Condenses chars text plain)
    (same : plain ↔ other) : Condenses chars text other :=
  ⟨h.length_le, h.eq_iff.trans same⟩

/-- What is left out of one part cannot be made up for in the other. -/
theorem append {chars text more rest : List Char} {plain other : Prop}
    (h : Condenses chars text plain) (h' : Condenses more rest other) :
    Condenses (chars ++ more) (text ++ rest) (plain ∧ other) := by
  have first := h.length_le
  have second := h'.length_le
  refine ⟨by simpa only [List.length_append] using Nat.add_le_add first second, ?_⟩
  rw [← h.eq_iff, ← h'.eq_iff]
  constructor
  · intro same
    have total := congrArg List.length same
    rw [List.length_append, List.length_append] at total
    exact List.append_inj same (by omega)
  · rintro ⟨rfl, rfl⟩
    rfl

theorem prepend {more rest : List Char} {other : Prop} (h : Condenses more rest other)
    (text : List Char) : Condenses (text ++ more) (text ++ rest) other :=
  ((refl text).append h).congr (Iff.of_eq (true_and _))

theorem behind {chars text : List Char} {plain : Prop} (h : Condenses chars text plain)
    (rest : List Char) : Condenses (chars ++ rest) (text ++ rest) plain :=
  (h.append (refl rest)).congr (Iff.of_eq (and_true _))

end Condenses

/-! ### Widths in names -/

/-- No zero stands before the width in the name. -/
def HasPlainWidth (name : List Char) : Prop :=
  ∀ lead ∈ ["uint", "int", "bytes"], ¬ (lead.toList ++ ['0']) <+: name

namespace AbiType

/-- No zero stands before a width in the type. -/
def HasPlainWidths (t : AbiType) : Prop := ∀ name ∈ t.elementaryNames, HasPlainWidth name.toList

theorem hasPlainWidths_tuple_iff (label : Label) (components : List AbiType) :
    (AbiType.tuple label components).HasPlainWidths ↔ ∀ t ∈ components, t.HasPlainWidths := by
  simp only [HasPlainWidths, elementaryNames, mem_elementaryNamesOf]
  constructor
  · intro each t member name named
    exact each name ⟨t, member, named⟩
  · rintro each name ⟨t, member, named⟩
    exact each t member name named

end AbiType

instance : DecidablePred HasPlainWidth := fun name =>
  inferInstanceAs (Decidable (∀ lead ∈ ["uint", "int", "bytes"], ¬ (lead.toList ++ ['0']) <+: name))

instance : DecidablePred AbiType.HasPlainWidths := fun t =>
  inferInstanceAs (Decidable (∀ name ∈ t.elementaryNames, HasPlainWidth name.toList))

theorem dropWhile_zero_eq_self_iff (digits : List Char) :
    digits.dropWhile (· == '0') = digits ↔ ¬ ['0'] <+: digits := by
  rw [List.dropWhile_eq_self_iff]
  cases digits <;> simp [eq_comm (a := '0')]

/-- Only the digits behind the lead have a say. -/
theorem hasPlainWidth_append_iff {lead : String} (member : lead ∈ ["uint", "int", "bytes"])
    (digits : List Char) :
    HasPlainWidth (lead.toList ++ digits) ↔ digits.dropWhile (· == '0') = digits := by
  rw [dropWhile_zero_eq_self_iff]
  simp only [List.mem_cons, List.not_mem_nil, or_false] at member
  rcases member with rfl | rfl | rfl <;> simp [HasPlainWidth]

namespace Layout

theorem condenses_of_namedBy {name chars : List Char} (named : NamedBy name chars)
    (full : AbiType.fullName (String.ofList name) = String.ofList name) :
    Condenses chars name (HasPlainWidth name) := by
  cases named with
  | @word name member =>
    have plain : ∀ word ∈ ["address", "bool", "string", "bytes", ""],
      HasPlainWidth (String.toList word) := by decide
    exact (Condenses.refl name.toList).congr (iff_of_true trivial (plain name member))
  | @sized lead digits member some all pos =>
    have shorter := (List.dropWhile_suffix (l := digits) (· == '0')).length_le
    rw [Decimal.ofNat_ofDigitChars all pos]
    have width : Condenses (digits.dropWhile (· == '0')) digits
      (digits.dropWhile (· == '0') = digits) := ⟨shorter, Iff.rfl⟩
    exact (width.prepend lead.toList).congr (hasPlainWidth_append_iff member digits).symm
  | @widest lead member =>
    rw [String.ofList_toList] at full
    have short : ∀ lead ∈ ["uint", "int"], AbiType.fullName lead ≠ lead := by decide
    exact absurd full (short lead member)

variable {limit : Nat}

theorem condenses_componentChars {types : List AbiType} {layouts : List Layout}
    (built : Built limit types layouts)
    (each : ∀ t ∈ types, ∀ l, build limit t = .ok l →
      Condenses l.typeChars (t.bareText .canonical) t.HasPlainWidths) :
    Condenses (componentChars layouts) (AbiType.componentsText .canonical types)
      (∀ t ∈ types, t.HasPlainWidths) := by
  induction built with
  | nil => exact (Condenses.refl []).congr (iff_of_true trivial nofun)
  | @cons t l types layouts first others ih =>
    rcases List.forall_mem_cons.1 each with ⟨own, rest⟩
    have head := own l first
    have tail := ih rest
    rw [List.forall_mem_cons]
    cases others with
    | nil =>
      rw [componentChars, AbiType.componentsText, TypeStyle.labelText, List.append_nil]
      exact head.congr (and_iff_left (List.forall_mem_nil _)).symm
    | cons second others =>
      rw [componentChars, AbiType.componentsText, TypeStyle.labelText, List.append_nil,
        List.append_assoc]
      · exact head.append (tail.prepend [','])
      · exact List.cons_ne_nil _ _
      · exact List.cons_ne_nil _ _

/-- The text of a layout leaves out of the canonical text the zeros before widths, and nothing
else. -/
theorem condenses_of_build {t : AbiType} {l : Layout} (spelled : t.Spelled)
    (built : build limit t = .ok l) :
    Condenses l.typeChars (t.bareText .canonical) t.HasPlainWidths := by
  induction t generalizing l with
  | elementary label name =>
    have named := namedBy_of_ofElementary built
    have full : AbiType.fullName (String.ofList name.toList) = String.ofList name.toList := by
      rw [String.ofList_toList]
      exact spelled.2.2.2.2
    have only : (AbiType.elementary label name).HasPlainWidths ↔ HasPlainWidth name.toList := by
      simp [AbiType.HasPlainWidths, AbiType.elementaryNames]
    exact (condenses_of_namedBy named full).congr only.symm
  | array label element length ih =>
    obtain ⟨inner, child, rfl⟩ := exists_of_build_array built
    exact (ih spelled.2.1 child).behind length.suffix
  | tuple label components ih =>
    obtain ⟨inner, children, rfl⟩ := exists_of_build_tuple built
    have components := condenses_componentChars children fun t member l child =>
      ih t member (AbiType.AllSpelled.of_mem spelled.2 member) child
    exact ((components.behind [')']).prepend ['(']).congr
      (AbiType.hasPlainWidths_tuple_iff label _).symm
  | empty label => cases spelled

/-- The text of the layout is the canonical text exactly when no width has a zero in front. -/
theorem typeText_eq_canonicalText_iff {settings : Settings} {t : AbiType} {l : Layout}
    (spelled : t = .empty {} ∨ t.Spelled) (laid : ofType settings t = .ok l) :
    l.typeText = t.canonicalText ↔ t.HasPlainWidths := by
  have built := build_of_ofType laid
  have text : t.canonicalText = String.ofList (t.bareText .canonical) :=
    congrArg String.ofList (List.append_nil _)
  rw [text, typeText, String.ofList_inj]
  rcases spelled with rfl | spelled
  · cases built
    exact iff_of_true rfl (List.forall_mem_nil _)
  · exact (condenses_of_build spelled built).eq_iff

end Layout

/-! ### Signatures -/

/-- A signature does not tell apart types with the same canonical text. -/
theorem Signature.text_replace {t u : AbiType} (same : t.canonicalText = u.canonicalText)
    (name : String) (before after : List AbiType) :
    Signature.text name (before ++ t :: after) = Signature.text name (before ++ u :: after) := by
  have texts : t.text .canonical = u.text .canonical := String.ofList_injective same
  simp only [Signature.text, AbiType.componentsText_eq_intercalate, List.map_append, List.map_cons,
    texts]

/-- The layout of a type names it by the canonical text exactly when no width in it has a zero in
front. Types without such zeros whose layouts differ in names only have the same canonical text,
and put in each other's place they change no signature, no selector and no topic. -/
theorem typeText_of_accepted {s : String} {settings : Settings} {t : AbiType} {l : Layout}
    (read : AbiType.parse s = .ok t) (accepted : Layout.ofType settings t = .ok l) :
    (l.typeText = t.canonicalText ↔ t.HasPlainWidths) ∧
    ∀ (s' : String) (settings' : Settings) (u : AbiType) (m : Layout),
      AbiType.parse s' = .ok u → Layout.ofType settings' u = .ok m → l.unnamed = m.unnamed →
      t.HasPlainWidths → u.HasPlainWidths →
      t.canonicalText = u.canonicalText ∧
      (∀ (f : Function) (before after : List AbiType), f.inputs = before ++ t :: after →
        f.signature = Function.signature { f with inputs := before ++ u :: after } ∧
        f.selector = Function.selector { f with inputs := before ++ u :: after }) ∧
      ∀ (e : Event) (before after : List AbiType), e.inputs = before ++ t :: after →
        e.signature = Event.signature { e with inputs := before ++ u :: after } ∧
        e.topic = Event.topic { e with inputs := before ++ u :: after } := by
  have named := Layout.typeText_eq_canonicalText_iff (AbiType.spelled_of_parse read) accepted
  refine ⟨named, fun s' settings' u m read' accepted' alike plain plain' => ?_⟩
  have named' := Layout.typeText_eq_canonicalText_iff (AbiType.spelled_of_parse read') accepted'
  have same : t.canonicalText = u.canonicalText :=
    calc t.canonicalText
      _ = l.typeText := (named.2 plain).symm
      _ = l.unnamed.typeText := (Layout.typeText_rename _ l).symm
      _ = m.unnamed.typeText := by rw [alike]
      _ = m.typeText := Layout.typeText_rename _ m
      _ = u.canonicalText := named'.2 plain'
  refine ⟨same, fun f before after inputs => ?_, fun e before after inputs => ?_⟩
  · have signature :
        f.signature = Function.signature { f with inputs := before ++ u :: after } := by
      rw [Function.signature, inputs]
      exact Signature.text_replace same f.name before after
    exact ⟨signature, congrArg selectorOf signature⟩
  · have signature :
        e.signature = Event.signature { e with inputs := before ++ u :: after } := by
      rw [Event.signature, inputs]
      exact Signature.text_replace same e.name before after
    exact ⟨signature, congrArg topicOf signature⟩

/-- A tuple with names and the one without, as the inputs of a function and of an event. -/
theorem typeText_of_accepted_order :
    let pair : AbiType := .arrayOf (.named "bytes4") (.fixed 2)
    let t : AbiType := .tuple { name := "order" } [.elementary { name := "id" } "uint256", pair]
    let u : AbiType := .tuple {} [.named "uint256", pair]
    ∃ l m, AbiType.parse "tuple(uint256 id, bytes4[2]) order" = .ok t ∧
      AbiType.parse "(uint256,bytes4[2])" = .ok u ∧ Layout.ofType {} t = .ok l ∧
      Layout.ofType {} u = .ok m ∧ l.unnamed = m.unnamed ∧ t.HasPlainWidths ∧ u.HasPlainWidths ∧
      l.typeText = t.canonicalText ∧ t.canonicalText = u.canonicalText ∧
      Function.selector { name := "place", inputs := [t] } =
        Function.selector { name := "place", inputs := [u] } ∧
      Event.topic { name := "Placed", inputs := [t] } =
        Event.topic { name := "Placed", inputs := [u] } := by
  intro pair t u
  have id : (AbiType.named "uint256").Spelled :=
    AbiType.spelled_named (.of_all rfl (by decide)) (by decide) (by decide)
  have bytes4 : (AbiType.named "bytes4").Spelled :=
    AbiType.spelled_named (.of_all rfl (by decide)) (by decide) (by decide)
  have spelledPair : pair.Spelled := ⟨Label.spelled_empty, bytes4, rfl, fun n same => by
    cases same
    decide⟩
  have named : ({ name := "id" } : Label).Spelled :=
    Label.spelled_name (.of_all rfl (by decide)) (by decide) (by decide)
  have order : ({ name := "order" } : Label).Spelled :=
    Label.spelled_name (.of_all rfl (by decide)) (by decide) (by decide)
  have spelled : t.Spelled := ⟨order, id.withLabel named, spelledPair, trivial⟩
  have bare : u.Spelled := ⟨Label.spelled_empty, id, spelledPair, trivial⟩
  have full : trim "tuple(uint256 id, bytes4[2]) order".toList = t.text .full := rfl
  have canonical : trim "(uint256,bytes4[2])".toList = u.text .canonical := rfl
  have first : AbiType.parse "tuple(uint256 id, bytes4[2]) order" = .ok t :=
    AbiType.parse_of_text spelled (by decide) full
  have second : AbiType.parse "(uint256,bytes4[2])" = .ok u :=
    AbiType.parse_of_text bare (by decide) canonical
  have plain : t.HasPlainWidths := by decide
  have plain' : u.HasPlainWidths := by decide
  have accepted : Layout.ofType {} t = .ok _ := rfl
  obtain ⟨text, alike⟩ := typeText_of_accepted first accepted
  obtain ⟨same, functions, events⟩ := alike _ {} u _ second rfl rfl plain plain'
  exact ⟨_, _, first, second, accepted, rfl, rfl, plain, plain', text.2 plain, same,
    (functions _ [] [] rfl).2, (events _ [] [] rfl).2⟩

/-- The zero in front of the width is kept in the canonical text and in signatures; the layout is
that of the type without it, and so is its text. -/
theorem leadingZero_kept :
    let t : AbiType := .named "uint08"
    let u : AbiType := .named "uint8"
    AbiType.parse "uint08" = .ok t ∧ AbiType.parse "uint8" = .ok u ∧
      (∀ settings, Layout.ofType settings t = Layout.ofType settings u) ∧
      (∃ l, Layout.ofType {} t = .ok l ∧ l.typeText ≠ t.canonicalText) ∧
      t.canonicalText ≠ u.canonicalText ∧
      Function.signature { name := "f", inputs := [t] } ≠
        Function.signature { name := "f", inputs := [u] } := by
  intro t u
  have spelledZero : t.Spelled :=
    AbiType.spelled_named (.of_all rfl (by decide)) (by decide) (by decide)
  have spelledPlain : u.Spelled :=
    AbiType.spelled_named (.of_all rfl (by decide)) (by decide) (by decide)
  have zero : trim "uint08".toList = t.text .full := rfl
  have none : trim "uint8".toList = u.text .full := rfl
  have first : AbiType.parse "uint08" = .ok t := AbiType.parse_of_text spelledZero (by decide) zero
  have second : AbiType.parse "uint8" = .ok u := AbiType.parse_of_text spelledPlain (by decide) none
  exact ⟨first, second, fun _ => rfl, ⟨_, rfl, by decide⟩, by decide, by decide⟩

end AbiCodec
