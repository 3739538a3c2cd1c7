import AbiCodec.Proofs.TypeReading

/-!
# Printed types

A type that was read is printed and read back. Its full text gives the type
itself, and its canonical text gives the type without labels. No text of a type
starts or ends with white space, so none is lost when the ends are trimmed.

A list of parameters is read as the tuple of them is: the parentheses that are
put around a list belong to each other, whatever parentheses the list has.
-/

namespace AbiCodec

open TypeText TypeGrammar

/-! ### White space at the ends -/

theorem isWhiteSpace_of_isWordChar {c : Char} (word : isWordChar c = true) :
    isWhiteSpace c = false := by
  have ranges : (decide ('A'.val ≤ c.val ∧ c.val ≤ 'Z'.val) ||
      ('a'.val ≤ c.val && c.val ≤ 'z'.val) || ('0'.val ≤ c.val && c.val ≤ '9'.val) ||
      c == '_' || c == '$') = true := word
  simp only [Bool.or_eq_true, Bool.and_eq_true, decide_eq_true_eq, beq_iff_eq,
    UInt32.le_iff_toNat_le] at ranges
  rcases ranges with (letter | rfl) | rfl
  · change ((65 ≤ c.toNat ∧ c.toNat ≤ 90) ∨ (97 ≤ c.toNat ∧ c.toNat ≤ 122)) ∨
      (48 ≤ c.toNat ∧ c.toNat ≤ 57) at letter
    simp only [isWhiteSpace, Bool.or_eq_false_iff, Bool.and_eq_false_iff, decide_eq_false_iff_not,
      beq_eq_false_iff_ne]
    omega
  · decide
  · decide

/-- The text starts and ends with a character that is no white space. -/
structure Trimmed (text : List Char) : Prop where
  first : ∃ c, text.head? = some c ∧ isWhiteSpace c = false
  last : ∃ c, text.getLast? = some c ∧ isWhiteSpace c = false

theorem dropWhile_of_head? {p : Char → Bool} {c : Char} {text : List Char}
    (head : text.head? = some c) (stops : p c = false) : text.dropWhile p = text := by
  obtain ⟨rest, rfl⟩ := List.head?_eq_some_iff.1 head
  rw [List.dropWhile_cons, stops, if_neg Bool.false_ne_true]

theorem Trimmed.trim_eq {text : List Char} (h : Trimmed text) : trim text = text := by
  obtain ⟨c, head, solid⟩ := h.first
  obtain ⟨d, last, closed⟩ := h.last
  rw [← List.head?_reverse] at last
  rw [trim, trimStart, dropWhile_of_head? head solid, trimEnd, dropWhile_of_head? last closed,
    List.reverse_reverse]

theorem Spelling.trimmed {word : List Char} (spelled : Spelling word) : Trimmed word := by
  have solid {c : Char} (member : c ∈ word) : isWhiteSpace c = false :=
    isWhiteSpace_of_isWordChar (spelled.chars c member)
  constructor
  · exact ⟨_, List.head?_eq_some_head spelled.nonempty, solid (List.head_mem spelled.nonempty)⟩
  · exact ⟨_, List.getLast?_eq_some_getLast spelled.nonempty,
      solid (List.getLast_mem spelled.nonempty)⟩

namespace TypeGrammar

theorem IsType.trimmed {text : List Char} {t : AbiType} (h : IsType text t) : Trimmed text := by
  induction t generalizing text with
  | elementary label name =>
    cases h with
    | name spelled _ _ => exact spelled.trimmed
  | array label element length ih =>
    cases h with
    | @array text suffix _ _ inner isSuffix =>
      obtain ⟨c, head, solid⟩ := (ih inner).first
      refine ⟨⟨c, ?_, solid⟩, ']', getLast?_append_of_isSuffix isSuffix text, by decide⟩
      rw [List.head?_append, head]
      rfl
  | tuple label components _ =>
    cases h with
    | @tuple lead body _ isLead _ =>
      constructor
      · cases isLead with
        | nothing => exact ⟨'(', rfl, by decide⟩
        | word _ => exact ⟨'t', rfl, by decide⟩
      · refine ⟨')', ?_, by decide⟩
        rw [← List.cons_append, ← List.append_assoc, List.getLast?_concat]
  | empty label => cases h

/-- A label that is written ends with a character of a word. -/
theorem IsLabel.last {words : List Char} {label : Label} (h : IsLabel words label) :
    words = [] ∨ ∃ c, words.getLast? = some c ∧ isWhiteSpace c = false := by
  have flag : Spelling "indexed".toList := .of_all rfl (by decide)
  have behind {word : List Char} (spelled : Spelling word) (front : List Char) :
      ∃ c, (front ++ word).getLast? = some c ∧ isWhiteSpace c = false := by
    obtain ⟨c, last, solid⟩ := spelled.trimmed.last
    refine ⟨c, ?_, solid⟩
    rw [List.getLast?_append, last]
    rfl
  cases h with
  | none => exact Or.inl rfl
  | name _ spelled => exact Or.inr (behind spelled _)
  | flag _ => exact Or.inr (behind flag _)
  | @flaggedName gap between word _ _ _ spelled =>
    rw [← List.append_assoc, ← List.append_assoc]
    exact Or.inr (behind spelled _)

end TypeGrammar

theorem AbiType.Spelled.trimmed {t : AbiType} (spelled : t.Spelled) (style : TypeStyle) :
    Trimmed (t.text style) := by
  obtain ⟨⟨c, head, solid⟩, last⟩ := (spelled.isType style).trimmed
  constructor
  · refine ⟨c, ?_, solid⟩
    rw [AbiType.text, List.head?_append, head]
    rfl
  · rw [AbiType.text]
    rcases (spelled.label.isLabel style).last with none | ⟨d, behind, closed⟩
    · rwa [none, List.append_nil]
    · refine ⟨d, ?_, closed⟩
      rw [List.getLast?_append, behind]
      rfl

/-! ### Labels that are kept -/

namespace AbiType

theorem relabelAll_id {types : List AbiType} (each : ∀ t ∈ types, t.relabel id = t) :
    relabelAll id types = types := by
  induction types with
  | nil => rfl
  | cons t types ih =>
    rcases List.forall_mem_cons.1 each with ⟨own, others⟩
    rw [relabelAll, own, ih others]

theorem relabel_id (t : AbiType) : t.relabel id = t := by
  induction t with
  | array label element length ih => rw [relabel, ih, id]
  | tuple label components ih => rw [relabel, relabelAll_id ih, id]
  | _ => rfl

theorem relabel_full (t : AbiType) : t.relabel TypeStyle.full.kept = t := t.relabel_id

theorem relabelAll_full (types : List AbiType) : relabelAll TypeStyle.full.kept types = types :=
  relabelAll_id fun t _ => t.relabel_id

theorem Spelled.parse_text {t : AbiType} (spelled : t.Spelled) (enough : t.levels ≤ maxDepth + 1)
    (style : TypeStyle) :
    AbiType.parse (String.ofList (t.text style)) = .ok (t.relabel style.kept) := by
  refine parse_of_text spelled enough ?_
  rw [String.toList_ofList, (spelled.trimmed style).trim_eq]

/-- The text in a style of a type that was read gives the type back, with the labels that the style
keeps. -/
theorem parse_text_of_parse {text : String} {t : AbiType} (read : AbiType.parse text = .ok t)
    (style : TypeStyle) :
    AbiType.parse (String.ofList (t.text style)) = .ok (t.relabel style.kept) := by
  rcases blank_or_isParameter_of_parse read with ⟨_, rfl⟩ | ⟨own, enough⟩
  · cases style <;> rfl
  · exact own.spelled.parse_text enough style

end AbiType

/-! ### Lists of parameters -/

namespace TypeGrammar

/-- No blanks are left between the last parenthesis and the end of the text. -/
theorem Blank.eq_nil_of_append {gap front text : List Char} (blank : Blank gap)
    (closed : front ++ gap = text ++ [')']) : gap = [] := by
  rcases gap.eq_nil_or_concat with rfl | ⟨start, c, rfl⟩
  · rfl
  · rw [List.concat_eq_append, ← List.append_assoc] at closed
    obtain rfl : c = ')' := List.singleton_inj.1 (List.append_inj_right' closed rfl)
    cases blank ')' (by simp)

/-- The parentheses around a list are those of the tuple, and no label follows them. -/
theorem isParameter_parentheses_iff {list : List Char} {types : List AbiType} :
    IsParameter ('(' :: (list ++ [')'])) (.tuple {} types) ↔ IsList list types := by
  have nothing : Blank [] := nofun
  constructor
  · intro own
    generalize text : '(' :: (list ++ [')']) = source at own
    generalize kind : AbiType.tuple {} types = t at own
    cases own with
    | @intro lead bare words trail _ label blank type labelled _ blankTrail =>
      cases type with
      | name _ _ _ => cases kind
      | array _ _ => cases kind
      | @tuple tupleLead body types isLead own =>
        cases kind
        cases labelled
        obtain rfl : lead = [] := by
          cases lead with
          | nil => rfl
          | cons c lead =>
            have solid := blank c List.mem_cons_self
            rw [← (List.cons.inj text).1] at solid
            cases solid
        obtain rfl : tupleLead = [] := by
          cases isLead with
          | nothing => rfl
          | word _ => cases text
        have inside : list ++ [')'] = (body ++ [')']) ++ trail := by
          simpa using text
        obtain rfl : trail = [] := blankTrail.eq_nil_of_append inside.symm
        rw [List.append_nil] at inside
        rwa [List.append_cancel_right inside]
  · intro own
    have type := IsType.tuple .nothing own
    have apart : Apart ([] ++ '(' :: (list ++ [')'])) [] := nofun
    have parameter := IsParameter.intro nothing type .none apart nothing
    rwa [List.nil_append, List.nil_append, List.nil_append, List.append_nil] at parameter

end TypeGrammar

namespace AbiType

/-- A list is read exactly when it stands for the types in the grammar, within the levels. -/
theorem parseList_eq_ok_iff {list : List Char} {types : List AbiType} :
    AbiType.parseList list = .ok types ↔ IsList list types ∧ levelsOf types ≤ maxDepth := by
  rw [AbiType.parseList, whole_eq_ok_iff, List.cons_append]
  constructor
  · rintro ⟨rest, read, blank⟩
    obtain ⟨body, text, own, within⟩ := exists_of_tupleBody (takesParameters maxDepth) read
    obtain ⟨gap, blanks, front⟩ := exists_skipBlanks rest
    rw [blank, List.append_nil] at front
    subst front
    have inside : list ++ [')'] = (body ++ [')']) ++ rest := by simpa using text
    obtain rfl : rest = [] := blanks.eq_nil_of_append inside.symm
    rw [List.append_nil] at inside
    rw [List.append_cancel_right inside]
    exact ⟨own, within⟩
  · rintro ⟨own, within⟩
    exact ⟨[], tupleBody_of_isList own within, rfl⟩

/-- A list of parameters in parentheses is read as the tuple of the list. -/
theorem parse_parentheses_eq_ok_iff {list : List Char} {types : List AbiType} :
    AbiType.parse (String.ofList ('(' :: list ++ [')'])) = .ok (.tuple {} types) ↔
      IsList list types ∧ levelsOf types ≤ maxDepth := by
  have ends : Trimmed ('(' :: (list ++ [')'])) := by
    refine ⟨⟨'(', rfl, by decide⟩, ')', ?_, by decide⟩
    rw [← List.cons_append, List.getLast?_concat]
  have source : trim (String.ofList ('(' :: list ++ [')'])).toList = '(' :: (list ++ [')']) := by
    rw [String.toList_ofList, List.cons_append, ends.trim_eq]
  constructor
  · intro read
    rcases blank_or_isParameter_of_parse read with ⟨_, empty⟩ | ⟨own, enough⟩
    · cases empty
    · rw [source] at own
      exact ⟨isParameter_parentheses_iff.1 own, Nat.le_of_succ_le_succ enough⟩
  · rintro ⟨own, within⟩
    refine parse_of_isParameter ?_ (Nat.succ_le_succ within)
    rw [source]
    exact isParameter_parentheses_iff.2 own

/-- The full texts with commas between them are the full text of the components. -/
theorem toList_intercalate_fullText (types : List AbiType) :
    (", ".intercalate (types.map fullText)).toList = componentsText .full types := by
  have texts : String.toList ∘ fullText = text .full := funext fun t => String.toList_ofList
  rw [String.toList_intercalate, List.map_map, texts, componentsText_eq_intercalate]
  rfl

/-- A type that was read from a text is read again from its full text, and from its canonical text
without its labels. Types that were read from a list are read again from their full texts with
commas between them, and they are the types of a list exactly when the list in parentheses is read
as the tuple of them. -/
theorem parse_printed (text : String) (t : AbiType) (list : List Char) (types : List AbiType) :
    (AbiType.parse text = .ok t →
      AbiType.parse t.fullText = .ok t ∧ AbiType.parse t.canonicalText = .ok t.unlabelled) ∧
    (AbiType.parseList list = .ok types →
      AbiType.parseList (", ".intercalate (types.map fullText)).toList = .ok types) ∧
    (AbiType.parseList list = .ok types ↔
      AbiType.parse (String.ofList ('(' :: list ++ [')'])) = .ok (.tuple {} types)) := by
  refine ⟨fun read => ⟨?_, parse_text_of_parse read .canonical⟩, fun read => ?_,
    parseList_eq_ok_iff.trans parse_parentheses_eq_ok_iff.symm⟩
  · have full := parse_text_of_parse read .full
    rwa [relabel_full] at full
  · obtain ⟨own, within⟩ := parseList_eq_ok_iff.1 read
    have each : ∀ u ∈ types, IsParameter (u.text .full) (u.relabel TypeStyle.full.kept) :=
      fun u member => (AllSpelled.of_mem own.spelled member).isParameter .full
    have printed := isList_componentsText each
    rw [relabelAll_full] at printed
    rw [toList_intercalate_fullText]
    exact parseList_eq_ok_iff.2 ⟨printed, within⟩

/-- A name that reads as the flag, and an array of tuples. -/
theorem parse_printed_flagName :
    let u : AbiType := .elementary { name := "indexed", indexed := some true } "uint8"
    let v : AbiType := .arrayOf (.tuple {} [.elementary { name := "ok" } "bool"]) (.fixed 2)
    let t : AbiType := .tuple { name := "p" } [u, v]
    AbiType.parse "tuple(uint8 indexed indexed, tuple(bool ok)[2]) p" = .ok t ∧
      AbiType.parse t.fullText = .ok t ∧
      t.canonicalText = "(uint8,(bool)[2])" ∧ AbiType.parse t.canonicalText = .ok t.unlabelled ∧
      AbiType.parseList "uint8 indexed indexed, tuple(bool ok)[2]".toList = .ok [u, v] ∧
      AbiType.parseList (", ".intercalate ([u, v].map fullText)).toList = .ok [u, v] ∧
      AbiType.parse "(uint8 indexed indexed, tuple(bool ok)[2])" = .ok (.tuple {} [u, v]) := by
  intro u v t
  have uint8 : (AbiType.named "uint8").Spelled :=
    AbiType.spelled_named (.of_all rfl (by decide)) (by decide) (by decide)
  have bool : (AbiType.named "bool").Spelled :=
    AbiType.spelled_named (.of_all rfl (by decide)) (by decide) (by decide)
  have ok : ({ name := "ok" } : Label).Spelled :=
    Label.spelled_name (.of_all rfl (by decide)) (by decide) (by decide)
  have p : ({ name := "p" } : Label).Spelled :=
    Label.spelled_name (.of_all rfl (by decide)) (by decide) (by decide)
  have flagged : ({ name := "indexed", indexed := some true } : Label).Spelled := by
    refine ⟨nofun, fun name same => ?_⟩
    cases same
    exact ⟨.of_all rfl (by decide), by decide, fun _ => rfl⟩
  have first : u.Spelled := uint8.withLabel flagged
  have second : v.Spelled := by
    refine ⟨Label.spelled_empty, ⟨Label.spelled_empty, bool.withLabel ok, trivial⟩, rfl, ?_⟩
    intro n same
    cases same
    decide
  have spelled : t.Spelled := ⟨p, first, second, trivial⟩
  have read : AbiType.parse "tuple(uint8 indexed indexed, tuple(bool ok)[2]) p" = .ok t := by
    have text : trim "tuple(uint8 indexed indexed, tuple(bool ok)[2]) p".toList =
        t.text .full := rfl
    have full := parse_of_text spelled (by decide) text
    rwa [relabel_full] at full
  have listed : AbiType.parseList "uint8 indexed indexed, tuple(bool ok)[2]".toList =
      .ok [u, v] := by
    have each : ∀ w ∈ [u, v], IsParameter (w.text .full) (w.relabel TypeStyle.full.kept) := by
      refine List.forall_mem_cons.2 ⟨first.isParameter _, List.forall_mem_singleton.2 ?_⟩
      exact second.isParameter _
    have list := isList_componentsText each
    rw [relabelAll_full] at list
    exact parseList_eq_ok_iff.2 ⟨list, by decide⟩
  obtain ⟨back, again, wrapped⟩ := parse_printed _ t _ [u, v]
  exact ⟨read, (back read).1, rfl, (back read).2, listed, again listed, wrapped.1 listed⟩

end AbiType

end AbiCodec
