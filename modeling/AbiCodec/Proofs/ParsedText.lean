import AbiCodec.Proofs.TypeParsing

/-!
# The texts that are read as types

What the reader of types takes off its input is a text of the grammar, and the
type that it stands for nests no deeper than there were levels. Together with
the reading of such texts this says which texts are read at all.
-/

namespace AbiCodec

open TypeGrammar

namespace TypeText

theorem exists_skipBlanks (input : List Char) :
    ∃ lead, Blank lead ∧ input = lead ++ skipBlanks input :=
  ⟨input.takeWhile isPlainBlank, fun _ member => List.mem_takeWhile_imp member,
    List.takeWhile_append_dropWhile.symm⟩

theorem wordOf_append_afterWord (input : List Char) : wordOf input ++ afterWord input = input :=
  List.takeWhile_append_dropWhile

theorem spelling_wordOf {input : List Char} (some : wordOf input ≠ []) : Spelling (wordOf input) :=
  ⟨fun _ member => List.mem_takeWhile_imp member, some⟩

theorem wordOf_afterWord (input : List Char) : wordOf (afterWord input) = [] := by
  rw [wordOf_eq_nil_iff]
  intro c head
  have stop := List.head?_dropWhile_not isWordChar input
  rw [← afterWord, head] at stop
  exact stop

theorem apart_of_apart_append {text words rest : List Char} (apart : Apart text (words ++ rest)) :
    Apart text words := by
  intro c d last head
  refine apart c d last ?_
  rw [List.head?_append, head]
  rfl

theorem apart_of_wordOf_eq_nil {rest : List Char} (stops : wordOf rest = []) (text : List Char) :
    Apart text rest :=
  fun _ d _ head _ => wordOf_eq_nil_iff.1 stops d head

/-! ### Labels -/

/-- A label is kept, or takes the next word for its name. -/
theorem labelName_eq_ok {label l : Label} {input rest : List Char}
    (read : labelName label input = .ok (l, rest)) :
    (l = label ∧ rest = skipBlanks input) ∨
      (wordOf (skipBlanks input) ≠ [] ∧ startsWithDigit (wordOf (skipBlanks input)) = false ∧
        l = { label with name := some (String.ofList (wordOf (skipBlanks input))) } ∧
        rest = skipBlanks (afterWord (skipBlanks input))) := by
  simp only [labelName] at read
  split at read
  · cases read
    exact Or.inl ⟨rfl, rfl⟩
  · next some =>
    split at read
    · cases read
    · next notDigit =>
      rw [labelEnd] at read
      split at read
      · cases read
        exact Or.inr ⟨some, Bool.eq_false_iff.2 notDigit, rfl, rfl⟩
      · cases read

/-- What a label is read off is its text in the grammar and the blanks after it. -/
theorem exists_of_label {l : Label} {input rest : List Char} (read : label input = .ok (l, rest)) :
    ∃ words trail, input = words ++ (trail ++ rest) ∧ IsLabel words l ∧ Blank trail := by
  obtain ⟨gap, blank, front⟩ := exists_skipBlanks input
  simp only [label] at read
  split at read
  · next flag =>
    have word := wordOf_append_afterWord (skipBlanks input)
    rw [flag] at word
    obtain ⟨between, blankBetween, after⟩ := exists_skipBlanks (afterWord (skipBlanks input))
    rcases labelName_eq_ok read with ⟨rfl, rfl⟩ | ⟨some, notDigit, rfl, rfl⟩
    · refine ⟨gap ++ "indexed".toList, between, ?_, .flag blank, blankBetween⟩
      rw [List.append_assoc, ← after, word]
      exact front
    · have name := wordOf_append_afterWord (skipBlanks (afterWord (skipBlanks input)))
      obtain ⟨trail, blankTrail, last⟩ :=
        exists_skipBlanks (afterWord (skipBlanks (afterWord (skipBlanks input))))
      have apart : between ≠ [] := by
        rintro rfl
        rw [← List.nil_append (skipBlanks _), ← after, wordOf_afterWord] at some
        exact some rfl
      refine ⟨gap ++ ("indexed".toList ++ (between ++ _)), trail, ?_,
        .flaggedName blank blankBetween apart (spelling_wordOf some) notDigit, blankTrail⟩
      rw [List.append_assoc, List.append_assoc, List.append_assoc, ← last, name, ← after, word]
      exact front
  · next notFlag =>
    rcases labelName_eq_ok read with ⟨rfl, rfl⟩ | ⟨some, notDigit, rfl, rfl⟩
    · refine ⟨[], gap, ?_, .none, blank⟩
      rw [List.nil_append, skipBlanks_skipBlanks]
      exact front
    · rw [skipBlanks_skipBlanks] at some notDigit ⊢
      obtain ⟨trail, blankTrail, last⟩ := exists_skipBlanks (afterWord (skipBlanks input))
      refine ⟨gap ++ wordOf (skipBlanks input), trail, ?_,
        .name blank (spelling_wordOf some) notDigit notFlag, blankTrail⟩
      rw [List.append_assoc, ← last, wordOf_append_afterWord]
      exact front

/-! ### Types -/

theorem getLast?_append_of_isSuffix {suffix : List Char} {length : ArrayLength}
    (h : IsSuffix suffix length) (text : List Char) : (text ++ suffix).getLast? = some ']' := by
  obtain ⟨front, rfl⟩ : ∃ front, suffix = front ++ [']'] := by
    cases h with
    | dynamic => exact ⟨['['], rfl⟩
    | @fixed digits _ _ _ => exact ⟨'[' :: digits, rfl⟩
  rw [← List.append_assoc, List.getLast?_concat]

/-- A suffix ends with a bracket. -/
theorem apart_append_of_isSuffix {suffix : List Char} {length : ArrayLength}
    (h : IsSuffix suffix length) (text rest : List Char) : Apart (text ++ suffix) rest := by
  intro c d last _ word
  rw [getLast?_append_of_isSuffix h] at last
  cases last
  cases word

theorem isSuffix_of_digits {digits : List Char} {length : ArrayLength}
    (all : ∀ c ∈ digits, c.isDigit = true)
    (counted : (if digits = [] then some ArrayLength.dynamic
      else (Decimal.readCount? digits).map ArrayLength.fixed) = some length) :
    IsSuffix ('[' :: (digits ++ [']'])) length := by
  split at counted
  · next none =>
    cases counted
    rw [none]
    exact .dynamic
  · next some =>
    obtain ⟨n, count, rfl⟩ := Option.map_eq_some_iff.1 counted
    obtain ⟨_, _, rfl, below⟩ := Decimal.readCount?_eq_some_iff.1 count
    exact .fixed some all below

/-- The type is left as it is, or one suffix makes it the element of an array. -/
theorem suffixes_eq_ok {room : Nat} {t u : AbiType} {input rest : List Char}
    (read : suffixes room t input = .ok (u, rest)) :
    (u = t ∧ rest = input) ∨ ∃ further suffix length after, room = further + 1 ∧
      IsSuffix suffix length ∧ input = suffix ++ after ∧
      suffixes further (.arrayOf t length) after = .ok (u, rest) := by
  rw [suffixes.eq_def] at read
  split at read
  · next digits =>
    have front := List.takeWhile_append_dropWhile (p := Char.isDigit) (l := digits)
    split at read
    · next after closing =>
      dsimp only at read
      rw [closing] at front
      split at read
      · cases read
      · cases read
      · next length further counted =>
        have suffix := isSuffix_of_digits (fun _ member => List.mem_takeWhile_imp member) counted
        refine Or.inr ⟨further, _, length, after, rfl, suffix, ?_, read⟩
        rw [List.cons_append, List.append_assoc, List.singleton_append, front]
    · cases read
  · cases read
    exact Or.inl ⟨rfl, rfl⟩

theorem exists_of_suffixes {levels room : Nat} {t u : AbiType} {text input rest : List Char}
    (read : suffixes room t input = .ok (u, rest)) (own : IsType text t)
    (apart : Apart text input) (enough : t.levels ≤ levels + 1)
    (left : room + t.suffixCount = levels) :
    ∃ more, input = more ++ rest ∧ IsType (text ++ more) u ∧ Apart (text ++ more) rest ∧
      u.levels ≤ levels + 1 := by
  -- Each suffix moves one from the room to the count of suffixes, so their sum stays.
  induction room generalizing t text input with
  | zero =>
    rcases suffixes_eq_ok read with ⟨rfl, rfl⟩ | ⟨_, _, _, _, none, _⟩
    · exact ⟨[], rfl, by rwa [List.append_nil], by rwa [List.append_nil], enough⟩
    · cases none
  | succ room ih =>
    rcases suffixes_eq_ok read with ⟨rfl, rfl⟩ | ⟨further, suffix, length, after, same, isSuffix,
      rfl, read⟩
    · exact ⟨[], rfl, by rwa [List.append_nil], by rwa [List.append_nil], enough⟩
    · obtain rfl : room = further := Nat.succ.inj same
      have inner : (AbiType.arrayOf t length).levels ≤ levels + 1 := by
        rw [AbiType.arrayOf, AbiType.levels]
        omega
      have used : room + (AbiType.arrayOf t length).suffixCount = levels := by
        rw [AbiType.arrayOf, AbiType.suffixCount]
        omega
      obtain ⟨more, rfl, array, ends, within⟩ :=
        ih read (.array own isSuffix) (apart_append_of_isSuffix isSuffix text after) inner used
      rw [List.append_assoc] at array ends
      exact ⟨suffix ++ more, (List.append_assoc _ _ _).symm, array, ends, within⟩

/-- What the reader takes is a parameter of the grammar, within the levels. -/
def TakesParameters (levels : Nat) : Prop :=
  ∀ {input rest : List Char} {t : AbiType}, parameter levels input = .ok (t, rest) →
    ∃ text, input = text ++ rest ∧ IsParameter text t ∧ t.levels ≤ levels

theorem isParameter_append_blank {text gap : List Char} {t : AbiType} (h : IsParameter text t)
    (blank : Blank gap) : IsParameter (text ++ gap) t := by
  cases h with
  | @intro lead bare words trail t label blankLead type isLabel apart blankTrail =>
    rw [List.append_assoc, List.append_assoc, List.append_assoc]
    exact .intro blankLead type isLabel apart (List.forall_mem_append.2 ⟨blankTrail, blank⟩)

theorem isParameter_blank_append {text gap : List Char} {t : AbiType} (h : IsParameter text t)
    (blank : Blank gap) : IsParameter (gap ++ text) t := by
  cases h with
  | @intro lead bare words trail t label blankLead type isLabel apart blankTrail =>
    rw [← List.append_assoc]
    exact .intro (List.forall_mem_append.2 ⟨blank, blankLead⟩) type isLabel apart blankTrail

theorem isParameters_blank_append {text gap : List Char} {types : List AbiType}
    (h : IsParameters text types) (blank : Blank gap) : IsParameters (gap ++ text) types := by
  cases h with
  | one only => exact .one (isParameter_blank_append only blank)
  | more first further =>
    rw [← List.append_assoc]
    exact .more (isParameter_blank_append first blank) further

section Tuples

variable {levels : Nat} (each : TakesParameters levels)

include each

theorem exists_of_components {fuel : Nat} {input rest : List Char} {types : List AbiType}
    (read : components (parameter levels) fuel input = .ok (types, rest)) :
    ∃ text, input = text ++ ')' :: rest ∧ IsParameters text types ∧
      AbiType.levelsOf types ≤ levels := by
  induction fuel generalizing input types with
  | zero => cases read
  | succ fuel ih =>
    rw [components] at read
    obtain ⟨⟨t, after⟩, first, others⟩ := exists_of_bind_eq_ok read
    obtain ⟨text, rfl, own, within⟩ := each first
    obtain ⟨gap, blank, front⟩ := exists_skipBlanks after
    have closed := isParameter_append_blank own blank
    dsimp only at others
    split at others
    · next next comma =>
      obtain ⟨⟨others, last⟩, further, same⟩ := exists_of_bind_eq_ok others
      cases same
      obtain ⟨more, rfl, parameters, inner⟩ := ih further
      refine ⟨text ++ gap ++ ',' :: more, ?_, .more closed parameters, Nat.max_le.2 ⟨within, inner⟩⟩
      rw [front, comma]
      simp
    · next next closing =>
      cases others
      refine ⟨text ++ gap, ?_, .one closed, Nat.max_le.2 ⟨within, Nat.zero_le _⟩⟩
      rw [front, closing, List.append_assoc]
    · cases others

theorem exists_of_tupleBody {input rest : List Char} {types : List AbiType}
    (read : tupleBody (parameter levels) input = .ok (types, rest)) :
    ∃ body, input = '(' :: (body ++ ')' :: rest) ∧ IsList body types ∧
      AbiType.levelsOf types ≤ levels := by
  unfold tupleBody at read
  split at read
  · next input =>
    obtain ⟨gap, blank, front⟩ := exists_skipBlanks input
    split at read
    · next closing =>
      cases read
      exact ⟨gap, by rw [← closing, ← front], .empty blank, Nat.zero_le _⟩
    · obtain ⟨text, more, parameters, within⟩ := exists_of_components each read
      refine ⟨gap ++ text, ?_, .parameters (isParameters_blank_append parameters blank), within⟩
      rw [List.append_assoc, ← more, ← front]
  · cases read

theorem exists_of_base {input rest : List Char} {t : AbiType}
    (read : base (parameter levels) input = .ok (t, rest)) :
    ∃ text, input = text ++ rest ∧ IsType text t ∧ Apart text rest ∧ t.levels ≤ levels + 1 ∧
      t.suffixCount = 0 := by
  have closed (front text : List Char) : Apart (front ++ '(' :: (text ++ [')'])) rest := by
    intro c d last _ word
    rw [← List.cons_append, ← List.append_assoc, List.getLast?_concat] at last
    cases last
    cases word
  rw [base] at read
  split at read
  · obtain ⟨⟨types, after⟩, body, read⟩ := exists_of_bind_eq_ok read
    cases read
    obtain ⟨text, rfl, list, within⟩ := exists_of_tupleBody each body
    refine ⟨_, ?_, .tuple .nothing list, closed [] text, Nat.succ_le_succ within, rfl⟩
    simp
  · split at read
    · cases read
    · next some =>
      have word := wordOf_append_afterWord input
      split at read
      · next isTuple =>
        obtain ⟨⟨types, after⟩, body, read⟩ := exists_of_bind_eq_ok read
        cases read
        obtain ⟨text, opened, list, within⟩ := exists_of_tupleBody each body
        obtain ⟨gap, blank, front⟩ := exists_skipBlanks (afterWord input)
        rw [isTuple, front, opened] at word
        refine ⟨_, ?_, .tuple (.word blank) list, closed _ text, Nat.succ_le_succ within, rfl⟩
        rw [← word]
        simp
      · next notTuple =>
        split at read
        · next letter =>
          cases read
          exact ⟨_, word.symm, .name (spelling_wordOf some) letter notTuple,
            apart_of_wordOf_eq_nil (wordOf_afterWord input) _, Nat.le_add_left 1 _, rfl⟩
        · cases read

end Tuples

theorem takesParameters (levels : Nat) : TakesParameters levels := by
  induction levels with
  | zero =>
    intro input rest t read
    cases read
  | succ levels ih =>
    intro input rest t read
    rw [parameter] at read
    obtain ⟨⟨first, after⟩, bare, read⟩ := exists_of_bind_eq_ok read
    obtain ⟨⟨u, behind⟩, array, read⟩ := exists_of_bind_eq_ok read
    obtain ⟨⟨l, last⟩, labelled, read⟩ := exists_of_bind_eq_ok read
    cases read
    obtain ⟨lead, blank, front⟩ := exists_skipBlanks input
    obtain ⟨text, started, own, apart, within, unsuffixed⟩ := exists_of_base ih bare
    obtain ⟨more, rfl, type, ends, room⟩ :=
      exists_of_suffixes array own apart within (by rw [unsuffixed]; rfl)
    obtain ⟨words, trail, rfl, isLabel, blankTrail⟩ := exists_of_label labelled
    refine ⟨lead ++ ((text ++ more) ++ (words ++ trail)), ?_,
      .intro blank type isLabel (apart_of_apart_append ends) blankTrail, ?_⟩
    · rw [front, started]
      simp
    · rw [AbiType.levels_withLabel]
      exact room

theorem whole_eq_ok_iff {α : Type} {source : List Char} {parse : Parse α} {result : α} :
    whole source parse = .ok result ↔
      ∃ rest, parse source = .ok (result, rest) ∧ skipBlanks rest = [] := by
  constructor
  · intro read
    rw [whole] at read
    split at read
    · cases read
    · next result rest parsed =>
      split at read
      · next blank =>
        cases read
        exact ⟨rest, parsed, blank⟩
      · cases read
  · rintro ⟨rest, parsed, blank⟩
    rw [whole, parsed]
    dsimp only
    rw [blank]

/-- The whole text is read as a type exactly when it is a text of the grammar, within the levels. -/
theorem whole_parameter_eq_ok_iff {levels : Nat} {source : List Char} {t : AbiType} :
    whole source (parameter levels) = .ok t ↔ IsParameter source t ∧ t.levels ≤ levels := by
  rw [whole_eq_ok_iff]
  constructor
  · rintro ⟨rest, parsed, blank⟩
    obtain ⟨text, rfl, own, within⟩ := takesParameters levels parsed
    obtain ⟨gap, blanks, front⟩ := exists_skipBlanks rest
    rw [blank, List.append_nil] at front
    rw [front]
    exact ⟨isParameter_append_blank own blanks, within⟩
  · rintro ⟨own, within⟩
    have read := parameter_of_isParameter own within .nil
    rw [List.append_nil] at read
    exact ⟨[], read, rfl⟩

end TypeText

namespace AbiType

/-- A text of the grammar is read when there are levels for its type. -/
theorem parse_of_isParameter {text : String} {t : AbiType}
    (own : IsParameter (trim text.toList) t) (enough : t.levels ≤ maxDepth + 1) :
    AbiType.parse text = .ok t := by
  simp only [AbiType.parse, if_neg own.ne_nil]
  exact TypeText.whole_parameter_eq_ok_iff.2 ⟨own, enough⟩

theorem blank_or_isParameter_of_parse {text : String} {t : AbiType}
    (read : AbiType.parse text = .ok t) :
    (trim text.toList = [] ∧ t = .empty {}) ∨
      (IsParameter (trim text.toList) t ∧ t.levels ≤ maxDepth + 1) := by
  simp only [AbiType.parse] at read
  split at read
  · next blank =>
    cases read
    exact Or.inl ⟨blank, rfl⟩
  · exact Or.inr (TypeText.whole_parameter_eq_ok_iff.1 read)

/-- A text is read as a type exactly when it is blank, or stands for the type and nests within the
limit. -/
theorem parse_eq_ok_iff (text : String) (t : AbiType) :
    AbiType.parse text = .ok t ↔
      (trim text.toList = [] ∧ t = .empty {}) ∨
        (IsParameter (trim text.toList) t ∧ t.WithinLimit 0) := by
  rw [withinLimit_iff, Nat.zero_add]
  constructor
  · exact blank_or_isParameter_of_parse
  · rintro (⟨blank, rfl⟩ | ⟨own, enough⟩)
    · simp only [AbiType.parse, blank, if_true]
    · exact parse_of_isParameter own enough

end AbiType

end AbiCodec
