import AbiCodec.Proofs.TypeGrammar

/-!
# Reading the texts of the grammar

The reader of types takes every text of the grammar that nests no deeper than it
has levels for, and goes on where the text ends.
-/

namespace AbiCodec

open TypeGrammar

namespace TypeText

/-- The text that is left is where a parameter ends. -/
def AtEnd (rest : List Char) : Prop := ∀ c, rest.head? = some c → c = ',' ∨ c = ')'

theorem AtEnd.nil : AtEnd [] := nofun

theorem AtEnd.comma (rest : List Char) : AtEnd (',' :: rest) :=
  fun _ head => Or.inl (Option.some.inj head).symm

theorem AtEnd.closing (rest : List Char) : AtEnd (')' :: rest) :=
  fun _ head => Or.inr (Option.some.inj head).symm

theorem isPlainBlank_eq_false {c : Char} (h : isWordChar c = true) : isPlainBlank c = false := by
  cases blank : isPlainBlank c with
  | false => rfl
  | true =>
    simp only [isPlainBlank, Bool.or_eq_true, beq_iff_eq] at blank
    obtain (((rfl | rfl) | rfl) | rfl) | rfl := blank <;> cases h

theorem isWordChar_eq_false {c : Char} (h : isPlainBlank c = true) : isWordChar c = false := by
  cases word : isWordChar c with
  | false => rfl
  | true => rw [isPlainBlank_eq_false word] at h; exact h.symm

theorem skipBlanks_append {lead : List Char} (blank : Blank lead) (rest : List Char) :
    skipBlanks (lead ++ rest) = skipBlanks rest :=
  List.dropWhile_append_of_pos blank

theorem skipBlanks_cons {c : Char} (solid : isPlainBlank c = false) (rest : List Char) :
    skipBlanks (c :: rest) = c :: rest := by
  rw [skipBlanks, List.dropWhile_cons, solid, if_neg Bool.false_ne_true]

theorem skipBlanks_skipBlanks (input : List Char) :
    skipBlanks (skipBlanks input) = skipBlanks input :=
  List.dropWhile_idempotent _ input

theorem afterWord_of_wordOf_eq_nil {rest : List Char} (h : wordOf rest = []) :
    afterWord rest = rest := by
  have split := List.takeWhile_append_dropWhile (p := isWordChar) (l := rest)
  rw [wordOf] at h
  rwa [h, List.nil_append] at split

theorem wordOf_cons_of_not {c : Char} (other : isWordChar c = false) (rest : List Char) :
    wordOf (c :: rest) = [] := by
  rw [wordOf, List.takeWhile_cons, other, if_neg Bool.false_ne_true]

theorem wordOf_eq_nil_iff {rest : List Char} :
    wordOf rest = [] ↔ ∀ c, rest.head? = some c → isWordChar c = false := by
  cases rest with
  | nil => simp [wordOf]
  | cons c rest => cases word : isWordChar c <;> simp [wordOf, word]

theorem AtEnd.wordOf_eq_nil {rest : List Char} (h : AtEnd rest) : wordOf rest = [] := by
  rw [wordOf_eq_nil_iff]
  intro c head
  obtain rfl | rfl := h c head <;> decide

theorem AtEnd.skipBlanks_eq {rest : List Char} (h : AtEnd rest) : skipBlanks rest = rest := by
  cases rest with
  | nil => rfl
  | cons c rest => obtain rfl | rfl := h c rfl <;> exact skipBlanks_cons (by decide) rest

theorem wordOf_blank {gap : List Char} (blank : Blank gap) {rest : List Char}
    (stops : wordOf rest = []) : wordOf (gap ++ rest) = [] := by
  cases gap with
  | nil => exact stops
  | cons c gap =>
    exact wordOf_cons_of_not (isWordChar_eq_false (blank c List.mem_cons_self)) (gap ++ rest)

section Words

variable {word rest : List Char} (spelled : Spelling word)

include spelled

theorem wordOf_append (stops : wordOf rest = []) : wordOf (word ++ rest) = word := by
  rw [wordOf, List.takeWhile_append_of_pos spelled.chars]
  rw [wordOf] at stops
  rw [stops, List.append_nil]

theorem afterWord_append (stops : wordOf rest = []) : afterWord (word ++ rest) = rest := by
  rw [afterWord, List.dropWhile_append_of_pos spelled.chars]
  exact afterWord_of_wordOf_eq_nil stops

theorem skipBlanks_word (rest : List Char) : skipBlanks (word ++ rest) = word ++ rest := by
  cases word with
  | nil => exact absurd rfl spelled.nonempty
  | cons c word =>
    exact skipBlanks_cons (isPlainBlank_eq_false (spelled.chars c List.mem_cons_self)) (word ++ rest)

end Words

end TypeText

open TypeText

/-! ### What the texts start with -/

namespace TypeGrammar

theorem Apart.wordOf_eq_nil {word rest : List Char} (apart : Apart word rest)
    (spelled : Spelling word) : wordOf rest = [] := by
  have last := List.getLast?_eq_some_getLast spelled.nonempty
  exact wordOf_eq_nil_iff.2 fun d head =>
    apart _ d last head (spelled.chars _ (List.getLast_mem spelled.nonempty))

/-- What follows the second text matters only where that text is empty. -/
theorem Apart.append {text words rest : List Char} (apart : Apart text words)
    (stops : wordOf rest = []) : Apart text (words ++ rest) := by
  intro c d last head word
  rw [List.head?_append, Option.or_eq_some_iff] at head
  obtain head | ⟨_, head⟩ := head
  · exact apart c d last head word
  · exact wordOf_eq_nil_iff.1 stops d head

theorem IsSuffix.apart {suffix : List Char} {length : ArrayLength} (h : IsSuffix suffix length)
    (text rest : List Char) : Apart text (suffix ++ rest) := by
  intro c d _ head _
  cases h <;> cases head <;> rfl

theorem IsLabel.chars {words : List Char} {label : Label} (h : IsLabel words label) :
    ∀ c ∈ words, isPlainBlank c = true ∨ isWordChar c = true := by
  have flag : Spelling "indexed".toList := .of_all rfl (by decide)
  have blanks {gap : List Char} (blank : Blank gap) (c : Char) (member : c ∈ gap) :
      isPlainBlank c = true ∨ isWordChar c = true := Or.inl (blank c member)
  have letters {word : List Char} (spelled : Spelling word) (c : Char) (member : c ∈ word) :
      isPlainBlank c = true ∨ isWordChar c = true := Or.inr (spelled.chars c member)
  cases h with
  | none => nofun
  | name gap spelled => exact List.forall_mem_append.2 ⟨blanks gap, letters spelled⟩
  | flag gap => exact List.forall_mem_append.2 ⟨blanks gap, letters flag⟩
  | flaggedName gap between _ spelled =>
    exact List.forall_mem_append.2 ⟨blanks gap, List.forall_mem_append.2 ⟨letters flag,
      List.forall_mem_append.2 ⟨blanks between, letters spelled⟩⟩⟩

theorem IsTupleLead.starts {lead : List Char} (h : IsTupleLead lead) (rest : List Char) :
    ∃ c more, lead ++ '(' :: rest = c :: more ∧ isPlainBlank c = false ∧ c ≠ ')' := by
  cases h with
  | nothing => exact ⟨'(', rest, rfl, by decide, by decide⟩
  | word _ => exact ⟨'t', _, rfl, by decide, by decide⟩

/-- A type starts with a parenthesis or a character of names. -/
theorem IsType.starts : ∀ {text : List Char} {t : AbiType}, IsType text t →
    ∃ c more, text = c :: more ∧ isPlainBlank c = false ∧ c ≠ ')'
  | _, _, .name spelled _ _ => by
    obtain ⟨c, more, rfl⟩ := List.exists_cons_of_ne_nil spelled.nonempty
    have letter := spelled.chars c List.mem_cons_self
    refine ⟨c, more, rfl, isPlainBlank_eq_false letter, ?_⟩
    rintro rfl
    cases letter
  | _, _, .tuple lead _ => lead.starts _
  | _, _, .array inner _ => by
    obtain ⟨c, more, rfl, solid, other⟩ := inner.starts
    exact ⟨c, _, rfl, solid, other⟩

theorem IsType.skipBlanks_eq {text : List Char} {t : AbiType} (h : IsType text t)
    (rest : List Char) : skipBlanks (text ++ rest) = text ++ rest := by
  obtain ⟨c, more, rfl, solid, _⟩ := h.starts
  exact skipBlanks_cons solid _

theorem IsParameter.starts {text : List Char} {t : AbiType} (h : IsParameter text t) :
    ∃ c more, c ≠ ')' ∧ ∀ rest, skipBlanks (text ++ rest) = c :: (more ++ rest) := by
  cases h with
  | @intro lead bare words trail t label blank type _ _ _ =>
    obtain ⟨c, more, rfl, solid, other⟩ := type.starts
    refine ⟨c, more ++ (words ++ trail), other, fun rest => ?_⟩
    rw [List.append_assoc, skipBlanks_append blank, List.cons_append, List.cons_append,
      skipBlanks_cons solid]

theorem IsParameter.ne_nil {text : List Char} {t : AbiType} (h : IsParameter text t) :
    text ≠ [] := by
  rintro rfl
  obtain ⟨c, more, _, skipped⟩ := h.starts
  exact List.cons_ne_nil _ _ (skipped []).symm

/-- Each parameter takes a character after the blanks before the first one. -/
theorem IsParameters.starts : ∀ {text : List Char} {types : List AbiType},
    IsParameters text types → ∃ c more, c ≠ ')' ∧
      (∀ rest, skipBlanks (text ++ rest) = c :: (more ++ rest)) ∧ types.length ≤ more.length + 1
  | _, _, .one only => by
    obtain ⟨c, more, other, skipped⟩ := only.starts
    exact ⟨c, more, other, skipped, Nat.le_add_left 1 _⟩
  | _, _, @IsParameters.more _ others _ _ first further => by
    obtain ⟨c, more, other, skipped⟩ := first.starts
    obtain ⟨d, next, _, rest, counted⟩ := further.starts
    have shrinks := (List.dropWhile_suffix (l := others) isPlainBlank).length_le
    have same := rest []
    rw [List.append_nil, List.append_nil, skipBlanks] at same
    rw [same, List.length_cons] at shrinks
    refine ⟨c, more ++ ',' :: others, other, fun rest => ?_, ?_⟩
    · rw [List.append_assoc, skipped, List.append_assoc]
    · rw [List.length_cons, List.length_append, List.length_cons]
      omega

end TypeGrammar

namespace TypeText

/-! ### Labels -/

theorem labelName_skipBlanks (label : Label) (input : List Char) :
    labelName label (skipBlanks input) = labelName label input := by
  simp only [labelName, skipBlanks_skipBlanks]

section Labels

variable {trail rest : List Char} (blank : Blank trail) (ends : AtEnd rest)

include blank ends

theorem labelName_trail (label : Label) : labelName label (trail ++ rest) = .ok (label, rest) := by
  simp only [labelName, skipBlanks_append blank, ends.skipBlanks_eq, ends.wordOf_eq_nil, if_true]

theorem labelName_word {word : List Char} (spelled : Spelling word)
    (notDigit : startsWithDigit word = false) (label : Label) :
    labelName label (word ++ (trail ++ rest)) =
      .ok ({ label with name := some (String.ofList word) }, rest) := by
  have stops := wordOf_blank blank ends.wordOf_eq_nil
  simp [labelName, skipBlanks_word spelled, wordOf_append spelled stops,
    afterWord_append spelled stops, spelled.nonempty, notDigit, labelEnd, skipBlanks_append blank,
    ends.skipBlanks_eq, ends.wordOf_eq_nil]

/-- The text of a label is read up to what ends the parameter. -/
theorem label_of_isLabel {words : List Char} {l : Label} (h : IsLabel words l) :
    label (words ++ (trail ++ rest)) = .ok (l, rest) := by
  have stops := wordOf_blank blank ends.wordOf_eq_nil
  have flag : Spelling "indexed".toList := .of_all rfl (by decide)
  cases h with
  | none =>
    have other : wordOf rest ≠ "indexed".toList := by
      rw [ends.wordOf_eq_nil]
      decide
    have nothing : Blank [] := nofun
    have named := labelName_trail nothing ends {}
    rw [List.nil_append] at named
    rw [List.nil_append, label, skipBlanks_append blank, ends.skipBlanks_eq, if_neg other, named]
  | name gap spelled notDigit notFlag =>
    rw [List.append_assoc, label, skipBlanks_append gap, skipBlanks_word spelled,
      wordOf_append spelled stops, if_neg notFlag, labelName_word blank ends spelled notDigit]
  | flag gap =>
    rw [List.append_assoc, label, skipBlanks_append gap, skipBlanks_word flag,
      wordOf_append flag stops, afterWord_append flag stops, if_pos rfl, labelName_trail blank ends]
  | @flaggedName gap between word blankGap blankBetween some spelled notDigit =>
    have text : gap ++ ("indexed".toList ++ (between ++ word)) ++ (trail ++ rest) =
        gap ++ ("indexed".toList ++ (between ++ (word ++ (trail ++ rest)))) := by
      simp only [List.append_assoc]
    have apart : wordOf (between ++ (word ++ (trail ++ rest))) = [] := by
      cases between with
      | nil => exact absurd rfl some
      | cons c between =>
        exact wordOf_cons_of_not (isWordChar_eq_false (blankBetween c List.mem_cons_self)) _
    rw [text, label, skipBlanks_append blankGap, skipBlanks_word flag, wordOf_append flag apart,
      afterWord_append flag apart, if_pos rfl, ← labelName_skipBlanks,
      skipBlanks_append blankBetween, labelName_skipBlanks,
      labelName_word blank ends spelled notDigit]

end Labels

/-! ### Types -/

/-- A tuple or an elementary name and the suffixes after it. -/
def bare (levels : Nat) : Parse AbiType := fun input => do
  let (t, rest) ← base (parameter levels) input
  suffixes levels t rest

theorem parameter_succ (levels : Nat) (input : List Char) :
    parameter (levels + 1) input = (do
      let (t, rest) ← bare levels (skipBlanks input)
      let (label, rest) ← label rest
      .ok (t.withLabel label, rest)) := by
  rw [parameter, bare]
  cases base (parameter levels) (skipBlanks input) with
  | error e => rfl
  | ok result => rfl

theorem suffixes_suffix {suffix : List Char} {length : ArrayLength} (h : IsSuffix suffix length)
    (room : Nat) (element : AbiType) (rest : List Char) :
    suffixes (room + 1) element (suffix ++ rest) =
      suffixes room (.arrayOf element length) rest := by
  cases h with
  | dynamic => simp [suffixes]
  | @fixed digits some all below =>
    have read := Decimal.readCount?_eq_some_iff.2 ⟨some, all, rfl, below⟩
    have text : '[' :: (digits ++ [']']) ++ rest = '[' :: (digits ++ ']' :: rest) := by simp
    rw [text, suffixes, List.takeWhile_append_of_pos all, List.dropWhile_append_of_pos all]
    simp [some, read]

theorem suffixes_other {input : List Char} (other : ∀ c, input.head? = some c → c ≠ '[')
    (room : Nat) (t : AbiType) : suffixes room t input = .ok (t, input) := by
  unfold suffixes
  split
  · exact absurd rfl (other _ rfl)
  · rfl

/-- The words of a label are no array suffix. -/
theorem suffixes_label {words trail rest : List Char} {l : Label} (h : IsLabel words l)
    (blank : Blank trail) (ends : AtEnd rest) (room : Nat) (t : AbiType) :
    suffixes room t (words ++ (trail ++ rest)) = .ok (t, words ++ (trail ++ rest)) := by
  refine suffixes_other (fun c head => ?_) room t
  have plain {text : List Char} (all : ∀ c ∈ text, isPlainBlank c = true ∨ isWordChar c = true)
      (first : text.head? = some c) : c ≠ '[' := by
    rintro rfl
    obtain bad | bad := all _ (List.mem_of_head? first) <;> cases bad
  rw [List.head?_append, List.head?_append, Option.or_eq_some_iff, Option.or_eq_some_iff] at head
  obtain first | ⟨_, first | ⟨_, first⟩⟩ := head
  · exact plain h.chars first
  · exact plain (fun d member => Or.inl (blank d member)) first
  · obtain rfl | rfl := ends c first <;> decide

theorem base_name {word rest : List Char} (spelled : Spelling word)
    (letter : startsWithLetter word = true) (notTuple : word ≠ "tuple".toList)
    (stops : wordOf rest = []) (component : Parse AbiType) :
    base component (word ++ rest) = .ok (.named (String.ofList word), rest) := by
  have first : (word ++ rest).head? ≠ some '(' := by
    cases word with
    | nil => exact absurd rfl spelled.nonempty
    | cons c word =>
      intro head
      cases head
      cases letter
  simp only [base, first, if_false, wordOf_append spelled stops, afterWord_append spelled stops,
    spelled.nonempty, notTuple, letter, if_true]

theorem base_lead {lead : List Char} (h : IsTupleLead lead) (component : Parse AbiType)
    (input : List Char) :
    base component (lead ++ '(' :: input) = (do
      let (components, rest) ← tupleBody component ('(' :: input)
      .ok (.tuple {} components, rest)) := by
  cases h with
  | nothing => rw [List.nil_append, base, List.head?_cons, if_pos rfl]
  | @word gap blank =>
    have word : Spelling "tuple".toList := .of_all rfl (by decide)
    have stops : wordOf (gap ++ '(' :: input) = [] :=
      wordOf_blank blank (wordOf_cons_of_not (by decide) input)
    have first : ("tuple".toList ++ (gap ++ '(' :: input)).head? ≠ some '(' := by simp
    rw [List.append_assoc, base, if_neg first, wordOf_append word stops, if_neg word.nonempty,
      if_pos rfl, afterWord_append word stops, skipBlanks_append blank, skipBlanks_cons (by decide)]

theorem components_one {component : Parse AbiType} {input rest : List Char} {t : AbiType}
    (read : component input = .ok (t, ')' :: rest)) (fuel : Nat) :
    components component (fuel + 1) input = .ok ([t], rest) := by
  rw [components, read]
  rfl

theorem components_more {component : Parse AbiType} {input rest : List Char} {t : AbiType}
    (read : component input = .ok (t, ',' :: rest)) (fuel : Nat) :
    components component (fuel + 1) input = (do
      let (others, rest) ← components component fuel rest
      .ok (t :: others, rest)) := by
  rw [components, read]
  rfl

theorem components_skipBlanks (levels fuel : Nat) (input : List Char) :
    components (parameter levels) (fuel + 1) (skipBlanks input) =
      components (parameter levels) (fuel + 1) input := by
  have same : parameter levels (skipBlanks input) = parameter levels input := by
    cases levels <;> simp only [parameter, skipBlanks_skipBlanks]
  rw [components, components, same]

theorem tupleBody_cons {component : Parse AbiType} {input : List Char} {c : Char}
    {rest : List Char} (starts : skipBlanks input = c :: rest) (other : c ≠ ')') :
    tupleBody component ('(' :: input) =
      components component ((c :: rest).length + 1) (c :: rest) := by
  rw [tupleBody, starts]
  split
  · next same => exact absurd (List.cons.inj same).1 other
  · rfl

mutual

/-- The reader takes the text of a type, and goes on with the suffixes after it. -/
theorem bare_of_isType : ∀ {text : List Char} {t : AbiType}, IsType text t →
    ∀ {levels : Nat} {rest : List Char}, t.levels ≤ levels + 1 → Apart text rest →
      bare levels (text ++ rest) = suffixes (levels - t.suffixCount) t rest
  | _, _, .name spelled letter notTuple, levels, rest, _, apart => by
    rw [bare, base_name spelled letter notTuple (apart.wordOf_eq_nil spelled)]
    rfl
  | _, _, @IsType.tuple _ body types lead list, levels, rest, enough, _ => by
    have room : AbiType.levelsOf types ≤ levels := Nat.le_of_succ_le_succ enough
    have text : ('(' :: (body ++ [')'])) ++ rest = '(' :: (body ++ ')' :: rest) := by simp
    rw [List.append_assoc, text, bare, base_lead lead, tupleBody_of_isList list room]
    rfl
  | _, _, @IsType.array _ _ t _ inner suffix, levels, rest, enough, _ => by
    have room : t.suffixCount + 2 ≤ levels + 1 := Nat.le_trans (Nat.le_max_right _ _) enough
    have own : t.levels ≤ levels + 1 := Nat.le_trans (Nat.le_max_left _ _) enough
    -- The suffixes of the element have taken their levels, and one is left for this one.
    have left : levels - t.suffixCount = levels - (t.suffixCount + 1) + 1 := by omega
    rw [List.append_assoc, bare_of_isType inner own (suffix.apart _ rest), left,
      suffixes_suffix suffix]
    rfl

theorem parameter_of_isParameter : ∀ {text : List Char} {t : AbiType}, IsParameter text t →
    ∀ {levels : Nat} {rest : List Char}, t.levels ≤ levels → AtEnd rest →
      parameter levels (text ++ rest) = .ok (t, rest)
  | _, _, @IsParameter.intro _ _ _ _ t _ _ _ _ _ _, 0, _, enough, _ => by
    rw [AbiType.levels_withLabel] at enough
    exact absurd (Nat.le_trans t.one_le_levels enough) (Nat.not_succ_le_zero 0)
  | _, _, .intro lead inner words apart trail, levels + 1, rest, enough, ends => by
    rw [AbiType.levels_withLabel] at enough
    have stops := wordOf_blank trail ends.wordOf_eq_nil
    simp only [List.append_assoc]
    rw [parameter_succ, skipBlanks_append lead, inner.skipBlanks_eq,
      bare_of_isType inner enough (apart.append stops), suffixes_label words trail ends]
    change (label _ >>= _) = _
    rw [label_of_isLabel trail ends words]
    rfl

theorem components_of_isParameters : ∀ {text : List Char} {types : List AbiType},
    IsParameters text types → ∀ {levels fuel : Nat} {rest : List Char},
      AbiType.levelsOf types ≤ levels → types.length ≤ fuel →
      components (parameter levels) fuel (text ++ ')' :: rest) = .ok (types, rest)
  | _, _, .one only, levels, fuel + 1, rest, enough, _ =>
    components_one (parameter_of_isParameter only (Nat.le_trans (Nat.le_max_left _ _) enough)
      (.closing rest)) fuel
  | _, _, @IsParameters.more _ others _ _ first more, levels, fuel + 1, rest, enough,
      fueled => by
    have own := parameter_of_isParameter first (Nat.le_trans (Nat.le_max_left _ _) enough)
      (.comma (others ++ ')' :: rest))
    rw [List.append_assoc, List.cons_append, components_more own,
      components_of_isParameters more (Nat.le_trans (Nat.le_max_right _ _) enough)
        (Nat.le_of_succ_le_succ fueled)]
    rfl

theorem tupleBody_of_isList : ∀ {body : List Char} {types : List AbiType}, IsList body types →
    ∀ {levels : Nat} {rest : List Char}, AbiType.levelsOf types ≤ levels →
      tupleBody (parameter levels) ('(' :: (body ++ ')' :: rest)) = .ok (types, rest)
  | _, _, .empty blank, levels, rest, _ => by
    rw [tupleBody, skipBlanks_append blank, skipBlanks_cons (by decide)]
    rfl
  | body, types, .parameters list, levels, rest, enough => by
    obtain ⟨c, more, other, skipped, counted⟩ := list.starts
    have fuel : types.length ≤ (c :: (more ++ ')' :: rest)).length + 1 := by
      rw [List.length_cons, List.length_append]
      omega
    rw [tupleBody_cons (skipped _) other, ← skipped, components_skipBlanks, skipped]
    exact components_of_isParameters list enough fuel

end

end TypeText

end AbiCodec
