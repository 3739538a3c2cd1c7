import AbiCodec.AbiType.Schema
import AbiCodec.Proofs.ParsedText

/-!
# Array suffixes

The array suffixes behind a tuple are read in two places: behind the closing
parenthesis in the text of a type, and behind the word `tuple` in a parameter
object. Both readers take a sequence of suffixes and build the levels from the
innermost one outwards. The reader of objects takes a plus sign before a length,
which the grammar of types has not, and nothing else sets the two apart.
-/

namespace AbiCodec

/-- Array types over the type; the first length is that of the innermost level. -/
def AbiType.arraysOf (t : AbiType) (lengths : List ArrayLength) : AbiType :=
  lengths.foldl AbiType.arrayOf t

namespace TypeGrammar

/-- The suffixes that an object may have: a plus sign may stand before a length. -/
inductive IsPlusSuffix : List Char → ArrayLength → Prop where
  | plain {suffix : List Char} {length : ArrayLength} : IsSuffix suffix length →
      IsPlusSuffix suffix length
  | plus {digits : List Char} {count : Nat} : IsSuffix ('[' :: (digits ++ [']'])) (.fixed count) →
      IsPlusSuffix ('[' :: '+' :: (digits ++ [']'])) (.fixed count)

/-- Texts of suffixes one behind the other, with their lengths. -/
inductive Suffixes (isSuffix : List Char → ArrayLength → Prop) :
    List Char → List ArrayLength → Prop where
  | none : Suffixes isSuffix [] []
  | more {suffix rest : List Char} {length : ArrayLength} {lengths : List ArrayLength} :
      isSuffix suffix length → Suffixes isSuffix rest lengths →
      Suffixes isSuffix (suffix ++ rest) (length :: lengths)

theorem IsSuffix.ne_nil {suffix : List Char} {length : ArrayLength} (h : IsSuffix suffix length) :
    suffix ≠ [] := by
  cases h <;> exact List.cons_ne_nil _ _

theorem IsPlusSuffix.ne_nil {suffix : List Char} {length : ArrayLength}
    (h : IsPlusSuffix suffix length) : suffix ≠ [] := by
  cases h with
  | plain own => exact own.ne_nil
  | plus _ => exact List.cons_ne_nil _ _

/-! ### Plus signs -/

theorem IsSuffix.no_plus {suffix : List Char} {length : ArrayLength} (h : IsSuffix suffix length) :
    '+' ∉ suffix := by
  cases h with
  | dynamic => decide
  | fixed _ all _ =>
    intro plus
    rcases List.mem_cons.1 plus with bad | inside
    · cases bad
    · rcases List.mem_append.1 inside with digit | closing
      · cases all _ digit
      · cases List.mem_singleton.1 closing

theorem isSuffix_iff_no_plus {suffix : List Char} {length : ArrayLength} :
    IsSuffix suffix length ↔ IsPlusSuffix suffix length ∧ '+' ∉ suffix := by
  constructor
  · intro own
    exact ⟨.plain own, own.no_plus⟩
  · rintro ⟨own, noPlus⟩
    cases own with
    | plain own => exact own
    | plus _ => exact absurd (List.mem_cons_of_mem _ List.mem_cons_self) noPlus

/-- The suffixes of the grammar are those of objects without a plus sign. -/
theorem suffixes_iff_no_plus {text : List Char} {lengths : List ArrayLength} :
    Suffixes IsSuffix text lengths ↔ Suffixes IsPlusSuffix text lengths ∧ '+' ∉ text := by
  constructor
  · intro own
    induction own with
    | none => exact ⟨.none, List.not_mem_nil⟩
    | more first _ ih =>
      exact ⟨.more (.plain first) ih.1, List.not_mem_append first.no_plus ih.2⟩
  · rintro ⟨own, noPlus⟩
    induction own with
    | none => exact .none
    | more first _ ih =>
      rw [List.mem_append, not_or] at noPlus
      exact .more (isSuffix_iff_no_plus.2 ⟨first, noPlus.1⟩) (ih noPlus.2)

end TypeGrammar

open TypeGrammar

/-! ### The reader of types -/

theorem TypeText.suffixes_eq_ok_iff {room : Nat} {t u : AbiType} {text : List Char} :
    suffixes room t text = .ok (u, []) ↔
      ∃ lengths, Suffixes IsSuffix text lengths ∧ lengths.length ≤ room ∧
        u = t.arraysOf lengths := by
  constructor
  · intro read
    induction room generalizing t text with
    | zero =>
      rcases suffixes_eq_ok read with ⟨rfl, rfl⟩ | ⟨_, _, _, _, none, _⟩
      · exact ⟨[], .none, Nat.le_refl 0, rfl⟩
      · cases none
    | succ room ih =>
      rcases suffixes_eq_ok read with ⟨rfl, rfl⟩ | ⟨further, suffix, length, after, same, first,
        rfl, read⟩
      · exact ⟨[], .none, Nat.zero_le _, rfl⟩
      · obtain rfl : room = further := Nat.succ.inj same
        obtain ⟨lengths, others, within, rfl⟩ := ih read
        exact ⟨length :: lengths, .more first others, Nat.succ_le_succ within, rfl⟩
  · rintro ⟨lengths, own, within, rfl⟩
    induction own generalizing room t with
    | none => exact suffixes_other (by simp) room t
    | @more suffix rest length lengths first _ ih =>
      obtain ⟨further, rfl⟩ : ∃ further, room = further + 1 :=
        Nat.exists_eq_succ_of_ne_zero (Nat.ne_of_gt (Nat.lt_of_lt_of_le (Nat.succ_pos _) within))
      rw [suffixes_suffix first]
      exact ih (Nat.le_of_succ_le_succ within)

/-! ### The reader of objects -/

theorem Decimal.readPlusCount?_digits {digits : List Char} (all : ∀ c ∈ digits, c.isDigit = true) :
    readPlusCount? digits = readCount? digits := by
  unfold readPlusCount?
  split
  · cases all '+' List.mem_cons_self
  · rfl

/-- What stands between the brackets is nothing, or a count with a plus sign or none. -/
theorem TypeGrammar.isPlusSuffix_iff {suffix : List Char} {length : ArrayLength} :
    IsPlusSuffix suffix length ↔
      ∃ inner, suffix = '[' :: (inner ++ [']']) ∧ ']' ∉ inner ∧
        ((inner = [] ∧ length = .dynamic) ∨
          ∃ n, Decimal.readPlusCount? inner = some n ∧ length = .fixed n) := by
  have closed {digits : List Char} (all : ∀ c ∈ digits, c.isDigit = true) : ']' ∉ digits :=
    fun member => by cases all _ member
  constructor
  · intro own
    cases own with
    | plain own =>
      cases own with
      | dynamic => exact ⟨[], rfl, List.not_mem_nil, Or.inl ⟨rfl, rfl⟩⟩
      | @fixed digits some all below =>
        refine ⟨digits, rfl, closed all, Or.inr ⟨_, ?_, rfl⟩⟩
        rw [Decimal.readPlusCount?_digits all]
        exact Decimal.readCount?_eq_some_iff.2 ⟨some, all, rfl, below⟩
    | @plus digits _ own =>
      generalize text : '[' :: (digits ++ [']']) = suffix at own
      cases own with
      | @fixed others some all below =>
        obtain rfl := List.append_cancel_right (List.cons.inj text).2
        refine ⟨'+' :: digits, rfl, ?_, Or.inr ⟨_, ?_, rfl⟩⟩
        · rw [List.mem_cons, not_or]
          exact ⟨by decide, closed all⟩
        · exact Decimal.readCount?_eq_some_iff.2 ⟨some, all, rfl, below⟩
  · rintro ⟨inner, rfl, _, ⟨rfl, rfl⟩ | ⟨n, counted, rfl⟩⟩
    · exact .plain .dynamic
    · rw [Decimal.readPlusCount?.eq_def] at counted
      split at counted
      · obtain ⟨some, all, rfl, below⟩ := Decimal.readCount?_eq_some_iff.1 counted
        exact .plus (.fixed some all below)
      · obtain ⟨some, all, rfl, below⟩ := Decimal.readCount?_eq_some_iff.1 counted
        exact .plain (.fixed some all below)

namespace ParameterObject

theorem applySuffixes_suffix {suffix : List Char} {length : ArrayLength}
    (h : IsPlusSuffix suffix length) (fuel : Nat) (t : AbiType) (rest : List Char) :
    applySuffixes (fuel + 1) t (suffix ++ rest) = applySuffixes fuel (.arrayOf t length) rest := by
  obtain ⟨inner, rfl, closed, read⟩ := isPlusSuffix_iff.1 h
  have other : ∀ c ∈ inner, decide (c ≠ ']') = true := by
    intro c member
    rw [decide_eq_true_eq]
    rintro rfl
    exact closed member
  have text : '[' :: (inner ++ [']']) ++ rest = '[' :: (inner ++ ']' :: rest) := by simp
  rw [text, applySuffixes, List.takeWhile_append_of_pos other, List.dropWhile_append_of_pos other]
  rcases read with ⟨rfl, rfl⟩ | ⟨n, counted, rfl⟩
  · simp
  · have some : inner ≠ [] := by
      rintro rfl
      cases counted
    simp [some, counted]

/-- The type is left as it is, or one suffix makes it the element of an array. -/
theorem applySuffixes_eq_ok {fuel : Nat} {t u : AbiType} {text : List Char}
    (read : applySuffixes fuel t text = .ok u) :
    (text = [] ∧ u = t) ∨ ∃ less suffix length rest, fuel = less + 1 ∧ IsPlusSuffix suffix length ∧
      text = suffix ++ rest ∧ applySuffixes less (.arrayOf t length) rest = .ok u := by
  rw [applySuffixes.eq_def] at read
  split at read
  · cases read
    exact Or.inl ⟨rfl, rfl⟩
  · next less input =>
    have front := List.takeWhile_append_dropWhile (p := (· ≠ ']')) (l := input)
    have closed : ']' ∉ input.takeWhile (· ≠ ']') := fun member => by
      simpa using List.mem_takeWhile_imp member
    dsimp only at read
    split at read
    · next rest closing =>
      rw [closing] at front
      have text : '[' :: input = '[' :: (input.takeWhile (· ≠ ']') ++ [']']) ++ rest := by
        rw [List.cons_append, List.append_assoc, List.singleton_append, front]
      split at read
      · next none =>
        exact Or.inr ⟨less, _, .dynamic, rest, rfl,
          isPlusSuffix_iff.2 ⟨_, rfl, closed, Or.inl ⟨none, rfl⟩⟩, text, read⟩
      · split at read
        · next n counted =>
          exact Or.inr ⟨less, _, .fixed n, rest, rfl,
            isPlusSuffix_iff.2 ⟨_, rfl, closed, Or.inr ⟨n, counted, rfl⟩⟩, text, read⟩
        · cases read
    · cases read
  · cases read

theorem applySuffixes_eq_ok_iff {fuel : Nat} {t u : AbiType} {text : List Char}
    (enough : text.length ≤ fuel) : applySuffixes fuel t text = .ok u ↔
      ∃ lengths, Suffixes IsPlusSuffix text lengths ∧ u = t.arraysOf lengths := by
  constructor
  · intro read
    clear enough
    induction fuel generalizing t text with
    | zero =>
      rcases applySuffixes_eq_ok read with ⟨rfl, rfl⟩ | ⟨_, _, _, _, none, _⟩
      · exact ⟨[], .none, rfl⟩
      · cases none
    | succ fuel ih =>
      rcases applySuffixes_eq_ok read with ⟨rfl, rfl⟩ | ⟨less, suffix, length, rest, same, first,
        rfl, read⟩
      · exact ⟨[], .none, rfl⟩
      · obtain rfl : fuel = less := Nat.succ.inj same
        obtain ⟨lengths, others, rfl⟩ := ih read
        exact ⟨length :: lengths, .more first others, rfl⟩
  · rintro ⟨lengths, own, rfl⟩
    induction own generalizing fuel t with
    | none => rw [applySuffixes]; rfl
    | @more suffix rest length lengths first _ ih =>
      have counted := List.length_pos_iff.2 first.ne_nil
      rw [List.length_append] at enough
      obtain ⟨less, rfl⟩ : ∃ less, fuel = less + 1 :=
        Nat.exists_eq_succ_of_ne_zero (by omega)
      rw [applySuffixes_suffix first]
      exact ih (by omega)

theorem toType_tuple (name suffix : String) (components : List ParameterObject)
    (indexed : Option Bool) :
    toType ⟨name, "tuple" ++ suffix, some components, indexed⟩ = (do
      let types ← toTypes components
      let t ← tupleType ("tuple" ++ suffix) suffix.toList types
      .ok (t.withLabel (labelOf name indexed))) := by
  have lead : dropLead? "tuple".toList ("tuple" ++ suffix).toList = some suffix.toList := by
    rw [String.toList_append, dropLead?_append]
  rw [toType, lead]

theorem tupleType_eq_ok_iff {typeText : String} {suffix : List Char} {types : List AbiType}
    {t : AbiType} : tupleType typeText suffix types = .ok t ↔
      ∃ lengths, Suffixes IsPlusSuffix suffix lengths ∧
        t = (AbiType.tuple {} types).arraysOf lengths := by
  rw [← applySuffixes_eq_ok_iff (Nat.le_refl _), tupleType]
  cases applySuffixes suffix.length (.tuple {} types) suffix with
  | error e => exact ⟨nofun, nofun⟩
  | ok u => simp [Except.mapError]

theorem toType_tuple_eq_ok_iff {name suffix : String} {components : List ParameterObject}
    {indexed : Option Bool} {t : AbiType} :
    toType ⟨name, "tuple" ++ suffix, some components, indexed⟩ = .ok t ↔
      ∃ types lengths, toTypes components = .ok types ∧
        Suffixes IsPlusSuffix suffix.toList lengths ∧
        t = ((AbiType.tuple {} types).arraysOf lengths).withLabel (labelOf name indexed) := by
  rw [toType_tuple]
  constructor
  · intro read
    obtain ⟨types, inner, read⟩ := exists_of_bind_eq_ok read
    obtain ⟨u, array, read⟩ := exists_of_bind_eq_ok read
    obtain ⟨lengths, own, rfl⟩ := tupleType_eq_ok_iff.1 array
    cases read
    exact ⟨types, lengths, inner, own, rfl⟩
  · rintro ⟨types, lengths, inner, own, rfl⟩
    rw [inner]
    change tupleType _ _ _ >>= _ = _
    rw [tupleType_eq_ok_iff.2 ⟨lengths, own, rfl⟩]
    rfl

/-- The object of a tuple is taken exactly when its components are and a sequence of suffixes
follows the word. Without a plus sign these are the suffixes of the grammar, which the reader of
types takes as far as it has room for them. Both build the levels from the innermost outwards. -/
theorem tuple_suffixes_taken (name suffix : String) (components : List ParameterObject)
    (indexed : Option Bool) (t : AbiType) :
    (toType ⟨name, "tuple" ++ suffix, some components, indexed⟩ = .ok t ↔
      ∃ types lengths, toTypes components = .ok types ∧
        Suffixes IsPlusSuffix suffix.toList lengths ∧
        t = ((AbiType.tuple {} types).arraysOf lengths).withLabel (labelOf name indexed)) ∧
    (toType ⟨name, "tuple" ++ suffix, some components, indexed⟩ = .ok t ∧ '+' ∉ suffix.toList ↔
      ∃ types lengths, toTypes components = .ok types ∧ Suffixes IsSuffix suffix.toList lengths ∧
        t = ((AbiType.tuple {} types).arraysOf lengths).withLabel (labelOf name indexed)) ∧
    ∀ room types u, TypeText.suffixes room (.tuple {} types) suffix.toList = .ok (u, []) ↔
      ∃ lengths, Suffixes IsSuffix suffix.toList lengths ∧ lengths.length ≤ room ∧
        u = (AbiType.tuple {} types).arraysOf lengths := by
  refine ⟨toType_tuple_eq_ok_iff, ?_, fun _ _ _ => TypeText.suffixes_eq_ok_iff⟩
  rw [toType_tuple_eq_ok_iff]
  constructor
  · rintro ⟨⟨types, lengths, inner, own, rfl⟩, noPlus⟩
    exact ⟨types, lengths, inner, suffixes_iff_no_plus.2 ⟨own, noPlus⟩, rfl⟩
  · rintro ⟨types, lengths, inner, own, rfl⟩
    obtain ⟨taken, noPlus⟩ := suffixes_iff_no_plus.1 own
    exact ⟨⟨types, lengths, inner, taken, rfl⟩, noPlus⟩

/-- A length with a plus sign is taken behind the word `tuple`, and is no suffix of the grammar. -/
theorem plus_sign_taken :
    toType ⟨"", "tuple" ++ "[+3]", some [], none⟩ = .ok (.array {} (.tuple {} []) (.fixed 3)) ∧
      (∀ lengths, ¬ Suffixes IsSuffix "[+3]".toList lengths) ∧
      ∀ room, (TypeText.suffixes room (.tuple {} []) "[+3]".toList).isOk = false := by
  refine ⟨?_, fun lengths own => (suffixes_iff_no_plus.1 own).2 (by decide), fun room => ?_⟩
  · have digit : ∀ c ∈ ['3'], c.isDigit = true := List.forall_mem_singleton.2 rfl
    have three : IsSuffix ('[' :: (['3'] ++ [']'])) (.fixed 3) := .fixed nofun digit (by decide)
    exact toType_tuple_eq_ok_iff.2 ⟨[], [.fixed 3], rfl, .more (IsPlusSuffix.plus three) .none, rfl⟩
  · cases room <;> rfl

end ParameterObject

end AbiCodec
