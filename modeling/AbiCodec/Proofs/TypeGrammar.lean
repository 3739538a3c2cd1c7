import AbiCodec.Proofs.TypeTree
import Mathlib.Data.List.DropRight

/-!
# The grammar of type texts

The grammar says which texts stand for which types, apart from the reader of
types. A parameter is a type and a label. A type is a name or a list of
parameters in parentheses, and array suffixes behind it. Blanks may stand before
a type, before a word of its label and before what ends the parameter; two words
need a blank between them, since a word goes on as far as it can.

The reader takes exactly these texts, as far as they do not nest too deep: it
counts for each type the tuples around it and the array suffixes behind it.
-/

namespace AbiCodec

open TypeText

/-- A word of the characters of names. -/
structure Spelling (word : List Char) : Prop where
  chars : ∀ c ∈ word, isWordChar c = true
  nonempty : word ≠ []

theorem Spelling.of_all {word : List Char} (all : word.all isWordChar = true)
    (nonempty : word ≠ []) : Spelling word :=
  ⟨List.all_eq_true.1 all, nonempty⟩

namespace TypeGrammar

/-- A run of plain blanks, maybe of none. -/
def Blank (text : List Char) : Prop := ∀ c ∈ text, isPlainBlank c = true

/-- No word at the end of the first text goes on in the second. -/
def Apart (text more : List Char) : Prop :=
  ∀ c d, text.getLast? = some c → more.head? = some d → isWordChar c = true → isWordChar d = false

/-- The texts of the label after a type: a first word `indexed` is the flag, and a name does not
start with a digit. -/
inductive IsLabel : List Char → Label → Prop where
  | none : IsLabel [] {}
  | name {gap word : List Char} : Blank gap → Spelling word → startsWithDigit word = false →
      word ≠ "indexed".toList → IsLabel (gap ++ word) { name := some (String.ofList word) }
  | flag {gap : List Char} : Blank gap → IsLabel (gap ++ "indexed".toList) { indexed := some true }
  | flaggedName {gap between word : List Char} : Blank gap → Blank between → between ≠ [] →
      Spelling word → startsWithDigit word = false →
      IsLabel (gap ++ ("indexed".toList ++ (between ++ word)))
        { name := some (String.ofList word), indexed := some true }

/-- The suffixes of array types. -/
inductive IsSuffix : List Char → ArrayLength → Prop where
  | dynamic : IsSuffix ['[', ']'] .dynamic
  | fixed {digits : List Char} : digits ≠ [] → (∀ c ∈ digits, c.isDigit = true) →
      Nat.ofDigitChars 10 digits 0 < countLimit →
      IsSuffix ('[' :: (digits ++ [']'])) (.fixed (Nat.ofDigitChars 10 digits 0))

/-- What may stand before the parenthesis of a tuple. -/
inductive IsTupleLead : List Char → Prop where
  | nothing : IsTupleLead []
  | word {gap : List Char} : Blank gap → IsTupleLead ("tuple".toList ++ gap)

mutual

/-- The texts of types without a label. -/
inductive IsType : List Char → AbiType → Prop where
  | name {word : List Char} : Spelling word → startsWithLetter word = true →
      word ≠ "tuple".toList → IsType word (.named (String.ofList word))
  | tuple {lead body : List Char} {types : List AbiType} : IsTupleLead lead → IsList body types →
      IsType (lead ++ '(' :: (body ++ [')'])) (.tuple {} types)
  | array {text suffix : List Char} {t : AbiType} {length : ArrayLength} : IsType text t →
      IsSuffix suffix length → IsType (text ++ suffix) (.arrayOf t length)

/-- The texts of a type with its label, up to what ends a parameter. -/
inductive IsParameter : List Char → AbiType → Prop where
  | intro {lead text words trail : List Char} {t : AbiType} {label : Label} : Blank lead →
      IsType text t → IsLabel words label → Apart text words → Blank trail →
      IsParameter (lead ++ (text ++ (words ++ trail))) (t.withLabel label)

/-- The texts between the parentheses of a tuple. -/
inductive IsList : List Char → List AbiType → Prop where
  | empty {gap : List Char} : Blank gap → IsList gap []
  | parameters {text : List Char} {types : List AbiType} : IsParameters text types →
      IsList text types

/-- The texts of parameters with commas between them. -/
inductive IsParameters : List Char → List AbiType → Prop where
  | one {text : List Char} {t : AbiType} : IsParameter text t → IsParameters text [t]
  | more {text rest : List Char} {t : AbiType} {types : List AbiType} : IsParameter text t →
      IsParameters rest types → IsParameters (text ++ ',' :: rest) (t :: types)

end

end TypeGrammar

namespace AbiType

/-- The array suffixes at the end of the text. -/
def suffixCount : AbiType → Nat
  | .array _ element _ => element.suffixCount + 1
  | _ => 0

mutual

/-- With so many tuples around the type, no type in it has more tuples around it and suffixes
behind it together than the limit. -/
def WithinLimit : (tuples : Nat) → AbiType → Prop
  | tuples, .array _ element _ =>
    tuples + (element.suffixCount + 1) ≤ maxDepth ∧ element.WithinLimit tuples
  | tuples, .tuple _ components => tuples ≤ maxDepth ∧ AllWithinLimit (tuples + 1) components
  | tuples, _ => tuples ≤ maxDepth

def AllWithinLimit : (tuples : Nat) → List AbiType → Prop
  | _, [] => True
  | tuples, t :: rest => t.WithinLimit tuples ∧ AllWithinLimit tuples rest

end

mutual

/-- The levels that the reader of types needs for the text. -/
def levels : AbiType → Nat
  | .array _ element _ => max element.levels (element.suffixCount + 2)
  | .tuple _ components => levelsOf components + 1
  | _ => 1

def levelsOf : List AbiType → Nat
  | [] => 0
  | t :: rest => max t.levels (levelsOf rest)

end

theorem one_le_levels (t : AbiType) : 1 ≤ t.levels := by
  induction t with
  | array label element length ih => exact Nat.le_trans ih (Nat.le_max_left _ _)
  | tuple label components _ => exact Nat.le_add_left 1 _
  | _ => exact Nat.le_refl 1

theorem levels_le_levelsOf {types : List AbiType} {t : AbiType} (member : t ∈ types) :
    t.levels ≤ levelsOf types := by
  induction types with
  | nil => cases member
  | cons first types ih =>
    rcases List.mem_cons.1 member with rfl | member
    · exact Nat.le_max_left _ _
    · exact Nat.le_trans (ih member) (Nat.le_max_right _ _)

theorem levels_withLabel (label : Label) (t : AbiType) : (t.withLabel label).levels = t.levels := by
  cases t <;> simp only [withLabel, levels]

theorem allWithinLimit_iff {tuples : Nat} (within : tuples ≤ maxDepth + 1) {types : List AbiType}
    (each : ∀ t ∈ types, t.WithinLimit tuples ↔ tuples + t.levels ≤ maxDepth + 1) :
    AllWithinLimit tuples types ↔ tuples + levelsOf types ≤ maxDepth + 1 := by
  induction types with
  | nil => simpa [AllWithinLimit, levelsOf] using within
  | cons t types ih =>
    rcases List.forall_mem_cons.1 each with ⟨own, others⟩
    rw [AllWithinLimit, levelsOf, own, ih others]
    omega

/-- The limit leaves one level more than its own number, for the outermost type. -/
theorem withinLimit_iff (tuples : Nat) (t : AbiType) :
    t.WithinLimit tuples ↔ tuples + t.levels ≤ maxDepth + 1 := by
  induction t generalizing tuples with
  | elementary label name => simp [WithinLimit, levels]
  | empty label => simp [WithinLimit, levels]
  | array label element length ih =>
    rw [WithinLimit, levels, ih]
    omega
  | tuple label components ih =>
    rw [WithinLimit, levels]
    constructor
    · rintro ⟨within, each⟩
      have all := (allWithinLimit_iff (Nat.succ_le_succ within) fun t member =>
        ih t member (tuples + 1)).1 each
      omega
    · intro enough
      have within : tuples + 1 ≤ maxDepth + 1 := by omega
      refine ⟨Nat.le_of_succ_le_succ within, (allWithinLimit_iff within fun t member =>
        ih t member (tuples + 1)).2 ?_⟩
      omega

end AbiType

end AbiCodec
