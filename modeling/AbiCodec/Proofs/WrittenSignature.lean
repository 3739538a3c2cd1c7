import AbiCodec.Contract.Signature
import AbiCodec.Proofs.PrintedType
import AbiCodec.Proofs.ValueText

/-!
# Written signatures

A written signature is a name, a list of parameters in parentheses and what
follows it; a keyword and white space may stand before the name. The reader of
signatures cuts the text at the parenthesis that closes the first one, and the
texts of the grammar of types close what they open, so it cuts a list of types
where the list ends.
-/

namespace AbiCodec

open TypeText TypeGrammar

/-! ### Parentheses -/

namespace Signature

/-- The text closes so many parentheses that stand open before it, and each one that it opens. -/
inductive Closes : (depth : Nat) → List Char → Prop where
  | nil : Closes 0 []
  | opening {depth : Nat} {rest : List Char} : Closes (depth + 1) rest → Closes depth ('(' :: rest)
  | closing {depth : Nat} {rest : List Char} : Closes depth rest → Closes (depth + 1) (')' :: rest)
  | other {depth : Nat} {c : Char} {rest : List Char} : c ≠ '(' → c ≠ ')' → Closes depth rest →
      Closes depth (c :: rest)

theorem Closes.append {depth more : Nat} {text rest : List Char} (first : Closes depth text)
    (second : Closes more rest) : Closes (depth + more) (text ++ rest) := by
  induction first with
  | nil => rwa [Nat.zero_add]
  | opening _ ih =>
    rw [Nat.add_right_comm] at ih
    exact .opening ih
  | closing _ ih =>
    rw [Nat.add_right_comm]
    exact .closing ih
  | other notOpening notClosing _ ih => exact .other notOpening notClosing ih

/-- A text without parentheses closes none. -/
theorem closes_of_plain {text : List Char} (plain : ∀ c ∈ text, c ≠ '(' ∧ c ≠ ')') :
    Closes 0 text := by
  induction text with
  | nil => exact .nil
  | cons c text ih =>
    rcases List.forall_mem_cons.1 plain with ⟨⟨notOpening, notClosing⟩, others⟩
    exact .other notOpening notClosing (ih others)

/-- A text that closes what it opens does so in parentheses too. -/
theorem Closes.parenthesized {text : List Char} (closes : Closes 0 text) :
    Closes 0 ('(' :: (text ++ [')'])) :=
  .opening (closes.append (.closing .nil))

end Signature

namespace TypeGrammar

open Signature (Closes closes_of_plain)

theorem ne_parentheses {c : Char} (solid : isPlainBlank c = true ∨ isWordChar c = true) :
    c ≠ '(' ∧ c ≠ ')' := by
  constructor <;> rintro rfl <;> exact absurd solid (by decide)

theorem Blank.closes {text : List Char} (blank : Blank text) : Closes 0 text :=
  closes_of_plain fun c member => ne_parentheses (Or.inl (blank c member))

theorem closes_of_spelling {word : List Char} (spelled : Spelling word) : Closes 0 word :=
  closes_of_plain fun c member => ne_parentheses (Or.inr (spelled.chars c member))

theorem IsTupleLead.closes {lead : List Char} (h : IsTupleLead lead) : Closes 0 lead := by
  cases h with
  | nothing => exact .nil
  | word blank =>
    have word : Spelling "tuple".toList := .of_all rfl (by decide)
    exact (closes_of_spelling word).append blank.closes

theorem IsSuffix.closes {suffix : List Char} {length : ArrayLength} (h : IsSuffix suffix length) :
    Closes 0 suffix := by
  have bracket (c : Char) (member : c ∈ ['[', ']']) : c ≠ '(' ∧ c ≠ ')' := by
    rw [List.mem_pair] at member
    obtain rfl | rfl := member <;> decide
  apply closes_of_plain
  cases h with
  | dynamic => exact bracket
  | @fixed digits _ all _ =>
    rw [List.forall_mem_cons, List.forall_mem_append]
    refine ⟨bracket _ List.mem_cons_self, fun c member => ?_, fun c member => bracket c ?_⟩
    · constructor <;> rintro rfl <;> exact absurd (all _ member) (by decide)
    · exact List.mem_cons_of_mem _ member

mutual

/-- The texts of types close what they open. -/
theorem IsType.closes : ∀ {text : List Char} {t : AbiType}, IsType text t → Closes 0 text
  | _, _, .name spelled _ _ => closes_of_spelling spelled
  | _, _, .tuple lead list => lead.closes.append list.closes.parenthesized
  | _, _, .array inner suffix => inner.closes.append suffix.closes

theorem IsParameter.closes : ∀ {text : List Char} {t : AbiType}, IsParameter text t →
    Closes 0 text
  | _, _, .intro lead type label _ trail =>
    have words := closes_of_plain fun c member => ne_parentheses (label.chars c member)
    lead.closes.append (type.closes.append (words.append trail.closes))

theorem IsList.closes : ∀ {text : List Char} {types : List AbiType}, IsList text types →
    Closes 0 text
  | _, _, .empty blank => blank.closes
  | _, _, .parameters list => list.closes

theorem IsParameters.closes : ∀ {text : List Char} {types : List AbiType},
    IsParameters text types → Closes 0 text
  | _, _, .one only => only.closes
  | _, _, .more first further =>
    first.closes.append (.other (by decide) (by decide) further.closes)

end

end TypeGrammar

/-! ### The parts of a written signature -/

namespace Signature

/-- A run of white space, maybe of none. -/
def White (text : List Char) : Prop := ∀ c ∈ text, isWhiteSpace c = true

/-- The text of the parts of a signature; white space may stand before the parenthesis. -/
def written (name gap list rest : List Char) : List Char :=
  name ++ (gap ++ '(' :: (list ++ ')' :: rest))

/-- The text is a signature of these parts. A keyword may stand before the name, with white space
after it: a name that is the keyword stands right before the parenthesis, or has the keyword
before it. -/
inductive IsWritten (keyword : List Char) : (source name list rest : List Char) → Prop where
  | plain {name gap list rest : List Char} : Spelling name → White gap →
      (name = keyword → gap = []) → Closes 0 list →
      IsWritten keyword (written name gap list rest) name list rest
  | marked {between name gap list rest : List Char} : White between → between ≠ [] →
      Spelling name → White gap → Closes 0 list →
      IsWritten keyword (keyword ++ (between ++ written name gap list rest)) name list rest

section Parts

variable {name gap list rest : List Char} (spelled : Spelling name) (white : White gap)

include spelled

include white

end Parts

section Split

variable {text keyword : String} {parts : SignatureParts}

end Split

end Signature

end AbiCodec
