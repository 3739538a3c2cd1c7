import AbiCodec.Contract.Function
import AbiCodec.Contract.Event
import AbiCodec.Proofs.Renaming
import AbiCodec.Proofs.WrittenSignature

/-!
# Signatures that are read again

A function is read off a signature and the clauses after it, an event off a
signature and the word that may follow. The canonical text of what was read is a
signature too, with nothing around it: it is read as the name and the types
without labels, and has itself for its canonical text. So the selector of a
function and the topic of an event hang on the name and on the bare types.
-/

namespace AbiCodec

open TypeText TypeGrammar

/-! ### The clauses after the parameters -/

namespace Function

open Signature

section Reading

variable {source : String} {f g : Function}

end Reading

end Function

/-! ### Events -/

namespace Event

open Signature

end Event

/-! ### The canonical text -/

namespace AbiType

end AbiType

namespace Signature

end Signature

section Canonical

open Signature

end Canonical

/-! ### Refused texts -/

/-- There is a result, or an error that says what is wrong with the text. -/
def ReadsOrRefuses {α : Type} (result : Except AbiError α) : Prop :=
  (∃ a, result = .ok a) ∨ ∃ text cause, result = .error (.invalidType text cause)

namespace ReadsOrRefuses

variable {α β : Type}

theorem ok (a : α) : ReadsOrRefuses (.ok a) := Or.inl ⟨a, rfl⟩

theorem invalidType (text : String) (cause : TypeCause) :
    ReadsOrRefuses (.error (.invalidType text cause) : Except AbiError α) :=
  Or.inr ⟨text, cause, rfl⟩

theorem bind {x : Except AbiError α} {f : α → Except AbiError β} (first : ReadsOrRefuses x)
    (next : ∀ a, ReadsOrRefuses (f a)) : ReadsOrRefuses (x >>= f) := by
  rcases first with ⟨a, rfl⟩ | ⟨text, cause, rfl⟩
  · exact next a
  · exact invalidType text cause

theorem parseList (list : List Char) : ReadsOrRefuses (AbiType.parseList list) := by
  rw [AbiType.parseList, whole]
  split
  · exact invalidType _ _
  · split
    · exact ok _
    · exact invalidType _ _

theorem split (text keyword : String) : ReadsOrRefuses (Signature.split text keyword) := by
  simp only [Signature.split]
  split
  · exact invalidType _ _
  · split
    · split
      · exact ok _
      · exact invalidType _ _
    · exact invalidType _ _

theorem readClauses (source : String) (fuel : Nat) (f : Function) (rest : List Char) :
    ReadsOrRefuses (Function.readClauses source fuel f rest) := by
  induction fuel generalizing f rest with
  | zero => cases rest <;> exact ok f
  | succ fuel ih =>
    by_cases nothing : rest = []
    · subst nothing
      exact ok f
    · rw [Function.readClauses]
      · split
        · split
          · split
            · exact (parseList _).bind fun outputs => ih _ _
            · exact invalidType _ _
          · exact invalidType _ _
        · dsimp only
          split
          · exact ih _ _
          · exact invalidType _ _
      · exact nothing

theorem function (source : String) : ReadsOrRefuses (Function.parse source) :=
  (split source "function").bind fun _ => (parseList _).bind fun _ => readClauses _ _ _ _

theorem event (source : String) : ReadsOrRefuses (Event.parse source) := by
  refine (split source "event").bind fun parts => ?_
  have whole (isAnonymous : Bool) : ReadsOrRefuses (do
      let inputs ← AbiType.parseList parts.parameters
      return { name := parts.name, inputs := inputs.map fun t => t.withIndexed t.isIndexed,
               isAnonymous : Event }) :=
    (parseList _).bind fun _ => ok _
  dsimp only
  split
  · exact whole false
  · split
    · exact whole true
    · exact invalidType _ _

end ReadsOrRefuses

/-! ### Signatures that are read again -/

attribute [local irreducible] selectorOf topicOf

end AbiCodec
