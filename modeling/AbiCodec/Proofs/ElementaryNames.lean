import AbiCodec.Proofs.TypeTree

/-!
# Elementary names

The names at the leaves of a type, and the texts that their layouts have. A
layout has no spelling of its own for a width: it writes the number anew, so the
zeros at the front of a written width are not in its text.
-/

namespace AbiCodec

namespace AbiType

mutual

/-- The elementary names in the type, from left to right. -/
def elementaryNames : AbiType → List String
  | .elementary _ name => [name]
  | .array _ element _ => element.elementaryNames
  | .tuple _ components => elementaryNamesOf components
  | .empty _ => []

def elementaryNamesOf : List AbiType → List String
  | [] => []
  | t :: rest => t.elementaryNames ++ elementaryNamesOf rest

end

theorem elementaryNames_withLabel (label : Label) (t : AbiType) :
    (t.withLabel label).elementaryNames = t.elementaryNames := by
  cases t <;> simp only [withLabel, elementaryNames]

theorem mem_elementaryNamesOf {types : List AbiType} {name : String} :
    name ∈ elementaryNamesOf types ↔ ∃ t ∈ types, name ∈ t.elementaryNames := by
  induction types with
  | nil => simp [elementaryNamesOf]
  | cons t types ih => simp [elementaryNamesOf, ih]

end AbiType

/-! ### Widths -/

namespace Layout

theorem count_of_getD {digits : List Char} {n : Nat}
    (h : (Decimal.readCount? digits).getD 0 = n) (pos : n ≠ 0) :
    Nat.ofDigitChars 10 digits 0 = n := by
  cases read : Decimal.readCount? digits with
  | none =>
    rw [read] at h
    exact absurd h.symm pos
  | some m =>
    rw [read] at h
    rw [(Decimal.readCount?_eq_some_iff.1 read).2.2.1]
    exact h

/-- An elementary name, and the text that its layout has: the width is written anew. -/
inductive NamedBy : List Char → List Char → Prop where
  | word {name : String} : name ∈ ["address", "bool", "string", "bytes", ""] →
      NamedBy name.toList name.toList
  | sized {lead : String} {digits : List Char} : lead ∈ ["uint", "int", "bytes"] → digits ≠ [] →
      (∀ c ∈ digits, c.isDigit = true) → Nat.ofDigitChars 10 digits 0 ≠ 0 →
      NamedBy (lead.toList ++ digits)
        (lead.toList ++ Decimal.ofNat (Nat.ofDigitChars 10 digits 0))
  | widest {lead : String} : lead ∈ ["uint", "int"] →
      NamedBy lead.toList (lead.toList ++ Decimal.ofNat 256)

theorem bits_of_numberWidth? {digits : List Char} {width : ByteWidth}
    (laid : numberWidth? digits = some width) :
    width.bits = if digits = [] then 256 else (Decimal.readCount? digits).getD 0 := by
  simp only [numberWidth?] at laid
  generalize (if digits = [] then 256 else (Decimal.readCount? digits).getD 0) = bits at laid ⊢
  split at laid
  · next divides =>
    rw [ByteWidth.bits, ByteWidth.size_of_ofNat? laid]
    exact Nat.div_mul_cancel (Nat.dvd_of_mod_eq_zero divides)
  · cases laid

theorem namedBy_of_number {name digits : List Char} {isSigned : Bool} {width : ByteWidth}
    (number : numberName? name = some (isSigned, digits))
    (laid : numberWidth? digits = some width) : NamedBy name (numberText width isSigned) := by
  obtain ⟨rfl, all⟩ := eq_of_numberName? number
  have bits := bits_of_numberWidth? laid
  obtain ⟨lead, member, chars⟩ : ∃ lead ∈ ["uint", "int"],
      (if isSigned then "int".toList else "uint".toList) = String.toList lead := by
    cases isSigned
    · exact ⟨"uint", by decide, rfl⟩
    · exact ⟨"int", by decide, rfl⟩
  rw [numberText, chars]
  by_cases none : digits = []
  · rw [if_pos none] at bits
    rw [none, bits, List.append_nil]
    exact .widest member
  · have pos : width.bits ≠ 0 := Nat.ne_of_gt (Nat.mul_pos width.pos (by decide))
    rw [if_neg none] at bits
    have count := count_of_getD bits.symm pos
    rw [← count] at pos ⊢
    exact .sized (List.mem_append_left ["bytes"] member) none all pos

theorem namedBy_of_fixedBytes {name digits : List Char} {width : ByteWidth}
    (fixedBytes : fixedBytesName? name = some digits)
    (laid : fixedBytesWidth? digits = some width) : NamedBy name (fixedBytesText width) := by
  obtain ⟨rfl, some, all⟩ := eq_of_fixedBytesName? fixedBytes
  have pos : width.size ≠ 0 := Nat.ne_of_gt width.pos
  have count := count_of_getD (ByteWidth.size_of_ofNat? laid).symm pos
  rw [← count] at pos
  rw [fixedBytesText, ← count]
  have member : "bytes" ∈ ["uint", "int", "bytes"] := by decide
  exact .sized member some all pos

theorem namedBy_of_ofElementary {typeName : String} {label : Option String} {l : Layout}
    (laid : ofElementary typeName label = .ok l) : NamedBy typeName.toList l.typeChars := by
  unfold ofElementary at laid
  split_ifs at laid with address bool string bytes null
  · cases laid
    subst address
    exact .word (by decide)
  · cases laid
    subst bool
    exact .word (by decide)
  · cases laid
    subst string
    exact .word (by decide)
  · cases laid
    subst bytes
    exact .word (by decide)
  · cases laid
    subst null
    have member : "" ∈ ["address", "bool", "string", "bytes", ""] := by decide
    exact .word member
  · split at laid
    · next number =>
      split at laid
      · next width =>
        cases laid
        exact namedBy_of_number number width
      · cases laid
    · split at laid
      · next fixedBytes =>
        split at laid
        · next width =>
          cases laid
          exact namedBy_of_fixedBytes fixedBytes width
        · cases laid
      · cases laid

end Layout

end AbiCodec
