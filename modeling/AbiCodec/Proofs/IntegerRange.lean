import AbiCodec.Proofs.FailedEncoding
import AbiCodec.Proofs.Reencoding

/-!
# The range of a number type

A number type takes an integer from a value of either sort exactly when the
integer is in its range, and writes the integer modulo `2 ^ 256`, whatever the
sort. The word is read back as the integer. An integer outside the range is out
of range before anything is written.
-/

namespace AbiCodec

/-- The word of an integer, the highest byte first: the integer modulo `2 ^ 256`. -/
def Bytes.ofInt (x : Int) : Bytes := Bytes.ofNat wordSize (x % 2 ^ 256).toNat

theorem Bytes.length_ofInt (x : Int) : (Bytes.ofInt x).length = wordSize := Bytes.length_ofNat _ _

theorem Word.toBytes_ofInt (x : Int) : Word.toBytes (BitVec.ofInt 256 x) = Bytes.ofInt x := by
  rw [toBytes, BitVec.toNat_ofInt, Bytes.ofInt, Int.natCast_pow]
  rfl

/-! ### The name of a number type -/

namespace Layout

theorem numberName?_lead (isSigned : Bool) {digits : List Char}
    (all : ∀ c ∈ digits, c.isDigit = true) :
    numberName? ((if isSigned then "int".toList else "uint".toList) ++ digits) =
      some (isSigned, digits) := by
  have digital : digits.all Char.isDigit = true := List.all_eq_true.2 all
  cases isSigned with
  | false =>
    have lead : dropLead? "uint".toList ("uint".toList ++ digits) = some digits :=
      dropLead?_append _ _
    simp only [Bool.false_eq_true, if_false, numberName?, lead, digital, if_true]
  | true =>
    have unsigned : dropLead? "uint".toList ("int".toList ++ digits) = none := rfl
    have lead : dropLead? "int".toList ("int".toList ++ digits) = some digits :=
      dropLead?_append _ _
    simp only [if_true, numberName?, unsigned, lead, digital]

theorem numberWidth?_bits (width : ByteWidth) :
    numberWidth? (Decimal.ofNat width.bits) = some width := by
  have written : Decimal.ofNat width.bits ≠ [] := Nat.toDigits_ne_nil
  have counted : width.bits < countLimit :=
    lt_countLimit (Nat.lt_of_le_of_lt (bits_le_of_width width) (by decide))
  have read : (Decimal.readCount? (Decimal.ofNat width.bits)).getD 0 = width.bits := by
    rw [Decimal.readCount?_ofNat counted, Option.getD_some]
  have whole : width.bits % 8 = 0 := Nat.mul_mod_left _ _
  have size : width.bits / 8 = width.size := Nat.mul_div_cancel _ (by decide)
  simp only [numberWidth?, if_neg written, read, if_pos whole, size, ByteWidth.ofNat?,
    dif_pos (And.intro width.pos width.le_wordSize)]

/-- The name of a number type is laid out as the type of its sign and width. -/
theorem ofElementary_numberText (name : Option String) (width : ByteWidth) (isSigned : Bool) :
    ofElementary (String.ofList (numberText width isSigned)) name =
      .ok (number name width isSigned) := by
  have digits : ∀ c ∈ Decimal.ofNat width.bits, c.isDigit = true :=
    fun _ member => Decimal.isDigit_of_mem_ofNat member
  -- No other elementary name starts with the same letter.
  have other : ∀ word ∈ ["address", "bool", "string", "bytes", ""],
      String.ofList (numberText width isSigned) ≠ word := by
    have letters : ∀ word ∈ ["address", "bool", "string", "bytes", ""],
        word.toList.head? ≠ some (if isSigned then 'i' else 'u') := by
      cases isSigned <;> decide
    have letter : (numberText width isSigned).head? = some (if isSigned then 'i' else 'u') := by
      cases isSigned <;> rfl
    intro word member same
    apply letters word member
    rw [← same, String.toList_ofList, letter]
  simp only [List.forall_mem_cons] at other
  obtain ⟨address, bool, string, bytes, void, _⟩ := other
  rw [ofElementary, if_neg address, if_neg bool, if_neg string, if_neg bytes, if_neg void,
    String.toList_ofList, numberText, numberName?_lead isSigned digits]
  simp only [numberWidth?_bits]

theorem ofType_numberText (settings : Settings) (label : Label) (width : ByteWidth)
    (isSigned : Bool) :
    ofType settings (.elementary label (number label.name width isSigned).typeText) =
      .ok (number label.name width isSigned) := by
  rw [ofType, AbiType.depth, if_neg (Nat.not_lt_zero _), build]
  exact ofElementary_numberText label.name width isSigned

/-! ### Integers that a number type takes -/

variable {name : Option String} {width : ByteWidth} {isSigned : Bool} {v : Value} {x : Int}

theorem pow_bits_le (width : ByteWidth) :
    2 ^ width.bits ≤ 2 ^ 256 ∧ 2 ^ (width.bits - 1) ≤ 2 ^ 255 := by
  have bounded := bits_le_of_width width
  exact ⟨Nat.pow_le_pow_right (by decide) bounded, Nat.pow_le_pow_right (by decide) (by omega)⟩

/-- An integer in range is denoted by the value of its type. -/
theorem integer?_numberOf (fits : inRange isSigned width.bits x = true) :
    (numberOf isSigned x).integer? = some x := by
  obtain ⟨unsigned, signed⟩ := pow_bits_le width
  cases isSigned with
  | false =>
    obtain ⟨low, high⟩ := inRange_false_iff.1 fits
    have value : ((BitVec.ofInt 256 x).toNat : Int) = x := by
      rw [BitVec.toNat_ofInt]
      omega
    exact congrArg some value
  | true =>
    obtain ⟨low, high⟩ := inRange_true_iff.1 fits
    have value : (BitVec.ofInt 256 x).toInt = x := by
      rw [BitVec.toInt_ofInt]
      exact Int.bmod_eq_of_le_mul_two (by omega) (by omega)
    exact congrArg some value

theorem wire_numberOf (name : Option String) (width : ByteWidth) (isSigned : Bool) (x : Int) :
    (number name width isSigned).wire (numberOf isSigned x) = Bytes.ofInt x := by
  rw [← Word.toBytes_ofInt]
  cases isSigned <;> rfl

/-- What a number type writes depends on the integer only, not on the sort of the value. -/
theorem gives_encode_integer (denotes : v.integer? = some x) :
    ((number name width isSigned).encode v).Gives
      (if inRange isSigned width.bits x then some (Bytes.ofInt x) else none) := by
  have given := gives_encode (number name width isSigned) v
  rw [canonical?, canonicalNumber?_of_integer? denotes] at given
  split
  · next fits => rwa [if_pos fits, Option.map_some, wire_numberOf] at given
  · next outside => rwa [if_neg outside] at given

theorem failsAs_encode_integer (denotes : v.integer? = some x) :
    ((number name width isSigned).encode v).FailsAs .valueOutOfRange := by
  cases isSigned with
  | false => exact failsAs_word fun e => kind_of_unsignedWord denotes
  | true => exact failsAs_word fun e => kind_of_signedWord denotes

theorem reads_ofInt (name : Option String) (width : ByteWidth) (isSigned : Bool) (x : Int) :
    Reading.Reads (number name width isSigned).decode (Bytes.ofInt x) (Bytes.ofInt x).length
      (numberOf isSigned x) := by
  rw [← Word.toBytes_ofInt]
  have word := (Reading.reads_word (BitVec.ofInt 256 x)).coerce
    (number name width isSigned).kindName (f := fun w => if isSigned then .int w else .uint w)
  cases isSigned <;> exact word

/-- A number type takes exactly the integers in its range, from values of either sort, and writes
the integer modulo `2 ^ 256`, which is read back as the integer in the sort of the type. Any other
integer is out of range, and nothing is written. -/
theorem encode_integer (settings : Settings) (label : Label) (width : ByteWidth)
    (isSigned : Bool) :
    let l := number label.name width isSigned
    ofType settings (.elementary label l.typeText) = .ok l ∧
      ∀ x : Int,
        (∀ v : Value, v.integer? = some x → ∀ written : Bytes,
          (inRange isSigned width.bits x = true →
            (l.encode v).runFrom written = (.ok wordSize, written ++ Bytes.ofInt x)) ∧
          (inRange isSigned width.bits x = false →
            ∃ e, (l.encode v).runFrom written = (.error e, written) ∧
              e.kind = .valueOutOfRange)) ∧
        (inRange isSigned width.bits x = true →
          Reading.Reads l.decode (Bytes.ofInt x) wordSize (numberOf isSigned x) ∧
            (numberOf isSigned x).integer? = some x) := by
  intro l
  refine ⟨ofType_numberText settings label width isSigned, fun x => ⟨?_, fun fits => ?_⟩⟩
  · intro v denotes written
    have given : (l.encode v).Gives
        (if inRange isSigned width.bits x then some (Bytes.ofInt x) else none) :=
      gives_encode_integer denotes
    constructor
    · intro fits
      rw [if_pos fits] at given
      rw [given written, Bytes.length_ofInt]
    · intro outside
      rw [outside, if_neg Bool.false_ne_true] at given
      obtain ⟨e, after, failed⟩ := given written
      have left : after = written ++ [] := leaves_encode l v written e after failed
      rw [List.append_nil] at left
      exact ⟨e, left ▸ failed, failsAs_encode_integer denotes written e after failed⟩
  · have reads := reads_ofInt label.name width isSigned x
    rw [Bytes.length_ofInt] at reads
    exact ⟨reads, integer?_numberOf fits⟩

/-- The least integer of `int8`, and the first one past the greatest, from an unsigned value. -/
theorem encode_integer_edges :
    let l := number none ⟨1, by decide, by decide⟩ true
    (l.encode (.int (-128))).runFrom [] = (.ok wordSize, Bytes.ofInt (-128)) ∧
      Reading.Reads l.decode (Bytes.ofInt (-128)) wordSize (.int (-128)) ∧
      ∃ e, (l.encode (.uint 128)).runFrom [7] = (.error e, [7]) ∧ e.kind = .valueOutOfRange := by
  intro l
  obtain ⟨_, law⟩ := encode_integer .standard {} ⟨1, by decide, by decide⟩ true
  have least : inRange true (ByteWidth.bits ⟨1, by decide, by decide⟩) (-128) = true := by decide
  have past : inRange true (ByteWidth.bits ⟨1, by decide, by decide⟩) 128 = false := by decide
  exact ⟨((law (-128)).1 (.int (-128)) rfl []).1 least, ((law (-128)).2 least).1,
    ((law 128).1 (.uint 128) rfl [7]).2 past⟩

end Layout

end AbiCodec
