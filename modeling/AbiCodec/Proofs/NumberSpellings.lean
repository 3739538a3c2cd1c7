import AbiCodec.Proofs.IntegerRange
import AbiCodec.Proofs.JsonLoop
import AbiCodec.Proofs.NumberText

/-!
# Spellings of an integer in JSON

An integer stands in JSON as a number, as its decimal text or as its hexadecimal
text. Texts without a sign are read as unsigned numbers and texts with one as
signed numbers, each within its own 256 bits; a number type takes all of them
alike, since what is not read is outside the range of every type.
-/

namespace AbiCodec

/-! ### Hexadecimal digits of a number -/

namespace Hex

theorem toDigits_of_lt {n : Nat} (small : n < 16) : Nat.toDigits 16 n = [digit n] := by
  rw [Nat.toDigits_of_lt_base small, digit, Nat.mod_eq_of_lt small]

theorem toDigits_of_le {n : Nat} (large : 16 ≤ n) :
    Nat.toDigits 16 n = Nat.toDigits 16 (n / 16) ++ [digit n] :=
  Nat.toDigits_of_base_le (by decide) large

theorem isDigit_digit (n : Nat) : isDigit (digit n) = true := by
  rw [isDigit, digitValue?_digit]
  rfl

theorem isDigit_of_mem_toDigits {n : Nat} {c : Char} (member : c ∈ Nat.toDigits 16 n) :
    isDigit c = true := by
  induction n using Nat.strong_induction_on with
  | _ n ih =>
    rcases Nat.lt_or_ge n 16 with small | large
    · rw [toDigits_of_lt small, List.mem_singleton] at member
      rw [member, isDigit_digit]
    · rw [toDigits_of_le large, List.mem_append, List.mem_singleton] at member
      rcases member with high | rfl
      · exact ih (n / 16) (by omega) high
      · exact isDigit_digit n

theorem toNat_toDigits (n : Nat) : toNat (Nat.toDigits 16 n) = n := by
  induction n using Nat.strong_induction_on with
  | _ n ih =>
    rcases Nat.lt_or_ge n 16 with small | large
    · rw [toDigits_of_lt small, ← List.nil_append [digit n], toNat_concat, digitValue?_digit,
        Option.getD_some, toNat, List.foldl_nil]
      omega
    · rw [toDigits_of_le large, toNat_concat, ih (n / 16) (by omega), digitValue?_digit,
        Option.getD_some]
      omega

/-- The digits of the number, each in either case. -/
def IsWritten (n : Nat) (digits : List Char) : Prop :=
  digits.map digitValue? = (Nat.toDigits 16 n).map digitValue?

instance (n : Nat) (digits : List Char) : Decidable (IsWritten n digits) :=
  inferInstanceAs (Decidable (digits.map digitValue? = (Nat.toDigits 16 n).map digitValue?))

theorem IsWritten.isDigit {n : Nat} {digits : List Char} (h : IsWritten n digits) :
    ∀ c ∈ digits, isDigit c = true := by
  intro c member
  have value : digitValue? c ∈ (Nat.toDigits 16 n).map digitValue? := h ▸ List.mem_map_of_mem member
  obtain ⟨d, written, same⟩ := List.mem_map.1 value
  rw [Hex.isDigit, ← same]
  exact isDigit_of_mem_toDigits written

theorem IsWritten.length_eq {n : Nat} {digits : List Char} (h : IsWritten n digits) :
    digits.length = (Nat.toDigits 16 n).length := by
  rw [← List.length_map digitValue?, h, List.length_map]

theorem IsWritten.ne_nil {n : Nat} {digits : List Char} (h : IsWritten n digits) : digits ≠ [] := by
  rw [← List.length_pos_iff, h.length_eq]
  exact Nat.length_toDigits_pos

/-- There are more than 64 digits only when there is no word for the number. -/
theorem IsWritten.length_le_iff {n : Nat} {digits : List Char} (h : IsWritten n digits) :
    digits.length ≤ 64 ↔ n < 2 ^ 256 := by
  have whole : (16 : Nat) ^ 64 = 2 ^ 256 := by decide
  rw [h.length_eq, Nat.length_toDigits_le_iff (by decide) (by decide), whole]

theorem IsWritten.numeral {n : Nat} {digits : List Char} (h : IsWritten n digits)
    (small : n < 2 ^ 256) : Numeral 64 digits n where
  length_le := h.length_le_iff.2 small
  digital := h.isDigit
  toNat_eq := (toNat_congr h).trans (toNat_toDigits n)

end Hex

namespace IntegerText

theorem readsAs_hexadecimal {n : Nat} {digits : List Char} (written : Hex.IsWritten n digits) :
    ReadsAs ('0' :: 'x' :: digits) n := by
  have blank_free : ∀ c ∈ digits, isWhiteSpace c = false :=
    fun c member => Hex.isWhiteSpace_of_isDigit (written.isDigit c member)
  have solid : ∀ c ∈ '0' :: 'x' :: digits, isWhiteSpace c = false := by
    simp only [List.forall_mem_cons]
    exact ⟨by decide, by decide, blank_free⟩
  refine ⟨solid, by simp, ?_⟩
  have trimmed := trim_eq_self solid
  -- There are more than 64 digits exactly when there is no word for the number.
  rcases Nat.lt_or_ge n (2 ^ 256) with small | large
  · have form : IsUnsigned ('0' :: 'x' :: digits) n :=
      .hexadecimal (Or.inl rfl) written.ne_nil (written.numeral small)
    have read : (readUnsigned? ('0' :: 'x' :: digits)).map BitVec.toNat = some n :=
      map_readUnsigned?_eq_some_iff.2 ⟨trimmed.symm ▸ Or.inl form, small⟩
    apply Option.map_injective fun _ _ => BitVec.eq_of_toNat_eq
    rw [read, map_word?_eq_some_iff.2 ⟨rfl, small⟩]
  · have long : 64 < digits.length := by
      rw [← Nat.not_le, written.length_le_iff]
      omega
    have marked : afterHexMark? ('0' :: 'x' :: digits) = some digits := rfl
    have refused : (digits.isEmpty || decide (64 < digits.length)) = true := by
      rw [decide_eq_true long, Bool.or_true]
    have wide : ¬n < 1 <<< 256 := Nat.not_lt.2 large
    rw [readUnsigned?, trimmed, marked]
    dsimp only
    rw [if_pos refused, word?, if_neg wide]

/-- The text of an integer with this text of its magnitude. -/
def withSign (x : Int) (magnitude : List Char) : List Char :=
  if x < 0 then '-' :: magnitude else magnitude

end IntegerText

namespace Value

open IntegerText

/-- The JSON values that spell the integer: a number in the range of 64 bits, the decimal text,
and `0x` with the hexadecimal digits. -/
inductive Spells (x : Int) : Json → Prop where
  | natural {n : Nat} : x = n → n < 2 ^ 64 → Spells x (.number (.natural n))
  | negative {n : Nat} : x = -n → 0 < n → n ≤ 2 ^ 63 → Spells x (.number (.negative n))
  | decimal : Spells x (.string (decimalInt x))
  | hexadecimal {digits : List Char} : Hex.IsWritten x.natAbs digits →
      Spells x (.string (String.ofList (withSign x ('0' :: 'x' :: digits))))

/-- A value that denotes the integer, or none when no value does: an integer below `-2 ^ 255` or
from `2 ^ 256` on. -/
inductive ReadsInteger (x : Int) : Option Value → Prop where
  | read {v : Value} : v.integer? = some x → ReadsInteger x (some v)
  | refused : x < -2 ^ 255 ∨ 2 ^ 256 ≤ x → ReadsInteger x none

theorem integer?_ofNat {n : Nat} (small : n < 2 ^ 256) :
    (Value.uint (BitVec.ofNat 256 n)).integer? = some (n : Int) := by
  have value : (BitVec.ofNat 256 n).toNat = n := Nat.mod_eq_of_lt small
  rw [integer?, value]

theorem integer?_neg_ofNat {n : Nat} (small : n ≤ 2 ^ 255) :
    (Value.int (-BitVec.ofNat 256 n)).integer? = some (-(n : Int)) := by
  have value : (BitVec.ofNat 256 n).toNat = n := Nat.mod_eq_of_lt (by omega)
  rw [integer?, toInt_neg_of_le (value.trans_le small), value]

theorem readsInteger_text {form : List Char} {x : Int} (reads : ReadsAs form x.natAbs) :
    ReadsInteger x (numberOfJson? (.string (String.ofList (withSign x form)))) := by
  rw [withSign]
  split
  · next negative =>
    have sign : -(x.natAbs : Int) = x := by omega
    rw [numberOfJson?_minus reads, word?]
    split
    · next below =>
      have value : (BitVec.ofNat 256 x.natAbs).toNat = x.natAbs := Nat.mod_eq_of_lt below
      rw [Option.bind_some, value]
      split
      · next small => exact .read ((integer?_neg_ofNat small).trans (congrArg some sign))
      · next large => exact .refused (Or.inl (by omega))
    · next wide => exact .refused (Or.inl (by omega))
  · next positive =>
    have sign : (x.natAbs : Int) = x := by omega
    rw [numberOfJson?_plain reads, word?]
    split
    · next below => exact .read ((integer?_ofNat below).trans (congrArg some sign))
    · next wide => exact .refused (Or.inr (by omega))

/-- Each spelling is read as a value that denotes the integer, as far as any does. -/
theorem Spells.readsInteger {x : Int} {json : Json} (spells : Spells x json) :
    ReadsInteger x (numberOfJson? json) := by
  cases spells with
  | natural same small =>
    exact .read ((integer?_ofNat (by omega)).trans (congrArg some same.symm))
  | negative same _ small =>
    exact .read ((integer?_neg_ofNat (by omega)).trans (congrArg some same.symm))
  | decimal => exact readsInteger_text (readsAs_decimal _)
  | hexadecimal written => exact readsInteger_text (readsAs_hexadecimal written)

end Value

/-! ### Number types -/

section

variable {settings : Settings} {t : AbiType} {name : Option String} {width : ByteWidth}
  {isSigned : Bool}

/-- Only an elementary type is laid out as a number type, and it reads numbers. -/
theorem ofJson_of_number (laid : Layout.ofType settings t = .ok (.number name width isSigned))
    (json : Json) : Value.ofJson t json =
      (Value.numberOfJson? json).elim (.error (Value.mismatch t json .invalidNumber)) .ok := by
  have built := Layout.build_of_ofType laid
  cases t with
  | empty label => cases built
  | elementary label typeName =>
    rw [Value.ofJson]
    exact Value.elementaryOfJson_of_number built _ json
  | array label element length =>
    obtain ⟨_, _, same⟩ := Layout.exists_of_build_array built
    cases same
  | tuple label components =>
    obtain ⟨_, _, same⟩ := Layout.exists_of_build_tuple built
    cases same

theorem not_inRange {x : Int} (outside : x < -2 ^ 255 ∨ 2 ^ 256 ≤ x) :
    Layout.inRange isSigned width.bits x = false := by
  obtain ⟨unsigned, signed⟩ := Layout.pow_bits_le width
  rw [Bool.eq_false_iff]
  intro fits
  cases isSigned with
  | false =>
    obtain ⟨low, high⟩ := Layout.inRange_false_iff.1 fits
    omega
  | true =>
    obtain ⟨low, high⟩ := Layout.inRange_true_iff.1 fits
    omega

/-- Alone in its block an integer is its word. -/
theorem encode_eq_ok_of_integer
    (accepted : layoutsOf settings [.tree t] = .ok [.number name width isSigned]) {v : Value}
    {x : Int} (denotes : v.integer? = some x) {data : Bytes} :
    encode settings [.tree t] [v] = .ok data ↔
      Layout.inRange isSigned width.bits x = true ∧ data = Bytes.ofInt x := by
  have canonical : (Layout.number name width isSigned).canonical? v =
      if Layout.inRange isSigned width.bits x then some (Layout.numberOf isSigned x) else none := by
    rw [Layout.canonical?, Layout.canonicalNumber?_of_integer? denotes]
  have block : Child.layOut (Layout.children [.number name width isSigned]
      [Layout.numberOf isSigned x]) = Bytes.ofInt x := by
    rw [← Layout.wire_numberOf name width]
    exact (List.append_nil _).trans (List.append_nil _)
  constructor
  · intro encoded
    obtain ⟨forms, given, written⟩ := forms_of_encode accepted encoded
    cases given with
    | cons first rest =>
      rw [canonical] at first
      split at first
      · next fits =>
        cases first
        cases rest
        exact ⟨fits, written.trans block⟩
      · cases first
  · rintro ⟨fits, written⟩
    rw [if_pos fits] at canonical
    rw [written, ← block]
    exact encode_of_forms accepted rfl (.cons canonical .nil)

/-- An integer is encoded from JSON exactly when it is in the range of the number type, to its word
whatever its spelling; and a number that is no integer is no value of the type. -/
theorem encodeJson_integer (settings : Settings) (label : Label) (width : ByteWidth)
    (isSigned : Bool) :
    let l := Layout.number label.name width isSigned
    layoutsOf settings [.tree (.elementary label l.typeText)] = .ok [l] ∧
      ∀ source, layoutsOf settings [source] = .ok [l] →
        (∀ x json, Value.Spells x json → ∀ data,
          encodeJson settings [source] [json] = .ok data ↔
            Layout.inRange isSigned width.bits x = true ∧ data = Bytes.ofInt x) ∧
        ∀ isNegative magnitude, ∃ e,
          encodeJson settings [source] [.number (.double isNegative magnitude)] = .error e ∧
            e.kind = .invalidValue := by
  intro l
  constructor
  · exact layoutsOf_map_tree_eq_ok_iff.2
      (.cons (Layout.ofType_numberText settings label width isSigned) .nil)
  intro source accepted
  obtain ⟨trees, resolved, _, laid⟩ := exists_of_layoutsOf accepted
  have asTrees := layoutsOf_map_tree_eq_ok_iff.2 laid
  obtain ⟨t, _, own, rest, rfl⟩ := List.forall₂_cons_right_iff.1 laid
  cases rest
  constructor
  · intro x json spells data
    have reads := spells.readsInteger
    rw [encodeJson_eq resolved rfl, Value.valuesOfJson_cons, ofJson_of_number own]
    cases read : Value.numberOfJson? json with
    | some v =>
      rw [read] at reads
      cases reads with
      | read denotes => exact encode_eq_ok_of_integer asTrees denotes
    | none =>
      rw [read] at reads
      cases reads with
      | refused outside =>
        rw [not_inRange outside]
        constructor
        · intro encoded
          cases encoded
        · rintro ⟨fits, _⟩
          cases fits
  · intro isNegative magnitude
    refine ⟨Value.mismatch t (.number (.double isNegative magnitude)) .invalidNumber, ?_, rfl⟩
    rw [encodeJson_eq resolved rfl, Value.valuesOfJson_cons, ofJson_of_number own]
    rfl

/-- The least integer of `int8` in each spelling, the same digits without the sign, which are out
of range, and a number that is no integer. -/
theorem encodeJson_integer_leastByte :
    (∀ json ∈ [Json.number (.negative 128), .string "-128", .string "-0x80"],
      encodeJson {} [.tree (.elementary {} "int8")] [json] = .ok (Bytes.ofInt (-128))) ∧
    (∀ data, encodeJson {} [.tree (.elementary {} "int8")] [.string "0x80"] ≠ .ok data) ∧
    ∃ e, encodeJson {} [.tree (.elementary {} "int8")] [.number (.double true .zero)] =
      .error e ∧ e.kind = .invalidValue := by
  obtain ⟨accepted, law⟩ := encodeJson_integer {} {} ⟨1, by decide, by decide⟩ true
  obtain ⟨exact, noInteger⟩ := law _ accepted
  have least : Layout.inRange true 8 (-128) = true := by decide
  have past : Layout.inRange true 8 128 = false := by decide
  have number : Value.Spells (-128) (.number (.negative 128)) :=
    .negative rfl (by decide) (by decide)
  have spelled : Value.Spells (-128) (.string "-128") := .decimal
  have digits : Hex.IsWritten 128 ['8', '0'] := by decide
  have hexadecimal : Value.Spells (-128) (.string "-0x80") := .hexadecimal digits
  have unsigned : Value.Spells 128 (.string "0x80") := .hexadecimal digits
  refine ⟨?_, ?_, noInteger true _⟩
  · simp only [List.forall_mem_cons]
    exact ⟨(exact _ _ number _).2 ⟨least, rfl⟩, (exact _ _ spelled _).2 ⟨least, rfl⟩,
      (exact _ _ hexadecimal _).2 ⟨least, rfl⟩, by simp⟩
  · intro data encoded
    have fits := ((exact _ _ unsigned _).1 encoded).1
    cases past.symm.trans fits

end

end AbiCodec
