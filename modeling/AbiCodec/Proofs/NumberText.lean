import AbiCodec.Proofs.ValueText

/-!
# Texts of numbers

The forms of a number apart from the readers: decimal digits, or `0x` or `0X` and
up to 64 hexadecimal digits, and for a signed number a minus sign right before
such a form. Between white space the readers take these forms, and some others:
a second `0x` may follow the mark, with or without digits behind it, and white
space may follow the minus sign.
-/

namespace AbiCodec

/-! ### Hexadecimal digits -/

namespace Hex

/-- A digit is in one of three ranges of characters. -/
theorem ranges_of_digitValue? {c : Char} {v : Nat} (value : digitValue? c = some v) :
    (48 ≤ c.toNat ∧ c.toNat ≤ 57 ∧ v = c.toNat - 48) ∨
      (97 ≤ c.toNat ∧ c.toNat ≤ 102 ∧ v = c.toNat - 87) ∨
      (65 ≤ c.toNat ∧ c.toNat ≤ 70 ∧ v = c.toNat - 55) := by
  simp only [digitValue?, Char.le_def, UInt32.le_iff_toNat_le] at value
  change (if 48 ≤ c.toNat ∧ c.toNat ≤ 57 then some (c.toNat - 48)
    else if 97 ≤ c.toNat ∧ c.toNat ≤ 102 then some (c.toNat - 97 + 10)
    else if 65 ≤ c.toNat ∧ c.toNat ≤ 70 then some (c.toNat - 65 + 10) else none) = some v at value
  split_ifs at value <;> simp only [Option.some.injEq] at value <;> omega

theorem digitValue?_lt {c : Char} {v : Nat} (value : digitValue? c = some v) : v < 16 := by
  have ranges := ranges_of_digitValue? value
  omega

theorem isWhiteSpace_of_isDigit {c : Char} (digit : isDigit c = true) : isWhiteSpace c = false := by
  obtain ⟨v, value⟩ := Option.isSome_iff_exists.1 digit
  have ranges := ranges_of_digitValue? value
  simp only [isWhiteSpace, Bool.or_eq_false_iff, Bool.and_eq_false_iff, decide_eq_false_iff_not,
    beq_eq_false_iff_ne]
  omega

theorem toNat_concat (digits : List Char) (c : Char) :
    toNat (digits ++ [c]) = toNat digits * 16 + (digitValue? c).getD 0 := by
  simp [toNat]

theorem toNat_lt (digits : List Char) : toNat digits < 16 ^ digits.length := by
  -- From the last digit, which the fold over the digits adds last.
  induction digits using List.reverseRecOn with
  | nil => decide
  | append_singleton digits c ih =>
    have value : (digitValue? c).getD 0 < 16 := by
      cases read : digitValue? c with
      | none => decide
      | some v => exact digitValue?_lt read
    rw [toNat_concat, List.length_append, List.length_singleton, Nat.pow_succ]
    omega

/-- At most so many hexadecimal digits, and their number. -/
structure Numeral (most : Nat) (digits : List Char) (n : Nat) : Prop where
  length_le : digits.length ≤ most
  digital : ∀ c ∈ digits, isDigit c = true
  toNat_eq : toNat digits = n

theorem Numeral.lt_two_pow {digits : List Char} {n : Nat} (h : Numeral 64 digits n) :
    n < 2 ^ 256 := calc
  n = toNat digits := h.toNat_eq.symm
  _ < 16 ^ digits.length := toNat_lt digits
  _ ≤ 16 ^ 64 := Nat.pow_le_pow_right (by decide) h.length_le
  _ = 2 ^ 256 := by decide

/-- The letter of a mark is no digit. -/
theorem Numeral.not_mark {most : Nat} {digits : List Char} {n : Nat} (h : Numeral most digits n) :
    'x' ∉ digits :=
  fun member => nomatch h.digital 'x' member

end Hex

namespace IntegerText

/-! ### Forms -/

/-- The forms of a natural number. -/
inductive IsUnsigned : List Char → Nat → Prop where
  | decimal {digits : List Char} : digits ≠ [] → (∀ c ∈ digits, c.isDigit = true) →
      IsUnsigned digits (Nat.ofDigitChars 10 digits 0)
  | hexadecimal {mark : Char} {digits : List Char} {n : Nat} : mark = 'x' ∨ mark = 'X' →
      digits ≠ [] → Hex.Numeral 64 digits n → IsUnsigned ('0' :: mark :: digits) n

/-- The forms with a second mark, behind which no digit is zero. -/
inductive IsMarkedTwice : List Char → Nat → Prop where
  | mk {mark : Char} {digits : List Char} {n : Nat} : mark = 'x' ∨ mark = 'X' →
      Hex.Numeral 62 digits n → IsMarkedTwice ('0' :: mark :: '0' :: 'x' :: digits) n

/-- The forms that the reader of unsigned numbers takes. -/
def IsRead (text : List Char) (n : Nat) : Prop := IsUnsigned text n ∨ IsMarkedTwice text n

/-- The forms of an integer in two's complement of 256 bits, given those of a natural number. -/
inductive IsSigned (isForm : List Char → Nat → Prop) : List Char → Int → Prop where
  | plain {text : List Char} {n : Nat} : isForm text n → n < 2 ^ 255 → IsSigned isForm text n
  | minus {text : List Char} {n : Nat} : isForm text n → n ≤ 2 ^ 255 →
      IsSigned isForm ('-' :: text) (-n)

/-- There is a second mark, or white space behind the minus sign. -/
inductive IsLax : List Char → Prop where
  | marked {mark : Char} {digits : List Char} : mark = 'x' ∨ mark = 'X' →
      IsLax ('0' :: mark :: '0' :: 'x' :: digits)
  | minusMarked {mark : Char} {digits : List Char} : mark = 'x' ∨ mark = 'X' →
      IsLax ('-' :: '0' :: mark :: '0' :: 'x' :: digits)
  | minusBlank {c : Char} {rest : List Char} : isWhiteSpace c = true → IsLax ('-' :: c :: rest)

theorem afterHexMark?_eq_some_iff {text digits : List Char} :
    afterHexMark? text = some digits ↔
      ∃ mark, (mark = 'x' ∨ mark = 'X') ∧ text = '0' :: mark :: digits := by
  constructor
  · intro marked
    unfold afterHexMark? at marked
    split at marked
    · cases marked
      exact ⟨'x', Or.inl rfl, rfl⟩
    · cases marked
      exact ⟨'X', Or.inr rfl, rfl⟩
    · cases marked
  · rintro ⟨mark, rfl | rfl, rfl⟩ <;> rfl

/-- Behind a mark the digits are hexadecimal, since the mark is no decimal digit. -/
theorem isUnsigned_mark_iff {mark : Char} (isMark : mark = 'x' ∨ mark = 'X') {digits : List Char}
    {n : Nat} : IsUnsigned ('0' :: mark :: digits) n ↔ digits ≠ [] ∧ Hex.Numeral 64 digits n := by
  constructor
  · intro form
    cases form with
    | decimal _ all =>
      have digit := all mark (by simp)
      rcases isMark with rfl | rfl <;> cases digit
    | hexadecimal _ some numeral => exact ⟨some, numeral⟩
  · rintro ⟨some, numeral⟩
    exact .hexadecimal isMark some numeral

theorem isMarkedTwice_mark_iff {mark : Char} (isMark : mark = 'x' ∨ mark = 'X')
    {digits : List Char} {n : Nat} : IsMarkedTwice ('0' :: mark :: digits) n ↔
      ∃ rest, digits = '0' :: 'x' :: rest ∧ Hex.Numeral 62 rest n := by
  constructor
  · rintro ⟨_, numeral⟩
    exact ⟨_, rfl, numeral⟩
  · rintro ⟨rest, rfl, numeral⟩
    exact .mk isMark numeral

/-- The digits of a marked form are what is left without the second mark. -/
theorem isRead_mark_iff {mark : Char} (isMark : mark = 'x' ∨ mark = 'X') {digits : List Char}
    {n : Nat} : IsRead ('0' :: mark :: digits) n ↔ digits ≠ [] ∧ digits.length ≤ 64 ∧
      Hex.Numeral 64 ((dropLead? ['0', 'x'] digits).getD digits) n := by
  rw [IsRead, isUnsigned_mark_iff isMark, isMarkedTwice_mark_iff isMark]
  cases lead : dropLead? ['0', 'x'] digits with
  | none =>
    have once {rest : List Char} : digits ≠ '0' :: 'x' :: rest := by
      rintro rfl
      cases lead
    rw [Option.getD_none]
    constructor
    · rintro (⟨some, numeral⟩ | ⟨rest, twice, _⟩)
      · exact ⟨some, numeral.length_le, numeral⟩
      · exact absurd twice once
    · rintro ⟨some, _, numeral⟩
      exact Or.inl ⟨some, numeral⟩
  | some rest =>
    obtain rfl : digits = '0' :: 'x' :: rest := eq_append_of_dropLead? lead
    rw [Option.getD_some]
    constructor
    · rintro (⟨_, numeral⟩ | ⟨_, same, ⟨short, digital, value⟩⟩)
      · exact absurd (by simp) numeral.not_mark
      · cases same
        exact ⟨by simp, by simp; omega, by omega, digital, value⟩
    · rintro ⟨_, short, ⟨_, digital, value⟩⟩
      rw [List.length_cons, List.length_cons] at short
      exact Or.inr ⟨rest, rfl, by omega, digital, value⟩

theorem isRead_of_unmarked {text : List Char} (unmarked : afterHexMark? text = none) {n : Nat} :
    IsRead text n ↔ Decimal.read? text = some n := by
  have mark_ne {digits : List Char} : afterHexMark? text ≠ some digits := by
    rw [unmarked]
    exact nofun
  rw [Decimal.read?_eq_some_iff]
  constructor
  · rintro ((⟨some, all⟩ | ⟨isMark, _, _⟩) | ⟨isMark, _⟩)
    · exact ⟨some, all, rfl⟩
    · exact absurd (afterHexMark?_eq_some_iff.2 ⟨_, isMark, rfl⟩) mark_ne
    · exact absurd (afterHexMark?_eq_some_iff.2 ⟨_, isMark, rfl⟩) mark_ne
  · rintro ⟨some, all, rfl⟩
    exact Or.inl (.decimal some all)

/-! ### The readers -/

theorem map_word?_eq_some_iff {n m : Nat} :
    (word? n).map BitVec.toNat = some m ↔ n = m ∧ m < 2 ^ 256 := by
  simp only [word?, Option.map_eq_some_iff, Option.ite_none_right_eq_some, Option.some.injEq]
  constructor
  · rintro ⟨w, ⟨below, rfl⟩, rfl⟩
    have value : (BitVec.ofNat 256 n).toNat = n := Nat.mod_eq_of_lt below
    rw [value]
    exact ⟨rfl, below⟩
  · rintro ⟨rfl, below⟩
    exact ⟨_, ⟨below, rfl⟩, Nat.mod_eq_of_lt below⟩

/-- The number of hexadecimal digits without the mark that may be written again. -/
theorem map_readHexDigits?_eq_some_iff {digits : List Char} {n : Nat} :
    (readHexDigits? digits).map BitVec.toNat = some n ↔
      Hex.Numeral 64 ((dropLead? ['0', 'x'] digits).getD digits) n := by
  rw [readHexDigits?]
  generalize (dropLead? ['0', 'x'] digits).getD digits = rest
  constructor
  · intro read
    split at read
    · next formed =>
      rw [Bool.and_eq_true, decide_eq_true_iff, List.all_eq_true] at formed
      exact ⟨formed.2, formed.1, (map_word?_eq_some_iff.1 read).1⟩
    · cases read
  · intro numeral
    have formed : (rest.all Hex.isDigit && decide (rest.length ≤ 64)) = true := by
      rw [Bool.and_eq_true, decide_eq_true_iff, List.all_eq_true]
      exact ⟨numeral.digital, numeral.length_le⟩
    rw [if_pos formed]
    exact map_word?_eq_some_iff.2 ⟨numeral.toNat_eq, numeral.lt_two_pow⟩

/-- The reader takes the number of each of its forms, as far as there is a word for it. -/
theorem map_readUnsigned?_eq_some_iff {text : List Char} {n : Nat} :
    (readUnsigned? text).map BitVec.toNat = some n ↔ IsRead (trim text) n ∧ n < 2 ^ 256 := by
  rw [readUnsigned?]
  cases marked : afterHexMark? (trim text) with
  | none =>
    rw [isRead_of_unmarked marked, Option.map_bind, Option.bind_eq_some_iff]
    constructor
    · rintro ⟨m, read, value⟩
      obtain ⟨rfl, below⟩ := map_word?_eq_some_iff.1 value
      exact ⟨read, below⟩
    · rintro ⟨read, below⟩
      exact ⟨n, read, map_word?_eq_some_iff.2 ⟨rfl, below⟩⟩
  | some digits =>
    obtain ⟨mark, isMark, form⟩ := afterHexMark?_eq_some_iff.1 marked
    rw [form, isRead_mark_iff isMark, ← map_readHexDigits?_eq_some_iff]
    dsimp only
    constructor
    · intro read
      split at read
      · cases read
      · next fits =>
        rw [Bool.or_eq_true, List.isEmpty_iff, decide_eq_true_iff, not_or, Nat.not_lt] at fits
        have numeral := map_readHexDigits?_eq_some_iff.1 read
        exact ⟨⟨fits.1, fits.2, read⟩, numeral.lt_two_pow⟩
    · rintro ⟨⟨some, short, read⟩, _⟩
      have fits : ¬(digits.isEmpty || decide (64 < digits.length)) = true := by
        rw [Bool.or_eq_true, List.isEmpty_iff, decide_eq_true_iff, not_or, Nat.not_lt]
        exact ⟨some, short⟩
      rwa [if_neg fits]

/-- A word without its sign bit denotes its number. -/
theorem map_unsigned_eq_some_iff {word : Option Word} {i : Int} :
    (word.bind fun value => if value.msb then none else some value).map BitVec.toInt = some i ↔
      ∃ n : Nat, word.map BitVec.toNat = some n ∧ n < 2 ^ 255 ∧ i = n := by
  cases word with
  | none => simp
  | some w =>
    have sign : w.msb = decide (2 ^ 255 ≤ w.toNat) := BitVec.msb_eq_decide w
    rw [Option.bind_some, Option.map_some]
    constructor
    · intro read
      split at read
      · cases read
      · next positive =>
        rw [Bool.not_eq_true] at positive
        rw [Option.map_some, BitVec.toInt_eq_toNat_of_msb positive] at read
        rw [sign, decide_eq_false_iff_not, Nat.not_le] at positive
        exact ⟨w.toNat, rfl, positive, (Option.some.inj read).symm⟩
    · rintro ⟨n, value, small, rfl⟩
      cases value
      have positive : w.msb = false := by rwa [sign, decide_eq_false_iff_not, Nat.not_le]
      rw [positive, if_neg Bool.false_ne_true, Option.map_some,
        BitVec.toInt_eq_toNat_of_msb positive]

/-- The two's complement of a magnitude up to `2 ^ 255` is its negative. -/
theorem toInt_neg_of_le {w : Word} (small : w.toNat ≤ 2 ^ 255) : (-w).toInt = -(w.toNat : Int) := by
  rw [BitVec.toInt_neg, BitVec.toInt_eq_toNat_bmod, Int.bmod_neg_bmod]
  exact Int.bmod_eq_of_le_mul_two (by omega) (by omega)

theorem map_negated_eq_some_iff {word : Option Word} {i : Int} :
    (word.bind fun magnitude =>
      if magnitude.toNat ≤ 1 <<< 255 then some (-magnitude) else none).map BitVec.toInt = some i ↔
      ∃ n : Nat, word.map BitVec.toNat = some n ∧ n ≤ 2 ^ 255 ∧ i = -n := by
  have bound : (1 <<< 255 : Nat) = 2 ^ 255 := by decide
  cases word with
  | none => simp
  | some w =>
    rw [Option.bind_some, Option.map_some, bound]
    constructor
    · intro read
      split at read
      · next small =>
        rw [Option.map_some, toInt_neg_of_le small] at read
        exact ⟨w.toNat, rfl, small, (Option.some.inj read).symm⟩
      · cases read
    · rintro ⟨n, value, small, rfl⟩
      cases value
      rw [if_pos small, Option.map_some, toInt_neg_of_le small]

theorem not_isRead_minus {rest : List Char} {n : Nat} : ¬IsRead ('-' :: rest) n := by
  rintro (form | form)
  · cases form with
    | decimal _ all => cases all '-' List.mem_cons_self
  · cases form

/-- Behind a minus sign the magnitude is trimmed once more. -/
theorem map_readSigned?_eq_some_iff {text : List Char} {i : Int} :
    (readSigned? text).map BitVec.toInt = some i ↔
      IsSigned (fun form => IsRead (trim form)) (trim text) i := by
  unfold readSigned?
  have again := trim_trim text
  generalize trim text = form at again
  split
  · next magnitude =>
    rw [Option.bind_eq_bind, map_negated_eq_some_iff]
    simp only [map_readUnsigned?_eq_some_iff]
    constructor
    · rintro ⟨n, ⟨read, _⟩, small, rfl⟩
      exact .minus read small
    · intro signed
      cases signed with
      | plain read =>
        rw [again] at read
        exact absurd read not_isRead_minus
      | minus read small => exact ⟨_, ⟨read, by omega⟩, small, rfl⟩
  · next unmarked =>
    rw [Option.bind_eq_bind, map_unsigned_eq_some_iff]
    simp only [map_readUnsigned?_eq_some_iff]
    constructor
    · rintro ⟨n, ⟨read, _⟩, small, rfl⟩
      exact .plain read small
    · intro signed
      cases signed with
      | plain read small => exact ⟨_, ⟨read, by omega⟩, small, rfl⟩
      | minus read => exact absurd rfl (unmarked _)

/-! ### The forms among the texts taken -/

theorem IsUnsigned.head?_solid {text : List Char} {n : Nat} (form : IsUnsigned text n) {c : Char}
    (first : text.head? = some c) : isWhiteSpace c = false := by
  cases form with
  | decimal _ all => exact isWhiteSpace_of_isDigit (all c (List.mem_of_head? first))
  | hexadecimal =>
    cases first
    decide

theorem IsUnsigned.not_isLax {text : List Char} {n : Nat} (form : IsUnsigned text n) :
    ¬IsLax text := by
  intro lax
  cases lax with
  | marked isMark => exact absurd (by simp) ((isUnsigned_mark_iff isMark).1 form).2.not_mark
  | minusMarked => exact not_isRead_minus (Or.inl form)
  | minusBlank => exact not_isRead_minus (Or.inl form)

theorem IsUnsigned.not_isLax_minus {text : List Char} {n : Nat} (form : IsUnsigned text n) :
    ¬IsLax ('-' :: text) := by
  intro lax
  cases lax with
  | minusMarked isMark => exact form.not_isLax (.marked isMark)
  | minusBlank white =>
    rw [form.head?_solid rfl] at white
    cases white

theorem isRead_strict_iff {text : List Char} {n : Nat} :
    IsRead text n ∧ ¬IsLax text ↔ IsUnsigned text n := by
  constructor
  · rintro ⟨form | ⟨isMark, _⟩, strict⟩
    · exact form
    · exact absurd (.marked isMark) strict
  · intro form
    exact ⟨Or.inl form, form.not_isLax⟩

/-- Behind the sign of a trimmed text only white space at the front is left to trim. -/
theorem trim_magnitude {text : List Char} (trimmed : trim ('-' :: text) = '-' :: text)
    (first : ∀ c, text.head? = some c → isWhiteSpace c = false) : trim text = text := by
  apply trim_of_ends first
  intro c last
  have end_same : (trim ('-' :: text)).getLast? = some c := by
    rw [trimmed, List.getLast?_cons, last, Option.getD_some]
  exact getLast?_trim end_same

theorem isSigned_strict_iff {text : List Char} (trimmed : trim text = text) {i : Int} :
    IsSigned (fun form => IsRead (trim form)) text i ∧ ¬IsLax text ↔
      IsSigned IsUnsigned text i := by
  constructor
  · rintro ⟨⟨read, small⟩ | ⟨read, small⟩, strict⟩
    · rw [trimmed] at read
      exact .plain (isRead_strict_iff.1 ⟨read, strict⟩) small
    · next magnitude n =>
      -- All that the reader can trim behind the sign is at the front, and lax.
      have first : ∀ c, magnitude.head? = some c → isWhiteSpace c = false := by
        intro c first
        obtain ⟨rest, rfl⟩ := List.head?_eq_some_iff.1 first
        rw [Bool.eq_false_iff]
        exact fun white => strict (.minusBlank white)
      rw [trim_magnitude trimmed first] at read
      have strict_magnitude : ¬IsLax magnitude := by
        rintro (isMark | _ | _)
        · exact strict (.minusMarked isMark)
        · exact not_isRead_minus read
        · exact not_isRead_minus read
      exact .minus (isRead_strict_iff.1 ⟨read, strict_magnitude⟩) small
  · rintro (⟨form, small⟩ | ⟨form, small⟩)
    · refine ⟨.plain ?_ small, form.not_isLax⟩
      rw [trimmed]
      exact Or.inl form
    · refine ⟨.minus ?_ small, form.not_isLax_minus⟩
      rw [trim_magnitude trimmed fun _ => form.head?_solid]
      exact Or.inl form

/-- What the two readers take of a trimmed text: the forms that are read, after a minus sign
trimmed once more, with a number that there is a word for. Among the texts without a second mark
and without white space behind the sign these are exactly the forms of a number. -/
theorem read_eq_some_iff (text : List Char) :
    (∀ n : Nat, (readUnsigned? text).map BitVec.toNat = some n ↔
      IsRead (trim text) n ∧ n < 2 ^ 256) ∧
    (∀ i : Int, (readSigned? text).map BitVec.toInt = some i ↔
      IsSigned (fun form => IsRead (trim form)) (trim text) i) ∧
    (∀ n : Nat, (readUnsigned? text).map BitVec.toNat = some n ∧ ¬IsLax (trim text) ↔
      IsUnsigned (trim text) n ∧ n < 2 ^ 256) ∧
    (∀ i : Int, (readSigned? text).map BitVec.toInt = some i ∧ ¬IsLax (trim text) ↔
      IsSigned IsUnsigned (trim text) i) := by
  refine ⟨fun n => map_readUnsigned?_eq_some_iff, fun i => map_readSigned?_eq_some_iff,
    fun n => ?_, fun i => ?_⟩
  · rw [map_readUnsigned?_eq_some_iff, and_right_comm, isRead_strict_iff]
  · rw [map_readSigned?_eq_some_iff, isSigned_strict_iff (trim_trim text)]

/-- A second mark is read over, and so is white space behind the sign. -/
theorem read_lax :
    (readUnsigned? "0x0x12".toList).map BitVec.toNat = some 18 ∧
      (¬∃ n, IsUnsigned (trim "0x0x12".toList) n) ∧
    (readSigned? "- 5".toList).map BitVec.toInt = some (-5) ∧
      ¬∃ i, IsSigned IsUnsigned (trim "- 5".toList) i := by
  have marked : trim "0x0x12".toList = "0x0x12".toList := by decide
  have blank : trim "- 5".toList = "- 5".toList := by decide
  refine ⟨by decide, ?_, by decide, ?_⟩
  · rintro ⟨n, form⟩
    rw [marked] at form
    exact form.not_isLax (.marked (Or.inl rfl))
  · rintro ⟨i, form⟩
    exact ((isSigned_strict_iff (trim_trim _)).2 form).2 (blank ▸ .minusBlank rfl)

end IntegerText

end AbiCodec
