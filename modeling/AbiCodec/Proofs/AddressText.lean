import AbiCodec.Proofs.NumberText

/-!
# Texts of addresses

The forms of an address apart from its reader: a mark and the digits of the
bytes of the address, in small letters, in capitals, or in the case that the
checksum asks for. The reader takes these forms between white space and no other
text, so the digits of a mixed-case text are known from the address. Of the hash
behind the checksum nothing is used but its length.
-/

namespace AbiCodec

/-! ### Digits in either case -/

namespace Hex

theorem toLower_of_digitValue? {c : Char} {v : Nat} (value : digitValue? c = some v) :
    c.toLower = digit v := by
  have ascii : c.toNat < 128 := by
    have ranges := ranges_of_digitValue? value
    omega
  have each : ∀ n < 128, ∀ v, digitValue? (Char.ofNat n) = some v →
      (Char.ofNat n).toLower = digit v := by decide
  have own := each c.toNat ascii v
  rw [Char.ofNat_toNat] at own
  exact own value

/-- A digit has the same value in either case, and no other letter has one in lower case. -/
theorem digitValue?_toLower (c : Char) : digitValue? c.toLower = digitValue? c := by
  by_cases ascii : c.toNat < 128
  · have each : ∀ n < 128, digitValue? (Char.ofNat n).toLower = digitValue? (Char.ofNat n) := by
      decide
    have own := each c.toNat ascii
    rwa [Char.ofNat_toNat] at own
  · have capital : ¬(c.val ≥ 'A'.val ∧ c.val ≤ 'Z'.val) := by
      rintro ⟨_, high⟩
      exact ascii (Nat.lt_of_le_of_lt high (by decide))
    exact congrArg digitValue? (dif_neg capital : c.toLower = c)

theorem map_digitValue?_toLower (digits : List Char) :
    (digits.map Char.toLower).map digitValue? = digits.map digitValue? := by
  rw [List.map_map]
  exact List.map_congr_left fun c _ => digitValue?_toLower c

/-- As many digits of the same number are the same digits, when both are in lower case. -/
theorem eq_of_toNat_eq {xs ys : List Char} (left : ∀ c ∈ xs, ∃ n, c = digit n)
    (right : ∀ c ∈ ys, ∃ n, c = digit n) (length : xs.length = ys.length)
    (number : toNat xs = toNat ys) : xs = ys := by
  -- From the last digit, which is the remainder of the number.
  induction xs using List.reverseRecOn generalizing ys with
  | nil => exact (List.eq_nil_of_length_eq_zero length.symm).symm
  | append_singleton xs c ih =>
    rcases ys.eq_nil_or_concat' with rfl | ⟨ys, d, rfl⟩
    · simp at length
    · obtain ⟨m, rfl⟩ := left c (by simp)
      obtain ⟨n, rfl⟩ := right d (by simp)
      simp only [toNat_concat, digitValue?_digit, Option.getD_some] at number
      have last : m % 16 = n % 16 := by omega
      have front := ih (fun c member => left c (List.mem_append_left _ member))
        (fun c member => right c (List.mem_append_left _ member)) (by simpa using length) (by omega)
      rw [front, digit, last, digit]

end Hex

namespace Address

/-! ### Forms -/

/-- What may stand before the digits of an address. -/
def marks : List (List Char) := [['Z'], ['z'], ['0', 'x'], ['0', 'X']]

/-- The digits, in either case, are those of the bytes of the address. -/
def Spells (digits : List Char) (a : Address) : Prop :=
  digits.map Char.toLower = Hex.ofBytes a.toBytes

/-- The case of the digits is right: there is no small letter, or no capital, or they are the
digits of the checksummed text. -/
inductive CaseFits (digits : List Char) (a : Address) : Prop where
  | capital : (∀ c ∈ digits, c.isLower = false) → CaseFits digits a
  | small : (∀ c ∈ digits, c.isUpper = false) → CaseFits digits a
  | checksum : a.text.toList = 'Z' :: digits → CaseFits digits a

/-- The digits hold a small letter and a capital. -/
def IsMixed (digits : List Char) : Prop :=
  (∃ c ∈ digits, c.isLower = true) ∧ ∃ c ∈ digits, c.isUpper = true

/-- The text is a mark and the digits. -/
def IsMarked (digits text : List Char) : Prop := ∃ mark ∈ marks, text = mark ++ digits

/-- The text is a mark and digits that spell the address in a case that is right. -/
structure IsForm (digits : List Char) (a : Address) (text : List Char) : Prop where
  marked : IsMarked digits text
  spells : Spells digits a
  caseFits : CaseFits digits a

theorem afterMark?_eq_some_iff {text digits : List Char} :
    afterMark? text = some digits ↔ IsMarked digits text := by
  constructor
  · intro marked
    unfold afterMark? at marked
    split at marked
    · cases marked
      exact ⟨['Z'], by decide, rfl⟩
    · cases marked
      exact ⟨['z'], by decide, rfl⟩
    · cases marked
      exact ⟨['0', 'x'], by decide, rfl⟩
    · cases marked
      exact ⟨['0', 'X'], by decide, rfl⟩
    · cases marked
  · rintro ⟨mark, member, rfl⟩
    simp only [marks, List.mem_cons, List.not_mem_nil, or_false] at member
    rcases member with rfl | rfl | rfl | rfl <;> rfl

theorem toList_text (a : Address) : a.text.toList = 'Z' :: checksumDigits a.toBytes := by
  rw [text, checksumText, String.toList_ofList]

theorem caseIsRight_iff {digits : List Char} {a : Address} :
    caseIsRight digits a = true ↔ CaseFits digits a := by
  rw [caseIsRight, Bool.or_eq_true, Bool.not_eq_true', Bool.and_eq_false_iff, beq_iff_eq]
  simp only [List.any_eq_false, Bool.not_eq_true]
  constructor
  · rintro ((small | capital) | same)
    · exact .capital small
    · exact .small capital
    · exact .checksum (by rw [toList_text, same])
  · rintro (small | capital | same)
    · exact Or.inl (Or.inl small)
    · exact Or.inl (Or.inr capital)
    · rw [toList_text] at same
      exact Or.inr (List.cons.inj same).2.symm

/-- Forty digits spell the address that is their number. -/
theorem spells_iff {digits : List Char} {a : Address} :
    Spells digits a ↔ (digits.length = 2 * size ∧ ∀ c ∈ digits, Hex.isDigit c = true) ∧
      BitVec.ofNat 160 (Hex.toNat digits) = a := by
  have lower : Hex.toNat (digits.map Char.toLower) = Hex.toNat digits :=
    Hex.toNat_congr (Hex.map_digitValue?_toLower digits)
  have written : ∀ c ∈ Hex.ofBytes a.toBytes, ∃ n, c = Hex.digit n :=
    fun c member => Hex.exists_of_mem_ofBytes member
  constructor
  · intro spells
    have length := congrArg List.length spells
    rw [List.length_map, length_ofBytes_toBytes] at length
    refine ⟨⟨length, fun c member => ?_⟩, ?_⟩
    · obtain ⟨n, same⟩ := written c.toLower (by
        rw [← spells]
        exact List.mem_map_of_mem member)
      rw [Hex.isDigit, ← Hex.digitValue?_toLower, same, Hex.digitValue?_digit]
      rfl
    · rw [← lower, spells, Hex.toNat_ofBytes, toNat_toBytes, BitVec.ofNat_toNat,
        BitVec.setWidth_eq]
  · rintro ⟨⟨length, digital⟩, rfl⟩
    have small : Hex.toNat digits < 2 ^ 160 := by
      have below := Hex.toNat_lt digits
      rwa [length] at below
    apply Hex.eq_of_toNat_eq _ written
    · rw [List.length_map, length, length_ofBytes_toBytes]
    · rw [lower, Hex.toNat_ofBytes, toNat_toBytes, BitVec.toNat_ofNat, Nat.mod_eq_of_lt small]
    · intro c member
      obtain ⟨d, isDigit, rfl⟩ := List.mem_map.1 member
      obtain ⟨v, value⟩ := Option.isSome_iff_exists.1 (digital d isDigit)
      exact ⟨v, Hex.toLower_of_digitValue? value⟩

/-- In mixed case only the digits of the checksum are right. -/
theorem CaseFits.of_isMixed {digits : List Char} {a : Address} (fits : CaseFits digits a)
    (mixed : IsMixed digits) : a.text.toList = 'Z' :: digits := by
  obtain ⟨⟨c, inDigits, small⟩, d, inToo, capital⟩ := mixed
  cases fits with
  | capital none =>
    rw [none c inDigits] at small
    cases small
  | small none =>
    rw [none d inToo] at capital
    cases capital
  | checksum same => exact same

/-! ### The reader -/

theorem read_unmarked {text : String} (unmarked : afterMark? (trim text.toList) = none) :
    Address.read text =
      .error (.invalidValue "" "address" (quoted text) .missingAddressMark) := by
  rw [Address.read, unmarked]

/-- Behind a mark the digits decide. -/
theorem read_marked {text : String} {digits : List Char}
    (marked : afterMark? (trim text.toList) = some digits) :
    (∃ a, Spells digits a ∧ CaseFits digits a ∧ Address.read text = .ok a) ∨
      ((∀ a, Spells digits a → ¬CaseFits digits a) ∧
        ∃ cause, Address.read text = .error (.invalidValue "" "address" (quoted text) cause)) := by
  rw [Address.read, marked]
  dsimp only
  split
  · next formed =>
    rw [Bool.and_eq_true, decide_eq_true_iff, List.all_eq_true] at formed
    have spells := spells_iff.2 ⟨formed, rfl⟩
    split
    · next right => exact Or.inl ⟨_, spells, caseIsRight_iff.1 right, rfl⟩
    · next wrong =>
      refine Or.inr ⟨fun a other fits => wrong ?_, _, rfl⟩
      rw [(spells_iff.1 other).2]
      exact caseIsRight_iff.2 fits
  · next formless =>
    refine Or.inr ⟨fun a spells _ => formless ?_, _, rfl⟩
    rw [Bool.and_eq_true, decide_eq_true_iff, List.all_eq_true]
    exact (spells_iff.1 spells).1

theorem exists_isForm_of_read {text : String} {a : Address} (read : Address.read text = .ok a) :
    ∃ digits, IsForm digits a (trim text.toList) := by
  cases marked : afterMark? (trim text.toList) with
  | none =>
    rw [read_unmarked marked] at read
    cases read
  | some digits =>
    rcases read_marked marked with ⟨b, spells, fits, given⟩ | ⟨_, cause, refused⟩
    · rw [given] at read
      cases read
      exact ⟨digits, afterMark?_eq_some_iff.1 marked, spells, fits⟩
    · rw [refused] at read
      cases read

theorem read_of_isForm {text : String} {digits : List Char} {a : Address}
    (form : IsForm digits a (trim text.toList)) : Address.read text = .ok a := by
  rcases read_marked (afterMark?_eq_some_iff.2 form.marked) with ⟨b, spells, _, given⟩ | ⟨none, _⟩
  · rw [given, ← (spells_iff.1 spells).2, (spells_iff.1 form.spells).2]
  · exact absurd form.caseFits (none a form.spells)

/-- A text that is no form of an address is refused, whatever is wrong with it. -/
theorem read_refused {text : String}
    (formless : ∀ digits a, ¬IsForm digits a (trim text.toList)) :
    ∃ cause, Address.read text = .error (.invalidValue "" "address" (quoted text) cause) := by
  cases marked : afterMark? (trim text.toList) with
  | none => exact ⟨_, read_unmarked marked⟩
  | some digits =>
    rcases read_marked marked with ⟨a, spells, fits, _⟩ | ⟨_, refused⟩
    · exact absurd ⟨afterMark?_eq_some_iff.1 marked, spells, fits⟩ (formless digits a)
    · exact refused

/-- A mixed-case text that is read as the address has the digits of the checksum. -/
theorem text_of_isMixed {text : String} {digits : List Char} {a : Address}
    (mixed : IsMixed digits) (marked : IsMarked digits (trim text.toList))
    (read : Address.read text = .ok a) : a.text.toList = 'Z' :: digits := by
  obtain ⟨others, form⟩ := exists_isForm_of_read read
  have same := afterMark?_eq_some_iff.2 marked
  rw [afterMark?_eq_some_iff.2 form.marked] at same
  cases same
  exact form.caseFits.of_isMixed mixed

/-- A text is read as an address exactly when between its white space it is a form of it, and every
other text is refused as an invalid value. The checksummed text of an address is read back, and
mixed-case texts of one address have the same digits. -/
theorem read_eq_ok_iff (text : String) :
    (∀ a, Address.read text = .ok a ↔ ∃ digits, IsForm digits a (trim text.toList)) ∧
      ((∀ digits a, ¬IsForm digits a (trim text.toList)) →
        ∃ cause, Address.read text = .error (.invalidValue "" "address" (quoted text) cause)) ∧
      (∀ a : Address, Address.read a.text = .ok a) ∧
      ∀ (other : String) (a : Address) (digits more : List Char), IsMixed digits → IsMixed more →
        IsMarked digits (trim text.toList) → IsMarked more (trim other.toList) →
        Address.read text = .ok a → Address.read other = .ok a → digits = more := by
  refine ⟨fun a => ⟨exists_isForm_of_read, fun ⟨_, form⟩ => read_of_isForm form⟩, read_refused,
    read_text, fun other a digits more mixed mixedToo marked markedToo read readToo => ?_⟩
  have first := text_of_isMixed mixed marked read
  have second := text_of_isMixed mixedToo markedToo readToo
  rw [first] at second
  exact (List.cons.inj second).2

/-- An address in capitals, twice in the case of its checksum, and with the case of its last letter
turned. -/
theorem read_checksummed :
    let a : Address := 0x5aaeb6053f3e94c9b9a09f33669435e7ef1beaed
    Address.read "z5AAEB6053F3E94C9B9A09F33669435E7EF1BEAED" = .ok a ∧
      Address.read a.text = .ok a ∧
      Address.read " 0X5aAeb6053F3E94C9b9A09f33669435E7Ef1BeAed\n" = .ok a ∧
      checksumDigits a.toBytes = "5aAeb6053F3E94C9b9A09f33669435E7Ef1BeAed".toList ∧
      ∃ cause, Address.read "Z5aAeb6053F3E94C9b9A09f33669435E7Ef1BeAeD" =
        .error (.invalidValue "" "address"
          (quoted "Z5aAeb6053F3E94C9b9A09f33669435E7Ef1BeAeD") cause) := by
  intro a
  have checksum : checksumDigits a.toBytes = "5aAeb6053F3E94C9b9A09f33669435E7Ef1BeAed".toList := by
    decide +kernel
  have spells : Spells "5aAeb6053F3E94C9b9A09f33669435E7Ef1BeAed".toList a := by
    unfold Spells
    decide +kernel
  have mixed : IsMixed "5aAeb6053F3E94C9b9A09f33669435E7Ef1BeAed".toList :=
    ⟨⟨'a', by decide +kernel, rfl⟩, 'A', by decide +kernel, rfl⟩
  have marked : IsMarked "5aAeb6053F3E94C9b9A09f33669435E7Ef1BeAed".toList
      (trim " 0X5aAeb6053F3E94C9b9A09f33669435E7Ef1BeAed\n".toList) :=
    ⟨['0', 'X'], by decide, rfl⟩
  have capitals : Address.read "z5AAEB6053F3E94C9B9A09F33669435E7EF1BEAED" = .ok a := by
    refine ((read_eq_ok_iff _).1 a).2 ⟨"5AAEB6053F3E94C9B9A09F33669435E7EF1BEAED".toList,
      ⟨['z'], by decide, rfl⟩, ?_, .capital fun c member => ?_⟩
    · unfold Spells
      decide +kernel
    · exact Bool.eq_false_iff.2 (List.any_eq_false.1 rfl c member)
  obtain ⟨accepted, _, back, one⟩ :=
    read_eq_ok_iff " 0X5aAeb6053F3E94C9b9A09f33669435E7Ef1BeAed\n"
  have read := (accepted a).2 ⟨_, marked, spells, .checksum (by rw [toList_text, checksum])⟩
  have mixedToo : IsMixed (checksumDigits a.toBytes) := by
    rw [checksum]
    exact mixed
  have own : IsMarked (checksumDigits a.toBytes) (trim a.text.toList) := by
    refine ⟨['Z'], by decide, ?_⟩
    rw [toList_text, checksum]
    rfl
  refine ⟨capitals, back a, read, ?_, (read_eq_ok_iff _).2.1 fun digits b form => ?_⟩
  · exact (one a.text a _ _ mixed mixedToo marked own read (back a)).symm
  · have found : afterMark? (trim "Z5aAeb6053F3E94C9b9A09f33669435E7Ef1BeAeD".toList) =
        some "5aAeb6053F3E94C9b9A09f33669435E7Ef1BeAeD".toList := rfl
    rw [afterMark?_eq_some_iff.2 form.marked] at found
    cases found
    obtain rfl : a = b := (spells_iff.1 form.spells).2
    have same := form.caseFits.of_isMixed
      ⟨⟨'a', by decide +kernel, rfl⟩, 'A', by decide +kernel, rfl⟩
    rw [toList_text, checksum] at same
    exact absurd same (by decide)

end Address

end AbiCodec
