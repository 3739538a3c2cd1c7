import AbiCodec.Proofs.Bytes
import AbiCodec.IntegerText
import AbiCodec.Address
import Mathlib.Data.List.DropRight

/-!
# Reading the texts of values back

Bytes, addresses and integers are read back from the texts that are written for
them. The digits of an address keep their values under the capitals of the
checksum, whatever the hash is.
-/

namespace AbiCodec

theorem trimStart_of_head? {text : List Char}
    (first : ∀ c, text.head? = some c → isWhiteSpace c = false) : trimStart text = text := by
  cases text with
  | nil => rfl
  | cons c rest => rw [trimStart, List.dropWhile_cons, first c rfl, if_neg Bool.false_ne_true]

/-- A text that neither starts nor ends with white space is left as it is. -/
theorem trim_of_ends {text : List Char}
    (first : ∀ c, text.head? = some c → isWhiteSpace c = false)
    (last : ∀ c, text.getLast? = some c → isWhiteSpace c = false) : trim text = text := by
  have stop : trimEnd text = text := by
    apply List.rdropWhile_eq_self_iff.2
    intro some white
    rw [last _ (List.getLast?_eq_some_getLast some)] at white
    cases white
  rw [trim, trimStart_of_head? first, stop]

theorem trimStart_eq_self {text : List Char} (solid : ∀ c ∈ text, isWhiteSpace c = false) :
    trimStart text = text :=
  trimStart_of_head? fun c first => solid c (List.mem_of_head? first)

/-- A text without white space is left as it is. -/
theorem trim_eq_self {text : List Char} (solid : ∀ c ∈ text, isWhiteSpace c = false) :
    trim text = text :=
  trim_of_ends (fun c first => solid c (List.mem_of_head? first))
    fun c last => solid c (List.mem_of_getLast? last)

theorem head?_trimStart {text : List Char} {c : Char} (first : (trimStart text).head? = some c) :
    isWhiteSpace c = false := by
  have solid := List.head?_dropWhile_not isWhiteSpace text
  rw [trimStart] at first
  rw [first] at solid
  exact solid

theorem head?_trim {text : List Char} {c : Char} (first : (trim text).head? = some c) :
    isWhiteSpace c = false := by
  obtain ⟨rest, whole⟩ : trim text <+: trimStart text := List.rdropWhile_prefix _ _
  have start : (trimStart text).head? = some c := by
    rw [← whole, List.head?_append, first]
    rfl
  exact head?_trimStart start

theorem getLast?_trim {text : List Char} {c : Char} (last : (trim text).getLast? = some c) :
    isWhiteSpace c = false := by
  rw [trim, trimEnd, List.getLast?_reverse] at last
  exact head?_trimStart last

theorem trim_trim (text : List Char) : trim (trim text) = trim text :=
  trim_of_ends (fun _ => head?_trim) fun _ => getLast?_trim

theorem utf8Bytes_ofList (text : List Char) :
    utf8Bytes (String.ofList text) = text.flatMap String.utf8EncodeChar := by
  simp [utf8Bytes, String.toUTF8, List.utf8Encode]

/-! ### Bytes -/

namespace Hex

theorem digit_lt (n : Nat) : n % 16 < 16 := Nat.mod_lt n (by decide)

theorem digitValue?_digit (n : Nat) : digitValue? (digit n) = some (n % 16) :=
  (by decide : ∀ n < 16, digitValue? (Nat.digitChar n) = some n) _ (digit_lt n)

theorem digit_solid (n : Nat) : isWhiteSpace (digit n) = false :=
  (by decide : ∀ n < 16, isWhiteSpace (Nat.digitChar n) = false) _ (digit_lt n)

/-- The byte of a digit. -/
def digitByte (n : Nat) : UInt8 := UInt8.ofNat (digit n).toNat

theorem utf8EncodeChar_digit (n : Nat) : String.utf8EncodeChar (digit n) = [digitByte n] :=
  (by decide : ∀ n < 16, String.utf8EncodeChar (Nat.digitChar n) =
    [UInt8.ofNat (Nat.digitChar n).toNat]) _ (digit_lt n)

theorem digitValue?_digitByte (n : Nat) :
    digitValue? (Char.ofNat (digitByte n).toNat) = some (n % 16) :=
  (by decide : ∀ n < 16, digitValue? (Char.ofNat (UInt8.ofNat (Nat.digitChar n).toNat).toNat) =
    some n) _ (digit_lt n)

theorem ofBytes_cons (b : UInt8) (data : Bytes) :
    ofBytes (b :: data) = digit (b.toNat / 16) :: digit b.toNat :: ofBytes data := rfl

theorem length_ofBytes (data : Bytes) : (ofBytes data).length = 2 * data.length := by
  induction data with
  | nil => rfl
  | cons b data ih =>
    rw [ofBytes_cons, List.length_cons, List.length_cons, ih, List.length_cons]
    omega

theorem exists_of_mem_ofBytes {data : Bytes} {c : Char} (member : c ∈ ofBytes data) :
    ∃ n, c = digit n := by
  obtain ⟨b, _, inByte⟩ := List.mem_flatMap.1 member
  rcases List.mem_cons.1 inByte with rfl | inByte
  · exact ⟨_, rfl⟩
  · exact ⟨_, List.mem_singleton.1 inByte⟩

theorem ofNat_halves (b : UInt8) :
    UInt8.ofNat (b.toNat / 16 % 16 * 16 + b.toNat % 16) = b := by
  have byte := b.toNat_lt
  have halves : b.toNat / 16 % 16 * 16 + b.toNat % 16 = b.toNat := by omega
  rw [halves, UInt8.ofNat_toNat]

theorem utf8Bytes_ofBytes_cons (b : UInt8) (data : Bytes) :
    utf8Bytes (String.ofList (ofBytes (b :: data))) =
      digitByte (b.toNat / 16) :: digitByte b.toNat :: utf8Bytes (String.ofList (ofBytes data)) := by
  simp only [utf8Bytes_ofList, ofBytes_cons, List.flatMap_cons, utf8EncodeChar_digit,
    List.singleton_append]

theorem readPairs_ofBytes (data : Bytes) (position : Nat) :
    readPairs position (utf8Bytes (String.ofList (ofBytes data))) = .ok data := by
  induction data generalizing position with
  | nil =>
    rw [utf8Bytes_ofList]
    rfl
  | cons b data ih =>
    rw [utf8Bytes_ofBytes_cons, readPairs]
    simp only [digitValue?_digitByte, ih]
    exact congrArg (fun first => Except.ok (first :: data)) (ofNat_halves b)

theorem length_utf8Bytes_ofBytes (data : Bytes) :
    (utf8Bytes (String.ofList (ofBytes data))).length = 2 * data.length := by
  induction data with
  | nil =>
    rw [utf8Bytes_ofList]
    rfl
  | cons b data ih =>
    rw [utf8Bytes_ofBytes_cons, List.length_cons, List.length_cons, ih, List.length_cons]
    omega

theorem read_ofBytes (data : Bytes) :
    read (utf8Bytes (String.ofList (ofBytes data))) = .ok data := by
  rw [read, length_utf8Bytes_ofBytes, if_pos (Nat.mul_mod_right 2 _), readPairs_ofBytes]

/-- Only the values of the digits have a say in the number. -/
theorem toNat_congr {digits others : List Char}
    (same : digits.map digitValue? = others.map digitValue?) : toNat digits = toNat others := by
  have values (text : List Char) :
      toNat text = (text.map digitValue?).foldl (fun high v => high * 16 + v.getD 0) 0 := by
    rw [List.foldl_map]
    rfl
  rw [values, values, same]

theorem foldl_toNat_ofBytes (data : Bytes) (high : Nat) :
    (ofBytes data).foldl (fun high c => high * 16 + (digitValue? c).getD 0) high =
      data.foldl (fun high b => high * 256 + b.toNat) high := by
  induction data generalizing high with
  | nil => rfl
  | cons b data ih =>
    have byte := b.toNat_lt
    rw [ofBytes_cons, List.foldl_cons, List.foldl_cons, ih, List.foldl_cons, digitValue?_digit,
      digitValue?_digit, Option.getD_some, Option.getD_some]
    congr 1
    omega

/-- The digits of bytes are the digits of the number that the bytes are. -/
theorem toNat_ofBytes (data : Bytes) : toNat (ofBytes data) = Bytes.toNat data :=
  foldl_toNat_ofBytes data 0

end Hex

/-- The text of bytes is read back to the bytes. -/
theorem readHexText_hexText (data : Bytes) : readHexText (hexText data) = .ok data := by
  have solid : ∀ c ∈ '0' :: 'x' :: Hex.ofBytes data, isWhiteSpace c = false := by
    simp only [List.forall_mem_cons]
    refine ⟨by decide, by decide, fun c member => ?_⟩
    obtain ⟨n, rfl⟩ := Hex.exists_of_mem_ofBytes member
    exact Hex.digit_solid n
  rw [readHexText, hexText, String.toList_ofList, trim_eq_self solid]
  exact Hex.read_ofBytes data

/-! ### Addresses -/

namespace Address

theorem checksumDigit_digit (n nibble : Nat) :
    Hex.digitValue? (checksumDigit (Hex.digit n) nibble) = some (n % 16) ∧
      isWhiteSpace (checksumDigit (Hex.digit n) nibble) = false := by
  have upper := (by decide : ∀ n < 16, Hex.digitValue? (Nat.digitChar n).toUpper = some n ∧
    isWhiteSpace (Nat.digitChar n).toUpper = false) _ (Hex.digit_lt n)
  rw [checksumDigit]
  split
  · exact upper
  · exact ⟨Hex.digitValue?_digit n, Hex.digit_solid n⟩

theorem length_nibbles (data : Bytes) : (nibbles data).length = 2 * data.length := by
  induction data with
  | nil => rfl
  | cons b data ih =>
    have cons : nibbles (b :: data) = b.toNat / 16 :: b.toNat % 16 :: nibbles data := rfl
    rw [cons, List.length_cons, List.length_cons, ih, List.length_cons]
    omega

/-- The capitals of the checksum change no value and bring no white space in. -/
theorem zipWith_checksumDigit {digits : List Char} (written : ∀ c ∈ digits, ∃ n, c = Hex.digit n)
    {hash : List Nat} (enough : digits.length ≤ hash.length) :
    (List.zipWith checksumDigit digits hash).map Hex.digitValue? = digits.map Hex.digitValue? ∧
      ∀ c ∈ List.zipWith checksumDigit digits hash,
        Hex.isDigit c = true ∧ isWhiteSpace c = false := by
  induction digits generalizing hash with
  | nil => exact ⟨rfl, fun _ member => absurd member List.not_mem_nil⟩
  | cons c digits ih =>
    obtain ⟨⟨n, rfl⟩, others⟩ := List.forall_mem_cons.1 written
    obtain ⟨nibble, hash, rfl⟩ := List.exists_cons_of_length_pos
      (Nat.lt_of_lt_of_le (Nat.succ_pos _) enough)
    obtain ⟨value, solid⟩ := checksumDigit_digit n nibble
    obtain ⟨values, each⟩ := ih others (Nat.le_of_succ_le_succ enough)
    rw [List.zipWith_cons_cons, List.map_cons, List.map_cons, value, values, Hex.digitValue?_digit]
    refine ⟨rfl, List.forall_mem_cons.2 ⟨⟨?_, solid⟩, each⟩⟩
    rw [Hex.isDigit, value]
    rfl

theorem toNat_toBytes (a : Address) : Bytes.toNat a.toBytes = a.toNat := by
  have whole : (256 : Nat) ^ size = 2 ^ 160 := by decide
  rw [toBytes, Bytes.toNat_ofNat, whole, Nat.mod_eq_of_lt a.isLt]

theorem length_ofBytes_toBytes (a : Address) : (Hex.ofBytes a.toBytes).length = 2 * size := by
  rw [Hex.length_ofBytes, toBytes, Bytes.length_ofNat]

/-- Of the hash only its length is of use here. -/
theorem exists_checksumDigits_eq (raw : Bytes) : ∃ hash : List Nat, hash.length = 64 ∧
    checksumDigits raw = List.zipWith checksumDigit (Hex.ofBytes raw) hash := by
  refine ⟨_, ?_, rfl⟩
  rw [length_nibbles, keccak256Bytes, Word.length_toBytes, wordSize]

/-- The text of an address is read back to the address. -/
theorem read_text (a : Address) : Address.read a.text = .ok a := by
  obtain ⟨hash, long, checksum⟩ := exists_checksumDigits_eq a.toBytes
  have digits := a.length_ofBytes_toBytes
  have enough : (Hex.ofBytes a.toBytes).length ≤ hash.length := by
    rw [digits, long]
    decide
  obtain ⟨values, each⟩ :=
    zipWith_checksumDigit (fun c member => Hex.exists_of_mem_ofBytes member) enough
  rw [← checksum] at values each
  have solid : ∀ c ∈ 'Z' :: checksumDigits a.toBytes, isWhiteSpace c = false :=
    List.forall_mem_cons.2 ⟨by decide, fun c member => (each c member).2⟩
  have hexadecimal : (checksumDigits a.toBytes).all Hex.isDigit = true :=
    List.all_eq_true.2 fun c member => (each c member).1
  have length : (checksumDigits a.toBytes).length = 2 * size := by
    rw [checksum, List.length_zipWith, long, digits]
    rfl
  have number : BitVec.ofNat 160 (Hex.toNat (checksumDigits a.toBytes)) = a := by
    rw [Hex.toNat_congr values, Hex.toNat_ofBytes, toNat_toBytes, BitVec.ofNat_toNat,
      BitVec.setWidth_eq]
  have right : caseIsRight (checksumDigits a.toBytes) a = true := by
    rw [caseIsRight, beq_self_eq_true, Bool.or_true]
  have marked : afterMark? (trim (text a).toList) = some (checksumDigits a.toBytes) := by
    rw [text, checksumText, String.toList_ofList, trim_eq_self solid, afterMark?]
  have formed : ((checksumDigits a.toBytes).length = 2 * size &&
      (checksumDigits a.toBytes).all Hex.isDigit) = true := by
    rw [hexadecimal, Bool.and_true, decide_eq_true length]
  rw [Address.read, marked]
  dsimp only
  rw [if_pos formed, number, if_pos right]

end Address

/-! ### Integers -/

namespace IntegerText

theorem isWhiteSpace_of_isDigit {c : Char} (digit : c.isDigit = true) : isWhiteSpace c = false := by
  simp only [Char.isDigit, Bool.and_eq_true, decide_eq_true_eq, ge_iff_le, UInt32.le_iff_toNat_le]
    at digit
  have low : 48 ≤ c.toNat := digit.1
  have high : c.toNat ≤ 57 := digit.2
  simp only [isWhiteSpace, Bool.or_eq_false_iff, Bool.and_eq_false_iff, decide_eq_false_iff_not,
    beq_eq_false_iff_ne]
  omega

theorem solid_ofNat (n : Nat) : ∀ c ∈ Decimal.ofNat n, isWhiteSpace c = false :=
  fun _ member => isWhiteSpace_of_isDigit (Decimal.isDigit_of_mem_ofNat member)

theorem afterHexMark?_ofNat (n : Nat) : afterHexMark? (Decimal.ofNat n) = none := by
  have digits {c : Char} := Decimal.isDigit_of_mem_ofNat (n := n) (c := c)
  unfold afterHexMark?
  split
  · next text => cases digits (by rw [text]; exact List.mem_cons_of_mem _ List.mem_cons_self)
  · next text => cases digits (by rw [text]; exact List.mem_cons_of_mem _ List.mem_cons_self)
  · rfl

theorem readUnsigned?_ofNat (n : Nat) : readUnsigned? (Decimal.ofNat n) = word? n := by
  simp only [readUnsigned?, trim_eq_self (solid_ofNat _), afterHexMark?_ofNat, Decimal.read?_ofNat,
    Option.bind_some]

theorem word?_toNat (w : Word) : word? w.toNat = some w := by
  have bound : w.toNat < 1 <<< 256 := w.isLt
  rw [word?, if_pos bound, BitVec.ofNat_toNat, BitVec.setWidth_eq]

/-- A word that is not negative is written without a sign. -/
theorem ofInt_of_msb_eq_false {w : Word} (positive : w.msb = false) :
    Decimal.ofInt w.toInt = Decimal.ofNat w.toNat := by
  have value := BitVec.toInt_eq_toNat_of_msb positive
  have sign : ¬(w.toNat : Int) < 0 := by omega
  rw [Decimal.ofInt, value, if_neg sign, Int.natAbs_natCast]

theorem toNat_neg_of_msb_eq_true {w : Word} (negative : w.msb = true) :
    (-w).toNat = 2 ^ 256 - w.toNat ∧ 2 ^ 255 ≤ w.toNat := by
  rw [BitVec.msb_eq_decide, decide_eq_true_iff] at negative
  rw [BitVec.toNat_neg]
  omega

/-- A negative word is written as a minus sign and its magnitude. -/
theorem ofInt_of_msb_eq_true {w : Word} (negative : w.msb = true) :
    Decimal.ofInt w.toInt = '-' :: Decimal.ofNat (-w).toNat := by
  obtain ⟨magnitude, _⟩ := toNat_neg_of_msb_eq_true negative
  have value : w.toInt = w.toNat - 2 ^ 256 := by
    rw [BitVec.toInt_eq_msb_cond, negative, if_pos rfl]
    rfl
  have within := w.isLt
  have sign : w.toInt < 0 := by omega
  have size : w.toInt.natAbs = (-w).toNat := by omega
  rw [Decimal.ofInt, if_pos sign, size]

end IntegerText

end AbiCodec
