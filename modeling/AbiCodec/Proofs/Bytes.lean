import AbiCodec.Count
import AbiCodec.Text.Hex
import AbiCodec.Text.Utf8
import AbiCodec.Word
import Mathlib.Algebra.BigOperators.Group.List.Basic
import Mathlib.Algebra.Order.Ring.Int
import Mathlib.Tactic.Common

/-!
# Byte strings in words

Whole words, slices inside their bounds, and the numbers that words hold.
-/

namespace AbiCodec

theorem lt_maxCount {n : Nat} (h : n < 2 ^ 63) : n < maxCount := by
  simp only [maxCount]
  omega

theorem lt_countLimit {n : Nat} (h : n < 2 ^ 63) : n < countLimit := by
  simp only [countLimit]
  omega

namespace Bytes

theorem toNat_append_singleton (data : Bytes) (b : UInt8) :
    toNat (data ++ [b]) = toNat data * 256 + b.toNat := by
  simp [toNat]

theorem toNat_ofNat (width n : Nat) : toNat (ofNat width n) = n % 256 ^ width := by
  induction width generalizing n with
  | zero => simp [ofNat, toNat, Nat.mod_one]
  | succ width ih =>
    have low : (UInt8.ofNat n).toNat = n % 256 := by simp
    rw [ofNat, toNat_append_singleton, ih, low, Nat.pow_succ, Nat.mul_comm (256 ^ width) 256,
      Nat.mod_mul, Nat.mul_comm (n / 256 % 256 ^ width) 256, Nat.add_comm]

theorem le_alignedLength (length : Nat) : length ≤ alignedLength length := by
  simp only [alignedLength, wordSize]
  omega

theorem wordSize_dvd_alignedLength (length : Nat) : wordSize ∣ alignedLength length :=
  Nat.dvd_mul_left _ _

theorem alignedLength_wordSize : alignedLength wordSize = wordSize := rfl

/-- Up to one word is one word. -/
theorem alignedLength_of_le_wordSize {length : Nat} (pos : 0 < length) (le : length ≤ wordSize) :
    alignedLength length = wordSize := by
  simp only [alignedLength, wordSize] at le ⊢
  omega

theorem wordSize_dvd_length_padded (data : Bytes) : wordSize ∣ (padded data).length := by
  rw [length_padded]
  exact wordSize_dvd_alignedLength _

theorem slice?_of_le {data : Bytes} {start stop : Nat} (ordered : start ≤ stop)
    (inside : stop ≤ data.length) :
    slice? data start stop = some ((data.drop start).take (stop - start)) :=
  if_pos ⟨ordered, inside⟩

theorem slice?_start {data : Bytes} {length : Nat} (inside : length ≤ data.length) :
    slice? data 0 length = some (data.take length) := by
  rw [slice?_of_le (Nat.zero_le _) inside, List.drop_zero, Nat.sub_zero]

theorem slice?_end {data : Bytes} {start : Nat} (inside : start ≤ data.length) :
    slice? data start data.length = some (data.drop start) := by
  rw [slice?_of_le inside (Nat.le_refl _), ← List.length_drop, List.take_length]

end Bytes

namespace Word

theorem ofBytes?_toBytes (w : Word) : ofBytes? w.toBytes = some w := by
  have size : (256 : Nat) ^ wordSize = 2 ^ 256 := by decide
  have value : Bytes.toNat w.toBytes = w.toNat := by
    rw [toBytes, Bytes.toNat_ofNat, size, Nat.mod_eq_of_lt w.isLt]
  rw [ofBytes?, if_pos (length_toBytes w), value, BitVec.ofNat_toNat, BitVec.setWidth_eq]

/-- The word whose bytes start the data. -/
def first (data : Bytes) : Word := BitVec.ofNat 256 (Bytes.toNat (data.take wordSize))

theorem ofBytes?_take {data : Bytes} (h : wordSize ≤ data.length) :
    ofBytes? (data.take wordSize) = some (first data) := by
  rw [ofBytes?, if_pos (List.length_take_of_le h), first]

theorem first_append (w : Word) (rest : Bytes) : first (w.toBytes ++ rest) = w := by
  have taken : (w.toBytes ++ rest).take wordSize = w.toBytes := by
    rw [← length_toBytes w, List.take_left]
  have long : wordSize ≤ (w.toBytes ++ rest).length := by
    rw [List.length_append, length_toBytes]
    exact Nat.le_add_right _ _
  have whole := ofBytes?_take long
  rw [taken, ofBytes?_toBytes] at whole
  exact (Option.some.inj whole).symm

theorem toNat_ofNat_of_lt {n : Nat} (h : n < countLimit) : (BitVec.ofNat 256 n).toNat = n := by
  rw [BitVec.toNat_ofNat]
  apply Nat.mod_eq_of_lt
  simp only [countLimit] at h
  omega

end Word

theorem Utf8.decode_utf8Bytes (text : String) : Utf8.decode (utf8Bytes text) = .ok text := by
  have valid : String.fromUTF8? text.toUTF8 = some text := by
    unfold String.fromUTF8?
    rw [String.toUTF8_eq_toByteArray, dif_pos text.isValidUTF8]
    rfl
  have bytes : ByteArray.mk (utf8Bytes text).toArray = text.toUTF8 := by
    rw [utf8Bytes, Array.toArray_toList]
  rw [decode, bytes, valid]

end AbiCodec
