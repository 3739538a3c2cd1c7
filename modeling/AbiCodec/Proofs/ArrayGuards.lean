import AbiCodec.Proofs.CursorSteps

/-!
# The guards on array lengths

Before its elements are read, the decoder of an array compares their number with
the data that is left. Each element moves the cursor by its width, so elements that
can be read have all the bytes that the guard asks for: a guard refuses only what
the elements would refuse.
-/

namespace AbiCodec

open Reading

namespace Layout

/-- Reads the number of elements, and asks for nothing. -/
def bareCount : ArrayLength → Reading Nat
  | .fixed n => pure n
  | .dynamic => Reading.count "array"

/-- Reads an array whatever the number of its elements. -/
def decodeUnguarded (element : Layout) (length : ArrayLength) : Reading Value := do
  let count ← bareCount length
  element.elements count

/-- Elements that were read have stood within the data, each with its width. -/
theorem room_of_elements {element : Layout} {count : Nat} {r after : Reader} {v : Value}
    (run : (element.elements count).runFrom r = (.ok v, after)) :
    r.offset + count * element.headWidth ≤ r.data.length := by
  obtain ⟨_, _, block, _⟩ := exists_of_runFrom_bind run
  exact (spans_elements element.spans_decode count (startsInside_readBlock _ block) run).2

/-- The guard passes the number of elements that can be read. -/
theorem readCount_of_elements {l element : Layout} {length : ArrayLength} {count : Nat}
    {r mid after : Reader} {v : Value} (sized : length = .dynamic → element.headSize ≠ 0)
    (counted : (bareCount length).runFrom r = (.ok count, mid))
    (run : (element.elements count).runFrom mid = (.ok v, after)) :
    (l.readCount element length).runFrom r = (.ok count, mid) := by
  have room := room_of_elements run
  cases length with
  | fixed n =>
    obtain ⟨rfl, rfl⟩ : n = count ∧ r = mid := by
      cases counted
      exact ⟨rfl, rfl⟩
    have product : saturatingMul element.headSize n ≤ n * element.headWidth := by
      rw [Nat.mul_comm n]
      exact Nat.le_trans (Nat.min_le_left _ _)
        (Nat.mul_le_mul_right n element.headSize_le_headWidth)
    exact fixedCount_eq_ok_iff.2 ⟨⟨rfl, rfl⟩, by omega, by omega⟩
  | dynamic =>
    -- The guard asks for a word for each element in all the data, the part before the count
    -- included, and the elements stand behind the count.
    have word : wordSize ≤ element.headWidth :=
      Nat.le_trans ((headSize_eq_zero_or_le element).resolve_left (sized rfl))
        element.headSize_le_headWidth
    have words := Nat.mul_le_mul_left count word
    have product : saturatingMul count wordSize ≤ count * wordSize := Nat.min_le_left _ _
    have read := counted
    rw [bareCount, count_eq_checked] at read
    obtain ⟨w, read, _⟩ := exists_of_runFrom_checked read
    obtain ⟨_, _, rfl⟩ := of_runFrom_word read
    rw [Reader.consume] at room
    dsimp only at room
    exact dynamicCount_eq_ok_iff.2 ⟨counted, by omega⟩

theorem readCount_eq_bareCount {l element : Layout} {length : ArrayLength} {count : Nat}
    {r mid : Reader} (counted : (l.readCount element length).runFrom r = (.ok count, mid)) :
    (bareCount length).runFrom r = (.ok count, mid) := by
  cases length with
  | fixed n =>
    obtain ⟨⟨rfl, rfl⟩, _⟩ := fixedCount_eq_ok_iff.1 counted
    rfl
  | dynamic => exact (dynamicCount_eq_ok_iff.1 counted).1

/-- An array whose elements are not empty by type reads as it would without its guard, from every
reader: the guard refuses no data that the elements would accept, and changes nothing of what is
read. The elements of a dynamic array are entered only with as many as the data has words. -/
theorem decode_array_guarded (name : Option String) (element : Layout) (length : ArrayLength)
    (r : Reader) :
    (array name element length).decode =
        (array name element length).readCount element length >>= element.elements ∧
      ((length = .dynamic → element.headSize ≠ 0) → ∀ v after,
        (array name element length).decode.runFrom r = (.ok v, after) ↔
          (element.decodeUnguarded length).runFrom r = (.ok v, after)) ∧
      (length = .dynamic → r.data.length < 2 ^ 63 → ∀ count mid,
        ((array name element length).readCount element length).runFrom r = (.ok count, mid) →
          count * wordSize ≤ r.data.length) := by
  have guarded := decode_array name element length
  refine ⟨guarded, ?_, ?_⟩
  · intro sized v after
    rw [guarded]
    constructor
    · intro run
      obtain ⟨count, mid, counted, looped⟩ := exists_of_runFrom_bind run
      rw [decodeUnguarded, runFrom_bind_of_ok (readCount_eq_bareCount counted)]
      exact looped
    · intro run
      obtain ⟨count, mid, counted, looped⟩ := exists_of_runFrom_bind run
      rw [runFrom_bind_of_ok (readCount_of_elements sized counted looped)]
      exact looped
  · rintro rfl small count mid counted
    have enough := (dynamicCount_eq_ok_iff.1 counted).2
    have limit := lt_maxCount small
    rw [saturatingMul] at enough
    omega

set_option maxRecDepth 8000 in
/-- Two words that end the data, counted by a word in its middle. -/
theorem decode_array_guarded_lastWords :
    let word := number none ⟨1, by decide, by decide⟩ false
    let data := [7#256, 2#256, 8#256, 9#256].flatMap Word.toBytes
    let r : Reader := ⟨data, 32, false, none, ⟨32, 128, 2⟩⟩
    let after : Reader := { r with offset := 128, budget := ⟨128, 128, 2⟩ }
    word.headSize ≠ 0 ∧ data.length < 2 ^ 63 ∧
      (array none word .dynamic).decode.runFrom r = (.ok (.array [.uint 8, .uint 9]), after) ∧
      (word.decodeUnguarded .dynamic).runFrom r = (.ok (.array [.uint 8, .uint 9]), after) ∧
      2 * wordSize ≤ data.length := by
  have guarded := decode_array_guarded none (number none ⟨1, by decide, by decide⟩ false) .dynamic
    ⟨[7#256, 2#256, 8#256, 9#256].flatMap Word.toBytes, 32, false, none, ⟨32, 128, 2⟩⟩
  obtain ⟨_, same, few⟩ := guarded
  exact ⟨by decide, by decide, rfl, (same (fun _ => by decide) _ _).1 rfl,
    few rfl (by decide) 2 ⟨_, 64, false, none, ⟨64, 128, 2⟩⟩ rfl⟩

end Layout

end AbiCodec
