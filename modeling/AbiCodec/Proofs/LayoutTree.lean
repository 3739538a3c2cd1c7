import AbiCodec.Layout.Decode
import AbiCodec.Layout.Encode
import AbiCodec.Proofs.ReadOutcomes

/-!
# Layouts as trees

The induction over a layout has one case for each kind; in the case of a tuple
the hypothesis speaks of every component. The functions that run over the
components of a tuple are maps over the list of them, and a value that has to
pass a check is read and then checked.
-/

namespace AbiCodec

namespace Layout

@[elab_as_elim, induction_eliminator]
theorem induction {motive : Layout → Prop}
    (address : ∀ name, motive (.address name))
    (bool : ∀ name, motive (.bool name))
    (number : ∀ name width isSigned, motive (.number name width isSigned))
    (fixedBytes : ∀ name width, motive (.fixedBytes name width))
    (bytes : ∀ name, motive (.bytes name))
    (string : ∀ name, motive (.string name))
    (null : ∀ name, motive (.null name))
    (array : ∀ name element length, motive element → motive (.array name element length))
    (tuple : ∀ name components, (∀ c ∈ components, motive c) → motive (.tuple name components))
    (l : Layout) : motive l :=
  @Layout.rec motive (fun components => ∀ c ∈ components, motive c)
    address bool number fixedBytes bytes string null array tuple
    (fun _ member => absurd member List.not_mem_nil)
    (fun _ _ head tail _ member => by
      rcases List.mem_cons.1 member with rfl | member
      · exact head
      · exact tail _ member)
    l

/-- A layout as a child of a block. -/
def part (l : Layout) : Part := ⟨l.isDynamic, l.kindName, l.decode⟩

theorem parts_eq_map (components : List Layout) : parts components = components.map part := by
  induction components with
  | nil => rfl
  | cons c components ih => rw [parts, ih, List.map_cons, part]

theorem anyDynamic_eq_any (components : List Layout) :
    anyDynamic components = components.any isDynamic := by
  induction components with
  | nil => rfl
  | cons c components ih => rw [anyDynamic, ih, List.any_cons]

theorem anyDynamic_eq_false_iff {components : List Layout} :
    anyDynamic components = false ↔ ∀ c ∈ components, c.isDynamic = false := by
  simp only [anyDynamic_eq_any, List.any_eq_false, Bool.not_eq_true]

/-- The elements of a static array are static, however many they are. -/
theorem anyDynamic_replicate_of_static {element : Layout} (static : element.isDynamic = false)
    (count : Nat) : anyDynamic (List.replicate count element) = false :=
  anyDynamic_eq_false_iff.2 (List.forall_mem_replicate.2 (Or.inr static))

theorem readAddress_eq_checked :
    readAddress = Reading.checked Reading.word fun r w =>
      if w.toNat < 1 <<< 160 then .ok (.address (w.setWidth 160))
      else .error (.malformedData "address" .addressHighBytes r.data.length r.offset) := by
  funext r
  unfold readAddress Reading.checked
  rcases Reading.word.runFrom r with ⟨outcome, after⟩
  cases outcome with
  | error e => rfl
  | ok w => by_cases low : w.toNat < 1 <<< 160 <;> simp only [low, if_true, if_false]

theorem readText_eq_checked :
    readText = Reading.checked (readPayload "string") fun r data =>
      match Utf8.decode data with
      | .ok text => .ok (.string text)
      | .error fault => .error (.malformedData "string" (.invalidUtf8 fault) r.data.length r.offset) := by
  funext r
  unfold readText Reading.checked
  rcases (readPayload "string").runFrom r with ⟨outcome, after⟩
  cases outcome with
  | error e => rfl
  | ok data => cases decoded : Utf8.decode data <;> simp only [decoded]

theorem dynamicCount_eq_checked (l : Layout) :
    l.dynamicCount = Reading.checked (Reading.count "array") fun r n =>
      if r.data.length < saturatingMul n wordSize then
        .error (.malformedData l.typeText .insufficientLength r.data.length r.offset)
      else .ok n := by
  funext r
  unfold dynamicCount Reading.checked
  rcases (Reading.count "array").runFrom r with ⟨outcome, after⟩
  cases outcome with
  | error e => rfl
  | ok n =>
    by_cases short : r.data.length < saturatingMul n wordSize <;>
      simp only [short, if_true, if_false]

/-- A fixed count is taken as it is where the heads of so many elements fit in what is left. -/
theorem fixedCount_eq_ok_iff {l element : Layout} {n count : Nat} {r mid : Reader} :
    (l.fixedCount element n).runFrom r = (.ok count, mid) ↔
      (count = n ∧ mid = r) ∧ r.offset ≤ r.data.length ∧
        saturatingMul element.headSize n ≤ r.data.length - r.offset := by
  constructor
  · intro run
    obtain ⟨remaining, _, left, run⟩ := Reading.exists_of_runFrom_bind run
    obtain ⟨remains, rfl⟩ := Prod.mk.inj left
    rw [Reader.remaining] at remains
    split at remains
    · next inside =>
      cases remains
      split at run
      · cases run
      · next enough =>
        cases run
        exact ⟨⟨rfl, rfl⟩, inside, Nat.not_lt.1 enough⟩
    · cases remains
  · rintro ⟨⟨rfl, rfl⟩, inside, enough⟩
    have left : (Reading.inspect Reader.remaining).runFrom mid =
        (.ok (mid.data.length - mid.offset), mid) := by
      rw [Reading.runFrom_inspect, Reader.remaining, if_pos inside]
    rw [fixedCount, Reading.runFrom_bind_of_ok left, if_neg (Nat.not_lt.2 enough),
      Reading.runFrom_pure]

/-- A count that is read is taken where the data has a word for each element. -/
theorem dynamicCount_eq_ok_iff {l : Layout} {count : Nat} {r mid : Reader} :
    l.dynamicCount.runFrom r = (.ok count, mid) ↔
      (Reading.count "array").runFrom r = (.ok count, mid) ∧
        saturatingMul count wordSize ≤ r.data.length := by
  rw [dynamicCount_eq_checked]
  constructor
  · intro run
    obtain ⟨n, read, passed⟩ := Reading.exists_of_runFrom_checked run
    split at passed
    · cases passed
    · next enough =>
      cases passed
      exact ⟨read, Nat.not_lt.1 enough⟩
  · rintro ⟨read, enough⟩
    rw [Reading.runFrom_checked_of_ok read, if_neg (Nat.not_lt.2 enough)]

/-- Reads the number of elements of an array of this length. -/
def readCount (l element : Layout) : ArrayLength → Reading Nat
  | .fixed n => l.fixedCount element n
  | .dynamic => l.dynamicCount

theorem decode_array (name : Option String) (element : Layout) (length : ArrayLength) :
    (array name element length).decode = (do
      let count ← (array name element length).readCount element length
      let items ← readBlock (List.replicate count element.part)
      Reading.coerce "array" (.array items)) := by
  cases length <;> rfl

theorem decode_tuple (name : Option String) (components : List Layout) :
    (tuple name components).decode = (do
      let record ← decodeAll components
      Reading.coerce "tuple" (.tuple record)) := by
  rw [decodeAll, bind_assoc]
  rfl

end Layout

end AbiCodec
