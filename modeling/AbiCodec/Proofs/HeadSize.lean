import AbiCodec.Proofs.Conformance
import AbiCodec.Proofs.WireFormat

/-!
# Head sizes

What a layout takes in the heads of a block: a word where it is dynamic, and the
whole encoding where it is static, whose length is the same for all values. The
head size is this width clamped to a count. The decoder counts on it before it
reads the elements of an array.
-/

namespace AbiCodec

/-- Clamping a factor does not show in the product. -/
theorem saturatingMul_min (width n : Nat) :
    saturatingMul (min width maxCount) n = min (n * width) maxCount := by
  rw [saturatingMul, Nat.mul_comm n]
  rcases Nat.le_total width maxCount with small | large
  · rw [Nat.min_eq_left small]
  · rw [Nat.min_eq_right large]
    rcases Nat.eq_zero_or_pos n with rfl | pos
    · rw [Nat.mul_zero, Nat.mul_zero]
    · have clamped := Nat.le_mul_of_pos_right maxCount pos
      rw [Nat.min_eq_right clamped,
        Nat.min_eq_right (Nat.le_trans clamped (Nat.mul_le_mul_right n large))]

namespace Layout

mutual

/-- The bytes that the layout takes in the heads of its block, however many they are. -/
def headWidth : Layout → Nat
  | null _ => 0
  | array _ element (.fixed n) => if element.isDynamic then wordSize else n * element.headWidth
  | tuple _ components => if anyDynamic components then wordSize else headWidths components
  | _ => wordSize

def headWidths : List Layout → Nat
  | [] => 0
  | c :: rest => c.headWidth + headWidths rest

end

theorem headWidths_eq_sum (components : List Layout) :
    headWidths components = (components.map headWidth).sum := by
  induction components with
  | nil => rfl
  | cons c components ih => rw [headWidths, ih, List.map_cons, List.sum_cons]

theorem headWidths_replicate (n : Nat) (element : Layout) :
    headWidths (List.replicate n element) = n * element.headWidth := by
  rw [headWidths_eq_sum, List.map_replicate, List.sum_replicate_nat]

theorem isDynamic_fixed (name : Option String) (element : Layout) (n : Nat) :
    (array name element (.fixed n)).isDynamic = element.isDynamic := by
  simp [isDynamic]

theorem headWidth_of_isDynamic {l : Layout} (dynamic : l.isDynamic = true) :
    l.headWidth = wordSize := by
  cases l with
  | array name element length =>
    cases length with
    | dynamic => rfl
    | fixed n =>
      rw [isDynamic_fixed] at dynamic
      rw [headWidth, if_pos dynamic]
  | tuple name components =>
    rw [isDynamic] at dynamic
    rw [headWidth, if_pos dynamic]
  | bytes name => rfl
  | string name => rfl
  | _ => cases dynamic

theorem wordSize_dvd_headWidths {components : List Layout}
    (each : ∀ c ∈ components, wordSize ∣ c.headWidth) : wordSize ∣ headWidths components := by
  induction components with
  | nil => exact Nat.dvd_zero _
  | cons c components ih =>
    rcases List.forall_mem_cons.1 each with ⟨own, others⟩
    exact Nat.dvd_add own (ih others)

theorem wordSize_dvd_headWidth (l : Layout) : wordSize ∣ l.headWidth := by
  induction l with
  | null name => exact Nat.dvd_zero _
  | array name element length ih =>
    cases length with
    | dynamic => exact Nat.dvd_refl _
    | fixed n =>
      rw [headWidth]
      split
      · exact Nat.dvd_refl _
      · exact Nat.dvd_mul_left_of_dvd ih n
  | tuple name components ih =>
    rw [headWidth]
    split
    · exact Nat.dvd_refl _
    · exact wordSize_dvd_headWidths ih
  | _ => exact Nat.dvd_refl _

/-! ### The head size is the width, clamped -/

theorem headSizes_eq_min {components : List Layout}
    (each : ∀ c ∈ components, c.headSize = min c.headWidth maxCount) :
    headSizes components = min (headWidths components) maxCount := by
  induction components with
  | nil => rfl
  | cons c components ih =>
    rcases List.forall_mem_cons.1 each with ⟨own, others⟩
    rw [headSizes, headWidths, own, ih others, saturatingAdd]
    omega

/-- Clamping at every node is clamping once. -/
theorem headSize_eq_min (l : Layout) : l.headSize = min l.headWidth maxCount := by
  induction l with
  | array name element length ih =>
    cases length with
    | dynamic => rfl
    | fixed n =>
      rw [headSize, headWidth]
      split
      · rfl
      · rw [ih, saturatingMul_min]
  | tuple name components ih =>
    rw [headSize, headWidth]
    split
    · rfl
    · exact headSizes_eq_min ih
  | _ => rfl

theorem headSize_le_headWidth (l : Layout) : l.headSize ≤ l.headWidth := by
  rw [headSize_eq_min]
  exact Nat.min_le_left _ _

/-- Nothing was clamped when the head size is not the largest count. -/
theorem headWidth_eq_headSize {l : Layout} (unclamped : l.headSize < maxCount) :
    l.headWidth = l.headSize := by
  have clamped := l.headSize_eq_min
  omega

theorem map_headWidth_eq_headSize {components : List Layout}
    (unclamped : ∀ c ∈ components, c.headSize < maxCount) :
    components.map headWidth = components.map headSize :=
  List.map_congr_left fun c member => headWidth_eq_headSize (unclamped c member)

theorem headSize_of_isDynamic {l : Layout} (dynamic : l.isDynamic = true) :
    l.headSize = wordSize := by
  rw [headSize_eq_min, headWidth_of_isDynamic dynamic]
  rfl

theorem isDynamic_of_headSize {l : Layout} (zero : l.headSize = 0) : l.isDynamic = false := by
  rw [← Bool.not_eq_true]
  intro dynamic
  rw [headSize_of_isDynamic dynamic] at zero
  cases zero

theorem headWidth_of_headSize {l : Layout} (zero : l.headSize = 0) : l.headWidth = 0 := by
  rw [headWidth_eq_headSize (by rw [zero]; decide), zero]

/-- What takes some bytes in the heads takes a word. -/
theorem headSize_eq_zero_or_le (l : Layout) : l.headSize = 0 ∨ wordSize ≤ l.headSize := by
  obtain ⟨words, width⟩ := l.wordSize_dvd_headWidth
  rw [headSize_eq_min, width]
  simp only [wordSize, maxCount]
  omega

/-! ### The heads of values -/

theorem tails_of_static {components : List Layout} (static : anyDynamic components = false)
    (values : List Value) : Child.tails (children components values) = [] := by
  induction components generalizing values with
  | nil => cases values <;> rfl
  | cons c components ih =>
    cases values with
    | nil => rfl
    | cons v values =>
      rw [anyDynamic, Bool.or_eq_false_iff] at static
      rw [children, Child.tails_cons, ih static.2, Child.tail_of_static static.1, List.append_nil]

/-- A block of static children is all heads. -/
theorem headLengths_of_static {components : List Layout} (static : anyDynamic components = false)
    (values : List Value) : Child.headLengths (children components values) =
      (Child.layOut (children components values)).length := by
  rw [Child.length_layOut, tails_of_static static, List.length_nil, Nat.add_zero]

theorem headLength_of_static {l : Layout} (static : l.isDynamic = false) (data : Bytes) :
    Child.headLength ⟨l.isDynamic, data⟩ = data.length :=
  Child.headLength_of_static static

theorem headLength_of_dynamic {l : Layout} (dynamic : l.isDynamic = true) (data : Bytes) :
    Child.headLength ⟨l.isDynamic, data⟩ = wordSize :=
  Child.headLength_of_dynamic dynamic

/-- The heads of all canonical values have the width of the layout. -/
def HasWidth (l : Layout) : Prop :=
  ∀ v form, l.canonical? v = some form →
    Child.headLength ⟨l.isDynamic, l.wire form⟩ = l.headWidth

variable {components : List Layout} {values forms : List Value}

theorem map_headLength_of_forms (each : ∀ c ∈ components, c.HasWidth)
    (h : CanonicalForms components values forms) :
    (children components forms).map Child.headLength = components.map headWidth := by
  induction h with
  | nil => rfl
  | @cons c components v form values forms first _ ih =>
    rcases List.forall_mem_cons.1 each with ⟨own, others⟩
    rw [children, List.map_cons, own v form first, ih others, List.map_cons]

theorem headLengths_of_forms (each : ∀ c ∈ components, c.HasWidth)
    (h : CanonicalForms components values forms) :
    Child.headLengths (children components forms) = headWidths components := by
  rw [Child.headLengths, map_headLength_of_forms each h, headWidths_eq_sum]

theorem hasWidth_of_isDynamic {l : Layout} (dynamic : l.isDynamic = true) : l.HasWidth :=
  fun _ _ _ => (headLength_of_dynamic dynamic _).trans (headWidth_of_isDynamic dynamic).symm

theorem hasWidth_fixed {name : Option String} {element : Layout} {n : Nat}
    (static : element.isDynamic = false) (own : element.HasWidth) :
    (array name element (.fixed n)).HasWidth := by
  intro v form h
  obtain ⟨items, forms, rfl, admitted, mapped, rfl⟩ := canonical?_array_eq_some_iff.1 h
  cases beq_iff_eq.1 admitted
  have heads := headLengths_of_forms (List.forall_mem_replicate.2 (Or.inr own)) mapped
  rw [headWidths_replicate, headLengths_of_static (anyDynamic_replicate_of_static static _)] at heads
  rw [headLength_of_static (by rw [isDynamic_fixed, static]), wire_array,
    mapped.length_of_replicate, countBytes, List.nil_append, heads, headWidth, static,
    if_neg Bool.false_ne_true]

theorem hasWidth_tuple {name : Option String} (static : anyDynamic components = false)
    (each : ∀ c ∈ components, c.HasWidth) : (tuple name components).HasWidth := by
  intro v form h
  obtain ⟨values, forms, _, mapped, rfl⟩ := canonical?_tuple_eq_some_iff.1 h
  rw [headLength_of_static (by rw [isDynamic, static]), wire_tuple mapped,
    ← headLengths_of_static static, headLengths_of_forms each mapped, headWidth, static,
    if_neg Bool.false_ne_true]

/-- The head of a value is as long as its layout says, whatever the value. -/
theorem hasWidth (l : Layout) : l.HasWidth := by
  induction l with
  | address name =>
    intro v form h
    obtain ⟨a, rfl⟩ := conforms_of_canonical? h
    rw [headLength_of_static rfl, wire, Word.length_toBytes]
    rfl
  | bool name =>
    intro v form h
    obtain ⟨b, rfl⟩ := conforms_of_canonical? h
    rw [headLength_of_static rfl, wire, Word.length_toBytes]
    rfl
  | number name width isSigned =>
    intro v form h
    obtain ⟨w, rfl⟩ := conforms_of_canonical? h
    have word : ((number name width isSigned).wire (if isSigned then .int w else .uint w)).length =
        wordSize := by
      cases isSigned <;> exact Word.length_toBytes w
    rw [headLength_of_static rfl, word]
    rfl
  | fixedBytes name width =>
    intro v form h
    obtain ⟨data, rfl, fits⟩ := conforms_of_canonical? h
    rw [headLength_of_static rfl, wire, Bytes.length_padded, fits,
      Bytes.alignedLength_of_le_wordSize width.pos width.le_wordSize]
    rfl
  | bytes name => exact hasWidth_of_isDynamic rfl
  | string name => exact hasWidth_of_isDynamic rfl
  | null name => exact fun _ _ _ => rfl
  | array name element length ih =>
    cases length with
    | dynamic => exact hasWidth_of_isDynamic rfl
    | fixed n =>
      cases dynamic : element.isDynamic with
      | true => exact hasWidth_of_isDynamic (by rw [isDynamic_fixed, dynamic])
      | false => exact hasWidth_fixed dynamic ih
  | tuple name components ih =>
    cases dynamic : anyDynamic components with
    | true => exact hasWidth_of_isDynamic (by rw [isDynamic, dynamic])
    | false => exact hasWidth_tuple dynamic ih

theorem length_wire_of_static {l : Layout} (static : l.isDynamic = false) {v form : Value}
    (h : l.canonical? v = some form) : (l.wire form).length = l.headWidth := by
  rw [← l.hasWidth v form h, headLength_of_static static]

theorem headLengths_eq_headWidths (h : CanonicalForms components values forms) :
    Child.headLengths (children components forms) = headWidths components :=
  headLengths_of_forms (fun c _ => c.hasWidth) h

theorem mul_headSize_le_headLengths {element : Layout} {items forms : List Value}
    (h : CanonicalForms (List.replicate items.length element) items forms) :
    items.length * element.headSize ≤
      Child.headLengths (children (List.replicate items.length element) forms) := by
  rw [headLengths_eq_headWidths h, headWidths_replicate]
  exact Nat.mul_le_mul_left _ element.headSize_le_headWidth

theorem mul_headSize_le {element : Layout} {items forms : List Value}
    (h : CanonicalForms (List.replicate items.length element) items forms) :
    items.length * element.headSize ≤
      (Child.layOut (children (List.replicate items.length element) forms)).length :=
  Nat.le_trans (mul_headSize_le_headLengths h) (Child.headLengths_le_length_layOut _)

end Layout

end AbiCodec
