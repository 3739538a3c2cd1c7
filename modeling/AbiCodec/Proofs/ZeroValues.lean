import AbiCodec.Layout.Zero
import AbiCodec.Proofs.ArrayRoom
import AbiCodec.Proofs.TypeTree

/-!
# Zero values are accepted

The zero value of a layout is its own canonical form, so it is encoded as it is.
It has no elements in arrays of dynamic length, so every array in it has room
when it is decoded, whatever the width of the elements. Under a static layout the
encoding is zero bytes, as many as the head size says.
-/

namespace AbiCodec

namespace Layout

/-! ### The length of static encodings -/

/-- The head size of the layout is the length of its encodings, when that is a count. -/
def IsExact (l : Layout) : Prop :=
  ∀ v form, l.canonical? v = some form → (l.wire form).length ≤ maxCount →
    l.headSize = (l.wire form).length

theorem sum_headSize_eq {components : List Layout} {values forms : List Value}
    (static : anyDynamic components = false) (each : ∀ c ∈ components, c.IsExact)
    (h : CanonicalForms components values forms)
    (small : (Child.layOut (children components forms)).length ≤ maxCount) :
    (components.map headSize).sum = (Child.layOut (children components forms)).length := by
  rw [← headLengths_of_static static] at small ⊢
  induction h with
  | nil => rfl
  | @cons c components v form values forms first _ ih =>
    rcases List.forall_mem_cons.1 each with ⟨own, others⟩
    rw [anyDynamic, Bool.or_eq_false_iff] at static
    rw [children, Child.headLengths_cons, headLength_of_static static.1] at small ⊢
    rw [List.map_cons, List.sum_cons, own v form first (Nat.le_trans (Nat.le_add_right _ _) small),
      ih static.2 others (Nat.le_trans (Nat.le_add_left _ _) small)]

/-- Nothing is clamped in the head size of a static layout when its encodings are no longer than a
count can say. -/
theorem isExact_of_static {l : Layout} (static : l.isDynamic = false) : l.IsExact := by
  intro v form h small
  rw [length_wire_of_static static h] at small ⊢
  rw [headSize_eq_min, Nat.min_eq_left small]

/-! ### Zero values are canonical -/

theorem zeroEntries_eq_zip (components : List Layout) :
    zeroEntries components = (components.map name).zip (components.map zero) := by
  induction components with
  | nil => rfl
  | cons c components ih => rw [zeroEntries, ih, List.map_cons, List.map_cons, List.zip_cons_cons]

theorem values_zeroEntries (components : List Layout) :
    Record.values (zeroEntries components) = components.map zero := by
  induction components with
  | nil => rfl
  | cons c components ih =>
    rw [Record.values] at ih
    rw [zeroEntries, Record.values, List.map_cons, ih, List.map_cons]

theorem canonicalForms_zero {components : List Layout}
    (each : ∀ c ∈ components, c.canonical? c.zero = some c.zero) :
    CanonicalForms components (components.map zero) (components.map zero) := by
  induction components with
  | nil => exact .nil
  | cons c components ih =>
    rcases List.forall_mem_cons.1 each with ⟨own, others⟩
    exact .cons own (ih others)

/-- The zero value of a layout has the form in which the layout gives values back. -/
theorem canonical?_zero (l : Layout) : l.canonical? l.zero = some l.zero := by
  induction l with
  | number name width isSigned =>
    have fits : inRange isSigned width.bits 0 = true := by
      cases isSigned with
      | false =>
        rw [inRange_false_iff]
        exact ⟨Int.le_refl 0, Int.pow_pos (by decide : (0 : Int) < 2)⟩
      | true =>
        have pos : (0 : Int) < 2 ^ (width.bits - 1) := Int.pow_pos (by decide)
        rw [inRange_true_iff]
        exact ⟨Int.neg_nonpos_of_nonneg (Int.le_of_lt pos), pos⟩
    have value : (number name width isSigned).zero.integer? = some 0 := by
      cases isSigned <;> rfl
    rw [canonical?, canonicalNumber?_of_integer? value, if_pos fits]
    cases isSigned <;> rfl
  | fixedBytes name width =>
    simp [canonical?, zero, Value.asBytes?]
  | array name element length ih =>
    cases length with
    | dynamic => rfl
    | fixed n =>
      refine canonical?_array_eq_some_iff.2 ⟨_, _, rfl, ?_, ?_, rfl⟩
      · rw [List.length_replicate]
        exact beq_self_eq_true n
      · have forms := canonicalForms_zero (List.forall_mem_replicate (n := n).2 (Or.inr ih))
        rwa [List.length_replicate, ← List.map_replicate]
  | tuple name components ih =>
    refine canonical?_tuple_eq_some_iff.2 ⟨components.map zero, components.map zero, ?_,
      canonicalForms_zero ih, ?_⟩
    · exact congrArg some (values_zeroEntries components)
    · rw [zero, zeroEntries_eq_zip]
  | _ => rfl

/-! ### Room in zero values -/

theorem haveRoom_zero {components : List Layout}
    (each : ∀ c ∈ components, ∀ room, c.hasRoom room c.zero = true) (rooms : List Nat) :
    haveRoom components rooms (components.map zero) = true := by
  induction components generalizing rooms with
  | nil => rfl
  | cons c components ih =>
    rcases List.forall_mem_cons.1 each with ⟨own, others⟩
    cases rooms with
    | nil => rfl
    | cons room rooms => rw [List.map_cons, haveRoom, own, ih others, Bool.and_self]

theorem hasRoom_zero (l : Layout) (room : Nat) : l.hasRoom room l.zero = true := by
  induction l generalizing room with
  | array name element length ih =>
    cases length with
    | dynamic => simp [zero, hasRoom]
    | fixed n =>
      have elements := haveRoom_zero (List.forall_mem_replicate (n := n).2 (Or.inr ih))
      rw [List.map_replicate] at elements
      rw [zero, hasRoom_array, List.length_replicate, elements]
      rfl
  | tuple name components ih =>
    rw [zero, hasRoom, values_zeroEntries]
    exact haveRoom_zero ih _
  | _ => rfl

/-! ### Static zero values are zero bytes -/

/-- All bytes are zero. -/
def IsZeros (data : Bytes) : Prop := ∀ b ∈ data, b = 0

theorem isZeros_ofNat (width : Nat) : IsZeros (Bytes.ofNat width 0) := by
  induction width with
  | zero => nofun
  | succ width ih =>
    rw [Bytes.ofNat, Nat.zero_div]
    exact List.forall_mem_append.2 ⟨ih, List.forall_mem_singleton.2 rfl⟩

theorem isZeros_toBytes : IsZeros (Word.toBytes 0) := isZeros_ofNat wordSize

theorem isZeros_padded {data : Bytes} (zeros : IsZeros data) : IsZeros (Bytes.padded data) :=
  List.forall_mem_append.2 ⟨zeros, fun _ => List.eq_of_mem_replicate⟩

/-- The heads of static children are the children. -/
theorem isZeros_layOut {components : List Layout} (static : anyDynamic components = false)
    (each : ∀ c ∈ components, IsZeros (c.wire c.zero)) :
    IsZeros (Child.layOut (children components (components.map zero))) := by
  rw [Child.layOut, tails_of_static static, List.append_nil]
  -- No head says where the tails start, so the place may be any.
  generalize Child.headLengths (children components (components.map zero)) = offset
  induction components generalizing offset with
  | nil => exact List.forall_mem_nil _
  | cons c components ih =>
    rcases List.forall_mem_cons.1 each with ⟨own, others⟩
    rw [anyDynamic, Bool.or_eq_false_iff] at static
    rw [List.map_cons, children, Child.heads, Child.head_of_static static.1]
    exact List.forall_mem_append.2 ⟨own, ih static.2 others _⟩

theorem isZeros_wire_zero {l : Layout} (static : l.isDynamic = false) :
    IsZeros (l.wire l.zero) := by
  induction l with
  | address name => exact isZeros_toBytes
  | bool name => exact isZeros_toBytes
  | number name width isSigned => cases isSigned <;> exact isZeros_toBytes
  | fixedBytes name width => exact isZeros_padded fun _ => List.eq_of_mem_replicate
  | bytes name => cases static
  | string name => cases static
  | null name => nofun
  | array name element length ih =>
    cases length with
    | dynamic => cases static
    | fixed n =>
      rw [isDynamic_fixed] at static
      have zeros := isZeros_layOut (anyDynamic_replicate_of_static static n)
        (List.forall_mem_replicate.2 (Or.inr (ih static)))
      rw [List.map_replicate] at zeros
      rw [zero, wire_array, List.length_replicate, countBytes, List.nil_append]
      exact zeros
  | tuple name components ih =>
    rw [isDynamic] at static
    have each : ∀ c ∈ components, IsZeros (c.wire c.zero) := fun c member =>
      ih c member (anyDynamic_eq_false_iff.1 static c member)
    rw [zero, wire, values_zeroEntries]
    exact isZeros_layOut static each

end Layout

/-- The zero values of accepted types are encoded. What is written decodes, strictly or loosely, to
the very values with the names of the types, and for static types it is zero bytes, as many as the
head sizes together. -/
theorem encode_zeroValues {settings : Settings} {types : List TypeSource} {layouts : List Layout}
    (accepted : layoutsOf settings types = .ok layouts) :
    ∃ record data, zeroValues settings types = .ok record ∧
      encode settings types record.values = .ok data ∧
      (data.length < 2 ^ 63 →
        (∀ isLoose, decode settings none types data isLoose = .ok record) ∧
        ((∀ l ∈ layouts, l.isDynamic = false) →
          data = List.replicate (layouts.map Layout.headSize).sum 0)) := by
  have forms := Layout.canonicalForms_zero fun l (_ : l ∈ layouts) => l.canonical?_zero
  have values := Layout.values_zeroEntries layouts
  have given := Layout.gives_encodeAll layouts (layouts.map Layout.zero)
  rw [Layout.canonicalAll?_eq_some_iff.2 forms, Option.map_some] at given
  refine ⟨Layout.zeroRecord layouts,
    Child.layOut (Layout.children layouts (layouts.map Layout.zero)), ?_, ?_, fun small => ⟨?_, ?_⟩⟩
  · rw [zeroValues, accepted]
    rfl
  · have same : types.length = (Record.values (Layout.zeroRecord layouts)).length := by
      obtain ⟨_, _, resolved, laid⟩ := exists_of_layoutsOf accepted
      rw [Layout.zeroRecord, values, List.length_map, ← laid.length_eq, resolved]
    rw [encode, if_pos same, accepted, Layout.zeroRecord, values]
    change outputOf _ = _
    rw [outputOf, given, List.nil_append]
  · intro isLoose
    have read := Layout.givesIf_decodeAll (fun _ _ _ _ => Layout.settles_of_canonical) forms
      (start_holds small isLoose settings.maxInflation)
    have room := Layout.haveRoom_zero fun l (_ : l ∈ layouts) => l.hasRoom_zero
    rw [decode_eq_decodeFrom accepted, Layout.zeroRecord, Layout.zeroEntries_eq_zip]
    exact congrArg Prod.fst (read.gives (room _))
  · intro static
    have still := Layout.anyDynamic_eq_false_iff.2 static
    have zeros := Layout.isZeros_layOut still fun l member =>
      Layout.isZeros_wire_zero (static l member)
    have length := Layout.sum_headSize_eq still (fun l member =>
      Layout.isExact_of_static (static l member)) forms (Nat.le_of_lt (lt_maxCount small))
    rw [length]
    exact List.eq_replicate_of_mem zeros

set_option maxRecDepth 8000 in
/-- An array of tuples without components and an array of no strings, whose pointers lead to the
count and to the end of the data, and static types of which one has no width. -/
theorem encode_zeroValues_emptyElements :
    let dynamic : List TypeSource := [.tree (.array { name := "xs" } (.tuple {} []) .dynamic),
      .tree (.array {} (.elementary {} "string") (.fixed 0))]
    let static : List TypeSource := [.tree (.array {} (.elementary {} "int8") (.fixed 2)),
      .tree (.array {} (.tuple { name := "none" } []) (.fixed 3)), .tree (.elementary {} "bytes3")]
    (∃ data, encode {} dynamic [.array [], .array []] = .ok data ∧ data.length = 96 ∧
      decode {} none dynamic data true = .ok [(some "xs", .array []), (none, .array [])]) ∧
    ∃ record, zeroValues {} static = .ok record ∧
      encode {} static record.values = .ok (List.replicate 96 0) ∧
      decode {} none static (List.replicate 96 0) false = .ok record := by
  intro dynamic static
  constructor
  · have accepted : layoutsOf {} dynamic = .ok [.array (some "xs") (.tuple none []) .dynamic,
        .array none (.string none) (.fixed 0)] := rfl
    have zeros : zeroValues {} dynamic = .ok [(some "xs", .array []), (none, .array [])] := rfl
    have written : encode {} dynamic [.array [], .array []] =
        .ok ([64#256, 96#256, 0#256].flatMap Word.toBytes) := rfl
    obtain ⟨record, data, given, encoded, back⟩ := encode_zeroValues accepted
    rw [zeros] at given
    cases given
    change encode {} dynamic [.array [], .array []] = _ at encoded
    rw [written] at encoded
    cases encoded
    exact ⟨_, written, rfl, (back (by decide)).1 true⟩
  · have accepted : layoutsOf {} static =
        .ok [.array none (.number none ⟨1, by decide, by decide⟩ true) (.fixed 2),
          .array none (.tuple (some "none") []) (.fixed 3),
          .fixedBytes none ⟨3, by decide, by decide⟩] := rfl
    have zeros : zeroValues {} static = .ok [(none, .array [.int 0, .int 0]),
        (none, .array [.tuple [], .tuple [], .tuple []]), (none, .fixedBytes [0, 0, 0])] := rfl
    obtain ⟨record, data, given, encoded, back⟩ := encode_zeroValues accepted
    have short : data.length = 96 := by
      rw [zeros] at given
      cases given
      cases encoded
      rfl
    obtain ⟨same, blank⟩ := back (by rw [short]; decide)
    rw [blank (by simp [Layout.isDynamic, Layout.anyDynamic])] at encoded same
    exact ⟨record, given, encoded, same false⟩

end AbiCodec
