import AbiCodec.Codec
import AbiCodec.Proofs.Encoding
import AbiCodec.Proofs.HeadSize
import AbiCodec.Proofs.ReadBack

/-!
# Round trip

Decoding what was encoded gives the canonical form of the values, and reads every
byte of it once. The decoder refuses more elements than their heads could be for
the data, so the elements of an array of dynamic length have to take some bytes.
-/

namespace AbiCodec

namespace Layout

open Reading

mutual

/-- Whether the elements of every array of dynamic length take some bytes in its heads. -/
def isSized : Layout → Bool
  | array _ element length => (length != .dynamic || element.headSize != 0) && element.isSized
  | tuple _ components => allSized components
  | _ => true

def allSized : List Layout → Bool
  | [] => true
  | c :: rest => c.isSized && allSized rest

end

theorem isSized_of_mem {components : List Layout} (sized : allSized components = true)
    {c : Layout} (member : c ∈ components) : c.isSized = true := by
  induction components with
  | nil => cases member
  | cons first components ih =>
    rw [allSized, Bool.and_eq_true] at sized
    rcases List.mem_cons.1 member with rfl | member
    · exact sized.1
    · exact ih sized.2 member

theorem runFrom_fixedCount {l element : Layout} {n : Nat} {block : Bytes} {spent : Nat}
    (room : n * element.headSize ≤ block.length) {r : Reader} (h : r.Holds block spent) :
    (l.fixedCount element n).runFrom r = (.ok n, r) := by
  have inside := h.inside
  rw [fixedCount_eq_ok_iff, saturatingMul, Nat.mul_comm]
  exact ⟨⟨rfl, rfl⟩, h.inBounds.offset_le, by omega⟩

/-- The count of an array of dynamic length is taken when there is a word for each element. -/
theorem runFrom_dynamicCount {l : Layout} {count : Nat} {block : Bytes} {spent : Nat} {r : Reader}
    (room : count * wordSize ≤ r.data.length)
    (h : r.Holds (Word.toBytes (BitVec.ofNat 256 count) ++ block) (wordSize + spent)) :
    l.dynamicCount.runFrom r = (.ok count, r.past wordSize wordSize) := by
  have small := h.inBounds.length_lt
  have counted : count < countLimit := lt_countLimit (by simp only [wordSize] at room; omega)
  have first : r.Holds (Word.toBytes (BitVec.ofNat 256 count)) wordSize := h.first
  have read := reads_count "array" counted r
  rw [Word.length_toBytes] at read
  rw [dynamicCount_eq_ok_iff, saturatingMul]
  exact ⟨read first, by omega⟩

/-- The decoder takes the count of an array whose elements have room in the data. -/
theorem runFrom_readCount {l element : Layout} {length : ArrayLength} {count : Nat}
    (admitted : length.admits count = true)
    (sized : (length != .dynamic || element.headSize != 0) = true) {block : Bytes}
    (room : count * element.headSize ≤ block.length) {r : Reader} {spent : Nat}
    (h : r.Holds (countBytes length count ++ block) ((countBytes length count).length + spent)) :
    (l.readCount element length).runFrom r = (.ok count,
      r.past (countBytes length count).length (countBytes length count).length) := by
  cases length with
  | fixed n =>
    cases beq_iff_eq.1 admitted
    rw [countBytes, List.length_nil, h.past_zero]
    exact runFrom_fixedCount room h
  | dynamic =>
    rw [countBytes, Word.length_toBytes] at h ⊢
    -- The decoder asks for a word for each element, and an element that takes room takes a word.
    have word : wordSize ≤ element.headSize :=
      (headSize_eq_zero_or_le element).resolve_left (by simpa using sized)
    have heads := Nat.le_trans (Nat.mul_le_mul_left count word) room
    have inside := h.inside
    rw [List.length_append] at inside
    exact runFrom_dynamicCount (by omega) h

theorem reads_payload (typeName : String) (data : Bytes) :
    Reads (readPayload typeName) (payload data) (payload data).length data := by
  apply Reads.of_small
  intro small
  have short : data.length ≤ (payload data).length := by
    simp [payload, Bytes.padded]
    omega
  have counted : data.length < countLimit := lt_countLimit (Nat.lt_of_le_of_lt short small)
  rw [payload, List.length_append]
  exact (reads_count typeName counted).bind (reads_bytes data true)

theorem reads_address (a : BitVec 160) :
    Reads readAddress (Word.toBytes (a.setWidth 256)) (Word.toBytes (a.setWidth 256)).length
      (.address a) := by
  have small := a.isLt
  have low : (a.setWidth 256).toNat < 1 <<< 160 := by
    rw [BitVec.toNat_setWidth]
    omega
  have same : (a.setWidth 256).setWidth 160 = a := by
    rw [BitVec.setWidth_setWidth_of_le _ (by decide), BitVec.setWidth_eq]
  rw [readAddress_eq_checked]
  apply (reads_word (a.setWidth 256)).checked
  intro r
  rw [if_pos low, same]

theorem reads_text (text : String) :
    Reads readText (payload (utf8Bytes text)) (payload (utf8Bytes text)).length (.string text) := by
  rw [readText_eq_checked]
  apply (reads_payload "string" (utf8Bytes text)).checked
  intro r
  rw [Utf8.decode_utf8Bytes]

/-- The layout reads the encoding of the canonical form back. -/
def ReadsBack (l : Layout) (form : Value) : Prop :=
  l.part.ReadsBack ⟨l.isDynamic, l.wire form⟩ form

theorem readAllBack_of_forms {components : List Layout} {values forms : List Value}
    (each : ∀ c ∈ components, ∀ v form, c.canonical? v = some form → c.ReadsBack form)
    (h : CanonicalForms components values forms) :
    Part.ReadAllBack (components.map part) (children components forms) forms := by
  induction h with
  | nil => exact .nil
  | @cons c components v form values forms first _ ih =>
    rcases List.forall_mem_cons.1 each with ⟨own, others⟩
    exact .cons (own v form first) (ih others)

theorem reads_decodeAll {components : List Layout} {values forms : List Value}
    (each : ∀ c ∈ components, ∀ v form, c.canonical? v = some form → c.ReadsBack form)
    (h : CanonicalForms components values forms) :
    Reads (decodeAll components) (Child.layOut (children components forms))
      (Child.headLengths (children components forms)) ((components.map name).zip forms) := by
  have block := reads_block (readAllBack_of_forms each h)
  rw [← parts_eq_map] at block
  apply block.finish
  intro r _
  rw [recordOf, Record.ofParts?, if_pos (by rw [List.length_map, h.length_eq.2])]
  rfl

theorem reads_array {name : Option String} {element : Layout} {length : ArrayLength}
    {items forms : List Value} (sized : (length != .dynamic || element.headSize != 0) = true)
    (admitted : length.admits items.length = true)
    (each : ∀ v form, element.canonical? v = some form → element.ReadsBack form)
    (h : CanonicalForms (List.replicate items.length element) items forms) :
    Reads (array name element length).decode ((array name element length).wire (.array forms))
      ((countBytes length items.length).length +
        Child.headLengths (children (List.replicate items.length element) forms))
      (.array forms) := by
  intro r held
  have same := h.length_of_replicate
  have back := readAllBack_of_forms (List.forall_mem_replicate.2 (Or.inr each)) h
  rw [List.map_replicate] at back
  have elements := (reads_block back).coerce "array" (f := Value.array)
  have room := mul_headSize_le h
  rw [wire_array, same, List.length_append] at held ⊢
  have counted := runFrom_readCount (l := array name element length) admitted sized room held
  rw [decode_array, runFrom_bind_of_ok counted, elements _ held.next, Reader.past_past]

theorem readsBack_of_reads {l : Layout} {form : Value}
    (reads : Reads l.decode (l.wire form) (l.wire form).length form) : l.ReadsBack form :=
  ⟨rfl, (l.wire form).length, reads, fun _ => rfl⟩

/-- Every layout reads the encodings of canonical forms back. -/
theorem readsBack_of_canonical {l : Layout} (sized : l.isSized = true) {v form : Value}
    (h : l.canonical? v = some form) : l.ReadsBack form := by
  induction l generalizing v form with
  | address name =>
    obtain ⟨a, rfl⟩ := conforms_of_canonical? h
    exact readsBack_of_reads ((reads_address a).coerce "address" (f := id))
  | bool name =>
    obtain ⟨b, rfl⟩ := conforms_of_canonical? h
    apply readsBack_of_reads
    have word := (reads_word (BitVec.ofNat 256 (if b then 1 else 0))).coerce "bool"
      (f := fun w => .bool (w != 0))
    cases b <;> exact word
  | number name width isSigned =>
    obtain ⟨w, rfl⟩ := conforms_of_canonical? h
    apply readsBack_of_reads
    have word := (reads_word w).coerce (number name width isSigned).kindName
      (f := fun w => if isSigned then .int w else .uint w)
    cases isSigned <;> exact word
  | fixedBytes name width =>
    obtain ⟨data, rfl, fits⟩ := conforms_of_canonical? h
    apply readsBack_of_reads
    have padded := (reads_bytes data false).coerce (fixedBytes name width).kindName
      (f := Value.fixedBytes)
    rw [fits] at padded
    exact padded
  | bytes name =>
    obtain ⟨data, rfl⟩ := conforms_of_canonical? h
    exact readsBack_of_reads ((reads_payload "bytes" data).coerce "bytes" (f := Value.bytes))
  | string name =>
    obtain ⟨text, rfl⟩ := conforms_of_canonical? h
    exact readsBack_of_reads ((reads_text text).coerce "string" (f := id))
  | null name =>
    cases conforms_of_canonical? h
    exact readsBack_of_reads ((reads_bytes [] false).coerce (null name).kindName
      (f := fun _ => .null))
  | array name element length ih =>
    rw [isSized, Bool.and_eq_true] at sized
    obtain ⟨items, forms, rfl, admitted, mapped, rfl⟩ := canonical?_array_eq_some_iff.1 h
    refine ⟨rfl, _, reads_array sized.1 admitted (fun _ _ => ih sized.2) mapped, ?_⟩
    intro static
    rw [isDynamic, Bool.or_eq_false_iff] at static
    rw [wire_array, mapped.length_of_replicate, List.length_append,
      headLengths_of_static (anyDynamic_replicate_of_static static.2 _)]
  | tuple name components ih =>
    rw [isSized] at sized
    obtain ⟨values, forms, _, mapped, rfl⟩ := canonical?_tuple_eq_some_iff.1 h
    have block := (reads_decodeAll (fun c member _ _ => ih c member (isSized_of_mem sized member))
      mapped).coerce "tuple" (f := Value.tuple)
    have format : (tuple name components).wire (.tuple ((components.map Layout.name).zip forms)) =
        Child.layOut (children components forms) := wire_tuple mapped
    rw [← decode_tuple name, ← format] at block
    refine ⟨rfl, _, block, ?_⟩
    intro static
    rw [isDynamic] at static
    rw [format, headLengths_of_static static]

end Layout

theorem start_holds {data : Bytes} (small : data.length < 2 ^ 63) (isLoose : Bool) (ratio : Nat) :
    (Reader.start data isLoose none ratio).Holds data data.length where
  hook_eq := rfl
  inBounds := Reader.start_inBounds small isLoose none ratio
  starts := List.prefix_rfl
  counted := Nat.zero_le _
  covered := Budget.isExceeded_fresh data.length ratio

theorem forms_of_encode {settings : Settings} {types : List TypeSource} {layouts : List Layout}
    {values : List Value} {data : Bytes} (accepted : layoutsOf settings types = .ok layouts)
    (encoded : encode settings types values = .ok data) :
    ∃ forms, Layout.CanonicalForms layouts values forms ∧
      data = Child.layOut (Layout.children layouts forms) := by
  rw [encode] at encoded
  split at encoded
  · have output : outputOf (Layout.encodeAll layouts values) = .ok data := by
      rw [accepted] at encoded
      exact encoded
    rw [outputOf] at output
    split at output
    · next run =>
      cases output
      obtain ⟨_, given, _, rfl⟩ := (Layout.gives_encodeAll layouts values).exists_of_ok run
      obtain ⟨forms, canonical, rfl⟩ := Option.map_eq_some_iff.1 given
      exact ⟨forms, Layout.canonicalAll?_eq_some_iff.1 canonical, List.nil_append _⟩
    · cases output
  · cases encoded

theorem Layout.reads_of_forms {layouts : List Layout} {values forms : List Value}
    (sized : Layout.allSized layouts = true) (h : Layout.CanonicalForms layouts values forms) :
    Reading.Reads (Layout.decodeAll layouts) (Child.layOut (Layout.children layouts forms))
      (Child.headLengths (Layout.children layouts forms)) ((layouts.map Layout.name).zip forms) :=
  Layout.reads_decodeAll (fun _ member _ _ =>
    Layout.readsBack_of_canonical (Layout.isSized_of_mem sized member)) h

/-- The decoder reads every byte of the encoding once. -/
theorem decodeFrom_of_forms {layouts : List Layout} {values forms : List Value}
    (sized : Layout.allSized layouts = true) (h : Layout.CanonicalForms layouts values forms)
    (settings : Settings)
    (small : (Child.layOut (Layout.children layouts forms)).length < 2 ^ 63) (isLoose : Bool) :
    ∃ after, decodeFrom layouts settings none (Child.layOut (Layout.children layouts forms)) isLoose =
        (.ok ((layouts.map Layout.name).zip forms), after) ∧
      after.budget.read = (Child.layOut (Layout.children layouts forms)).length := by
  have reads := Layout.reads_of_forms sized h
  refine ⟨_, reads _ (start_holds small isLoose settings.maxInflation), ?_⟩
  have spent : (Reader.start (Child.layOut (Layout.children layouts forms)) isLoose none
      settings.maxInflation).budget.read = 0 := rfl
  rw [Reader.past, Budget.spend_read_of_lt (by rw [spent, Nat.zero_add]; exact small), spent,
    Nat.zero_add]

/-- Data that start with the encoding decode to the canonical form. -/
theorem decode_of_forms {settings : Settings} {types : List TypeSource} {layouts : List Layout}
    (accepted : layoutsOf settings types = .ok layouts) (sized : Layout.allSized layouts = true)
    {values forms : List Value} (h : Layout.CanonicalForms layouts values forms) {data : Bytes}
    (starts : Child.layOut (Layout.children layouts forms) <+: data) (small : data.length < 2 ^ 63)
    (isLoose : Bool) :
    decode settings none types data isLoose = .ok ((layouts.map Layout.name).zip forms) := by
  have held := (start_holds small isLoose settings.maxInflation).mono starts starts.length_le
  rw [decode_eq_decodeFrom accepted, decodeFrom]
  exact congrArg Prod.fst (Layout.reads_of_forms sized h _ held)

/-- What was encoded decodes, strictly or loosely, to the canonical form of the values, and the
budget pays for each of its bytes once. Values that have that form already come back the same,
and the record that comes back is its own canonical form. -/
theorem decode_encode {settings : Settings} {types : List TypeSource} {layouts : List Layout}
    (accepted : layoutsOf settings types = .ok layouts) (sized : Layout.allSized layouts = true)
    {values : List Value} {data : Bytes} (encoded : encode settings types values = .ok data)
    (small : data.length < 2 ^ 63) (isLoose : Bool) :
    ∃ record, decode settings none types data isLoose = .ok record ∧
      Layout.canonicalRecord? layouts values = some record ∧
      Layout.canonicalRecord? layouts (Record.values record) = some record ∧
      (Layout.ConformAll layouts values → Value.sameItems values (Record.values record)) ∧
      (decodeFrom layouts settings none data isLoose).2.budget.read = data.length := by
  obtain ⟨forms, canonical, rfl⟩ := forms_of_encode accepted encoded
  obtain ⟨after, decoded, spent⟩ := decodeFrom_of_forms sized canonical settings small isLoose
  have again := Layout.forms_of_forms (fun _ _ _ _ => Layout.canonical?_canonical) canonical
  refine ⟨(layouts.map Layout.name).zip forms, ?_, ?_, ?_, ?_, ?_⟩
  · rw [decode, accepted]
    change (decodeFrom layouts settings none _ isLoose).1 = _
    rw [decoded]
  · rw [Layout.canonicalRecord?, Layout.canonicalAll?_eq_some_iff.2 canonical, Option.map_some]
  · rw [canonical.values_zip, Layout.canonicalRecord?, Layout.canonicalAll?_eq_some_iff.2 again,
      Option.map_some]
  · intro conform
    rw [canonical.values_zip]
    exact Layout.sameItems_of_forms (fun _ _ _ _ => Layout.same_of_conforms) canonical conform
  · rw [decoded]
    exact spent

set_option maxRecDepth 8000 in
/-- An array of structs with their fields in another order, a signed number for an unsigned one and
fixed bytes for bytes. -/
theorem decode_encode_structs :
    ∃ data, encode {} [.tree (.array {} (.tuple {} [.elementary { name := "a" } "uint8",
        .elementary { name := "b" } "bytes"]) .dynamic)]
      [.array [.struct [("b", .fixedBytes [1, 2]), ("a", .int 7)]]] = .ok data ∧
    decode {} none [.tree (.array {} (.tuple {} [.elementary { name := "a" } "uint8",
        .elementary { name := "b" } "bytes"]) .dynamic)] data true =
      .ok [(none, .array [.tuple [("a", .uint 7), ("b", .bytes [1, 2])]])] := by
  have encoded : encode {} [.tree (.array {} (.tuple {} [.elementary { name := "a" } "uint8",
      .elementary { name := "b" } "bytes"]) .dynamic)]
      [.array [.struct [("b", .fixedBytes [1, 2]), ("a", .int 7)]]] =
      .ok ([32#256, 1#256, 32#256, 7#256, 64#256, 2#256].flatMap Word.toBytes ++
        (1 :: 2 :: List.replicate 30 0)) := rfl
  have accepted : layoutsOf {} [.tree (.array {} (.tuple {} [.elementary { name := "a" } "uint8",
      .elementary { name := "b" } "bytes"]) .dynamic)] =
      .ok [.array none (.tuple none [.number (some "a") ⟨1, by decide, by decide⟩ false,
        .bytes (some "b")]) .dynamic] := rfl
  obtain ⟨record, decoded, canonical, _⟩ := decode_encode accepted rfl encoded (by decide) true
  have same : some record =
      some [(none, .array [.tuple [("a", .uint 7), ("b", .bytes [1, 2])]])] := by
    rw [← canonical]
    rfl
  cases same
  exact ⟨_, encoded, decoded⟩

end AbiCodec
