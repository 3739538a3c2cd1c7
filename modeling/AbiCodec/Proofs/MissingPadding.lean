import AbiCodec.Proofs.FinalPayload

/-!
# Encodings without their last padding

A loose reader gives the value of an encoding that lacks some of the padding that
ends it. Only the last dynamic child of each block is cut short by that; the
others are read back as they are.
-/

namespace AbiCodec

theorem exists_of_append_eq {a b part more : Bytes} (h : part ++ more = a ++ b)
    (le : more.length ≤ b.length) : ∃ left, part = a ++ left ∧ left ++ more = b := by
  have suffix : more <:+ b :=
    List.suffix_of_suffix_length_le ⟨part, h⟩ (List.suffix_append a b) le
  obtain ⟨left, rfl⟩ := suffix
  rw [← List.append_assoc] at h
  exact ⟨left, List.append_cancel_right h, rfl⟩

theorem Bytes.length_padding_lt (length : Nat) : (padding length).length < wordSize := by
  rw [padding, List.length_replicate]
  exact Nat.mod_lt _ (by decide)

namespace Child

/-- What is left of the tails of a child and those after it, when their end is cut off. -/
theorem drop_tailOffset_of_append {before after : List Child} {c : Child} {part more : Bytes}
    (split : part ++ more = layOut (before ++ c :: after))
    (le : more.length ≤ (c.tail ++ tails after).length) :
    tailOffset (before ++ c :: after) before ≤ part.length ∧
      part.drop (tailOffset (before ++ c :: after) before) ++ more =
        c.tail ++ tails after := by
  have inside := tailOffset_le before (c :: after)
  rw [← List.take_append_drop (tailOffset (before ++ c :: after) before)
    (layOut (before ++ c :: after)), drop_tailOffset] at split
  obtain ⟨left, rfl, rest⟩ := exists_of_append_eq split le
  have size := List.length_take_of_le inside
  refine ⟨?_, ?_⟩
  · rw [List.length_append, size]
    exact Nat.le_add_right _ _
  · rw [List.drop_left' size, rest]

end Child

/-- A loose reader holds the bytes, and they are all that it has left. -/
structure Reader.Ends (r : Reader) (data : Bytes) : Prop extends r.Holds data data.length where
  rest_eq : r.rest = data
  loose : r.isLoose = true

theorem Reader.Ends.next {r : Reader} {a b : Bytes} (h : r.Ends (a ++ b)) :
    (r.past a.length a.length).Ends b := by
  have holds := h.toHolds
  rw [List.length_append] at holds
  refine ⟨holds.next, ?_, h.loose⟩
  rw [Reader.rest_past, h.rest_eq, List.drop_left]

theorem Reader.Ends.first {r : Reader} {a b : Bytes} (h : r.Ends (a ++ b)) :
    r.Holds a a.length := by
  have holds := h.toHolds
  rw [List.length_append] at holds
  exact holds.first

namespace Reading

variable {α β : Type}

/-- The action gives `x` to a loose reader of the bytes when some of the padding of the payload
that ends them is cut off, and reads no more than is left of them. -/
def ReadsCut (action : Reading α) (data payload : Bytes) (x : α) : Prop :=
  ∀ ⦃part more : Bytes⦄, part ++ more = data →
    more.length ≤ (Bytes.padding payload.length).length → ∀ ⦃r : Reader⦄, r.Ends part →
      ∃ moved spent, spent ≤ part.length ∧ action.runFrom r = (.ok x, r.past moved spent)

/-- What a reader holds but for some padding is short enough to be counted. -/
theorem ReadsCut.of_counted {action : Reading α} {data payload : Bytes} {x : α}
    (reads : data.length < countLimit → ReadsCut action data payload x) :
    ReadsCut action data payload x := by
  intro part more split le r h
  have short := h.length_lt
  have missing := Bytes.length_padding_lt payload.length
  have total := congrArg List.length split
  rw [List.length_append] at total
  simp only [wordSize] at missing
  exact reads (by simp only [countLimit]; omega) split le h

theorem ReadsCut.checked {action : Reading α} {check : Reader → α → Except AbiError β}
    {data payload : Bytes} {x : α} {y : β} (reads : ReadsCut action data payload x)
    (passes : ∀ r, check r x = .ok y) : ReadsCut (checked action check) data payload y := by
  intro part more split le r h
  obtain ⟨moved, spent, less, run⟩ := reads split le h
  exact ⟨moved, spent, less, by rw [runFrom_checked_of_ok run, passes]⟩

/-- A last step that reads nothing. -/
theorem ReadsCut.finish {action : Reading α} {next : α → Reading β} {data payload : Bytes}
    {x : α} {y : β} (before : ReadsCut action data payload x)
    (last : ∀ r : Reader, r.hook = none → (next x).runFrom r = (.ok y, r)) :
    ReadsCut (action >>= next) data payload y := by
  intro part more split le r h
  obtain ⟨moved, spent, less, run⟩ := before split le h
  exact ⟨moved, spent, less, by rw [runFrom_bind_of_ok run]; exact last _ h.hook_eq⟩

theorem ReadsCut.coerce {action : Reading α} {f : α → Value} {data payload : Bytes} {x : α}
    (reads : ReadsCut action data payload x) (name : String) :
    ReadsCut (action >>= fun x => coerce name (f x)) data payload (f x) :=
  reads.finish fun r hookless => by rw [runFrom_coerce, Reader.coerce, hookless]

/-- Reading on, from behind bytes that are all there. -/
theorem Reads.bindCut {action : Reading α} {next : α → Reading β} {a b payload : Bytes} {x : α}
    {y : β} (before : Reads action a a.length x) (after : ReadsCut (next x) b payload y)
    (room : (Bytes.padding payload.length).length ≤ b.length) :
    ReadsCut (action >>= next) (a ++ b) payload y := by
  intro part more split le r h
  obtain ⟨left, rfl, rest⟩ := exists_of_append_eq split (Nat.le_trans le room)
  obtain ⟨moved, spent, less, run⟩ := after rest le h.next
  refine ⟨a.length + moved, a.length + spent, ?_, ?_⟩
  · rw [List.length_append]
    exact Nat.add_le_add_left less _
  · rw [runFrom_bind_of_ok (before r h.first), run, Reader.past_past]

/-- A relaxed read at the end of loose data takes what there is of the padding, or none of it. -/
theorem readsCut_bytes (data : Bytes) :
    ReadsCut (bytes data.length true) (Bytes.padded data) data data := by
  intro part more split le r h
  obtain ⟨left, rfl, _⟩ := exists_of_append_eq split le
  have whole := h.inBounds.length_rest_add
  have front : r.rest.take data.length = data := by rw [h.rest_eq, List.take_left]
  have paid (taken : Nat) (le : taken ≤ (data ++ left).length) :
      r.pay taken data = (.ok data, r.past taken taken) :=
    (h.toHolds.mono List.prefix_rfl le).pay_eq data
  rw [h.rest_eq] at whole
  rw [runFrom_bytes h.inBounds, Reader.takenLength_eq h.inBounds, front, h.loose]
  by_cases inside : r.offset + Bytes.alignedLength data.length ≤ r.data.length
  · rw [if_pos inside]
    have le : Bytes.alignedLength data.length ≤ (data ++ left).length := by omega
    exact ⟨_, _, le, paid _ le⟩
  · have le : data.length ≤ (data ++ left).length := (List.prefix_append _ _).length_le
    have fits : r.offset + data.length ≤ r.data.length := by omega
    rw [if_neg inside, if_pos (by simp [fits])]
    exact ⟨_, _, le, paid _ le⟩

end Reading

open Reading

namespace Layout

theorem readsCut_payload (typeName : String) (data : Bytes) :
    ReadsCut (readPayload typeName) (payload data) data data := by
  apply ReadsCut.of_counted
  intro small
  have counted : data.length < countLimit := by
    simp only [payload, Bytes.padded, List.length_append] at small
    omega
  apply (reads_count typeName counted).bindCut (readsCut_bytes data)
  rw [Bytes.padded, List.length_append]
  exact Nat.le_add_left _ _

theorem readsCut_text (text : String) :
    ReadsCut readText (payload (utf8Bytes text)) (utf8Bytes text) (.string text) := by
  rw [readText_eq_checked]
  apply (readsCut_payload "string" (utf8Bytes text)).checked
  intro r
  rw [Utf8.decode_utf8Bytes]

/-- A dynamic child is read where its pointer leads when its padding is cut off there. -/
theorem runFrom_readIn_cut {c : Layout} {form : Value} {payload part more : Bytes}
    (dynamic : c.isDynamic = true) (reads : ReadsCut c.decode (c.wire form) payload form)
    (split : part ++ more = c.wire form)
    (le : more.length ≤ (Bytes.padding payload.length).length) {block : Bytes} {base r : Reader}
    {offset : Nat} (ends : base.Ends block) (inside : offset ≤ block.length)
    (tail : block.drop offset = part)
    (h : r.Holds (Word.toBytes (BitVec.ofNat 256 offset)) (wordSize + part.length)) :
    ∃ spent, spent ≤ wordSize + part.length ∧
      (c.part.readIn base).runFrom r = (.ok form, r.past wordSize spent) := by
  have pointer := h.mono List.prefix_rfl (Nat.le_add_right wordSize _)
  have there : ({ base.viewAt (base.offset + offset) with
      budget := (r.past wordSize wordSize).budget } : Reader).Ends part := by
    have rest : (base.viewAt (base.offset + offset)).rest = part := by
      rw [← tail, ← ends.rest_eq, Reader.rest, Reader.rest, List.drop_drop]
      rfl
    refine ⟨⟨ends.hook_eq, (ends.inBounds.viewAt _).withBudget _, ?_, Nat.min_le_right _ _, ?_⟩,
      rest, ends.loose⟩
    · exact ⟨[], by rw [List.append_nil]; exact rest.symm⟩
    · rw [Reader.past, Budget.spend_spend]
      exact h.covered
  obtain ⟨moved, spent, less, run⟩ := reads split le there
  refine ⟨wordSize + spent, Nat.add_le_add_left less _, ?_⟩
  have run : c.part.read.runFrom _ = _ := run
  rw [← ends.rest_eq] at inside
  rw [Part.runFrom_readIn_pointer dynamic ends.inBounds inside pointer, runFrom_elsewhere, run]
  simp [Reader.past, Budget.spend_spend]

theorem padding_le_wire {l : Layout} {v : Value} {payload : Bytes}
    (final : l.finalPayload? v = some payload) :
    (Bytes.padding payload.length).length ≤ (l.wire v).length := by
  have ending := (suffix_wire final).length_le
  rw [Bytes.padded, List.length_append] at ending
  omega

/-- The components read the encodings of their forms back. -/
def ReadForms (components : List Layout) : Prop :=
  ∀ c ∈ components, ∀ v form, c.canonical? v = some form → c.ReadsBack form

theorem readForms_of_allSized {components : List Layout} (sized : allSized components = true) :
    ReadForms components :=
  fun _ member _ _ => readsBack_of_canonical (isSized_of_mem sized member)

/-- The components read the encodings of their forms without the padding at the end. -/
def ReadFormsCut (components : List Layout) : Prop :=
  ∀ c ∈ components, ∀ v form payload, c.canonical? v = some form →
    c.finalPayload? form = some payload → ReadsCut c.decode (c.wire form) payload form

variable {components : List Layout} {values forms : List Value}

theorem padding_le_tails {payload : Bytes}
    (final : finalPayloadOf? components forms = some payload) :
    (Bytes.padding payload.length).length ≤ (Child.tails (children components forms)).length := by
  have ending := (suffix_tails (fun c _ v => suffix_wire) final).length_le
  rw [Bytes.padded, List.length_append] at ending
  omega

/-- Static children are read in place, whatever block they are in. -/
theorem reads_readAllIn_of_static (static : anyDynamic components = false)
    (back : ReadForms components)
    (h : CanonicalForms components values forms) (base : Reader) (offset : Nat) :
    Reads (Part.readAllIn base (components.map part))
      (Child.heads offset (children components forms))
      (Child.headLengths (children components forms)) forms := by
  induction h generalizing offset with
  | nil =>
    intro r held
    exact congrArg _ held.past_zero.symm
  | @cons c components v form values forms first _ ih =>
    rcases List.forall_mem_cons.1 back with ⟨own, others⟩
    rw [anyDynamic, Bool.or_eq_false_iff] at static
    obtain ⟨moved, reads, inPlace⟩ := (own v form first).reads
    cases inPlace static.1
    have here : c.part.readIn base = c.decode := by
      simp only [Part.readIn, part, static.1, Bool.false_eq_true, if_false]
    rw [children, Child.heads, Child.head_of_static static.1, Child.headLengths_cons,
      Child.headLength_of_static static.1, List.map_cons, Part.readAllIn, here]
    exact Reads.bind reads ((ih static.2 others _).finish fun _ _ => rfl)

/-- The last dynamic child of a block is read without its end, and those after it are in place. -/
theorem runFrom_readAllIn_last {c : Layout} {form : Value} {payload part more : Bytes}
    (dynamic : c.isDynamic = true) (reads : ReadsCut c.decode (c.wire form) payload form)
    (le : more.length ≤ (Bytes.padding payload.length).length)
    (static : anyDynamic components = false)
    (back : ReadForms components)
    (h : CanonicalForms components values forms) {offset covered : Nat} {base r : Reader}
    (ends : base.Ends part) (inside : offset ≤ part.length)
    (split : part.drop offset ++ more = c.wire form)
    (enough : wordSize + (c.wire form).length + Child.headLengths (children components forms) ≤
      covered + more.length)
    (holds : r.Holds (Child.heads offset (children (c :: components) (form :: forms))) covered) :
    ∃ spent, spent ≤ covered ∧
      (Part.readAllIn base ((c :: components).map Layout.part)).runFrom r = (.ok (form :: forms),
        r.past (Child.headLengths (children (c :: components) (form :: forms))) spent) := by
  have size := congrArg List.length split
  rw [List.length_append] at size
  rw [children, Child.heads, Child.head_of_dynamic dynamic] at holds
  have pointer := holds.mono (List.prefix_append _ _)
    (by omega : wordSize + (part.drop offset).length ≤ covered)
  obtain ⟨spent, less, one⟩ := runFrom_readIn_cut dynamic reads split le ends inside rfl pointer
  have onward := (holds.mono List.prefix_rfl (by omega :
    spent + Child.headLengths (children components forms) ≤ covered)).next
  rw [Word.length_toBytes] at onward
  have others := reads_readAllIn_of_static static back h base
    (offset + (Child.tail ⟨c.isDynamic, c.wire form⟩).length) _ (by
      rw [Child.length_heads]
      exact onward)
  rw [Child.length_heads] at others
  refine ⟨spent + Child.headLengths (children components forms), by omega, ?_⟩
  rw [List.map_cons, Part.readAllIn, runFrom_bind_of_ok one, runFrom_bind_of_ok others,
    runFrom_pure, Reader.past_past, children, Child.headLengths_cons,
    Child.headLength_of_dynamic dynamic]

/-- A child is read as it is when what is cut off of the block belongs to those after it. -/
theorem runFrom_readIn_whole {c : Layout} {form : Value} (back : c.ReadsBack form)
    {before after : List Child} {part more : Bytes}
    (split : part ++ more = Child.layOut (before ++ ⟨c.isDynamic, c.wire form⟩ :: after))
    (le : more.length ≤ (Child.tails after).length) {base r : Reader} (ends : base.Ends part)
    (holds : r.Holds (Child.head
        (Child.tailOffset (before ++ ⟨c.isDynamic, c.wire form⟩ :: after) before)
        ⟨c.isDynamic, c.wire form⟩)
      (Child.headLength ⟨c.isDynamic, c.wire form⟩ +
        (Child.tail ⟨c.isDynamic, c.wire form⟩).length)) :
    (c.part.readIn base).runFrom r = (.ok form,
      r.past (Child.headLength ⟨c.isDynamic, c.wire form⟩)
        (Child.headLength ⟨c.isDynamic, c.wire form⟩ +
          (Child.tail ⟨c.isDynamic, c.wire form⟩).length)) := by
  obtain ⟨inside, left⟩ := Child.drop_tailOffset_of_append split (by
    rw [List.length_append]
    omega)
  obtain ⟨between, whole, _⟩ := exists_of_append_eq left le
  rw [← ends.rest_eq] at inside whole
  apply Part.runFrom_readIn_of_tail back ends.hook_eq ends.inBounds ?_ inside holds
  rw [whole]
  exact List.prefix_append _ _

/-- The children of a block whose end is cut off: those before the last dynamic one are all there,
and those after it are in the heads. -/
theorem runFrom_readAllIn_cut (back : ReadForms components) (cut : ReadFormsCut components)
    (h : CanonicalForms components values forms) (before : List Child) {payload part more : Bytes}
    (final : finalPayloadOf? components forms = some payload)
    (split : part ++ more = Child.layOut (before ++ children components forms))
    (le : more.length ≤ (Bytes.padding payload.length).length) {base r : Reader}
    (ends : base.Ends part) {covered : Nat}
    (enough : Child.headLengths (children components forms) +
      (Child.tails (children components forms)).length ≤ covered + more.length)
    (holds : r.Holds (Child.heads
      (Child.tailOffset (before ++ children components forms) before)
      (children components forms)) covered) :
    ∃ spent, spent ≤ covered ∧ (Part.readAllIn base (components.map Layout.part)).runFrom r =
      (.ok forms, r.past (Child.headLengths (children components forms)) spent) := by
  induction h generalizing before r covered with
  | nil => cases final
  | @cons c components v form values forms first rest ih =>
    rcases List.forall_mem_cons.1 back with ⟨own, others⟩
    rcases List.forall_mem_cons.1 cut with ⟨ownCut, othersCut⟩
    rw [finalPayloadOf?] at final
    rw [children, Child.headLengths_cons, Child.tails_cons, List.length_append] at enough
    cases last : anyDynamic components with
    | true =>
      -- The end that is cut off belongs to a later child, so `c` is there as a whole.
      rw [last, if_pos rfl] at final
      have later := Nat.le_trans le (padding_le_tails final)
      obtain ⟨further, rfl⟩ := Nat.exists_eq_add_of_le (by omega :
        Child.headLength ⟨c.isDynamic, c.wire form⟩ +
          (Child.tail ⟨c.isDynamic, c.wire form⟩).length ≤ covered)
      rw [children, Child.heads] at holds
      have one := runFrom_readIn_whole (own v form first) split later ends holds.first
      have onward := holds.next
      rw [Child.tailOffset_next, Child.length_head] at onward
      rw [children, List.append_cons] at split
      obtain ⟨spent, less, run⟩ := ih others othersCut _ final split (by omega) onward
      refine ⟨_, Nat.add_le_add_left less _, ?_⟩
      rw [List.map_cons, Part.readAllIn, runFrom_bind_of_ok one, runFrom_bind_of_ok run,
        runFrom_pure, Reader.past_past, children, Child.headLengths_cons]
    | false =>
      rw [last, if_neg Bool.false_ne_true] at final
      split at final
      · next dynamic =>
        have none := tails_of_static last forms
        have tail : Child.tail ⟨c.isDynamic, c.wire form⟩ = c.wire form :=
          Child.tail_of_dynamic dynamic
        rw [none, tail, Child.headLength_of_dynamic dynamic, List.length_nil] at enough
        obtain ⟨inside, left⟩ := Child.drop_tailOffset_of_append split (by
          rw [none, tail, List.append_nil]
          exact Nat.le_trans le (padding_le_wire final))
        rw [none, tail, List.append_nil] at left
        exact runFrom_readAllIn_last dynamic (ownCut v form payload first final) le last others rest
          ends inside left (by omega) holds
      · cases final

theorem readsCut_block (back : ReadForms components) (cut : ReadFormsCut components)
    (h : CanonicalForms components values forms) {payload : Bytes}
    (final : finalPayloadOf? components forms = some payload) :
    ReadsCut (readBlock (components.map part)) (Child.layOut (children components forms)) payload
      forms := by
  intro part more split le r ends
  have start : (inspect fun r => r.sub 0).runFrom r = (.ok (r.viewAt r.offset), r) := by
    rw [runFrom_inspect, Reader.sub_eq ends.inBounds, Nat.add_zero, if_pos ends.inBounds.offset_le]
  have base : (r.viewAt r.offset).Ends part :=
    ⟨⟨ends.hook_eq, ends.inBounds.viewAt _, ends.starts, ends.counted, ends.covered⟩,
      ends.rest_eq, ends.loose⟩
  have total := congrArg List.length split
  rw [List.length_append, Child.length_layOut] at total
  obtain ⟨left, whole, _⟩ := exists_of_append_eq split (Nat.le_trans le (padding_le_tails final))
  have heads := ends.toHolds.mono (whole ▸ List.prefix_append _ _) (Nat.le_refl _)
  obtain ⟨spent, less, run⟩ := runFrom_readAllIn_cut back cut h [] final split le base
    (Nat.le_of_eq total.symm) heads
  exact ⟨_, spent, less, by rw [readBlock, runFrom_bind_of_ok start, run]⟩

theorem readsCut_array {name : Option String} {element : Layout} {length : ArrayLength}
    {items forms : List Value} {payload : Bytes}
    (sized : (length != .dynamic || element.headSize != 0) = true)
    (admitted : length.admits items.length = true)
    (back : ReadForms (List.replicate items.length element))
    (cut : ReadFormsCut (List.replicate items.length element))
    (h : CanonicalForms (List.replicate items.length element) items forms)
    (final : finalPayloadOf? (List.replicate items.length element) forms = some payload) :
    ReadsCut (array name element length).decode ((array name element length).wire (.array forms))
      payload (.array forms) := by
  intro part more split le r ends
  have same := h.length_of_replicate
  have block := (readsCut_block back cut h final).coerce "array" (f := Value.array)
  rw [List.map_replicate] at block
  have missing := padding_le_tails final
  rw [wire_array, same] at split
  obtain ⟨left, rfl, rest⟩ := exists_of_append_eq split (by
    rw [Child.length_layOut]
    omega)
  have room : items.length * element.headSize ≤ left.length := by
    have heads := mul_headSize_le_headLengths h
    have total := congrArg List.length rest
    rw [List.length_append, Child.length_layOut] at total
    omega
  have holds := ends.toHolds
  rw [List.length_append] at holds
  have counted := runFrom_readCount (l := array name element length) admitted sized room holds
  obtain ⟨moved, spent, less, run⟩ := block rest le ends.next
  refine ⟨(countBytes length items.length).length + moved,
    (countBytes length items.length).length + spent, ?_, ?_⟩
  · rw [List.length_append]
    exact Nat.add_le_add_left less _
  · rw [decode_array, runFrom_bind_of_ok counted, run, Reader.past_past]

theorem readsCut_decodeAll (back : ReadForms components) (cut : ReadFormsCut components)
    (h : CanonicalForms components values forms) {payload : Bytes}
    (final : finalPayloadOf? components forms = some payload) :
    ReadsCut (decodeAll components) (Child.layOut (children components forms)) payload
      ((components.map name).zip forms) := by
  have block := readsCut_block back cut h final
  rw [← parts_eq_map] at block
  apply block.finish
  intro r _
  rw [recordOf, Record.ofParts?, if_pos (by rw [List.length_map, h.length_eq.2])]
  rfl

/-- Every layout gives canonical forms from encodings whose last padding is cut off. -/
theorem readsCut_of_canonical {l : Layout} (sized : l.isSized = true) {v form : Value}
    {payload : Bytes} (h : l.canonical? v = some form)
    (final : l.finalPayload? form = some payload) :
    ReadsCut l.decode (l.wire form) payload form := by
  induction l generalizing v form payload with
  | bytes name =>
    obtain ⟨data, rfl⟩ := conforms_of_canonical? h
    obtain rfl : data = payload := Option.some.inj final
    exact (readsCut_payload "bytes" data).coerce "bytes" (f := Value.bytes)
  | string name =>
    obtain ⟨text, rfl⟩ := conforms_of_canonical? h
    obtain rfl : utf8Bytes text = payload := Option.some.inj final
    exact (readsCut_text text).coerce "string" (f := id)
  | array name element length ih =>
    rw [isSized, Bool.and_eq_true] at sized
    obtain ⟨items, forms, rfl, admitted, mapped, rfl⟩ := canonical?_array_eq_some_iff.1 h
    rw [finalPayload?_array, mapped.length_of_replicate] at final
    exact readsCut_array sized.1 admitted
      (List.forall_mem_replicate.2 (Or.inr fun _ _ => readsBack_of_canonical sized.2))
      (List.forall_mem_replicate.2 (Or.inr fun _ _ _ => ih sized.2)) mapped final
  | tuple name components ih =>
    rw [isSized] at sized
    obtain ⟨values, forms, _, mapped, rfl⟩ := canonical?_tuple_eq_some_iff.1 h
    rw [finalPayload?, mapped.values_zip] at final
    rw [decode_tuple, wire_tuple mapped]
    exact (readsCut_decodeAll (readForms_of_allSized sized)
      (fun c member _ _ _ => ih c member (isSized_of_mem sized member)) mapped final).coerce "tuple"
  | _ => cases form <;> cases final

end Layout

end AbiCodec
