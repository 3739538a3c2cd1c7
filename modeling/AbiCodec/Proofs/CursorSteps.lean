import AbiCodec.Proofs.ReadExtent

/-!
# How decoding moves the cursor

Reading a static layout moves the cursor by its width whatever is read, and a
dynamic child of a block moves it by its pointer, since the tail is read elsewhere.
So a block moves the cursor over its heads alone. Nothing is read past the end of
the data, not even what takes no bytes.
-/

namespace AbiCodec

namespace Reading

variable {α β : Type} {m n : Nat}

/-- From inside the data, the action gives a value only after moving the cursor by so many bytes,
which the data has. -/
def Spans (count : Nat) (action : Reading α) : Prop :=
  ∀ ⦃r x after⦄, r.offset ≤ r.data.length → action.runFrom r = (.ok x, after) →
    r.Advances after count ∧ r.offset + count ≤ r.data.length

theorem Spans.bind {action : Reading α} {next : α → Reading β} (first : Spans m action)
    (second : ∀ x, Spans n (next x)) : Spans (m + n) (action >>= next) := by
  intro r y after inside run
  obtain ⟨x, mid, before, run⟩ := exists_of_runFrom_bind run
  obtain ⟨⟨budget, rfl⟩, within⟩ := first inside before
  obtain ⟨moved, beyond⟩ := second x within run
  exact ⟨Reader.Advances.trans ⟨budget, rfl⟩ moved, by rwa [Nat.add_assoc] at beyond⟩

theorem Spans.checked {action : Reading α} (spans : Spans n action)
    (check : Reader → α → Except AbiError β) : Spans n (checked action check) := by
  intro r y after inside run
  obtain ⟨x, before, _⟩ := exists_of_runFrom_checked run
  exact spans inside before

theorem spans_inspect (f : Reader → Except AbiError α) : Spans 0 (inspect f) := by
  intro r x after inside run
  obtain ⟨_, rfl⟩ := Prod.mk.inj run
  exact ⟨r.advances_zero, inside⟩

/-- Steps that leave the cursor do not count. -/
theorem Spans.andThen {action : Reading α} {next : α → Reading β} (spans : Spans n action)
    (still : ∀ x, Spans 0 (next x)) : Spans n (action >>= next) :=
  spans.bind still

theorem Spans.after {action : Reading α} {next : α → Reading β} (still : Spans 0 action)
    (spans : ∀ x, Spans n (next x)) : Spans n (action >>= next) := by
  have both := still.bind spans
  rwa [Nat.zero_add] at both

/-- Reading elsewhere leaves the cursor where it is. -/
theorem spans_elsewhere (place : Reader) (action : Reading α) : Spans 0 (elsewhere place action) := by
  intro r x after inside run
  rw [runFrom_elsewhere] at run
  obtain ⟨_, rfl⟩ := Prod.mk.inj run
  exact ⟨⟨_, rfl⟩, inside⟩

theorem spans_bytes (length : Nat) : Spans (Bytes.alignedLength length) (bytes length false) := by
  intro r x after _ run
  obtain ⟨taken, takes, _, _, rfl⟩ := exists_of_runFrom_bytes run
  cases takes.eq_aligned
  exact ⟨⟨_, rfl⟩, takes.inside⟩

theorem spans_word : Spans wordSize word := by
  intro r x after _ run
  obtain ⟨inside, _, rfl⟩ := of_runFrom_word run
  exact ⟨⟨_, rfl⟩, inside⟩

theorem spans_count (typeName : String) : Spans wordSize (count typeName) := by
  rw [count_eq_checked]
  exact spans_word.checked _

/-- The action gives a value only where the cursor is inside the data. -/
def StartsInside (action : Reading α) : Prop :=
  ∀ ⦃r x after⦄, action.runFrom r = (.ok x, after) → r.offset ≤ r.data.length

theorem StartsInside.bind {action : Reading α} (starts : StartsInside action)
    (next : α → Reading β) : StartsInside (action >>= next) := by
  intro r y after run
  obtain ⟨x, mid, before, _⟩ := exists_of_runFrom_bind run
  exact starts before

theorem StartsInside.checked {action : Reading α} (starts : StartsInside action)
    (check : Reader → α → Except AbiError β) : StartsInside (checked action check) := by
  intro r y after run
  obtain ⟨x, before, _⟩ := exists_of_runFrom_checked run
  exact starts before

theorem startsInside_bytes (length : Nat) (relaxed : Bool) :
    StartsInside (bytes length relaxed) := by
  intro r x after run
  obtain ⟨taken, takes, _⟩ := exists_of_runFrom_bytes run
  exact Nat.le_trans (Nat.le_add_right _ _) takes.inside

theorem startsInside_word : StartsInside word :=
  (startsInside_bytes wordSize false).bind _

theorem startsInside_count (typeName : String) : StartsInside (count typeName) := by
  rw [count_eq_checked]
  exact startsInside_word.checked _

theorem startsInside_readBlock (parts : List Part) : StartsInside (readBlock parts) := by
  intro r values after run
  obtain ⟨base, mid, start, _⟩ := exists_of_runFrom_bind run
  obtain ⟨made, rfl⟩ := Prod.mk.inj start
  exact (Reader.of_sub_eq_ok made).1

end Reading

open Reading

namespace Layout

/-- A static layout spans its width; a dynamic one may read any tail. -/
def SpansWidth (l : Layout) : Prop := l.isDynamic = false → Spans l.headWidth l.decode

/-- A child moves the cursor by its width, and a dynamic child by its pointer. -/
theorem spans_readIn {c : Layout} (own : c.SpansWidth) (base : Reader) :
    Spans c.headWidth (c.part.readIn base) := by
  rw [Part.readIn]
  split
  · next dynamic =>
    rw [headWidth_of_isDynamic dynamic]
    -- The tail is read elsewhere, so nothing has to be known of it.
    exact (spans_count _).andThen fun offset =>
      (spans_inspect fun _ => base.sub offset).andThen fun place => spans_elsewhere place _
  · next static => exact own (Bool.eq_false_iff.2 static)

theorem spans_readAllIn {components : List Layout} (each : ∀ c ∈ components, c.SpansWidth)
    (base : Reader) : Spans (headWidths components) (Part.readAllIn base (components.map part)) := by
  induction components with
  | nil => exact spans_inspect fun _ => .ok []
  | cons c components ih =>
    rcases List.forall_mem_cons.1 each with ⟨own, others⟩
    rw [headWidths, List.map_cons, Part.readAllIn]
    exact (spans_readIn own base).bind fun v =>
      (ih others).andThen fun vs => spans_inspect fun _ => .ok (v :: vs)

theorem spans_readBlock {components : List Layout} (each : ∀ c ∈ components, c.SpansWidth) :
    Spans (headWidths components) (readBlock (components.map part)) :=
  (spans_inspect fun r => r.sub 0).after fun base => spans_readAllIn each base

/-- Reads so many elements of an array. -/
def elements (element : Layout) (count : Nat) : Reading Value := do
  let items ← readBlock (List.replicate count element.part)
  Reading.coerce "array" (.array items)

theorem spans_elements {element : Layout} (own : element.SpansWidth) (count : Nat) :
    Spans (count * element.headWidth) (element.elements count) := by
  have block := spans_readBlock (List.forall_mem_replicate.2 (Or.inr own) :
    ∀ c ∈ List.replicate count element, c.SpansWidth)
  rw [headWidths_replicate, List.map_replicate] at block
  exact block.andThen fun items => spans_inspect _

/-- A static layout moves the cursor by its width, whatever it reads. -/
theorem spans_decode (l : Layout) : l.SpansWidth := by
  intro static
  induction l with
  | address name =>
    have word : Spans wordSize readAddress := by
      rw [readAddress_eq_checked]
      exact spans_word.checked _
    exact word.andThen fun _ => spans_inspect _
  | bool name => exact spans_word.andThen fun _ => spans_inspect _
  | number name width isSigned => exact spans_word.andThen fun _ => spans_inspect _
  | fixedBytes name width =>
    have bytes := spans_bytes width.size
    rw [Bytes.alignedLength_of_le_wordSize width.pos width.le_wordSize] at bytes
    exact bytes.andThen fun _ => spans_inspect _
  | bytes name => cases static
  | string name => cases static
  | null name => exact (spans_bytes 0).andThen fun _ => spans_inspect _
  | array name element length ih =>
    cases length with
    | dynamic => cases static
    | fixed n =>
      rw [isDynamic_fixed] at static
      rw [headWidth, static, if_neg Bool.false_ne_true]
      rw [decode_array]
      intro r v after inside run
      obtain ⟨count, mid, counted, looped⟩ := exists_of_runFrom_bind run
      obtain ⟨⟨rfl, rfl⟩, _⟩ := fixedCount_eq_ok_iff.1 counted
      exact spans_elements ih count inside looped
  | tuple name components ih =>
    rw [isDynamic] at static
    have block := spans_readBlock ih
    rw [← parts_eq_map] at block
    rw [headWidth, static, if_neg Bool.false_ne_true]
    refine block.andThen fun values => ?_
    have record : Spans 0 (recordOf (components.map Layout.name) values) := by
      rw [recordOf]
      split <;> exact spans_inspect _
    exact record.andThen fun _ => spans_inspect _

theorem startsInside_readPayload (typeName : String) : StartsInside (readPayload typeName) :=
  (startsInside_count typeName).bind _

theorem startsInside_readCount (l element : Layout) (length : ArrayLength) :
    StartsInside (l.readCount element length) := by
  cases length with
  | fixed n =>
    intro r count after run
    exact (fixedCount_eq_ok_iff.1 run).2.1
  | dynamic =>
    intro r count after run
    exact startsInside_count "array" (dynamicCount_eq_ok_iff.1 run).1

/-- Nothing is decoded past the end of the data, not even what takes no bytes. -/
theorem startsInside_decode (l : Layout) : StartsInside l.decode := by
  cases l with
  | address name =>
    have word : StartsInside readAddress := by
      rw [readAddress_eq_checked]
      exact startsInside_word.checked _
    exact word.bind _
  | bool name => exact startsInside_word.bind _
  | number name width isSigned => exact startsInside_word.bind _
  | fixedBytes name width => exact (startsInside_bytes _ _).bind _
  | bytes name => exact (startsInside_readPayload _).bind _
  | string name =>
    have text : StartsInside readText := by
      rw [readText_eq_checked]
      exact (startsInside_readPayload _).checked _
    exact text.bind _
  | null name => exact (startsInside_bytes _ _).bind _
  | array name element length =>
    rw [decode_array]
    exact (startsInside_readCount _ element length).bind _
  | tuple name components => exact (startsInside_readBlock _).bind _

/-- Reading a block moves the cursor over the heads alone, wherever the pointers lead. -/
theorem advances_of_readBlock {components : List Layout} {r after : Reader} {values : List Value}
    (run : (readBlock (parts components)).runFrom r = (.ok values, after)) :
    r.Advances after (headWidths components) := by
  have inside := startsInside_readBlock _ run
  rw [parts_eq_map] at run
  exact (spans_readBlock (fun c _ => c.spans_decode) inside run).1

theorem advances_of_decode {l : Layout} (static : l.isDynamic = false) {r after : Reader} {v : Value}
    (run : l.decode.runFrom r = (.ok v, after)) : r.Advances after l.headWidth :=
  (l.spans_decode static (l.startsInside_decode run) run).1

end Layout

end AbiCodec
