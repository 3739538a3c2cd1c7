import AbiCodec.Proofs.AcceptedValues

/-!
# Encoding writes the wire format

Encoding under a layout appends the encoding of the canonical form, whatever was
written before, and fails on the values that have no canonical form.
-/

namespace AbiCodec

namespace Writing

/-- Whatever was written before, the action appends exactly these bytes; with none it fails. -/
def Gives (action : Writing Nat) : Option Bytes → Prop
  | some data => ∀ written, action.runFrom written = (.ok data.length, written ++ data)
  | none => ∀ written, ∃ e after, action.runFrom written = (.error e, after)

theorem gives_append (data : Bytes) : (append data).Gives (some data) := fun _ => rfl

theorem gives_nothing : (pure 0 : Writing Nat).Gives (some []) := by
  intro written
  rw [List.append_nil]
  rfl

theorem gives_fail (e : AbiError) : (fail e : Writing Nat).Gives none :=
  fun written => ⟨e, written, rfl⟩

/-- Appends what an earlier step gives, unless that step fails. -/
theorem gives_append_of {α : Type} (step : Except AbiError α) (f : α → Bytes) :
    (do append (f (← step)) : Writing Nat).Gives (step.toOption.map f) := by
  cases step with
  | error e => exact gives_fail e
  | ok x => exact gives_append (f x)

theorem runFrom_bind_of_ok {α β : Type} {action : Writing α} {f : α → Writing β} {x : α}
    {written after : Bytes} (h : action.runFrom written = (.ok x, after)) :
    (action >>= f).runFrom written = (f x).runFrom after := by
  change (ExceptT.bindCont f (action.runFrom written).1) (action.runFrom written).2 = _
  rw [h]
  rfl

theorem runFrom_bind_of_error {α β : Type} {action : Writing α} {f : α → Writing β}
    {e : AbiError} {written after : Bytes} (h : action.runFrom written = (.error e, after)) :
    (action >>= f).runFrom written = (.error e, after) := by
  change (ExceptT.bindCont f (action.runFrom written).1) (action.runFrom written).2 = _
  rw [h]
  rfl

theorem Gives.exists_of_ok {action : Writing Nat} {data? : Option Bytes} (h : action.Gives data?)
    {written after : Bytes} {k : Nat} (run : action.runFrom written = (.ok k, after)) :
    ∃ data, data? = some data ∧ k = data.length ∧ after = written ++ data := by
  cases data? with
  | none =>
    obtain ⟨e, kept, failed⟩ := h written
    rw [failed] at run
    cases run
  | some data =>
    rw [h written] at run
    cases run
    exact ⟨data, rfl, rfl, rfl⟩

/-- Two actions one after the other append the bytes of both. -/
theorem Gives.seq {first second : Writing Nat} {a : Bytes} {b : Option Bytes}
    (ha : first.Gives (some a)) (hb : second.Gives b) :
    (do let m ← first; let n ← second; return m + n : Writing Nat).Gives
      (b.map fun y => a ++ y) := by
  cases b with
  | none =>
    intro written
    obtain ⟨e, after, failed⟩ := hb (written ++ a)
    refine ⟨e, after, ?_⟩
    rw [runFrom_bind_of_ok (ha written), runFrom_bind_of_error failed]
  | some b =>
    intro written
    rw [runFrom_bind_of_ok (ha written), runFrom_bind_of_ok (hb (written ++ a)), List.append_assoc,
      List.length_append]
    rfl

theorem Gives.fails_bind {β : Type} {first : Writing Nat} (h : first.Gives none)
    (f : Nat → Writing β) (written : Bytes) :
    ∃ e after, (first >>= f).runFrom written = (.error e, after) := by
  obtain ⟨e, after, failed⟩ := h written
  exact ⟨e, after, runFrom_bind_of_error failed⟩

end Writing

open Writing

theorem Block.headLength_eq_sum (block : Block) :
    block.headLength = (block.heads.map Head.length).sum := by
  rw [headLength, List.sum, List.foldr_map]

namespace Child

/-- The heads that staging leaves for the children, when the tails before them have this
length. -/
def staged (length : Nat) : List Child → List Head
  | [] => []
  | c :: rest =>
    (if c.isDynamic then .pointer length else .inline c.data) ::
      staged (length + c.tail.length) rest

theorem map_length_staged (length : Nat) (children : List Child) :
    (staged length children).map Head.length = children.map headLength := by
  induction children generalizing length with
  | nil => rfl
  | cons c children ih =>
    rw [staged, List.map_cons, ih, List.map_cons]
    congr 1
    cases dynamic : c.isDynamic with
    | false => rw [headLength_of_static dynamic, if_neg Bool.false_ne_true, Head.length]
    | true => rw [headLength_of_dynamic dynamic, if_pos rfl, Head.length]

theorem headLength_staged (length : Nat) (written : Bytes) (children : List Child) :
    Block.headLength ⟨staged length children, written⟩ = headLengths children := by
  rw [Block.headLength_eq_sum, map_length_staged, headLengths]

/-- The staged heads with their pointers resolved are the heads of the block. -/
theorem flatMap_staged (base length : Nat) (children : List Child) :
    (staged length children).flatMap (Head.bytes base) = heads (base + length) children := by
  induction children generalizing length with
  | nil => rfl
  | cons c children ih =>
    rw [staged, List.flatMap_cons, ih, heads, ← Nat.add_assoc]
    congr 1
    cases dynamic : c.isDynamic with
    | false => rw [head_of_static dynamic, if_neg Bool.false_ne_true, Head.bytes]
    | true => rw [head_of_dynamic dynamic, if_pos rfl, Head.bytes]

theorem bytes_staged (children : List Child) :
    Block.bytes ⟨staged 0 children, tails children⟩ = layOut children := by
  rw [Block.bytes, headLength_staged, flatMap_staged, Nat.add_zero, layOut]

end Child

namespace Layout

/-- Each component encodes into its wire format, or fails on what has no canonical form. -/
def EncodeAsWire (components : List Layout) : Prop :=
  ∀ c ∈ components, ∀ v, (c.encode v).Gives ((c.canonical? v).map c.wire)

theorem gives_payload (data : Bytes) : (writePayload data).Gives (some (payload data)) :=
  (gives_append _).seq (gives_append _)

end Layout

namespace Block

open Layout

/-- Staging a slot that gives its data leaves the head of a child, and its tail behind the
tails before. -/
theorem stage_cons_of_some {slot : Slot} {data : Bytes} (given : slot.write.Gives (some data))
    (tails : Bytes) (rest : List Slot) :
    stage tails (slot :: rest) = (stage (tails ++ Child.tail ⟨slot.isDynamic, data⟩) rest).map
      fun block => ⟨(if slot.isDynamic then .pointer tails.length else .inline data) :: block.heads,
        block.tails⟩ := by
  rw [stage]
  by_cases dynamic : slot.isDynamic
  · have tail : Child.tail ⟨slot.isDynamic, data⟩ = data := Child.tail_of_dynamic dynamic
    rw [tail]
    simp only [dynamic, if_true, given tails]
    cases stage (tails ++ data) rest <;> rfl
  · have static : slot.isDynamic = false := Bool.eq_false_iff.2 dynamic
    have tail : Child.tail ⟨slot.isDynamic, data⟩ = [] := Child.tail_of_static static
    rw [tail, List.append_nil]
    simp only [static, Bool.false_eq_true, if_false, given [], List.nil_append]
    cases stage tails rest <;> rfl

theorem stage_cons_of_none {slot : Slot} (failing : slot.write.Gives none) (tails : Bytes)
    (rest : List Slot) : ∃ e, stage tails (slot :: rest) = .error e := by
  rw [stage]
  split
  · obtain ⟨e, after, failed⟩ := failing tails
    exact ⟨e, by rw [failed]⟩
  · obtain ⟨e, after, failed⟩ := failing []
    exact ⟨e, by rw [failed]⟩

end Block

namespace Layout

theorem stage_slots {components : List Layout} {values forms : List Value}
    (encodes : EncodeAsWire components) (h : CanonicalForms components values forms)
    (tails : Bytes) :
    Block.stage tails (slots components values) =
      .ok ⟨Child.staged tails.length (children components forms),
        tails ++ Child.tails (children components forms)⟩ := by
  induction h generalizing tails with
  | nil => simp [slots, children, Block.stage, Child.staged, Child.tails]
  | @cons c components v form values forms first _ ih =>
    rcases List.forall_mem_cons.1 encodes with ⟨own, others⟩
    have given := own v
    rw [first, Option.map_some] at given
    rw [slots, Block.stage_cons_of_some given, ih others, children, Child.staged,
      Child.tails_cons, List.length_append, List.append_assoc]
    rfl

theorem stage_slots_of_none {components : List Layout} {values : List Value}
    (encodes : EncodeAsWire components) (same : values.length = components.length)
    (missing : canonicalAll? components values = none) (tails : Bytes) :
    ∃ e, Block.stage tails (slots components values) = .error e := by
  induction components generalizing values tails with
  | nil =>
    rw [List.eq_nil_of_length_eq_zero same] at missing
    cases missing
  | cons c components ih =>
    cases values with
    | nil => cases same
    | cons v values =>
      rcases List.forall_mem_cons.1 encodes with ⟨own, others⟩
      have given := own v
      rw [canonicalAll?] at missing
      rw [slots]
      -- The first child without a canonical form fails; one with a form grows the tails.
      cases first : c.canonical? v with
      | none =>
        rw [first] at given
        exact Block.stage_cons_of_none given tails _
      | some form =>
        rw [first] at given
        rw [first, Option.bind_some, Option.map_eq_none_iff] at missing
        rcases ih others (Nat.succ.inj same) missing
          (tails ++ Child.tail ⟨c.isDynamic, c.wire form⟩) with ⟨e, failed⟩
        refine ⟨e, ?_⟩
        rw [Block.stage_cons_of_some given, failed]
        rfl

/-- Components write the block of their canonical forms. -/
theorem gives_block {components : List Layout} {values : List Value}
    (encodes : EncodeAsWire components) (same : values.length = components.length) :
    (Block.write (slots components values)).Gives
      ((canonicalAll? components values).map fun forms =>
        Child.layOut (children components forms)) := by
  rw [Block.write]
  cases missing : canonicalAll? components values with
  | none =>
    obtain ⟨e, failed⟩ := stage_slots_of_none encodes same missing []
    rw [failed]
    exact gives_fail e
  | some forms =>
    rw [stage_slots encodes (canonicalAll?_eq_some_iff.1 missing), List.length_nil, List.nil_append,
      Option.map_some, ← Child.bytes_staged]
    exact gives_append _

/-- As many values as components write the block of their canonical forms, and others fail. -/
theorem gives_components {components : List Layout} (encodes : EncodeAsWire components)
    (values : List Value) (e : AbiError) :
    (if values.length = components.length then Block.write (slots components values)
      else fail e : Writing Nat).Gives
      ((canonicalAll? components values).map fun forms =>
        Child.layOut (children components forms)) := by
  by_cases same : values.length = components.length
  · rw [if_pos same]
    exact gives_block encodes same
  · have mismatched : canonicalAll? components values = none := by
      by_contra present
      obtain ⟨forms, some⟩ := Option.ne_none_iff_exists'.1 present
      exact same (canonicalAll?_eq_some_iff.1 some).length_eq.1
    rw [if_neg same, mismatched]
    exact gives_fail e

/-- An array has the block of a tuple that repeats its element. -/
theorem slots_replicate (element : Layout) (items : List Value) :
    slots (List.replicate items.length element) items =
      items.map fun item => ⟨element.isDynamic, element.encode item⟩ := by
  induction items with
  | nil => rfl
  | cons v items ih => rw [List.length_cons, List.replicate_succ, slots, ih, List.map_cons]

theorem gives_elements {element : Layout}
    (encodes : ∀ v, (element.encode v).Gives ((element.canonical? v).map element.wire))
    (items : List Value) :
    (Block.write (items.map fun item => ⟨element.isDynamic, element.encode item⟩)).Gives
      ((items.mapM element.canonical?).map fun forms =>
        Child.layOut (children (List.replicate items.length element) forms)) := by
  rw [← slots_replicate, ← canonicalAll?_replicate]
  apply gives_block
  · exact List.forall_mem_replicate.2 (Or.inr encodes)
  · rw [List.length_replicate]

theorem map_wire_elements {length : ArrayLength} {items : List Value}
    (admitted : length.admits items.length = true) (name : Option String) (element : Layout) :
    ((array name element length).canonical? (.array items)).map (array name element length).wire =
      (items.mapM element.canonical?).map fun forms => countBytes length items.length ++
        Child.layOut (children (List.replicate items.length element) forms) := by
  simp only [canonical?, admitted, if_true]
  cases elements : items.mapM element.canonical? with
  | none => rfl
  | some forms =>
    rw [← canonicalAll?_replicate, canonicalAll?_eq_some_iff] at elements
    rw [Option.map_some, Option.map_some, Option.map_some, wire_array,
      elements.length_of_replicate]

theorem gives_encode (l : Layout) (v : Value) :
    (l.encode v).Gives ((l.canonical? v).map l.wire) := by
  induction l generalizing v with
  | address name =>
    have word := gives_append_of ((address name).addressWord v) Word.toBytes
    rw [toOption_addressWord name] at word
    exact word
  | bool name =>
    cases v with
    | bool b => exact gives_append _
    | _ => exact gives_fail _
  | number name width isSigned =>
    cases isSigned with
    | false =>
      have word := gives_append_of
        ((number name width false).unsignedWord width.bits v) Word.toBytes
      rw [toOption_unsignedWord] at word
      rw [canonical?, canonicalNumber?_unsigned, Option.map_map]
      exact word
    | true =>
      have word := gives_append_of ((number name width true).signedWord width.bits v) Word.toBytes
      rw [toOption_signedWord] at word
      rw [canonical?, canonicalNumber?_signed (bits_le_of_width width), Option.map_map]
      exact word
  | fixedBytes name width =>
    have padded := gives_append_of ((fixedBytes name width).fixedBytesOf width.size v) Bytes.padded
    rw [toOption_fixedBytesOf name] at padded
    exact padded
  | bytes name =>
    rw [encode, canonical?]
    cases v.asBytes? with
    | none => exact gives_fail _
    | some data => exact gives_payload data
  | string name =>
    cases v with
    | string text => exact gives_payload _
    | _ => exact gives_fail _
  | null name =>
    cases v with
    | null => exact gives_nothing
    | _ => exact gives_fail _
  | array name element length ih =>
    cases v with
    | array items =>
      have elements := gives_elements ih items
      cases length with
      | dynamic =>
        rw [map_wire_elements rfl]
        have counted := (gives_append (Word.toBytes (BitVec.ofNat 256 items.length))).seq elements
        rw [Option.map_map] at counted
        exact counted
      | fixed n =>
        by_cases same : n = items.length
        · have admitted : (ArrayLength.fixed n).admits items.length = true := beq_iff_eq.2 same
          have counted := gives_nothing.seq elements
          rw [Option.map_map] at counted
          rw [map_wire_elements admitted, encode, if_pos same]
          exact counted
        · have refused : ¬(ArrayLength.fixed n).admits items.length = true :=
            fun admitted => same (beq_iff_eq.1 admitted)
          rw [encode, if_neg same, canonical?, if_neg refused]
          exact (gives_fail _).fails_bind _
    | _ => exact gives_fail _
  | tuple name components ih =>
    have taken := toOption_tupleValues (tuple name components) (components.map Layout.name) v
    rw [canonical?, ← taken, encode]
    cases (tuple name components).tupleValues (components.map Layout.name) v with
    | error e => exact gives_fail e
    | ok values =>
      have block := gives_components ih values
        (.argumentMismatch components.length values.length v.inspect)
      have written : ((canonicalAll? components values).map fun forms =>
          Value.tuple ((components.map Layout.name).zip forms)).map (tuple name components).wire =
          (canonicalAll? components values).map fun forms =>
            Child.layOut (children components forms) := by
        cases missing : canonicalAll? components values with
        | none => rfl
        | some forms =>
          rw [Option.map_some, Option.map_some, wire_tuple (canonicalAll?_eq_some_iff.1 missing),
            Option.map_some]
      rw [← written] at block
      exact block

theorem gives_encodeAll (components : List Layout) (values : List Value) :
    (encodeAll components values).Gives ((canonicalAll? components values).map fun forms =>
      Child.layOut (children components forms)) :=
  gives_components (fun c _ => gives_encode c) values _

/-- A layout encodes exactly the values that have a canonical form. It appends the encoding of that
form to whatever was written before, a whole number of words, in whose blocks at any depth every
pointer leads to its child. -/
theorem encode_eq_ok_iff (l : Layout) (v : Value) (written : Bytes) (k : Nat) (after : Bytes) :
    (l.encode v).runFrom written = (.ok k, after) ↔
      ∃ form, l.canonical? v = some form ∧ after = written ++ l.wire form ∧
        k = (l.wire form).length ∧ wordSize ∣ k ∧
        ∀ block ∈ l.blocks form, Child.Resolve block := by
  have given := gives_encode l v
  cases canonical : l.canonical? v with
  | none =>
    rw [canonical] at given
    obtain ⟨e, kept, failed⟩ := given written
    simp [failed]
  | some form =>
    rw [canonical, Option.map_some] at given
    rw [given written]
    constructor
    · intro outcome
      simp only [Prod.mk.injEq, Except.ok.injEq] at outcome
      obtain ⟨rfl, rfl⟩ := outcome
      exact ⟨form, rfl, rfl, rfl, wordSize_dvd_length_wire l form, resolve_of_mem_blocks l form⟩
    · rintro ⟨_, same, rfl, rfl, _⟩
      cases same
      rfl

end Layout

end AbiCodec
