import AbiCodec.Proofs.DecodeSafety
import AbiCodec.Proofs.DecodedForm
import AbiCodec.Proofs.RoundTrip

/-!
# Room for the elements of arrays

Before it reads the elements of an array of dynamic length, the decoder asks for
a word of data for each of them, from the count of the array on. Elements that
take no bytes do not bring these words with them, so such an array comes back
exactly when enough bytes happen to stand behind its count.
-/

namespace AbiCodec

namespace Child

/-- The bytes from the tail of each child on, when so many are left at the tail of the first. -/
def roomsFrom (room : Nat) : List Child → List Nat
  | [] => []
  | c :: rest => room :: roomsFrom (room - c.tail.length) rest

/-- The bytes from the tail of each child on, when so many are left from the block on. -/
def tailRooms (room : Nat) (children : List Child) : List Nat :=
  roomsFrom (room - headLengths children) children

end Child

namespace Layout

mutual

/-- Whether each array of dynamic length in the value has a word of data for each of its elements,
when so many bytes are left from the encoding of the value on. -/
def hasRoom : Layout → Nat → Value → Bool
  | array _ element length, room, v =>
    match v with
    | .array items =>
      (length != .dynamic || items.length * wordSize ≤ room) &&
        ((Child.tailRooms (room - (countBytes length items.length).length)
          (children (List.replicate items.length element) items)).zip items).all fun entry =>
            element.hasRoom entry.1 entry.2
    | _ => true
  | tuple _ components, room, v =>
    match v with
    | .tuple entries =>
      haveRoom components (Child.tailRooms room (children components (Record.values entries)))
        (Record.values entries)
    | _ => true
  | _, _, _ => true

def haveRoom : List Layout → List Nat → List Value → Bool
  | c :: components, room :: rooms, v :: values =>
    c.hasRoom room v && haveRoom components rooms values
  | _, _, _ => true

end

theorem haveRoom_replicate (element : Layout) (rooms : List Nat) (items : List Value) :
    haveRoom (List.replicate items.length element) rooms items =
      (rooms.zip items).all fun entry => element.hasRoom entry.1 entry.2 := by
  induction items generalizing rooms with
  | nil => simp [haveRoom]
  | cons v items ih =>
    cases rooms with
    | nil => simp [List.replicate_succ, haveRoom]
    | cons room rooms => simp [List.replicate_succ, haveRoom, ih]

theorem hasRoom_array (name : Option String) (element : Layout) (length : ArrayLength) (room : Nat)
    (items : List Value) : (array name element length).hasRoom room (.array items) =
      ((length != .dynamic || items.length * wordSize ≤ room) &&
        haveRoom (List.replicate items.length element)
          (Child.tailRooms (room - (countBytes length items.length).length)
            (children (List.replicate items.length element) items)) items) := by
  rw [hasRoom, haveRoom_replicate]

theorem haveRoom_of_each {components : List Layout}
    (each : ∀ c ∈ components, ∀ room v, c.hasRoom room v = true) (rooms : List Nat)
    (values : List Value) : haveRoom components rooms values = true := by
  induction components generalizing rooms values with
  | nil => rfl
  | cons c components ih =>
    rcases List.forall_mem_cons.1 each with ⟨own, others⟩
    cases rooms with
    | nil => rfl
    | cons room rooms =>
      cases values with
      | nil => rfl
      | cons v values => rw [haveRoom, own, ih others, Bool.and_self]

/-- There is no array of dynamic length in a static layout. -/
theorem hasRoom_of_static {l : Layout} (static : l.isDynamic = false) (room : Nat) (v : Value) :
    l.hasRoom room v = true := by
  induction l generalizing room v with
  | array name element length ih =>
    rw [isDynamic, Bool.or_eq_false_iff] at static
    cases v with
    | array items =>
      rw [hasRoom_array, haveRoom_of_each (List.forall_mem_replicate.2 (Or.inr (ih static.2)))]
      simp [bne, static.1]
    | _ => rfl
  | tuple name components ih =>
    rw [isDynamic, anyDynamic_eq_false_iff] at static
    cases v with
    | tuple entries =>
      rw [hasRoom]
      apply haveRoom_of_each
      exact fun c member => ih c member (static c member)
    | _ => rfl
  | _ => rfl

theorem isSized_of_static {l : Layout} (static : l.isDynamic = false) : l.isSized = true := by
  induction l with
  | array name element length ih =>
    rw [isDynamic, Bool.or_eq_false_iff] at static
    rw [isSized, ih static.2, bne, static.1]
    rfl
  | tuple name components ih =>
    rw [isDynamic, anyDynamic_eq_false_iff] at static
    rw [isSized]
    induction components with
    | nil => rfl
    | cons c components rest =>
      rcases List.forall_mem_cons.1 static with ⟨own, others⟩
      rcases List.forall_mem_cons.1 ih with ⟨first, following⟩
      rw [allSized, first own, rest following others, Bool.and_self]
  | _ => rfl

end Layout

namespace Reading

variable {α β : Type}

/-- The run gives `x` and ends at `after` when there is room, and gives `x` only then. -/
structure GivesIf (room : Bool) (run : Except AbiError α × Reader) (x : α) (after : Reader) :
    Prop where
  gives : room = true → run = (.ok x, after)
  room_of_ok : run.1 = .ok x → room = true

theorem GivesIf.of_eq {run : Except AbiError α × Reader} {x : α} {after : Reader}
    (h : run = (.ok x, after)) : GivesIf true run x after :=
  ⟨fun _ => h, fun _ => rfl⟩

/-- One action after the other, when only `x` leads to `y`. -/
theorem GivesIf.bind {a b : Bool} {action : Reading α} {next : α → Reading β} {x : α} {y : β}
    {r mid after : Reader} (before : GivesIf a (action.runFrom r) x mid)
    (behind : GivesIf b ((next x).runFrom mid) y after)
    (only : ∀ x' mid', action.runFrom r = (.ok x', mid') → ((next x').runFrom mid').1 = .ok y →
      x' = x) : GivesIf (a && b) ((action >>= next).runFrom r) y after where
  gives := by
    intro room
    rw [Bool.and_eq_true] at room
    rw [runFrom_bind_of_ok (before.gives room.1), behind.gives room.2]
  room_of_ok := by
    intro given
    obtain ⟨x', mid', first, second⟩ := exists_of_runFrom_bind (Prod.ext given rfl)
    cases only x' mid' first (by rw [second])
    have own := before.room_of_ok (by rw [first])
    rw [before.gives own] at first
    cases first
    rw [own, behind.room_of_ok (by rw [second]), Bool.and_self]

theorem GivesIf.elsewhere {room : Bool} {action : Reading α} {x : α} {place r after : Reader}
    (given : GivesIf room (action.runFrom { place with budget := r.budget }) x after) :
    GivesIf room ((elsewhere place action).runFrom r) x { r with budget := after.budget } where
  gives := by
    intro enough
    rw [runFrom_elsewhere, given.gives enough]
  room_of_ok := given.room_of_ok

theorem GivesIf.coerce {room : Bool} {action : Reading α} {post : α → Prop} {f : α → Value} {x : α}
    {r after : Reader} (given : GivesIf room (action.runFrom r) x after)
    (keeps : Yields post action) (hookless : r.hook = none) (after_hook : after.hook = none)
    (injective : ∀ x', f x' = f x → x' = x) (name : String) :
    GivesIf room ((action >>= fun x => coerce name (f x)).runFrom r) (f x) after := by
  rw [← Bool.and_true room]
  apply given.bind (GivesIf.of_eq (by rw [runFrom_coerce, Reader.coerce, after_hook]))
  intro x' mid' run kept
  rw [runFrom_coerce, Reader.coerce, (keeps hookless run).2] at kept
  exact injective x' (Except.ok.inj kept)

end Reading

open Reading

namespace Layout

/-- A reader that starts at the encoding of the form gives it back exactly when there is room. -/
def Settles (l : Layout) (form : Value) : Prop :=
  ∀ r : Reader, r.Holds (l.wire form) (l.wire form).length → r.offset = 0 →
    ∃ moved, GivesIf (l.hasRoom r.data.length form) (l.decode.runFrom r) form
      (r.past moved (l.wire form).length)

/-- Each component settles its canonical forms. -/
def SettleForms (components : List Layout) : Prop :=
  ∀ c ∈ components, ∀ v form, c.canonical? v = some form → c.Settles form

theorem settles_of_readsBack {l : Layout} {form : Value} (back : l.ReadsBack form)
    (room : ∀ room, l.hasRoom room form = true) : l.Settles form := by
  intro r held _
  obtain ⟨moved, reads, _⟩ := back.reads
  refine ⟨moved, ?_⟩
  rw [room]
  exact GivesIf.of_eq (reads r held)

variable {base r : Reader}

theorem givesIf_readIn {c : Layout} {v form : Value} (canonical : c.canonical? v = some form)
    (settles : c.Settles form) (hookless : base.hook = none) (inBounds : base.InBounds)
    {k : Child} (own : k = ⟨c.isDynamic, c.wire form⟩) {before after : List Child}
    (starts : Child.layOut (before ++ k :: after) <+: base.rest)
    (h : r.Holds (k.head (Child.tailOffset (before ++ k :: after) before))
      (k.headLength + k.tail.length)) :
    GivesIf (c.hasRoom (base.rest.length - Child.tailOffset (before ++ k :: after) before) form)
      ((c.part.readIn base).runFrom r) form
      (r.past k.headLength (k.headLength + k.tail.length)) := by
  cases dynamic : c.isDynamic with
  | false =>
    have back : c.part.ReadsBack k form := by
      rw [own]
      exact readsBack_of_canonical (isSized_of_static dynamic) canonical
    rw [hasRoom_of_static dynamic]
    exact GivesIf.of_eq (Part.runFrom_readIn back hookless inBounds starts h)
  | true =>
    have data_eq : k.data = c.wire form := by rw [own]
    have pointed : k.isDynamic = true := by rw [own, dynamic]
    obtain ⟨tail, inside⟩ := Child.tail_of_starts starts
    rw [Child.head_of_dynamic pointed] at h
    rw [Child.tail_of_dynamic pointed, data_eq] at h tail ⊢
    rw [Child.headLength_of_dynamic pointed] at h ⊢
    have there := Part.holds_tail hookless inBounds tail h
    obtain ⟨moved, given⟩ := settles _ there rfl
    have left : (base.viewAt
        (base.offset + Child.tailOffset (before ++ k :: after) before)).data.length = base.rest.length - Child.tailOffset (before ++ k :: after) before := by
      rw [Reader.viewAt, List.length_drop, Reader.length_rest, Nat.sub_add_eq]
    rw [Part.runFrom_readIn_pointer dynamic inBounds inside
      (h.mono List.prefix_rfl (Nat.le_add_right wordSize _)), ← left]
    have spent : r.past wordSize (wordSize + (c.wire form).length) =
        { r.past wordSize wordSize with
          budget := (r.past wordSize wordSize).budget.spend (c.wire form).length } := by
      simp [Reader.past, Budget.spend_spend]
    rw [spent]
    exact given.elsewhere

/-- The children behind those before are read from their heads, when each has room at its tail. -/
theorem givesIf_readAllIn {components : List Layout} {values forms : List Value}
    (each : SettleForms components) (h : CanonicalForms components values forms)
    (hookless : base.hook = none) (inBounds : base.InBounds) {before : List Child}
    (starts : Child.layOut (before ++ children components forms) <+: base.rest)
    (held : r.Holds
      (Child.heads (Child.tailOffset (before ++ children components forms) before)
        (children components forms))
      (Child.headLengths (children components forms) +
        (Child.tails (children components forms)).length)) :
    GivesIf (haveRoom components
        (Child.roomsFrom (base.rest.length -
          Child.tailOffset (before ++ children components forms) before)
          (children components forms)) forms)
      ((Part.readAllIn base (components.map part)).runFrom r) forms
      (r.past (Child.headLengths (children components forms))
        (Child.headLengths (children components forms) +
          (Child.tails (children components forms)).length)) := by
  induction h generalizing before r with
  | nil =>
    have same := held.past_zero
    simp only [children, Child.headLengths, Child.tails, List.map_nil, List.sum_nil,
      List.flatMap_nil, List.length_nil, Nat.add_zero, same]
    exact GivesIf.of_eq rfl
  | @cons c components v form values forms first _ ih =>
    rcases List.forall_mem_cons.1 each with ⟨own, others⟩
    rw [children] at starts held ⊢
    generalize same : Child.mk c.isDynamic (c.wire form) = k at starts held ⊢
    have spent : Child.headLengths (k :: children components forms) +
        (Child.tails (k :: children components forms)).length =
        (k.headLength + k.tail.length) + (Child.headLengths (children components forms) +
          (Child.tails (children components forms)).length) := by
      rw [Child.headLengths_cons, Child.tails_cons, List.length_append]
      omega
    rw [spent, Child.heads] at held
    have one :=
      givesIf_readIn first (own v form first) hookless inBounds same.symm starts held.first
    have behind := held.next
    rw [Child.length_head, Child.tailOffset_next] at behind
    rw [List.append_cons] at starts
    have rest := ih others starts behind
    rw [← Child.tailOffset_next, Nat.sub_add_eq] at rest
    rw [spent, Child.headLengths_cons, ← Reader.past_past, Child.roomsFrom, haveRoom, List.map_cons,
      Part.readAllIn]
    apply one.bind
    · rw [← Bool.and_true (haveRoom _ _ _)]
      apply rest.bind (GivesIf.of_eq rfl)
      intro vs mid _ kept
      cases kept
      rfl
    · intro v' mid' _ kept
      obtain ⟨vs, last, _, made⟩ := exists_of_runFrom_bind (Prod.ext kept rfl)
      cases made
      rfl

theorem givesIf_readBlock {components : List Layout} {values forms : List Value}
    (each : SettleForms components) (h : CanonicalForms components values forms) {r : Reader}
    (held : r.Holds (Child.layOut (children components forms))
      (Child.layOut (children components forms)).length) :
    GivesIf (haveRoom components (Child.tailRooms r.rest.length (children components forms)) forms)
      ((readBlock (components.map part)).runFrom r) forms
      (r.past (Child.headLengths (children components forms))
        (Child.layOut (children components forms)).length) := by
  have start : (inspect fun r => r.sub 0).runFrom r = (.ok (r.viewAt r.offset), r) := by
    rw [runFrom_inspect, Reader.sub_eq held.inBounds, Nat.add_zero, if_pos held.inBounds.offset_le]
  have starts : Child.layOut ([] ++ children components forms) <+: (r.viewAt r.offset).rest :=
    held.starts
  have heads := held.mono (List.prefix_append _ _) (Nat.le_refl _)
  rw [Child.length_layOut] at heads ⊢
  rw [readBlock, runFrom_bind_of_ok start]
  have hookless : (r.viewAt r.offset).hook = none := held.hook_eq
  exact givesIf_readAllIn each h hookless (held.inBounds.viewAt _) starts heads

/-- The count of an array of dynamic length is taken only when there is a word for each element. -/
theorem givesIf_dynamicCount (l : Layout) {count : Nat} {block : Bytes} {r : Reader} {spent : Nat}
    (held : r.Holds (Word.toBytes (BitVec.ofNat 256 count) ++ block) (wordSize + spent)) :
    GivesIf (count * wordSize ≤ r.data.length) (l.dynamicCount.runFrom r) count
      (r.past wordSize wordSize) where
  gives room := runFrom_dynamicCount (of_decide_eq_true room) held
  room_of_ok given := by
    obtain ⟨_, words⟩ := dynamicCount_eq_ok_iff.1 (Prod.ext given rfl)
    have clamped := lt_maxCount held.inBounds.length_lt
    rw [saturatingMul] at words
    exact decide_eq_true (by omega)

theorem givesIf_readCount {l element : Layout} {length : ArrayLength} {count : Nat} {block : Bytes}
    {spent : Nat} (admitted : length.admits count = true)
    (room : count * element.headSize ≤ block.length) {r : Reader}
    (held : r.Holds (countBytes length count ++ block) ((countBytes length count).length + spent)) :
    GivesIf (length != .dynamic || count * wordSize ≤ r.data.length)
      ((l.readCount element length).runFrom r) count
      (r.past (countBytes length count).length (countBytes length count).length) := by
  cases length with
  | fixed n =>
    cases beq_iff_eq.1 admitted
    rw [countBytes, List.length_nil, held.past_zero]
    exact GivesIf.of_eq (runFrom_fixedCount room held)
  | dynamic =>
    rw [countBytes, Word.length_toBytes] at held ⊢
    exact givesIf_dynamicCount l held

theorem yields_length_readBlock (components : List Layout) :
    Yields (fun values => values.length = components.length)
      (readBlock (components.map part)) := by
  intro r values after hookless run
  obtain ⟨given, still⟩ := yields_readBlock (fun c _ => yields_decode c) hookless run
  exact ⟨given.length_eq.symm, still⟩

theorem settles_array {name : Option String} {element : Layout} {length : ArrayLength}
    {items forms : List Value} (admitted : length.admits items.length = true)
    (each : ∀ v form, element.canonical? v = some form → element.Settles form)
    (h : CanonicalForms (List.replicate items.length element) items forms) :
    (array name element length).Settles (.array forms) := by
  intro r held start
  have same := h.length_of_replicate
  have room := mul_headSize_le h
  rw [wire_array, same, List.length_append] at held ⊢
  have counted := givesIf_readCount (l := array name element length) admitted room held
  have block := givesIf_readBlock (List.forall_mem_replicate.2 (Or.inr each)) h held.next
  have left : (r.past (countBytes length items.length).length
      (countBytes length items.length).length).rest.length =
      r.data.length - (countBytes length items.length).length := by
    rw [Reader.rest_past, List.length_drop, Reader.length_rest, start, Nat.sub_zero]
  rw [left, Reader.past_past] at block
  refine ⟨(countBytes length items.length).length +
    Child.headLengths (children (List.replicate items.length element) forms), ?_⟩
  rw [hasRoom_array, same, decode_array]
  apply counted.bind
  · have elements := block.coerce (yields_length_readBlock _) held.hook_eq held.hook_eq
      (f := Value.array) (fun _ same => Value.array.inj same) "array"
    rw [List.map_replicate] at elements
    exact elements
  · intro count mid run given
    obtain ⟨vs, last, read, made⟩ := exists_of_runFrom_bind (Prod.ext given rfl)
    obtain ⟨_, still⟩ := yields_readCount _ _ _ held.hook_eq run
    rw [← List.map_replicate] at read
    obtain ⟨enough, kept⟩ := yields_length_readBlock _ still read
    rw [runFrom_coerce, Reader.coerce, kept] at made
    cases made
    rw [← same, enough, List.length_replicate]

theorem givesIf_decodeAll {components : List Layout} {values forms : List Value}
    (each : SettleForms components) (h : CanonicalForms components values forms) {r : Reader}
    (held : r.Holds (Child.layOut (children components forms))
      (Child.layOut (children components forms)).length) :
    GivesIf (haveRoom components (Child.tailRooms r.rest.length (children components forms)) forms)
      ((decodeAll components).runFrom r) ((components.map name).zip forms)
      (r.past (Child.headLengths (children components forms))
        (Child.layOut (children components forms)).length) := by
  rw [decodeAll, parts_eq_map, ← Bool.and_true (haveRoom _ _ _)]
  apply (givesIf_readBlock each h held).bind
  · rw [recordOf, Record.ofParts?, if_pos (by rw [List.length_map, h.length_eq.2])]
    exact GivesIf.of_eq rfl
  · intro vs mid _ given
    rw [recordOf] at given
    split at given
    · next record parts =>
      cases given
      rw [← Record.values_ofParts? parts, h.values_zip]
    · cases given

theorem settles_tuple {name : Option String} {components : List Layout} {values forms : List Value}
    (each : SettleForms components) (h : CanonicalForms components values forms) :
    (tuple name components).Settles (.tuple ((components.map Layout.name).zip forms)) := by
  intro r held start
  rw [wire_tuple h] at held ⊢
  have given := (givesIf_decodeAll each h held).coerce
    (yields_decodeAll fun c _ => yields_decode c) held.hook_eq held.hook_eq (f := Value.tuple)
    (fun _ same => Value.tuple.inj same) "tuple"
  have whole : r.rest.length = r.data.length := by rw [Reader.length_rest, start, Nat.sub_zero]
  refine ⟨Child.headLengths (children components forms), ?_⟩
  rw [hasRoom, h.values_zip, ← whole, decode_tuple]
  exact given

theorem settles_of_canonical {l : Layout} {v form : Value} (h : l.canonical? v = some form) :
    l.Settles form := by
  induction l generalizing v form with
  | array name element length ih =>
    obtain ⟨items, forms, rfl, admitted, mapped, rfl⟩ := canonical?_array_eq_some_iff.1 h
    exact settles_array admitted (fun _ _ => ih) mapped
  | tuple name components ih =>
    obtain ⟨values, forms, _, mapped, rfl⟩ := canonical?_tuple_eq_some_iff.1 h
    exact settles_tuple (fun c member _ _ => ih c member) mapped
  | _ => exact settles_of_readsBack (readsBack_of_canonical rfl h) fun _ => rfl

end Layout

/-- What was encoded decodes to the canonical form of the values, with every element of every array,
exactly when each array of dynamic length has a word of data for each of its elements, counted from
its own count to the end of the data. It always has them when its elements take some bytes. -/
theorem decode_encode_iff_room {settings : Settings} {types : List TypeSource}
    {layouts : List Layout} (accepted : layoutsOf settings types = .ok layouts)
    {values : List Value} {data : Bytes} (encoded : encode settings types values = .ok data)
    (small : data.length < 2 ^ 63) (isLoose : Bool) :
    ∃ record, Layout.canonicalRecord? layouts values = some record ∧
      (Layout.ConformAll layouts values → Value.sameItems values record.values) ∧
      (decode settings none types data isLoose = .ok record ↔
        Layout.haveRoom layouts
          (Child.tailRooms data.length (Layout.children layouts record.values))
          record.values = true) ∧
      (Layout.allSized layouts = true → decode settings none types data isLoose = .ok record) := by
  obtain ⟨forms, canonical, rfl⟩ := forms_of_encode accepted encoded
  have given := Layout.givesIf_decodeAll (fun _ _ _ _ => Layout.settles_of_canonical) canonical
    (start_holds small isLoose settings.maxInflation)
  refine ⟨(layouts.map Layout.name).zip forms, ?_, ?_, ?_, ?_⟩
  · rw [Layout.canonicalRecord?, Layout.canonicalAll?_eq_some_iff.2 canonical, Option.map_some]
  · rw [canonical.values_zip]
    exact Layout.sameItems_of_forms (fun _ _ _ _ => Layout.same_of_conforms) canonical
  · rw [decode_eq_decodeFrom accepted, canonical.values_zip]
    constructor
    · exact given.room_of_ok
    · intro room
      exact congrArg Prod.fst (given.gives room)
  · intro sized
    obtain ⟨_, read, _⟩ := decodeFrom_of_forms sized canonical settings small isLoose
    rw [decode_eq_decodeFrom accepted, read]

set_option maxRecDepth 8000 in
/-- Two empty tuples come back when a byte string stands behind them. -/
theorem decode_encode_iff_room_emptyTuples :
    ∃ data, encode {} [.tree (.array {} (.tuple {} []) .dynamic), .tree (.elementary {} "bytes")]
        [.array [.tuple [], .tuple []], .bytes [7]] = .ok data ∧
      decode {} none [.tree (.array {} (.tuple {} []) .dynamic), .tree (.elementary {} "bytes")]
        data false = .ok [(none, .array [.tuple [], .tuple []]), (none, .bytes [7])] := by
  have encoded : encode {} [.tree (.array {} (.tuple {} []) .dynamic),
      .tree (.elementary {} "bytes")] [.array [.tuple [], .tuple []], .bytes [7]] =
      .ok ([64#256, 96#256, 2#256, 1#256].flatMap Word.toBytes ++ (7 :: List.replicate 31 0)) := rfl
  have accepted : layoutsOf {} [.tree (.array {} (.tuple {} []) .dynamic),
      .tree (.elementary {} "bytes")] =
      .ok [.array none (.tuple none []) .dynamic, .bytes none] := rfl
  obtain ⟨record, canonical, _, back, _⟩ :=
    decode_encode_iff_room accepted encoded (by decide) false
  have same : some record =
      some [(none, .array [.tuple [], .tuple []]), (none, .bytes [7])] := by
    rw [← canonical]
    rfl
  cases same
  exact ⟨_, encoded, back.2 rfl⟩

set_option maxRecDepth 8000 in
/-- At the end of the data they do not, although they were encoded. -/
theorem emptyTuples_lost :
    ∃ data, encode {} [.tree (.array {} (.tuple {} []) .dynamic)]
        [.array [.tuple [], .tuple []]] = .ok data ∧
      decode {} none [.tree (.array {} (.tuple {} []) .dynamic)] data false =
        .error (.malformedData "()[]" .insufficientLength 32 0) :=
  ⟨[32#256, 2#256].flatMap Word.toBytes, rfl, rfl⟩

end AbiCodec
