import AbiCodec.Proofs.FinalPayload
import AbiCodec.Proofs.ReadOutcomes

/-!
# How far decoding reads

A reader faces the encoding of a value when what it has left is the start of it,
or goes on after it. What is decoded there has been read from the whole
encoding, up to the padding of the last payload when the reader is loose. No
hook and no budget changes that.
-/

namespace AbiCodec

namespace Child

theorem length_data_le (before after : List Child) (c : Child) :
    c.data.length ≤ (layOut (before ++ c :: after)).length := by
  rw [length_layOut]
  cases dynamic : c.isDynamic with
  | false =>
    have own := headLength_of_static dynamic
    simp only [headLengths, List.map_append, List.map_cons, List.sum_append, List.sum_cons]
    omega
  | true =>
    have own := tail_of_dynamic dynamic
    rw [tails_append, tails_cons, own, List.length_append, List.length_append]
    omega

/-- The tail of the last dynamic child ends the block. -/
theorem length_layOut_of_last {before after : List Child} {c : Child} (last : tails after = []) :
    (layOut (before ++ c :: after)).length =
      tailOffset (before ++ c :: after) before + c.tail.length := by
  rw [length_layOut, tails_append, tails_cons, last, List.append_nil, List.length_append,
    tailOffset, Nat.add_assoc]

end Child

namespace Reader

/-- What the reader has left agrees with the bytes, as far as both go. -/
def Faces (r : Reader) (data : Bytes) : Prop := ∃ more, r.rest <+: data ++ more

variable {r : Reader} {a b data : Bytes}

theorem Faces.first (h : r.Faces (a ++ b)) : r.Faces a := by
  obtain ⟨more, agrees⟩ := h
  exact ⟨b ++ more, by rwa [← List.append_assoc]⟩

/-- A reader further on faces the bytes from there. -/
theorem Faces.drop (h : r.Faces data) {count : Nat} (inside : count ≤ data.length) {s : Reader}
    (left : s.rest = r.rest.drop count) : s.Faces (data.drop count) := by
  obtain ⟨more, agrees⟩ := h
  refine ⟨more, ?_⟩
  rw [left, List.prefix_iff_eq_take.1 agrees, List.drop_take,
    List.drop_append_of_le_length inside]
  exact List.take_prefix _ _

theorem Faces.next (h : r.Faces (a ++ b)) {s : Reader} (left : s.rest = r.rest.drop a.length) :
    s.Faces b := by
  have beyond := h.drop (List.prefix_append a b).length_le left
  rwa [List.drop_left] at beyond

/-- Where a tail of the block stands, a reader faces it. -/
theorem Faces.tail {before after : List Child} {c : Child}
    (h : r.Faces (Child.layOut (before ++ c :: after))) {place : Reader}
    (left : place.rest = r.rest.drop (Child.tailOffset (before ++ c :: after) before)) :
    place.Faces c.tail := by
  have beyond := h.drop (Child.tailOffset_le before (c :: after)) left
  rw [Child.drop_tailOffset] at beyond
  exact beyond.first

theorem Faces.starts (h : r.Faces data) (enough : data.length ≤ r.rest.length) :
    data <+: r.rest := by
  obtain ⟨more, agrees⟩ := h
  exact List.prefix_of_prefix_length_le (List.prefix_append data more) agrees enough

/-- The reader after a step forward, whatever has been spent. -/
def Advances (r after : Reader) (count : Nat) : Prop :=
  ∃ budget, after = { r with offset := r.offset + count, budget }

theorem Advances.rest_eq {after : Reader} {count : Nat} (h : r.Advances after count) :
    after.rest = r.rest.drop count := by
  obtain ⟨budget, rfl⟩ := h
  rw [rest, rest, List.drop_drop]

theorem Advances.isLoose_eq {after : Reader} {count : Nat} (h : r.Advances after count) :
    after.isLoose = r.isLoose := by
  obtain ⟨budget, rfl⟩ := h
  rfl

theorem Advances.trans {mid after : Reader} {m n : Nat} (first : r.Advances mid m)
    (second : mid.Advances after n) : r.Advances after (m + n) := by
  obtain ⟨budget, rfl⟩ := first
  obtain ⟨budget', rfl⟩ := second
  exact ⟨budget', by rw [Nat.add_assoc]⟩

theorem advances_zero (r : Reader) : r.Advances r 0 := ⟨r.budget, rfl⟩

end Reader

namespace Reading

variable {α β : Type} {a b data : Bytes}

/-- Where a reader faces the bytes, the action reads all of them and the cursor ends behind them. -/
def Consumes (data : Bytes) (post : α → Prop) (action : Reading α) : Prop :=
  ∀ ⦃r x after⦄, r.Faces data → action.runFrom r = (.ok x, after) →
    post x ∧ data.length ≤ r.rest.length ∧ r.Advances after data.length

/-- Where a reader faces the bytes, the action reads all of them but those that may be missing. -/
def Reaches (data : Bytes) (missing : Bool → Nat) (action : Reading α) : Prop :=
  ∀ ⦃r x after⦄, r.Faces data → action.runFrom r = (.ok x, after) →
    data.length ≤ r.rest.length + missing r.isLoose

theorem Consumes.reaches {post : α → Prop} {action : Reading α}
    (consumes : Consumes data post action) (missing : Bool → Nat) : Reaches data missing action :=
  fun _ _ _ faces run => Nat.le_trans (consumes faces run).2.1 (Nat.le_add_right _ _)

theorem Consumes.mono {first post : α → Prop} {action : Reading α}
    (consumes : Consumes data first action) (weaken : ∀ x, first x → post x) :
    Consumes data post action := by
  intro r x after faces run
  obtain ⟨given, others⟩ := consumes faces run
  exact ⟨weaken x given, others⟩

theorem Consumes.inspect {post : α → Prop} {f : Reader → Except AbiError α}
    (gives : ∀ r x, f r = .ok x → post x) : Consumes [] post (inspect f) := by
  intro r x after _ run
  obtain ⟨given, rfl⟩ := Prod.mk.inj run
  exact ⟨gives r x given, Nat.zero_le _, r.advances_zero⟩

theorem Consumes.pure {post : α → Prop} {x : α} (h : post x) : Consumes [] post (pure x) :=
  Consumes.inspect (f := fun _ => .ok x) fun _ _ given => by cases given; exact h

theorem Consumes.bind {first : α → Prop} {post : β → Prop} {action : Reading α}
    {next : α → Reading β} (consumes : Consumes a first action)
    (resume : ∀ x, first x → Consumes b post (next x)) :
    Consumes (a ++ b) post (action >>= next) := by
  intro r y after faces run
  obtain ⟨x, mid, before, run⟩ := exists_of_runFrom_bind run
  obtain ⟨given, enough, moved⟩ := consumes faces.first before
  obtain ⟨givenToo, enoughToo, movedToo⟩ := resume x given (faces.next moved.rest_eq) run
  rw [moved.rest_eq, List.length_drop] at enoughToo
  rw [List.length_append]
  exact ⟨givenToo, by omega, moved.trans movedToo⟩

/-- A next step that reads no more in place. -/
theorem Consumes.andThen {first : α → Prop} {post : β → Prop} {action : Reading α}
    {next : α → Reading β} (consumes : Consumes data first action)
    (resume : ∀ x, first x → Consumes [] post (next x)) :
    Consumes data post (action >>= next) := by
  have both := consumes.bind resume
  rwa [List.append_nil] at both

theorem Consumes.checked {first : α → Prop} {post : β → Prop} {action : Reading α}
    {check : Reader → α → Except AbiError β} (consumes : Consumes data first action)
    (passes : ∀ r x y, first x → check r x = .ok y → post y) :
    Consumes data post (checked action check) := by
  intro r y after faces run
  obtain ⟨x, before, passed⟩ := exists_of_runFrom_checked run
  obtain ⟨given, others⟩ := consumes faces before
  exact ⟨passes r x y given passed, others⟩

theorem Consumes.coerce {post : α → Prop} {f : α → Value} {action : Reading α}
    (consumes : Consumes data post action) (name : String) :
    Consumes data (fun _ => True) (action >>= fun x => coerce name (f x)) :=
  consumes.andThen fun _ _ => Consumes.inspect fun _ _ _ => trivial

theorem Consumes.thenReaches {first : α → Prop} {missing : Bool → Nat} {action : Reading α}
    {next : α → Reading β} (consumes : Consumes a first action)
    (resume : ∀ x, first x → Reaches b missing (next x)) :
    Reaches (a ++ b) missing (action >>= next) := by
  intro r y after faces run
  obtain ⟨x, mid, before, run⟩ := exists_of_runFrom_bind run
  obtain ⟨given, enough, moved⟩ := consumes faces.first before
  have enoughToo := resume x given (faces.next moved.rest_eq) run
  rw [moved.rest_eq, moved.isLoose_eq, List.length_drop] at enoughToo
  rw [List.length_append]
  omega

theorem Reaches.bind {missing : Bool → Nat} {action : Reading α}
    (reaches : Reaches data missing action) (next : α → Reading β) :
    Reaches data missing (action >>= next) := by
  intro r y after faces run
  obtain ⟨x, mid, before, _⟩ := exists_of_runFrom_bind run
  exact reaches faces before

theorem Reaches.checked {missing : Bool → Nat} {action : Reading α}
    (reaches : Reaches data missing action) (check : Reader → α → Except AbiError β) :
    Reaches data missing (checked action check) := by
  intro r y after faces run
  obtain ⟨x, before, _⟩ := exists_of_runFrom_checked run
  exact reaches faces before

/-- Reading elsewhere leaves the cursor where it is. -/
theorem Reaches.elsewhere {missing : Bool → Nat} {action : Reading α} {place : Reader}
    (reaches : Reaches data missing action) (faces : place.Faces data) :
    Consumes [] (fun _ => data.length ≤ place.rest.length + missing place.isLoose)
      (elsewhere place action) := by
  intro r x after _ run
  rw [runFrom_elsewhere] at run
  obtain ⟨given, rfl⟩ := Prod.mk.inj run
  have placed : ({ place with budget := r.budget } : Reader).Faces data := faces
  have reached := reaches placed (Prod.ext given rfl)
  exact ⟨reached, Nat.zero_le _, _, rfl⟩

/-- The padding that may be missing from loose data behind a payload. -/
def slack (payload? : Option Bytes) (isLoose : Bool) : Nat :=
  match payload? with
  | some data => if isLoose then (Bytes.padding data.length).length else 0
  | none => 0

theorem slack_false (payload? : Option Bytes) : slack payload? false = 0 := by
  cases payload? <;> rfl

theorem consumes_bytes {length : Nat} (aligned : data.length = Bytes.alignedLength length) :
    Consumes data (fun _ => True) (bytes length false) := by
  intro r x after _ run
  obtain ⟨taken, takes, _, _, rfl⟩ := exists_of_runFrom_bytes run
  cases takes.eq_aligned.trans aligned.symm
  exact ⟨trivial, takes.length_le_rest, _, rfl⟩

/-- A relaxed read can do without the padding where the data is loose. -/
theorem reaches_bytes (data : Bytes) :
    Reaches (Bytes.padded data) (slack (some data)) (bytes data.length true) := by
  intro r x after _ run
  obtain ⟨taken, takes, _⟩ := exists_of_runFrom_bytes run
  have inside := takes.length_le_rest
  rcases takes.whole with whole | ⟨exact, _, loose, _⟩
  · rw [Bytes.length_padded]
    omega
  · rw [slack, loose, if_pos rfl, Bytes.padded, List.length_append]
    omega

theorem consumes_word (w : Word) : Consumes w.toBytes (· = w) word := by
  intro r x after faces run
  obtain ⟨inside, rfl, rfl⟩ := of_runFrom_word run
  have enough : w.toBytes.length ≤ r.rest.length := by
    rw [Word.length_toBytes, Reader.length_rest]
    omega
  obtain ⟨behind, whole⟩ := faces.starts enough
  refine ⟨?_, enough, r.budget.spend wordSize, ?_⟩
  · rw [← whole, Word.first_append]
  · rw [Word.length_toBytes, Reader.consume]

theorem consumes_count (w : Word) (typeName : String) :
    Consumes w.toBytes (· = w.toNat) (count typeName) := by
  rw [count_eq_checked]
  apply (consumes_word w).checked
  rintro r _ n rfl passed
  split at passed
  · cases passed
    rfl
  · cases passed

end Reading

open Reading

namespace Layout

/-- What is decoded where a reader faces the encoding of a form has been read from all of it: in
place when the layout is static, and otherwise up to what may be missing at the end. -/
structure Demands (l : Layout) (form : Value) : Prop where
  consumes : l.isDynamic = false → Consumes (l.wire form) (fun _ => True) l.decode
  reaches : l.isDynamic = true → Reaches (l.wire form) (slack (l.finalPayload? form)) l.decode

/-- The components demand the encodings of their forms, while these can be counted. -/
def DemandForms (components : List Layout) : Prop :=
  ∀ c ∈ components, ∀ v form, c.canonical? v = some form → (c.wire form).length < 2 ^ 63 →
    c.Demands form

variable {components : List Layout} {values forms : List Value}

/-- A child of a block, whose tail stands at this offset from the start of the block. -/
theorem consumes_readIn {c : Layout} {form : Value} (demands : c.Demands form) {base : Reader}
    {offset : Nat} (counted : offset < countLimit)
    (faces : ∀ place : Reader, place.rest = base.rest.drop offset →
      place.Faces (Child.tail ⟨c.isDynamic, c.wire form⟩)) :
    Consumes (Child.head offset ⟨c.isDynamic, c.wire form⟩)
      (fun _ => c.isDynamic = true → offset + (c.wire form).length ≤
        base.rest.length + slack (c.finalPayload? form) base.isLoose) (c.part.readIn base) := by
  unfold Part.readIn
  cases dynamic : c.isDynamic with
  | false =>
    rw [Child.head_of_static rfl, part, dynamic, if_neg Bool.false_ne_true]
    exact (demands.consumes dynamic).mono fun _ _ impossible => by cases impossible
  | true =>
    rw [dynamic, Child.tail_of_dynamic rfl] at faces
    rw [Child.head_of_dynamic rfl, part, dynamic, if_pos rfl]
    apply (consumes_count _ _).andThen
    rintro _ rfl
    rw [Word.toNat_ofNat_of_lt counted]
    have there : Consumes [] (fun place => place.rest = base.rest.drop offset ∧
        place.isLoose = base.isLoose ∧ offset ≤ base.rest.length)
        (Reading.ofExcept (base.sub offset)) := by
      apply Consumes.inspect (f := fun _ => base.sub offset)
      intro _ place made
      obtain ⟨inside, rfl⟩ := Reader.of_sub_eq_ok made
      refine ⟨?_, rfl, ?_⟩
      · simp only [Reader.rest, Reader.viewAt, List.drop_drop, Nat.add_zero]
      · rw [Reader.length_rest]
        omega
    apply there.andThen
    rintro place ⟨left, loose, inside⟩
    apply ((demands.reaches dynamic).elsewhere (faces place left)).mono
    intro _ reached _
    rw [left, loose, List.length_drop] at reached
    omega

/-- The children are read from all of their heads, and the last dynamic one up to the end of the
block. -/
theorem consumes_readAllIn (each : DemandForms components)
    (h : CanonicalForms components values forms) {before : List Child} {base : Reader}
    (small : (Child.layOut (before ++ children components forms)).length < 2 ^ 63)
    (faces : base.Faces (Child.layOut (before ++ children components forms))) :
    Consumes (Child.heads (Child.tailOffset (before ++ children components forms) before)
        (children components forms))
      (fun _ => anyDynamic components = true →
        (Child.layOut (before ++ children components forms)).length ≤
          base.rest.length + slack (finalPayloadOf? components forms) base.isLoose)
      (Part.readAllIn base (components.map part)) := by
  induction h generalizing before with
  | nil => exact Consumes.pure fun impossible => by cases impossible
  | @cons c components v form values forms first _ ih =>
    rcases List.forall_mem_cons.1 each with ⟨own, others⟩
    rw [children] at small faces ⊢
    have offset_le := Child.tailOffset_le before (⟨c.isDynamic, c.wire form⟩ ::
      children components forms)
    have short := Child.length_data_le before (children components forms) ⟨c.isDynamic, c.wire form⟩
    have demands := own v form first (Nat.lt_of_le_of_lt short small)
    have one := consumes_readIn demands (lt_countLimit (Nat.lt_of_le_of_lt offset_le small))
      fun _ left => faces.tail left
    -- Once `c` is read it is the last of those before, which moves the offset by its tail.
    rw [List.map_cons, Part.readAllIn, Child.heads, Child.tailOffset_next]
    apply one.bind
    intro _ reached
    rw [List.append_cons] at small faces
    apply (ih others small faces).andThen
    intro _ reachedToo
    rw [← List.append_cons] at reachedToo
    apply Consumes.pure
    rw [anyDynamic, finalPayloadOf?]
    cases last : anyDynamic components with
    | true =>
      intro _
      rw [if_pos rfl]
      exact reachedToo last
    | false =>
      rw [Bool.or_false, if_neg Bool.false_ne_true]
      intro dynamic
      rw [if_pos dynamic]
      rw [Child.length_layOut_of_last (tails_of_static last forms), Child.tail_of_dynamic dynamic]
      exact reached dynamic

theorem readBlock_extent (each : DemandForms components)
    (h : CanonicalForms components values forms)
    (small : (Child.layOut (children components forms)).length < 2 ^ 63) {r after : Reader}
    {given : List Value} (faces : r.Faces (Child.layOut (children components forms)))
    (run : (readBlock (components.map part)).runFrom r = (.ok given, after)) :
    (anyDynamic components = true → (Child.layOut (children components forms)).length ≤
        r.rest.length + slack (finalPayloadOf? components forms) r.isLoose) ∧
      Child.headLengths (children components forms) ≤ r.rest.length ∧
      r.Advances after (Child.headLengths (children components forms)) := by
  obtain ⟨base, mid, made, run⟩ := exists_of_runFrom_bind run
  rw [runFrom_inspect] at made
  obtain ⟨found, rfl⟩ := Prod.mk.inj made
  obtain ⟨_, rfl⟩ := Reader.of_sub_eq_ok found
  have placed : (r.viewAt (r.offset + 0)).Faces (Child.layOut ([] ++ children components forms)) :=
    faces
  have extent := consumes_readAllIn each h small placed faces.first run
  rw [Child.length_heads] at extent
  exact extent

theorem consumes_readBlock (each : DemandForms components)
    (h : CanonicalForms components values forms)
    (small : (Child.layOut (children components forms)).length < 2 ^ 63)
    (static : anyDynamic components = false) :
    Consumes (Child.layOut (children components forms)) (fun _ => True)
      (readBlock (components.map part)) := by
  intro r given after faces run
  rw [← headLengths_of_static static]
  exact ⟨trivial, (readBlock_extent each h small faces run).2⟩

theorem reaches_readBlock (each : DemandForms components)
    (h : CanonicalForms components values forms)
    (small : (Child.layOut (children components forms)).length < 2 ^ 63) :
    Reaches (Child.layOut (children components forms)) (slack (finalPayloadOf? components forms))
      (readBlock (components.map part)) := by
  cases dynamic : anyDynamic components with
  | false => exact (consumes_readBlock each h small dynamic).reaches _
  | true =>
    intro r given after faces run
    exact (readBlock_extent each h small faces run).1 dynamic

/-- Elements that take no bytes in the heads take none at all. -/
theorem layOut_eq_nil {element : Layout} (zero : element.headSize = 0) {items forms : List Value}
    (h : CanonicalForms (List.replicate items.length element) items forms) :
    Child.layOut (children (List.replicate items.length element) forms) = [] := by
  have static := anyDynamic_replicate_of_static (isDynamic_of_headSize zero) items.length
  rw [← List.length_eq_zero_iff, ← headLengths_of_static static, headLengths_eq_headWidths h,
    headWidths_replicate, headWidth_of_headSize zero, Nat.mul_zero]

theorem demands_of_consumes {l : Layout} {form : Value} (static : l.isDynamic = false)
    (consumes : Consumes (l.wire form) (fun _ => True) l.decode) : l.Demands form where
  consumes := fun _ => consumes
  reaches := fun dynamic => absurd dynamic (Bool.eq_false_iff.1 static)

theorem demands_of_reaches {l : Layout} {form : Value} (dynamic : l.isDynamic = true)
    (reaches : Reaches (l.wire form) (slack (l.finalPayload? form)) l.decode) : l.Demands form where
  consumes := fun static => absurd dynamic (Bool.eq_false_iff.1 static)
  reaches := fun _ => reaches

theorem reaches_payload (typeName : String) {data : Bytes}
    (small : (payload data).length < 2 ^ 63) :
    Reaches (payload data) (slack (some data)) (readPayload typeName) := by
  have short : data.length ≤ (payload data).length := by
    simp [payload, Bytes.padded]
    omega
  have counted : data.length < countLimit := lt_countLimit (Nat.lt_of_le_of_lt short small)
  apply (consumes_count _ typeName).thenReaches
  rintro _ rfl
  rw [Word.toNat_ofNat_of_lt counted]
  exact reaches_bytes data

theorem reaches_text {text : String} (small : (payload (utf8Bytes text)).length < 2 ^ 63) :
    Reaches (payload (utf8Bytes text)) (slack (some (utf8Bytes text))) readText := by
  rw [readText_eq_checked]
  exact (reaches_payload "string" small).checked _

theorem consumes_address (w : Word) : Consumes w.toBytes (fun _ => True) readAddress := by
  rw [readAddress_eq_checked]
  exact (consumes_word w).checked fun _ _ _ _ _ => trivial

theorem consumes_fixedCount (l element : Layout) (n : Nat) :
    Consumes [] (· = n) (l.fixedCount element n) := by
  intro r count after _ run
  obtain ⟨⟨rfl, rfl⟩, _⟩ := fixedCount_eq_ok_iff.1 run
  exact ⟨rfl, Nat.zero_le _, Reader.advances_zero _⟩

theorem consumes_dynamicCount (l : Layout) (w : Word) :
    Consumes w.toBytes (· = w.toNat) l.dynamicCount :=
  fun _ _ _ faces run => consumes_count w "array" faces (dynamicCount_eq_ok_iff.1 run).1

/-- The elements are as many as the array has, or too many to count and none takes a byte. -/
theorem reaches_elements {element : Layout} {items forms : List Value}
    (each : DemandForms (List.replicate items.length element))
    (h : CanonicalForms (List.replicate items.length element) items forms)
    (small : (Child.layOut (children (List.replicate items.length element) forms)).length <
      2 ^ 63) :
    Reaches (Child.layOut (children (List.replicate items.length element) forms))
      (slack (finalPayloadOf? (List.replicate items.length element) forms))
      (readBlock (List.replicate (BitVec.ofNat 256 items.length).toNat element.part)) := by
  by_cases counted : items.length < countLimit
  · have block := reaches_readBlock each h small
    rw [List.map_replicate] at block
    rwa [Word.toNat_ofNat_of_lt counted]
  · have zero : element.headSize = 0 := by
      have room := mul_headSize_le h
      rcases headSize_eq_zero_or_le element with zero | word
      · exact zero
      · have heads := Nat.mul_le_mul_left items.length word
        simp only [countLimit, wordSize] at counted heads
        omega
    rw [layOut_eq_nil zero h]
    exact fun _ _ _ _ _ => Nat.zero_le _

theorem demands_array {name : Option String} {element : Layout} {length : ArrayLength}
    {items forms : List Value} (admitted : length.admits items.length = true)
    (each : DemandForms (List.replicate items.length element))
    (h : CanonicalForms (List.replicate items.length element) items forms)
    (small : ((array name element length).wire (.array forms)).length < 2 ^ 63) :
    (array name element length).Demands (.array forms) := by
  have same := h.length_of_replicate
  rw [wire_array, same, List.length_append] at small
  have short := Nat.lt_of_le_of_lt (Nat.le_add_left _ _) small
  cases length with
  | dynamic =>
    apply demands_of_reaches rfl
    rw [decode_array, wire_array, finalPayload?_array, same]
    apply (consumes_dynamicCount _ _).thenReaches
    rintro _ rfl
    exact (reaches_elements each h short).bind _
  | fixed n =>
    cases beq_iff_eq.1 admitted
    have block := reaches_readBlock each h short
    cases dynamic : element.isDynamic with
    | true =>
      apply demands_of_reaches (by rw [isDynamic_fixed, dynamic])
      rw [decode_array, wire_array, finalPayload?_array, same]
      apply (consumes_fixedCount _ _ _).thenReaches
      rintro _ rfl
      rw [← List.map_replicate]
      exact block.bind _
    | false =>
      apply demands_of_consumes (by rw [isDynamic_fixed, dynamic])
      rw [decode_array, wire_array, same]
      apply (consumes_fixedCount _ _ _).bind
      rintro _ rfl
      rw [← List.map_replicate]
      exact (consumes_readBlock each h short (anyDynamic_replicate_of_static dynamic _)).coerce _

theorem reaches_decodeAll (each : DemandForms components)
    (h : CanonicalForms components values forms)
    (small : (Child.layOut (children components forms)).length < 2 ^ 63) :
    Reaches (Child.layOut (children components forms)) (slack (finalPayloadOf? components forms))
      (decodeAll components) := by
  unfold decodeAll
  rw [parts_eq_map]
  exact (reaches_readBlock each h small).bind _

theorem demands_tuple {name : Option String} (each : DemandForms components)
    (h : CanonicalForms components values forms)
    (small : (Child.layOut (children components forms)).length < 2 ^ 63) :
    (tuple name components).Demands (.tuple ((components.map Layout.name).zip forms)) := by
  cases dynamic : anyDynamic components with
  | true =>
    apply demands_of_reaches (by rw [isDynamic, dynamic])
    rw [decode_tuple, wire_tuple h, finalPayload?, h.values_zip]
    exact (reaches_decodeAll each h small).bind _
  | false =>
    apply demands_of_consumes (by rw [isDynamic, dynamic])
    rw [decode_tuple, wire_tuple h, decodeAll, parts_eq_map]
    have record (given : List Value) :
        Consumes [] (fun _ => True) (recordOf (components.map Layout.name) given) := by
      unfold recordOf
      split
      · exact Consumes.pure trivial
      · exact Consumes.inspect fun _ _ _ => trivial
    exact ((consumes_readBlock each h small dynamic).andThen fun given _ => record given).coerce _

/-- Every layout demands the encodings of canonical forms. -/
theorem demands_of_canonical {l : Layout} {v form : Value} (h : l.canonical? v = some form)
    (small : (l.wire form).length < 2 ^ 63) : l.Demands form := by
  induction l generalizing v form with
  | address name =>
    obtain ⟨a, rfl⟩ := conforms_of_canonical? h
    exact demands_of_consumes rfl ((consumes_address _).coerce _ (f := id))
  | bool name =>
    obtain ⟨b, rfl⟩ := conforms_of_canonical? h
    exact demands_of_consumes rfl ((consumes_word _).coerce _)
  | number name width isSigned =>
    obtain ⟨w, rfl⟩ := conforms_of_canonical? h
    apply demands_of_consumes rfl
    cases isSigned <;> exact (consumes_word w).coerce _
  | fixedBytes name width =>
    obtain ⟨data, rfl, fits⟩ := conforms_of_canonical? h
    apply demands_of_consumes rfl
    exact (consumes_bytes (by rw [wire, Bytes.length_padded, fits])).coerce _
  | bytes name =>
    obtain ⟨data, rfl⟩ := conforms_of_canonical? h
    exact demands_of_reaches rfl ((reaches_payload "bytes" small).bind _)
  | string name =>
    obtain ⟨text, rfl⟩ := conforms_of_canonical? h
    exact demands_of_reaches rfl ((reaches_text small).bind _)
  | null name =>
    exact demands_of_consumes rfl ((consumes_bytes rfl).coerce _ (f := fun _ => .null))
  | array name element length ih =>
    obtain ⟨items, forms, rfl, admitted, mapped, rfl⟩ := canonical?_array_eq_some_iff.1 h
    exact demands_array admitted (List.forall_mem_replicate.2 (Or.inr fun _ _ => ih)) mapped small
  | tuple name components ih =>
    obtain ⟨values, forms, _, mapped, rfl⟩ := canonical?_tuple_eq_some_iff.1 h
    rw [wire_tuple mapped] at small
    exact demands_tuple (fun c member _ _ => ih c member) mapped small

end Layout

end AbiCodec
