import AbiCodec.Codec
import AbiCodec.Proofs.LayoutTree
import AbiCodec.Proofs.ReadOutcomes
import AbiCodec.Proofs.StaticSize

/-!
# The bound on inflation

What a decoder gives is paid for: a word for every leaf, and every byte of a byte
string or a text. Readers of aliased parts of the data pay again each time, all
from one budget, so the record cannot outgrow the data by more than the ratio.
-/

namespace AbiCodec

theorem Utf8.utf8Bytes_of_decode {data : Bytes} {text : String} (h : Utf8.decode data = .ok text) :
    utf8Bytes text = data := by
  unfold Utf8.decode String.fromUTF8? at h
  split at h
  · next decoded found =>
    split at found
    · cases h
      cases found
      exact List.toList_toArray
    · cases found
  · cases h

namespace Value

mutual

/-- The bytes of the byte strings and texts in a value. -/
def payload : Value → Nat
  | bytes data => data.length
  | string text => (utf8Bytes text).length
  | array items => itemPayload items
  | tuple entries => entryPayload entries
  | struct fields => fieldPayload fields
  | _ => 0

def itemPayload : List Value → Nat
  | [] => 0
  | v :: rest => v.payload + itemPayload rest

def entryPayload : List (Option String × Value) → Nat
  | [] => 0
  | (_, v) :: rest => v.payload + entryPayload rest

def fieldPayload : List (String × Value) → Nat
  | [] => 0
  | (_, v) :: rest => v.payload + fieldPayload rest

end

/-- A word for each leaf, and the bytes of byte strings and texts. -/
def weight (v : Value) : Nat := wordSize * v.leaves + v.payload

def itemWeight (items : List Value) : Nat := wordSize * itemLeaves items + itemPayload items

theorem itemWeight_cons (v : Value) (items : List Value) :
    itemWeight (v :: items) = v.weight + itemWeight items := by
  simp only [itemWeight, weight, itemLeaves, itemPayload, wordSize]
  omega

theorem weight_array (items : List Value) :
    (array items).weight = if items = [] then wordSize else itemWeight items := by
  cases items with
  | nil => simp [weight, leaves, payload, itemPayload]
  | cons v items => simp [weight, leaves, payload, itemWeight]

end Value

namespace Record

/-- The weight of the values; the record itself is no leaf, empty or not. -/
def weight (r : Record) : Nat := wordSize * Value.entryLeaves r + Value.entryPayload r

theorem weight_eq_itemWeight (r : Record) : r.weight = Value.itemWeight r.values := by
  unfold weight Value.itemWeight
  induction r with
  | nil => rfl
  | cons entry r ih =>
    simp only [Record.values, List.map_cons, Value.entryLeaves, Value.entryPayload,
      Value.itemLeaves, Value.itemPayload, wordSize] at ih ⊢
    omega

theorem weight_ofParts? {names : List (Option String)} {values : List Value} {r : Record}
    (h : ofParts? names values = some r) : r.weight = Value.itemWeight values := by
  rw [weight_eq_itemWeight, values_ofParts? h]

theorem weight_tuple {entries : List (Option String × Value)} (some : entries ≠ []) :
    (Value.tuple entries).weight = weight entries := by
  cases entries with
  | nil => exact absurd rfl some
  | cons entry entries => simp [Value.weight, Value.leaves, Value.payload, weight]

end Record

namespace Layout

mutual

/-- Whether some part of the layout takes no bytes: an empty slot, an empty tuple, or an array of
length zero whose elements are static. -/
def hasZeroWidth : Layout → Bool
  | null _ => true
  | array _ element length => (length == .fixed 0 && !element.isDynamic) || element.hasZeroWidth
  | tuple _ components => components.isEmpty || anyZeroWidth components
  | _ => false

def anyZeroWidth : List Layout → Bool
  | [] => false
  | c :: rest => c.hasZeroWidth || anyZeroWidth rest

end

theorem hasZeroWidth_of_mem {components : List Layout} (wide : anyZeroWidth components = false)
    {c : Layout} (member : c ∈ components) : c.hasZeroWidth = false := by
  induction components with
  | nil => cases member
  | cons first components ih =>
    rw [anyZeroWidth, Bool.or_eq_false_iff] at wide
    rcases List.mem_cons.1 member with rfl | member
    · exact wide.1
    · exact ih wide.2 member

end Layout

/-- A reader without a hook, of at most `width` bytes, whose budget has not run past `most`. -/
structure Reader.Within (r : Reader) (most width : Nat) : Prop where
  hook_eq : r.hook = none
  length_le : r.data.length ≤ width
  limit?_eq : r.budget.limit? = some most
  read_le : r.budget.read ≤ most

theorem Reader.Within.withBudget {r s : Reader} {most width : Nat} (h : r.Within most width)
    (other : s.Within most width) : ({ r with budget := s.budget } : Reader).Within most width :=
  ⟨h.hook_eq, h.length_le, other.limit?_eq, other.read_le⟩

namespace Reading

variable {α β : Type} {most width : Nat}

/-- What the action gives has been paid for: its cost allows it for the bytes that are spent. A
failure overdraws the budget by no more than the data has. -/
structure Pays (most width : Nat) (cost : α → Nat → Prop) (action : Reading α) : Prop where
  ok : ∀ {r : Reader} {x : α} {after : Reader}, r.Within most width →
    action.runFrom r = (.ok x, after) → after.Within most width ∧
      ∃ spent, min (r.budget.read + spent) maxCount ≤ after.budget.read ∧ cost x spent
  error : ∀ {r : Reader} {e : AbiError} {after : Reader}, r.Within most width →
    action.runFrom r = (.error e, after) → after.budget.read ≤ most + width

theorem Pays.pure {cost : α → Nat → Prop} {x : α} (free : cost x 0) :
    Pays most width cost (pure x) where
  ok := by
    intro r y after within run
    cases run
    exact ⟨within, 0, Nat.min_le_left _ _, free⟩
  error := fun _ run => by cases run

theorem Pays.inspect {cost : α → Nat → Prop} {f : Reader → Except AbiError α}
    (free : ∀ r x, r.Within most width → f r = .ok x → cost x 0) :
    Pays most width cost (inspect f) where
  ok := by
    intro r x after within run
    obtain ⟨given, rfl⟩ := Prod.mk.inj run
    exact ⟨within, 0, Nat.min_le_left _ _, free r x within given⟩
  error := by
    intro r e after within run
    obtain ⟨_, rfl⟩ := Prod.mk.inj run
    exact Nat.le_trans within.read_le (Nat.le_add_right _ _)

theorem Pays.bind {first : α → Nat → Prop} {cost : β → Nat → Prop} {action : Reading α}
    {next : α → Reading β} (pays : Pays most width first action)
    (resume : ∀ x m, first x m → Pays most width (fun y n => cost y (m + n)) (next x)) :
    Pays most width cost (action >>= next) where
  ok := by
    intro r y after within run
    obtain ⟨x, mid, before, run⟩ := exists_of_runFrom_bind run
    obtain ⟨still, m, paid, allowed⟩ := pays.ok within before
    obtain ⟨ends, n, paidToo, allowed⟩ := (resume x m allowed).ok still run
    exact ⟨ends, m + n, by omega, allowed⟩
  error := by
    intro r e after within run
    rcases before : action.runFrom r with ⟨outcome, mid⟩
    cases outcome with
    | error e' =>
      rw [runFrom_bind_of_error before] at run
      cases run
      exact pays.error within before
    | ok x =>
      rw [runFrom_bind_of_ok before] at run
      obtain ⟨still, m, _, allowed⟩ := pays.ok within before
      exact (resume x m allowed).error still run

theorem Pays.mono {cost weaker : α → Nat → Prop} {action : Reading α}
    (pays : Pays most width cost action) (weaken : ∀ x n, cost x n → weaker x n) :
    Pays most width weaker action where
  ok := by
    intro r x after within run
    obtain ⟨ends, spent, paid, allowed⟩ := pays.ok within run
    exact ⟨ends, spent, paid, weaken x spent allowed⟩
  error := pays.error

theorem Pays.checked {first : α → Nat → Prop} {cost : β → Nat → Prop} {action : Reading α}
    {check : Reader → α → Except AbiError β} (pays : Pays most width first action)
    (passes : ∀ r x y n, check r x = .ok y → first x n → cost y n) :
    Pays most width cost (checked action check) where
  ok := by
    intro r y after within run
    obtain ⟨x, before, passed⟩ := exists_of_runFrom_checked run
    obtain ⟨ends, spent, paid, allowed⟩ := pays.ok within before
    exact ⟨ends, spent, paid, passes r x y spent passed allowed⟩
  error := by
    intro r e after within run
    rcases before : action.runFrom r with ⟨outcome, mid⟩
    cases outcome with
    | error e' =>
      rw [runFrom_checked_of_error before] at run
      cases run
      exact pays.error within before
    | ok x =>
      rw [runFrom_checked_of_ok before] at run
      obtain ⟨_, rfl⟩ := Prod.mk.inj run
      have ends := (pays.ok within before).1
      exact Nat.le_trans ends.read_le (Nat.le_add_right _ _)

/-- Reading elsewhere is paid for from the same budget. -/
theorem Pays.elsewhere {cost : α → Nat → Prop} {action : Reading α} {place : Reader}
    (placed : place.Within most width) (pays : Pays most width cost action) :
    Pays most width cost (elsewhere place action) where
  ok := by
    intro r x after within run
    rw [runFrom_elsewhere] at run
    obtain ⟨given, rfl⟩ := Prod.mk.inj run
    obtain ⟨ends, paid⟩ := pays.ok (placed.withBudget within) (Prod.ext given rfl)
    exact ⟨within.withBudget ends, paid⟩
  error := by
    intro r e after within run
    rw [runFrom_elsewhere] at run
    obtain ⟨given, rfl⟩ := Prod.mk.inj run
    have spent := pays.error (placed.withBudget within) (Prod.ext given rfl)
    exact spent

/-- Without a hook the value comes as it is. -/
theorem Pays.coerce {cost : α → Nat → Prop} {costs : Value → Nat → Prop} {action : Reading α}
    {f : α → Value} (pays : Pays most width cost action)
    (allowed : ∀ x n, cost x n → costs (f x) n) (name : String) :
    Pays most width costs (action >>= fun x => coerce name (f x)) := by
  apply pays.bind
  intro x m paid
  apply Pays.inspect
  intro r v within given
  rw [Reader.coerce, within.hook_eq] at given
  cases given
  exact allowed x m paid

theorem pays_of_outcome {cost : α → Nat → Prop} {action : Reading α}
    (outcome : ∀ r : Reader, (∃ e, action.runFrom r = (.error e, r)) ∨
      ∃ taken x, r.offset + taken ≤ r.data.length ∧ action.runFrom r = r.pay taken x ∧
        cost x taken) : Pays most width cost action where
  ok := by
    intro r x after within run
    rcases outcome r with ⟨e, failed⟩ | ⟨taken, y, inside, paid, allowed⟩
    · rw [failed] at run
      cases run
    · rw [paid, Reader.pay] at run
      split at run
      · cases run
      · next covered =>
        cases run
        have covers := Budget.isExceeded_eq_false_iff.1 (Bool.eq_false_iff.2 covered) most
          within.limit?_eq
        exact ⟨⟨within.hook_eq, within.length_le, within.limit?_eq, covers⟩, taken,
          Nat.le_refl _, allowed⟩
  error := by
    intro r e after within run
    have before := within.read_le
    rcases outcome r with ⟨e', failed⟩ | ⟨taken, y, inside, paid, _⟩
    · rw [failed] at run
      cases run
      omega
    · rw [paid, Reader.pay] at run
      split at run
      · cases run
        have spent := r.budget.read_spend_le taken
        have short := within.length_le
        change (r.budget.spend taken).read ≤ _
        omega
      · cases run

theorem pays_bytes (length : Nat) (relaxed : Bool) :
    Pays most width (fun data n => data.length ≤ n ∧
      (relaxed = false → Bytes.alignedLength length ≤ n)) (bytes length relaxed) := by
  apply pays_of_outcome
  intro r
  rcases runFrom_bytes_outcome r length relaxed with ⟨e, _, failed⟩ | ⟨taken, takes, read⟩
  · exact Or.inl ⟨e, failed⟩
  · refine Or.inr ⟨taken, _, takes.inside, read, ?_, ?_⟩
    · exact Nat.le_trans (List.length_take_le _ _) takes.enough
    · rintro rfl
      exact Nat.le_of_eq takes.eq_aligned.symm

theorem pays_word : Pays most width (fun _ n => wordSize ≤ n) word := by
  apply pays_of_outcome
  intro r
  rcases runFrom_word_outcome r with ⟨e, _, failed⟩ | ⟨inside, read⟩
  · exact Or.inl ⟨e, failed⟩
  · exact Or.inr ⟨wordSize, _, inside, read, Nat.le_refl _⟩

theorem pays_count (typeName : String) :
    Pays most width (fun _ n => wordSize ≤ n) (count typeName) := by
  rw [count_eq_checked]
  exact pays_word.checked fun _ _ _ _ _ paid => paid

theorem within_of_sub {r place : Reader} {offset : Nat} (within : r.Within most width)
    (made : r.sub offset = .ok place) : place.Within most width := by
  obtain ⟨_, rfl⟩ := Reader.of_sub_eq_ok made
  refine ⟨within.hook_eq, ?_, within.limit?_eq, within.read_le⟩
  exact Nat.le_trans (List.drop_suffix _ _).length_le within.length_le

end Reading

open Reading

variable {most width : Nat}

namespace Part

/-- What it may cost to read a child on its own: the pointer to a dynamic one has paid a word. -/
def Affords (isDynamic : Bool) (v : Value) (spent : Nat) : Prop :=
  v.weight ≤ spent + if isDynamic then wordSize else 0

theorem pays_readIn {base : Reader} (placed : base.Within most width) {part : Part}
    (pays : Pays most width (Affords part.isDynamic) part.read) :
    Pays most width (fun v n => v.weight ≤ n) (part.readIn base) := by
  unfold readIn
  split
  · next dynamic =>
    apply (pays_count part.kindName).bind
    intro offset m pointer
    have there : Pays most width (fun place n => place.Within most width ∧ n = 0)
        (Reading.ofExcept (base.sub offset)) :=
      Pays.inspect (f := fun _ => base.sub offset) fun _ _ _ made =>
        ⟨within_of_sub placed made, rfl⟩
    apply there.bind
    rintro place _ ⟨within, rfl⟩
    apply Pays.elsewhere within
    apply pays.mono
    intro v n afforded
    rw [Affords, if_pos dynamic] at afforded
    omega
  · next static =>
    apply pays.mono
    intro v n afforded
    rwa [Affords, if_neg static, Nat.add_zero] at afforded

theorem pays_readAllIn {base : Reader} (placed : base.Within most width) (parts : List Part)
    (pays : ∀ part ∈ parts, Pays most width (Affords part.isDynamic) part.read) :
    Pays most width (fun values n => values.length = parts.length ∧ Value.itemWeight values ≤ n)
      (readAllIn base parts) := by
  induction parts with
  | nil => exact Pays.pure ⟨rfl, Nat.le_refl _⟩
  | cons part parts ih =>
    rcases List.forall_mem_cons.1 pays with ⟨own, others⟩
    apply (pays_readIn placed own).bind
    intro v m first
    apply (ih others).bind
    rintro vs n ⟨same, rest⟩
    refine Pays.pure ⟨by rw [List.length_cons, same, List.length_cons], ?_⟩
    rw [Value.itemWeight_cons]
    omega

end Part

theorem pays_readBlock (parts : List Part)
    (pays : ∀ part ∈ parts, Pays most width (Part.Affords part.isDynamic) part.read) :
    Pays most width (fun values n => values.length = parts.length ∧ Value.itemWeight values ≤ n)
      (readBlock parts) := by
  have here : Pays most width (fun base n => base.Within most width ∧ n = 0)
      (inspect fun r => r.sub 0) :=
    Pays.inspect fun _ _ within made => ⟨within_of_sub within made, rfl⟩
  apply here.bind
  rintro base _ ⟨placed, rfl⟩
  simp only [Nat.zero_add]
  exact Part.pays_readAllIn placed parts pays

namespace Layout

theorem pays_readPayload (typeName : String) :
    Pays most width (fun data n => wordSize + data.length ≤ n) (readPayload typeName) := by
  apply (pays_count typeName).bind
  intro length m pointer
  apply (pays_bytes length true).mono
  rintro data n ⟨paid, _⟩
  omega

theorem pays_readAddress : Pays most width (fun v n => v.weight ≤ n) readAddress := by
  rw [readAddress_eq_checked]
  apply pays_word.checked
  intro r w v n passed paid
  split at passed
  · cases passed
    simpa [Value.weight, Value.leaves, Value.payload] using paid
  · cases passed

theorem pays_readText : Pays most width (fun v n => v.weight ≤ n) readText := by
  rw [readText_eq_checked]
  apply (pays_readPayload "string").checked
  intro r data v n passed paid
  cases decoded : Utf8.decode data with
  | ok text =>
    rw [decoded] at passed
    cases passed
    simpa [Value.weight, Value.leaves, Value.payload, Utf8.utf8Bytes_of_decode decoded] using paid
  | error fault =>
    rw [decoded] at passed
    cases passed

/-- The count of an array of dynamic length takes a word; that of the others is their length. -/
theorem pays_readCount (l element : Layout) (length : ArrayLength) :
    Pays most width (fun count n => match length with
      | .fixed size => count = size
      | .dynamic => wordSize ≤ n) (l.readCount element length) := by
  cases length with
  | fixed size =>
    have here : Pays most width (fun _ n => n = 0) (Reading.inspect Reader.remaining) :=
      Pays.inspect fun _ _ _ _ => rfl
    apply here.bind
    rintro remaining _ rfl
    split
    · exact Pays.inspect fun _ _ _ given => by cases given
    · exact Pays.pure rfl
  | dynamic =>
    rw [readCount, dynamicCount_eq_checked]
    apply (pays_count "array").checked
    intro r count _ n _ paid
    exact paid

theorem pays_decodeAll (components : List Layout)
    (pays : ∀ c ∈ components, Pays most width (Part.Affords c.isDynamic) c.decode) :
    Pays most width (fun record n => record.length = components.length ∧ Record.weight record ≤ n)
      (decodeAll components) := by
  unfold decodeAll
  rw [parts_eq_map]
  have children : ∀ child ∈ components.map part,
      Pays most width (Part.Affords child.isDynamic) child.read := by
    intro child member
    obtain ⟨c, inList, rfl⟩ := List.mem_map.1 member
    exact pays c inList
  apply (pays_readBlock _ children).bind
  rintro values m ⟨same, paid⟩
  rw [List.length_map] at same
  rw [recordOf]
  have named : (components.map name).length = values.length := by rw [List.length_map, same]
  have made : Record.ofParts? (components.map name) values =
      some ((components.map name).zip values) := if_pos named
  rw [made]
  refine Pays.pure ⟨?_, ?_⟩
  · rw [List.length_zip, ← named, Nat.min_self, List.length_map]
  · rw [Record.weight_ofParts? made]
    exact Nat.le_trans paid (Nat.le_add_right _ _)

theorem affords_of_le {isDynamic : Bool} {v : Value} {spent : Nat} (paid : v.weight ≤ spent) :
    Part.Affords isDynamic v spent := Nat.le_trans paid (Nat.le_add_right _ _)

/-- An array is paid for by its elements, and an empty one by its count or by its pointer. -/
theorem pays_array {name : Option String} {element : Layout} {length : ArrayLength}
    (wide : (length == .fixed 0 && !element.isDynamic) = false)
    (pays : Pays most width (Part.Affords element.isDynamic) element.decode) :
    Pays most width (Part.Affords (array name element length).isDynamic)
      (array name element length).decode := by
  rw [decode_array]
  apply (pays_readCount _ _ length).bind
  intro count m counted
  have children : ∀ child ∈ List.replicate count element.part,
      Pays most width (Part.Affords child.isDynamic) child.read :=
    List.forall_mem_replicate.2 (Or.inr pays)
  apply (pays_readBlock _ children).coerce
  rintro items n ⟨same, paid⟩
  rw [List.length_replicate] at same
  rw [Part.Affords, Value.weight_array]
  split
  · next empty =>
    rw [empty, List.length_nil] at same
    cases length with
    | fixed size =>
      cases counted
      cases same
      have dynamic : element.isDynamic = true := by simpa using wide
      simp [isDynamic, dynamic]
    | dynamic =>
      have paid : wordSize ≤ m := counted
      omega
  · omega

theorem pays_decode {l : Layout} (wide : l.hasZeroWidth = false) :
    Pays most width (Part.Affords l.isDynamic) l.decode := by
  induction l with
  | address name =>
    exact (pays_readAddress.mono fun _ _ => affords_of_le).coerce (f := id) (fun _ _ => id) _
  | bool name =>
    apply pays_word.coerce
    intro w n paid
    exact affords_of_le (by simpa [Value.weight, Value.leaves, Value.payload] using paid)
  | number name numberWidth isSigned =>
    apply pays_word.coerce
    intro w n paid
    apply affords_of_le
    cases isSigned <;> simpa [Value.weight, Value.leaves, Value.payload] using paid
  | fixedBytes name byteWidth =>
    apply (pays_bytes byteWidth.size false).coerce
    rintro data n ⟨_, whole⟩
    have paid := whole rfl
    rw [Bytes.alignedLength_of_le_wordSize byteWidth.pos byteWidth.le_wordSize] at paid
    exact affords_of_le (by simpa [Value.weight, Value.leaves, Value.payload] using paid)
  | bytes name =>
    apply (pays_readPayload "bytes").coerce
    intro data n paid
    exact affords_of_le (by simpa [Value.weight, Value.leaves, Value.payload] using paid)
  | string name =>
    exact (pays_readText.mono fun _ _ => affords_of_le).coerce (f := id) (fun _ _ => id) _
  | null name => cases wide
  | array name element length ih =>
    rw [hasZeroWidth, Bool.or_eq_false_iff] at wide
    exact pays_array wide.1 (ih wide.2)
  | tuple name components ih =>
    rw [hasZeroWidth, Bool.or_eq_false_iff] at wide
    rw [decode_tuple]
    apply (pays_decodeAll components fun c member => ih c member
      (hasZeroWidth_of_mem wide.2 member)).coerce
    rintro record n ⟨same, paid⟩
    apply affords_of_le
    rw [Record.weight_tuple]
    · exact paid
    · rintro rfl
      rw [List.length_nil, eq_comm, List.length_eq_zero_iff] at same
      simp [same] at wide

end Layout

theorem start_within {settings : Settings} (limited : 0 < settings.maxInflation) (data : Bytes)
    (isLoose : Bool) : (Reader.start data isLoose none settings.maxInflation).Within
      (saturatingMul data.length settings.maxInflation) data.length where
  hook_eq := rfl
  length_le := Nat.le_refl _
  limit?_eq := if_neg (Nat.pos_iff_ne_zero.1 limited)
  read_le := Nat.zero_le _

/-- Decoding under types that take some bytes reads a word for every leaf of the record and every
byte of its byte strings and texts, and reads no more than the ratio allows for the data, one
reading more when it fails. Counts are clamped, those of the record as well. -/
theorem decode_within_ratio {settings : Settings} {types : List TypeSource} {layouts : List Layout}
    (accepted : layoutsOf settings types = .ok layouts)
    (wide : Layout.anyZeroWidth layouts = false) (limited : 0 < settings.maxInflation)
    (data : Bytes) (isLoose : Bool) :
    (∀ record, decode settings none types data isLoose = .ok record →
      min (wordSize * Value.entryLeaves record + Value.entryPayload record) maxCount ≤
          (decodeFrom layouts settings none data isLoose).2.budget.read ∧
        (decodeFrom layouts settings none data isLoose).2.budget.read ≤
          saturatingMul data.length settings.maxInflation) ∧
    ∀ e, decode settings none types data isLoose = .error e →
      (decodeFrom layouts settings none data isLoose).2.budget.read ≤
        saturatingMul data.length settings.maxInflation + data.length := by
  have within := start_within limited data isLoose
  have pays : Reading.Pays (saturatingMul data.length settings.maxInflation) data.length _
      (Layout.decodeAll layouts) := Layout.pays_decodeAll layouts fun c member =>
    Layout.pays_decode (Layout.hasZeroWidth_of_mem wide member)
  rw [decode_eq_decodeFrom accepted]
  constructor
  · intro record given
    obtain ⟨ends, spent, paid, _, covers⟩ := pays.ok within (Prod.ext given rfl)
    refine ⟨?_, ends.read_le⟩
    have fresh : (Reader.start data isLoose none settings.maxInflation).budget.read = 0 := rfl
    rw [fresh, Nat.zero_add] at paid
    exact Nat.le_trans (min_le_min_right maxCount covers) paid
  · intro e given
    have spent := pays.error within (Prod.ext given rfl)
    exact spent

/-- Two elements of an array that point to the same bytes, which are read twice. -/
theorem decode_within_ratio_aliased :
    ∃ record, decode { maxInflation := 2 } none
        [.tree (.array {} (.elementary {} "bytes") .dynamic)]
        ([32#256, 2#256, 64#256, 64#256, 2#256].flatMap Word.toBytes ++ [1, 2]) true = .ok record ∧
      min (wordSize * Value.entryLeaves record + Value.entryPayload record) maxCount ≤
        saturatingMul 162 2 := by
  have accepted : layoutsOf { maxInflation := 2 }
      [.tree (.array {} (.elementary {} "bytes") .dynamic)] =
      .ok [.array none (.bytes none) .dynamic] := rfl
  have given : (decode { maxInflation := 2 } none
      [.tree (.array {} (.elementary {} "bytes") .dynamic)]
      ([32#256, 2#256, 64#256, 64#256, 2#256].flatMap Word.toBytes ++ [1, 2]) true).isOk := by
    decide +kernel
  obtain ⟨record, decoded⟩ := exists_of_isOk given
  have bounds := (decode_within_ratio accepted rfl (by decide) _ true).1 _ decoded
  exact ⟨_, decoded, Nat.le_trans bounds.1 bounds.2⟩

end AbiCodec
