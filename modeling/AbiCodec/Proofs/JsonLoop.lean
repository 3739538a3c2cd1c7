import AbiCodec.JsonCodec
import AbiCodec.Proofs.Reencoding
import AbiCodec.Proofs.RereadValue
import AbiCodec.Proofs.ValueText

/-!
# Values through JSON

A value that was decoded stands in JSON without its kind, and the type gives the
kind back. The value that is read is the one that was written, but for the sort
of a number, so it has the same encoding. One type is the exception: the reading
of JSON does not know the elementary type of the empty name, which the layouts
take for the empty slot, and refuses every value that meets it.
-/

namespace AbiCodec

/-! ### Texts of integers -/

namespace IntegerText

theorem head?_ofNat_ne_sign (n : Nat) : (Decimal.ofNat n).head? ≠ some '-' := by
  intro sign
  cases Decimal.isDigit_of_mem_ofNat (List.mem_of_head? sign)

/-- A text without blanks and without a sign that is read as the number, as far as there is a word
for it. -/
structure ReadsAs (form : List Char) (n : Nat) : Prop where
  solid : ∀ c ∈ form, isWhiteSpace c = false
  head?_ne : form.head? ≠ some '-'
  read_eq : readUnsigned? form = word? n

theorem readsAs_decimal (n : Nat) : ReadsAs (Decimal.ofNat n) n where
  solid := solid_ofNat n
  head?_ne := head?_ofNat_ne_sign n
  read_eq := readUnsigned?_ofNat n

end IntegerText

namespace Value

open IntegerText

/-! ### Elementary types -/

theorem numberOfJson?_minus {form : List Char} {n : Nat} (reads : ReadsAs form n) :
    numberOfJson? (.string (String.ofList ('-' :: form))) = .int <$> (word? n).bind fun w =>
      if w.toNat ≤ 1 <<< 255 then some (-w) else none := by
  have solid : ∀ c ∈ '-' :: form, isWhiteSpace c = false :=
    List.forall_mem_cons.2 ⟨by decide, reads.solid⟩
  have signed : ('-' :: form).head? = some '-' := rfl
  rw [numberOfJson?, String.toList_ofList, trimStart_eq_self solid, if_pos signed, readSigned?,
    trim_eq_self solid]
  simp only [reads.read_eq, Option.bind_eq_bind]

theorem numberOfJson?_plain {form : List Char} {n : Nat} (reads : ReadsAs form n) :
    numberOfJson? (.string (String.ofList form)) = .uint <$> word? n := by
  rw [numberOfJson?, String.toList_ofList, trimStart_eq_self reads.solid, if_neg reads.head?_ne,
    reads.read_eq]

theorem numberOfJson?_uint (w : Word) : numberOfJson? (Value.uint w).toJson = some (.uint w) := by
  rw [toJson, decimal, numberOfJson?_plain (readsAs_decimal _), word?_toNat]
  rfl

theorem numberOfJson?_int (w : Word) :
    numberOfJson? (Value.int w).toJson = some (Value.int w).reread := by
  rw [toJson, decimalInt]
  cases sign : w.msb with
  | false =>
    rw [ofInt_of_msb_eq_false sign, numberOfJson?_plain (readsAs_decimal _), word?_toNat,
      reread_int_of_msb_eq_false sign]
    rfl
  | true =>
    obtain ⟨magnitude, large⟩ := toNat_neg_of_msb_eq_true sign
    have within : (-w).toNat ≤ 1 <<< 255 := by omega
    rw [ofInt_of_msb_eq_true sign, numberOfJson?_minus (readsAs_decimal _), word?_toNat,
      Option.bind_some, if_pos within, BitVec.neg_neg, reread_int_of_msb_eq_true sign]
    rfl

theorem bytesOfJson_hexText (t : AbiType) (data : Bytes) :
    bytesOfJson t (.string (hexText data)) = .ok data := by
  have marked : (afterHexMark? (hexText data).toList).isSome = true := by
    rw [hexText, String.toList_ofList]
    rfl
  rw [bytesOfJson]
  simp only [marked, if_true, readHexText_hexText]
  rfl

/-- The name of a number type is none of a byte string. -/
theorem lead_of_numberName? {name digits : List Char} {isSigned : Bool}
    (h : Layout.numberName? name = some (isSigned, digits)) :
    (dropLead? "bytes".toList name).isSome = false ∧
      ((dropLead? "uint".toList name).isSome || (dropLead? "int".toList name).isSome) = true := by
  rw [(Layout.eq_of_numberName? h).1]
  cases isSigned <;> exact ⟨rfl, rfl⟩

theorem lead_of_fixedBytesName? {name digits : List Char}
    (h : Layout.fixedBytesName? name = some digits) :
    (dropLead? "bytes".toList name).isSome = true := by
  rw [(Layout.eq_of_fixedBytesName? h).1]
  rfl

/-- The name of a number type leads to the reading of numbers. -/
theorem elementaryOfJson_of_number {typeName : String} {label name : Option String}
    {width : ByteWidth} {isSigned : Bool}
    (laid : Layout.ofElementary typeName label = .ok (.number name width isSigned)) (t : AbiType)
    (json : Json) :
    elementaryOfJson t typeName json =
      (numberOfJson? json).elim (.error (mismatch t json .invalidNumber)) .ok := by
  unfold Layout.ofElementary at laid
  split_ifs at laid with isAddress isBool isString isBytes
  · cases laid
  · cases laid
  · cases laid
  · cases laid
  · cases laid
  · split at laid
    · next number =>
      obtain ⟨notBytes, isNumber⟩ := lead_of_numberName? number
      unfold elementaryOfJson
      rw [if_neg isAddress, if_neg isBool, if_neg isString, if_neg isBytes, notBytes, isNumber,
        if_neg Bool.false_ne_true, if_pos rfl]
      cases numberOfJson? json <;> rfl
    · split at laid
      · split at laid <;> cases laid
      · cases laid

/-- A value of an elementary type is read back, when the type has a name. -/
theorem elementaryOfJson_toJson {typeName : String} {label : Option String} {l : Layout}
    (laid : Layout.ofElementary typeName label = .ok l) (named : typeName ≠ "") {v : Value}
    (conforms : l.Conforms v) (t : AbiType) :
    elementaryOfJson t typeName v.toJson = .ok v.reread := by
  have whole := laid
  unfold Layout.ofElementary at laid
  split_ifs at laid with isAddress isBool isString isBytes
  · cases laid
    obtain ⟨a, rfl⟩ := conforms
    unfold elementaryOfJson
    rw [if_pos isAddress, toJson]
    simp only [Address.read_text]
    rfl
  · cases laid
    obtain ⟨b, rfl⟩ := conforms
    unfold elementaryOfJson
    rw [if_neg isAddress, if_pos isBool]
    rfl
  · cases laid
    obtain ⟨text, rfl⟩ := conforms
    unfold elementaryOfJson
    rw [if_neg isAddress, if_neg isBool, if_pos isString]
    rfl
  · cases laid
    obtain ⟨data, rfl⟩ := conforms
    unfold elementaryOfJson
    rw [if_neg isAddress, if_neg isBool, if_neg isString, if_pos isBytes, toJson,
      bytesOfJson_hexText]
    rfl
  · split at laid
    · next isSigned digits number =>
      split at laid
      · cases laid
        obtain ⟨w, rfl⟩ := conforms
        rw [elementaryOfJson_of_number whole]
        cases isSigned with
        | false =>
          rw [if_neg Bool.false_ne_true, numberOfJson?_uint]
          rfl
        | true => rw [if_pos rfl, numberOfJson?_int, Option.elim_some]
      · cases laid
    · split at laid
      · next fixedBytes =>
        unfold elementaryOfJson
        rw [if_neg isAddress, if_neg isBool, if_neg isString, if_neg isBytes,
          lead_of_fixedBytesName? fixedBytes, if_pos rfl]
        split at laid
        · cases laid
          obtain ⟨data, rfl, _⟩ := conforms
          rw [toJson, bytesOfJson_hexText]
          rfl
        · cases laid
      · cases laid

end Value

namespace AbiType

/-- A value in the value stands for an elementary type of the empty name. -/
inductive MeetsVoid : AbiType → Value → Prop where
  | void {label : Label} {v : Value} : MeetsVoid (.elementary label "") v
  | element {label : Label} {element : AbiType} {length : ArrayLength} {items : List Value}
    {item : Value} : item ∈ items → MeetsVoid element item →
      MeetsVoid (.array label element length) (.array items)
  | component {label : Label} {components : List AbiType} {entries : Record} {t : AbiType}
    {v : Value} : (t, v) ∈ components.zip entries.values → MeetsVoid t v →
      MeetsVoid (.tuple label components) (.tuple entries)

/-- One of the values meets an elementary type of the empty name. -/
def VoidIn (types : List AbiType) (values : List Value) : Prop :=
  ∃ t v, (t, v) ∈ types.zip values ∧ t.MeetsVoid v

theorem voidIn_cons {t : AbiType} {types : List AbiType} {v : Value} {values : List Value} :
    VoidIn (t :: types) (v :: values) ↔ t.MeetsVoid v ∨ VoidIn types values := by
  simp only [VoidIn, List.zip_cons_cons, List.mem_cons]
  constructor
  · rintro ⟨u, w, same | member, meets⟩
    · cases same
      exact Or.inl meets
    · exact Or.inr ⟨u, w, member, meets⟩
  · rintro (meets | ⟨u, w, member, meets⟩)
    · exact ⟨t, v, Or.inl rfl, meets⟩
    · exact ⟨u, w, Or.inr member, meets⟩

theorem voidIn_replicate {element : AbiType} {items : List Value} :
    VoidIn (List.replicate items.length element) items ↔ ∃ item ∈ items, element.MeetsVoid item := by
  induction items with
  | nil => simp [VoidIn]
  | cons v items ih => simp [List.replicate_succ, voidIn_cons, ih]

end AbiType

namespace Value

open AbiType

/-! ### All types -/

theorem forall₂_replicate {α β : Type} {related : α → β → Prop} {a : α} {items : List β}
    (each : ∀ b ∈ items, related a b) :
    List.Forall₂ related (List.replicate items.length a) items := by
  refine List.forall₂_iff_zip.2 ⟨List.length_replicate, fun member => ?_⟩
  obtain ⟨copy, item⟩ := List.of_mem_zip member
  rw [List.eq_of_mem_replicate copy]
  exact each _ item

/-- The reading gives `result`, unless `void` holds: then it fails for a type. -/
inductive ReadsUnless {α : Type} (void : Prop) (result : α) : Except AbiError α → Prop where
  | ok : ¬void → ReadsUnless void result (.ok result)
  | error {e : AbiError} : void → e.kind = .invalidType → ReadsUnless void result (.error e)

namespace ReadsUnless

variable {α β : Type} {void void' : Prop} {x : α} {y : β} {reading : Except AbiError α}

theorem map (h : ReadsUnless void x reading) (f : α → β) :
    ReadsUnless void (f x) (reading.map f) := by
  cases h with
  | ok none => exact .ok none
  | error some kind => exact .error some kind

theorem congr (h : ReadsUnless void x reading) (same : void ↔ void') :
    ReadsUnless void' x reading := by
  rwa [← propext same]

theorem bind {next : α → Except AbiError β} (first : ReadsUnless void x reading)
    (rest : ReadsUnless void' y (next x)) : ReadsUnless (void ∨ void') y (reading >>= next) := by
  cases first with
  | ok none => exact rest.congr (or_iff_right none).symm
  | error some kind => exact .error (Or.inl some) kind

theorem eq_ok (h : ReadsUnless void x reading) (none : ¬void) : reading = .ok x := by
  cases h with
  | ok _ => rfl
  | error some _ => exact absurd some none

theorem exists_error (h : ReadsUnless void x reading) (some : void) :
    ∃ e, reading = .error e ∧ e.kind = .invalidType := by
  cases h with
  | ok none => exact absurd some none
  | error _ kind => exact ⟨_, rfl, kind⟩

end ReadsUnless

/-- The value is read back from its JSON value. -/
def ReadsFromJson (t : AbiType) (v : Value) : Prop :=
  ReadsUnless (t.MeetsVoid v) v.reread (ofJson t v.toJson)

/-- The values of the types that the JSON values stand for, one by one. -/
def valuesOfJson (types : List AbiType) (items : List Json) : Except AbiError (List Value) :=
  (types.zip items).mapM fun (t, json) => ofJson t json

theorem valuesOfJson_cons (t : AbiType) (types : List AbiType) (json : Json) (items : List Json) :
    valuesOfJson (t :: types) (json :: items) = (do
      let first ← ofJson t json
      let others ← valuesOfJson types items
      return first :: others) := by
  rw [valuesOfJson, List.zip_cons_cons, List.mapM_cons]
  rfl

theorem readsUnless_valuesOfJson {types : List AbiType} {values : List Value}
    (each : List.Forall₂ ReadsFromJson types values) :
    ReadsUnless (VoidIn types values) (values.map reread)
      (valuesOfJson types (itemsToJson values)) := by
  induction each with
  | nil => exact .ok fun ⟨_, _, member, _⟩ => nomatch member
  | @cons t v types values first _ ih =>
    rw [itemsToJson, valuesOfJson_cons, List.map_cons]
    exact (first.bind (ih.map (v.reread :: ·))).congr voidIn_cons.symm

theorem length_itemsToJson (values : List Value) : (itemsToJson values).length = values.length := by
  induction values with
  | nil => rfl
  | cons v values ih => rw [itemsToJson, List.length_cons, ih, List.length_cons]

theorem entriesToJson_eq (entries : Record) : entriesToJson entries = itemsToJson entries.values := by
  induction entries with
  | nil => rfl
  | cons entry entries ih =>
    rw [entriesToJson, ih]
    rfl

theorem valuesOfJson_replicate (element : AbiType) (items : List Json) :
    valuesOfJson (List.replicate items.length element) items =
      items.mapM fun item => ofJson element item := by
  induction items with
  | nil => rfl
  | cons json items ih =>
    rw [List.length_cons, List.replicate_succ, valuesOfJson_cons, ih, List.mapM_cons]

theorem entriesOfJson_eq (types : List AbiType) (items : List Json) :
    entriesOfJson types items =
      (valuesOfJson types items).map ((types.map AbiType.name).zip ·) := by
  induction types generalizing items with
  | nil => rfl
  | cons t types ih =>
    cases items with
    | nil => rfl
    | cons json items =>
      rw [entriesOfJson, ih, valuesOfJson_cons]
      cases ofJson t json with
      | error e => rfl
      | ok v => cases valuesOfJson types items <;> rfl

theorem rereadEntries_eq_zip (entries : Record) :
    rereadEntries entries = entries.names.zip (entries.values.map reread) := by
  induction entries with
  | nil => rfl
  | cons entry entries ih =>
    rw [rereadEntries, ih]
    rfl

theorem exists_layout_of_mem_zip {built : AbiType → Layout → Prop} {types : List AbiType}
    {layouts : List Layout} (laid : List.Forall₂ built types layouts) {values : List Value}
    (given : List.Forall₂ Layout.Given layouts values) {t : AbiType} {v : Value}
    (member : (t, v) ∈ types.zip values) : ∃ l, built t l ∧ l.Given v := by
  induction laid generalizing values with
  | nil => cases member
  | cons own _ ih =>
    cases given with
    | cons first rest =>
      rw [List.zip_cons_cons] at member
      rcases List.mem_cons.1 member with same | member
      · cases same
        exact ⟨_, own, first⟩
      · exact ih rest member

theorem readsFromJson_all {limit : Nat} {types : List AbiType} {layouts : List Layout}
    (each : ∀ t ∈ types, ∀ l v, Layout.build limit t = .ok l → l.Given v → ReadsFromJson t v)
    (built : Layout.Built limit types layouts) {values : List Value}
    (given : List.Forall₂ Layout.Given layouts values) :
    List.Forall₂ ReadsFromJson types values := by
  refine List.forall₂_iff_zip.2 ⟨built.length_eq.trans given.length_eq, fun member => ?_⟩
  obtain ⟨l, laid, own⟩ := exists_layout_of_mem_zip built given member
  exact each _ (List.of_mem_zip member).1 l _ laid own

theorem meetsVoid_elementary_iff {label : Label} {name : String} {v : Value} :
    (AbiType.elementary label name).MeetsVoid v ↔ name = "" := by
  constructor
  · rintro ⟨⟩
    rfl
  · rintro rfl
    exact .void

theorem meetsVoid_array_iff {label : Label} {element : AbiType} {length : ArrayLength}
    {items : List Value} :
    (AbiType.array label element length).MeetsVoid (.array items) ↔
      ∃ item ∈ items, element.MeetsVoid item := by
  constructor
  · rintro (_ | ⟨member, meets⟩ | _)
    exact ⟨_, member, meets⟩
  · rintro ⟨item, member, meets⟩
    exact .element member meets

theorem meetsVoid_tuple_iff {label : Label} {components : List AbiType} {entries : Record} :
    (AbiType.tuple label components).MeetsVoid (.tuple entries) ↔
      VoidIn components entries.values := by
  constructor
  · rintro (_ | _ | ⟨member, meets⟩)
    exact ⟨_, _, member, meets⟩
  · rintro ⟨t, v, member, meets⟩
    exact .component member meets

/-- Each value that a layout gives is read back from its JSON value under the type of the layout. -/
theorem readsFromJson_of_given {limit : Nat} {t : AbiType} {l : Layout}
    (built : Layout.build limit t = .ok l) {v : Value} (given : l.Given v) : ReadsFromJson t v := by
  -- On the type, since the reading of JSON follows it; the layout says which value to expect.
  induction t generalizing l v with
  | elementary label typeName =>
    rw [ReadsFromJson, ofJson]
    by_cases void : typeName = ""
    · subst void
      exact .error .void rfl
    · rw [elementaryOfJson_toJson built void given.conforms]
      exact .ok fun meets => void (meetsVoid_elementary_iff.1 meets)
  | array label element length ih =>
    obtain ⟨inner, laid, rfl⟩ := Layout.exists_of_build_array built
    obtain ⟨items, rfl, _, conform⟩ := given.conforms
    have each : List.Forall₂ ReadsFromJson (List.replicate items.length element) items :=
      forall₂_replicate fun item member =>
        ih laid ⟨conform item member, given.named items rfl item member⟩
    have read := (readsUnless_valuesOfJson each).map Value.array
    rw [← length_itemsToJson items, valuesOfJson_replicate, ← rereadItems_eq_map,
      length_itemsToJson] at read
    rw [ReadsFromJson, toJson, ofJson]
    exact read.congr (voidIn_replicate.trans meetsVoid_array_iff.symm)
  | tuple label components ih =>
    obtain ⟨inner, laid, rfl⟩ := Layout.exists_of_build_tuple built
    obtain ⟨entries, rfl, conform⟩ := given.conforms
    obtain ⟨names, named⟩ := given.named entries rfl
    have each := readsFromJson_all (fun t member _ _ own => ih t member own) laid
      (Layout.given_of_all conform named)
    have count : (entriesToJson entries).length = components.length := by
      rw [entriesToJson_eq, length_itemsToJson, each.length_eq]
    have read := (readsUnless_valuesOfJson each).map ((components.map AbiType.name).zip ·)
    rw [← entriesOfJson_eq, ← laid.map_name, ← names.names_eq, ← rereadEntries_eq_zip,
      ← entriesToJson_eq] at read
    rw [ReadsFromJson, toJson, ofJson]
    simp only [if_pos count]
    exact (read.map Value.tuple).congr meetsVoid_tuple_iff.symm
  | empty label =>
    cases built
    cases given.conforms
    exact .ok nofun

end Value

/-! ### Lists of parameters -/

theorem encode_of_forms {settings : Settings} {types : List TypeSource} {layouts : List Layout}
    (accepted : layoutsOf settings types = .ok layouts) (same : types.length = layouts.length)
    {values forms : List Value} (canonical : Layout.CanonicalForms layouts values forms) :
    encode settings types values = .ok (Child.layOut (Layout.children layouts forms)) := by
  have gives := Layout.gives_encodeAll layouts values
  rw [Layout.canonicalAll?_eq_some_iff.2 canonical, Option.map_some] at gives
  rw [encode_eq_outputOf accepted (same.trans canonical.length_eq.1.symm), outputOf, gives [],
    List.nil_append]

/-- Canonical values encode to the same bytes after reading them back. -/
theorem encode_reread_of_forms {settings : Settings} {types : List TypeSource}
    {layouts : List Layout} (accepted : layoutsOf settings types = .ok layouts)
    (same : types.length = layouts.length) {values forms : List Value}
    (canonical : Layout.CanonicalForms layouts values forms) :
    encode settings types (forms.map Value.reread) =
      .ok (Child.layOut (Layout.children layouts forms)) := by
  have own := encode_of_forms accepted same
    (Layout.forms_of_forms (fun _ _ _ _ => Layout.canonical?_canonical) canonical)
  have alike := mapError_encode_reread settings types forms
  rw [own] at alike
  cases again : encode settings types (forms.map Value.reread) with
  | ok data =>
    rw [again] at alike
    cases alike
    rfl
  | error e =>
    rw [again] at alike
    cases alike

theorem encodeJson_eq {settings : Settings} {types : List TypeSource} {trees : List AbiType}
    (resolved : types.mapM TypeSource.resolve = .ok trees) {items : List Json}
    (same : types.length = items.length) :
    encodeJson settings types items =
      Value.valuesOfJson trees items >>= encode settings (trees.map .tree) := by
  rw [encodeJson, if_pos same, resolved]
  rfl

/-- Two values encode to the same bytes under the type, or are both out of its range. -/
def EncodeAlike (settings : Settings) (t : AbiType) (v w : Value) : Prop :=
  (∃ data, encode settings [.tree t] [v] = .ok data ∧ encode settings [.tree t] [w] = .ok data) ∨
    ∃ e e', encode settings [.tree t] [v] = .error e ∧ e.kind = .valueOutOfRange ∧
      encode settings [.tree t] [w] = .error e' ∧ e'.kind = .valueOutOfRange

theorem kind_of_encode {settings : Settings} {t : AbiType} {l : Layout}
    (laid : Layout.ofType settings t = .ok l) {v : Value} (conforms : l.Conforms v) {e : AbiError}
    (failed : encode settings [.tree t] [v] = .error e) : e.kind = .valueOutOfRange := by
  have refused := Layout.failsAs_slots
    (List.forall_mem_singleton.2 fun v => Layout.failsAs_encode)
    (⟨v, [], rfl, conforms, rfl⟩ : Layout.ConformAll [l] [v])
  have accepted : layoutsOf settings [.tree t] = .ok [l] := layoutsOf_map_tree_eq_ok_iff.2 (.cons laid .nil)
  have one : [v].length = [l].length := rfl
  rw [encode_eq_outputOf accepted rfl, outputOf, Layout.encodeAll, if_pos one] at failed
  rcases run : (Block.write (Layout.slots [l] [v])).runFrom [] with ⟨_ | n, after⟩
  · rw [run] at failed
    cases failed
    exact refused [] _ after run
  · rw [run] at failed
    cases failed

theorem encodeAlike_reread {settings : Settings} {t : AbiType} {l : Layout}
    (laid : Layout.ofType settings t = .ok l) {v : Value} (conforms : l.Conforms v) :
    EncodeAlike settings t v.reread v := by
  have same := mapError_encode_reread settings [.tree t] [v]
  rw [List.map_cons, List.map_nil] at same
  cases own : encode settings [.tree t] [v] with
  | ok data =>
    rw [own] at same
    cases again : encode settings [.tree t] [v.reread] with
    | ok other =>
      rw [again] at same
      cases same
      exact Or.inl ⟨data, again, own⟩
    | error e =>
      rw [again] at same
      cases same
  | error e =>
    have kind := kind_of_encode laid conforms own
    rw [own] at same
    cases again : encode settings [.tree t] [v.reread] with
    | ok other =>
      rw [again] at same
      cases same
    | error e' =>
      rw [again] at same
      exact Or.inr ⟨e', e, again, (Except.error.inj same).trans kind, own, kind⟩

theorem readsFromJson_of_layouts {settings : Settings} {trees : List AbiType}
    {layouts : List Layout}
    (laid : List.Forall₂ (fun t l => Layout.ofType settings t = .ok l) trees layouts)
    {values : List Value} (given : List.Forall₂ Layout.Given layouts values) :
    List.Forall₂ Value.ReadsFromJson trees values :=
  Value.readsFromJson_all (fun _ _ _ _ built => Value.readsFromJson_of_given built)
    (laid.imp fun _ _ => Layout.build_of_ofType) given

/-- What was encoded goes through JSON back to the same bytes, and each value that is decoded is
read back from its JSON value, to be encoded alike. Values that meet an elementary type of the empty
name are refused as JSON instead. -/
theorem encodeJson_decodeJson {settings : Settings} {types : List TypeSource}
    {layouts : List Layout} (accepted : layoutsOf settings types = .ok layouts) :
    ∃ trees, types.mapM TypeSource.resolve = .ok trees ∧
      (∀ values data, Layout.allSized layouts = true → encode settings types values = .ok data →
        data.length < 2 ^ 63 → ∃ record, decode settings none types data false = .ok record ∧
          ∃ items, decodeJson settings none types data false = .ok (.array items) ∧
            (¬AbiType.VoidIn trees record.values → encodeJson settings types items = .ok data) ∧
            (AbiType.VoidIn trees record.values →
              ∃ e, encodeJson settings types items = .error e ∧ e.kind = .invalidType)) ∧
      ∀ data isLoose record, decode settings none types data isLoose = .ok record →
        ∀ t v, (t, v) ∈ trees.zip record.values →
          (¬t.MeetsVoid v → ∃ again, Value.ofJson t v.toJson = .ok again ∧
            EncodeAlike settings t again v) ∧
          (t.MeetsVoid v → ∃ e, Value.ofJson t v.toJson = .error e ∧ e.kind = .invalidType) := by
  obtain ⟨trees, resolved, sameTypes, laid⟩ := exists_of_layoutsOf accepted
  refine ⟨trees, resolved, ?_, ?_⟩
  · intro values data sized encoded small
    obtain ⟨forms, canonical, rfl⟩ := forms_of_encode accepted encoded
    obtain ⟨_, read, _⟩ := decodeFrom_of_forms sized canonical settings small false
    have decoded : decode settings none types (Child.layOut (Layout.children layouts forms)) false =
        .ok ((layouts.map Layout.name).zip forms) := by
      rw [decode_eq_decodeFrom accepted, read]
    have given := (given_of_decode accepted decoded).2
    rw [canonical.values_zip] at given
    have readBack := Value.readsUnless_valuesOfJson (readsFromJson_of_layouts laid given)
    have count : types.length = (Value.itemsToJson forms).length := by
      rw [Value.length_itemsToJson, canonical.length_eq.2, ← laid.length_eq, sameTypes]
    refine ⟨_, decoded, Value.itemsToJson forms, ?_, ?_⟩
    · rw [decodeJson, decoded]
      change Except.ok (Json.array (Value.itemsToJson _)) = _
      rw [canonical.values_zip]
    rw [canonical.values_zip, encodeJson_eq resolved count]
    constructor
    · intro none
      rw [readBack.eq_ok none]
      exact encode_reread_of_forms (layoutsOf_map_tree_eq_ok_iff.2 laid)
        (by rw [List.length_map, laid.length_eq]) canonical
    · intro some
      obtain ⟨e, failed, kind⟩ := readBack.exists_error some
      exact ⟨e, by rw [failed]; rfl, kind⟩
  · intro data isLoose record decoded t v member
    have given := (given_of_decode accepted decoded).2
    obtain ⟨l, own, value⟩ := Value.exists_layout_of_mem_zip laid given member
    have read := Value.readsFromJson_of_given (Layout.build_of_ofType own) value
    exact ⟨fun none => ⟨_, read.eq_ok none, encodeAlike_reread own value.conforms⟩,
      read.exists_error⟩

set_option maxRecDepth 8000 in
/-- A negative number keeps its sign. -/
theorem encodeJson_decodeJson_negative :
    (∃ items, decodeJson {} none [.tree (.elementary {} "int8")] (Word.toBytes (-1)) false =
        .ok (.array items) ∧
      encodeJson {} [.tree (.elementary {} "int8")] items = .ok (Word.toBytes (-1))) ∧
    ∃ again, Value.ofJson (.elementary {} "int8") (Value.int (-1)).toJson = .ok again ∧
      EncodeAlike {} (.elementary {} "int8") again (.int (-1)) := by
  have accepted : layoutsOf {} [.tree (.elementary {} "int8")] =
      .ok [.number none ⟨1, by decide, by decide⟩ true] := rfl
  have encoded : encode {} [.tree (.elementary {} "int8")] [.int (-1)] =
      .ok (Word.toBytes (-1)) := rfl
  have decoded : decode {} none [.tree (.elementary {} "int8")] (Word.toBytes (-1)) false =
      .ok [(none, .int (-1))] := rfl
  have named (v : Value) : ¬(AbiType.elementary {} "int8").MeetsVoid v :=
    fun meets => nomatch Value.meetsVoid_elementary_iff.1 meets
  obtain ⟨trees, resolved, loop, each⟩ := encodeJson_decodeJson accepted
  cases resolved
  have small : (Word.toBytes (-1)).length < 2 ^ 63 := by
    rw [Word.length_toBytes]
    decide
  obtain ⟨record, read, items, written, back, _⟩ := loop _ _ rfl encoded small
  cases read
  refine ⟨⟨items, written, back ?_⟩, (each _ _ _ decoded _ _ List.mem_cons_self).1 (named _)⟩
  rintro ⟨t, v, member, meets⟩
  cases List.mem_singleton.1 member
  exact named _ meets

/-- The elementary type of the empty name takes the empty slot through the bytes, and not through
JSON. -/
theorem void_refused_as_json :
    encode {} [.tree (.elementary {} "")] [.null] = .ok [] ∧
      decodeJson {} none [.tree (.elementary {} "")] [] false = .ok (.array [.null]) ∧
      encodeJson {} [.tree (.elementary {} "")] [.null] = .error (.invalidType "" .unknownType) :=
  ⟨rfl, rfl, rfl⟩

end AbiCodec
