import AbiCodec.Contract.Event
import AbiCodec.Proofs.RoundTrip
import AbiCodec.Proofs.TypeTree

/-!
# Logs of events

The values of a log are in two places: those of the indexed inputs among the
topics, in the order of the inputs, and the others in the data. Decoding takes
each value from its place, so the record has all of them in the order of the
inputs again. Where a topic is the hash of a value, the topic itself comes back.
-/

namespace AbiCodec

attribute [local irreducible] topicOf

theorem Word.length_toBytes_lt (w : Word) : w.toBytes.length < 2 ^ 63 := by
  rw [Word.length_toBytes]
  decide

/-- An input of an event with the value that is logged for it, and the word that stands among the
topics where the input is indexed. A word that is no hash is the encoding of the value; the empty
slot is written in no bytes, and any word stands for it. -/
structure LoggedInput where
  type : AbiType
  layout : Layout
  value : Value
  word : Word
  accepted : Layout.ofType .standard type = .ok layout
  sized : layout.isSized = true
  word_encodes : type.isIndexed = true → Event.isHashed type = false →
    ∃ data, encode .standard [.tree type] [value] = .ok data ∧ data <+: word.toBytes

namespace LoggedInput

/-- The value comes back for the input: its canonical form, or the word where that is a hash. -/
def Returns (input : LoggedInput) (v : Value) : Prop :=
  if input.type.isIndexed && Event.isHashed input.type then v = .fixedBytes input.word.toBytes
  else input.layout.canonical? input.value = some v

/-- The inputs whose values are topics. -/
def indexed (inputs : List LoggedInput) : List LoggedInput :=
  inputs.filter fun input => input.type.isIndexed

/-- The inputs whose values are in the data. -/
def body (inputs : List LoggedInput) : List LoggedInput :=
  inputs.filter fun input => !input.type.isIndexed

section Places

variable {input : LoggedInput} (inputs : List LoggedInput)

theorem indexed_cons_of_indexed (place : input.type.isIndexed = true) :
    indexed (input :: inputs) = input :: indexed inputs :=
  List.filter_cons_of_pos place

theorem body_cons_of_indexed (place : input.type.isIndexed = true) :
    body (input :: inputs) = body inputs :=
  List.filter_cons_of_neg (by rw [place, Bool.not_true]; exact Bool.false_ne_true)

theorem indexed_cons_of_body (place : input.type.isIndexed = false) :
    indexed (input :: inputs) = indexed inputs :=
  List.filter_cons_of_neg (Bool.not_eq_true _ ▸ place)

theorem body_cons_of_body (place : input.type.isIndexed = false) :
    body (input :: inputs) = input :: body inputs :=
  List.filter_cons_of_pos (by rw [place, Bool.not_false])

end Places

theorem layoutsOf_types (inputs : List LoggedInput) :
    layoutsOf .standard ((inputs.map type).map .tree) = .ok (inputs.map layout) := by
  rw [layoutsOf_map_tree_eq_ok_iff, List.forall₂_map_left_iff, List.forall₂_map_right_iff,
    List.forall₂_same]
  exact fun input _ => input.accepted

theorem allSized_layouts (inputs : List LoggedInput) :
    Layout.allSized (inputs.map layout) = true := by
  induction inputs with
  | nil => rfl
  | cons input inputs ih => rw [List.map_cons, Layout.allSized, input.sized, ih, Bool.and_self]

/-- The word of an indexed input gives back its value, or itself. -/
theorem exists_topicValue (input : LoggedInput) (isIndexed : input.type.isIndexed = true)
    (index : Nat) :
    ∃ v, input.Returns v ∧ Event.topicValue input.type index input.word = .ok v := by
  rw [Event.topicValue]
  cases hashed : Event.isHashed input.type with
  | true =>
    refine ⟨.fixedBytes input.word.toBytes, ?_, rfl⟩
    rw [Returns, isIndexed, hashed]
    exact rfl
  | false =>
    obtain ⟨data, encoded, starts⟩ := input.word_encodes isIndexed hashed
    obtain ⟨forms, canonical, rfl⟩ := forms_of_encode (layoutsOf_types [input]) encoded
    obtain ⟨form, first, rfl⟩ : ∃ form, input.layout.canonical? input.value = some form ∧
        forms = [form] := by
      rcases canonical with _ | ⟨first, rest⟩
      cases rest
      exact ⟨_, first, rfl⟩
    have decoded : decode .standard none [.tree input.type] input.word.toBytes false =
        .ok [(input.layout.name, form)] :=
      decode_of_forms (layoutsOf_types [input]) (allSized_layouts [input]) canonical starts
        input.word.length_toBytes_lt false
    refine ⟨form, ?_, ?_⟩
    · rw [Returns, hashed, Bool.and_false]
      exact first
    · rw [if_neg Bool.false_ne_true, decoded]
      rfl

theorem returns_of_body {input : LoggedInput} (isBody : input.type.isIndexed = false) {v : Value}
    (canonical : input.layout.canonical? input.value = some v) : input.Returns v := by
  rw [Returns, isBody, Bool.false_and]
  exact canonical

end LoggedInput

namespace Event

open LoggedInput

variable {inputs : List LoggedInput} {forms : List Value}

section Step

variable {t : AbiType} {types : List AbiType} {topics : List Word} {values : List Value}
  {dataLength index : Nat}

theorem collect_cons_indexed (place : t.isIndexed = true) (topic : Word) :
    collect dataLength index (t :: types) (topic :: topics) values = (do
      let first ← topicValue t index topic
      let others ← collect dataLength (index + 1) types topics values
      .ok (first :: others)) :=
  if_pos place

theorem collect_cons_body (place : t.isIndexed = false) (v : Value) :
    collect dataLength index (t :: types) topics (v :: values) = (do
      let others ← collect dataLength (index + 1) types topics values
      .ok (v :: others)) :=
  if_neg (Bool.not_eq_true _ ▸ place)

end Step

/-- Every input finds its value in its place: among the topics if it is indexed, and among the
values of the data otherwise. -/
theorem collect_of_forms
    (canonical : Layout.CanonicalForms ((body inputs).map layout) ((body inputs).map value) forms)
    (dataLength index : Nat) :
    ∃ kept, List.Forall₂ Returns inputs kept ∧
      collect dataLength index (inputs.map type) ((indexed inputs).map word) forms = .ok kept := by
  -- The first input takes the head of one of the two lists, and the other list waits as it is.
  induction inputs generalizing index forms with
  | nil => exact ⟨[], .nil, rfl⟩
  | cons input inputs ih =>
    cases place : input.type.isIndexed with
    | true =>
      rw [body_cons_of_indexed inputs place] at canonical
      obtain ⟨v, returns, first⟩ := input.exists_topicValue place index
      obtain ⟨kept, all, rest⟩ := ih canonical (index + 1)
      refine ⟨v :: kept, .cons returns all, ?_⟩
      rw [indexed_cons_of_indexed inputs place, List.map_cons, List.map_cons,
        collect_cons_indexed place, first, rest]
      rfl
    | false =>
      rw [body_cons_of_body inputs place, List.map_cons, List.map_cons] at canonical
      obtain _ | ⟨first, canonical⟩ := canonical
      obtain ⟨kept, all, rest⟩ := ih canonical (index + 1)
      refine ⟨_ :: kept, .cons (returns_of_body place first) all, ?_⟩
      rw [indexed_cons_of_body inputs place, List.map_cons, collect_cons_body place, rest]
      rfl

/-- With fewer topics than indexed inputs, one of these inputs finds none. -/
theorem collect_of_few
    (canonical : Layout.CanonicalForms ((body inputs).map layout) ((body inputs).map value) forms)
    (dataLength index : Nat) {k : Nat} (few : k < (indexed inputs).length) :
    ∃ e, collect dataLength index (inputs.map type) (((indexed inputs).map word).take k) forms =
      .error e ∧ e.kind = .malformedData := by
  induction inputs generalizing index forms k with
  | nil => cases few
  | cons input inputs ih =>
    cases place : input.type.isIndexed with
    | true =>
      rw [body_cons_of_indexed inputs place] at canonical
      rw [indexed_cons_of_indexed inputs place] at few ⊢
      cases k with
      | zero => exact ⟨_, if_pos place, rfl⟩
      | succ k =>
        obtain ⟨v, _, first⟩ := input.exists_topicValue place index
        obtain ⟨e, rest, kind⟩ := ih canonical (index + 1) (Nat.lt_of_succ_lt_succ few)
        refine ⟨e, ?_, kind⟩
        rw [List.map_cons, List.map_cons, List.take_succ_cons, collect_cons_indexed place, first,
          rest]
        rfl
    | false =>
      rw [body_cons_of_body inputs place, List.map_cons, List.map_cons] at canonical
      rw [indexed_cons_of_body inputs place] at few ⊢
      obtain _ | ⟨first, canonical⟩ := canonical
      obtain ⟨e, rest, kind⟩ := ih canonical (index + 1) few
      refine ⟨e, ?_, kind⟩
      rw [List.map_cons, collect_cons_body place, rest]
      rfl

/-! ### Whole logs -/

/-- The topics of a log: that of the event, unless it is anonymous, and then those of the inputs. -/
def topicsOf (e : Event) (inputs : List LoggedInput) : List Word :=
  (if e.isAnonymous then [] else [e.topic]) ++ (indexed inputs).map word

theorem inputTopics_of_anonymous {e : Event} (anonymous : e.isAnonymous = true)
    (topics : List Word) : e.inputTopics topics = .ok topics :=
  if_pos anonymous

theorem inputTopics_cons {e : Event} (named : e.isAnonymous = false) (topics : List Word) :
    e.inputTopics (e.topic :: topics) = .ok topics :=
  (if_neg (Bool.not_eq_true _ ▸ named)).trans (if_pos rfl)

theorem inputTopics_nil {e : Event} (named : e.isAnonymous = false) :
    ∃ err, e.inputTopics [] = .error err ∧ err.kind = .malformedData :=
  ⟨_, if_neg (Bool.not_eq_true _ ▸ named), rfl⟩

theorem inputTopics_of_ne {e : Event} (named : e.isAnonymous = false) {other : Word}
    (ne : other ≠ e.topic) (topics : List Word) :
    ∃ err, e.inputTopics (other :: topics) = .error err ∧ err.kind = .malformedData :=
  ⟨_, (if_neg (Bool.not_eq_true _ ▸ named)).trans (if_neg ne), rfl⟩

theorem inputTopics_topicsOf (e : Event) (inputs : List LoggedInput) :
    e.inputTopics (e.topicsOf inputs) = .ok ((indexed inputs).map word) := by
  rw [topicsOf]
  cases place : e.isAnonymous with
  | true => exact inputTopics_of_anonymous place _
  | false => exact inputTopics_cons place _

/-- Fewer topics are none at all, which only an anonymous event takes, or too few for the inputs. -/
theorem inputTopics_take {e : Event} {k : Nat} (few : k < (e.topicsOf inputs).length) :
    (∃ err, e.inputTopics ((e.topicsOf inputs).take k) = .error err ∧ err.kind = .malformedData) ∨
      ∃ j < (indexed inputs).length,
        e.inputTopics ((e.topicsOf inputs).take k) = .ok (((indexed inputs).map word).take j) := by
  rw [topicsOf] at few ⊢
  cases place : e.isAnonymous with
  | true =>
    rw [place, if_pos rfl, List.nil_append, List.length_map] at few
    exact .inr ⟨k, few, inputTopics_of_anonymous place _⟩
  | false =>
    rw [place, if_neg Bool.false_ne_true, List.length_append, List.length_map, Nat.add_comm] at few
    cases k with
    | zero => exact .inl (inputTopics_nil place)
    | succ k => exact .inr ⟨k, Nat.lt_of_succ_lt_succ few, inputTopics_cons place _⟩

theorem decodeLog_of_refused {e : Event} {topics : List Word} {err : AbiError}
    (refused : e.inputTopics topics = .error err) (data : Bytes) :
    e.decodeLog topics data = .error err := by
  rw [decodeLog, refused]
  rfl

/-- The data of a log, and the topics that are left for its inputs, are all that it is read from. -/
theorem decodeLog_eq {e : Event} (declared : e.inputs = inputs.map type) {topics rest : List Word}
    (left : e.inputTopics topics = .ok rest)
    (canonical : Layout.CanonicalForms ((body inputs).map layout) ((body inputs).map value) forms)
    {data : Bytes}
    (starts : Child.layOut (Layout.children ((body inputs).map layout) forms) <+: data)
    (small : data.length < 2 ^ 63) :
    e.decodeLog topics data =
      (collect data.length 0 (inputs.map type) rest forms).bind fun values =>
        (Record.ofParts? (e.inputs.map AbiType.name) values).elim (.error (.internal .record))
          .ok := by
  have types : e.inputs.filter (fun t => !t.isIndexed) = (body inputs).map type := by
    rw [declared, List.filter_map]
    rfl
  have decoded := decode_of_forms (layoutsOf_types (body inputs)) (allSized_layouts (body inputs))
    canonical starts small false
  rw [decodeLog, left]
  dsimp only [bind, Except.bind]
  rw [types, decoded, declared]
  simp only [canonical.values_zip]
  cases collect data.length 0 (inputs.map type) rest forms with
  | error err => rfl
  | ok values =>
    dsimp only
    cases Record.ofParts? ((inputs.map type).map AbiType.name) values <;> rfl

/-- A log decodes to one value for each input, in the order of the inputs and under their names. It
is refused when topics at its end are missing, and when it starts with another topic than that of
the event. -/
theorem decodeLog_encode {e : Event} {inputs : List LoggedInput}
    (declared : e.inputs = inputs.map type) {data : Bytes}
    (encoded : encode .standard (((body inputs).map type).map .tree) ((body inputs).map value) =
      .ok data)
    (small : data.length < 2 ^ 63) :
    (∃ kept, List.Forall₂ Returns inputs kept ∧
        e.decodeLog (e.topicsOf inputs) data = .ok ((e.inputs.map AbiType.name).zip kept)) ∧
      (∀ k < (e.topicsOf inputs).length, ∃ err,
        e.decodeLog ((e.topicsOf inputs).take k) data = .error err ∧ err.kind = .malformedData) ∧
      (e.isAnonymous = false → ∀ other ≠ e.topic, ∀ topics, ∃ err,
        e.decodeLog (other :: topics) data = .error err ∧ err.kind = .malformedData) := by
  obtain ⟨forms, canonical, rfl⟩ := forms_of_encode (layoutsOf_types (body inputs)) encoded
  have decode {topics rest : List Word} (left : e.inputTopics topics = .ok rest) :=
    decodeLog_eq declared left canonical List.prefix_rfl small
  refine ⟨?_, fun k few => ?_, fun named other ne topics => ?_⟩
  · obtain ⟨kept, all, collected⟩ := collect_of_forms canonical _ 0
    refine ⟨kept, all, ?_⟩
    have same : (e.inputs.map AbiType.name).length = kept.length := by
      rw [List.length_map, declared, List.length_map, all.length_eq]
    have parts : Record.ofParts? (e.inputs.map AbiType.name) kept =
        some ((e.inputs.map AbiType.name).zip kept) := if_pos same
    rw [decode (e.inputTopics_topicsOf inputs), collected, Except.bind, parts, Option.elim_some]
  · rcases inputTopics_take few with ⟨err, refused, kind⟩ | ⟨j, fewer, left⟩
    · exact ⟨err, decodeLog_of_refused refused _, kind⟩
    · obtain ⟨err, missing, kind⟩ := collect_of_few canonical _ 0 fewer
      refine ⟨err, ?_, kind⟩
      rw [decode left, missing]
      rfl
  · obtain ⟨err, refused, kind⟩ := inputTopics_of_ne named ne topics
    exact ⟨err, decodeLog_of_refused refused _, kind⟩

set_option maxRecDepth 2000 in
/-- A log of a text, a number and a flag, of which only the number is in the data. -/
theorem decodeLog_encode_flagged :
    let e : Event := { name := "put", inputs := [
      .elementary { name := "note", indexed := some true } "string",
      .elementary { name := "count" } "uint8",
      .elementary { name := "flag", indexed := some true } "bool"] }
    e.decodeLog [e.topic, 5, 1] (Word.toBytes 7) = .ok [
        (some "note", .fixedBytes (Word.toBytes 5)), (some "count", .uint 7),
        (some "flag", .bool true)] ∧
      ∃ err, e.decodeLog [e.topic, 5] (Word.toBytes 7) = .error err ∧
        err.kind = .malformedData := by
  intro e
  let note : LoggedInput := ⟨.elementary { name := "note", indexed := some true } "string",
    .string (some "note"), .string "a", 5, rfl, rfl, fun _ shown => absurd shown (by decide)⟩
  let count : LoggedInput := ⟨.elementary { name := "count" } "uint8",
    .number (some "count") ⟨1, by decide, by decide⟩ false, .int 7, 0, rfl, rfl,
    fun place => absurd place (by decide)⟩
  let flag : LoggedInput := ⟨.elementary { name := "flag", indexed := some true } "bool",
    .bool (some "flag"), .bool true, 1, rfl, rfl, fun _ _ => ⟨Word.toBytes 1, rfl, List.prefix_rfl⟩⟩
  obtain ⟨⟨kept, returns, decoded⟩, dropped, _⟩ :=
    @decodeLog_encode e [note, count, flag] rfl (Word.toBytes 7) rfl (Word.length_toBytes_lt 7)
  obtain _ | ⟨first, _ | ⟨second, _ | ⟨third, _ | _⟩⟩⟩ := returns
  cases first
  cases second
  cases third
  exact ⟨decoded, dropped 2 (by decide)⟩

end Event

end AbiCodec
