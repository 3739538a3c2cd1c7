import AbiCodec.Proofs.DecodeSafety
import AbiCodec.Proofs.Lockstep
import AbiCodec.Proofs.MissingPadding
import AbiCodec.Proofs.ReadExtent

/-!
# Truncated encodings

Strictly read, no proper start of an encoding is one. Loosely read, an encoding
may lack the padding of the payload that ends it, or some of it, and nothing else.
-/

namespace AbiCodec

namespace Layout

/-- The padded payload of a byte string or a text in the values ends their encoding. -/
def EncodingEndsWith (layouts : List Layout) (values : List Value) (payload : Bytes) : Prop :=
  ∃ forms, canonicalAll? layouts values = some forms ∧ EndsWithin layouts forms payload

/-- The encoding may lack its last bytes for a loose reader: there are none of them, or they are
padding of a payload that ends it. -/
def MayLack (layouts : List Layout) (values : List Value) (count : Nat) : Prop :=
  count = 0 ∨ ∃ payload, EncodingEndsWith layouts values payload ∧ payload ≠ [] ∧
    count ≤ (Bytes.padding payload.length).length

variable {layouts : List Layout} {values forms : List Value}

theorem encodingEndsWith_iff (solid : anyVoid layouts = false)
    (h : CanonicalForms layouts values forms) (payload : Bytes) :
    EncodingEndsWith layouts values payload ↔ finalPayloadOf? layouts forms = some payload := by
  have solid := hasVoid_of_mem solid
  rw [EncodingEndsWith, canonicalAll?_eq_some_iff.2 h,
    ← endsWithin_iff (fun c member _ _ => endsWith_iff (solid c member)) solid h]
  simp

theorem mayLack_iff (solid : anyVoid layouts = false) (h : CanonicalForms layouts values forms)
    (count : Nat) :
    MayLack layouts values count ↔ count ≤ Reading.slack (finalPayloadOf? layouts forms) true := by
  simp only [MayLack, encodingEndsWith_iff solid h]
  cases finalPayloadOf? layouts forms with
  | none => simp [Reading.slack]
  | some payload =>
    rw [Reading.slack, if_pos rfl]
    constructor
    · rintro (rfl | ⟨_, same, _, le⟩)
      · exact Nat.zero_le _
      · cases same
        exact le
    · intro le
      by_cases empty : payload = []
      · left
        rw [empty] at le
        exact Nat.le_zero.1 le
      · exact Or.inr ⟨payload, rfl, empty, le⟩

end Layout

open Layout

variable {settings : Settings} {layouts : List Layout} {values forms : List Value}
  {part more : Bytes}

/-- A decoder that gives a record has read the whole encoding, up to what may be missing. -/
theorem length_le_of_decodeFrom (h : CanonicalForms layouts values forms)
    (small : (Child.layOut (children layouts forms)).length < 2 ^ 63)
    (split : part ++ more = Child.layOut (children layouts forms)) {hook : Option Hook}
    {isLoose : Bool} {record : Record} {after : Reader}
    (decoded : decodeFrom layouts settings hook part isLoose = (.ok record, after)) :
    more.length ≤ Reading.slack (finalPayloadOf? layouts forms) isLoose := by
  have reaches := reaches_decodeAll (fun c _ _ _ => demands_of_canonical) h small
  have faces : (Reader.start part isLoose hook settings.maxInflation).Faces
      (Child.layOut (children layouts forms)) := ⟨[], by
    rw [List.append_nil, ← split]
    exact List.prefix_append _ _⟩
  have enough := reaches faces decoded
  have whole : (Reader.start part isLoose hook settings.maxInflation).rest = part := rfl
  rw [whole, ← split, List.length_append] at enough
  exact Nat.le_of_add_le_add_left enough

/-- Without a hook, the padding that may be missing is not missed. -/
theorem decodeFrom_of_missing (settings : Settings) (sized : allSized layouts = true)
    (h : CanonicalForms layouts values forms)
    (split : part ++ more = Child.layOut (children layouts forms)) (small : part.length < 2 ^ 63)
    (le : more.length ≤ Reading.slack (finalPayloadOf? layouts forms) true) :
    ∃ record after, decodeFrom layouts settings none part true = (.ok record, after) := by
  cases final : finalPayloadOf? layouts forms with
  | none =>
    rw [final] at le
    have none := List.eq_nil_of_length_eq_zero (Nat.le_zero.1 le)
    rw [none, List.append_nil] at split
    rw [split] at small ⊢
    obtain ⟨after, decoded, _⟩ := decodeFrom_of_forms sized h settings small true
    exact ⟨_, after, decoded⟩
  | some payload =>
    rw [final, Reading.slack, if_pos rfl] at le
    have reads := readsCut_decodeAll (readForms_of_allSized sized)
      (fun c member _ _ _ => readsCut_of_canonical (isSized_of_mem sized member)) h final
    have ends : (Reader.start part true none settings.maxInflation).Ends part :=
      ⟨start_holds small true settings.maxInflation, rfl, rfl⟩
    obtain ⟨moved, spent, _, decoded⟩ := reads split le ends
    exact ⟨_, _, decoded⟩

/-- A hook lets through what decodes without one, and to the same values as from data that go on
further. -/
theorem decodeFrom_of_hookless {isLoose : Bool} {record : Record} {after : Reader} (more : Bytes)
    (small : (part ++ more).length < 2 ^ 63)
    (decoded : decodeFrom layouts settings none part isLoose = (.ok record, after))
    (hook : Option Hook) :
    ∃ given, (decodeFrom layouts settings hook part isLoose).1 = .ok given ∧
      (decodeFrom layouts { settings with maxInflation := 0 } hook (part ++ more) true).1 =
        .ok given := by
  have short : (part ++ []).length < 2 ^ 63 := by
    rw [List.append_nil]
    rw [List.length_append] at small
    omega
  obtain ⟨given, end', hooked, _⟩ := decodeFrom_in_step settings none hook short isLoose
    Or.inl (Or.inr ⟨rfl, rfl⟩) decoded
  rw [List.append_nil] at hooked
  obtain ⟨whole, _, further, agree, _⟩ := decodeFrom_in_step
    { settings with maxInflation := 0 } hook hook small true (fun _ => Or.inl rfl) (Or.inl rfl)
    hooked
  refine ⟨given, by rw [hooked], ?_⟩
  rw [further]
  exact congrArg Except.ok (agree rfl)

/-- The record is the same without the padding that may be missing and with it, read loosely or
strictly. -/
theorem decodeFrom_missing_eq (sized : allSized layouts = true)
    (h : CanonicalForms layouts values forms)
    (split : part ++ more = Child.layOut (children layouts forms))
    (small : (Child.layOut (children layouts forms)).length < 2 ^ 63)
    (le : more.length ≤ Reading.slack (finalPayloadOf? layouts forms) true) (hook : Option Hook) :
    ∃ record, (decodeFrom layouts settings hook part true).1 = .ok record ∧
      ∀ isLoose, (decodeFrom layouts settings hook (Child.layOut (children layouts forms))
        isLoose).1 = .ok record := by
  rw [← split] at small
  have short := Nat.lt_of_le_of_lt (List.prefix_append part more).length_le small
  obtain ⟨_, _, decoded⟩ := decodeFrom_of_missing settings sized h split short le
  obtain ⟨record, given, unlimited⟩ := decodeFrom_of_hookless more small decoded hook
  refine ⟨record, given, fun isLoose => ?_⟩
  rw [split] at small unlimited
  obtain ⟨_, whole, _⟩ := decodeFrom_of_forms sized h settings small isLoose
  obtain ⟨other, givenToo, unlimitedToo⟩ :=
    decodeFrom_of_hookless [] (by rwa [List.append_nil]) whole hook
  rw [List.append_nil, unlimited] at unlimitedToo
  rw [givenToo, unlimitedToo]

/-- What gives no record says that the data is malformed. -/
theorem malformed_of_not_ok {hook : Option Hook} {isLoose : Bool} (small : part.length < 2 ^ 63)
    (fails : ∀ record after, decodeFrom layouts settings hook part isLoose ≠ (.ok record, after)) :
    ∃ e, (decodeFrom layouts settings hook part isLoose).1 = .error e ∧
      e.kind = .malformedData := by
  have safe := safe_decodeAll layouts (fun c _ => safe_decode c) _
    (Reader.start_inBounds small isLoose hook settings.maxInflation)
  rcases run : decodeFrom layouts settings hook part isLoose with ⟨outcome, after⟩
  rw [decodeFrom] at run
  rw [run] at safe
  cases outcome with
  | ok record => exact absurd run (fails record after)
  | error e => exact ⟨e, rfl, safe.2⟩

/-- A strict decoder refuses every proper start of an encoding. Under layouts in which the elements
of dynamic arrays take some bytes and the tails of dynamic children do, a loose one gives the same
record without the last bytes when the encoding may lack them, and refuses it otherwise. -/
theorem decode_truncated {types : List TypeSource}
    (accepted : layoutsOf settings types = .ok layouts) {data : Bytes}
    (encoded : encode settings types values = .ok data) (small : data.length < 2 ^ 63)
    (hook : Option Hook) :
    (∀ part, part <+: data → part ≠ data →
      ∃ e, decode settings hook types part false = .error e ∧ e.kind = .malformedData) ∧
    (allSized layouts = true → anyVoid layouts = false →
      (∀ payload, EncodingEndsWith layouts values payload → Bytes.padded payload <:+ data) ∧
      ∀ count ≤ data.length,
        (MayLack layouts values count → ∃ record,
          decode settings hook types (data.take (data.length - count)) true = .ok record ∧
            ∀ isLoose, decode settings hook types data isLoose = .ok record) ∧
        (¬MayLack layouts values count → ∃ e,
          decode settings hook types (data.take (data.length - count)) true = .error e ∧
            e.kind = .malformedData)) := by
  obtain ⟨forms, canonical, rfl⟩ := forms_of_encode accepted encoded
  simp only [decode_eq_decodeFrom accepted]
  refine ⟨?_, fun sized solid => ⟨?_, fun count le => ?_⟩⟩
  · rintro part ⟨more, split⟩ proper
    have short : part.length ≤ _ := (List.prefix_append part more).length_le
    rw [split] at short
    apply malformed_of_not_ok (Nat.lt_of_le_of_lt short small)
    intro record after decoded
    have missing := length_le_of_decodeFrom canonical small split decoded
    rw [Reading.slack_false] at missing
    rw [List.eq_nil_of_length_eq_zero (Nat.le_zero.1 missing), List.append_nil] at split
    exact proper split
  · intro payload ending
    rw [encodingEndsWith_iff solid canonical] at ending
    exact (suffix_tails (fun c _ v => suffix_wire) ending).trans (List.suffix_append _ _)
  · have split := List.take_append_drop ((Child.layOut (children layouts forms)).length - count)
      (Child.layOut (children layouts forms))
    have missing : ((Child.layOut (children layouts forms)).drop
        ((Child.layOut (children layouts forms)).length - count)).length = count := by
      rw [List.length_drop]
      omega
    have short := Nat.lt_of_le_of_lt (List.length_take_le' ((Child.layOut
      (children layouts forms)).length - count) (Child.layOut (children layouts forms))) small
    rw [mayLack_iff solid canonical]
    constructor
    · intro lacks
      exact decodeFrom_missing_eq sized canonical split small (by rwa [missing]) hook
    · intro lacks
      apply malformed_of_not_ok short
      intro record after decoded
      have most := length_le_of_decodeFrom canonical small split decoded
      rw [missing] at most
      exact lacks most

set_option maxRecDepth 8000 in
/-- Two bytes in a word of their own: without the last byte for a strict decoder, and without the
padding or with a byte less for a loose one. -/
theorem decode_truncated_twoBytes :
    (∃ e, decode {} none [.tree (.elementary {} "bytes")]
      ([32#256, 2#256].flatMap Word.toBytes ++ (1 :: 2 :: List.replicate 29 0)) false = .error e ∧
        e.kind = .malformedData) ∧
    (∃ record, decode {} none [.tree (.elementary {} "bytes")]
      ([32#256, 2#256].flatMap Word.toBytes ++ [1, 2]) true = .ok record ∧
        ∀ isLoose, decode {} none [.tree (.elementary {} "bytes")]
          ([32#256, 2#256].flatMap Word.toBytes ++ (1 :: 2 :: List.replicate 30 0)) isLoose =
            .ok record) ∧
    ∃ e, decode {} none [.tree (.elementary {} "bytes")]
      ([32#256, 2#256].flatMap Word.toBytes ++ [1]) true = .error e ∧ e.kind = .malformedData := by
  have accepted : layoutsOf {} [.tree (.elementary {} "bytes")] = .ok [.bytes none] := rfl
  have encoded : encode {} [.tree (.elementary {} "bytes")] [.bytes [1, 2]] =
      .ok ([32#256, 2#256].flatMap Word.toBytes ++ (1 :: 2 :: List.replicate 30 0)) := rfl
  obtain ⟨strict, loose⟩ := decode_truncated accepted encoded (by decide) none
  obtain ⟨_, cut⟩ := loose rfl rfl
  refine ⟨strict _ ?_ ?_, ?_, ?_⟩
  · decide
  · decide
  · refine (cut 30 (by decide)).1 (Or.inr ⟨[1, 2], ⟨_, rfl, .here rfl rfl .bytes⟩, ?_⟩)
    exact ⟨by decide, by decide⟩
  · apply (cut 31 (by decide)).2
    rintro (impossible | ⟨payload, ⟨forms, same, ending⟩, _, le⟩)
    · cases impossible
    · cases same
      cases ending with
      | here _ _ ending =>
        cases ending
        exact absurd le (by decide)
      | later ending => cases ending

end AbiCodec
