import AbiCodec.Proofs.ParallelReading
import AbiCodec.Proofs.WriteOutcomes

/-!
# The canonical text gives the wire format

Types that are read off texts and have the same canonical text differ in labels
only, since the reader takes the canonical text back to the type without labels.
With labels left aside, both are accepted or both refused. Both encode a value
without structs to the same bytes, and both decode any data to the same values,
or both fail for the same reason.
-/

namespace AbiCodec

namespace AbiType

/-- Types that were read and have the same canonical text are the same without labels. -/
theorem unlabelled_eq_of_canonicalText {p q : AbiType} (first : p = .empty {} ∨ p.Spelled)
    (second : q = .empty {} ∨ q.Spelled) (same : p.canonicalText = q.canonicalText) :
    p.unlabelled = q.unlabelled := by
  have texts : p.text .canonical = q.text .canonical := String.ofList_injective same
  rcases first with rfl | left
  · rcases second with rfl | right
    · rfl
    · exact absurd texts.symm (right.text_ne_nil .canonical)
  · rcases second with rfl | right
    · exact absurd texts (left.text_ne_nil .canonical)
    · have readLeft := TypeText.parameter_whole .canonical left (Nat.le_max_left _ q.levels)
      have readRight := TypeText.parameter_whole .canonical right (Nat.le_max_right p.levels _)
      rw [texts, readRight] at readLeft
      exact (congrArg Prod.fst (Except.ok.inj readLeft)).symm

end AbiType

/-- The hook gives values that are the same for values that are the same, whatever their names. -/
def Hook.IgnoresNames (hook : Option Hook) : Prop :=
  ∀ f, hook = some f → ∀ kind v w, v.same w = true → (f kind v).same (f kind w) = true

theorem Hook.IgnoresNames.applied {hook : Option Hook} (ignores : Hook.IgnoresNames hook)
    (kind : String) {v w : Value} (same : v.unnamed = w.unnamed) :
    (Hook.applied hook kind v).unnamed = (Hook.applied hook kind w).unnamed := by
  cases hook with
  | none => exact same
  | some f =>
    exact (Value.same_iff _ _).1 (ignores f rfl kind v w ((Value.same_iff v w).2 same))

namespace Layout

/-- The values are equal without their names. -/
def SameValues (_ : Layout) (v w : Value) : Prop := v.unnamed = w.unnamed

theorem unnamedItems_of_relatedAll {components : List Layout} {vs ws : List Value}
    (related : RelatedAll SameValues components vs ws) :
    Value.unnamedItems vs = Value.unnamedItems ws := by
  induction related with
  | nil => rfl
  | cons first _ ih => rw [Value.unnamedItems, Value.unnamedItems, first, ih]

theorem unnamedEntries_zip {names : List (Option String)} {values : List Value}
    (same : values.length = names.length) : Value.unnamedEntries (names.zip values) =
      (Value.unnamedItems values).map fun v => (none, v) := by
  induction names generalizing values with
  | nil =>
    rw [List.eq_nil_of_length_eq_zero same]
    rfl
  | cons name names ih =>
    cases values with
    | nil => rfl
    | cons v values =>
      rw [List.zip_cons_cons, Value.unnamedEntries, ih (Nat.succ.inj same), Value.unnamedItems,
        List.map_cons]

theorem unnamedEntries_of_relatedAll {components : List Layout} {vs ws : List Value}
    (related : RelatedAll SameValues components vs ws) (f f' : Layout → Option String) :
    Value.unnamedEntries ((components.map f).zip vs) =
      Value.unnamedEntries ((components.map f').zip ws) := by
  obtain ⟨left, right⟩ := related.length_eq
  rw [unnamedEntries_zip (by rw [List.length_map, left]),
    unnamedEntries_zip (by rw [List.length_map, right]), unnamedItems_of_relatedAll related]

theorem carries_sameValues {hook : Option Hook} (ignores : Hook.IgnoresNames hook)
    (f : Option String → Option String) : Carries hook hook f SameValues where
  leaf _ _ _ := rfl
  array related := by
    apply ignores.applied
    rw [Value.unnamed, Value.unnamed, unnamedItems_of_relatedAll related]
  tuple related := by
    apply ignores.applied
    rw [Value.unnamed, Value.unnamed]
    exact congrArg Value.tuple (unnamedEntries_of_relatedAll related _ _)

end Layout

theorem layoutsOf_tree_cons (settings : Settings) (t : AbiType) (types : List TypeSource) :
    layoutsOf settings (.tree t :: types) = (do
      let l ← Layout.ofType settings t
      let rest ← layoutsOf settings types
      .ok (l :: rest)) := by
  rw [layoutsOf, List.mapM_cons]
  rfl

theorem layoutsOf_unlabelled (settings : Settings) (types : List AbiType) :
    layoutsOf settings (types.map fun t => .tree t.unlabelled) =
      (layoutsOf settings (types.map .tree)).map (Layout.renameAll fun _ => none) := by
  induction types with
  | nil => rfl
  | cons t types ih =>
    rw [List.map_cons, List.map_cons, layoutsOf_tree_cons, layoutsOf_tree_cons, ih,
      Layout.ofType_unlabelled]
    cases Layout.ofType settings t with
    | error e => rfl
    | ok l => cases layoutsOf settings (types.map .tree) <;> rfl

/-- Labels have no say in the encoding of values without structs. -/
theorem encode_unlabelled (settings : Settings) (types : List AbiType) {values : List Value}
    (plain : ∀ v ∈ values, v.hasStruct = false) :
    (encode settings (types.map fun t => .tree t.unlabelled) values).mapError AbiError.kind =
      (encode settings (types.map .tree) values).mapError AbiError.kind := by
  unfold encode
  rw [layoutsOf_unlabelled, List.length_map, List.length_map]
  split
  · cases layoutsOf settings (types.map .tree) with
    | error e => rfl
    | ok layouts =>
      have same := Layout.sameSlots fun c (_ : c ∈ layouts) v member =>
        Layout.writesAlike (fun _ => none) c (plain v member)
      have length : (Layout.renameAll (fun _ => none) layouts).length = layouts.length := by
        rw [Layout.renameAll_eq_map, List.length_map]
      change (outputOf _).mapError AbiError.kind = (outputOf _).mapError AbiError.kind
      rw [mapError_outputOf, mapError_outputOf, Layout.encodeAll, Layout.encodeAll, length]
      split
      · rw [Block.outcome_write same]
      · rfl
  · rfl

/-- Labels have no say in what is decoded, but for the names in it. -/
theorem decode_unlabelled (settings : Settings) {hook : Option Hook}
    (ignores : Hook.IgnoresNames hook) (types : List AbiType) (data : Bytes) (isLoose : Bool) :
    Alike (fun r s => Value.unnamedEntries r = Value.unnamedEntries s)
      (decode settings hook (types.map .tree) data isLoose)
      (decode settings hook (types.map fun t => .tree t.unlabelled) data isLoose) := by
  unfold decode
  rw [layoutsOf_unlabelled]
  cases layoutsOf settings (types.map .tree) with
  | error e => exact .error e
  | ok layouts =>
    have carries := Layout.carries_sameValues ignores fun _ => none
    obtain ⟨x, y, after, left, right, alike⟩ :=
      Layout.parallel_decodeAll (fun c (_ : c ∈ layouts) => Layout.parallel_decode carries c)
        (Reader.start data isLoose hook settings.maxInflation)
    change Alike _ (decodeFrom layouts settings hook data isLoose).1
      (decodeFrom (Layout.renameAll (fun _ => none) layouts) settings hook data isLoose).1
    have first : (decodeFrom layouts settings hook data isLoose).1 = x := congrArg Prod.fst left
    have second : (decodeFrom (Layout.renameAll (fun _ => none) layouts) settings hook data
        isLoose).1 = y := congrArg Prod.fst right
    rw [first, second]
    cases alike with
    | error e => exact .error e
    | ok related =>
      obtain ⟨vs, ws, values, rfl, rfl⟩ := related
      exact .ok (Layout.unnamedEntries_of_relatedAll values _ _)

/-- Types that were read from texts and have the same canonical text differ in names and flags
only. Under all settings both are accepted or both refused. A value without structs encodes to the
same bytes under both, or fails with the same kind of error. All data decodes to records that are
equal up to names, or fails with the same error. -/
theorem format_of_canonicalText {s t : String} {p q : AbiType} (first : AbiType.parse s = .ok p)
    (second : AbiType.parse t = .ok q) (same : p.canonicalText = q.canonicalText) :
    p.unlabelled = q.unlabelled ∧ ∀ settings : Settings,
      (Layout.ofType settings p).isOk = (Layout.ofType settings q).isOk ∧
      (∀ v : Value, v.hasStruct = false →
        (encode settings [.tree p] [v]).mapError AbiError.kind =
          (encode settings [.tree q] [v]).mapError AbiError.kind) ∧
      ∀ (hook : Option Hook) (data : Bytes) (isLoose : Bool), Hook.IgnoresNames hook →
        Alike (fun r r' => Record.same r r' = true) (decode settings hook [.tree p] data isLoose)
          (decode settings hook [.tree q] data isLoose) := by
  have bare := AbiType.unlabelled_eq_of_canonicalText (AbiType.spelled_of_parse first)
    (AbiType.spelled_of_parse second) same
  refine ⟨bare, fun settings => ⟨?_, fun v plain => ?_, fun hook data isLoose ignores => ?_⟩⟩
  · have accepted (t : AbiType) :
        (Layout.ofType settings t).isOk = (Layout.ofType settings t.unlabelled).isOk := by
      rw [Layout.ofType_unlabelled]
      cases Layout.ofType settings t <;> rfl
    rw [accepted p, accepted q, bare]
  · have encoded (t : AbiType) : (encode settings [.tree t.unlabelled] [v]).mapError AbiError.kind =
        (encode settings [.tree t] [v]).mapError AbiError.kind :=
      encode_unlabelled settings [t] (List.forall_mem_singleton.2 plain)
    rw [← encoded p, ← encoded q, bare]
  · have left := decode_unlabelled settings ignores [p] data isLoose
    have right := decode_unlabelled settings ignores [q] data isLoose
    simp only [List.map_cons, List.map_nil, bare] at left right
    exact left.join right fun r r' _ toBare fromBare =>
      (Record.same_iff r r').2 (toBare.trans fromBare.symm)

/-- A tuple with labels and the one that has none. -/
theorem format_of_canonicalText_transfer :
    let p : AbiType := .tuple { name := "call" }
      [.elementary { name := "to" } "address", .array { name := "ids" } (.named "uint") .dynamic]
    let q : AbiType := .tuple {} [.named "address", .arrayOf (.named "uint") .dynamic]
    AbiType.parse "tuple(address to, uint256[] ids) call" = .ok p ∧
      AbiType.parse "(address,uint256[])" = .ok q ∧ p.canonicalText = q.canonicalText ∧
      p.unlabelled = q.unlabelled ∧
      (encode {} [.tree p] [.array [.address 7, .array []]]).mapError AbiError.kind =
        (encode {} [.tree q] [.array [.address 7, .array []]]).mapError AbiError.kind ∧
      Alike (fun r r' => Record.same r r' = true) (decode {} none [.tree p] [1, 2] true)
        (decode {} none [.tree q] [1, 2] true) := by
  intro p q
  have address : (AbiType.named "address").Spelled :=
    ⟨Label.spelled_empty, .of_all rfl (by decide), by decide, by decide, by decide⟩
  have uint : (AbiType.named "uint").Spelled :=
    ⟨Label.spelled_empty, .of_all rfl (by decide), by decide, by decide, by decide⟩
  have owner : ({ name := "to" } : Label).Spelled :=
    Label.spelled_name (.of_all rfl (by decide)) (by decide) (by decide)
  have ids : ({ name := "ids" } : Label).Spelled :=
    Label.spelled_name (.of_all rfl (by decide)) (by decide) (by decide)
  have call : ({ name := "call" } : Label).Spelled :=
    Label.spelled_name (.of_all rfl (by decide)) (by decide) (by decide)
  have labelled : p.Spelled := ⟨call, address.withLabel owner, ⟨ids, uint, rfl, nofun⟩, trivial⟩
  have unlabelled : q.Spelled :=
    ⟨Label.spelled_empty, address, ⟨Label.spelled_empty, uint, rfl, nofun⟩, trivial⟩
  have full : trim "tuple(address to, uint256[] ids) call".toList = p.text .full := rfl
  have canonical : trim "(address,uint256[])".toList = q.text .canonical := rfl
  have first : AbiType.parse "tuple(address to, uint256[] ids) call" = .ok p :=
    AbiType.parse_of_text labelled (by decide) full
  have second : AbiType.parse "(address,uint256[])" = .ok q :=
    AbiType.parse_of_text unlabelled (by decide) canonical
  have same : p.canonicalText = q.canonicalText := rfl
  obtain ⟨alike, format⟩ := format_of_canonicalText first second same
  exact ⟨first, second, same, alike, (format {}).2.1 _ (by decide), (format {}).2.2 _ _ _ nofun⟩

end AbiCodec
