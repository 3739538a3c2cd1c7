import AbiCodec.Proofs.JsonLoop
import AbiCodec.Proofs.KeyedTuples

/-!
# Tuples in JSON by name and by position

A tuple stands in JSON as the array of its values or as an object by the names of
its components. Either way it offers each component a JSON value, or none where
the object lacks the name. Two JSON values are `StatedAlike` for a type when they
differ only in the form of the tuples in them, at whatever depth; where the names
of the components are their own, such values have the same outcome. An object
that lacks a name is refused, and `LacksAfter` lists what is read before that.
-/

namespace AbiCodec

namespace AbiType

mutual

/-- The components of every tuple in the type have names, all of them different. -/
def TuplesKeyed : AbiType → Prop
  | .array _ element _ => element.TuplesKeyed
  | .tuple _ components =>
    none ∉ components.map name ∧ (components.map name).Nodup ∧ AllTuplesKeyed components
  | _ => True

def AllTuplesKeyed : List AbiType → Prop
  | [] => True
  | t :: types => t.TuplesKeyed ∧ AllTuplesKeyed types

end

/-- The JSON value has these values for the components of a tuple: the items of an array, and of an
object the field of each name. -/
inductive Offers (components : List AbiType) : Json → List (Option Json) → Prop where
  | array (items : List Json) : Offers components (.array items) (items.map some)
  | object (fields : List (String × Json)) :
      Offers components (.object fields) (components.map fun c => c.name.bind (Json.field? fields))

mutual

/-- The JSON values are the same, but for the form in which tuples in them are given. -/
def StatedAlike : AbiType → Json → Json → Prop
  | .array _ element _, json, other =>
    json = other ∨ ∃ items others, json = .array items ∧ other = .array others ∧
      List.Forall₂ element.StatedAlike items others
  | .tuple _ components, json, other =>
    json = other ∨ ∃ offered others, Offers components json offered ∧
      Offers components other others ∧ EachStatedAlike components offered others
  | _, json, other => json = other

/-- There is as much on both sides, and what there is for a component is alike for it. -/
def EachStatedAlike : List AbiType → List (Option Json) → List (Option Json) → Prop
  | t :: types, offer :: offered, other :: others =>
    Option.Rel t.StatedAlike offer other ∧ EachStatedAlike types offered others
  | _, offered, others => offered.length = others.length

end

/-- In the JSON value an object in place of a tuple lacks the name of a component, and these values
are read as these types before it is met. -/
inductive LacksAfter : AbiType → Json → List (AbiType × Json) → Prop where
  | missing {label : Label} {before after : List AbiType} {c : AbiType}
    {fields : List (String × Json)} {given : List Json} {rest : List (Option Json)} :
      given.length = before.length →
      Offers (before ++ c :: after) (.object fields) (given.map some ++ none :: rest) →
      LacksAfter (.tuple label (before ++ c :: after)) (.object fields) (before.zip given)
  | component {label : Label} {before after : List AbiType} {c : AbiType} {json item : Json}
    {given : List Json} {rest : List (Option Json)} {earlier : List (AbiType × Json)} :
      given.length = before.length → rest.length = after.length →
      Offers (before ++ c :: after) json (given.map some ++ some item :: rest) →
      LacksAfter c item earlier →
      LacksAfter (.tuple label (before ++ c :: after)) json (before.zip given ++ earlier)
  | element {label : Label} {element : AbiType} {length : ArrayLength} {before rest : List Json}
    {item : Json} {earlier : List (AbiType × Json)} :
      LacksAfter element item earlier →
      LacksAfter (.array label element length) (.array (before ++ item :: rest))
        (before.map (element, ·) ++ earlier)

end AbiType

namespace Value

open AbiType

/-! ### Reading what is offered -/

/-- The value of a component from what there is for it. -/
def valueOffered (absent : AbiType → AbiError) (t : AbiType) : Option Json → Except AbiError Value
  | some json => ofJson t json
  | none => .error (absent t)

def valuesOffered (absent : AbiType → AbiError) (types : List AbiType)
    (offered : List (Option Json)) : Except AbiError (List Value) :=
  (types.zip offered).mapM fun (t, offer) => valueOffered absent t offer

variable {absent : AbiType → AbiError}

theorem valuesOffered_cons (t : AbiType) (types : List AbiType) (offer : Option Json)
    (offered : List (Option Json)) :
    valuesOffered absent (t :: types) (offer :: offered) = (do
      let first ← valueOffered absent t offer
      let others ← valuesOffered absent types offered
      return first :: others) := by
  rw [valuesOffered, List.zip_cons_cons, List.mapM_cons]
  rfl

theorem valuesOffered_map_some (types : List AbiType) (items : List Json) :
    valuesOffered absent types (items.map some) = valuesOfJson types items := by
  rw [valuesOffered, List.zip_map_right, List.mapM_map]
  rfl

/-- The error of a component that the JSON value has nothing for. -/
def absentComponent (t : AbiType) (json : Json) (c : AbiType) : AbiError :=
  mismatch t json <|
    match c.name with
    | some name => .missingComponent name
    | none => .unnamedComponents

/-- The values of the components in the form that goes with the JSON value. -/
def tupleLike (components : List AbiType) : Json → List Value → Value
  | .object _, values => .struct ((components.map fun c => c.name.getD "").zip values)
  | _, values => .tuple ((components.map AbiType.name).zip values)

theorem fieldsOfJson_eq (t : AbiType) (json : Json) (fields : List (String × Json))
    (types : List AbiType) : fieldsOfJson (mismatch t json) fields types =
      (valuesOffered (absentComponent t json) types
        (types.map fun c => c.name.bind (Json.field? fields))).map
          ((types.map fun c => c.name.getD "").zip ·) := by
  induction types with
  | nil => rfl
  | cons c types ih =>
    rw [List.map_cons, List.map_cons, valuesOffered_cons, fieldsOfJson]
    cases named : c.name with
    | none =>
      have refused : absentComponent t json c = mismatch t json .unnamedComponents := by
        rw [absentComponent, named]
      rw [Option.bind_none, valueOffered, refused]
      rfl
    | some name =>
      rw [Option.bind_some]
      dsimp only
      cases found : Json.field? fields name with
      | none =>
        have refused : absentComponent t json c = mismatch t json (.missingComponent name) := by
          rw [absentComponent, named]
        rw [valueOffered, refused]
        rfl
      | some item =>
        dsimp only
        rw [ih, valueOffered]
        cases ofJson c item with
        | error e => rfl
        | ok v =>
          cases valuesOffered (absentComponent t json) types
            (types.map fun c => c.name.bind (Json.field? fields)) <;> rfl

/-- A tuple is read from what is offered to its components, when it is as much as there are. -/
theorem ofJson_tuple {label : Label} {components : List AbiType} {json : Json}
    {offered : List (Option Json)} (offers : Offers components json offered) :
    ofJson (.tuple label components) json =
      if offered.length = components.length then
        (valuesOffered (absentComponent (.tuple label components) json) components offered).map
          (tupleLike components json)
      else .error (.argumentMismatch components.length offered.length json.text) := by
  cases offers with
  | array items =>
    rw [ofJson, List.length_map, valuesOffered_map_some, entriesOfJson_eq]
    cases valuesOfJson components items <;> rfl
  | object fields =>
    rw [ofJson, List.length_map, if_pos rfl, fieldsOfJson_eq]
    generalize valuesOffered _ _ _ = reading
    cases reading <;> rfl

/-! ### Reading JSON values that are stated alike -/

/-- The readings give related values, or fail with errors of one kind. -/
inductive ReadAlike {α β : Type} (related : α → β → Prop) :
    Except AbiError α → Except AbiError β → Prop where
  | ok {x : α} {y : β} : related x y → ReadAlike related (.ok x) (.ok y)
  | error {e e' : AbiError} : e.kind = e'.kind → ReadAlike related (.error e) (.error e')

namespace ReadAlike

variable {α β γ δ : Type} {related : α → β → Prop} {related' : γ → δ → Prop}
  {reading : Except AbiError α} {other : Except AbiError β}

theorem refl {same : α → α → Prop} (each : ∀ x, same x x) (reading : Except AbiError α) :
    ReadAlike same reading reading := by
  cases reading with
  | error e => exact .error rfl
  | ok x => exact .ok (each x)

theorem bind {next : α → Except AbiError γ} {next' : β → Except AbiError δ}
    (first : ReadAlike related reading other)
    (rest : ∀ x y, related x y → ReadAlike related' (next x) (next' y)) :
    ReadAlike related' (reading >>= next) (other >>= next') := by
  cases first with
  | ok values => exact rest _ _ values
  | error kinds => exact .error kinds

/-- The values are those that the readings give. -/
theorem attach (h : ReadAlike related reading other) :
    ReadAlike (fun x y => related x y ∧ reading = .ok x ∧ other = .ok y) reading other := by
  cases h with
  | ok values => exact .ok ⟨values, rfl, rfl⟩
  | error kinds => exact .error kinds

theorem map {f : α → γ} {g : β → δ} (first : ReadAlike related reading other)
    (rest : ∀ x y, related x y → related' (f x) (g y)) :
    ReadAlike related' (reading.map f) (other.map g) := by
  cases first with
  | ok values => exact .ok (rest _ _ values)
  | error kinds => exact .error kinds

/-- What follows two readings alike ends alike when it does after related values. -/
theorem mapError_bind_eq {next : α → Except AbiError γ} {next' : β → Except AbiError γ}
    (first : ReadAlike related reading other)
    (rest : ∀ x y, related x y →
      (next x).mapError AbiError.kind = (next' y).mapError AbiError.kind) :
    (reading >>= next).mapError AbiError.kind = (other >>= next').mapError AbiError.kind := by
  cases first with
  | ok values => exact rest _ _ values
  | error kinds => exact congrArg Except.error kinds

end ReadAlike

/-- The form of the tuples in a JSON value is of no account for the type: values that are stated
alike are read as values that are given alike for the layout. -/
def IgnoresForm (t : AbiType) : Prop :=
  ∀ {limit : Nat} {l : Layout} {json other : Json}, Layout.build limit t = .ok l →
    t.TuplesKeyed → t.StatedAlike json other →
      ReadAlike l.GivenAlike (ofJson t json) (ofJson t other)

theorem readAlike_mapM {element : AbiType} {l : Layout} {items others : List Json}
    (each : List.Forall₂
      (fun json other => ReadAlike l.GivenAlike (ofJson element json) (ofJson element other))
      items others) :
    ReadAlike (List.Forall₂ l.GivenAlike) (items.mapM fun item => ofJson element item)
      (others.mapM fun item => ofJson element item) := by
  induction each with
  | nil => exact .ok .nil
  | cons first _ ih =>
    rw [List.mapM_cons, List.mapM_cons]
    exact first.bind fun v w same => ih.bind fun values others rest => .ok (.cons same rest)

theorem readAlike_valueOffered {t : AbiType} {l : Layout} {absent absent' : AbiType → AbiError}
    {offer other : Option Json} (kinds : (absent t).kind = (absent' t).kind)
    (reads : ∀ json json', t.StatedAlike json json' →
      ReadAlike l.GivenAlike (ofJson t json) (ofJson t json'))
    (alike : Option.Rel t.StatedAlike offer other) :
    ReadAlike l.GivenAlike (valueOffered absent t offer) (valueOffered absent' t other) := by
  cases alike with
  | none => exact .error kinds
  | some same => exact reads _ _ same

theorem eachStatedAlike_nil_iff {offered others : List (Option Json)} :
    EachStatedAlike [] offered others ↔ offered.length = others.length := by
  rw [EachStatedAlike]
  nofun

theorem readAlike_valuesOffered {limit : Nat} {types : List AbiType} {layouts : List Layout}
    {absent absent' : AbiType → AbiError} {offered others : List (Option Json)}
    (kinds : ∀ t, (absent t).kind = (absent' t).kind)
    (reads : ∀ t ∈ types, IgnoresForm t) (built : Layout.Built limit types layouts)
    (keyed : AllTuplesKeyed types) (alike : EachStatedAlike types offered others) :
    ReadAlike (Layout.EachAlike layouts) (valuesOffered absent types offered)
      (valuesOffered absent' types others) ∧ offered.length = others.length := by
  -- Types and layouts go together; what is offered may be more or less than they are, on both sides.
  induction built generalizing offered others with
  | nil =>
    rw [eachStatedAlike_nil_iff] at alike
    exact ⟨.ok rfl, alike⟩
  | @cons t l types layouts first rest ih =>
    cases offered with
    | nil =>
      cases others with
      | nil => exact ⟨.ok rfl, rfl⟩
      | cons other others => cases alike
    | cons offer offered =>
      cases others with
      | nil => cases alike
      | cons other others =>
        rw [EachStatedAlike] at alike
        obtain ⟨tail, length⟩ :=
          ih (fun u member => reads u (List.mem_cons_of_mem t member)) keyed.2 alike.2
        have head : ReadAlike l.GivenAlike (valueOffered absent t offer)
            (valueOffered absent' t other) :=
          readAlike_valueOffered (kinds t)
            (fun _ _ => reads t List.mem_cons_self first keyed.1) alike.1
        rw [valuesOffered_cons, valuesOffered_cons, List.length_cons, List.length_cons, length]
        refine ⟨?_, rfl⟩
        exact head.bind fun v w same => tail.bind fun values others alike => .ok ⟨same, alike⟩

theorem length_of_mapM_eq_ok {α β : Type} {f : α → Except AbiError β} {xs : List α} {ys : List β}
    (read : xs.mapM f = .ok ys) : ys.length = xs.length := by
  induction xs generalizing ys with
  | nil =>
    cases read
    rfl
  | cons x xs ih =>
    rw [List.mapM_cons] at read
    obtain ⟨y, _, read⟩ := exists_of_bind_eq_ok read
    obtain ⟨others, rest, read⟩ := exists_of_bind_eq_ok read
    cases read
    rw [List.length_cons, List.length_cons, ih rest]

theorem length_of_valuesOffered {types : List AbiType} {offered : List (Option Json)}
    {values : List Value} (read : valuesOffered absent types offered = .ok values)
    (length : offered.length = types.length) : values.length = types.length := by
  rw [length_of_mapM_eq_ok read, List.length_zip, length, Nat.min_self]

/-- Components that all have names have the names that their fields are given. -/
theorem map_name_of_named {components : List AbiType} (named : none ∉ components.map AbiType.name) :
    components.map AbiType.name = (components.map fun c => c.name.getD "").map some := by
  rw [List.map_map]
  refine List.map_congr_left fun c member => ?_
  cases name : c.name with
  | none => exact absurd (List.mem_map.2 ⟨c, member, name⟩) named
  | some text => rw [Function.comp_apply, name, Option.getD_some]

/-- A value in the form of the JSON value supplies the components. -/
theorem supplies_tupleLike {components : List AbiType}
    (named : none ∉ components.map AbiType.name) (distinct : (components.map AbiType.name).Nodup)
    (json : Json) {values : List Value} (length : values.length = components.length) :
    Layout.Supplies (components.map AbiType.name) (tupleLike components json values) values := by
  cases json with
  | object fields =>
    rw [map_name_of_named named] at distinct ⊢
    exact .struct_zip (distinct.of_map some) (by rw [List.length_map, length])
  | _ => exact .tuple_zip (by rw [List.length_map, length])

theorem ignoresForm (t : AbiType) : IgnoresForm t := by
  induction t with
  | empty label | elementary label typeName =>
    intro limit l json other built keyed alike
    rw [StatedAlike] at alike
    · rw [alike]
      exact .refl l.givenAlike_refl _
    · nofun
    · nofun
  | array label element length ih =>
    intro limit l json other built keyed alike
    obtain ⟨inner, laid, rfl⟩ := Layout.exists_of_build_array built
    rw [TuplesKeyed] at keyed
    rw [StatedAlike] at alike
    rcases alike with rfl | ⟨items, others, rfl, rfl, each⟩
    · exact .refl (Layout.givenAlike_refl _) _
    · rw [ofJson, ofJson]
      refine (readAlike_mapM (each.imp fun _ _ same => ih laid keyed same)).map ?_
      exact fun values others same => Or.inr ⟨values, others, rfl, rfl, same⟩
  | tuple label components ih =>
    intro limit l json other built keyed alike
    obtain ⟨inner, laid, rfl⟩ := Layout.exists_of_build_tuple built
    rw [TuplesKeyed] at keyed
    obtain ⟨named, distinct, below⟩ := keyed
    rw [StatedAlike] at alike
    rcases alike with rfl | ⟨offered, others, offers, offers', each⟩
    · exact .refl (Layout.givenAlike_refl _) _
    have reading : ReadAlike (Layout.EachAlike inner)
        (valuesOffered (absentComponent (.tuple label components) json) components offered)
        (valuesOffered (absentComponent (.tuple label components) other) components others) ∧
          offered.length = others.length :=
      readAlike_valuesOffered (fun _ => rfl) ih laid below each
    obtain ⟨read, length⟩ := reading
    -- The two forms part only here: both are put together from the values that were read.
    rw [ofJson_tuple offers, ofJson_tuple offers', length]
    split
    · next count =>
      refine read.attach.map ?_
      rintro values values' ⟨same, first, second⟩
      refine Or.inr ⟨values, values', ?_, ?_, same⟩
      · rw [laid.map_name]
        exact supplies_tupleLike named distinct json
          (length_of_valuesOffered first (length.trans count))
      · rw [laid.map_name]
        exact supplies_tupleLike named distinct other (length_of_valuesOffered second count)
    · exact .error rfl

/-! ### Objects that lack a name -/

/-- Reads JSON values as values of types, one after another. -/
def readAll (entries : List (AbiType × Json)) : Except AbiError (List Value) :=
  entries.mapM fun (t, json) => ofJson t json

/-- What is read after the first entries fails, when it does, behind them. -/
theorem mapM_refused {α β γ : Type} {f : α → Except AbiError β} {x : α}
    {reading : Except AbiError γ} {e : AbiError} (refused : f x = reading >>= fun _ => .error e)
    (before after : List α) : (before ++ x :: after).mapM f =
      before.mapM f >>= fun _ => reading >>= fun _ => .error e := by
  rw [List.mapM_append, List.mapM_cons, refused]
  cases before.mapM f with
  | error e => rfl
  | ok ys => cases reading <;> rfl

theorem readAll_append_refused {β : Type} (entries earlier : List (AbiType × Json))
    (e : AbiError) :
    (readAll (entries ++ earlier) >>= fun _ => (.error e : Except AbiError β)) =
      readAll entries >>= fun _ => readAll earlier >>= fun _ => .error e := by
  rw [readAll, readAll, readAll, List.mapM_append]
  cases entries.mapM fun (t, json) => ofJson t json with
  | error e => rfl
  | ok ys => cases earlier.mapM (fun (t, json) => ofJson t json) <;> rfl

theorem map_refused {α β γ : Type} (reading : Except AbiError α) (f : β → γ) (e : AbiError) :
    (reading >>= fun _ => (.error e : Except AbiError β)).map f =
      reading >>= fun _ => .error e := by
  cases reading <;> rfl

theorem valuesOffered_refused {before after : List AbiType} {c : AbiType} {given : List Json}
    {offer : Option Json} {rest : List (Option Json)} {earlier : List (AbiType × Json)}
    {e : AbiError} (length : given.length = before.length)
    (refused : valueOffered absent c offer = readAll earlier >>= fun _ => .error e) :
    valuesOffered absent (before ++ c :: after) (given.map some ++ offer :: rest) =
      readAll (before.zip given ++ earlier) >>= fun _ => .error e := by
  have first : valuesOffered absent before (given.map some) = readAll (before.zip given) :=
    valuesOffered_map_some before given
  have same : before.length = (given.map some).length := by rw [List.length_map, length]
  rw [readAll_append_refused, ← first, valuesOffered, List.zip_append same, List.zip_cons_cons]
  exact mapM_refused (x := (c, offer)) refused _ _

theorem length_of_offers_object {components : List AbiType} {fields : List (String × Json)}
    {offered : List (Option Json)} (offers : Offers components (.object fields) offered) :
    offered.length = components.length := by
  cases offers
  exact List.length_map _

/-- Behind the values read before it an object that lacks a name is an invalid value. -/
theorem ofJson_refused {t : AbiType} {json : Json} {earlier : List (AbiType × Json)}
    (lacks : t.LacksAfter json earlier) :
    ∃ e, e.kind = .invalidValue ∧ ofJson t json = readAll earlier >>= fun _ => .error e := by
  induction lacks with
  | @missing label before after c fields given rest length offers =>
    generalize absent_eq :
      absentComponent (.tuple label (before ++ c :: after)) (.object fields) = absent
    have refused : valueOffered absent c none = readAll [] >>= fun _ => .error (absent c) := rfl
    refine ⟨absent c, absent_eq ▸ rfl, ?_⟩
    rw [ofJson_tuple offers, if_pos (length_of_offers_object offers), absent_eq,
      valuesOffered_refused length refused, List.append_nil, map_refused]
  | @component label before after c json item given rest earlier length length' offers _ ih =>
    obtain ⟨e, kind, refused⟩ := ih
    have whole : (given.map some ++ some item :: rest).length = (before ++ c :: after).length := by
      simp only [List.length_append, List.length_map, List.length_cons, length, length']
    have read : valueOffered (absentComponent (.tuple label (before ++ c :: after)) json) c
        (some item) = readAll earlier >>= fun _ => .error e := refused
    refine ⟨e, kind, ?_⟩
    rw [ofJson_tuple offers, if_pos whole, valuesOffered_refused length read, map_refused]
  | @element label element length before rest item earlier _ ih =>
    obtain ⟨e, kind, refused⟩ := ih
    have first : readAll (before.map (element, ·)) =
        before.mapM fun item => ofJson element item := by
      rw [readAll, List.mapM_map]
      rfl
    refine ⟨e, kind, ?_⟩
    rw [readAll_append_refused, first, ofJson, mapM_refused refused]
    cases before.mapM fun item => ofJson element item with
    | error e => rfl
    | ok values => cases readAll earlier <;> rfl

end Value

/-! ### Objects and arrays -/

namespace AbiType

theorem statedAlike_refl (t : AbiType) (json : Json) : t.StatedAlike json json := by
  cases t with
  | array label element length => exact Or.inl rfl
  | tuple label components => exact Or.inl rfl
  | _ => rfl

theorem eachStatedAlike_refl (types : List AbiType) (offered : List (Option Json)) :
    EachStatedAlike types offered offered := by
  induction types generalizing offered with
  | nil => rfl
  | cons t types ih =>
    cases offered with
    | nil => rfl
    | cons offer offered =>
      refine ⟨?_, ih offered⟩
      cases offer with
      | none => exact .none
      | some json => exact .some (t.statedAlike_refl json)

/-- An object with all names of the components is stated like the array of its values in the order
of the components. -/
theorem statedAlike_object_array (label : Label) {components : List AbiType}
    {fields : List (String × Json)} {items : List Json}
    (complete : components.map (fun c => c.name.bind (Json.field? fields)) = items.map some) :
    (AbiType.tuple label components).StatedAlike (.object fields) (.array items) := by
  refine Or.inr ⟨_, _, .object fields, .array items, ?_⟩
  rw [complete]
  exact eachStatedAlike_refl _ _

/-- Before the first component that an object has nothing for there are values. -/
theorem exists_first_missing (lookup : AbiType → Option Json) {components : List AbiType}
    {c : AbiType} (member : c ∈ components) (missing : lookup c = none) :
    ∃ before d after, ∃ given : List Json, components = before ++ d :: after ∧
      before.map lookup = given.map some ∧ lookup d = none := by
  induction components with
  | nil => cases member
  | cons t components ih =>
    cases found : lookup t with
    | none => exact ⟨[], t, components, [], rfl, rfl, found⟩
    | some json =>
      rcases List.mem_cons.1 member with rfl | member
      · rw [missing] at found
        cases found
      · obtain ⟨before, d, after, given, rfl, values, none⟩ := ih member
        refine ⟨t :: before, d, after, json :: given, rfl, ?_, none⟩
        rw [List.map_cons, List.map_cons, found, values]

/-- Every object that lacks the name of a component does so behind the values before the first. -/
theorem exists_lacksAfter (label : Label) {components : List AbiType} {c : AbiType}
    {fields : List (String × Json)} (member : c ∈ components)
    (missing : c.name.bind (Json.field? fields) = none) :
    ∃ earlier, (AbiType.tuple label components).LacksAfter (.object fields) earlier := by
  obtain ⟨before, d, after, given, rfl, values, none⟩ :=
    exists_first_missing (fun t => t.name.bind (Json.field? fields)) member missing
  have length : given.length = before.length := by
    rw [← List.length_map some, ← values, List.length_map]
  have offers : Offers (before ++ d :: after) (.object fields) _ := .object fields
  rw [List.map_append, List.map_cons, values, none] at offers
  exact ⟨_, .missing length offers⟩

end AbiType

/-- Values that are given alike for the layouts are encoded alike. -/
theorem mapError_encode_of_eachAlike {settings : Settings} {types : List TypeSource}
    {layouts : List Layout} (accepted : layoutsOf settings types = .ok layouts)
    {values others : List Value} (alike : Layout.EachAlike layouts values others) :
    (encode settings types values).mapError AbiError.kind =
      (encode settings types others).mapError AbiError.kind := by
  obtain ⟨same, length⟩ :=
    Layout.forall₂_sameSlot (fun _ _ _ _ => Layout.outcome_encode_of_givenAlike) alike
  have outcomes : (Layout.encodeAll layouts values).outcome =
      (Layout.encodeAll layouts others).outcome := by
    rw [Layout.encodeAll, Layout.encodeAll]
    apply Layout.outcome_components same rfl length
    rfl
  by_cases count : types.length = values.length
  · rw [encode_eq_outputOf accepted count, encode_eq_outputOf accepted (count.trans length),
      mapError_outputOf, mapError_outputOf, outcomes]
  · have count' : ¬types.length = others.length := length ▸ count
    rw [encode, encode, if_neg count, if_neg count']
    rfl

/-- Arguments that differ only in the form of their tuples are encoded to the same bytes or refused
for errors of one kind, when the components of every tuple type have names of their own. An object
that lacks the name of a component is an invalid value, once everything before it has been read;
and an object in place of a tuple lacks a name when there is a component without its field. -/
theorem encodeJson_statedAlike {settings : Settings} {types : List TypeSource}
    {layouts : List Layout} (accepted : layoutsOf settings types = .ok layouts) :
    ∃ trees, types.mapM TypeSource.resolve = .ok trees ∧
      (AbiType.AllTuplesKeyed trees → ∀ items others : List Json,
        AbiType.EachStatedAlike trees (items.map some) (others.map some) →
          (encodeJson settings types items).mapError AbiError.kind =
            (encodeJson settings types others).mapError AbiError.kind) ∧
      (∀ before t after given json rest earlier, trees = before ++ t :: after →
        given.length = before.length → rest.length = after.length →
        AbiType.LacksAfter t json earlier →
          ∃ e, e.kind = .invalidValue ∧ encodeJson settings types (given ++ json :: rest) =
            Value.readAll (before.zip given ++ earlier) >>= fun _ => .error e) ∧
      ∀ label components fields, (∃ c ∈ components, c.name.bind (Json.field? fields) = none) →
        ∃ earlier, AbiType.LacksAfter (.tuple label components) (.object fields) earlier := by
  obtain ⟨trees, resolved, sameTypes, laid⟩ := exists_of_layoutsOf accepted
  have asTrees := layoutsOf_map_tree_eq_ok_iff.2 laid
  refine ⟨trees, resolved, fun keyed items others alike => ?_, ?_, ?_⟩
  · have built : Layout.Built settings.maxStaticWords trees layouts :=
      laid.imp fun _ _ => Layout.build_of_ofType
    have reading : Value.ReadAlike (Layout.EachAlike layouts)
        (Value.valuesOffered (fun _ => default) trees (items.map some))
        (Value.valuesOffered (fun _ => default) trees (others.map some)) ∧
          (items.map some).length = (others.map some).length :=
      Value.readAlike_valuesOffered (fun _ => rfl) (fun t _ => Value.ignoresForm t) built keyed
        alike
    obtain ⟨read, length⟩ := reading
    rw [Value.valuesOffered_map_some, Value.valuesOffered_map_some] at read
    rw [List.length_map, List.length_map] at length
    by_cases count : types.length = items.length
    · rw [encodeJson_eq resolved count, encodeJson_eq resolved (count.trans length)]
      exact read.mapError_bind_eq fun _ _ => mapError_encode_of_eachAlike asTrees
    · have count' : ¬types.length = others.length := length ▸ count
      rw [encodeJson, encodeJson, if_neg count, if_neg count']
      rfl
  · rintro before t after given json rest earlier rfl length length' lacks
    obtain ⟨e, kind, refused⟩ := Value.ofJson_refused lacks
    have count : types.length = (given ++ json :: rest).length := by
      simp only [← sameTypes, List.length_append, List.length_cons, length, length']
    have read : Value.valuesOffered (fun _ => default) (before ++ t :: after)
        (given.map some ++ some json :: rest.map some) =
          Value.readAll (before.zip given ++ earlier) >>= fun _ => .error e :=
      Value.valuesOffered_refused length refused
    rw [← List.map_cons, ← List.map_append, Value.valuesOffered_map_some] at read
    refine ⟨e, kind, ?_⟩
    rw [encodeJson_eq resolved count, read]
    cases Value.readAll (before.zip given ++ earlier) <;> rfl
  · rintro label components fields ⟨c, member, missing⟩
    exact AbiType.exists_lacksAfter label member missing

/-- Points by name, an inner one or both, for points by position; and a point without its place. -/
theorem encodeJson_statedAlike_points :
    let place := AbiType.tuple ⟨some "at", none⟩
      [.elementary ⟨some "x", none⟩ "uint8", .elementary ⟨some "y", none⟩ "uint8"]
    let up := AbiType.elementary ⟨some "up", none⟩ "bool"
    let points : List TypeSource := [.tree (.array {} (.tuple {} [up, place]) .dynamic)]
    let byName :=
      Json.object [("x", .number (.natural 1)), ("y", .number (.natural 2)), ("z", .null)]
    let byPosition := Json.array [.number (.natural 1), .number (.natural 2)]
    let flag := Json.bool true
    (encodeJson {} points [.array [.object [("at", byName), ("up", flag)], .array [flag, byName]]]
        ).mapError AbiError.kind =
      (encodeJson {} points [.array [.array [flag, byPosition], .array [flag, byPosition]]]
        ).mapError AbiError.kind ∧
    ∃ e, e.kind = .invalidValue ∧
      encodeJson {} points [.array [.array [flag, byPosition], .object [("up", flag)]]] =
        .error e := by
  intro place up points byName byPosition flag
  have accepted : layoutsOf {} points = .ok [.array none (.tuple none [.bool (some "up"),
      .tuple (some "at") [.number (some "x") ⟨1, by decide, by decide⟩ false,
        .number (some "y") ⟨1, by decide, by decide⟩ false]]) .dynamic] := rfl
  obtain ⟨trees, resolved, alike, lacks, _⟩ := encodeJson_statedAlike accepted
  cases resolved
  have inner : place.StatedAlike byName byPosition :=
    AbiType.statedAlike_object_array _ rfl
  have keyed : AbiType.AllTuplesKeyed [.array {} (.tuple {} [up, place]) .dynamic] := by
    refine ⟨⟨by decide, by decide, trivial, ?_, trivial⟩, trivial⟩
    exact ⟨by decide, by decide, trivial, trivial, trivial⟩
  have both : (AbiType.tuple {} [up, place]).StatedAlike (.object [("at", byName), ("up", flag)])
      (.array [flag, byPosition]) :=
    .inr ⟨_, _, .object _, .array _, .some (up.statedAlike_refl flag), .some inner, rfl⟩
  have one : (AbiType.tuple {} [up, place]).StatedAlike (.array [flag, byName])
      (.array [flag, byPosition]) :=
    .inr ⟨_, _, .array _, .array _, .some (up.statedAlike_refl flag), .some inner, rfl⟩
  constructor
  · exact alike keyed _ _ ⟨.some (.inr ⟨_, _, rfl, rfl, .cons both (.cons one .nil)⟩), rfl⟩
  · have noPlace : AbiType.LacksAfter (.tuple {} ([up] ++ place :: [])) (.object [("up", flag)])
        ([up].zip [flag]) := .missing rfl (.object [("up", flag)])
    have second : AbiType.LacksAfter (.array {} (.tuple {} [up, place]) .dynamic)
        (.array ([.array [flag, byPosition]] ++ .object [("up", flag)] :: [])) _ :=
      .element noPlace
    obtain ⟨e, kind, refused⟩ := lacks [] _ [] [] _ [] _ rfl rfl rfl second
    exact ⟨e, kind, refused⟩

end AbiCodec
