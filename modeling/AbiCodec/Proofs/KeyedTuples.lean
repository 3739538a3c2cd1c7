import AbiCodec.Proofs.AcceptedValues
import AbiCodec.Proofs.WriteOutcomes
import Mathlib.Data.List.Nodup

/-!
# Tuples by name

A tuple whose components have names of their own may be given as fields in any
order, with fields of other keys among them. Where every name is a key and no
key is used twice, a value `Supplies` the components with the same values whether
it lists them or names them. Two values are `GivenAlike` for a layout when they
differ only in this, at whatever depth, and then they have the same outcome.
-/

namespace AbiCodec

namespace Layout

/-- Every component has a name of its own, and every such name is the key of one field. -/
structure KeyedBy (names : List (Option String)) (given : List String)
    (fields : List (String × Value)) : Prop where
  names_eq : names = given.map some
  names_nodup : given.Nodup
  keys_nodup : (fields.map Prod.fst).Nodup
  covered : ∀ name ∈ given, name ∈ fields.map Prod.fst

/-- The value has these values for components of these names, in the order of the components. -/
inductive Supplies (names : List (Option String)) : Value → List Value → Prop where
  | tuple (entries : Record) : Supplies names (.tuple entries) entries.values
  | array (items : List Value) : Supplies names (.array items) items
  | struct (given : List String) {fields : List (String × Value)} {values : List Value} :
      KeyedBy names given fields →
      List.Forall₂ (fun name v => (name, v) ∈ fields) given values →
      Supplies names (.struct fields) values

mutual

/-- The values are the same, but for the form in which tuples in them are given. -/
def GivenAlike : Layout → Value → Value → Prop
  | array _ element _, v, w =>
    v = w ∨ ∃ items others, v = .array items ∧ w = .array others ∧
      List.Forall₂ element.GivenAlike items others
  | tuple _ components, v, w =>
    v = w ∨ ∃ values others, Supplies (components.map name) v values ∧
      Supplies (components.map name) w others ∧ EachAlike components values others
  | _, v, w => v = w

/-- There are as many values, and those that have a component are alike for it. -/
def EachAlike : List Layout → List Value → List Value → Prop
  | c :: components, v :: values, w :: others =>
    c.GivenAlike v w ∧ EachAlike components values others
  | _, values, others => values.length = others.length

end

/-! ### Fields by name -/

theorem KeyedBy.perm {names : List (Option String)} {given : List String}
    {fields others : List (String × Value)} (keyed : KeyedBy names given fields)
    (same : others.Perm fields) : KeyedBy names given others where
  names_eq := keyed.names_eq
  names_nodup := keyed.names_nodup
  keys_nodup := (same.map Prod.fst).nodup_iff.2 keyed.keys_nodup
  covered := fun name member => (same.map Prod.fst).mem_iff.2 (keyed.covered name member)

theorem Supplies.perm {names : List (Option String)} {fields others : List (String × Value)}
    {values : List Value} (h : Supplies names (.struct fields) values) (same : others.Perm fields) :
    Supplies names (.struct others) values := by
  cases h with
  | struct given keyed taken =>
    exact .struct given (keyed.perm same) (taken.imp fun _ _ => same.mem_iff.2)

theorem Supplies.tuple_zip {names : List (Option String)} {values : List Value}
    (length : names.length = values.length) :
    Supplies names (.tuple (names.zip values)) values := by
  have all : Record.values (names.zip values) = values :=
    List.map_snd_zip (Nat.le_of_eq length.symm)
  have supplied : Supplies names (.tuple (names.zip values)) (Record.values (names.zip values)) :=
    .tuple _
  rwa [all] at supplied

theorem Supplies.struct_zip {given : List String} {values : List Value} (distinct : given.Nodup)
    (length : given.length = values.length) :
    Supplies (given.map some) (.struct (given.zip values)) values := by
  have keys : (given.zip values).map Prod.fst = given := List.map_fst_zip (Nat.le_of_eq length)
  refine .struct given ⟨rfl, distinct, ?_, ?_⟩ ?_
  · rwa [keys]
  · rw [keys]
    exact fun _ member => member
  · exact List.forall₂_iff_zip.2 ⟨length, fun member => member⟩

/-- There is a value for every name. -/
theorem exists_forall₂_mem {fields : List (String × Value)} {given : List String}
    (covered : ∀ name ∈ given, name ∈ fields.map Prod.fst) :
    ∃ values, List.Forall₂ (fun name v => (name, v) ∈ fields) given values := by
  induction given with
  | nil => exact ⟨[], .nil⟩
  | cons name given ih =>
    obtain ⟨values, taken⟩ :=
      ih fun other member => covered other (List.mem_cons_of_mem name member)
    obtain ⟨⟨_, v⟩, member, rfl⟩ := List.mem_map.1 (covered name List.mem_cons_self)
    exact ⟨v :: values, .cons member taken⟩

/-- Where no key is used twice, the first field of a key is the only one. -/
theorem lookup_eq_some_of_mem {fields : List (String × Value)}
    (distinct : (fields.map Prod.fst).Nodup) {name : String} {v : Value}
    (member : (name, v) ∈ fields) : fields.lookup name = some v := by
  obtain ⟨before, after, rfl⟩ := List.append_of_mem member
  rw [List.map_append, List.map_cons, List.nodup_append] at distinct
  refine List.lookup_eq_some_iff.2 ⟨before, after, rfl, fun field earlier => bne_iff_ne.2 ?_⟩
  exact (distinct.2.2 field.1 (List.mem_map_of_mem earlier) name List.mem_cons_self).symm

theorem fieldsInOrder?_eq_some_iff {names : List (Option String)}
    {fields : List (String × Value)} {values : List Value} :
    fieldsInOrder? names fields = some values ↔
      ∃ given : List String, names = given.map some ∧ given.Nodup ∧
        List.Forall₂ (fun name v => fields.lookup name = some v) given values := by
  simp only [fieldsInOrder?, Option.bind_eq_some_iff, Option.ite_none_right_eq_some,
    mapM_id_eq_some_iff, mapM_eq_some_iff (f := fun name => fields.lookup name)]

theorem Supplies.tupleValues_eq {names : List (Option String)} {v : Value} {values : List Value}
    (h : Supplies names v values) (l : Layout) : l.tupleValues names v = .ok values := by
  cases h with
  | tuple entries => rfl
  | array items => rfl
  | @struct given fields _ keyed taken =>
    have found : fieldsInOrder? names fields = some values :=
      fieldsInOrder?_eq_some_iff.2 ⟨given, keyed.names_eq, keyed.names_nodup,
        taken.imp fun _ _ => lookup_eq_some_of_mem keyed.keys_nodup⟩
    rw [← toOption_keyed l (.struct fields)] at found
    rw [tupleValues]
    cases result : l.keyed (.struct fields) names fields with
    | error e =>
      rw [result] at found
      cases found
    | ok others =>
      rw [result] at found
      cases found
      rfl

/-- As many values as components are written as one block, in whatever form they are given. -/
theorem Supplies.outcome_encode {components : List Layout} {v : Value} {values : List Value}
    (h : Supplies (components.map Layout.name) v values)
    (length : values.length = components.length) (name : Option String) :
    ((Layout.tuple name components).encode v).outcome =
      (Block.write (slots components values)).outcome := by
  rw [encode, h.tupleValues_eq]
  exact congrArg Writing.outcome (if_pos length)

/-! ### Values given alike -/

theorem forall₂_sameSlot {components : List Layout}
    (alike : ∀ c ∈ components, ∀ v w, c.GivenAlike v w →
      (c.encode v).outcome = (c.encode w).outcome)
    {values others : List Value} (each : EachAlike components values others) :
    List.Forall₂ Block.SameSlot (slots components values) (slots components others) ∧
      values.length = others.length := by
  induction components generalizing values others with
  | nil =>
    rw [EachAlike] at each
    · refine ⟨?_, each⟩
      rw [slots, slots]
      · exact .nil
      all_goals
        intro _ _ _ _ same
        cases same
    · intro _ _ _ _ _ _ same
      cases same
  | cons c components ih =>
    cases values with
    | nil =>
      cases others with
      | nil => exact ⟨.nil, rfl⟩
      | cons w others => cases each
    | cons v values =>
      cases others with
      | nil => cases each
      | cons w others =>
        rw [EachAlike] at each
        obtain ⟨rest, length⟩ :=
          ih (fun d member => alike d (List.mem_cons_of_mem c member)) each.2
        rw [slots, slots, List.length_cons, List.length_cons, length]
        exact ⟨.cons ⟨rfl, alike c List.mem_cons_self v w each.1⟩ rest, rfl⟩

/-- Values that are given alike are written alike. -/
theorem outcome_encode_of_givenAlike {l : Layout} {v w : Value} (alike : l.GivenAlike v w) :
    (l.encode v).outcome = (l.encode w).outcome := by
  induction l generalizing v w with
  | address name | bool name | number name width isSigned | fixedBytes name width | bytes name
  | string name | null name =>
    rw [GivenAlike] at alike
    · rw [alike]
    · nofun
    · nofun
  | array name element length ih =>
    rw [GivenAlike] at alike
    rcases alike with rfl | ⟨items, others, rfl, rfl, each⟩
    · rfl
    · exact outcome_encode_array rfl (each.imp fun _ _ alike => ih alike) length
  | tuple name components ih =>
    rw [GivenAlike] at alike
    rcases alike with rfl | ⟨values, others, given, given', each⟩
    · rfl
    · obtain ⟨same, length⟩ := forall₂_sameSlot (fun c member v w => ih c member) each
      -- Once the values are taken in order, nothing is left of the form that they came in.
      rw [encode, encode, given.tupleValues_eq, given'.tupleValues_eq]
      exact outcome_components same rfl length rfl

theorem givenAlike_refl (l : Layout) (v : Value) : l.GivenAlike v v := by
  cases l with
  | array name element length => exact .inl rfl
  | tuple name components => exact .inl rfl
  | _ => rfl

theorem eachAlike_refl (components : List Layout) (values : List Value) :
    EachAlike components values values := by
  induction components generalizing values with
  | nil => rfl
  | cons c components ih =>
    cases values with
    | nil => rfl
    | cons v values => exact ⟨c.givenAlike_refl v, ih values⟩

/-! ### Refused structs -/

theorem kind_of_distinct {l : Layout} {v : Value} {names : List (Option String)}
    {seen : List String} {e : AbiError} (failed : keyed.distinct l v names seen = .error e) :
    e.kind = .invalidValue := by
  induction names generalizing seen with
  | nil => cases failed
  | cons name names ih =>
    cases name with
    | none =>
      cases failed
      rfl
    | some name =>
      rw [keyed.distinct] at failed
      split at failed
      · cases failed
        rfl
      · exact ih failed

theorem kind_of_mapM {α β : Type} {f : α → Except AbiError β} {kind : ErrorKind}
    (each : ∀ x e, f x = .error e → e.kind = kind) {xs : List α} {e : AbiError}
    (failed : xs.mapM f = .error e) : e.kind = kind := by
  induction xs with
  | nil => cases failed
  | cons x xs ih =>
    rw [List.mapM_cons] at failed
    cases first : f x with
    | error e' =>
      rw [first] at failed
      cases failed
      exact each x e first
    | ok y =>
      rw [first] at failed
      cases rest : xs.mapM f with
      | error e' =>
        rw [rest] at failed
        cases failed
        exact ih rest
      | ok ys =>
        rw [rest] at failed
        cases failed

theorem kind_of_keyed {l : Layout} {v : Value} {names : List (Option String)}
    {fields : List (String × Value)} {e : AbiError} (failed : l.keyed v names fields = .error e) :
    e.kind = .invalidValue := by
  rw [keyed] at failed
  cases distinct : keyed.distinct l v names [] with
  | error e' =>
    rw [distinct] at failed
    cases failed
    exact kind_of_distinct distinct
  | ok _ =>
    rw [distinct] at failed
    refine kind_of_mapM (fun name e' missing => ?_) failed
    dsimp only at missing
    split at missing
    · cases missing
    · cases missing
      rfl

theorem mem_keys_of_lookup {fields : List (String × Value)} {given : List String}
    {values : List Value}
    (taken : List.Forall₂ (fun name v => fields.lookup name = some v) given values) :
    ∀ name ∈ given, name ∈ fields.map Prod.fst := by
  refine ((List.forall₂_and_left given values).1 (taken.imp fun name v found => ⟨?_, found⟩)).1
  obtain ⟨before, after, rfl, -⟩ := List.lookup_eq_some_iff.1 found
  exact List.mem_map_of_mem (List.mem_append_right before List.mem_cons_self)

/-- A component without a name, two of one name, or a name without a field. -/
theorem exists_keyed_error {l : Layout} {v : Value} {names : List (Option String)}
    {fields : List (String × Value)}
    (unkeyed : none ∈ names ∨ ¬names.Nodup ∨
      ∃ name, some name ∈ names ∧ name ∉ fields.map Prod.fst) :
    ∃ e, l.keyed v names fields = .error e ∧ e.kind = .invalidValue := by
  cases result : l.keyed v names fields with
  | error e => exact ⟨e, rfl, kind_of_keyed result⟩
  | ok values =>
    have found := toOption_keyed l v names fields
    rw [result] at found
    obtain ⟨given, rfl, distinct, taken⟩ := fieldsInOrder?_eq_some_iff.1 found.symm
    rcases unkeyed with unnamed | repeated | ⟨name, member, missing⟩
    · simp at unnamed
    · exact absurd (List.Nodup.map (Option.some_injective String) distinct) repeated
    · rw [List.mem_map_of_injective (Option.some_injective String)] at member
      exact absurd (mem_keys_of_lookup taken name member) missing

/-! ### Tuples by name are tuples by position -/

/-- A tuple given by name is the tuple of its fields in the order of the components, whatever the
order of the fields: the fields are written as one block. Values in which tuples are given by name
have the outcome of those in which they are not, at any depth. Where a component has no name, two
have the same or a field is missing, the value is invalid. -/
theorem outcome_encode_struct (name : Option String) (components : List Layout)
    (fields : List (String × Value)) :
    (∀ given, KeyedBy (components.map Layout.name) given fields →
      ∃ values, List.Forall₂ (fun name v => (name, v) ∈ fields) given values ∧
        ∀ entries others, Record.values entries = values → others.Perm fields →
          ((tuple name components).encode (.struct others)).outcome =
              ((tuple name components).encode (.tuple entries)).outcome ∧
            ((tuple name components).encode (.tuple entries)).outcome =
              (Block.write (slots components values)).outcome) ∧
      (∀ (l : Layout) (v w : Value), l.GivenAlike v w →
        (l.encode v).outcome = (l.encode w).outcome) ∧
      ((none ∈ components.map Layout.name ∨ ¬(components.map Layout.name).Nodup ∨
          ∃ name, some name ∈ components.map Layout.name ∧ name ∉ fields.map Prod.fst) →
        ∀ written, ((tuple name components).encode (.struct fields)).outcome written =
          .error .invalidValue) := by
  refine ⟨fun given keyed => ?_, fun l v w alike => outcome_encode_of_givenAlike alike,
    fun unkeyed written => ?_⟩
  · obtain ⟨values, taken⟩ := exists_forall₂_mem keyed.covered
    have length : values.length = components.length := by
      have names := congrArg List.length keyed.names_eq
      rw [List.length_map, List.length_map] at names
      rw [← taken.length_eq, names]
    refine ⟨values, taken, ?_⟩
    rintro entries others rfl same
    have byName : Supplies (components.map Layout.name) (.struct others) (Record.values entries) :=
      (Supplies.struct given keyed taken).perm same
    have byPosition : Supplies (components.map Layout.name) (.tuple entries)
        (Record.values entries) := .tuple entries
    exact ⟨(byName.outcome_encode length name).trans (byPosition.outcome_encode length name).symm,
      byPosition.outcome_encode length name⟩
  · obtain ⟨e, failed, kind⟩ :=
      exists_keyed_error (l := tuple name components) (v := .struct fields) unkeyed
    rw [encode, tupleValues, failed]
    exact congrArg Except.error kind

/-- Points by name in an array in a tuple by name, with fields that no component has, and a point
without its label. -/
theorem outcome_encode_struct_points :
    let point := tuple none [bool (some "up"), string (some "label")]
    let l := tuple none [array (some "points") point .dynamic, bytes (some "data")]
    let byName := Value.struct [("label", .string "a"), ("z", .null), ("up", .bool true)]
    let byPosition := Value.tuple [(none, .bool true), (none, .string "a")]
    let points := Value.struct [("data", .bytes [1]), ("z", .null), ("points", .array [byName])]
    (point.encode byName).outcome = (point.encode byPosition).outcome ∧
      (l.encode points).outcome =
        (l.encode (.tuple [(none, .array [byPosition]), (none, .bytes [1])])).outcome ∧
      (point.encode (.struct [("up", .bool true)])).outcome [] = .error .invalidValue := by
  intro point l byName byPosition points
  have inner : KeyedBy [some "up", some "label"] ["up", "label"]
      [("label", .string "a"), ("z", .null), ("up", .bool true)] :=
    ⟨rfl, by decide, by decide, by decide⟩
  have alike : point.GivenAlike byName byPosition :=
    .inr ⟨_, [.bool true, .string "a"], .struct ["up", "label"] inner (by simp), .tuple _,
      eachAlike_refl _ _⟩
  have outer : Supplies [some "points", some "data"] points [.array [byName], .bytes [1]] :=
    .struct ["points", "data"] ⟨rfl, by decide, by decide, by decide⟩ (by simp)
  refine ⟨?_, ?_, ?_⟩
  · obtain ⟨values, taken, same⟩ :=
      (outcome_encode_struct none [bool (some "up"), string (some "label")] _).1 _ inner
    obtain rfl : values = [.bool true, .string "a"] := by
      simpa [List.forall₂_cons_left_iff] using taken
    exact (same _ _ rfl (.refl _)).1
  · exact (outcome_encode_struct none [] []).2.1 l _ _
      (.inr ⟨_, _, outer, .tuple _, .inr ⟨_, _, rfl, rfl, .cons alike .nil⟩, rfl, rfl⟩)
  · exact (outcome_encode_struct none _ _).2.2
      (.inr (.inr ⟨"label", by decide, by decide⟩)) []

end Layout

end AbiCodec
