import AbiCodec.Proofs.Conformance
import AbiCodec.Proofs.WireFormat

/-!
# The values that the encoder accepts

The checks of the encoder against the canonical form: what a layout takes from a
value before it writes anything is there exactly when the value has a canonical
form, and is what that form has on the wire.
-/

namespace AbiCodec

namespace Layout

theorem toOption_unsignedWord (l : Layout) (bits : Nat) (v : Value) :
    (l.unsignedWord bits v).toOption = v.asUnsigned?.filter (·.fitsUnsigned bits) := by
  cases v with
  | uint w =>
    simp only [unsignedWord, Value.asUnsigned?, Option.filter]
    split <;> rfl
  | int w =>
    simp only [unsignedWord, Value.asUnsigned?]
    split
    · rfl
    · simp only [Option.filter]
      split <;> rfl
  | _ => rfl

theorem toOption_signedWord (l : Layout) (bits : Nat) (v : Value) :
    (l.signedWord bits v).toOption = v.asSigned?.filter (·.fitsSigned bits) := by
  cases v with
  | int w =>
    simp only [signedWord, Value.asSigned?, Option.filter]
    split <;> rfl
  | uint w =>
    simp only [signedWord, Value.asSigned?]
    split
    · rfl
    · simp only [Option.filter]
      split <;> rfl
  | _ => rfl

theorem toOption_addressWord (name : Option String) (l : Layout) (v : Value) :
    (l.addressWord v).toOption.map Word.toBytes = (canonicalAddress? v).map (address name).wire := by
  cases v with
  | string text =>
    simp only [addressWord, canonicalAddress?]
    cases Address.read text <;> rfl
  | _ => rfl

theorem toOption_fixedBytesOf (name : Option String) (width : ByteWidth) (l : Layout) (v : Value) :
    (l.fixedBytesOf width.size v).toOption.map Bytes.padded =
      ((fixedBytes name width).canonical? v).map (fixedBytes name width).wire := by
  rw [fixedBytesOf, canonical?]
  cases v.asBytes? with
  | none => rfl
  | some data =>
    by_cases fits : data.length = width.size
    · simp only [Option.bind_some, if_pos fits]
      rfl
    · simp only [Option.bind_some, if_neg fits]
      rfl

theorem mapM_eq_some_iff {α β : Type} {f : α → Option β} {xs : List α} {ys : List β} :
    xs.mapM f = some ys ↔ List.Forall₂ (fun x y => f x = some y) xs ys := by
  induction xs generalizing ys with
  | nil => cases ys <;> simp
  | cons x xs ih =>
    simp only [List.mapM_cons, Option.bind_eq_bind, Option.bind_eq_some_iff, Option.pure_def,
      Option.some.injEq, List.forall₂_cons_left_iff, ih]
    constructor
    · rintro ⟨y, first, others, rest, rfl⟩
      exact ⟨y, others, first, rest, rfl⟩
    · rintro ⟨y, others, first, rest, rfl⟩
      exact ⟨y, first, others, rest, rfl⟩

theorem mapM_id_eq_some_iff {names : List (Option String)} {given : List String} :
    names.mapM id = some given ↔ names = given.map some := by
  rw [mapM_eq_some_iff, ← List.forall₂_eq_eq_eq, List.forall₂_map_right_iff]
  rfl

theorem exists_given_cons {name : String} {names : List (Option String)}
    {p : List String → Prop} :
    (∃ given : List String, some name :: names = given.map some ∧ p given) ↔
      ∃ given : List String, names = given.map some ∧ p (name :: given) := by
  constructor
  · rintro ⟨given, same, h⟩
    cases given with
    | nil => cases same
    | cons first given =>
      simp only [List.map_cons, List.cons.injEq, Option.some.injEq] at same
      exact ⟨given, same.2, same.1 ▸ h⟩
  · rintro ⟨given, rfl, h⟩
    exact ⟨name :: given, rfl, h⟩

/-- The check for distinct names passes exactly when every component has a name, no two have the
same, and none has been seen. -/
theorem distinct_eq_ok_iff (l : Layout) (v : Value) (names : List (Option String))
    (seen : List String) :
    keyed.distinct l v names seen = .ok () ↔
      ∃ given : List String, names = given.map some ∧ given.Nodup ∧ ∀ name ∈ given, name ∉ seen := by
  induction names generalizing seen with
  | nil => simp [keyed.distinct]
  | cons name names ih =>
    cases name with
    | none =>
      simp only [keyed.distinct, reduceCtorEq, false_iff, not_exists, not_and]
      intro given same
      cases given <;> simp at same
    | some name =>
      rw [exists_given_cons, keyed.distinct]
      by_cases known : name ∈ seen
      · simp [known]
      · -- The names that follow avoid `name` and those seen before it.
        have avoid (given : List String) :
            (given.Nodup ∧ ∀ other ∈ given, other ∉ name :: seen) ↔
              (name :: given).Nodup ∧ ∀ other ∈ name :: given, other ∉ seen := by
          simp only [List.nodup_cons, List.mem_cons, forall_eq_or_imp, not_or]
          grind
        simp only [List.contains_eq_mem, known, decide_false, Bool.false_eq_true, if_false, ih,
          avoid]

theorem lookup_eq_find? (fields : List (String × Value)) (name : String) :
    fields.lookup name = (fields.find? fun f => f.1 == name).map Prod.snd := by
  induction fields with
  | nil => rfl
  | cons field fields ih =>
    rw [List.lookup_cons, List.find?_cons, BEq.comm, ih]
    cases field.1 == name <;> rfl

/-- The field of each name in turn, which is missing as soon as one name has no field. -/
theorem toOption_mapM_find? (fields : List (String × Value)) (missing : String → AbiError)
    (given : List String) :
    ((given.map some).mapM fun name : Option String =>
        match fields.find? fun f : String × Value => f.1 == name.getD "" with
        | some f => Except.ok f.2
        | none => .error (missing (name.getD ""))).toOption =
      given.mapM fun name => fields.lookup name := by
  induction given with
  | nil => rfl
  | cons name given ih =>
    rw [List.map_cons, List.mapM_cons, List.mapM_cons, ← ih, lookup_eq_find?, Option.getD_some]
    cases fields.find? fun f : String × Value => f.1 == name with
    | none => rfl
    | some field =>
      rw [Option.map_some]
      generalize (given.map some).mapM (m := Except AbiError) _ = rest
      cases rest <;> rfl

theorem toOption_keyed (l : Layout) (v : Value) (names : List (Option String))
    (fields : List (String × Value)) :
    (l.keyed v names fields).toOption = fieldsInOrder? names fields := by
  have check := distinct_eq_ok_iff l v names []
  rw [keyed, fieldsInOrder?]
  cases distinct : keyed.distinct l v names [] with
  | error e =>
    rw [distinct] at check
    cases named : names.mapM id with
    | none => rfl
    | some given =>
      have repeated : ¬given.Nodup := by
        intro nodup
        have passed := check.2 ⟨given, mapM_id_eq_some_iff.1 named, nodup,
          fun _ _ => List.not_mem_nil⟩
        cases passed
      rw [Option.bind_some, if_neg repeated]
      rfl
  | ok _ =>
    obtain ⟨given, rfl, nodup, _⟩ := check.1 distinct
    rw [mapM_id_eq_some_iff.2 rfl, Option.bind_some, if_pos nodup]
    exact toOption_mapM_find? fields (fun name => l.refuse v (.missingComponent name)) given

theorem toOption_tupleValues (l : Layout) (names : List (Option String)) (v : Value) :
    (l.tupleValues names v).toOption = tupleItems? names v := by
  cases v with
  | struct fields => exact toOption_keyed l _ names fields
  | _ => rfl

end Layout

end AbiCodec
