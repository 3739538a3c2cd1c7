import AbiCodec.Proofs.CanonicalValue

/-!
# Canonical forms conform

Canonical forms have the shape that their layout asks for, and are their own
canonical forms. A value of that shape is its canonical form up to the names of
its components.
-/

namespace AbiCodec

namespace Layout

theorem inRange_true_iff {bits : Nat} {x : Int} :
    inRange true bits x = true ↔ -((2 ^ (bits - 1) : Nat) : Int) ≤ x ∧ x < (2 ^ (bits - 1) : Nat) := by
  simp [inRange]

theorem inRange_false_iff {bits : Nat} {x : Int} :
    inRange false bits x = true ↔ 0 ≤ x ∧ x < (2 ^ bits : Nat) := by
  simp [inRange]

theorem fitsUnsigned_eq_inRange (w : Word) (bits : Nat) :
    w.fitsUnsigned bits = inRange false bits w.toNat := by
  rw [Bool.eq_iff_iff, inRange_false_iff, Word.fitsUnsigned, decide_eq_true_iff]
  omega

theorem fitsSigned_eq_inRange (w : Word) (bits : Nat) :
    w.fitsSigned bits = inRange true bits w.toInt := by
  have bound := w.isLt
  have sign := BitVec.msb_eq_decide w
  rw [Bool.eq_iff_iff, inRange_true_iff, Word.fitsSigned]
  cases msb : w.msb with
  | true =>
    -- The magnitude of a negative word is that of its negation, the least integer included.
    rw [msb, eq_comm, decide_eq_true_iff] at sign
    have magnitude : (-w).toNat = 2 ^ 256 - w.toNat := by
      rw [BitVec.toNat_neg]
      apply Nat.mod_eq_of_lt
      omega
    have negative : w.toInt = w.toNat - (2 ^ 256 : Nat) := by
      rw [BitVec.toInt_eq_msb_cond, msb, if_pos rfl]
    rw [if_pos rfl, decide_eq_true_iff, magnitude, negative]
    omega
  | false =>
    rw [if_neg Bool.false_ne_true, decide_eq_true_iff, BitVec.toInt_eq_toNat_of_msb msb]
    omega

/-- A number in range of the type is canonical as a word that denotes it. -/
theorem canonicalNumber?_of_integer? {isSigned : Bool} {bits : Nat} {v : Value} {x : Int}
    (denotes : v.integer? = some x) :
    canonicalNumber? isSigned bits v =
      if inRange isSigned bits x then some (numberOf isSigned x) else none := by
  rw [canonicalNumber?, denotes, Option.bind_some]

theorem numberOf_toNat (w : Word) : numberOf false w.toNat = .uint w := by
  rw [numberOf, if_neg Bool.false_ne_true, BitVec.ofInt_natCast, BitVec.ofNat_toNat,
    BitVec.setWidth_eq]

theorem numberOf_toInt (w : Word) : numberOf true w.toInt = .int w := by
  rw [numberOf, if_pos rfl, BitVec.ofInt_toInt]

theorem canonicalNumber?_unsigned (bits : Nat) (v : Value) :
    canonicalNumber? false bits v = (v.asUnsigned?.filter (·.fitsUnsigned bits)).map .uint := by
  have positive (w : Word) :
      (if inRange false bits w.toNat then some (numberOf false w.toNat) else none) =
        ((some w).filter (·.fitsUnsigned bits)).map .uint := by
    rw [numberOf_toNat, Option.filter_some, fitsUnsigned_eq_inRange]
    split <;> rfl
  cases v with
  | uint w => exact positive w
  | int w =>
    rw [canonicalNumber?_of_integer? rfl, Value.asUnsigned?]
    cases msb : w.msb with
    | true =>
      have negative : w.toInt < 0 := by
        rw [BitVec.msb_eq_toInt, decide_eq_true_iff] at msb
        exact msb
      have outside : ¬inRange false bits w.toInt = true := fun fits =>
        absurd (inRange_false_iff.1 fits).1 (Int.not_le.2 negative)
      rw [if_neg outside]
      rfl
    | false =>
      rw [BitVec.toInt_eq_toNat_of_msb msb]
      exact positive w
  | _ => rfl

theorem bits_le_of_width (width : ByteWidth) : width.bits ≤ 256 := by
  have le := width.le_wordSize
  simp only [ByteWidth.bits, wordSize] at le ⊢
  omega

theorem canonicalNumber?_signed {bits : Nat} (bounded : bits ≤ 256) (v : Value) :
    canonicalNumber? true bits v = (v.asSigned?.filter (·.fitsSigned bits)).map .int := by
  have denoted (w : Word) :
      (if inRange true bits w.toInt then some (numberOf true w.toInt) else none) =
        ((some w).filter (·.fitsSigned bits)).map .int := by
    rw [numberOf_toInt, Option.filter_some, fitsSigned_eq_inRange]
    split <;> rfl
  cases v with
  | int w => exact denoted w
  | uint w =>
    rw [canonicalNumber?_of_integer? rfl, Value.asSigned?]
    cases msb : w.msb with
    | true =>
      -- The sign bit puts an unsigned word past every signed width.
      have large : 2 ^ (bits - 1) ≤ w.toNat := by
        rw [BitVec.msb_eq_decide, decide_eq_true_iff] at msb
        exact Nat.le_trans (Nat.pow_le_pow_right (by decide) (by omega)) msb
      have outside : ¬inRange true bits w.toNat = true := by
        rw [inRange_true_iff]
        omega
      rw [if_neg outside]
      rfl
    | false =>
      rw [← BitVec.toInt_eq_toNat_of_msb msb]
      exact denoted w
  | _ => rfl

theorem numberOf_conforms (name : Option String) (width : ByteWidth) (isSigned : Bool) (x : Int) :
    (number name width isSigned).Conforms (numberOf isSigned x) :=
  ⟨BitVec.ofInt 256 x, rfl⟩

/-- The canonical forms of components that each conform. -/
theorem conformAll_of_forms {components : List Layout} {values forms : List Value}
    (each : ∀ c ∈ components, ∀ v form, c.canonical? v = some form → c.Conforms form)
    (h : CanonicalForms components values forms) : ConformAll components forms := by
  induction h with
  | nil => rw [ConformAll]
  | @cons c components v form values forms first _ ih =>
    rcases List.forall_mem_cons.1 each with ⟨own, others⟩
    rw [ConformAll]
    exact ⟨form, forms, rfl, own v form first, ih others⟩

theorem conformAll_replicate (element : Layout) (items : List Value) :
    ConformAll (List.replicate items.length element) items ↔
      ∀ item ∈ items, element.Conforms item := by
  induction items with
  | nil => simp [ConformAll]
  | cons v items ih => simp [List.replicate_succ, ConformAll, ih]

theorem conforms_of_canonical? {l : Layout} {v form : Value} (h : l.canonical? v = some form) :
    l.Conforms form := by
  induction l generalizing v form with
  | address name =>
    cases v with
    | address a =>
      cases h
      exact ⟨a, rfl⟩
    | string text =>
      obtain ⟨a, _, rfl⟩ := Option.map_eq_some_iff.1 h
      exact ⟨a, rfl⟩
    | _ => cases h
  | bool name =>
    cases v with
    | bool b =>
      cases h
      exact ⟨b, rfl⟩
    | _ => cases h
  | number name width isSigned =>
    obtain ⟨x, _, ranged⟩ := Option.bind_eq_some_iff.1 h
    split at ranged
    · cases ranged
      exact numberOf_conforms name width isSigned x
    · cases ranged
  | fixedBytes name width =>
    obtain ⟨data, _, sized⟩ := Option.bind_eq_some_iff.1 h
    split at sized
    · next fits =>
      cases sized
      exact ⟨data, rfl, fits⟩
    · cases sized
  | bytes name =>
    obtain ⟨data, _, rfl⟩ := Option.map_eq_some_iff.1 h
    exact ⟨data, rfl⟩
  | string name =>
    cases v with
    | string text =>
      cases h
      exact ⟨text, rfl⟩
    | _ => cases h
  | null name =>
    cases v with
    | null =>
      cases h
      rfl
    | _ => cases h
  | array name element length ih =>
    obtain ⟨items, forms, rfl, admitted, mapped, rfl⟩ := canonical?_array_eq_some_iff.1 h
    have same := mapped.length_of_replicate
    have all := conformAll_of_forms (List.forall_mem_replicate.2 (Or.inr fun _ _ => ih))
      mapped
    rw [← same, conformAll_replicate] at all
    rw [← same] at admitted
    exact ⟨forms, rfl, admitted, all⟩
  | tuple name components ih =>
    obtain ⟨values, forms, _, mapped, rfl⟩ := canonical?_tuple_eq_some_iff.1 h
    refine ⟨_, rfl, ?_⟩
    rw [mapped.values_zip]
    exact conformAll_of_forms (fun c member _ _ canonical => ih c member canonical) mapped

theorem forms_of_forms {components : List Layout} {values forms : List Value}
    (each : ∀ c ∈ components, ∀ v form, c.canonical? v = some form → c.canonical? form = some form)
    (h : CanonicalForms components values forms) : CanonicalForms components forms forms := by
  induction h with
  | nil => exact .nil
  | @cons c components v form values forms first _ ih =>
    rcases List.forall_mem_cons.1 each with ⟨own, others⟩
    exact .cons (own v form first) (ih others)

/-- A canonical form is its own canonical form. -/
theorem canonical?_canonical {l : Layout} {v form : Value} (h : l.canonical? v = some form) :
    l.canonical? form = some form := by
  induction l generalizing v form with
  | number name width isSigned =>
    rw [canonical?] at h ⊢
    cases isSigned with
    | false =>
      rw [canonicalNumber?_unsigned] at h ⊢
      obtain ⟨w, taken, rfl⟩ := Option.map_eq_some_iff.1 h
      obtain ⟨_, fits⟩ := Option.filter_eq_some_iff.1 taken
      rw [Value.asUnsigned?, Option.filter_some, if_pos fits, Option.map_some]
    | true =>
      rw [canonicalNumber?_signed (bits_le_of_width width)] at h ⊢
      obtain ⟨w, taken, rfl⟩ := Option.map_eq_some_iff.1 h
      obtain ⟨_, fits⟩ := Option.filter_eq_some_iff.1 taken
      rw [Value.asSigned?, Option.filter_some, if_pos fits, Option.map_some]
  | array name element length ih =>
    obtain ⟨items, forms, rfl, admitted, mapped, rfl⟩ := canonical?_array_eq_some_iff.1 h
    have same := mapped.length_of_replicate
    have again := forms_of_forms (List.forall_mem_replicate.2 (Or.inr fun _ _ => ih)) mapped
    rw [← same] at again admitted
    exact canonical?_array_eq_some_iff.2 ⟨forms, forms, rfl, admitted, again, rfl⟩
  | tuple name components ih =>
    obtain ⟨values, forms, _, mapped, rfl⟩ := canonical?_tuple_eq_some_iff.1 h
    have again := forms_of_forms (fun c member _ _ canonical => ih c member canonical) mapped
    refine canonical?_tuple_eq_some_iff.2 ⟨forms, forms, ?_, again, rfl⟩
    rw [tupleItems?, mapped.values_zip]
  | fixedBytes name width =>
    obtain ⟨data, rfl, fits⟩ := conforms_of_canonical? h
    rw [canonical?, Value.asBytes?, Option.bind_some, if_pos fits]
  | address name =>
    obtain ⟨a, rfl⟩ := conforms_of_canonical? h
    rfl
  | bool name =>
    obtain ⟨b, rfl⟩ := conforms_of_canonical? h
    rfl
  | bytes name =>
    obtain ⟨data, rfl⟩ := conforms_of_canonical? h
    rfl
  | string name =>
    obtain ⟨text, rfl⟩ := conforms_of_canonical? h
    rfl
  | null name =>
    cases conforms_of_canonical? h
    rfl

theorem sameEntries_eq_sameItems (r s : Record) :
    Value.sameEntries r s = Value.sameItems (Record.values r) (Record.values s) := by
  induction r generalizing s with
  | nil => cases s <;> simp [Record.values, Value.sameEntries, Value.sameItems]
  | cons entry r ih =>
    cases s with
    | nil => simp [Record.values, Value.sameEntries, Value.sameItems]
    | cons other s =>
      rw [Value.sameEntries, ih]
      simp [Record.values, Value.sameItems]

theorem sameItems_of_forms {components : List Layout} {values forms : List Value}
    (each : ∀ c ∈ components, ∀ v form, c.canonical? v = some form → c.Conforms v → v.same form)
    (h : CanonicalForms components values forms) (conform : ConformAll components values) :
    Value.sameItems values forms := by
  induction h with
  | nil => rw [Value.sameItems]
  | @cons c components v form values forms first _ ih =>
    rw [ConformAll] at conform
    obtain ⟨_, _, same, conforms, rest⟩ := conform
    cases same
    rcases List.forall_mem_cons.1 each with ⟨own, others⟩
    rw [Value.sameItems, own v form first conforms, ih others rest, Bool.and_self]

/-- A value that conforms is its canonical form, up to the names in it. -/
theorem same_of_conforms {l : Layout} {v form : Value} (h : l.canonical? v = some form)
    (conforms : l.Conforms v) : v.same form := by
  induction l generalizing v form with
  | address name =>
    obtain ⟨a, rfl⟩ := conforms
    cases h
    simp [Value.same]
  | bool name =>
    obtain ⟨b, rfl⟩ := conforms
    cases h
    simp [Value.same]
  | number name width isSigned =>
    obtain ⟨w, rfl⟩ := conforms
    rw [canonical?] at h
    cases isSigned with
    | false =>
      rw [canonicalNumber?_unsigned] at h
      obtain ⟨_, taken, rfl⟩ := Option.map_eq_some_iff.1 h
      cases (Option.filter_eq_some_iff.1 taken).1
      simp [Value.same]
    | true =>
      rw [canonicalNumber?_signed (bits_le_of_width width)] at h
      obtain ⟨_, taken, rfl⟩ := Option.map_eq_some_iff.1 h
      cases (Option.filter_eq_some_iff.1 taken).1
      simp [Value.same]
  | fixedBytes name width =>
    obtain ⟨data, rfl, fits⟩ := conforms
    rw [canonical?, Value.asBytes?, Option.bind_some, if_pos fits] at h
    cases h
    simp [Value.same]
  | bytes name =>
    obtain ⟨data, rfl⟩ := conforms
    cases h
    simp [Value.same]
  | string name =>
    obtain ⟨text, rfl⟩ := conforms
    cases h
    simp [Value.same]
  | null name =>
    cases conforms
    cases h
    rw [Value.same]
  | array name element length ih =>
    obtain ⟨items, rfl, _, all⟩ := conforms
    obtain ⟨_, forms, same, _, mapped, rfl⟩ := canonical?_array_eq_some_iff.1 h
    cases same
    rw [← conformAll_replicate] at all
    rw [Value.same]
    exact sameItems_of_forms (List.forall_mem_replicate.2 (Or.inr fun _ _ => ih)) mapped all
  | tuple name components ih =>
    obtain ⟨entries, rfl, all⟩ := conforms
    obtain ⟨_, forms, taken, mapped, rfl⟩ := canonical?_tuple_eq_some_iff.1 h
    cases taken
    rw [Value.same, sameEntries_eq_sameItems, mapped.values_zip]
    exact sameItems_of_forms (fun c member _ _ canonical => ih c member canonical) mapped all

end Layout

end AbiCodec
