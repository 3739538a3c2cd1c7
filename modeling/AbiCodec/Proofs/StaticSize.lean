import AbiCodec.Layout.OfType
import AbiCodec.Layout.Zero
import AbiCodec.Proofs.LayoutTree

/-!
# The limit on static layout

The leaves of a zero value are what it takes to build it, and the words of a
layout with every empty value counted as one are their number. The count behind
the limit agrees with it for types without arrays of length zero. It counts such
an array as nothing, and with it every array of such arrays.
-/

namespace AbiCodec

namespace Value

mutual

/-- The parts of a value that have no parts; an empty array or tuple is one. -/
def leaves : Value → Nat
  | array items => if items.isEmpty then 1 else itemLeaves items
  | tuple entries => if entries.isEmpty then 1 else entryLeaves entries
  | struct fields => if fields.isEmpty then 1 else fieldLeaves fields
  | _ => 1

def itemLeaves : List Value → Nat
  | [] => 0
  | v :: rest => v.leaves + itemLeaves rest

def entryLeaves : List (Option String × Value) → Nat
  | [] => 0
  | (_, v) :: rest => v.leaves + entryLeaves rest

def fieldLeaves : List (String × Value) → Nat
  | [] => 0
  | (_, v) :: rest => v.leaves + fieldLeaves rest

end

theorem itemLeaves_replicate (n : Nat) (v : Value) :
    itemLeaves (List.replicate n v) = v.leaves * n := by
  induction n with
  | zero => rw [List.replicate_zero, itemLeaves, Nat.mul_zero]
  | succ n ih => rw [List.replicate_succ, itemLeaves, ih, Nat.mul_succ, Nat.add_comm]

end Value

namespace Layout

mutual

/-- The words of static layout when every empty value counts as one. -/
def countedWords : Layout → Nat
  | array _ element (.fixed n) => max 1 (element.countedWords * n)
  | tuple _ components => max 1 (countedWordsOf components)
  | _ => 1

def countedWordsOf : List Layout → Nat
  | [] => 0
  | c :: rest => c.countedWords + countedWordsOf rest

end

mutual

/-- Whether a zero value of the layout has an array in it whose type has the length zero. -/
def hasZeroLength : Layout → Bool
  | array _ element (.fixed n) => n == 0 || element.hasZeroLength
  | tuple _ components => anyZeroLength components
  | _ => false

def anyZeroLength : List Layout → Bool
  | [] => false
  | c :: rest => c.hasZeroLength || anyZeroLength rest

end

theorem one_le_countedWords (l : Layout) : 1 ≤ l.countedWords := by
  cases l with
  | array name element length =>
    cases length with
    | dynamic => exact Nat.le_refl _
    | fixed n =>
      rw [countedWords]
      exact Nat.le_max_left _ _
  | tuple name components =>
    rw [countedWords]
    exact Nat.le_max_left _ _
  | _ => exact Nat.le_refl _

theorem entryLeaves_zeroEntries {components : List Layout}
    (each : ∀ c ∈ components, c.zero.leaves = c.countedWords) :
    Value.entryLeaves (zeroEntries components) = countedWordsOf components := by
  induction components with
  | nil => rw [zeroEntries, Value.entryLeaves, countedWordsOf]
  | cons c components ih =>
    rcases List.forall_mem_cons.1 each with ⟨own, others⟩
    rw [zeroEntries, Value.entryLeaves, countedWordsOf, own, ih others]

/-- The zero value has as many leaves as there are words, empty values counted as one. -/
theorem leaves_zero (l : Layout) : l.zero.leaves = l.countedWords := by
  induction l with
  | number name width isSigned => cases isSigned <;> simp [zero, Value.leaves, countedWords]
  | array name element length ih =>
    cases length with
    | dynamic => simp [zero, Value.leaves, countedWords]
    | fixed n =>
      rw [zero, Value.leaves, Value.itemLeaves_replicate, ih, countedWords]
      cases n with
      | zero => simp
      | succ n =>
        have pos : 1 ≤ element.countedWords * (n + 1) :=
          Nat.mul_pos (one_le_countedWords element) (Nat.succ_pos n)
        simp [List.replicate_succ, Nat.max_eq_right pos]
  | tuple name components ih =>
    rw [zero, Value.leaves, entryLeaves_zeroEntries ih, countedWords]
    cases components with
    | nil => simp [zeroEntries, countedWordsOf]
    | cons c components =>
      have pos : 1 ≤ countedWordsOf (c :: components) :=
        Nat.le_trans (one_le_countedWords c) (Nat.le_add_right _ _)
      simp [zeroEntries, Nat.max_eq_right pos]
  | _ => simp [zero, Value.leaves, countedWords]

theorem staticWordsFrom?_eq_some {components : List Layout} {before words : Nat}
    (each : ∀ c ∈ components, c.hasZeroLength = false → ∀ words, c.staticWords? = some words →
      words = c.countedWords)
    (none : anyZeroLength components = false)
    (h : staticWordsFrom? before components = some words) :
    words = before + countedWordsOf components := by
  induction components generalizing before with
  | nil =>
    cases h
    rw [countedWordsOf, Nat.add_zero]
  | cons c components ih =>
    rw [anyZeroLength, Bool.or_eq_false_iff] at none
    rw [staticWordsFrom?] at h
    obtain ⟨own, counted, h⟩ := Option.bind_eq_some_iff.1 h
    obtain ⟨sum, added, h⟩ := Option.bind_eq_some_iff.1 h
    obtain ⟨rfl, _⟩ := count?_eq_some_iff.1 added
    rcases List.forall_mem_cons.1 each with ⟨first, others⟩
    rw [ih others none.2 h, first none.1 own counted, countedWordsOf, Nat.add_assoc]

/-- Without arrays of length zero the count is that of the words, empty values counted as one. -/
theorem staticWords?_eq_some {l : Layout} (none : l.hasZeroLength = false) {words : Nat}
    (h : l.staticWords? = some words) : words = l.countedWords := by
  induction l generalizing words with
  | array name element length ih =>
    cases length with
    | dynamic =>
      cases h
      rfl
    | fixed n =>
      rw [hasZeroLength, Bool.or_eq_false_iff] at none
      rw [staticWords?] at h
      obtain ⟨own, counted, h⟩ := Option.bind_eq_some_iff.1 h
      obtain ⟨rfl, _⟩ := count?_eq_some_iff.1 h
      have pos : 1 ≤ element.countedWords * n :=
        Nat.mul_pos (one_le_countedWords element) (Nat.pos_of_ne_zero (by simpa using none.1))
      rw [ih none.2 counted, countedWords, Nat.max_eq_right pos]
  | tuple name components ih =>
    rw [hasZeroLength] at none
    rw [staticWords?] at h
    obtain ⟨sum, counted, rfl⟩ := Option.map_eq_some_iff.1 h
    rw [staticWordsFrom?_eq_some (fun c member none _ => ih c member none) none counted,
      Nat.zero_add, countedWords]
  | _ =>
    cases h
    rfl

theorem limited_eq_ok {limit : Nat} {t : AbiType} {l built : Layout}
    (h : limited limit t l = .ok built) :
    built = l ∧ ∃ words, l.staticWords? = some words ∧ words ≤ limit := by
  rw [limited] at h
  cases counted : l.staticWords? with
  | none =>
    rw [counted] at h
    cases h
  | some words =>
    simp only [counted] at h
    split at h
    · next within =>
      cases h
      exact ⟨rfl, words, rfl, within⟩
    · cases h

/-- The layouts of elementary names, which take the name of the label. -/
inductive Elementary : (Option String → Layout) → Prop where
  | address : Elementary address
  | bool : Elementary bool
  | number (width : ByteWidth) (isSigned : Bool) : Elementary (number · width isSigned)
  | fixedBytes (width : ByteWidth) : Elementary (fixedBytes · width)
  | bytes : Elementary bytes
  | string : Elementary string
  | null : Elementary null

/-- An elementary name is refused under every label, or has one kind of layout under all of them. -/
theorem ofElementary_outcome (typeName : String) :
    (∃ e, ∀ label, ofElementary typeName label = .error e) ∨
      ∃ kind, Elementary kind ∧ ∀ label, ofElementary typeName label = .ok (kind label) := by
  unfold ofElementary
  split_ifs
  · exact Or.inr ⟨_, .address, fun _ => rfl⟩
  · exact Or.inr ⟨_, .bool, fun _ => rfl⟩
  · exact Or.inr ⟨_, .string, fun _ => rfl⟩
  · exact Or.inr ⟨_, .bytes, fun _ => rfl⟩
  · exact Or.inr ⟨_, .null, fun _ => rfl⟩
  · split
    · next isSigned digits _ =>
      cases numberWidth? digits with
      | some width => exact Or.inr ⟨_, .number width isSigned, fun _ => rfl⟩
      | none => exact Or.inl ⟨_, fun _ => rfl⟩
    · split
      · next digits _ =>
        cases fixedBytesWidth? digits with
        | some width => exact Or.inr ⟨_, .fixedBytes width, fun _ => rfl⟩
        | none => exact Or.inl ⟨_, fun _ => rfl⟩
      · exact Or.inl ⟨_, fun _ => rfl⟩

theorem exists_of_ofElementary {typeName : String} {label : Option String} {l : Layout}
    (h : ofElementary typeName label = .ok l) : ∃ kind, Elementary kind ∧ l = kind label := by
  rcases ofElementary_outcome typeName with ⟨e, refused⟩ | ⟨kind, elementary, laid⟩
  · rw [refused] at h
    cases h
  · rw [laid] at h
    cases h
    exact ⟨kind, elementary, rfl⟩

theorem countedWords_ofElementary {typeName : String} {label : Option String} {l : Layout}
    (h : ofElementary typeName label = .ok l) : l.countedWords = 1 := by
  obtain ⟨kind, elementary, rfl⟩ := exists_of_ofElementary h
  cases elementary <;> rfl

/-- What was built is one word, or its count is within the limit. -/
theorem build_eq_ok {limit : Nat} {t : AbiType} {l : Layout} (h : build limit t = .ok l) :
    l.countedWords = 1 ∨ ∃ words, l.staticWords? = some words ∧ words ≤ limit := by
  cases t with
  | empty label =>
    cases h
    exact Or.inl rfl
  | elementary label typeName => exact Or.inl (countedWords_ofElementary h)
  | array label element length =>
    rw [build] at h
    cases inner : build limit element with
    | error e =>
      rw [inner] at h
      cases h
    | ok child =>
      rw [inner] at h
      obtain ⟨rfl, within⟩ := limited_eq_ok h
      exact Or.inr within
  | tuple label components =>
    rw [build] at h
    cases inner : buildAll limit components with
    | error e =>
      rw [inner] at h
      cases h
    | ok children =>
      rw [inner] at h
      obtain ⟨rfl, within⟩ := limited_eq_ok h
      exact Or.inr within

/-- The zero value of an accepted type has as many leaves as the type has words, every empty value
counted as one, and it stays within the limit when the type has no array of length zero. -/
theorem leaves_zero_of_accepted {settings : Settings} {t : AbiType} {l : Layout}
    (accepted : ofType settings t = .ok l) :
    l.zero.leaves = l.countedWords ∧
      (l.hasZeroLength = false → l.zero.leaves ≤ max 1 settings.maxStaticWords) := by
  refine ⟨leaves_zero l, ?_⟩
  intro none
  rw [ofType] at accepted
  split at accepted
  · cases accepted
  · rw [leaves_zero]
    rcases build_eq_ok accepted with one | ⟨words, counted, within⟩
    · rw [one]
      exact Nat.le_max_left _ _
    · rw [← staticWords?_eq_some none counted]
      exact Nat.le_trans within (Nat.le_max_right _ _)

theorem leaves_zero_le_matrix :
    ∃ l, ofType { maxStaticWords := 6 } (.array {} (.array {} (.elementary {} "uint8") (.fixed 2))
      (.fixed 3)) = .ok l ∧ l.zero.leaves ≤ max 1 6 := by
  have accepted : ofType { maxStaticWords := 6 }
      (.array {} (.array {} (.elementary {} "uint8") (.fixed 2)) (.fixed 3)) =
      .ok (.array none (.array none (.number none ⟨1, by decide, by decide⟩ false) (.fixed 2))
        (.fixed 3)) := rfl
  exact ⟨_, accepted, (leaves_zero_of_accepted accepted).2 rfl⟩

theorem staticWords?_emptyArrays (element : Layout) {words : Nat}
    (counted : element.staticWords? = some words) (n : Nat) :
    (array none (array none element (.fixed 0)) (.fixed n)).staticWords? = some 0 := by
  rw [staticWords?, staticWords?, counted, Option.bind_some, Nat.mul_zero]
  change count? (0 * n) = some 0
  rw [Nat.zero_mul]
  rfl

/-- Arrays of empty arrays pass every limit, whatever their length. -/
theorem ofType_emptyArrays {settings : Settings} (depth : 2 ≤ settings.maxDepth) (n : Nat) :
    ∃ l, ofType settings (.array {} (.array {} (.elementary {} "uint8") (.fixed 0)) (.fixed n)) =
        .ok l ∧ l.zero.leaves = max 1 n := by
  have shallow (length : ArrayLength) : ¬settings.maxDepth <
      (AbiType.array {} (.array {} (.elementary {} "uint8") (.fixed 0)) length).depth :=
    Nat.not_lt.2 depth
  have built : build settings.maxStaticWords (.array {} (.array {} (.elementary {} "uint8")
      (.fixed 0)) (.fixed n)) = .ok (array none (array none
        (.number none ⟨1, by decide, by decide⟩ false) (.fixed 0)) (.fixed n)) := by
    have inner : build settings.maxStaticWords (.array {} (.elementary {} "uint8") (.fixed 0)) =
        .ok (array none (.number none ⟨1, by decide, by decide⟩ false) (.fixed 0)) := rfl
    rw [build, inner]
    change limited _ _ _ = _
    rw [limited, staticWords?_emptyArrays _ rfl]
    rfl
  refine ⟨_, by rw [ofType, if_neg (shallow _), built], ?_⟩
  simp [leaves_zero, countedWords]

theorem leaves_zero_exceeds_limit :
    ∃ l, ofType { maxStaticWords := 1 } (.array {} (.array {} (.elementary {} "uint8") (.fixed 0))
      (.fixed 2)) = .ok l ∧ ¬l.zero.leaves ≤ max 1 1 := by
  obtain ⟨l, accepted, leaves⟩ :=
    ofType_emptyArrays (show 2 ≤ ({ maxStaticWords := 1 } : Settings).maxDepth by decide) 2
  exact ⟨l, accepted, by rw [leaves]; decide⟩

end Layout

end AbiCodec
