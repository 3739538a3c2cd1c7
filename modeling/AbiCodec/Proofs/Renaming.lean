import AbiCodec.Proofs.TypeReading

/-!
# Without names

Names take no part in what a layout is for: two types that differ in labels only
are both refused, with the same error, or have layouts that differ in names only,
and such layouts have the same sizes and texts. Two values are the `same` when
they are equal without the names of the components of their tuples.
-/

namespace AbiCodec

namespace Value

/-- The induction over a value; a value with parts has a hypothesis for each of them. -/
@[elab_as_elim, induction_eliminator]
theorem induction {motive : Value → Prop}
    (address : ∀ a, motive (.address a))
    (bool : ∀ b, motive (.bool b))
    (uint : ∀ w, motive (.uint w))
    (int : ∀ w, motive (.int w))
    (fixedBytes : ∀ data, motive (.fixedBytes data))
    (bytes : ∀ data, motive (.bytes data))
    (string : ∀ text, motive (.string text))
    (array : ∀ items, (∀ v ∈ items, motive v) → motive (.array items))
    (tuple : ∀ entries : Record, (∀ entry ∈ entries, motive entry.2) → motive (.tuple entries))
    (struct : ∀ fields : List (String × Value), (∀ field ∈ fields, motive field.2) →
      motive (.struct fields))
    (null : motive .null) (v : Value) : motive v :=
  @Value.rec motive (fun items => ∀ v ∈ items, motive v)
    (fun entries => ∀ entry ∈ entries, motive entry.2)
    (fun fields => ∀ field ∈ fields, motive field.2)
    (fun entry => motive entry.2) (fun field => motive field.2)
    address bool uint int fixedBytes bytes string array tuple struct null
    (fun _ member => absurd member List.not_mem_nil)
    (fun _ _ head tail => List.forall_mem_cons.2 ⟨head, tail⟩)
    (fun _ member => absurd member List.not_mem_nil)
    (fun _ _ head tail => List.forall_mem_cons.2 ⟨head, tail⟩)
    (fun _ member => absurd member List.not_mem_nil)
    (fun _ _ head tail => List.forall_mem_cons.2 ⟨head, tail⟩)
    (fun _ _ own => own) (fun _ _ own => own)
    v

mutual

/-- The value without the names of the components of its tuples. -/
def unnamed : Value → Value
  | .array items => .array (unnamedItems items)
  | .tuple entries => .tuple (unnamedEntries entries)
  | .struct fields => .struct (unnamedFields fields)
  | v => v

def unnamedItems : List Value → List Value
  | [] => []
  | v :: rest => v.unnamed :: unnamedItems rest

def unnamedEntries : List (Option String × Value) → List (Option String × Value)
  | [] => []
  | (_, v) :: rest => (none, v.unnamed) :: unnamedEntries rest

def unnamedFields : List (String × Value) → List (String × Value)
  | [] => []
  | (name, v) :: rest => (name, v.unnamed) :: unnamedFields rest

end

theorem sameItems_iff {items others : List Value}
    (each : ∀ v ∈ items, ∀ w, v.same w = true ↔ v.unnamed = w.unnamed) :
    sameItems items others = true ↔ unnamedItems items = unnamedItems others := by
  induction items generalizing others with
  | nil => cases others <;> simp [sameItems, unnamedItems]
  | cons v items ih =>
    cases others with
    | nil => simp [sameItems, unnamedItems]
    | cons w others =>
      rcases List.forall_mem_cons.1 each with ⟨own, rest⟩
      simp [sameItems, unnamedItems, own, ih rest]

theorem sameEntries_iff {entries others : Record}
    (each : ∀ entry ∈ entries, ∀ w, entry.2.same w = true ↔ entry.2.unnamed = w.unnamed) :
    sameEntries entries others = true ↔ unnamedEntries entries = unnamedEntries others := by
  induction entries generalizing others with
  | nil => cases others <;> simp [sameEntries, unnamedEntries]
  | cons entry entries ih =>
    cases others with
    | nil => simp [sameEntries, unnamedEntries]
    | cons other others =>
      obtain ⟨_, v⟩ := entry
      obtain ⟨_, w⟩ := other
      rcases List.forall_mem_cons.1 each with ⟨own, rest⟩
      simp [sameEntries, unnamedEntries, own, ih rest]

theorem sameFields_iff {fields others : List (String × Value)}
    (each : ∀ field ∈ fields, ∀ w, field.2.same w = true ↔ field.2.unnamed = w.unnamed) :
    sameFields fields others = true ↔ unnamedFields fields = unnamedFields others := by
  induction fields generalizing others with
  | nil => cases others <;> simp [sameFields, unnamedFields]
  | cons field fields ih =>
    cases others with
    | nil => simp [sameFields, unnamedFields]
    | cons other others =>
      obtain ⟨_, v⟩ := field
      obtain ⟨_, w⟩ := other
      rcases List.forall_mem_cons.1 each with ⟨own, rest⟩
      simp [sameFields, unnamedFields, own, ih rest]

theorem same_iff (v w : Value) : v.same w = true ↔ v.unnamed = w.unnamed := by
  induction v generalizing w with
  | array items ih =>
    cases w with
    | array others => simpa [same, unnamed] using sameItems_iff ih
    | _ => simp [same, unnamed]
  | tuple entries ih =>
    cases w with
    | tuple others => simpa [same, unnamed] using sameEntries_iff ih
    | _ => simp [same, unnamed]
  | struct fields ih =>
    cases w with
    | struct others => simpa [same, unnamed] using sameFields_iff ih
    | _ => simp [same, unnamed]
  | _ => cases w <;> simp [same, unnamed]

end Value

theorem Record.same_iff (r s : Record) :
    r.same s = true ↔ Value.unnamedEntries r = Value.unnamedEntries s :=
  Value.sameEntries_iff fun entry _ w => Value.same_iff entry.2 w

namespace AbiType

theorem componentsText_relabelAll {f : Label → Label} {types : List AbiType}
    (each : ∀ t ∈ types, (t.relabel f).bareText .canonical = t.bareText .canonical) :
    componentsText .canonical (relabelAll f types) = componentsText .canonical types := by
  induction types with
  | nil => rfl
  | cons t types ih =>
    rcases List.forall_mem_cons.1 each with ⟨own, rest⟩
    cases types with
    | nil => simpa [relabelAll, componentsText, TypeStyle.labelText] using own
    | cons next types =>
      have others := ih rest
      rw [relabelAll] at others
      simp [relabelAll, componentsText, TypeStyle.labelText, own, others]

theorem canonicalText_relabel (f : Label → Label) (t : AbiType) :
    (t.relabel f).canonicalText = t.canonicalText := by
  have bare : (t.relabel f).bareText .canonical = t.bareText .canonical := by
    induction t with
    | array label element length ih => rw [relabel, bareText, ih, bareText]
    | tuple label components ih => rw [relabel, bareText, componentsText_relabelAll ih, bareText]
    | _ => rfl
  rw [canonicalText, canonicalText, text, text, bare]
  rfl

theorem maxDepthOf_relabelAll {f : Label → Label} {types : List AbiType}
    (each : ∀ t ∈ types, (t.relabel f).depth = t.depth) :
    maxDepthOf (relabelAll f types) = maxDepthOf types := by
  induction types with
  | nil => rfl
  | cons t types ih =>
    rcases List.forall_mem_cons.1 each with ⟨own, rest⟩
    rw [relabelAll, maxDepthOf, own, ih rest, maxDepthOf]

theorem depth_relabel (f : Label → Label) (t : AbiType) : (t.relabel f).depth = t.depth := by
  induction t with
  | array label element length ih => rw [relabel, depth, ih, depth]
  | tuple label components ih => rw [relabel, depth, maxDepthOf_relabelAll ih, depth]
  | _ => rfl

end AbiType

namespace Layout

mutual

/-- The layout under other names, at every depth. -/
def rename (f : Option String → Option String) : Layout → Layout
  | address name => address (f name)
  | bool name => bool (f name)
  | number name width isSigned => number (f name) width isSigned
  | fixedBytes name width => fixedBytes (f name) width
  | bytes name => bytes (f name)
  | string name => string (f name)
  | null name => null (f name)
  | array name element length => array (f name) (element.rename f) length
  | tuple name components => tuple (f name) (renameAll f components)

def renameAll (f : Option String → Option String) : List Layout → List Layout
  | [] => []
  | c :: rest => c.rename f :: renameAll f rest

end

/-- The layout without names. -/
def unnamed (l : Layout) : Layout := l.rename fun _ => none

section

variable (f : Option String → Option String)

theorem renameAll_eq_map (components : List Layout) :
    renameAll f components = components.map (rename f) := by
  induction components with
  | nil => rfl
  | cons c components ih => rw [renameAll, ih, List.map_cons]

theorem name_rename (l : Layout) : (l.rename f).name = f l.name := by
  cases l <;> rfl

theorem kindName_rename (l : Layout) : (l.rename f).kindName = l.kindName := by
  cases l <;> rfl

theorem anyDynamic_renameAll {components : List Layout}
    (each : ∀ c ∈ components, (c.rename f).isDynamic = c.isDynamic) :
    anyDynamic (renameAll f components) = anyDynamic components := by
  induction components with
  | nil => rfl
  | cons c components ih =>
    rcases List.forall_mem_cons.1 each with ⟨own, rest⟩
    rw [renameAll, anyDynamic, own, ih rest, anyDynamic]

theorem isDynamic_rename (l : Layout) : (l.rename f).isDynamic = l.isDynamic := by
  induction l with
  | array name element length ih => rw [rename, isDynamic, ih, isDynamic]
  | tuple name components ih => rw [rename, isDynamic, anyDynamic_renameAll f ih, isDynamic]
  | _ => rfl

theorem headSizes_renameAll {components : List Layout}
    (each : ∀ c ∈ components, (c.rename f).headSize = c.headSize) :
    headSizes (renameAll f components) = headSizes components := by
  induction components with
  | nil => rfl
  | cons c components ih =>
    rcases List.forall_mem_cons.1 each with ⟨own, rest⟩
    rw [renameAll, headSizes, own, ih rest, headSizes]

theorem headSize_rename (l : Layout) : (l.rename f).headSize = l.headSize := by
  induction l with
  | array name element length ih =>
    cases length with
    | dynamic => rfl
    | fixed n => rw [rename, headSize, headSize, isDynamic_rename, ih]
  | tuple name components ih =>
    have dynamic : anyDynamic (renameAll f components) = anyDynamic components :=
      isDynamic_rename f (tuple name components)
    rw [rename, headSize, headSize, dynamic, headSizes_renameAll f ih]
  | _ => rfl

theorem componentChars_renameAll {components : List Layout}
    (each : ∀ c ∈ components, (c.rename f).typeChars = c.typeChars) :
    componentChars (renameAll f components) = componentChars components := by
  induction components with
  | nil => rfl
  | cons c components ih =>
    rcases List.forall_mem_cons.1 each with ⟨own, rest⟩
    cases components with
    | nil => exact own
    | cons next components =>
      have others := ih rest
      rw [renameAll] at others
      simp [renameAll, componentChars, own, others]

theorem typeText_rename (l : Layout) : (l.rename f).typeText = l.typeText := by
  have chars : (l.rename f).typeChars = l.typeChars := by
    induction l with
    | array name element length ih => exact congrArg (· ++ length.suffix) ih
    | tuple name components ih =>
      exact congrArg (fun text => '(' :: text ++ [')']) (componentChars_renameAll f ih)
    | _ => rfl
  rw [typeText, chars, typeText]

theorem staticWordsFrom?_renameAll {components : List Layout}
    (each : ∀ c ∈ components, (c.rename f).staticWords? = c.staticWords?) (words : Nat) :
    staticWordsFrom? words (renameAll f components) = staticWordsFrom? words components := by
  induction components generalizing words with
  | nil => rfl
  | cons c components ih =>
    rcases List.forall_mem_cons.1 each with ⟨own, rest⟩
    rw [renameAll, staticWordsFrom?, own, staticWordsFrom?]
    simp only [ih rest]

theorem staticWords?_rename (l : Layout) : (l.rename f).staticWords? = l.staticWords? := by
  induction l with
  | array name element length ih =>
    cases length with
    | dynamic => rfl
    | fixed n => rw [rename, staticWords?, ih, staticWords?]
  | tuple name components ih =>
    rw [rename, staticWords?, staticWordsFrom?_renameAll f ih, staticWords?]
  | _ => rfl

end

theorem limited_unnamed {t u : AbiType} (same : u.canonicalText = t.canonicalText) (limit : Nat)
    (l : Layout) : limited limit u l.unnamed = (limited limit t l).map unnamed := by
  rw [limited, limited, unnamed, staticWords?_rename, same]
  cases l.staticWords? with
  | none => rfl
  | some words =>
    by_cases within : words ≤ limit
    · simp only [if_pos within]
      rfl
    · simp only [if_neg within]
      rfl

theorem buildAll_relabelAll {limit : Nat} {types : List AbiType}
    (each : ∀ t ∈ types, build limit t.unlabelled = (build limit t).map unnamed) :
    buildAll limit (AbiType.relabelAll (fun _ => {}) types) =
      (buildAll limit types).map (renameAll fun _ => none) := by
  induction types with
  | nil => rfl
  | cons t types ih =>
    rcases List.forall_mem_cons.1 each with ⟨own, rest⟩
    rw [AbiType.unlabelled] at own
    rw [AbiType.relabelAll, buildAll, own, ih rest, buildAll]
    cases build limit t with
    | error e => rfl
    | ok l => cases buildAll limit types <;> rfl

/-- Without labels a type has the layout that it has with them, without the names. -/
theorem build_unlabelled (limit : Nat) (t : AbiType) :
    build limit t.unlabelled = (build limit t).map unnamed := by
  induction t with
  | elementary label name =>
    rw [AbiType.unlabelled, AbiType.relabel, build, build]
    rcases ofElementary_outcome name with ⟨e, refused⟩ | ⟨kind, elementary, laid⟩
    · rw [refused, refused]
      rfl
    · rw [laid, laid]
      cases elementary <;> rfl
  | array label element length ih =>
    have text := AbiType.canonicalText_relabel (fun _ => {}) (.array label element length)
    rw [AbiType.unlabelled] at ih ⊢
    rw [AbiType.relabel] at text ⊢
    rw [build, ih, build]
    cases build limit element with
    | error e => rfl
    | ok inner => exact limited_unnamed text limit (array label.name inner length)
  | tuple label components ih =>
    have text := AbiType.canonicalText_relabel (fun _ => {}) (.tuple label components)
    rw [AbiType.unlabelled]
    rw [AbiType.relabel] at text ⊢
    rw [build, buildAll_relabelAll ih, build]
    cases buildAll limit components with
    | error e => rfl
    | ok inner => exact limited_unnamed text limit (tuple label.name inner)
  | empty label => rfl

theorem ofType_unlabelled (settings : Settings) (t : AbiType) :
    ofType settings t.unlabelled = (ofType settings t).map unnamed := by
  have depth := AbiType.depth_relabel (fun _ => {}) t
  have text := AbiType.canonicalText_relabel (fun _ => {}) t
  rw [← AbiType.unlabelled] at depth text
  rw [ofType, ofType, depth, text, build_unlabelled]
  split <;> rfl

end Layout

end AbiCodec
