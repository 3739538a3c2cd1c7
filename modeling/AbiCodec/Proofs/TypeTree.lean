import AbiCodec.Codec
import AbiCodec.Proofs.StaticSize
import Mathlib.Data.List.Forall2

/-!
# Types as trees

The induction over a type has one case for each kind; in the case of a tuple the
hypothesis speaks of every component. A layout is built along the tree of its
type, child by child, and takes its names from there.
-/

namespace AbiCodec

theorem exists_of_bind_eq_ok {ε α β : Type} {x : Except ε α} {f : α → Except ε β} {b : β}
    (h : x >>= f = .ok b) : ∃ a, x = .ok a ∧ f a = .ok b := by
  cases x with
  | error e => cases h
  | ok a => exact ⟨a, rfl, h⟩

@[elab_as_elim, induction_eliminator]
theorem AbiType.induction {motive : AbiType → Prop}
    (elementary : ∀ label name, motive (.elementary label name))
    (array : ∀ label element length, motive element → motive (.array label element length))
    (tuple : ∀ label components, (∀ t ∈ components, motive t) → motive (.tuple label components))
    (empty : ∀ label, motive (.empty label)) (t : AbiType) : motive t :=
  @AbiType.rec motive (fun components => ∀ t ∈ components, motive t)
    elementary array tuple empty
    (fun _ member => absurd member List.not_mem_nil)
    (fun _ _ head tail _ member => by
      rcases List.mem_cons.1 member with rfl | member
      · exact head
      · exact tail _ member)
    t

namespace Layout

variable {limit : Nat} {l : Layout}

/-- The layouts are those of the types, one by one. -/
def Built (limit : Nat) (types : List AbiType) (layouts : List Layout) : Prop :=
  List.Forall₂ (fun t l => build limit t = .ok l) types layouts

theorem built_of_buildAll {types : List AbiType} {layouts : List Layout}
    (h : buildAll limit types = .ok layouts) : Built limit types layouts := by
  induction types generalizing layouts with
  | nil =>
    cases h
    exact .nil
  | cons t types ih =>
    rw [buildAll] at h
    obtain ⟨l, first, h⟩ := exists_of_bind_eq_ok h
    obtain ⟨others, rest, h⟩ := exists_of_bind_eq_ok h
    cases h
    exact .cons first (ih rest)

theorem exists_of_build_array {label : Label} {element : AbiType} {length : ArrayLength}
    (h : build limit (.array label element length) = .ok l) :
    ∃ inner, build limit element = .ok inner ∧ l = .array label.name inner length := by
  rw [build] at h
  obtain ⟨inner, built, h⟩ := exists_of_bind_eq_ok h
  exact ⟨inner, built, (limited_eq_ok h).1⟩

theorem exists_of_build_tuple {label : Label} {components : List AbiType}
    (h : build limit (.tuple label components) = .ok l) :
    ∃ inner, Built limit components inner ∧ l = .tuple label.name inner := by
  rw [build] at h
  obtain ⟨inner, built, h⟩ := exists_of_bind_eq_ok h
  exact ⟨inner, built_of_buildAll built, (limited_eq_ok h).1⟩

theorem name_ofElementary {typeName : String} {label : Option String}
    (h : ofElementary typeName label = .ok l) : l.name = label := by
  obtain ⟨kind, elementary, rfl⟩ := exists_of_ofElementary h
  cases elementary <;> rfl

theorem name_of_build {t : AbiType} (h : build limit t = .ok l) : l.name = t.name := by
  cases t with
  | empty label =>
    cases h
    rfl
  | elementary label typeName => exact name_ofElementary h
  | array label element length =>
    obtain ⟨inner, _, rfl⟩ := exists_of_build_array h
    rfl
  | tuple label components =>
    obtain ⟨inner, _, rfl⟩ := exists_of_build_tuple h
    rfl

theorem Built.map_name {types : List AbiType} {layouts : List Layout}
    (h : Built limit types layouts) : layouts.map name = types.map AbiType.name := by
  induction h with
  | nil => rfl
  | cons first _ ih => rw [List.map_cons, List.map_cons, name_of_build first, ih]

theorem build_of_ofType {settings : Settings} {t : AbiType}
    (accepted : ofType settings t = .ok l) : build settings.maxStaticWords t = .ok l := by
  rw [ofType] at accepted
  split at accepted
  · cases accepted
  · exact accepted

end Layout

/-- Accepted types have been read, and laid out one by one. -/
theorem exists_of_layoutsOf {settings : Settings} {types : List TypeSource} {layouts : List Layout}
    (accepted : layoutsOf settings types = .ok layouts) :
    ∃ trees, types.mapM TypeSource.resolve = .ok trees ∧ trees.length = types.length ∧
      List.Forall₂ (fun t l => Layout.ofType settings t = .ok l) trees layouts := by
  rw [layoutsOf] at accepted
  induction types generalizing layouts with
  | nil =>
    cases accepted
    exact ⟨[], rfl, rfl, .nil⟩
  | cons source types ih =>
    rw [List.mapM_cons] at accepted
    obtain ⟨l, first, accepted⟩ := exists_of_bind_eq_ok accepted
    obtain ⟨t, read, laid⟩ := exists_of_bind_eq_ok first
    obtain ⟨others, rest, accepted⟩ := exists_of_bind_eq_ok accepted
    cases accepted
    obtain ⟨trees, resolved, same, each⟩ := ih rest
    refine ⟨t :: trees, ?_, congrArg Nat.succ same, .cons laid each⟩
    rw [List.mapM_cons, read, resolved]
    rfl

theorem layoutsOf_map_tree_eq_ok_iff {settings : Settings} {types : List AbiType}
    {layouts : List Layout} :
    layoutsOf settings (types.map .tree) = .ok layouts ↔
      List.Forall₂ (fun t l => Layout.ofType settings t = .ok l) types layouts := by
  constructor
  · intro accepted
    obtain ⟨trees, resolved, _, laid⟩ := exists_of_layoutsOf accepted
    have same : (types.map .tree).mapM TypeSource.resolve = .ok types := by
      rw [List.mapM_map]
      exact (List.mapM_pure (f := id)).trans (congrArg Except.ok types.map_id)
    rw [same] at resolved
    cases resolved
    exact laid
  · intro laid
    induction laid with
    | nil => rfl
    | @cons t l types layouts first _ ih =>
      have built : (do Layout.ofType settings (← (TypeSource.tree t).resolve)) = .ok l := first
      rw [layoutsOf] at ih ⊢
      rw [List.map_cons, List.mapM_cons, built, ih]
      rfl

theorem map_name_of_layoutsOf {settings : Settings} {types : List AbiType} {layouts : List Layout}
    (accepted : layoutsOf settings (types.map .tree) = .ok layouts) :
    layouts.map Layout.name = types.map AbiType.name :=
  Layout.Built.map_name
    ((layoutsOf_map_tree_eq_ok_iff.1 accepted).imp fun _ _ => Layout.build_of_ofType)

end AbiCodec
