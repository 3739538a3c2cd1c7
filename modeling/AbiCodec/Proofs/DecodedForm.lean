import AbiCodec.Codec
import AbiCodec.Proofs.Conformance
import AbiCodec.Proofs.ReadOutcomes
import AbiCodec.Proofs.TypeTree

/-!
# The form of decoded values

Whatever the data, what a reader without a hook gives conforms to its layout, and
each tuple in it has the names of its components: a value is `Named` by a layout,
and by the type of that layout, when its tuples are at every depth.
-/

namespace AbiCodec

namespace Record

/-- One name for each value, and a name stands for the first value that has it. -/
structure HasNames (names : List (Option String)) (r : Record) : Prop where
  names_eq : r.names = names
  named?_eq : ∀ name, r.named? name = (names.findIdx? (· == some name)).bind r.at?

theorem hasNames_names (r : Record) : r.HasNames r.names where
  names_eq := rfl
  named?_eq name := by
    rw [named?, List.find?_eq_bind_findIdx?_getElem?, Option.map_bind, Record.names,
      List.findIdx?_map]
    rfl

end Record

mutual

def AbiType.Named : AbiType → Value → Prop
  | .array _ element _, v => ∀ items, v = .array items → ∀ item ∈ items, element.Named item
  | .tuple _ components, v => ∀ entries, v = .tuple entries →
    Record.HasNames (components.map AbiType.name) entries ∧
      AbiType.AllNamed components (Record.values entries)
  | _, _ => True

def AbiType.AllNamed : List AbiType → List Value → Prop
  | t :: types, v :: values => t.Named v ∧ AbiType.AllNamed types values
  | _, _ => True

end

namespace Reading

variable {α β : Type}

/-- What the action gives a reader without a hook satisfies `post`. -/
def Yields (post : α → Prop) (action : Reading α) : Prop :=
  ∀ ⦃r x after⦄, r.hook = none → action.runFrom r = (.ok x, after) → post x ∧ after.hook = none

theorem Yields.pure {post : α → Prop} {x : α} (h : post x) : Yields post (pure x) := by
  intro r y after hookless run
  cases run
  exact ⟨h, hookless⟩

theorem Yields.inspect {post : α → Prop} {f : Reader → Except AbiError α}
    (gives : ∀ r x, r.hook = none → f r = .ok x → post x) : Yields post (inspect f) := by
  intro r x after hookless run
  obtain ⟨given, rfl⟩ := Prod.mk.inj run
  exact ⟨gives r x hookless given, hookless⟩

theorem Yields.ofExcept {post : α → Prop} {result : Except AbiError α}
    (gives : ∀ x, result = .ok x → post x) : Yields post (ofExcept result) :=
  Yields.inspect fun _ x _ given => gives x given

theorem Yields.bind {first : α → Prop} {post : β → Prop} {action : Reading α} {next : α → Reading β}
    (yields : Yields first action) (resume : ∀ x, first x → Yields post (next x)) :
    Yields post (action >>= next) := by
  intro r y after hookless run
  obtain ⟨x, mid, before, rest⟩ := exists_of_runFrom_bind run
  obtain ⟨given, still⟩ := yields hookless before
  exact resume x given still rest

theorem Yields.checked {first : α → Prop} {post : β → Prop} {action : Reading α}
    {check : Reader → α → Except AbiError β} (yields : Yields first action)
    (checks : ∀ r x y, first x → check r x = .ok y → post y) :
    Yields post (checked action check) := by
  intro r y after hookless run
  obtain ⟨x, before, passed⟩ := exists_of_runFrom_checked run
  obtain ⟨given, still⟩ := yields hookless before
  exact ⟨checks r x y given passed, still⟩

theorem Yields.coerce {first : α → Prop} {post : Value → Prop} {action : Reading α} {f : α → Value}
    (yields : Yields first action) (name : String) (gives : ∀ x, first x → post (f x)) :
    Yields post (action >>= fun x => coerce name (f x)) := by
  apply yields.bind
  intro x given
  apply Yields.inspect
  intro r v hookless kept
  rw [Reader.coerce, hookless] at kept
  cases kept
  exact gives x given

theorem Yields.elsewhere {post : α → Prop} {action : Reading α} {place : Reader}
    (yields : Yields post action) (there : place.hook = none) :
    Yields post (elsewhere place action) := by
  intro r x after hookless run
  rw [runFrom_elsewhere] at run
  obtain ⟨given, rfl⟩ := Prod.mk.inj run
  have moved : ({ place with budget := r.budget } : Reader).hook = none := there
  exact ⟨(yields moved (Prod.ext given rfl)).1, hookless⟩

theorem yields_bytes (length : Nat) (relaxed : Bool) :
    Yields (fun data => data.length = length) (bytes length relaxed) := by
  intro r data after hookless run
  obtain ⟨taken, takes, _, rfl, rfl⟩ := exists_of_runFrom_bytes run
  exact ⟨List.length_take_of_le (Nat.le_trans takes.enough takes.length_le_rest), hookless⟩

theorem yields_word : Yields (fun _ => True) word := by
  intro r w after hookless run
  obtain ⟨_, _, rfl⟩ := of_runFrom_word run
  exact ⟨trivial, hookless⟩

theorem yields_count (typeName : String) : Yields (fun _ => True) (count typeName) := by
  rw [count_eq_checked]
  exact yields_word.checked fun _ _ _ _ _ => trivial

theorem hook_of_sub {r place : Reader} {offset : Nat} (made : r.sub offset = .ok place) :
    place.hook = r.hook := by
  obtain ⟨_, rfl⟩ := Reader.of_sub_eq_ok made
  rfl

end Reading

open Reading

namespace Part

variable {base : Reader}

theorem yields_readIn (hookless : base.hook = none) {part : Part} {post : Value → Prop}
    (yields : Yields post part.read) : Yields post (part.readIn base) := by
  rw [readIn]
  split
  · apply (yields_count _).bind
    intro offset _
    apply (Yields.ofExcept fun place made => (hook_of_sub made).trans hookless).bind
    exact fun place there => yields.elsewhere there
  · exact yields

theorem yields_readAllIn (hookless : base.hook = none) {post : Layout → Value → Prop}
    {components : List Layout} (each : ∀ c ∈ components, Yields (post c) c.decode) :
    Yields (List.Forall₂ post components) (readAllIn base (components.map Layout.part)) := by
  induction components with
  | nil => exact Yields.pure .nil
  | cons c components ih =>
    rcases List.forall_mem_cons.1 each with ⟨own, others⟩
    apply (yields_readIn hookless own).bind
    intro v first
    apply (ih others).bind
    intro vs rest
    exact Yields.pure (.cons first rest)

end Part

namespace Layout

variable {post : Layout → Value → Prop}

theorem yields_readBlock {components : List Layout}
    (each : ∀ c ∈ components, Yields (post c) c.decode) :
    Yields (List.Forall₂ post components) (readBlock (components.map part)) := by
  apply (Yields.inspect fun r base hookless made => (hook_of_sub made).trans hookless).bind
  exact fun base hookless => Part.yields_readAllIn hookless each

theorem yields_readPayload (typeName : String) : Yields (fun _ => True) (readPayload typeName) := by
  apply (yields_count typeName).bind
  intro length _ r data after hookless run
  exact ⟨trivial, (yields_bytes length true hookless run).2⟩

theorem yields_readAddress : Yields (fun v => ∃ a, v = .address a) readAddress := by
  rw [readAddress_eq_checked]
  apply yields_word.checked
  intro r w v _ passed
  split at passed
  · cases passed
    exact ⟨_, rfl⟩
  · cases passed

theorem yields_readText : Yields (fun v => ∃ text, v = .string text) readText := by
  rw [readText_eq_checked]
  apply (yields_readPayload "string").checked
  intro r data v _ passed
  split at passed
  · cases passed
    exact ⟨_, rfl⟩
  · cases passed

theorem yields_readCount (l element : Layout) (length : ArrayLength) :
    Yields (fun count => length.admits count = true) (l.readCount element length) := by
  cases length with
  | fixed n =>
    intro r count after hookless run
    obtain ⟨⟨rfl, rfl⟩, _⟩ := fixedCount_eq_ok_iff.1 run
    exact ⟨beq_iff_eq.2 rfl, hookless⟩
  | dynamic =>
    rw [readCount, dynamicCount_eq_checked]
    exact (yields_count "array").checked fun _ _ _ _ _ => rfl

/-- The record has the names of the components, and a value for each. -/
theorem yields_decodeAll {components : List Layout}
    (each : ∀ c ∈ components, Yields (post c) c.decode) :
    Yields (fun record => Record.HasNames (components.map name) record ∧
      List.Forall₂ post components (Record.values record)) (decodeAll components) := by
  rw [decodeAll, parts_eq_map]
  apply (yields_readBlock each).bind
  intro values given
  have same : (components.map name).length = values.length := by
    rw [List.length_map, given.length_eq]
  rw [recordOf, Record.ofParts?, if_pos same]
  apply Yields.pure
  have names := Record.names_ofParts? (if_pos same : Record.ofParts? _ values = _)
  have inOrder := Record.values_ofParts? (if_pos same : Record.ofParts? _ values = _)
  have own := Record.hasNames_names ((components.map name).zip values)
  rw [names] at own
  rw [inOrder]
  exact ⟨own, given⟩

mutual

def Named : Layout → Value → Prop
  | array _ element _, v => ∀ items, v = .array items → ∀ item ∈ items, element.Named item
  | tuple _ components, v => ∀ entries, v = .tuple entries →
    Record.HasNames (components.map name) entries ∧ AllNamed components (Record.values entries)
  | _, _ => True

def AllNamed : List Layout → List Value → Prop
  | c :: components, v :: values => c.Named v ∧ AllNamed components values
  | _, _ => True

end

/-- The value is what a layout gives: it has the form and the names of the layout. -/
structure Given (l : Layout) (v : Value) : Prop where
  conforms : l.Conforms v
  named : l.Named v

theorem conformAll_of_given {components : List Layout} {values : List Value}
    (h : List.Forall₂ Given components values) : ConformAll components values := by
  induction h with
  | nil => rfl
  | cons first _ ih => exact ⟨_, _, rfl, first.conforms, ih⟩

theorem allNamed_of_given {components : List Layout} {values : List Value}
    (h : List.Forall₂ Given components values) : AllNamed components values := by
  induction h with
  | nil => trivial
  | cons first _ ih => exact ⟨first.named, ih⟩

theorem forall_mem_of_given {element : Layout} {count : Nat} {items : List Value}
    (h : List.Forall₂ Given (List.replicate count element) items) :
    items.length = count ∧ ∀ item ∈ items, element.Given item := by
  induction items generalizing count with
  | nil =>
    have none := h.length_eq
    rw [List.length_replicate] at none
    exact ⟨none.symm, fun _ member => absurd member List.not_mem_nil⟩
  | cons v items ih =>
    cases count with
    | zero => cases h
    | succ count =>
      cases h with
      | cons first rest =>
        obtain ⟨same, others⟩ := ih rest
        exact ⟨congrArg Nat.succ same, List.forall_mem_cons.2 ⟨first, others⟩⟩

theorem yields_decode (l : Layout) : Yields l.Given l.decode := by
  induction l with
  | address name => exact yields_readAddress.coerce _ fun v given => ⟨given, trivial⟩
  | bool name => exact yields_word.coerce _ fun w _ => ⟨⟨_, rfl⟩, trivial⟩
  | number name width isSigned => exact yields_word.coerce _ fun w _ => ⟨⟨w, rfl⟩, trivial⟩
  | fixedBytes name width =>
    exact (yields_bytes _ _).coerce _ fun data sized => ⟨⟨data, rfl, sized⟩, trivial⟩
  | bytes name => exact (yields_readPayload _).coerce _ fun data _ => ⟨⟨data, rfl⟩, trivial⟩
  | string name => exact yields_readText.coerce _ fun v given => ⟨given, trivial⟩
  | null name => exact (yields_bytes _ _).coerce _ fun _ _ => ⟨rfl, trivial⟩
  | array name element length ih =>
    rw [decode_array]
    apply (yields_readCount _ _ _).bind
    intro count admitted
    rw [← List.map_replicate]
    apply (yields_readBlock (List.forall_mem_replicate.2 (Or.inr ih))).coerce
    intro items given
    obtain ⟨rfl, each⟩ := forall_mem_of_given given
    refine ⟨⟨items, rfl, admitted, fun item member => (each item member).conforms⟩, ?_⟩
    intro same own item member
    cases own
    exact (each item member).named
  | tuple name components ih =>
    rw [decode_tuple]
    apply (yields_decodeAll ih).coerce
    rintro record ⟨names, given⟩
    refine ⟨⟨record, rfl, conformAll_of_given given⟩, ?_⟩
    intro entries own
    cases own
    exact ⟨names, allNamed_of_given given⟩

theorem Built.allNamed {limit : Nat} {types : List AbiType} {layouts : List Layout}
    (h : Built limit types layouts)
    (each : ∀ t ∈ types, ∀ l v, build limit t = .ok l → l.Named v → t.Named v) {values : List Value}
    (named : AllNamed layouts values) : AbiType.AllNamed types values := by
  induction h generalizing values with
  | nil => trivial
  | cons first _ ih =>
    rcases List.forall_mem_cons.1 each with ⟨own, others⟩
    cases values with
    | nil => trivial
    | cons v values => exact ⟨own _ v first named.1, ih others named.2⟩

/-- A layout has the names of its type at every depth. -/
theorem named_of_build {limit : Nat} {t : AbiType} {l : Layout} {v : Value}
    (built : build limit t = .ok l) (named : l.Named v) : t.Named v := by
  induction t generalizing l v with
  | elementary label typeName => trivial
  | empty label => trivial
  | array label element length ih =>
    obtain ⟨inner, laid, rfl⟩ := exists_of_build_array built
    intro items own item member
    exact ih laid (named items own item member)
  | tuple label components ih =>
    obtain ⟨inner, laid, rfl⟩ := exists_of_build_tuple built
    intro entries own
    obtain ⟨names, each⟩ := named entries own
    rw [laid.map_name] at names
    exact ⟨names, laid.allNamed (fun t member _ _ => ih t member) each⟩

end Layout

end AbiCodec
