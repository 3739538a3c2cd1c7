import AbiCodec.Contract.Interface
import AbiCodec.Proofs.RoundTrip
import AbiCodec.Proofs.TypeTree

/-!
# Call data

Call data are a selector and the arguments after it. An interface takes the
first of its functions that has the selector, so a call comes back as it was made
unless an earlier function has the same selector. The hash that selectors come
from stays closed: any two functions may have the same one.
-/

namespace AbiCodec

attribute [local irreducible] selectorOf

theorem length_selectorOf (signature : String) : (selectorOf signature).length = selectorSize := by
  rw [selectorOf, List.length_take, Word.length_toBytes]
  rfl

theorem splitCallData_of_short {data : Bytes} (short : data.length < selectorSize) :
    splitCallData data = .error (.malformedData "selector" .shortCallData data.length 0) :=
  if_pos short

theorem splitCallData_of_long {data : Bytes} (long : selectorSize ≤ data.length) :
    splitCallData data = .ok (data.take selectorSize, data.drop selectorSize) :=
  if_neg (Nat.not_lt.2 long)

namespace Function

variable {f : Function} {data : Bytes}

theorem length_selector (f : Function) : f.selector.length = selectorSize :=
  length_selectorOf f.signature

theorem splitCallData_join (f : Function) (arguments : Bytes) :
    splitCallData (joinCallData f.selector arguments) = .ok (f.selector, arguments) := by
  have length := f.length_selector
  rw [joinCallData, splitCallData_of_long]
  · rw [List.take_left' length, List.drop_left' length]
  · rw [List.length_append, length]
    exact Nat.le_add_right _ _

theorem encodeInput_eq_ok_iff {values : List Value} :
    f.encodeInput values = .ok data ↔ ∃ arguments,
      encode .standard (f.inputs.map .tree) values = .ok arguments ∧
        data = joinCallData f.selector arguments := by
  rw [encodeInput]
  constructor
  · intro encoded
    obtain ⟨arguments, written, joined⟩ := exists_of_bind_eq_ok encoded
    cases joined
    exact ⟨arguments, written, rfl⟩
  · rintro ⟨arguments, written, rfl⟩
    rw [written]
    rfl

/-- The arguments come back in their canonical form, under the names of the inputs. -/
theorem decodeInput_of_encodeInput {layouts : List Layout} {values : List Value}
    (accepted : layoutsOf .standard (f.inputs.map .tree) = .ok layouts)
    (sized : Layout.allSized layouts = true) (encoded : f.encodeInput values = .ok data)
    (small : data.length < 2 ^ 63) :
    ∃ record, f.decodeInput data = .ok record ∧
      Layout.canonicalRecord? layouts values = some record ∧
      record.names = f.inputs.map AbiType.name := by
  obtain ⟨arguments, written, rfl⟩ := encodeInput_eq_ok_iff.1 encoded
  obtain ⟨forms, canonical, rfl⟩ := forms_of_encode accepted written
  rw [joinCallData, List.length_append] at small
  have decoded := decode_of_forms accepted sized canonical List.prefix_rfl
    (Nat.lt_of_le_of_lt (Nat.le_add_left _ _) small) false
  refine ⟨(layouts.map Layout.name).zip forms, ?_, ?_, ?_⟩
  · rw [decodeInput, splitCallData_join]
    exact (if_pos rfl).trans decoded
  · rw [Layout.canonicalRecord?, Layout.canonicalAll?_eq_some_iff.2 canonical, Option.map_some]
  · rw [← map_name_of_layoutsOf accepted]
    exact List.map_fst_zip (by rw [List.length_map, canonical.length_eq.2])

/-- A function takes no call data that do not start with its selector. -/
theorem decodeInput_of_take_ne (other : data.take selectorSize ≠ f.selector) :
    ∃ e, f.decodeInput data = .error e ∧ e.kind = .malformedData := by
  rw [decodeInput]
  by_cases short : data.length < selectorSize
  · rw [splitCallData_of_short short]
    exact ⟨_, rfl, rfl⟩
  · rw [splitCallData_of_long (Nat.not_lt.1 short)]
    exact ⟨_, if_neg other, rfl⟩

end Function

namespace ContractInterface

variable {contract : ContractInterface} {selector : Bytes}

theorem functionSelected?_eq_none_iff :
    contract.functionSelected? selector = none ↔
      ∀ g ∈ contract.functions, g.selector ≠ selector := by
  simp [functionSelected?]

theorem functionSelected?_eq_some_iff {f : Function} :
    contract.functionSelected? selector = some f ↔ f.selector = selector ∧
      ∃ before after, contract.functions = before ++ f :: after ∧
        ∀ g ∈ before, g.selector ≠ selector := by
  simp [functionSelected?, List.find?_eq_some_iff_append]

theorem decodeCall_of_split (contract : ContractInterface) {data arguments : Bytes}
    (split : splitCallData data = .ok (selector, arguments)) :
    contract.decodeCall data = match contract.functionSelected? selector with
      | none =>
        .error (.malformedData "selector" (.unknownSelector (hexText selector)) data.length 0)
      | some f => (f.decodeInput data).map fun record => (f, record) := by
  rw [decodeCall, split]
  dsimp only [bind, Except.bind]
  cases contract.functionSelected? selector with
  | none => rfl
  | some f => cases f.decodeInput data <;> rfl

theorem decodeCall_of_unknown {data : Bytes}
    (unknown : data.length < selectorSize ∨
      ∀ g ∈ contract.functions, g.selector ≠ data.take selectorSize) :
    ∃ e, contract.decodeCall data = .error e ∧ e.kind = .malformedData := by
  by_cases short : data.length < selectorSize
  · rw [decodeCall, splitCallData_of_short short]
    exact ⟨_, rfl, rfl⟩
  · have missing := functionSelected?_eq_none_iff.2 (unknown.resolve_left short)
    rw [contract.decodeCall_of_split (splitCallData_of_long (Nat.not_lt.1 short)), missing]
    exact ⟨_, rfl, rfl⟩

/-- A function that is in the interface has a selector that some function there has first. -/
theorem exists_first_of_mem {f : Function} (member : f ∈ contract.functions) :
    ∃ g before after, contract.functions = before ++ g :: after ∧ g.selector = f.selector ∧
      (∀ h ∈ before, h.selector ≠ f.selector) ∧
      contract.functionSelected? f.selector = some g := by
  cases selected : contract.functionSelected? f.selector with
  | none => exact absurd rfl (functionSelected?_eq_none_iff.1 selected f member)
  | some g =>
    obtain ⟨same, before, after, functions, first⟩ := functionSelected?_eq_some_iff.1 selected
    exact ⟨g, before, after, functions, same, first, rfl⟩

/-- Call data of a function come back as its record of canonical values, from the function itself.
The interface gives them to the first function of the selector: to the function that wrote them when
none before it has its selector. It refuses data that no function of it selects, and a function
refuses data that do not select it. -/
theorem decodeCall_encodeInput (contract : ContractInterface) :
    (∀ (before after : List Function) (f : Function) (layouts : List Layout) (values : List Value)
        (data : Bytes), contract.functions = before ++ f :: after →
      layoutsOf .standard (f.inputs.map .tree) = .ok layouts → Layout.allSized layouts = true →
      f.encodeInput values = .ok data → data.length < 2 ^ 63 →
      ∃ record, f.decodeInput data = .ok record ∧
        Layout.canonicalRecord? layouts values = some record ∧
        record.names = f.inputs.map AbiType.name ∧
        ((∀ g ∈ before, g.selector ≠ f.selector) →
          contract.decodeCall data = .ok (f, record)) ∧
        ∃ earlier g later, contract.functions = earlier ++ g :: later ∧
          g.selector = f.selector ∧ (∀ h ∈ earlier, h.selector ≠ f.selector) ∧
          contract.decodeCall data = (g.decodeInput data).map fun record => (g, record)) ∧
      (∀ data : Bytes, (data.length < selectorSize ∨
          ∀ g ∈ contract.functions, g.selector ≠ data.take selectorSize) →
        ∃ e, contract.decodeCall data = .error e ∧ e.kind = .malformedData) ∧
      ∀ (f : Function) (data : Bytes), data.take selectorSize ≠ f.selector →
        ∃ e, f.decodeInput data = .error e ∧ e.kind = .malformedData := by
  refine ⟨?_, fun _ => decodeCall_of_unknown, fun _ _ => Function.decodeInput_of_take_ne⟩
  intro before after f layouts values data functions accepted sized encoded small
  obtain ⟨record, decoded, canonical, names⟩ :=
    Function.decodeInput_of_encodeInput accepted sized encoded small
  obtain ⟨arguments, _, rfl⟩ := Function.encodeInput_eq_ok_iff.1 encoded
  have split := contract.decodeCall_of_split (f.splitCallData_join arguments)
  refine ⟨record, decoded, canonical, names, fun first => ?_, ?_⟩
  · rw [split, functionSelected?_eq_some_iff.2 ⟨rfl, before, after, functions, first⟩]
    exact congrArg (Except.map _) decoded
  · -- The function itself is listed, so some function of its selector is found.
    have member : f ∈ contract.functions :=
      functions ▸ List.mem_append_right before List.mem_cons_self
    obtain ⟨g, earlier, later, listed, same, first, selected⟩ := exists_first_of_mem member
    exact ⟨earlier, g, later, listed, same, first, by rw [split, selected]⟩

set_option maxRecDepth 2000 in
/-- Two functions that differ in the name of their input have the same selector: a call of the
second comes back as one of the first. -/
theorem decodeCall_encodeInput_sameSelector :
    let f : Function := { name := "put", inputs := [.elementary { name := "x" } "uint8"] }
    let g : Function := { name := "put", inputs := [.elementary { name := "y" } "uint8"] }
    let contract : ContractInterface := { functions := [f, g] }
    ∃ data, g.encodeInput [.int 7] = .ok data ∧ g.decodeInput data = .ok [(some "y", .uint 7)] ∧
      contract.decodeCall data = .ok (f, [(some "x", .uint 7)]) := by
  intro f g contract
  let data := joinCallData g.selector (Word.toBytes 7)
  have signature : f.signature = g.signature := rfl
  have selector : f.selector = g.selector := congrArg selectorOf signature
  have first : f.encodeInput [.int 7] = .ok data :=
    Function.encodeInput_eq_ok_iff.2 ⟨Word.toBytes 7, rfl, by rw [selector]⟩
  have second : g.encodeInput [.int 7] = .ok data :=
    Function.encodeInput_eq_ok_iff.2 ⟨Word.toBytes 7, rfl, rfl⟩
  have small : data.length < 2 ^ 63 := by
    change (g.selector ++ Word.toBytes 7).length < 2 ^ 63
    rw [List.length_append, g.length_selector, Word.length_toBytes]
    decide
  have calls := (decodeCall_encodeInput contract).1
  obtain ⟨record, decoded, canonical, _⟩ := calls [f] [] g _ _ data rfl rfl rfl second small
  cases canonical
  obtain ⟨record, _, canonical, _, call, _⟩ := calls [] [g] f _ _ data rfl rfl rfl first small
  cases canonical
  exact ⟨data, second, decoded, call nofun⟩

end ContractInterface

end AbiCodec
