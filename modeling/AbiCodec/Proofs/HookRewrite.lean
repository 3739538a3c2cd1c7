import AbiCodec.Proofs.ParallelReading
import AbiCodec.Proofs.Reencoding

/-!
# Decoding under a hook

A hook has no say in what is read. Decoding under it gives the record that
decoding without one gives, each value in it rewritten from the leaves up: every
node goes through the hook once, with the name of its kind, and an array or a
tuple is built from rewritten children. The record itself is no node.
-/

namespace AbiCodec

namespace Layout

mutual

/-- The value after the hook has been given each node of it, children before their array or
tuple. -/
def rewrite (f : Hook) : Layout → Value → Value
  | array _ element _, .array items => f "array" (.array (items.map (rewrite f element)))
  | tuple _ components, .tuple entries => f "tuple" (.tuple (rewriteEntries f components entries))
  | l, v => f l.kindName v

/-- The values of the components are rewritten, and their names kept. -/
def rewriteEntries (f : Hook) : List Layout → Record → Record
  | c :: components, (name, v) :: entries =>
    (name, c.rewrite f v) :: rewriteEntries f components entries
  | _, _ => []

end

theorem rename_id (l : Layout) : l.rename id = l := by
  induction l with
  | array name element length ih => rw [rename, ih, id]
  | tuple name components ih =>
    rw [rename, renameAll_eq_map, List.map_congr_left ih, List.map_id', id]
  | _ => rfl

theorem renameAll_id (components : List Layout) : renameAll id components = components := by
  rw [renameAll_eq_map, List.map_congr_left fun c _ => rename_id c, List.map_id']

variable (f : Hook)

/-- The first value is the second one after the hook. -/
def Rewritten (l : Layout) (v w : Value) : Prop := v = l.rewrite f w

theorem rewriteEntries_zip {components : List Layout} {vs ws : List Value}
    (related : RelatedAll (Rewritten f) components vs ws) (names : List (Option String)) :
    rewriteEntries f components (names.zip ws) = names.zip vs := by
  induction related generalizing names with
  | nil => cases names <;> rfl
  | cons first _ ih =>
    cases names with
    | nil => rfl
    | cons name names => rw [List.zip_cons_cons, rewriteEntries, ih, ← first, List.zip_cons_cons]

theorem map_rewrite {element : Layout} {count : Nat} {vs ws : List Value}
    (related : RelatedAll (Rewritten f) (List.replicate count element) vs ws) :
    vs = ws.map (element.rewrite f) := by
  induction count generalizing vs ws with
  | zero =>
    cases related
    rfl
  | succ count ih =>
    cases related with
    | cons first rest => rw [List.map_cons, ← ih rest, ← first]

/-- The hook rewrites what a decoder gives without it. -/
theorem carries_rewritten : Carries (some f) none id (Rewritten f) where
  leaf elementary _ _ := by cases elementary <;> rfl
  array related := by
    rw [map_rewrite f related]
    rfl
  tuple related := by
    rw [← rewriteEntries_zip f related]
    rfl

end Layout

/-- Decoding under a hook fails when decoding without one fails, and with the same error. What it
gives otherwise is the same record with each value rewritten; the values are in the form of their
layouts, so the hook meets every node. -/
theorem decode_with_hook {settings : Settings} {types : List TypeSource} {layouts : List Layout}
    (accepted : layoutsOf settings types = .ok layouts) (f : Hook) (data : Bytes)
    (isLoose : Bool) :
    decode settings (some f) types data isLoose =
      (decode settings none types data isLoose).map (Layout.rewriteEntries f layouts) ∧
    ∀ record, decode settings none types data isLoose = .ok record →
      record.names = layouts.map Layout.name ∧ Layout.ConformAll layouts record.values := by
  constructor
  · have carries := Layout.carries_rewritten f
    obtain ⟨x, y, after, left, right, alike⟩ :=
      Layout.parallel_decodeAll (fun c (_ : c ∈ layouts) => Layout.parallel_decode carries c)
        (Reader.start data isLoose none settings.maxInflation)
    rw [Layout.renameAll_id] at right
    have hooked : (decodeFrom layouts settings (some f) data isLoose).1 = x :=
      congrArg Prod.fst left
    have bare : (decodeFrom layouts settings none data isLoose).1 = y := congrArg Prod.fst right
    rw [decode_eq_decodeFrom accepted, decode_eq_decodeFrom accepted, hooked, bare]
    cases alike with
    | error e => rfl
    | ok related =>
      obtain ⟨vs, ws, values, rfl, rfl⟩ := related
      exact congrArg Except.ok (Layout.rewriteEntries_zip f values _).symm
  · intro record decoded
    obtain ⟨names, given⟩ := given_of_decode accepted decoded
    exact ⟨names.names_eq, Layout.conformAll_of_given given⟩

set_option maxRecDepth 8000 in
/-- A hook that puts each node beside the name of its kind, on a tuple and an empty slot. -/
theorem decode_with_hook_kinds :
    decode {} none [.tree (.tuple {} [.array { name := "a" } (.named "uint8") (.fixed 1)]),
      .tree (.empty {})] (Word.toBytes 7) false =
        .ok [(none, .tuple [(some "a", .array [.uint 7])]), (none, .null)] ∧
    decode {} (some fun kind v => .array [.string kind, v])
      [.tree (.tuple {} [.array { name := "a" } (.named "uint8") (.fixed 1)]), .tree (.empty {})]
      (Word.toBytes 7) false =
        .ok [(none, .array [.string "tuple", .tuple [(some "a", .array [.string "array",
            .array [.array [.string "uint8", .uint 7]]])]]),
          (none, .array [.string "null", .null])] := by
  have accepted : layoutsOf {}
      [.tree (.tuple {} [.array { name := "a" } (.named "uint8") (.fixed 1)]), .tree (.empty {})] =
      .ok [.tuple none [.array (some "a") (.number none ⟨1, by decide, by decide⟩ false)
        (.fixed 1)], .null none] := rfl
  have bare : decode {} none
      [.tree (.tuple {} [.array { name := "a" } (.named "uint8") (.fixed 1)]), .tree (.empty {})]
      (Word.toBytes 7) false =
      .ok [(none, .tuple [(some "a", .array [.uint 7])]), (none, .null)] := rfl
  refine ⟨bare, ?_⟩
  rw [(decode_with_hook accepted _ _ _).1, bare]
  rfl

end AbiCodec
