import AbiCodec.Proofs.ParsedText
import Mathlib.Tactic.Ring

/-!
# Nesting of the types that are read

The reader of types counts the tuples around a type and the array suffixes
behind it. It does not count the suffixes behind the tuples around it, nor an
empty tuple itself. So the depth of a type that it takes may pass the limit, by
no more than the levels that are not counted. These fit in a triangle: as many
suffixes as the limit behind the outermost tuple, and one less behind each tuple
further in.
-/

namespace AbiCodec

namespace AbiType

/-- Whether there is a tuple under the array suffixes. -/
def overTuple : AbiType → Bool
  | .array _ element _ => element.overTuple
  | .tuple .. => true
  | _ => false

mutual

/-- The levels of the type that the reader of types does not count: suffixes behind a tuple, and
an empty tuple. -/
def uncounted : AbiType → Nat
  | .array _ element _ => if element.overTuple then element.uncounted + 1 else 0
  | .tuple _ [] => 1
  | .tuple _ components => uncountedOf components
  | _ => 0

def uncountedOf : List AbiType → Nat
  | [] => 0
  | t :: rest => max t.uncounted (uncountedOf rest)

end

theorem suffixCount_le_depth (t : AbiType) : t.suffixCount ≤ t.depth := by
  induction t with
  | array label element length ih =>
    rw [suffixCount, depth]
    omega
  | _ => exact Nat.zero_le _

theorem suffixCount_lt_levels (t : AbiType) : t.suffixCount + 1 ≤ t.levels := by
  cases t with
  | array label element length => exact Nat.le_max_right _ _
  | tuple label components => exact Nat.le_add_left 1 _
  | _ => exact Nat.le_refl 1

theorem depth_of_not_overTuple {t : AbiType} (h : t.overTuple = false) :
    t.depth = t.suffixCount := by
  induction t with
  | array label element length ih => rw [depth, suffixCount, ih h, Nat.add_comm]
  | tuple label components _ => cases h
  | _ => rfl

/-! ### Counted and uncounted levels -/

theorem maxDepthOf_le {n : Nat} {types : List AbiType} (each : ∀ t ∈ types, t.depth ≤ n) :
    maxDepthOf types ≤ n := by
  induction types with
  | nil => exact Nat.zero_le n
  | cons t types ih =>
    rcases List.forall_mem_cons.1 each with ⟨own, others⟩
    exact Nat.max_le.2 ⟨own, ih others⟩

theorem levelsOf_le {types : List AbiType} (each : ∀ t ∈ types, t.levels ≤ t.depth + 1) :
    levelsOf types ≤ maxDepthOf types + 1 := by
  induction types with
  | nil => exact Nat.zero_le _
  | cons t types ih =>
    rcases List.forall_mem_cons.1 each with ⟨own, others⟩
    have further := ih others
    rw [levelsOf, maxDepthOf]
    omega

/-- No more levels are counted than the type has, and one for what stands innermost. -/
theorem levels_le_depth (t : AbiType) : t.levels ≤ t.depth + 1 := by
  induction t with
  | array label element length ih =>
    have suffixes := element.suffixCount_le_depth
    rw [levels, depth]
    omega
  | tuple label components ih =>
    have inner := levelsOf_le ih
    rw [levels, depth]
    omega
  | _ => exact Nat.le_refl 1

theorem maxDepthOf_lt {types : List AbiType} (some : types ≠ [])
    (each : ∀ t ∈ types, t.depth + 1 ≤ t.levels + t.uncounted) :
    maxDepthOf types + 1 ≤ levelsOf types + uncountedOf types := by
  induction types with
  | nil => exact absurd rfl some
  | cons t types ih =>
    rcases List.forall_mem_cons.1 each with ⟨own, others⟩
    rw [maxDepthOf, levelsOf, uncountedOf]
    cases types with
    | nil =>
      rw [maxDepthOf, levelsOf, uncountedOf]
      omega
    | cons next types =>
      have further := ih (List.cons_ne_nil _ _) others
      omega

/-- Each level of the type is counted or uncounted. -/
theorem depth_lt_levels (t : AbiType) : t.depth + 1 ≤ t.levels + t.uncounted := by
  induction t with
  | array label element length ih =>
    have suffixes := element.suffixCount_lt_levels
    rw [depth, levels, uncounted]
    cases under : element.overTuple with
    | true =>
      rw [if_pos rfl]
      omega
    | false =>
      rw [depth_of_not_overTuple under]
      omega
  | tuple label components ih =>
    cases components with
    | nil => exact Nat.le_refl 2
    | cons t types =>
      have inner := maxDepthOf_lt (List.cons_ne_nil _ _) ih
      rw [depth, levels, uncounted]
      · omega
      · exact List.cons_ne_nil _ _
  | _ => exact Nat.le_refl 1

/-! ### The greatest depth -/

theorem two_mul_maxDepthOf_le {types : List AbiType}
    (each : ∀ t ∈ types, 2 * t.depth ≤ t.levels * (t.levels + 1)) :
    2 * maxDepthOf types ≤ levelsOf types * (levelsOf types + 1) := by
  have half : ∀ t ∈ types, t.depth ≤ levelsOf types * (levelsOf types + 1) / 2 := by
    intro t member
    have within := levels_le_levelsOf member
    have grows := Nat.mul_le_mul within (Nat.add_le_add_right within 1)
    have own := each t member
    omega
  have deepest := maxDepthOf_le half
  omega

/-- A smaller triangle and the suffixes behind the type are within the triangle of its levels. -/
theorem triangle_of_suffixes {n : Nat} {t : AbiType}
    (h : n ≤ (t.levels - 1) * t.levels + 2 * (t.suffixCount + 1)) :
    n ≤ t.levels * (t.levels + 1) := by
  have suffixes := t.suffixCount_lt_levels
  obtain ⟨inner, counted⟩ : ∃ inner, t.levels = inner + 1 :=
    ⟨t.levels - 1, (Nat.sub_add_cancel t.one_le_levels).symm⟩
  rw [counted] at suffixes h ⊢
  calc n ≤ inner * (inner + 1) + 2 * (t.suffixCount + 1) := h
    _ ≤ inner * (inner + 1) + 2 * (inner + 1) :=
      Nat.add_le_add_left (Nat.mul_le_mul_left 2 suffixes) _
    _ = (inner + 1) * (inner + 1 + 1) := by ring

theorem two_mul_depth_le_add (t : AbiType) :
    2 * t.depth ≤ (t.levels - 1) * t.levels + 2 * (t.suffixCount + 1) := by
  -- The suffixes stay apart from the triangle: another one may add a level of depth and none that
  -- is counted, as long as there are more levels inside than suffixes.
  induction t with
  | array label element length ih =>
    have counted : element.levels ≤ (AbiType.array label element length).levels :=
      Nat.le_max_left _ _
    have grows := Nat.mul_le_mul (Nat.sub_le_sub_right counted 1) counted
    rw [depth, suffixCount]
    omega
  | tuple label components ih =>
    have inner := two_mul_maxDepthOf_le fun t member => triangle_of_suffixes (ih t member)
    have suffixes : (AbiType.tuple label components).suffixCount = 0 := rfl
    rw [depth, levels, suffixes, Nat.add_sub_cancel]
    omega
  | _ => exact Nat.zero_le _

theorem two_mul_depth_le (t : AbiType) : 2 * t.depth ≤ t.levels * (t.levels + 1) :=
  triangle_of_suffixes t.two_mul_depth_le_add

/-! ### The limit of the reader -/

/-- A type that is read passes the limit by the levels that are not counted at most, and every
text whose type keeps to the limit is read. -/
theorem depth_of_parse (text : String) (t : AbiType) :
    (AbiType.parse text = .ok t → t.depth ≤ maxDepth + t.uncounted ∧
      t.depth ≤ (maxDepth + 1) * (maxDepth + 2) / 2) ∧
    (TypeGrammar.IsParameter (trim text.toList) t → t.depth ≤ maxDepth →
      AbiType.parse text = .ok t) := by
  constructor
  · intro read
    have counted : t.levels ≤ maxDepth + 1 := by
      rcases blank_or_isParameter_of_parse read with ⟨_, rfl⟩ | ⟨_, counted⟩
      · decide
      · exact counted
    have each := t.depth_lt_levels
    have triangle := t.two_mul_depth_le
    have grows := Nat.mul_le_mul counted (Nat.add_le_add_right counted 1)
    refine ⟨by omega, (Nat.le_div_iff_mul_le Nat.two_pos).2 ?_⟩
    rw [Nat.mul_comm]
    exact Nat.le_trans triangle grows
  · intro own shallow
    exact parse_of_isParameter own (Nat.le_trans t.levels_le_depth (Nat.succ_le_succ shallow))

theorem exists_of_map_depth {text : String} {n : Nat}
    (h : ((AbiType.parse text).map depth).toOption = some n) :
    ∃ t, AbiType.parse text = .ok t ∧ t.depth = n := by
  cases read : AbiType.parse text with
  | error e =>
    rw [read] at h
    cases h
  | ok t =>
    rw [read] at h
    exact ⟨t, rfl, Option.some.inj h⟩

theorem depth_of_parse_records :
    ∃ t, AbiType.parse "(uint8[2] n)[]" = .ok t ∧
      TypeGrammar.IsParameter (trim "(uint8[2] n)[]".toList) t ∧ t.depth = 3 ∧
      t.depth ≤ maxDepth + t.uncounted := by
  obtain ⟨t, read, three⟩ := exists_of_map_depth
    (by decide +kernel : ((AbiType.parse "(uint8[2] n)[]").map depth).toOption = some 3)
  have some : trim "(uint8[2] n)[]".toList ≠ [] := by decide +kernel
  have own := ((blank_or_isParameter_of_parse read).resolve_left fun blank => some blank.1).1
  have shallow : t.depth ≤ maxDepth := by
    rw [three]
    decide
  obtain ⟨bounded, accepted⟩ := depth_of_parse "(uint8[2] n)[]" t
  exact ⟨t, accepted own shallow, own, three, (bounded read).1⟩

/-- The suffixes of the inner array and those behind the tuple are within the limit each, and
together with the tuple they are past it. -/
theorem depth_passes_limit :
    ∃ t, AbiType.parse (String.ofList ("(uint8".toList ++
      (List.replicate 32 "[]".toList).flatten ++ ')' :: (List.replicate 32 "[]".toList).flatten)) =
        .ok t ∧ maxDepth < t.depth := by
  obtain ⟨t, read, deep⟩ := exists_of_map_depth
    (by decide +kernel : ((AbiType.parse (String.ofList ("(uint8".toList ++
      (List.replicate 32 "[]".toList).flatten ++ ')' ::
      (List.replicate 32 "[]".toList).flatten))).map depth).toOption = some 65)
  refine ⟨t, read, ?_⟩
  rw [deep]
  decide

end AbiType

end AbiCodec
