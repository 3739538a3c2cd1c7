import AbiCodec.Proofs.Bytes
import AbiCodec.Proofs.CanonicalValue

/-!
# The wire format

`l.wire v` is the encoding of a canonical value: a word for a scalar, a length
word and padded bytes for a byte string or a text, and a block for an array or
a tuple. A block is the heads of its children and then their tails. A static
child is its own head and has no tail; the tail of a dynamic child is its
encoding, and its head is the offset of that tail from the start of the block.
-/

namespace AbiCodec

/-- A child of a block, as its own encoding. -/
structure Child where
  isDynamic : Bool
  data : Bytes

namespace Child

/-- The bytes that the child takes in the heads of its block. -/
def headLength (c : Child) : Nat := if c.isDynamic then wordSize else c.data.length

/-- What the child puts behind the heads. -/
def tail (c : Child) : Bytes := if c.isDynamic then c.data else []

/-- The head of the child, when its tail starts at this offset. -/
def head (offset : Nat) (c : Child) : Bytes :=
  if c.isDynamic then Word.toBytes (BitVec.ofNat 256 offset) else c.data

def headLengths (children : List Child) : Nat := (children.map headLength).sum

def tails (children : List Child) : Bytes := children.flatMap tail

/-- The heads of children whose tails start at this offset, one behind the other. -/
def heads (offset : Nat) : List Child → Bytes
  | [] => []
  | c :: rest => c.head offset ++ heads (offset + c.tail.length) rest

/-- The block of the children. -/
def layOut (children : List Child) : Bytes :=
  heads (headLengths children) children ++ tails children

section

variable {c : Child}

theorem headLength_of_static (static : c.isDynamic = false) : c.headLength = c.data.length := by
  simp [headLength, static]

theorem headLength_of_dynamic (dynamic : c.isDynamic = true) : c.headLength = wordSize := by
  simp [headLength, dynamic]

theorem tail_of_static (static : c.isDynamic = false) : c.tail = [] := by
  simp [tail, static]

theorem tail_of_dynamic (dynamic : c.isDynamic = true) : c.tail = c.data := by
  simp [tail, dynamic]

theorem head_of_static (static : c.isDynamic = false) (offset : Nat) : c.head offset = c.data := by
  simp [head, static]

theorem head_of_dynamic (dynamic : c.isDynamic = true) (offset : Nat) :
    c.head offset = Word.toBytes (BitVec.ofNat 256 offset) := by
  simp [head, dynamic]

end

theorem length_head (offset : Nat) (c : Child) : (c.head offset).length = c.headLength := by
  cases dynamic : c.isDynamic with
  | false => rw [head_of_static dynamic, headLength_of_static dynamic]
  | true => rw [head_of_dynamic dynamic, headLength_of_dynamic dynamic, Word.length_toBytes]

theorem headLengths_cons (c : Child) (children : List Child) :
    headLengths (c :: children) = c.headLength + headLengths children := by
  rw [headLengths, List.map_cons, List.sum_cons, headLengths]

theorem tails_cons (c : Child) (children : List Child) :
    tails (c :: children) = c.tail ++ tails children := by
  rw [tails, List.flatMap_cons, tails]

theorem tails_append (before after : List Child) :
    tails (before ++ after) = tails before ++ tails after := by
  simp only [tails, List.flatMap_append]

theorem length_heads (offset : Nat) (children : List Child) :
    (heads offset children).length = headLengths children := by
  induction children generalizing offset with
  | nil => rfl
  | cons c children ih => rw [heads, List.length_append, length_head, ih, headLengths_cons]

theorem heads_append (offset : Nat) (before after : List Child) :
    heads offset (before ++ after) =
      heads offset before ++ heads (offset + (tails before).length) after := by
  induction before generalizing offset with
  | nil => rfl
  | cons c before ih =>
    simp only [List.cons_append, heads, ih, tails_cons, List.length_append, List.append_assoc,
      Nat.add_assoc]

theorem length_layOut (children : List Child) :
    (layOut children).length = headLengths children + (tails children).length := by
  rw [layOut, List.length_append, length_heads]

theorem headLengths_le_length_layOut (children : List Child) :
    headLengths children ≤ (layOut children).length := by
  rw [length_layOut]
  exact Nat.le_add_right _ _

/-- The offset of a tail in the block of the children, when those before its child are these. -/
def tailOffset (children before : List Child) : Nat :=
  headLengths children + (tails before).length

theorem drop_tailOffset (before after : List Child) (c : Child) :
    (layOut (before ++ c :: after)).drop (tailOffset (before ++ c :: after) before) =
      c.tail ++ tails after := by
  rw [layOut, tails_append, tails_cons, ← List.append_assoc]
  apply List.drop_left'
  rw [List.length_append, length_heads, tailOffset]

theorem drop_headLengths (before after : List Child) (c : Child) :
    (layOut (before ++ c :: after)).drop (headLengths before) =
      c.head (tailOffset (before ++ c :: after) before) ++
        (heads (tailOffset (before ++ c :: after) before + c.tail.length) after ++
          tails (before ++ c :: after)) := by
  rw [layOut, heads_append, heads, tailOffset, List.append_assoc, List.append_assoc]
  exact List.drop_left' (length_heads _ before)

/-- The children of a block that has the encodings of whole words. -/
def Aligned (children : List Child) : Prop := ∀ c ∈ children, wordSize ∣ c.data.length

theorem Aligned.dvd_headLengths {children : List Child} (h : Aligned children) :
    wordSize ∣ headLengths children := by
  induction children with
  | nil => exact Nat.dvd_zero _
  | cons c children ih =>
    rcases List.forall_mem_cons.1 h with ⟨own, others⟩
    rw [headLengths_cons]
    apply Nat.dvd_add
    · cases dynamic : c.isDynamic with
      | false =>
        rw [headLength_of_static dynamic]
        exact own
      | true =>
        rw [headLength_of_dynamic dynamic]
    · exact ih others

theorem Aligned.dvd_length_tails {children : List Child} (h : Aligned children) :
    wordSize ∣ (tails children).length := by
  induction children with
  | nil => exact Nat.dvd_zero _
  | cons c children ih =>
    rcases List.forall_mem_cons.1 h with ⟨own, others⟩
    rw [tails_cons, List.length_append]
    apply Nat.dvd_add
    · cases dynamic : c.isDynamic with
      | false =>
        rw [tail_of_static dynamic]
        exact Nat.dvd_zero _
      | true =>
        rw [tail_of_dynamic dynamic]
        exact own
    · exact ih others

theorem Aligned.dvd_length_layOut {children : List Child} (h : Aligned children) :
    wordSize ∣ (layOut children).length := by
  rw [length_layOut]
  exact Nat.dvd_add h.dvd_headLengths h.dvd_length_tails

/-- The children of a block are where its heads say: a static child is in place, the head of a
dynamic child is the offset of its tail in words from the start of the block, and the tails
follow the heads and each other up to the end of the block. -/
structure Resolve (children : List Child) : Prop where
  inline : ∀ before c after, children = before ++ c :: after → c.isDynamic = false →
    ((layOut children).drop (headLengths before)).take c.data.length = c.data
  pointer : ∀ before c after, children = before ++ c :: after → c.isDynamic = true →
    ((layOut children).drop (headLengths before)).take wordSize =
      Word.toBytes (BitVec.ofNat 256 (tailOffset children before))
  tail : ∀ before c after, children = before ++ c :: after → c.isDynamic = true →
    ((layOut children).drop (tailOffset children before)).take c.data.length = c.data
  aligned : ∀ before after, children = before ++ after → wordSize ∣ tailOffset children before
  exact : (layOut children).length < 2 ^ 256 → ∀ before after, children = before ++ after →
    (BitVec.ofNat 256 (tailOffset children before)).toNat = tailOffset children before
  start : tailOffset children [] = headLengths children
  next : ∀ before c after, children = before ++ c :: after → c.isDynamic = true →
    tailOffset children (before ++ [c]) = tailOffset children before + c.data.length
  finish : tailOffset children children = (layOut children).length

theorem tailOffset_le (before after : List Child) :
    tailOffset (before ++ after) before ≤ (layOut (before ++ after)).length := by
  rw [length_layOut, tailOffset, tails_append, List.length_append]
  omega

/-- The next tail starts where this one ends. -/
theorem tailOffset_next (before after : List Child) (c : Child) :
    tailOffset (before ++ c :: after) before + c.tail.length =
      tailOffset (before ++ [c] ++ after) (before ++ [c]) := by
  simp [tailOffset, tails, Nat.add_assoc]

theorem Aligned.resolve {children : List Child} (h : Aligned children) : Resolve children where
  inline := by
    intro before c after split static
    subst split
    rw [drop_headLengths, head_of_static static, List.take_left]
  pointer := by
    intro before c after split dynamic
    subst split
    rw [drop_headLengths, head_of_dynamic dynamic]
    exact List.take_left' (Word.length_toBytes _)
  tail := by
    intro before c after split dynamic
    subst split
    rw [drop_tailOffset, tail_of_dynamic dynamic, List.take_left]
  aligned := by
    intro before after split
    subst split
    have first : Aligned before := fun c member => h c (List.mem_append_left _ member)
    exact Nat.dvd_add h.dvd_headLengths first.dvd_length_tails
  exact := by
    intro small before after split
    subst split
    rw [BitVec.toNat_ofNat]
    exact Nat.mod_eq_of_lt (Nat.lt_of_le_of_lt (tailOffset_le before after) small)
  start := rfl
  next := by
    intro before c after _ dynamic
    simp [tailOffset, tails, tail_of_dynamic dynamic, Nat.add_assoc]
  finish := (length_layOut children).symm

end Child

namespace Layout

open Child

/-- A length word and the padded bytes. -/
def payload (data : Bytes) : Bytes :=
  Word.toBytes (BitVec.ofNat 256 data.length) ++ Bytes.padded data

/-- What stands before the block of an array of so many elements. -/
def countBytes : ArrayLength → Nat → Bytes
  | .dynamic, count => Word.toBytes (BitVec.ofNat 256 count)
  | .fixed _, _ => []

mutual

/-- The encoding of a canonical value. -/
def wire : Layout → Value → Bytes
  | address _, v =>
    match v with
    | .address a => Word.toBytes (a.setWidth 256)
    | _ => []
  | bool _, v =>
    match v with
    | .bool b => Word.toBytes (BitVec.ofNat 256 (if b then 1 else 0))
    | _ => []
  | number _ _ _, v =>
    match v with
    | .uint w => w.toBytes
    | .int w => w.toBytes
    | _ => []
  | fixedBytes _ _, v =>
    match v with
    | .fixedBytes data => Bytes.padded data
    | _ => []
  | bytes _, v =>
    match v with
    | .bytes data => payload data
    | _ => []
  | string _, v =>
    match v with
    | .string text => payload (utf8Bytes text)
    | _ => []
  | null _, _ => []
  | array _ element length, v =>
    match v with
    | .array items =>
      countBytes length items.length ++
        layOut (items.map fun item => ⟨element.isDynamic, element.wire item⟩)
    | _ => []
  | tuple _ components, v =>
    match v with
    | .tuple entries => layOut (children components (Record.values entries))
    | _ => []

/-- The values of components as the children of a block. -/
def children : List Layout → List Value → List Child
  | c :: components, v :: values => ⟨c.isDynamic, c.wire v⟩ :: children components values
  | _, _ => []

end

mutual

/-- The blocks in the encoding of a value, at every depth. -/
def blocks : Layout → Value → List (List Child)
  | array _ element _, .array items =>
    children (List.replicate items.length element) items :: items.flatMap element.blocks
  | tuple _ components, .tuple entries =>
    children components (Record.values entries) ::
      blocksOf components (Record.values entries)
  | _, _ => []

/-- The blocks in the encodings of the values of components. -/
def blocksOf : List Layout → List Value → List (List Child)
  | c :: components, v :: values => c.blocks v ++ blocksOf components values
  | _, _ => []

end

theorem children_replicate (element : Layout) (items : List Value) :
    children (List.replicate items.length element) items =
      items.map fun item => ⟨element.isDynamic, element.wire item⟩ := by
  induction items with
  | nil => rfl
  | cons v items ih => rw [List.length_cons, List.replicate_succ, children, ih, List.map_cons]

theorem wire_array (name : Option String) (element : Layout) (length : ArrayLength)
    (items : List Value) :
    (array name element length).wire (.array items) =
      countBytes length items.length ++
        layOut (children (List.replicate items.length element) items) := by
  rw [wire, children_replicate]

theorem wire_tuple {name : Option String} {components : List Layout} {values forms : List Value}
    (h : CanonicalForms components values forms) :
    (tuple name components).wire (.tuple ((components.map Layout.name).zip forms)) =
      layOut (children components forms) := by
  rw [wire, h.values_zip]

theorem wordSize_dvd_length_toBytes (w : Word) : wordSize ∣ w.toBytes.length :=
  ⟨1, by rw [Word.length_toBytes, Nat.mul_one]⟩

theorem wordSize_dvd_length_payload (data : Bytes) : wordSize ∣ (payload data).length := by
  rw [payload, List.length_append]
  exact Nat.dvd_add (wordSize_dvd_length_toBytes _) (Bytes.wordSize_dvd_length_padded _)

theorem wordSize_dvd_length_countBytes (length : ArrayLength) (count : Nat) :
    wordSize ∣ (countBytes length count).length := by
  cases length with
  | dynamic => exact wordSize_dvd_length_toBytes _
  | fixed n => exact Nat.dvd_zero _

theorem aligned_children {components : List Layout}
    (h : ∀ c ∈ components, ∀ v, wordSize ∣ (c.wire v).length) (values : List Value) :
    Aligned (children components values) := by
  induction components generalizing values with
  | nil =>
    intro child member
    cases values <;> cases member
  | cons c components ih =>
    cases values with
    | nil =>
      intro child member
      cases member
    | cons v values =>
      rcases List.forall_mem_cons.1 h with ⟨own, others⟩
      exact List.forall_mem_cons.2 ⟨own v, ih others values⟩

/-- Every encoding is a whole number of words. -/
theorem wordSize_dvd_length_wire (l : Layout) (v : Value) : wordSize ∣ (l.wire v).length := by
  induction l generalizing v with
  | address name =>
    cases v with
    | address a => exact wordSize_dvd_length_toBytes _
    | _ => exact Nat.dvd_zero _
  | bool name =>
    cases v with
    | bool b => exact wordSize_dvd_length_toBytes _
    | _ => exact Nat.dvd_zero _
  | number name width isSigned =>
    cases v with
    | uint w => exact wordSize_dvd_length_toBytes _
    | int w => exact wordSize_dvd_length_toBytes _
    | _ => exact Nat.dvd_zero _
  | fixedBytes name width =>
    cases v with
    | fixedBytes data => exact Bytes.wordSize_dvd_length_padded _
    | _ => exact Nat.dvd_zero _
  | bytes name =>
    cases v with
    | bytes data => exact wordSize_dvd_length_payload _
    | _ => exact Nat.dvd_zero _
  | string name =>
    cases v with
    | string text => exact wordSize_dvd_length_payload _
    | _ => exact Nat.dvd_zero _
  | null name => exact Nat.dvd_zero _
  | array name element length ih =>
    cases v with
    | array items =>
      have elements : ∀ c ∈ List.replicate items.length element, ∀ v,
          wordSize ∣ (c.wire v).length := List.forall_mem_replicate.2 (Or.inr ih)
      rw [wire_array, List.length_append]
      exact Nat.dvd_add (wordSize_dvd_length_countBytes _ _)
        (aligned_children elements items).dvd_length_layOut
    | _ => exact Nat.dvd_zero _
  | tuple name components ih =>
    cases v with
    | tuple entries => exact (aligned_children ih _).dvd_length_layOut
    | _ => exact Nat.dvd_zero _

theorem mem_blocksOf {components : List Layout} {values : List Value} {block : List Child}
    (h : block ∈ blocksOf components values) : ∃ c ∈ components, ∃ v, block ∈ c.blocks v := by
  induction components generalizing values with
  | nil => cases values <;> cases h
  | cons c components ih =>
    cases values with
    | nil => cases h
    | cons v values =>
      rw [blocksOf] at h
      rcases List.mem_append.1 h with own | others
      · exact ⟨c, List.mem_cons_self, v, own⟩
      · obtain ⟨other, member, w, inOther⟩ := ih others
        exact ⟨other, List.mem_cons_of_mem c member, w, inOther⟩

/-- The pointers of every block lead to their children. -/
theorem resolve_of_mem_blocks (l : Layout) (v : Value) : ∀ block ∈ l.blocks v, Resolve block := by
  induction l generalizing v with
  | array name element length ih =>
    cases v with
    | array items =>
      intro block member
      rw [blocks] at member
      rcases List.mem_cons.1 member with rfl | member
      · exact (aligned_children (fun c _ => wordSize_dvd_length_wire c) items).resolve
      · obtain ⟨item, _, inItem⟩ := List.mem_flatMap.1 member
        exact ih item block inItem
    | _ =>
      intro block member
      cases member
  | tuple name components ih =>
    cases v with
    | tuple entries =>
      intro block member
      rw [blocks] at member
      rcases List.mem_cons.1 member with rfl | member
      · exact (aligned_children (fun c _ => wordSize_dvd_length_wire c) _).resolve
      · obtain ⟨c, inList, w, inChild⟩ := mem_blocksOf member
        exact ih c inList w block inChild
    | _ =>
      intro block member
      cases member
  | _ =>
    intro block member
    cases member

end Layout

end AbiCodec
