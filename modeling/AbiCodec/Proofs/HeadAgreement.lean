import AbiCodec.Proofs.CursorSteps

/-!
# Head sizes when writing and when reading

A block finds its children only when three sums agree: the head sizes, the bytes
that the writer puts in the heads, and the steps of the cursor over them. They
agree child by child, for a static child by its encoding and for a dynamic one by
its pointer, and so over the block.
-/

namespace AbiCodec

/-! ### The heads of a staged block -/

theorem Head.length_bytes (headLength : Nat) (head : Head) :
    (head.bytes headLength).length = head.length := by
  cases head with
  | inline data => rfl
  | pointer tailOffset => exact Word.length_toBytes _

namespace Block

/-- The heads of the block as they are written, one behind the other. -/
def headBytes (block : Block) : Bytes := block.heads.flatMap (Head.bytes block.headLength)

theorem length_headBytes (block : Block) :
    block.headBytes.length = (block.heads.map Head.length).sum := by
  rw [headBytes, List.length_flatMap]
  simp only [Head.length_bytes]

theorem exists_of_runFrom_write {slots : List Slot} {written after : Bytes} {k : Nat}
    (run : (write slots).runFrom written = (.ok k, after)) :
    ∃ block, stage [] slots = .ok block ∧
      after = written ++ (block.headBytes ++ block.tails) := by
  rw [write] at run
  cases staged : stage [] slots with
  | error e =>
    rw [staged] at run
    cases run
  | ok block =>
    rw [staged] at run
    cases run
    exact ⟨block, rfl, rfl⟩

end Block

namespace Layout

/-- What has been staged for components has a head of its width for each. -/
theorem map_length_heads_of_stage {components : List Layout} {values : List Value} {block : Block}
    (same : values.length = components.length)
    (staged : Block.stage [] (slots components values) = .ok block) :
    block.heads.map Head.length = components.map headWidth := by
  have encodes : EncodeAsWire components := fun c _ => gives_encode c
  cases canonical : canonicalAll? components values with
  | none =>
    obtain ⟨e, failed⟩ := stage_slots_of_none encodes same canonical []
    rw [failed] at staged
    cases staged
  | some forms =>
    have h := canonicalAll?_eq_some_iff.1 canonical
    rw [stage_slots encodes h] at staged
    cases staged
    rw [Child.map_length_staged, map_headLength_of_forms (fun c _ => c.hasWidth) h]

/-- A static layout appends its width, whatever it encodes. -/
theorem appends_of_encode {l : Layout} (static : l.isDynamic = false) {v : Value}
    {written after : Bytes} {k : Nat} (run : (l.encode v).runFrom written = (.ok k, after)) :
    k = l.headWidth ∧ ∃ data, data.length = l.headWidth ∧ after = written ++ data := by
  obtain ⟨data, given, rfl, rfl⟩ := (gives_encode l v).exists_of_ok run
  obtain ⟨form, canonical, rfl⟩ := Option.map_eq_some_iff.1 given
  have length := length_wire_of_static static canonical
  exact ⟨length, _, length, rfl⟩

/-- A head size that is not clamped holds in both directions. Whenever a static layout encodes, it
appends so many bytes, and whenever it decodes, it moves the cursor by so many, from every reader.
Children of any kind have a word each where they are dynamic; whenever their block is read, the
cursor moves by their head sizes together, and whenever it is written with a value for each, it
starts with the heads of all of them, each of its size. -/
theorem headSize_written_and_read :
    (∀ l : Layout, l.isDynamic = false → l.headSize < maxCount →
      (∀ v written k after, (l.encode v).runFrom written = (.ok k, after) →
        k = l.headSize ∧ ∃ data, data.length = l.headSize ∧ after = written ++ data) ∧
      ∀ r v after, l.decode.runFrom r = (.ok v, after) → r.Advances after l.headSize) ∧
    ∀ components : List Layout, (∀ c ∈ components, c.headSize < maxCount) →
      (∀ c ∈ components, c.isDynamic = true → c.headSize = wordSize) ∧
      (∀ r values after, (readBlock (parts components)).runFrom r = (.ok values, after) →
        r.Advances after (components.map headSize).sum) ∧
      ∀ values written k after, values.length = components.length →
        (Block.write (slots components values)).runFrom written = (.ok k, after) →
        ∃ block, Block.stage [] (slots components values) = .ok block ∧
          after = written ++ (block.headBytes ++ block.tails) ∧
          block.heads.map Head.length = components.map headSize ∧
          block.headBytes.length = (components.map headSize).sum := by
  constructor
  · intro l static unclamped
    rw [← headWidth_eq_headSize unclamped]
    exact ⟨fun v written k after run => appends_of_encode static run,
      fun r v after run => advances_of_decode static run⟩
  · intro components unclamped
    have sizes := map_headWidth_eq_headSize unclamped
    refine ⟨fun c _ dynamic => headSize_of_isDynamic dynamic, ?_, ?_⟩
    · intro r values after run
      rw [← sizes, ← headWidths_eq_sum]
      exact advances_of_readBlock run
    · intro values written k after same run
      obtain ⟨block, staged, whole⟩ := Block.exists_of_runFrom_write run
      have heads := (map_length_heads_of_stage same staged).trans sizes
      exact ⟨block, staged, whole, heads, by rw [Block.length_headBytes, heads]⟩

set_option maxRecDepth 8000 in
/-- Two numbers, read loosely from the middle of some data, and a block of a byte string, an empty
slot and a number, whose tail is as long as its heads. -/
theorem headSize_written_and_read_emptySlot :
    let byte := number none ⟨1, by decide, by decide⟩ false
    let pair := array none byte (.fixed 2)
    let words := [8#256, 9#256].flatMap Word.toBytes
    let r : Reader := ⟨1 :: 2 :: words, 2, true, none, ⟨0, 66, 1⟩⟩
    let after : Reader := { r with offset := 66, budget := ⟨64, 66, 1⟩ }
    let components := [bytes none, null none, byte]
    let values : List Value := [.bytes [1, 2], .null, .uint 3]
    let data := [64#256, 3#256, 2#256].flatMap Word.toBytes ++ (1 :: 2 :: List.replicate 30 0)
    let start := Reader.start data false none 1
    let behind : Reader := { start with offset := 64, budget := ⟨128, 128, 1⟩ }
    (pair.headSize = 64 ∧
      (pair.encode (.array [.uint 8, .int 9])).runFrom [5] = (.ok 64, 5 :: words) ∧
      pair.decode.runFrom r = (.ok (.array [.uint 8, .uint 9]), after) ∧
      r.Advances after pair.headSize) ∧
    (components.map headSize).sum = 64 ∧
      (readBlock (parts components)).runFrom start = (.ok values, behind) ∧
      start.Advances behind (components.map headSize).sum ∧
      ∃ block, Block.stage [] (slots components values) = .ok block ∧
        data = block.headBytes ++ block.tails ∧
        block.headBytes.length = (components.map headSize).sum := by
  obtain ⟨single, several⟩ := headSize_written_and_read
  obtain ⟨appends, advances⟩ :=
    single (array none (number none ⟨1, by decide, by decide⟩ false) (.fixed 2)) rfl (by decide)
  obtain ⟨_, spans, heads⟩ :=
    several [bytes none, null none, number none ⟨1, by decide, by decide⟩ false] (by decide)
  have written := appends (.array [.uint 8, .int 9]) [5] 64 _ rfl
  obtain ⟨block, staged, whole, _, length⟩ := heads [.bytes [1, 2], .null, .uint 3] [] 128 _ rfl rfl
  exact ⟨⟨written.1.symm, rfl, rfl, advances _ _ _ rfl⟩, rfl, rfl, spans _ _ _ rfl, block, staged,
    whole, length⟩

end Layout

end AbiCodec
