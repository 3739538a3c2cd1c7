import AbiCodec.Layout.Decode
import AbiCodec.Proofs.ReaderSteps
import AbiCodec.Proofs.WireFormat

/-!
# Reading back

`Reads action data moved x` says that wherever a reader without a hook stands at
`data`, with a budget that covers it, the action gives `x`, spends the length of
`data` and moves the cursor by `moved`. Blocks are read back from the readings
of their children.
-/

namespace AbiCodec

namespace Reader

/-- The reader after its cursor has moved and so many bytes have been spent. -/
def past (r : Reader) (moved spent : Nat) : Reader :=
  { r with offset := r.offset + moved, budget := r.budget.spend spent }

/-- The cursor stands at the bytes, no hook changes values, and the budget covers an expense. -/
structure Holds (r : Reader) (data : Bytes) (spent : Nat) : Prop where
  hook_eq : r.hook = none
  inBounds : r.InBounds
  starts : data <+: r.rest
  counted : r.budget.read ≤ maxCount
  covered : (r.budget.spend spent).isExceeded = false

theorem past_past (r : Reader) (m n moved spent : Nat) :
    (r.past m n).past moved spent = r.past (m + moved) (n + spent) := by
  simp [past, Budget.spend_spend, Nat.add_assoc]

theorem rest_past (r : Reader) (moved spent : Nat) : (r.past moved spent).rest = r.rest.drop moved := by
  rw [rest, rest, List.drop_drop]
  rfl

namespace Holds

variable {r : Reader} {data : Bytes} {spent : Nat}

theorem inside (h : r.Holds data spent) : r.offset + data.length ≤ r.data.length := by
  have short := h.starts.length_le
  have whole := h.inBounds.length_rest_add
  omega

theorem length_lt (h : r.Holds data spent) : data.length < 2 ^ 63 := by
  have inside := h.inside
  have small := h.inBounds.length_lt
  omega

theorem mono {a : Bytes} {m : Nat} (h : r.Holds data spent) (shorter : a <+: data)
    (less : m ≤ spent) : r.Holds a m where
  hook_eq := h.hook_eq
  inBounds := h.inBounds
  starts := shorter.trans h.starts
  counted := h.counted
  covered := Budget.isExceeded_spend_of_le less h.covered

theorem first {a b : Bytes} {m n : Nat} (h : r.Holds (a ++ b) (m + n)) : r.Holds a m :=
  h.mono (List.prefix_append a b) (Nat.le_add_right m n)

theorem next {a b : Bytes} {m n : Nat} (h : r.Holds (a ++ b) (m + n)) :
    (r.past a.length m).Holds b n where
  hook_eq := h.hook_eq
  inBounds := ⟨h.first.inside, h.inBounds.length_lt⟩
  starts := by
    obtain ⟨rest, whole⟩ := h.starts
    refine ⟨rest, ?_⟩
    rw [rest_past, ← whole, List.append_assoc, List.drop_left]
  counted := Nat.min_le_right _ _
  covered := by
    rw [past, Budget.spend_spend]
    exact h.covered

theorem past_zero (h : r.Holds data spent) : r.past 0 0 = r := by
  have same : r.budget.spend 0 = r.budget := by
    rw [Budget.spend, saturatingAdd_of_le h.counted]
    rfl
  rw [past, same]
  rfl

/-- The budget covers what a reader holds, so the reader pays for it and moves on. -/
theorem pay_eq {α : Type} (h : r.Holds data spent) (x : α) :
    r.pay spent x = (.ok x, r.past spent spent) := by
  rw [pay, h.covered, if_neg Bool.false_ne_true]
  rfl

end Holds

end Reader

namespace Reading

variable {α β : Type}

/-- The action reads the bytes back as `x` wherever a reader holds them. -/
def Reads (action : Reading α) (data : Bytes) (moved : Nat) (x : α) : Prop :=
  ∀ r : Reader, r.Holds data data.length → action.runFrom r = (.ok x, r.past moved data.length)

/-- Reading on, from behind the bytes that the first action reads. -/
theorem Reads.bind {action : Reading α} {next : α → Reading β} {a b : Bytes} {moved : Nat} {x : α}
    {y : β} (before : Reads action a a.length x) (after : Reads (next x) b moved y) :
    Reads (action >>= next) (a ++ b) (a.length + moved) y := by
  intro r h
  rw [List.length_append] at h ⊢
  rw [runFrom_bind_of_ok (before r h.first), after _ h.next, Reader.past_past]

theorem Reads.checked {action : Reading α} {check : Reader → α → Except AbiError β} {data : Bytes}
    {moved : Nat} {x : α} {y : β} (reads : Reads action data moved x)
    (passes : ∀ r, check r x = .ok y) : Reads (checked action check) data moved y := by
  intro r h
  rw [runFrom_checked_of_ok (reads r h), passes]

/-- What a reader holds is short enough to be counted. -/
theorem Reads.of_small {action : Reading α} {data : Bytes} {moved : Nat} {x : α}
    (reads : data.length < 2 ^ 63 → Reads action data moved x) : Reads action data moved x :=
  fun r h => reads h.length_lt r h

/-- A last step that reads nothing. -/
theorem Reads.finish {action : Reading α} {next : α → Reading β} {data : Bytes} {moved : Nat}
    {x : α} {y : β} (before : Reads action data moved x)
    (last : ∀ r : Reader, r.hook = none → (next x).runFrom r = (.ok y, r)) :
    Reads (action >>= next) data moved y := by
  intro r h
  rw [runFrom_bind_of_ok (before r h)]
  exact last _ h.hook_eq

theorem Reads.coerce {action : Reading α} {f : α → Value} {data : Bytes} {moved : Nat} {x : α}
    (reads : Reads action data moved x) (name : String) :
    Reads (action >>= fun x => coerce name (f x)) data moved (f x) :=
  reads.finish fun r hookless => by rw [runFrom_coerce, Reader.coerce, hookless]

theorem reads_bytes (data : Bytes) (relaxed : Bool) :
    Reads (bytes data.length relaxed) (Bytes.padded data) (Bytes.padded data).length data := by
  intro r h
  have whole : r.offset + Bytes.alignedLength data.length ≤ r.data.length := by
    rw [← Bytes.length_padded]
    exact h.inside
  have front : r.rest.take data.length = data := by
    obtain ⟨rest, starts⟩ := h.starts
    rw [← starts, Bytes.padded, List.append_assoc, List.take_left]
  rw [runFrom_bytes h.inBounds, Reader.takenLength_eq h.inBounds, if_pos whole, front,
    ← Bytes.length_padded]
  exact h.pay_eq data

theorem reads_word (w : Word) : Reads word w.toBytes w.toBytes.length w := by
  intro r h
  have inside := h.inside
  have paid := h.pay_eq w
  have front : Word.first r.rest = w := by
    obtain ⟨rest, starts⟩ := h.starts
    rw [← starts, Word.first_append]
  rw [Word.length_toBytes] at inside paid ⊢
  rw [runFrom_word h.inBounds, if_pos inside, front, paid]

theorem reads_count (typeName : String) {n : Nat} (counted : n < countLimit) :
    Reads (count typeName) (Word.toBytes (BitVec.ofNat 256 n))
      (Word.toBytes (BitVec.ofNat 256 n)).length n := by
  rw [count_eq_checked]
  apply (reads_word _).checked
  intro r
  rw [Word.toNat_ofNat_of_lt counted, if_pos counted]

end Reading

/-- The tail of a child stands at its offset in whatever starts with the block. -/
theorem Child.tail_of_starts {before after : List Child} {c : Child} {data : Bytes}
    (starts : layOut (before ++ c :: after) <+: data) :
    c.tail <+: data.drop (tailOffset (before ++ c :: after) before) ∧
      tailOffset (before ++ c :: after) before ≤ data.length := by
  have found := drop_tailOffset before after c
  have inside := tailOffset_le before (c :: after)
  obtain ⟨rest, whole⟩ := starts
  rw [← whole, List.drop_append_of_le_length inside, found, List.append_assoc, List.length_append]
  exact ⟨List.prefix_append _ _, Nat.le_trans inside (Nat.le_add_right _ _)⟩

open Reading

namespace Part

/-- The part reads a child of a block back as the value; a static child is read in place. -/
structure ReadsBack (part : Part) (c : Child) (v : Value) : Prop where
  isDynamic_eq : part.isDynamic = c.isDynamic
  reads : ∃ moved, Reads part.read c.data moved v ∧ (c.isDynamic = false → moved = c.data.length)

/-- The parts read the children of a block back as the values, one after the other. -/
inductive ReadAllBack : List Part → List Child → List Value → Prop where
  | nil : ReadAllBack [] [] []
  | cons {part : Part} {c : Child} {v : Value} {parts : List Part} {children : List Child}
    {values : List Value} : part.ReadsBack c v → ReadAllBack parts children values →
      ReadAllBack (part :: parts) (c :: children) (v :: values)

variable {base r : Reader}

theorem runFrom_readIn_static {part : Part} {c : Child} {v : Value} (back : part.ReadsBack c v)
    (static : c.isDynamic = false) (h : r.Holds c.data c.data.length) :
    (part.readIn base).runFrom r = (.ok v, r.past c.data.length c.data.length) := by
  obtain ⟨moved, reads, inPlace⟩ := back.reads
  rw [readIn, back.isDynamic_eq, static, if_neg Bool.false_ne_true, reads r h, inPlace static]

/-- A dynamic child is read by a reader that starts where its pointer leads. -/
theorem runFrom_readIn_pointer {part : Part} (dynamic : part.isDynamic = true)
    (inBounds : base.InBounds) {offset : Nat} (inside : offset ≤ base.rest.length)
    (h : r.Holds (Word.toBytes (BitVec.ofNat 256 offset)) wordSize) :
    (part.readIn base).runFrom r =
      (elsewhere (base.viewAt (base.offset + offset)) part.read).runFrom
        (r.past wordSize wordSize) := by
  have whole := inBounds.length_rest_add
  have small := inBounds.length_lt
  have counted : offset < countLimit := lt_countLimit (by omega)
  have number := reads_count part.kindName counted r
  rw [Word.length_toBytes] at number
  have place : (ofExcept (base.sub offset)).runFrom (r.past wordSize wordSize) =
      (.ok (base.viewAt (base.offset + offset)), r.past wordSize wordSize) := by
    rw [Reader.sub_eq inBounds, if_pos (by omega), runFrom_ofExcept]
  rw [readIn, dynamic, if_pos rfl, runFrom_bind_of_ok (number h), runFrom_bind_of_ok place]

/-- The reader at a tail has its own cursor and what is left of the shared budget. -/
theorem holds_tail (hook_eq : base.hook = none) (inBounds : base.InBounds) {offset : Nat}
    {data pointer : Bytes} (tail : data <+: base.rest.drop offset)
    (h : r.Holds pointer (wordSize + data.length)) :
    ({ base.viewAt (base.offset + offset) with
      budget := (r.past wordSize wordSize).budget } : Reader).Holds data data.length := by
  refine ⟨hook_eq, (inBounds.viewAt _).withBudget _, ?_, Nat.min_le_right _ _, ?_⟩
  · rw [Reader.rest, List.drop_drop] at tail
    exact tail
  · rw [Reader.past, Budget.spend_spend]
    exact h.covered

/-- A dynamic child is read where its pointer leads, and paid for by the reader of the pointer. -/
theorem runFrom_readIn_dynamic {part : Part} {c : Child} {v : Value} (back : part.ReadsBack c v)
    (dynamic : c.isDynamic = true) (hook_eq : base.hook = none) (inBounds : base.InBounds)
    {offset : Nat} (tail : c.data <+: base.rest.drop offset) (inside : offset ≤ base.rest.length)
    (h : r.Holds (Word.toBytes (BitVec.ofNat 256 offset)) (wordSize + c.data.length)) :
    (part.readIn base).runFrom r = (.ok v, r.past wordSize (wordSize + c.data.length)) := by
  obtain ⟨moved, reads, _⟩ := back.reads
  have pointer := h.mono List.prefix_rfl (Nat.le_add_right wordSize _)
  rw [runFrom_readIn_pointer (back.isDynamic_eq.trans dynamic) inBounds inside pointer,
    runFrom_elsewhere, reads _ (holds_tail hook_eq inBounds tail h)]
  simp [Reader.past, Budget.spend_spend]

/-- A child is read from its head and, when it is dynamic, from its tail at the offset there. -/
theorem runFrom_readIn_of_tail {part : Part} {c : Child} {v : Value} (back : part.ReadsBack c v)
    (hook_eq : base.hook = none) (inBounds : base.InBounds) {offset : Nat}
    (tail : c.tail <+: base.rest.drop offset) (inside : offset ≤ base.rest.length)
    (h : r.Holds (c.head offset) (c.headLength + c.tail.length)) :
    (part.readIn base).runFrom r =
      (.ok v, r.past c.headLength (c.headLength + c.tail.length)) := by
  cases dynamic : c.isDynamic with
  | false =>
    rw [Child.head_of_static dynamic] at h
    rw [Child.headLength_of_static dynamic, Child.tail_of_static dynamic, List.length_nil,
      Nat.add_zero] at h ⊢
    exact runFrom_readIn_static back dynamic h
  | true =>
    rw [Child.head_of_dynamic dynamic] at h
    rw [Child.tail_of_dynamic dynamic] at h tail ⊢
    rw [Child.headLength_of_dynamic dynamic] at h ⊢
    exact runFrom_readIn_dynamic back dynamic hook_eq inBounds tail inside h

theorem runFrom_readIn {part : Part} {before after : List Child} {c : Child} {v : Value}
    (back : part.ReadsBack c v) (hook_eq : base.hook = none) (inBounds : base.InBounds)
    (starts : Child.layOut (before ++ c :: after) <+: base.rest)
    (h : r.Holds (c.head (Child.tailOffset (before ++ c :: after) before))
      (c.headLength + c.tail.length)) :
    (part.readIn base).runFrom r =
      (.ok v, r.past c.headLength (c.headLength + c.tail.length)) := by
  obtain ⟨tail, inside⟩ := Child.tail_of_starts starts
  exact runFrom_readIn_of_tail back hook_eq inBounds tail inside h

/-- The children behind those before are read from their heads, each paid for with its tail. -/
theorem runFrom_readAllIn {parts : List Part} {before after : List Child} {values : List Value}
    (back : ReadAllBack parts after values) (hook_eq : base.hook = none) (inBounds : base.InBounds)
    (starts : Child.layOut (before ++ after) <+: base.rest)
    (h : r.Holds (Child.heads (Child.tailOffset (before ++ after) before) after)
      (Child.headLengths after + (Child.tails after).length)) :
    (readAllIn base parts).runFrom r = (.ok values,
      r.past (Child.headLengths after) (Child.headLengths after + (Child.tails after).length)) := by
  induction back generalizing before r with
  | nil =>
    have same := h.past_zero
    rw [readAllIn, runFrom_pure]
    simp [Child.headLengths, Child.tails, same]
  | @cons part c v parts after values first _ ih =>
    -- Once `c` is read it is the last of those before, which moves the offset by its tail.
    have spent : Child.headLengths (c :: after) + (Child.tails (c :: after)).length =
        (c.headLength + c.tail.length) +
          (Child.headLengths after + (Child.tails after).length) := by
      rw [Child.headLengths_cons, Child.tails_cons, List.length_append]
      omega
    rw [spent, Child.heads] at h
    have one := runFrom_readIn first hook_eq inBounds starts h.first
    have others := h.next
    rw [Child.length_head] at others
    rw [Child.tailOffset_next] at others
    rw [List.append_cons] at starts
    rw [readAllIn, runFrom_bind_of_ok one, runFrom_bind_of_ok (ih starts others), runFrom_pure,
      Reader.past_past, spent, Child.headLengths_cons]

end Part

/-- A block is read back as the values of its children; the cursor ends behind the heads. -/
theorem reads_block {parts : List Part} {children : List Child} {values : List Value}
    (back : Part.ReadAllBack parts children values) :
    Reads (readBlock parts) (Child.layOut children) (Child.headLengths children) values := by
  intro r h
  have start : (inspect fun r => r.sub 0).runFrom r = (.ok (r.viewAt r.offset), r) := by
    rw [runFrom_inspect, Reader.sub_eq h.inBounds, Nat.add_zero, if_pos h.inBounds.offset_le]
  have starts : Child.layOut ([] ++ children) <+: (r.viewAt r.offset).rest := h.starts
  have heads := h.mono (List.prefix_append _ _) (Nat.le_refl _)
  rw [Child.length_layOut] at heads ⊢
  rw [readBlock, runFrom_bind_of_ok start]
  exact Part.runFrom_readAllIn back h.hook_eq (h.inBounds.viewAt _) starts heads

end AbiCodec
