import AbiCodec.Proofs.Bytes
import AbiCodec.Wire.Reader

/-!
# One step of a reader

What each operation of a reader does, from a reader whose cursor stands within
data of fewer than `2 ^ 63` bytes. No operation meets one of its internal
faults from there, so each is one equation without them.
-/

namespace AbiCodec

namespace Budget

theorem spend_spend (budget : Budget) (m n : Nat) :
    (budget.spend m).spend n = budget.spend (m + n) := by
  simp only [spend, saturatingAdd]
  congr 1
  omega

theorem spend_read_of_lt {budget : Budget} {count : Nat} (h : budget.read + count < 2 ^ 63) :
    (budget.spend count).read = budget.read + count :=
  saturatingAdd_of_le (Nat.le_of_lt (lt_maxCount h))

theorem isExceeded_eq_false_iff {budget : Budget} :
    budget.isExceeded = false ↔ ∀ most, budget.limit? = some most → budget.read ≤ most := by
  unfold isExceeded
  cases budget.limit? with
  | none => simp
  | some limit => simp

/-- A budget that covers an expense covers every smaller one. -/
theorem isExceeded_spend_of_le {budget : Budget} {m n : Nat} (le : m ≤ n)
    (covered : (budget.spend n).isExceeded = false) : (budget.spend m).isExceeded = false := by
  rw [isExceeded_eq_false_iff] at covered ⊢
  intro most limit
  have spent : (budget.spend n).read ≤ most := covered most limit
  have less : (budget.spend m).read ≤ (budget.spend n).read := by
    simp only [spend, saturatingAdd]
    omega
  exact Nat.le_trans less spent

/-- Every ratio leaves enough for one reading of the whole data. -/
theorem isExceeded_fresh (rootLength ratio : Nat) :
    ((fresh rootLength ratio).spend rootLength).isExceeded = false := by
  rw [isExceeded_eq_false_iff]
  intro most limited
  have spent : ((fresh rootLength ratio).spend rootLength).read = min rootLength maxCount := by
    rw [spend, saturatingAdd, fresh, Nat.zero_add]
  rw [limit?] at limited
  split at limited
  · cases limited
  · next positive =>
    cases limited
    rw [spent, saturatingMul]
    have whole : rootLength ≤ rootLength * ratio :=
      Nat.le_mul_of_pos_right rootLength (Nat.pos_of_ne_zero positive)
    exact Nat.le_min.2 ⟨Nat.le_trans (Nat.min_le_left _ _) whole, Nat.min_le_right _ _⟩

end Budget

namespace Reader

/-- The cursor stands within data whose bytes can be counted. -/
structure InBounds (r : Reader) : Prop where
  offset_le : r.offset ≤ r.data.length
  length_lt : r.data.length < 2 ^ 63

/-- The data after the cursor. -/
def rest (r : Reader) : Bytes := r.data.drop r.offset

/-- The reader after a read of so many bytes. -/
def consume (r : Reader) (count : Nat) : Reader :=
  { r with offset := r.offset + count, budget := r.budget.spend count }

/-- The outcome of a read of so many bytes that gives `x`: they are spent, and the cursor moves
behind them when the budget covers them. -/
def pay {α : Type} (r : Reader) (count : Nat) (x : α) : Except AbiError α × Reader :=
  if (r.budget.spend count).isExceeded then
    (.error (r.budget.spend count).error, { r with budget := r.budget.spend count })
  else (.ok x, r.consume count)

/-- The error of a read of this length past the end of the data. -/
def shortage (r : Reader) (length : Nat) : AbiError :=
  .malformedData "bytes" .outOfBounds r.data.length
    (saturatingAdd r.offset (Bytes.alignedLength length))

/-- The reader of the data from a position on. -/
def viewAt (r : Reader) (start : Nat) : Reader := { r with data := r.data.drop start, offset := 0 }

theorem length_rest (r : Reader) : r.rest.length = r.data.length - r.offset := List.length_drop

theorem InBounds.length_rest_add {r : Reader} (h : r.InBounds) :
    r.offset + r.rest.length = r.data.length := by
  rw [length_rest]
  exact Nat.add_sub_cancel' h.offset_le

theorem InBounds.viewAt {r : Reader} (h : r.InBounds) (start : Nat) : (r.viewAt start).InBounds where
  offset_le := Nat.zero_le _
  length_lt := by
    rw [Reader.viewAt, List.length_drop]
    exact Nat.lt_of_le_of_lt (Nat.sub_le _ _) h.length_lt

theorem InBounds.consume {r : Reader} (h : r.InBounds) {count : Nat}
    (inside : r.offset + count ≤ r.data.length) : (r.consume count).InBounds :=
  ⟨inside, h.length_lt⟩

theorem InBounds.withBudget {r : Reader} (h : r.InBounds) (budget : Budget) :
    ({ r with budget } : Reader).InBounds :=
  ⟨h.offset_le, h.length_lt⟩

theorem start_inBounds {data : Bytes} (small : data.length < 2 ^ 63) (isLoose : Bool)
    (hook : Option Hook) (ratio : Nat) : (start data isLoose hook ratio).InBounds :=
  ⟨Nat.zero_le _, small⟩

/-- A position in the data is a count. -/
theorem InBounds.count?_eq {r : Reader} (h : r.InBounds) {position : Nat}
    (inside : position ≤ r.data.length) : count? position = some position :=
  if_pos (lt_countLimit (Nat.lt_of_le_of_lt inside h.length_lt))

theorem remaining_eq {r : Reader} (h : r.InBounds) :
    r.remaining = .ok (r.data.length - r.offset) :=
  if_pos h.offset_le

theorem sub_eq {r : Reader} (h : r.InBounds) (offset : Nat) :
    r.sub offset =
      if r.offset + offset ≤ r.data.length then .ok (r.viewAt (r.offset + offset))
      else .error (.malformedData "offset" .outOfBounds r.data.length
        (saturatingAdd r.offset offset)) := by
  have small := h.length_lt
  unfold sub
  by_cases counted : r.offset + offset < countLimit
  · have count : count? (r.offset + offset) = some (r.offset + offset) := if_pos counted
    have exact : saturatingAdd r.offset offset = r.offset + offset :=
      saturatingAdd_of_le (by simp only [maxCount, countLimit] at counted ⊢; omega)
    simp only [count, exact]
    split
    · next inside => simp only [viewFrom, Bytes.slice?_end inside, Reader.viewAt]
    · rfl
  · have count : count? (r.offset + offset) = none := if_neg counted
    have clamped : saturatingAdd r.offset offset = maxCount := by
      simp only [saturatingAdd, maxCount, countLimit] at counted ⊢
      omega
    have outside : ¬r.offset + offset ≤ r.data.length := by
      simp only [countLimit] at counted
      omega
    simp only [count, if_neg outside, clamped]

/-- A read takes whole words while the data has them, and a relaxed read of loose data the
length itself where the data stops short of the last word. -/
theorem takenLength_eq {r : Reader} (h : r.InBounds) (length : Nat) (relaxed : Bool) :
    r.takenLength length relaxed =
      if r.offset + Bytes.alignedLength length ≤ r.data.length then
        .ok (Bytes.alignedLength length)
      else if r.isLoose && relaxed && r.offset + length ≤ r.data.length then .ok length
      else .error (r.shortage length) := by
  have small := h.length_lt
  have aligned := Bytes.le_alignedLength length
  unfold takenLength
  -- A length that rounds up past the counts is past the end of the data as well.
  by_cases counted : length + (wordSize - 1) < countLimit
  · have count : count? (length + (wordSize - 1)) = some (length + (wordSize - 1)) := if_pos counted
    have fits : ∀ k, (saturatingAdd r.offset k ≤ r.data.length) ↔ r.offset + k ≤ r.data.length := by
      intro k
      simp only [saturatingAdd, maxCount]
      omega
    simp only [count, shortage, ← Nat.not_le, fits]
    by_cases inside : r.offset + Bytes.alignedLength length ≤ r.data.length <;> simp [inside]
  · have count : count? (length + (wordSize - 1)) = none := if_neg counted
    have huge : maxCount ≤ Bytes.alignedLength length := by
      simp only [maxCount, Bytes.alignedLength, wordSize, countLimit] at counted ⊢
      omega
    have clamped : saturatingAdd r.offset (Bytes.alignedLength length) = maxCount := by
      simp only [saturatingAdd]
      omega
    have long : r.data.length < length := by
      simp only [countLimit, wordSize] at counted
      omega
    have past : ¬r.offset + Bytes.alignedLength length ≤ r.data.length := by omega
    have pastToo : ¬r.offset + length ≤ r.data.length := by omega
    simp [count, past, pastToo, shortage, clamped]

theorem takenLength_spec {r : Reader} (h : r.InBounds) {length taken : Nat} {relaxed : Bool}
    (ok : r.takenLength length relaxed = .ok taken) :
    length ≤ taken ∧ r.offset + taken ≤ r.data.length := by
  rw [takenLength_eq h] at ok
  split at ok
  · next inside =>
    cases ok
    exact ⟨Bytes.le_alignedLength length, inside⟩
  · split at ok
    · next relaxedInside =>
      cases ok
      simp only [Bool.and_eq_true, decide_eq_true_eq] at relaxedInside
      exact ⟨Nat.le_refl _, relaxedInside.2⟩
    · cases ok

theorem takenLength_error {r : Reader} (h : r.InBounds) {length : Nat} {relaxed : Bool}
    {e : AbiError} (error : r.takenLength length relaxed = .error e) :
    e = r.shortage length := by
  rw [takenLength_eq h] at error
  split at error
  · cases error
  · split at error
    · cases error
    · cases error
      rfl

theorem peek_eq {r : Reader} (h : r.InBounds) (length : Nat) (relaxed : Bool) :
    r.peek length relaxed = (r.takenLength length relaxed).map fun taken => r.rest.take taken := by
  unfold peek
  cases outcome : r.takenLength length relaxed with
  | error e => rfl
  | ok taken =>
    obtain ⟨_, inside⟩ := takenLength_spec h outcome
    have counted := h.count?_eq inside
    have slice := Bytes.slice?_of_le (Nat.le_add_right r.offset taken) inside
    rw [Nat.add_sub_cancel_left] at slice
    simp only [bind, Except.bind, counted, slice, Except.map, rest]

end Reader

namespace Reading

variable {α β : Type} {r : Reader}

theorem runFrom_pure (x : α) : (pure x : Reading α).runFrom r = (.ok x, r) := rfl

theorem runFrom_ofExcept (result : Except AbiError α) :
    (ofExcept result).runFrom r = (result, r) := rfl

theorem runFrom_inspect (f : Reader → Except AbiError α) : (inspect f).runFrom r = (f r, r) := rfl

theorem runFrom_bind_of_ok {action : Reading α} {f : α → Reading β} {x : α} {after : Reader}
    (h : action.runFrom r = (.ok x, after)) : (action >>= f).runFrom r = (f x).runFrom after := by
  change (ExceptT.bindCont f (action.runFrom r).1) (action.runFrom r).2 = _
  rw [h]
  rfl

theorem runFrom_bind_of_error {action : Reading α} {f : α → Reading β} {e : AbiError}
    {after : Reader} (h : action.runFrom r = (.error e, after)) :
    (action >>= f).runFrom r = (.error e, after) := by
  change (ExceptT.bindCont f (action.runFrom r).1) (action.runFrom r).2 = _
  rw [h]
  rfl

theorem runFrom_charge (count : Nat) :
    (charge count).runFrom r =
      (if (r.budget.spend count).isExceeded then .error (r.budget.spend count).error else .ok (),
        { r with budget := r.budget.spend count }) := rfl

theorem runFrom_elsewhere (place : Reader) (action : Reading α) :
    (elsewhere place action).runFrom r =
      ((action.runFrom { place with budget := r.budget }).1,
        { r with budget := (action.runFrom { place with budget := r.budget }).2.budget }) := rfl

theorem runFrom_advance (h : r.InBounds) {count : Nat} (inside : r.offset + count ≤ r.data.length) :
    (advance count).runFrom r = (.ok (), { r with offset := r.offset + count }) := by
  simp only [advance, runFrom, h.count?_eq inside]

/-- A read gives the bytes after the cursor, and pays for those it takes. -/
theorem runFrom_bytes (h : r.InBounds) (length : Nat) (relaxed : Bool) :
    (bytes length relaxed).runFrom r =
      match r.takenLength length relaxed with
      | .error e => (.error e, r)
      | .ok taken => r.pay taken (r.rest.take length) := by
  have peek := Reader.peek_eq h length relaxed
  cases outcome : r.takenLength length relaxed with
  | error e =>
    rw [outcome] at peek
    exact runFrom_bind_of_error (by rw [runFrom_inspect, peek]; rfl)
  | ok taken =>
    obtain ⟨enough, inside⟩ := Reader.takenLength_spec h outcome
    have size : (r.rest.take taken).length = taken := by
      apply List.length_take_of_le
      have whole := h.length_rest_add
      omega
    have slice : Bytes.slice? (r.rest.take taken) 0 length = some (r.rest.take length) := by
      rw [Bytes.slice?_start (by rw [size]; exact enough), List.take_take, Nat.min_eq_left enough]
    have first : (inspect fun r => r.peek length relaxed).runFrom r =
        (.ok (r.rest.take taken), r) := by
      rw [runFrom_inspect, peek, outcome]
      rfl
    have spend := runFrom_charge (r := r) taken
    have move := runFrom_advance (h.withBudget (r.budget.spend taken)) inside
    unfold bytes
    rw [runFrom_bind_of_ok first, size]
    simp only [Reader.pay]
    split at spend
    · next exceeded => rw [runFrom_bind_of_error spend, if_pos exceeded]
    · next covered =>
      rw [runFrom_bind_of_ok spend, runFrom_bind_of_ok move, slice, if_neg covered]
      rfl

theorem runFrom_word (h : r.InBounds) :
    word.runFrom r =
      if r.offset + wordSize ≤ r.data.length then r.pay wordSize (Word.first r.rest)
      else (.error (r.shortage wordSize), r) := by
  have read := runFrom_bytes h wordSize false
  rw [Reader.takenLength_eq h, Bytes.alignedLength_wordSize, Bool.and_false] at read
  unfold word
  by_cases inside : r.offset + wordSize ≤ r.data.length
  · have enough : wordSize ≤ r.rest.length := by
      have whole := h.length_rest_add
      omega
    rw [if_pos inside] at read ⊢
    simp only [Reader.pay] at read ⊢
    split at read
    · next exceeded => rw [runFrom_bind_of_error read, if_pos exceeded]
    · next covered =>
      rw [runFrom_bind_of_ok read, if_neg covered, Word.ofBytes?_take enough, runFrom_pure]
  · rw [if_neg inside] at read ⊢
    exact runFrom_bind_of_error read

/-- Reads with an action and then checks what it gave; the check sees the reader before. -/
def checked (action : Reading α) (check : Reader → α → Except AbiError β) : Reading β := fun r =>
  match action.runFrom r with
  | (.error e, after) => (.error e, after)
  | (.ok x, after) => (check r x, after)

theorem runFrom_checked_of_ok {action : Reading α} {check : Reader → α → Except AbiError β} {x : α}
    {after : Reader} (h : action.runFrom r = (.ok x, after)) :
    (checked action check).runFrom r = (check r x, after) := by
  conv_lhs => unfold runFrom checked
  rw [h]

theorem runFrom_checked_of_error {action : Reading α} {check : Reader → α → Except AbiError β}
    {e : AbiError} {after : Reader} (h : action.runFrom r = (.error e, after)) :
    (checked action check).runFrom r = (.error e, after) := by
  conv_lhs => unfold runFrom checked
  rw [h]

theorem count_eq_checked (typeName : String) :
    count typeName = checked word fun r w =>
      if w.toNat < countLimit then .ok w.toNat
      else .error (.malformedData typeName .lengthOverflow r.data.length r.offset) := by
  funext r
  unfold count checked
  rcases word.runFrom r with ⟨outcome, after⟩
  cases outcome with
  | error e => rfl
  | ok w => by_cases counted : w.toNat < countLimit <;> simp only [count?, counted, if_true, if_false]

theorem runFrom_coerce (name : String) (v : Value) :
    (coerce name v).runFrom r = (.ok (r.coerce name v), r) := rfl

end Reading

end AbiCodec
