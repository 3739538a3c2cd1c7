import AbiCodec.Proofs.ReaderSteps

/-!
# Outcomes of reads

What a read does to the reader it starts from, wherever its cursor stands and
whatever its data. Either it touches nothing, or it pays for bytes that the data
has: a whole number of words, or for a relaxed read at the end of loose data the
length itself.
-/

namespace AbiCodec

/-- The error of a budget that is exceeded. -/
def AbiError.IsRefusal (e : AbiError) : Prop :=
  ∃ ratio rootLength read, e = .malformedData "data" (.inflation ratio) rootLength read

theorem exists_of_isOk {ε α : Type} {x : Except ε α} (h : x.isOk = true) : ∃ a, x = .ok a := by
  cases x with
  | ok a => exact ⟨a, rfl⟩
  | error e => cases h

namespace Budget

theorem isExceeded_eq_true_iff {budget : Budget} :
    budget.isExceeded = true ↔ ∃ most, budget.limit? = some most ∧ most < budget.read := by
  unfold isExceeded
  cases budget.limit? with
  | none => simp
  | some most => simp

theorem le_read_spend {budget : Budget} (counted : budget.read ≤ maxCount) (count : Nat) :
    budget.read ≤ (budget.spend count).read :=
  Nat.le_min.2 ⟨Nat.le_add_right _ _, counted⟩

theorem read_spend_le (budget : Budget) (count : Nat) :
    (budget.spend count).read ≤ budget.read + count :=
  Nat.min_le_left _ _

/-- A budget that is exceeded stays so, whatever is spent. -/
theorem isExceeded_spend {budget : Budget} (counted : budget.read ≤ maxCount)
    (exceeded : budget.isExceeded = true) (count : Nat) :
    (budget.spend count).isExceeded = true := by
  rw [isExceeded_eq_true_iff] at exceeded ⊢
  obtain ⟨most, limit, past⟩ := exceeded
  exact ⟨most, limit, Nat.lt_of_lt_of_le past (le_read_spend counted count)⟩

end Budget

namespace Reader

/-- A read of this length takes so many bytes: they are in the data, and they are whole words
unless a relaxed read of loose data stops at its length because the data ends before the word. -/
structure Takes (r : Reader) (length : Nat) (relaxed : Bool) (taken : Nat) : Prop where
  enough : length ≤ taken
  inside : r.offset + taken ≤ r.data.length
  whole : taken = Bytes.alignedLength length ∨
    taken = length ∧ relaxed = true ∧ r.isLoose = true ∧
      r.data.length < r.offset + Bytes.alignedLength length

theorem Takes.length_le_rest {r : Reader} {length taken : Nat} {relaxed : Bool}
    (takes : r.Takes length relaxed taken) : taken ≤ r.rest.length := by
  have inside := takes.inside
  rw [length_rest]
  omega

/-- Only relaxed reads take less than whole words. -/
theorem Takes.eq_aligned {r : Reader} {length taken : Nat}
    (takes : r.Takes length false taken) : taken = Bytes.alignedLength length := by
  rcases takes.whole with whole | ⟨_, relaxed, _⟩
  · exact whole
  · cases relaxed

theorem takenLength_outcome (r : Reader) (length : Nat) (relaxed : Bool) :
    (∃ e, ¬e.IsRefusal ∧ r.takenLength length relaxed = .error e) ∨
      r.takenLength length relaxed = .ok (Bytes.alignedLength length) ∨
      r.takenLength length relaxed = .ok length ∧ relaxed = true ∧ r.isLoose = true ∧
        r.data.length < r.offset + Bytes.alignedLength length := by
  have aligned := Nat.min_le_left (r.offset + Bytes.alignedLength length) maxCount
  unfold takenLength
  split
  · left
    exact ⟨_, by simp [AbiError.IsRefusal], rfl⟩
  · dsimp only
    split
    · next past =>
      split
      · next loose =>
        simp only [Bool.and_eq_true] at loose
        exact Or.inr (Or.inr ⟨rfl, loose.1.2, loose.1.1, Nat.lt_of_lt_of_le past aligned⟩)
      · left
        exact ⟨_, by simp [AbiError.IsRefusal], rfl⟩
    · exact Or.inr (Or.inl rfl)

/-- The bytes that a read takes are the first ones after the cursor. -/
theorem peek_outcome (r : Reader) (length : Nat) (relaxed : Bool) :
    (∃ e, ¬e.IsRefusal ∧ r.peek length relaxed = .error e) ∨
      ∃ taken, r.Takes length relaxed taken ∧ r.offset + taken < countLimit ∧
        r.peek length relaxed = .ok (r.rest.take taken) := by
  have found {taken : Nat} (size : r.takenLength length relaxed = .ok taken)
      (enough : length ≤ taken) (whole : taken = Bytes.alignedLength length ∨
        taken = length ∧ relaxed = true ∧ r.isLoose = true ∧
          r.data.length < r.offset + Bytes.alignedLength length) :
      (∃ e, ¬e.IsRefusal ∧ r.peek length relaxed = .error e) ∨
        ∃ taken, r.Takes length relaxed taken ∧ r.offset + taken < countLimit ∧
          r.peek length relaxed = .ok (r.rest.take taken) := by
    simp only [peek, size, bind, Except.bind, count?]
    by_cases counted : r.offset + taken < countLimit
    · by_cases inside : r.offset + taken ≤ r.data.length
      · right
        refine ⟨taken, ⟨enough, inside, whole⟩, counted, ?_⟩
        simp only [if_pos counted, Bytes.slice?_of_le (Nat.le_add_right _ _) inside,
          Nat.add_sub_cancel_left, rest]
      · left
        have none : Bytes.slice? r.data r.offset (r.offset + taken) = none :=
          if_neg fun bounds => inside bounds.2
        exact ⟨.internal .slice, by simp [AbiError.IsRefusal], by simp only [if_pos counted, none]⟩
    · left
      exact ⟨.internal .count, by simp [AbiError.IsRefusal], by simp only [if_neg counted]⟩
  rcases r.takenLength_outcome length relaxed with ⟨e, other, failed⟩ | size | ⟨size, exact⟩
  · left
    exact ⟨e, other, by simp only [peek, failed, bind, Except.bind]⟩
  · exact found size (Bytes.le_alignedLength length) (Or.inl rfl)
  · exact found size (Nat.le_refl _) (Or.inr ⟨rfl, exact⟩)

/-- A reader made from another starts at a place of its data. -/
theorem sub_outcome (r : Reader) (offset : Nat) :
    (∃ e, ¬e.IsRefusal ∧ r.sub offset = .error e) ∨
      r.offset + offset ≤ r.data.length ∧ r.sub offset = .ok (r.viewAt (r.offset + offset)) := by
  unfold sub
  by_cases counted : r.offset + offset < countLimit
  · simp only [count?, if_pos counted]
    by_cases inside : r.offset + offset ≤ r.data.length
    · right
      exact ⟨inside, by simp only [if_pos inside, viewFrom, Bytes.slice?_end inside, viewAt]⟩
    · left
      exact ⟨_, by simp [AbiError.IsRefusal], if_neg inside⟩
  · left
    simp only [count?, if_neg counted]
    exact ⟨_, by simp [AbiError.IsRefusal], rfl⟩

theorem of_sub_eq_ok {r place : Reader} {offset : Nat} (made : r.sub offset = .ok place) :
    r.offset + offset ≤ r.data.length ∧ place = r.viewAt (r.offset + offset) := by
  rcases r.sub_outcome offset with ⟨e, _, failed⟩ | ⟨inside, view⟩
  · rw [failed] at made
    cases made
  · rw [view] at made
    cases made
    exact ⟨inside, rfl⟩

theorem of_pay_eq_ok {α : Type} {r after : Reader} {count : Nat} {x y : α}
    (paid : r.pay count x = (.ok y, after)) :
    (r.budget.spend count).isExceeded = false ∧ y = x ∧ after = r.consume count := by
  rw [pay] at paid
  split at paid
  · cases paid
  · next covered =>
    cases paid
    exact ⟨Bool.eq_false_iff.2 covered, rfl, rfl⟩

end Reader

namespace Reading

variable {α β : Type} {r : Reader}

/-- A sequence that gives a value has given one in its first part. -/
theorem exists_of_runFrom_bind {action : Reading α} {f : α → Reading β} {y : β} {after : Reader}
    (h : (action >>= f).runFrom r = (.ok y, after)) :
    ∃ x mid, action.runFrom r = (.ok x, mid) ∧ (f x).runFrom mid = (.ok y, after) := by
  rcases run : action.runFrom r with ⟨outcome, mid⟩
  cases outcome with
  | error e =>
    rw [runFrom_bind_of_error run] at h
    cases h
  | ok x =>
    rw [runFrom_bind_of_ok run] at h
    exact ⟨x, mid, rfl, h⟩

theorem exists_of_runFrom_checked {action : Reading α} {check : Reader → α → Except AbiError β}
    {y : β} {after : Reader} (h : (checked action check).runFrom r = (.ok y, after)) :
    ∃ x, action.runFrom r = (.ok x, after) ∧ check r x = .ok y := by
  rcases run : action.runFrom r with ⟨outcome, mid⟩
  cases outcome with
  | error e =>
    rw [runFrom_checked_of_error run] at h
    cases h
  | ok x =>
    rw [runFrom_checked_of_ok run] at h
    obtain ⟨passed, rfl⟩ := Prod.mk.inj h
    exact ⟨x, rfl, passed⟩

theorem runFrom_map (f : α → β) (action : Reading α) :
    (f <$> action).runFrom r = ((action.runFrom r).1.map f, (action.runFrom r).2) := by
  rcases run : action.runFrom r with ⟨outcome, after⟩
  have unfolded : (f <$> action).runFrom r = (action >>= fun x => pure (f x)).runFrom r := rfl
  cases outcome with
  | error e => rw [unfolded, runFrom_bind_of_error run, Except.map]
  | ok x => rw [unfolded, runFrom_bind_of_ok run, runFrom_pure, Except.map]

/-- A read touches nothing, or it pays for the bytes it takes. -/
theorem runFrom_bytes_outcome (r : Reader) (length : Nat) (relaxed : Bool) :
    (∃ e, ¬e.IsRefusal ∧ (bytes length relaxed).runFrom r = (.error e, r)) ∨
      ∃ taken, r.Takes length relaxed taken ∧
        (bytes length relaxed).runFrom r = r.pay taken (r.rest.take length) := by
  rcases r.peek_outcome length relaxed with ⟨e, other, failed⟩ | ⟨taken, takes, counted, peeked⟩
  · left
    exact ⟨e, other, runFrom_bind_of_error (by rw [runFrom_inspect, failed])⟩
  · right
    refine ⟨taken, takes, ?_⟩
    have size : (r.rest.take taken).length = taken := List.length_take_of_le takes.length_le_rest
    have slice : Bytes.slice? (r.rest.take taken) 0 length = some (r.rest.take length) := by
      rw [Bytes.slice?_start (by rw [size]; exact takes.enough), List.take_take,
        Nat.min_eq_left takes.enough]
    have first : (inspect fun r => r.peek length relaxed).runFrom r =
        (.ok (r.rest.take taken), r) := by
      rw [runFrom_inspect, peeked]
    have spend := runFrom_charge (r := r) taken
    have move : (advance taken).runFrom { r with budget := r.budget.spend taken } =
        (.ok (), r.consume taken) := by
      simp only [advance, runFrom, count?, if_pos counted, Reader.consume]
    unfold bytes
    rw [runFrom_bind_of_ok first, size, Reader.pay]
    split at spend
    · next exceeded => rw [runFrom_bind_of_error spend, if_pos exceeded]
    · next covered =>
      rw [runFrom_bind_of_ok spend, runFrom_bind_of_ok move, slice, if_neg covered]
      rfl

theorem runFrom_word_outcome (r : Reader) :
    (∃ e, ¬e.IsRefusal ∧ word.runFrom r = (.error e, r)) ∨
      r.offset + wordSize ≤ r.data.length ∧ word.runFrom r = r.pay wordSize (Word.first r.rest) := by
  unfold word
  rcases runFrom_bytes_outcome r wordSize false with
    ⟨e, other, failed⟩ | ⟨taken, takes, read⟩
  · left
    exact ⟨e, other, runFrom_bind_of_error failed⟩
  · right
    cases takes.eq_aligned.trans Bytes.alignedLength_wordSize
    have enough := takes.length_le_rest
    refine ⟨takes.inside, ?_⟩
    simp only [Reader.pay] at read ⊢
    split at read
    · next exceeded => rw [runFrom_bind_of_error read, if_pos exceeded]
    · next covered =>
      rw [runFrom_bind_of_ok read, if_neg covered, Word.ofBytes?_take enough, runFrom_pure]

theorem exists_of_runFrom_bytes {length : Nat} {relaxed : Bool} {x : Bytes} {after : Reader}
    (run : (bytes length relaxed).runFrom r = (.ok x, after)) :
    ∃ taken, r.Takes length relaxed taken ∧ (r.budget.spend taken).isExceeded = false ∧
      x = r.rest.take length ∧ after = r.consume taken := by
  rcases runFrom_bytes_outcome r length relaxed with ⟨e, _, failed⟩ | ⟨taken, takes, read⟩
  · rw [failed] at run
    cases run
  · rw [read] at run
    exact ⟨taken, takes, Reader.of_pay_eq_ok run⟩

theorem of_runFrom_word {w : Word} {after : Reader} (run : word.runFrom r = (.ok w, after)) :
    r.offset + wordSize ≤ r.data.length ∧ w = Word.first r.rest ∧ after = r.consume wordSize := by
  rcases runFrom_word_outcome r with ⟨e, _, failed⟩ | ⟨inside, read⟩
  · rw [failed] at run
    cases run
  · rw [read] at run
    exact ⟨inside, (Reader.of_pay_eq_ok run).2⟩

end Reading

end AbiCodec
