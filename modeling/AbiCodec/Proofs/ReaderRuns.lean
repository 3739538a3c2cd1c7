import AbiCodec.Proofs.ReadOutcomes
import AbiCodec.Wire.ReaderTree

/-!
# Runs of a reader tree

A run is any sequence of operations, each on a reader that the tree has by then.
One lemma says what an operation does to its reader; from it the invariant of a
run follows by induction: the readers stay within parts of the data, and the
budget they share pays for every byte that any of them delivers.
-/

namespace AbiCodec

namespace Reader

/-- What a read of so many bytes does to its reader: it touches nothing, it is refused for what it
would take, or it moves behind bytes that the budget covers. -/
inductive Reads {α : Type} (r : Reader) (length : Nat) : Except AbiError α → Reader → Prop where
  | untouched {e : AbiError} : ¬e.IsRefusal → Reads r length (.error e) r
  | refused {taken : Nat} {e : AbiError} : (r.budget.spend taken).isExceeded = true →
      Reads r length (.error e) { r with budget := r.budget.spend taken }
  | moved {taken : Nat} {outcome : Except AbiError α} : length ≤ taken →
      r.offset + taken ≤ r.data.length → (r.budget.spend taken).isExceeded = false →
      (∀ e, outcome = .error e → ¬e.IsRefusal) → Reads r length outcome (r.consume taken)

variable {α β : Type} {r after : Reader} {length : Nat} {outcome : Except AbiError α}

theorem Reads.map (h : Reads r length outcome after) (f : α → β) :
    Reads r length (outcome.map f) after := by
  cases h with
  | untouched other => exact .untouched other
  | refused exceeded => exact .refused exceeded
  | moved enough inside covered others =>
    refine .moved enough inside covered ?_
    intro e error
    cases outcome with
    | error e' => exact others e (by cases error; rfl)
    | ok x => cases error

theorem reads_pay {taken : Nat} (enough : length ≤ taken)
    (inside : r.offset + taken ≤ r.data.length) (x : α) :
    Reads r length (r.pay taken x).1 (r.pay taken x).2 := by
  unfold pay
  split
  · next exceeded => exact .refused exceeded
  · next covered =>
    exact .moved enough inside (Bool.eq_false_iff.2 covered) fun e error => by cases error

theorem Reads.data_eq (h : Reads r length outcome after) : after.data = r.data := by
  cases h <;> rfl

theorem Reads.offset_le (h : Reads r length outcome after) (inBounds : r.offset ≤ r.data.length) :
    after.offset ≤ after.data.length := by
  cases h with
  | untouched => exact inBounds
  | refused => exact inBounds
  | moved enough inside => exact inside

theorem Reads.limit?_eq (h : Reads r length outcome after) :
    after.budget.limit? = r.budget.limit? := by
  cases h <;> rfl

theorem Reads.read_le (h : Reads r length outcome after) (counted : r.budget.read ≤ maxCount) :
    r.budget.read ≤ after.budget.read ∧ after.budget.read ≤ maxCount := by
  cases h with
  | untouched => exact ⟨Nat.le_refl _, counted⟩
  | refused => exact ⟨Budget.le_read_spend counted _, Nat.min_le_right _ _⟩
  | moved => exact ⟨Budget.le_read_spend counted _, Nat.min_le_right _ _⟩

/-- What is delivered was paid for, and the budget covers it. -/
theorem Reads.delivered {x : α} (h : Reads r length (.ok x) after) :
    min (r.budget.read + length) maxCount ≤ after.budget.read ∧
      after.budget.isExceeded = false := by
  cases h with
  | @moved taken _ enough inside covered others =>
    refine ⟨?_, covered⟩
    change _ ≤ min (r.budget.read + taken) maxCount
    exact min_le_min_right maxCount (Nat.add_le_add_left enough _)

theorem Reads.exceeded {e : AbiError} (h : Reads r length (.error e : Except AbiError α) after)
    (refusal : e.IsRefusal) : after.budget.isExceeded = true := by
  cases h with
  | untouched other => exact absurd refusal other
  | refused exceeded => exact exceeded
  | moved enough inside covered others => exact absurd refusal (others e rfl)

/-- Nothing is delivered once the budget is exceeded, and it stays exceeded. -/
theorem Reads.of_exceeded (h : Reads r length outcome after) (counted : r.budget.read ≤ maxCount)
    (spent : r.budget.isExceeded = true) :
    (∃ e, outcome = .error e) ∧ after.budget.isExceeded = true := by
  cases h with
  | @untouched e => exact ⟨⟨e, rfl⟩, spent⟩
  | @refused taken e exceeded => exact ⟨⟨e, rfl⟩, exceeded⟩
  | @moved taken _ enough inside covered others =>
    have still := Budget.isExceeded_spend counted spent taken
    rw [covered] at still
    cases still

theorem offset_of_pay_error {taken : Nat} {x : α} {e : AbiError}
    (h : r.pay taken x = (.error e, after)) : after.offset = r.offset := by
  unfold pay at h
  split at h
  · cases h
    rfl
  · cases h

theorem offset_of_bytes_error {relaxed : Bool} {e : AbiError}
    (h : (Reading.bytes length relaxed).runFrom r = (.error e, after)) :
    after.offset = r.offset := by
  rcases Reading.runFrom_bytes_outcome r length relaxed with ⟨e', _, failed⟩ | ⟨taken, _, read⟩
  · rw [failed] at h
    cases h
    rfl
  · exact offset_of_pay_error (read.symm.trans h)

theorem offset_of_word_error {e : AbiError} (h : Reading.word.runFrom r = (.error e, after)) :
    after.offset = r.offset := by
  rcases Reading.runFrom_word_outcome r with ⟨e', _, failed⟩ | ⟨_, read⟩
  · rw [failed] at h
    cases h
    rfl
  · exact offset_of_pay_error (read.symm.trans h)

theorem reads_bytes (r : Reader) (length : Nat) (relaxed : Bool) :
    Reads r length ((Reading.bytes length relaxed).runFrom r).1
      ((Reading.bytes length relaxed).runFrom r).2 := by
  rcases Reading.runFrom_bytes_outcome r length relaxed with
    ⟨e, other, failed⟩ | ⟨taken, takes, read⟩
  · rw [failed]
    exact .untouched other
  · rw [read]
    exact reads_pay takes.enough takes.inside _

theorem reads_word (r : Reader) :
    Reads r wordSize (Reading.word.runFrom r).1 (Reading.word.runFrom r).2 := by
  rcases Reading.runFrom_word_outcome r with ⟨e, other, failed⟩ | ⟨inside, read⟩
  · rw [failed]
    exact .untouched other
  · rw [read]
    exact reads_pay (Nat.le_refl _) inside _

/-- A word that is no count is paid for like any other. -/
theorem reads_count (r : Reader) (typeName : String) :
    Reads r wordSize ((Reading.count typeName).runFrom r).1
      ((Reading.count typeName).runFrom r).2 := by
  have word := r.reads_word
  rw [Reading.count_eq_checked]
  rcases run : Reading.word.runFrom r with ⟨outcome, after⟩
  rw [run] at word
  cases outcome with
  | error e =>
    rw [Reading.runFrom_checked_of_error run]
    cases word with
    | untouched other => exact .untouched other
    | refused exceeded => exact .refused exceeded
    | moved enough inside covered others =>
      exact .moved enough inside covered fun e' error => others e' (by cases error; rfl)
  | ok w =>
    rw [Reading.runFrom_checked_of_ok run]
    cases word with
    | moved enough inside covered others =>
      refine .moved enough inside covered ?_
      intro e error
      split at error
      · cases error
      · cases error
        simp [AbiError.IsRefusal]

end Reader

namespace ReaderTree

/-- The bytes that a step delivers when it reads. -/
def Step.readLength? : Step → Option Nat
  | .bytes length _ => some length
  | .word => some wordSize
  | .number => some wordSize
  | .count _ => some wordSize
  | _ => none

/-- The steps that are operations of a reader: those that read, and those that add a reader. The
others look at a reader or decode with it. -/
def Step.IsOperation : Step → Prop
  | .sub _ => True
  | .clone => True
  | s => s.readLength?.isSome

/-- A step of a run, with its outcome. -/
structure Event where
  index : Nat
  step : Step
  outcome : Except AbiError ReadResult

/-- The bytes that a step has delivered. -/
def Event.delivered (event : Event) : Nat :=
  match event.outcome with
  | .ok _ => event.step.readLength?.getD 0
  | .error _ => 0

/-- The bytes that the reads of a run have delivered together. -/
def delivered (events : List Event) : Nat := (events.map Event.delivered).sum

/-- A read of the run was refused because the budget did not cover it. -/
def Refused (events : List Event) : Prop :=
  ∃ event ∈ events, ∃ e : AbiError, event.outcome = .error e ∧ e.IsRefusal

/-- Where the cursor of a reader of the tree stands. -/
def cursor? (tree : ReaderTree) (index : Nat) : Option Nat := tree.readers[index]?.map Reader.offset

/-- From a tree, operations on readers that are there lead to another, with these events. -/
inductive Run (first : ReaderTree) : List Event → ReaderTree → Prop where
  | start : Run first [] first
  | step {events : List Event} {tree next : ReaderTree} {index : Nat} {r : Reader} {s : Step}
      {outcome : Except AbiError ReadResult} : Run first events tree →
      tree.reader? index = some r → s.IsOperation → tree.step index r s = (outcome, next) →
      Run first (events ++ [⟨index, s, outcome⟩]) next

variable {tree next : ReaderTree} {index : Nat} {r : Reader} {s : Step}
  {outcome : Except AbiError ReadResult}

theorem delivered_append (events : List Event) (event : Event) :
    delivered (events ++ [event]) = delivered events + event.delivered := by
  simp [delivered]

theorem exists_of_reader? (h : tree.reader? index = some r) :
    ∃ stored, tree.readers[index]? = some stored ∧ r = { stored with budget := tree.budget } := by
  obtain ⟨stored, there, same⟩ := Option.map_eq_some_iff.1 h
  exact ⟨stored, there, same.symm⟩

theorem step_of_read {length : Nat} (reads : s.readLength? = some length) (tree : ReaderTree)
    (index : Nat) (r : Reader) :
    ∃ outcome after, tree.step index r s = (outcome, ⟨tree.readers.set index after, after.budget⟩) ∧
      r.Reads length outcome after := by
  have read {α : Type} (f : α → ReadResult) (action : Reading α)
      (h : r.Reads length (action.runFrom r).1 (action.runFrom r).2) :
      ∃ outcome after, tree.read index r (f <$> action) =
          (outcome, ⟨tree.readers.set index after, after.budget⟩) ∧
        r.Reads length outcome after := by
    refine ⟨(action.runFrom r).1.map f, (action.runFrom r).2, ?_, h.map f⟩
    rw [ReaderTree.read, Reading.runFrom_map]
  cases s with
  | bytes length' relaxed =>
    cases reads
    exact read _ _ (r.reads_bytes _ relaxed)
  | word =>
    cases reads
    exact read _ _ r.reads_word
  | number =>
    cases reads
    exact read _ _ r.reads_word
  | count typeName =>
    cases reads
    exact read _ _ (r.reads_count typeName)
  | _ => cases reads

/-- An operation that does not read leaves the tree as it is, or adds a reader of a part of what
its reader sees. -/
theorem step_of_other (operation : s.IsOperation) (other : s.readLength? = none)
    (h : tree.step index r s = (outcome, next)) :
    (next = tree ∧ ∃ e, ¬e.IsRefusal ∧ outcome = .error e) ∨
      ∃ place, next = { tree with readers := tree.readers ++ [place] } ∧ (∃ x, outcome = .ok x) ∧
        place.data <:+ r.data ∧ (r.offset ≤ r.data.length → place.offset ≤ place.data.length) := by
  cases s with
  | sub offset =>
    rcases r.sub_outcome offset with ⟨e, unlike, failed⟩ | ⟨inside, made⟩
    · simp only [step, failed, Prod.mk.injEq] at h
      obtain ⟨rfl, rfl⟩ := h
      exact Or.inl ⟨rfl, e, unlike, rfl⟩
    · simp only [step, made, add, Prod.mk.injEq] at h
      obtain ⟨rfl, rfl⟩ := h
      exact Or.inr ⟨_, rfl, ⟨_, rfl⟩, List.drop_suffix _ _, fun _ => Nat.zero_le _⟩
  | clone =>
    simp only [step, add, Prod.mk.injEq] at h
    obtain ⟨rfl, rfl⟩ := h
    exact Or.inr ⟨r, rfl, ⟨_, rfl⟩, List.suffix_refl _, id⟩
  | bytes length relaxed => cases other
  | word => cases other
  | number => cases other
  | count typeName => cases other
  | data => cases operation
  | isLoose => cases operation
  | coerce name v => cases operation
  | decode action => cases operation

/-- What a run keeps. The bytes delivered are paid for while the budget is not exceeded, and from
then on nothing is delivered. -/
structure Invariant (data : Bytes) (ratio : Nat) (events : List Event) (tree : ReaderTree) :
    Prop where
  placed : ∀ r ∈ tree.readers, r.data <:+ data ∧ r.offset ≤ r.data.length
  counted : tree.budget.read ≤ maxCount
  limit?_eq : tree.budget.limit? = (Budget.fresh data.length ratio).limit?
  paid : tree.budget.isExceeded = false → min (delivered events) maxCount ≤ tree.budget.read
  within : ∀ most, tree.budget.limit? = some most → min (delivered events) maxCount ≤ most
  refused : Refused events → tree.budget.isExceeded = true

variable {data : Bytes} {ratio : Nat} {events : List Event}

theorem invariant_start (data : Bytes) (isLoose : Bool) (hook : Option Hook) (ratio : Nat) :
    Invariant data ratio [] (start data isLoose hook ratio) where
  placed := by
    intro r member
    cases List.mem_singleton.1 member
    exact ⟨List.suffix_refl _, Nat.zero_le _⟩
  counted := Nat.zero_le _
  limit?_eq := rfl
  paid := fun _ => Nat.min_le_left _ _
  within := fun _ _ => Nat.le_trans (Nat.min_le_left _ _) (Nat.zero_le _)
  refused := by
    rintro ⟨event, member, _⟩
    cases member

theorem Invariant.placed_of_reader? (h : Invariant data ratio events tree)
    (there : tree.reader? index = some r) : r.data <:+ data ∧ r.offset ≤ r.data.length := by
  obtain ⟨stored, stands, rfl⟩ := exists_of_reader? there
  exact h.placed stored (List.mem_of_getElem? stands)

theorem refused_append {event : Event} (h : Refused (events ++ [event])) :
    Refused events ∨ ∃ e : AbiError, event.outcome = .error e ∧ e.IsRefusal := by
  obtain ⟨other, member, e, failed, refusal⟩ := h
  rcases List.mem_append.1 member with before | last
  · exact Or.inl ⟨other, before, e, failed, refusal⟩
  · cases List.mem_singleton.1 last
    exact Or.inr ⟨e, failed, refusal⟩

theorem Invariant.read {length : Nat} {after : Reader} (h : Invariant data ratio events tree)
    (there : tree.reader? index = some r) (delivers : s.readLength? = some length)
    (reads : r.Reads length outcome after) :
    Invariant data ratio (events ++ [⟨index, s, outcome⟩])
      ⟨tree.readers.set index after, after.budget⟩ := by
  have shared : r.budget = tree.budget := by
    obtain ⟨stored, _, rfl⟩ := exists_of_reader? there
    rfl
  obtain ⟨part, inBounds⟩ := h.placed_of_reader? there
  have counted : r.budget.read ≤ maxCount := by
    rw [shared]
    exact h.counted
  have limit : after.budget.limit? = tree.budget.limit? := by rw [reads.limit?_eq, shared]
  -- What has been delivered is paid for after the read, unless the budget is exceeded then.
  have paid : after.budget.isExceeded = false →
      min (delivered (events ++ [⟨index, s, outcome⟩])) maxCount ≤ after.budget.read := by
    intro covered
    have before : tree.budget.isExceeded = false := by
      cases exceeded : tree.budget.isExceeded with
      | false => rfl
      | true =>
        rw [← shared] at exceeded
        rw [(reads.of_exceeded counted exceeded).2] at covered
        cases covered
    have paid := h.paid before
    rw [← shared] at paid
    rw [delivered_append]
    cases outcome with
    | error e => exact Nat.le_trans paid (reads.read_le counted).1
    | ok x =>
      have more := reads.delivered.1
      simp only [Event.delivered, delivers, Option.getD_some]
      omega
  refine ⟨?_, (reads.read_le counted).2, limit.trans h.limit?_eq, paid, ?_, ?_⟩
  · intro other member
    rcases List.mem_or_eq_of_mem_set member with old | rfl
    · exact h.placed other old
    · rw [reads.data_eq]
      exact ⟨part, reads.data_eq ▸ reads.offset_le inBounds⟩
  · intro most most_eq
    cases outcome with
    | error e =>
      rw [delivered_append]
      exact h.within most (limit ▸ most_eq)
    | ok x =>
      have covered := reads.delivered.2
      exact Nat.le_trans (paid covered) (Budget.isExceeded_eq_false_iff.1 covered most most_eq)
  · intro refused
    rcases refused_append refused with before | ⟨e, rfl, refusal⟩
    · have exceeded := h.refused before
      rw [← shared] at exceeded
      exact (reads.of_exceeded counted exceeded).2
    · exact reads.exceeded refusal

theorem Invariant.other {x : Except AbiError ReadResult} (h : Invariant data ratio events tree)
    (silent : s.readLength? = none) (accepted : ∀ e, x = .error e → ¬e.IsRefusal)
    (readers : List Reader)
    (placed : ∀ r ∈ readers, r.data <:+ data ∧ r.offset ≤ r.data.length) :
    Invariant data ratio (events ++ [⟨index, s, x⟩]) ⟨readers, tree.budget⟩ := by
  have same : delivered (events ++ [⟨index, s, x⟩]) = delivered events := by
    rw [delivered_append]
    cases x <;> simp [Event.delivered, silent]
  refine ⟨placed, h.counted, h.limit?_eq, ?_, ?_, ?_⟩
  · rw [same]
    exact h.paid
  · rw [same]
    exact h.within
  · intro refused
    rcases refused_append refused with before | ⟨e, failed, refusal⟩
    · exact h.refused before
    · exact absurd refusal (accepted e failed)

/-- An operation on any reader of the tree keeps the invariant. -/
theorem Invariant.step (h : Invariant data ratio events tree)
    (there : tree.reader? index = some r) (operation : s.IsOperation)
    (done : tree.step index r s = (outcome, next)) :
    Invariant data ratio (events ++ [⟨index, s, outcome⟩]) next := by
  cases reads : s.readLength? with
  | some length =>
    obtain ⟨outcome', after, step, delivers⟩ := step_of_read reads tree index r
    rw [step] at done
    cases done
    exact h.read there reads delivers
  | none =>
    rcases step_of_other operation reads done with
      ⟨rfl, e, unlike, rfl⟩ | ⟨place, rfl, ⟨x, rfl⟩, part, inside⟩
    · exact h.other reads (fun e' error => by cases error; exact unlike) _ h.placed
    · obtain ⟨suffix, inBounds⟩ := h.placed_of_reader? there
      apply h.other reads (fun e error => by cases error)
      intro other member
      rcases List.mem_append.1 member with old | new
      · exact h.placed other old
      · cases List.mem_singleton.1 new
        exact ⟨part.trans suffix, inside inBounds⟩

theorem Run.invariant {isLoose : Bool} {hook : Option Hook}
    (run : Run (ReaderTree.start data isLoose hook ratio) events tree) :
    Invariant data ratio events tree := by
  induction run with
  | start => exact invariant_start data isLoose hook ratio
  | step _ there operation done ih => exact ih.step there operation done

/-- What one operation does in a tree that operations with these events have led to. -/
structure StepLaw (events : List Event) (tree : ReaderTree) (index : Nat) (r : Reader) (s : Step)
    (outcome : Except AbiError ReadResult) (next : ReaderTree) : Prop where
  /-- The other readers stay as they are. -/
  others : ∀ other < tree.readers.length, other ≠ index →
    next.readers[other]? = tree.readers[other]?
  read_le : tree.budget.read ≤ next.budget.read
  /-- A read gives the bytes at the cursor, and the cursor moves by whole words, or by the length
  itself where a relaxed read of loose data meets its end within the last word. -/
  bytes : ∀ length relaxed result, s = .bytes length relaxed → outcome = .ok result →
    result = .bytes (r.rest.take length) ∧ length ≤ r.rest.length ∧
      (next.cursor? index = some (r.offset + Bytes.alignedLength length) ∨
        next.cursor? index = some (r.offset + length) ∧ relaxed = true ∧ r.isLoose = true ∧
          r.data.length < r.offset + Bytes.alignedLength length)
  /-- A failure to read bytes or a word leaves the cursor where it was. -/
  failed : ∀ e, outcome = .error e → (∀ typeName, s ≠ .count typeName) →
    next.cursor? index = some r.offset
  /-- Once the budget has refused a read, it refuses all of them. -/
  refused : Refused events → s.readLength?.isSome → ∃ e, outcome = .error e

theorem cursor?_set {after : Reader} {budget : Budget} (inside : index < tree.readers.length) :
    cursor? ⟨tree.readers.set index after, budget⟩ index = some after.offset := by
  rw [cursor?, List.getElem?_set_self inside, Option.map_some]

theorem law_bytes {length : Nat} {relaxed : Bool} {result : ReadResult}
    (inside : index < tree.readers.length)
    (done : tree.step index r (.bytes length relaxed) = (.ok result, next)) :
    result = .bytes (r.rest.take length) ∧ length ≤ r.rest.length ∧
      (next.cursor? index = some (r.offset + Bytes.alignedLength length) ∨
        next.cursor? index = some (r.offset + length) ∧ relaxed = true ∧ r.isLoose = true ∧
          r.data.length < r.offset + Bytes.alignedLength length) := by
  simp only [ReaderTree.step, ReaderTree.read, Reading.runFrom_map, Prod.mk.injEq] at done
  obtain ⟨given, rfl⟩ := done
  rcases Reading.runFrom_bytes_outcome r length relaxed with ⟨e, _, failed⟩ | ⟨taken, takes, read⟩
  · rw [failed] at given
    cases given
  · rw [read, Reader.pay] at given ⊢
    split at given
    · cases given
    · next covered =>
      cases given
      rw [if_neg covered, cursor?_set inside]
      refine ⟨rfl, Nat.le_trans takes.enough takes.length_le_rest, ?_⟩
      rcases takes.whole with whole | ⟨exact, loose⟩
      · exact Or.inl (by rw [Reader.consume, whole])
      · exact Or.inr ⟨by rw [Reader.consume, exact], loose⟩

/-- A read that fails moves the cursor only when it has read a word that is no count. -/
theorem law_failed {e : AbiError} (there : tree.reader? index = some r)
    (operation : s.IsOperation) (done : tree.step index r s = (.error e, next))
    (notCount : ∀ typeName, s ≠ .count typeName) : next.cursor? index = some r.offset := by
  obtain ⟨stored, stands, rfl⟩ := exists_of_reader? there
  obtain ⟨inside, _⟩ := List.getElem?_eq_some_iff.1 stands
  have kept {α : Type} (f : α → ReadResult) (action : Reading α)
      (step : tree.read index { stored with budget := tree.budget } (f <$> action) =
        (.error e, next))
      (still : ∀ {x after}, action.runFrom { stored with budget := tree.budget } =
        (.error x, after) → after.offset = stored.offset) :
      next.cursor? index = some stored.offset := by
    rcases run : action.runFrom { stored with budget := tree.budget } with ⟨outcome, after⟩
    simp only [ReaderTree.read, Reading.runFrom_map, run, Prod.mk.injEq] at step
    obtain ⟨failed, rfl⟩ := step
    rw [cursor?_set inside]
    cases outcome with
    | error x => rw [still run]
    | ok x => cases failed
  have unread (other : s.readLength? = none) : next.cursor? index = some stored.offset := by
    rcases step_of_other operation other done with ⟨rfl, _⟩ | ⟨place, _, ⟨x, given⟩, _⟩
    · rw [cursor?, stands, Option.map_some]
    · cases given
  cases s with
  | bytes length relaxed => exact kept _ (.bytes length relaxed) done Reader.offset_of_bytes_error
  | word => exact kept (fun w => .bytes (Word.toBytes w)) .word done Reader.offset_of_word_error
  | number => exact kept .word .word done Reader.offset_of_word_error
  | count typeName => exact absurd rfl (notCount typeName)
  | _ => exact unread rfl

theorem law_others (operation : s.IsOperation) (done : tree.step index r s = (outcome, next))
    {other : Nat} (inside : other < tree.readers.length) (ne : other ≠ index) :
    next.readers[other]? = tree.readers[other]? := by
  cases reads : s.readLength? with
  | some length =>
    obtain ⟨outcome', after, step, _⟩ := step_of_read reads tree index r
    rw [step] at done
    cases done
    exact List.getElem?_set_ne (Ne.symm ne)
  | none =>
    rcases step_of_other operation reads done with ⟨rfl, _⟩ | ⟨place, rfl, _⟩
    · rfl
    · exact List.getElem?_append_left inside

/-- An operation of a tree that a run has led to does what a reader says. -/
theorem Invariant.law (h : Invariant data ratio events tree)
    (there : tree.reader? index = some r) (operation : s.IsOperation)
    (done : tree.step index r s = (outcome, next)) :
    StepLaw events tree index r s outcome next := by
  have shared : r.budget = tree.budget := by
    obtain ⟨stored, _, rfl⟩ := exists_of_reader? there
    rfl
  have counted : r.budget.read ≤ maxCount := by
    rw [shared]
    exact h.counted
  have inside : index < tree.readers.length := by
    obtain ⟨stored, stands, _⟩ := exists_of_reader? there
    exact (List.getElem?_eq_some_iff.1 stands).1
  refine ⟨fun other => law_others operation done, ?_, ?_, ?_, ?_⟩
  · cases reads : s.readLength? with
    | some length =>
      obtain ⟨outcome', after, step, delivers⟩ := step_of_read reads tree index r
      rw [step] at done
      cases done
      exact shared ▸ (delivers.read_le counted).1
    | none =>
      rcases step_of_other operation reads done with ⟨rfl, _⟩ | ⟨place, rfl, _⟩
      · exact Nat.le_refl _
      · exact Nat.le_refl _
  · rintro length relaxed result rfl rfl
    exact law_bytes inside done
  · rintro e rfl notCount
    exact law_failed there operation done notCount
  · intro refused reads
    obtain ⟨length, delivers⟩ := Option.isSome_iff_exists.1 reads
    obtain ⟨outcome', after, step, effect⟩ := step_of_read delivers tree index r
    rw [step] at done
    cases done
    exact (effect.of_exceeded counted (shared ▸ h.refused refused)).1

/-- In every tree that operations on a reader of some data lead to, each reader stands within an
end of that data and shares the one budget, the bytes that reads have delivered stay within the
limit, and the next operation obeys the law of readers. -/
theorem Run.lawful {isLoose : Bool} {hook : Option Hook}
    (run : Run (ReaderTree.start data isLoose hook ratio) events tree) :
    (∀ index r, tree.reader? index = some r →
      r.data <:+ data ∧ r.offset ≤ r.data.length ∧ r.budget = tree.budget) ∧
    (0 < ratio → min (delivered events) maxCount ≤ saturatingMul data.length ratio) ∧
    ∀ index r s outcome next, tree.reader? index = some r → s.IsOperation →
      tree.step index r s = (outcome, next) → StepLaw events tree index r s outcome next := by
  have h := run.invariant
  refine ⟨?_, ?_, fun index r s outcome next => h.law⟩
  · intro index r there
    obtain ⟨part, inBounds⟩ := h.placed_of_reader? there
    obtain ⟨stored, _, rfl⟩ := exists_of_reader? there
    exact ⟨part, inBounds, rfl⟩
  · intro positive
    apply h.within
    rw [h.limit?_eq]
    exact if_neg (Nat.pos_iff_ne_zero.1 positive)

/-- A word that is read, read again by a second reader past what the budget covers, and asked for
once more. -/
theorem lawful_refused :
    ∃ events tree r outcome next,
      Run (ReaderTree.start (List.replicate 32 0) true none 1) events tree ∧ Refused events ∧
        tree.reader? 0 = some r ∧ tree.step 0 r (.bytes 0 true) = (outcome, next) ∧
        min (delivered events) maxCount ≤ saturatingMul 32 1 ∧ ∃ e, outcome = .error e := by
  have cloned : Run (ReaderTree.start (List.replicate 32 0) true none 1)
      ([] ++ [⟨0, .clone, _⟩]) _ :=
    Run.start.step rfl trivial rfl
  have read : Run _ (_ ++ [⟨0, .word, _⟩]) _ := cloned.step rfl rfl rfl
  have refused : Run _ (_ ++ [⟨1, .number, _⟩]) _ := read.step rfl rfl rfl
  obtain ⟨_, within, law⟩ := refused.lawful
  refine ⟨_, _, _, _, _, refused, ?last, rfl, rfl, within Nat.one_pos,
    (law 0 _ (.bytes 0 true) _ _ rfl rfl rfl).refused ?last rfl⟩
  exact ⟨_, List.mem_append_right _ (List.mem_singleton_self _), _, rfl, _, _, _, rfl⟩

end ReaderTree

end AbiCodec
