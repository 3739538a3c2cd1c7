import AbiCodec.Codec
import AbiCodec.Proofs.LayoutTree
import AbiCodec.Proofs.ReadOutcomes

/-!
# Readers in step

Two readers go in step when the second stands where the first stands, in data
that may go on further, and bears as much: it reads loosely where the first
does, or the bytes that follow hold the padding that the first can do without.
What the first decodes the second decodes as well. The values are the same under
the same hook, and no hook has a say in whether there are any.
-/

namespace AbiCodec

/-- When the reads are `matched`, as many bytes have been read of both. The second budget has no
limit, or the reads are matched and its limit is no lower. -/
structure Budget.Outlasts (matched : Prop) (budget other : Budget) : Prop where
  read_eq : matched → other.read = budget.read
  covers : other.ratio = 0 ∨ matched ∧ ∀ most, other.limit? = some most →
    ∃ least, budget.limit? = some least ∧ least ≤ most

/-- The two readers have the hooks `f` and `g`, and the second can read on as long as the first. -/
structure Reader.Beside (matched : Prop) (f g : Option Hook) (r s : Reader) : Prop where
  hook_left : r.hook = f
  hook_right : s.hook = g
  outlasts : Budget.Outlasts matched r.budget s.budget

/-- `s` goes in step with `r`. The reads are matched when no bytes follow or when `r` is strict. -/
structure Reader.InStep (matched : Prop) (more : Bytes) (f g : Option Hook) (r s : Reader) : Prop
    extends Reader.Beside matched f g r s where
  data_eq : s.data = r.data ++ more
  length_lt : s.data.length < 2 ^ 63
  offset_eq : s.offset = r.offset
  offset_le : r.offset ≤ r.data.length
  tolerant : r.isLoose = true → s.isLoose = true ∨ wordSize ≤ more.length + 1
  whole : matched → more = [] ∨ r.isLoose = false

theorem Budget.Outlasts.spend {matched : Prop} {budget other : Budget}
    (h : Budget.Outlasts matched budget other) {m n : Nat} (same : matched → n = m)
    (covered : (budget.spend m).isExceeded = false) :
    (other.spend n).isExceeded = false ∧
      Budget.Outlasts matched (budget.spend m) (other.spend n) := by
  have spent : matched → (other.spend n).read = (budget.spend m).read := by
    intro equal
    rw [Budget.spend, Budget.spend, h.read_eq equal, same equal]
  rcases h.covers with unlimited | ⟨equal, higher⟩
  · refine ⟨?_, spent, Or.inl unlimited⟩
    have limitless : (other.spend n).limit? = none := if_pos unlimited
    rw [isExceeded_eq_false_iff, limitless]
    intro most limit
    cases limit
  · refine ⟨?_, spent, Or.inr ⟨equal, higher⟩⟩
    rw [isExceeded_eq_false_iff] at covered ⊢
    intro most limit
    obtain ⟨least, lower, le⟩ := higher most limit
    rw [spent equal]
    exact Nat.le_trans (covered least lower) le

namespace Reader

variable {matched : Prop} {more : Bytes} {f g : Option Hook} {r s : Reader}

theorem InStep.left (h : InStep matched more f g r s) : r.InBounds := by
  have longer := h.length_lt
  rw [h.data_eq, List.length_append] at longer
  exact ⟨h.offset_le, by omega⟩

theorem InStep.length_le (h : InStep matched more f g r s) : r.data.length ≤ s.data.length := by
  rw [h.data_eq, List.length_append]
  exact Nat.le_add_right _ _

theorem InStep.right (h : InStep matched more f g r s) : s.InBounds := by
  refine ⟨?_, h.length_lt⟩
  rw [h.offset_eq]
  exact Nat.le_trans h.offset_le h.length_le

theorem InStep.rest_eq (h : InStep matched more f g r s) : s.rest = r.rest ++ more := by
  rw [rest, rest, h.data_eq, h.offset_eq, List.drop_append_of_le_length h.offset_le]

theorem InStep.withBudget (h : InStep matched more f g r s) {budget other : Budget}
    (outlasts : Budget.Outlasts matched budget other) :
    InStep matched more f g { r with budget } { s with budget := other } :=
  { h with outlasts }

/-- Readers in step find the same place. -/
theorem InStep.sub (h : InStep matched more f g r s) {offset : Nat} {place : Reader}
    (made : r.sub offset = .ok place) :
    ∃ other, s.sub offset = .ok other ∧ InStep matched more f g place other := by
  have longer := h.length_le
  rw [sub_eq h.left] at made
  split at made
  · next inside =>
    cases made
    refine ⟨s.viewAt (r.offset + offset), ?_, ?_⟩
    · rw [sub_eq h.right, h.offset_eq, if_pos (Nat.le_trans inside longer)]
    · have beyond : (s.viewAt (r.offset + offset)).data =
          (r.viewAt (r.offset + offset)).data ++ more := by
        rw [viewAt, viewAt, h.data_eq, List.drop_append_of_le_length inside]
      exact ⟨⟨h.hook_left, h.hook_right, h.outlasts⟩, beyond, (h.right.viewAt _).length_lt, rfl,
        Nat.zero_le _, h.tolerant, h.whole⟩
  · cases made

/-- Where the first reader takes some bytes, the second takes as many, or as many whole words
where the first had to leave out the padding. -/
theorem InStep.takes (h : InStep matched more f g r s) {length taken : Nat} {relaxed : Bool}
    (takes : r.Takes length relaxed taken) :
    ∃ other, s.takenLength length relaxed = .ok other ∧
      s.offset + other ≤ s.data.length ∧ ((matched ∨ relaxed = false) → other = taken) := by
  have inside := takes.inside
  have enough := takes.enough
  have longer := h.length_le
  have total := congrArg List.length h.data_eq
  rw [List.length_append] at total
  rw [takenLength_eq h.right, h.offset_eq]
  rcases takes.whole with whole | ⟨exact, relaxes, loose, past⟩
  · rw [if_pos (by omega)]
    exact ⟨_, rfl, by omega, fun _ => whole.symm⟩
  · -- Only a relaxed read of loose data leaves out the padding, and matched reads do so where no
    -- bytes follow.
    have none : matched ∨ relaxed = false → more = [] := by
      rintro (equal | strict)
      · exact (h.whole equal).resolve_right (by simp [loose])
      · rw [relaxes] at strict
        cases strict
    split
    · next room =>
      refine ⟨_, rfl, room, fun equal => ?_⟩
      rw [none equal, List.length_nil] at total
      omega
    · next tight =>
      have tolerates : s.isLoose = true := by
        rcases h.tolerant loose with tolerates | padded
        · exact tolerates
        · simp only [Bytes.alignedLength, wordSize] at past tight padded
          omega
      rw [if_pos (by simp [tolerates, relaxes]; omega)]
      exact ⟨_, rfl, by omega, fun _ => exact.symm⟩

end Reader

namespace Reading

variable {α β : Type} {matched : Prop} {more : Bytes} {f g : Option Hook}

/-- Wherever the first action gives a value, the second gives one to a reader in step. If it
`stays`, the readers are in step afterwards; they are beside each other anyway. -/
def Mirrors (matched : Prop) (more : Bytes) (f g : Option Hook) (stays : Bool) (post : α → α → Prop)
    (action other : Reading α) : Prop :=
  ∀ ⦃r s x after⦄, Reader.InStep matched more f g r s → action.runFrom r = (.ok x, after) →
    ∃ y end', other.runFrom s = (.ok y, end') ∧ post x y ∧ Reader.Beside matched f g after end' ∧
      (stays = true → Reader.InStep matched more f g after end')

/-- The values are the same under the same hook. -/
def Agree (f g : Option Hook) (x y : α) : Prop := g = f → y = x

theorem Agree.of_eq {x y : α} (same : x = y) : Agree f g x y := fun _ => same.symm

theorem Mirrors.mono {stays : Bool} {first post : α → α → Prop} {action other : Reading α}
    (mirrors : Mirrors matched more f g stays first action other)
    (weaken : ∀ x y, first x y → post x y) :
    Mirrors matched more f g stays post action other := by
  intro r s x after inStep run
  obtain ⟨y, end', same, related, others⟩ := mirrors inStep run
  exact ⟨y, end', same, weaken x y related, others⟩

theorem Mirrors.unless {stays : Bool} {post : α → α → Prop} {action other : Reading α}
    (mirrors : Mirrors matched more f g true post action other) :
    Mirrors matched more f g stays post action other := by
  intro r s x after inStep run
  obtain ⟨y, end', same, related, beside, still⟩ := mirrors inStep run
  exact ⟨y, end', same, related, beside, fun _ => still rfl⟩

theorem Mirrors.inspect {post : α → α → Prop} {a b : Reader → Except AbiError α}
    (gives : ∀ {r s x}, Reader.InStep matched more f g r s → a r = .ok x →
      ∃ y, b s = .ok y ∧ post x y) :
    Mirrors matched more f g true post (inspect a) (inspect b) := by
  intro r s x after inStep run
  obtain ⟨given, rfl⟩ := Prod.mk.inj run
  obtain ⟨y, same, related⟩ := gives inStep given
  exact ⟨y, s, by rw [runFrom_inspect, same], related, inStep.toBeside, fun _ => inStep⟩

theorem Mirrors.ofExcept {post : α → α → Prop} {a b : Except AbiError α}
    (gives : ∀ {x}, a = .ok x → ∃ y, b = .ok y ∧ post x y) :
    Mirrors matched more f g true post (ofExcept a) (ofExcept b) :=
  Mirrors.inspect (a := fun _ => a) (b := fun _ => b) fun _ given => gives given

theorem Mirrors.pure {post : α → α → Prop} {x y : α} (h : post x y) :
    Mirrors matched more f g true post (pure x) (pure y) := by
  intro r s x' after inStep run
  cases run
  exact ⟨y, s, rfl, h, inStep.toBeside, fun _ => inStep⟩

/-- What never gives a value has nothing to be mirrored. -/
theorem Mirrors.of_error {stays : Bool} {post : α → α → Prop} {e : Reader → AbiError}
    {other : Reading α} :
    Mirrors matched more f g stays post (Reading.inspect fun r => .error (e r)) other := by
  intro r s x after _ run
  cases run

theorem Mirrors.bind {stays : Bool} {first : α → α → Prop} {post : β → β → Prop}
    {action other : Reading α} {next next' : α → Reading β}
    (mirrors : Mirrors matched more f g true first action other)
    (resume : ∀ x y, first x y → Mirrors matched more f g stays post (next x) (next' y)) :
    Mirrors matched more f g stays post (action >>= next) (other >>= next') := by
  intro r s z after inStep run
  obtain ⟨x, mid, before, run⟩ := exists_of_runFrom_bind run
  obtain ⟨y, mid', same, related, _, still⟩ := mirrors inStep before
  rw [runFrom_bind_of_ok same]
  exact resume x y related (still rfl) run

/-- The check sees the readers before, the second with no less data than the first. -/
theorem Mirrors.checked {stays : Bool} {first : α → α → Prop} {post : β → β → Prop}
    {action other : Reading α} {check check' : Reader → α → Except AbiError β}
    (mirrors : Mirrors matched more f g stays first action other)
    (passes : ∀ {r s x y z}, r.data.length ≤ s.data.length → first x y → check r x = .ok z →
      ∃ w, check' s y = .ok w ∧ post z w) :
    Mirrors matched more f g stays post (checked action check) (checked other check') := by
  intro r s z after inStep run
  obtain ⟨x, before, passed⟩ := exists_of_runFrom_checked run
  obtain ⟨y, end', same, related, others⟩ := mirrors inStep before
  obtain ⟨w, passedToo, relatedToo⟩ := passes inStep.length_le related passed
  exact ⟨w, end', by rw [runFrom_checked_of_ok same, passedToo], relatedToo, others⟩

/-- The last step, which does not need the cursors to be in step. -/
theorem Mirrors.coerce {stays : Bool} {action other : Reading α} {w : α → Value}
    (mirrors : Mirrors matched more f g stays (Agree f g) action other) (name : String) :
    Mirrors matched more f g stays (Agree f g) (action >>= fun x => coerce name (w x))
      (other >>= fun y => coerce name (w y)) := by
  intro r s v after inStep run
  obtain ⟨x, mid, before, run⟩ := exists_of_runFrom_bind run
  obtain ⟨y, mid', same, agree, beside, still⟩ := mirrors inStep before
  cases run
  refine ⟨mid'.coerce name (w y), mid', ?_, ?_, beside, still⟩
  · rw [runFrom_bind_of_ok same, runFrom_coerce]
  · intro sameHook
    rw [Reader.coerce, Reader.coerce, beside.hook_left, beside.hook_right, sameHook,
      agree sameHook]

/-- A read of whole words keeps the readers in step. -/
theorem mirrors_bytes (length : Nat) (relaxed : Bool) :
    Mirrors matched more f g (!relaxed) (· = ·) (bytes length relaxed) (bytes length relaxed) := by
  intro r s data after inStep run
  obtain ⟨taken, takes, covered, rfl, rfl⟩ := exists_of_runFrom_bytes run
  obtain ⟨other, size, inside, same⟩ := inStep.takes takes
  obtain ⟨coversToo, outlasts⟩ := inStep.outlasts.spend (m := taken) (n := other)
    (fun equal => same (Or.inl equal)) covered
  have front : s.rest.take length = r.rest.take length := by
    rw [inStep.rest_eq]
    exact List.take_append_of_le_length (Nat.le_trans takes.enough takes.length_le_rest)
  have beside : Reader.Beside matched f g (r.consume taken) (s.consume other) :=
    ⟨inStep.hook_left, inStep.hook_right, outlasts⟩
  refine ⟨_, s.consume other, ?_, front.symm, beside, ?_⟩
  · rw [runFrom_bytes inStep.right, size]
    exact if_neg (Bool.eq_false_iff.1 coversToo)
  · intro whole
    cases same (Or.inr (by simpa using whole))
    refine { beside with
      data_eq := inStep.data_eq
      length_lt := inStep.length_lt
      offset_eq := ?_
      offset_le := takes.inside
      tolerant := inStep.tolerant
      whole := inStep.whole }
    rw [Reader.consume, Reader.consume, inStep.offset_eq]

theorem mirrors_word : Mirrors matched more f g true (· = ·) word word := by
  unfold word
  apply (mirrors_bytes wordSize false).bind
  rintro data _ rfl
  split
  · exact Mirrors.pure rfl
  · exact Mirrors.of_error

theorem mirrors_count (typeName : String) :
    Mirrors matched more f g true (· = ·) (count typeName) (count typeName) := by
  rw [count_eq_checked]
  apply mirrors_word.checked
  rintro r s w _ n _ rfl passed
  split at passed
  · next counted => exact ⟨n, by rw [if_pos counted, passed], rfl⟩
  · cases passed

/-- Reading elsewhere leaves the cursors in step, whatever is read there. -/
theorem Mirrors.elsewhere {stays : Bool} {post : α → α → Prop} {action other : Reading α}
    {place place' : Reader} (placed : Reader.InStep matched more f g place place')
    (mirrors : Mirrors matched more f g stays post action other) :
    Mirrors matched more f g true post (elsewhere place action) (elsewhere place' other) := by
  intro r s x after inStep run
  rw [runFrom_elsewhere] at run
  obtain ⟨given, rfl⟩ := Prod.mk.inj run
  obtain ⟨y, end', same, related, beside, _⟩ :=
    mirrors (placed.withBudget inStep.outlasts) (Prod.ext given rfl)
  have still := inStep.withBudget beside.outlasts
  refine ⟨y, { s with budget := end'.budget }, ?_, related, still.toBeside, fun _ => still⟩
  rw [runFrom_elsewhere, same]

end Reading

open Reading

variable {matched : Prop} {more : Bytes} {f g : Option Hook}

namespace Part

variable {base base' : Reader}

theorem mirrors_readIn (placed : Reader.InStep matched more f g base base') {part : Part}
    (mirrors : Mirrors matched more f g (!part.isDynamic) (Agree f g) part.read part.read) :
    Mirrors matched more f g true (Agree f g) (part.readIn base) (part.readIn base') := by
  unfold readIn
  split
  · apply (mirrors_count part.kindName).bind
    rintro offset _ rfl
    have there : Mirrors matched more f g true (Reader.InStep matched more f g)
        (Reading.ofExcept (base.sub offset)) (Reading.ofExcept (base'.sub offset)) :=
      Mirrors.ofExcept placed.sub
    apply there.bind
    intro place place' inStep
    exact Mirrors.elsewhere inStep mirrors
  · next static =>
    rw [Bool.eq_false_iff.2 static] at mirrors
    exact mirrors

theorem mirrors_readAllIn (placed : Reader.InStep matched more f g base base') (parts : List Part)
    (mirrors : ∀ part ∈ parts,
      Mirrors matched more f g (!part.isDynamic) (Agree f g) part.read part.read) :
    Mirrors matched more f g true (fun vs ws => vs.length = ws.length ∧ Agree f g vs ws)
      (readAllIn base parts) (readAllIn base' parts) := by
  induction parts with
  | nil => exact Mirrors.pure ⟨rfl, fun _ => rfl⟩
  | cons part parts ih =>
    rcases List.forall_mem_cons.1 mirrors with ⟨own, others⟩
    apply (mirrors_readIn placed own).bind
    intro v w first
    apply (ih others).bind
    rintro vs ws ⟨sized, rest⟩
    refine Mirrors.pure ⟨by rw [List.length_cons, sized, List.length_cons], ?_⟩
    intro sameHook
    rw [first sameHook, rest sameHook]

end Part

theorem mirrors_readBlock (parts : List Part)
    (mirrors : ∀ part ∈ parts,
      Mirrors matched more f g (!part.isDynamic) (Agree f g) part.read part.read) :
    Mirrors matched more f g true (fun vs ws => vs.length = ws.length ∧ Agree f g vs ws)
      (readBlock parts) (readBlock parts) := by
  have here : Mirrors matched more f g true (Reader.InStep matched more f g)
      (inspect fun r => r.sub 0) (inspect fun s => s.sub 0) :=
    Mirrors.inspect fun inStep made => inStep.sub made
  apply here.bind
  intro base base' placed
  exact Part.mirrors_readAllIn placed parts mirrors

namespace Layout

theorem mirrors_readPayload (typeName : String) :
    Mirrors matched more f g false (· = ·) (readPayload typeName) (readPayload typeName) := by
  apply (mirrors_count typeName).bind
  rintro length _ rfl
  exact mirrors_bytes length true

theorem mirrors_readAddress :
    Mirrors matched more f g true (Agree f g) readAddress readAddress := by
  rw [readAddress_eq_checked]
  apply mirrors_word.checked
  rintro r s w _ v _ rfl passed
  split at passed
  · next low => exact ⟨v, by rw [if_pos low, passed], Agree.of_eq rfl⟩
  · cases passed

theorem mirrors_readText : Mirrors matched more f g false (Agree f g) readText readText := by
  rw [readText_eq_checked]
  apply (mirrors_readPayload "string").checked
  rintro r s data _ v _ rfl passed
  cases decoded : Utf8.decode data with
  | ok text =>
    rw [decoded] at passed
    exact ⟨v, passed, Agree.of_eq rfl⟩
  | error fault =>
    rw [decoded] at passed
    cases passed

/-- The guard of a count asks no more of data that go on further. -/
theorem mirrors_readCount (l element : Layout) (length : ArrayLength) :
    Mirrors matched more f g true (· = ·) (l.readCount element length)
      (l.readCount element length) := by
  cases length with
  | fixed n =>
    have longer : Mirrors matched more f g true (· ≤ ·) (Reading.inspect Reader.remaining)
        (Reading.inspect Reader.remaining) := by
      apply Mirrors.inspect
      intro r s n inStep given
      have le := inStep.length_le
      rw [Reader.remaining_eq inStep.left] at given
      cases given
      refine ⟨_, Reader.remaining_eq inStep.right, ?_⟩
      rw [inStep.offset_eq]
      omega
    apply longer.bind
    intro left left' le
    by_cases short : left < saturatingMul element.headSize n
    · rw [if_pos short]
      exact Mirrors.of_error
    · rw [if_neg short, if_neg (by omega)]
      exact Mirrors.pure rfl
  | dynamic =>
    rw [readCount, dynamicCount_eq_checked]
    apply (mirrors_count "array").checked
    rintro r s n _ x longer rfl passed
    split at passed
    · cases passed
    · exact ⟨x, by rw [if_neg (by omega), passed], rfl⟩

theorem mirrors_decodeAll (components : List Layout)
    (mirrors : ∀ c ∈ components,
      Mirrors matched more f g (!c.isDynamic) (Agree f g) c.decode c.decode) :
    Mirrors matched more f g true (Agree f g) (decodeAll components) (decodeAll components) := by
  unfold decodeAll
  rw [parts_eq_map]
  have children : ∀ child ∈ components.map part,
      Mirrors matched more f g (!child.isDynamic) (Agree f g) child.read child.read := by
    intro child member
    obtain ⟨c, inList, rfl⟩ := List.mem_map.1 member
    exact mirrors c inList
  apply (mirrors_readBlock _ children).bind
  rintro vs ws ⟨sized, agree⟩
  rw [recordOf, recordOf, Record.ofParts?, Record.ofParts?, ← sized]
  by_cases named : (components.map name).length = vs.length
  · rw [if_pos named, if_pos named]
    exact Mirrors.pure fun sameHook => by rw [agree sameHook]
  · rw [if_neg named]
    exact Mirrors.of_error

/-- Whatever a layout decodes it decodes from a reader in step as well. -/
theorem mirrors_decode (l : Layout) :
    Mirrors matched more f g (!l.isDynamic) (Agree f g) l.decode l.decode := by
  induction l with
  | address name => exact mirrors_readAddress.coerce (w := id) _
  | bool name => exact (mirrors_word.mono fun _ _ => Agree.of_eq).coerce _
  | number name width isSigned => exact (mirrors_word.mono fun _ _ => Agree.of_eq).coerce _
  | fixedBytes name width => exact ((mirrors_bytes _ false).mono fun _ _ => Agree.of_eq).coerce _
  | bytes name => exact ((mirrors_readPayload _).mono fun _ _ => Agree.of_eq).coerce _
  | string name => exact mirrors_readText.coerce (w := id) _
  | null name =>
    exact ((mirrors_bytes 0 false).mono fun _ _ => Agree.of_eq).coerce (w := fun _ => .null) _
  | array name element length ih =>
    rw [decode_array]
    apply Mirrors.unless
    apply (mirrors_readCount _ _ _).bind
    rintro count _ rfl
    have children : ∀ child ∈ List.replicate count element.part,
        Mirrors matched more f g (!child.isDynamic) (Agree f g) child.read child.read :=
      List.forall_mem_replicate.2 (Or.inr ih)
    exact ((mirrors_readBlock _ children).mono fun _ _ => And.right).coerce _
  | tuple name components ih =>
    rw [decode_tuple]
    exact (mirrors_decodeAll components ih).coerce _ |>.unless

end Layout

/-- The limit of longer data is no lower. -/
theorem Budget.exists_limit?_le (length longer ratio : Nat) (le : length ≤ longer) (most : Nat)
    (limit : (fresh longer ratio).limit? = some most) :
    ∃ least, (fresh length ratio).limit? = some least ∧ least ≤ most := by
  unfold limit? at limit ⊢
  split at limit
  · cases limit
  · next limited =>
    cases limit
    refine ⟨saturatingMul length ratio, if_neg limited, ?_⟩
    exact min_le_min_right maxCount (Nat.mul_le_mul_right ratio le)

/-- What one decoding gives, another gives from data that go on further, under a hook of its own.
It has no limit on what it reads, or the same ratio when the reads are matched. -/
theorem decodeFrom_matched {layouts : List Layout} {settings : Settings} (settings' : Settings)
    (f g : Option Hook) {data more : Bytes} (small : (data ++ more).length < 2 ^ 63)
    {isLoose : Bool} (isLoose' : Bool)
    (tolerant : isLoose = true → isLoose' = true ∨ wordSize ≤ more.length + 1)
    {matched : Prop} (whole : matched → more = [] ∨ isLoose = false)
    (covers : settings'.maxInflation = 0 ∨
      matched ∧ settings'.maxInflation = settings.maxInflation)
    {record : Record} {after : Reader}
    (decoded : decodeFrom layouts settings f data isLoose = (.ok record, after)) :
    ∃ other end', decodeFrom layouts settings' g (data ++ more) isLoose' = (.ok other, end') ∧
      Reading.Agree f g record other ∧ Budget.Outlasts matched after.budget end'.budget := by
  have start : Reader.InStep matched more f g (.start data isLoose f settings.maxInflation)
      (.start (data ++ more) isLoose' g settings'.maxInflation) := by
    refine ⟨⟨rfl, rfl, fun _ => rfl, ?_⟩, rfl, small, rfl, Nat.zero_le _, tolerant, whole⟩
    rcases covers with unlimited | ⟨equal, same⟩
    · exact Or.inl unlimited
    · rw [same]
      exact Or.inr ⟨equal, Budget.exists_limit?_le _ _ _ (List.prefix_append _ _).length_le⟩
  have mirrors : Reading.Mirrors matched more f g true _ _ _ :=
    Layout.mirrors_decodeAll layouts fun c _ => Layout.mirrors_decode c
  obtain ⟨other, end', same, agree, beside, _⟩ := mirrors start decoded
  exact ⟨other, end', same, agree, beside.outlasts⟩

/-- What one decoding gives, another gives from data that go on further, under a hook of its own and
with no limit on what it reads. When no bytes follow the limit can be the same. -/
theorem decodeFrom_in_step {layouts : List Layout} {settings : Settings} (settings' : Settings)
    (f g : Option Hook) {data more : Bytes} (small : (data ++ more).length < 2 ^ 63)
    {isLoose : Bool} (isLoose' : Bool)
    (tolerant : isLoose = true → isLoose' = true ∨ wordSize ≤ more.length + 1)
    (covers : settings'.maxInflation = 0 ∨
      more = [] ∧ settings'.maxInflation = settings.maxInflation)
    {record : Record} {after : Reader}
    (decoded : decodeFrom layouts settings f data isLoose = (.ok record, after)) :
    ∃ other end', decodeFrom layouts settings' g (data ++ more) isLoose' = (.ok other, end') ∧
      Reading.Agree f g record other ∧ Budget.Outlasts (more = []) after.budget end'.budget :=
  decodeFrom_matched settings' f g small isLoose' tolerant Or.inl covers decoded

/-- Loose decoding relaxes nothing but the last padding. It gives every record that strict decoding
gives and reads as much for it, and what it gives without a limit strict decoding gives from the
same data and any 31 bytes more. -/
theorem decode_strict_loose {settings : Settings} {types : List TypeSource} {layouts : List Layout}
    (accepted : layoutsOf settings types = .ok layouts) (hook : Option Hook) {data : Bytes}
    (small : data.length < 2 ^ 63) (record : Record) :
    (decode settings hook types data false = .ok record →
      decode settings hook types data true = .ok record ∧
        (decodeFrom layouts settings hook data true).2.budget.read =
          (decodeFrom layouts settings hook data false).2.budget.read) ∧
    (settings.maxInflation = 0 → decode settings hook types data true = .ok record →
      ∀ more : Bytes, more.length = 31 → (data ++ more).length < 2 ^ 63 →
        decode settings hook types (data ++ more) false = .ok record) := by
  simp only [decode_eq_decodeFrom accepted]
  constructor
  · intro strict
    have whole : data ++ [] = data := List.append_nil data
    obtain ⟨other, end', loose, agree, outlasts⟩ := decodeFrom_in_step settings hook hook
      (by rwa [whole]) true (fun _ => Or.inl rfl) (Or.inr ⟨rfl, rfl⟩) (Prod.ext strict rfl)
    rw [whole] at loose
    rw [loose]
    exact ⟨congrArg Except.ok (agree rfl), outlasts.read_eq rfl⟩
  · intro unlimited loose more enough still
    obtain ⟨other, end', strict, agree, _⟩ := decodeFrom_in_step settings hook hook still false
      (fun _ => Or.inr (by rw [enough]; decide)) (Or.inl unlimited) (Prod.ext loose rfl)
    rw [strict]
    exact congrArg Except.ok (agree rfl)

/-- A byte string without its padding, and then with other bytes in the place of it. -/
theorem decode_strict_loose_unpadded :
    ∃ record,
      decode { maxInflation := 0 } none [.tree (.elementary {} "bytes")]
        ([32#256, 2#256].flatMap Word.toBytes ++ [1, 2]) true = .ok record ∧
      decode { maxInflation := 0 } none [.tree (.elementary {} "bytes")]
        ([32#256, 2#256].flatMap Word.toBytes ++ [1, 2] ++ List.replicate 31 7) false = .ok record ∧
      decode { maxInflation := 0 } none [.tree (.elementary {} "bytes")]
        ([32#256, 2#256].flatMap Word.toBytes ++ [1, 2] ++ List.replicate 31 7) true =
          .ok record := by
  have accepted : layoutsOf { maxInflation := 0 } [.tree (.elementary {} "bytes")] =
      .ok [.bytes none] := rfl
  have given : (decode { maxInflation := 0 } none [.tree (.elementary {} "bytes")]
      ([32#256, 2#256].flatMap Word.toBytes ++ [1, 2]) true).isOk := by decide +kernel
  obtain ⟨record, loose⟩ := exists_of_isOk given
  have strict := (decode_strict_loose accepted none (by decide) record).2 rfl loose
    (List.replicate 31 7) rfl (by decide)
  have again := (decode_strict_loose accepted none (by decide) record).1 strict
  exact ⟨record, loose, strict, again.1⟩

/-- What strict decoding gives it gives from data that go on further as well, and reads as much for
it: no bytes behind the data are looked at, and the limit on what is read only rises with them. -/
theorem decode_strict_append {settings : Settings} {types : List TypeSource}
    {layouts : List Layout} (accepted : layoutsOf settings types = .ok layouts)
    (hook : Option Hook) {data more : Bytes} (small : (data ++ more).length < 2 ^ 63)
    {record : Record} (decoded : decode settings hook types data false = .ok record) :
    decode settings hook types (data ++ more) false = .ok record ∧
      (decodeFrom layouts settings hook (data ++ more) false).2.budget.read =
        (decodeFrom layouts settings hook data false).2.budget.read := by
  rw [decode_eq_decodeFrom accepted] at decoded ⊢
  have strict : True → more = [] ∨ false = false := fun _ => Or.inr rfl
  obtain ⟨other, end', longer, agree, outlasts⟩ := decodeFrom_matched settings hook hook small
    false (fun loose => by cases loose) strict (Or.inr ⟨trivial, rfl⟩) (Prod.ext decoded rfl)
  rw [longer]
  exact ⟨congrArg Except.ok (agree rfl), outlasts.read_eq trivial⟩

/-- Two elements of an array that point to the same bytes, with half of a word and more behind. -/
theorem decode_strict_append_aliased :
    ∃ record,
      decode { maxInflation := 2 } none [.tree (.array {} (.elementary {} "bytes") .dynamic)]
        ([32#256, 2#256, 64#256, 64#256, 0#256].flatMap Word.toBytes) false = .ok record ∧
      decode { maxInflation := 2 } none [.tree (.array {} (.elementary {} "bytes") .dynamic)]
        ([32#256, 2#256, 64#256, 64#256, 0#256].flatMap Word.toBytes ++ List.replicate 50 255)
        false = .ok record := by
  have accepted : layoutsOf { maxInflation := 2 }
      [.tree (.array {} (.elementary {} "bytes") .dynamic)] =
      .ok [.array none (.bytes none) .dynamic] := rfl
  have given : (decode { maxInflation := 2 } none
      [.tree (.array {} (.elementary {} "bytes") .dynamic)]
      ([32#256, 2#256, 64#256, 64#256, 0#256].flatMap Word.toBytes) false).isOk := by
    decide +kernel
  obtain ⟨record, decoded⟩ := exists_of_isOk given
  exact ⟨record, decoded, (decode_strict_append accepted none (by decide +kernel) decoded).1⟩

end AbiCodec
