import AbiCodec.Proofs.Renaming

/-!
# Reading in parallel

Two readers that differ in their hooks only read the same bytes, stop at the same
place and meet the same error, also under other names. What they give is related
as the hooks say, from the leaves up.
-/

namespace AbiCodec

/-- Both give values, and these are related, or both give the same error. -/
inductive Alike {α β : Type} (post : α → β → Prop) :
    Except AbiError α → Except AbiError β → Prop where
  | ok {x : α} {y : β} : post x y → Alike post (.ok x) (.ok y)
  | error (e : AbiError) : Alike post (.error e) (.error e)

theorem Alike.refl {α : Type} (outcome : Except AbiError α) :
    Alike (· = ·) outcome outcome := by
  cases outcome with
  | ok x => exact .ok rfl
  | error e => exact .error e

/-- Outcomes that are like a third one are alike. -/
theorem Alike.join {α β γ : Type} {first : α → γ → Prop} {second : β → γ → Prop}
    {post : α → β → Prop} {a : Except AbiError α} {b : Except AbiError β} {c : Except AbiError γ}
    (left : Alike first a c) (right : Alike second b c)
    (both : ∀ x y z, first x z → second y z → post x y) : Alike post a b := by
  cases left with
  | error e =>
    cases right
    exact .error e
  | ok own =>
    cases right with
    | ok other => exact .ok (both _ _ _ own other)

/-- The value after the hook, when there is one. -/
def Hook.applied (hook : Option Hook) (kind : String) (v : Value) : Value :=
  match hook with
  | some f => f kind v
  | none => v

def Reader.withHook (r : Reader) (hook : Option Hook) : Reader := { r with hook }

namespace Reader

theorem data_withHook (r : Reader) (hook : Option Hook) : (r.withHook hook).data = r.data := rfl

theorem offset_withHook (r : Reader) (hook : Option Hook) :
    (r.withHook hook).offset = r.offset := rfl

theorem viewFrom_withHook (r : Reader) (hook : Option Hook) (start : Nat) :
    (r.withHook hook).viewFrom start = (r.viewFrom start).map fun place => place.withHook hook := by
  unfold viewFrom
  rw [data_withHook]
  cases Bytes.slice? r.data start r.data.length <;> rfl

theorem sub_withHook (r : Reader) (hook : Option Hook) (offset : Nat) :
    (r.withHook hook).sub offset = (r.sub offset).map fun place => place.withHook hook := by
  unfold sub
  rw [data_withHook, offset_withHook]
  cases count? (r.offset + offset) with
  | none => rfl
  | some start =>
    simp only [viewFrom_withHook]
    split <;> rfl

end Reader

namespace Reading

variable {α β γ δ : Type} {f g : Option Hook}

/-- From readers that differ in the hooks `f` and `g` only, the two actions have outcomes that are
alike, and leave readers that differ in the hooks only. -/
def Parallel (f g : Option Hook) (post : α → β → Prop) (action : Reading α) (other : Reading β) :
    Prop :=
  ∀ r : Reader, ∃ x y after, action.runFrom (r.withHook f) = (x, Reader.withHook after f) ∧
    other.runFrom (r.withHook g) = (y, Reader.withHook after g) ∧ Alike post x y

theorem Parallel.inspect {post : α → β → Prop} {a : Reader → Except AbiError α}
    {b : Reader → Except AbiError β}
    (alike : ∀ r : Reader, Alike post (a (r.withHook f)) (b (r.withHook g))) :
    Parallel f g post (inspect a) (inspect b) :=
  fun r => ⟨_, _, r, rfl, rfl, alike r⟩

theorem Parallel.pure {post : α → β → Prop} {x : α} {y : β} (h : post x y) :
    Parallel f g post (pure x) (pure y) :=
  fun r => ⟨_, _, r, rfl, rfl, .ok h⟩

theorem parallel_fail {post : α → β → Prop} (e : AbiError) :
    Parallel f g post (fail e) (fail e) :=
  fun r => ⟨_, _, r, rfl, rfl, .error e⟩

theorem Parallel.bind {first : α → β → Prop} {post : γ → δ → Prop} {action : Reading α}
    {other : Reading β} {next : α → Reading γ} {next' : β → Reading δ}
    (parallel : Parallel f g first action other)
    (resume : ∀ x y, first x y → Parallel f g post (next x) (next' y)) :
    Parallel f g post (action >>= next) (other >>= next') := by
  intro r
  obtain ⟨x, y, mid, left, right, alike⟩ := parallel r
  cases alike with
  | ok related =>
    rw [runFrom_bind_of_ok left, runFrom_bind_of_ok right]
    exact resume _ _ related mid
  | error e =>
    rw [runFrom_bind_of_error left, runFrom_bind_of_error right]
    exact ⟨_, _, mid, rfl, rfl, .error e⟩

/-- The checks see the readers before. -/
theorem Parallel.checked {first : α → β → Prop} {post : γ → δ → Prop} {action : Reading α}
    {other : Reading β} {check : Reader → α → Except AbiError γ}
    {check' : Reader → β → Except AbiError δ} (parallel : Parallel f g first action other)
    (alike : ∀ (r : Reader) x y, first x y →
      Alike post (check (r.withHook f) x) (check' (r.withHook g) y)) :
    Parallel f g post (checked action check) (checked other check') := by
  intro r
  obtain ⟨x, y, after, left, right, outcomes⟩ := parallel r
  cases outcomes with
  | ok related =>
    exact ⟨_, _, after, runFrom_checked_of_ok left, runFrom_checked_of_ok right,
      alike r _ _ related⟩
  | error e =>
    exact ⟨_, _, after, runFrom_checked_of_error left, runFrom_checked_of_error right, .error e⟩

theorem Parallel.elsewhere {post : α → β → Prop} {action : Reading α} {other : Reading β}
    (parallel : Parallel f g post action other) (place : Reader) :
    Parallel f g post (elsewhere (place.withHook f) action)
      (elsewhere (place.withHook g) other) := by
  intro r
  obtain ⟨x, y, after, left, right, alike⟩ := parallel { place with budget := r.budget }
  refine ⟨x, y, { r with budget := after.budget }, ?_, ?_, alike⟩
  · exact congrArg (fun run => (run.1, { r.withHook f with budget := run.2.budget })) left
  · exact congrArg (fun run => (run.1, { r.withHook g with budget := run.2.budget })) right

theorem parallel_charge (count : Nat) : Parallel f g (· = ·) (charge count) (charge count) :=
  fun r => ⟨_, _, { r with budget := r.budget.spend count }, rfl, rfl, .refl _⟩

theorem parallel_advance (count : Nat) :
    Parallel f g (· = ·) (advance count) (advance count) := by
  intro r
  cases counted : count? (r.offset + count) with
  | none =>
    have stays (hook : Option Hook) : (advance count).runFrom (r.withHook hook) =
        (.error (.internal .count), r.withHook hook) := by
      simp only [advance, runFrom, Reader.offset_withHook, counted]
    exact ⟨_, _, r, stays f, stays g, .error _⟩
  | some offset =>
    have moves (hook : Option Hook) : (advance count).runFrom (r.withHook hook) =
        (.ok (), ({ r with offset } : Reader).withHook hook) := by
      simp only [advance, runFrom, Reader.offset_withHook, counted]
      rfl
    exact ⟨_, _, { r with offset }, moves f, moves g, .ok rfl⟩

theorem parallel_bytes (length : Nat) (relaxed : Bool) :
    Parallel f g (· = ·) (bytes length relaxed) (bytes length relaxed) := by
  have peeked : Parallel f g (· = ·) (inspect fun r => r.peek length relaxed)
      (inspect fun r => r.peek length relaxed) :=
    Parallel.inspect fun r => .refl (r.peek length relaxed)
  apply peeked.bind
  rintro taken _ rfl
  apply (parallel_charge taken.length).bind
  rintro _ _ _
  apply (parallel_advance taken.length).bind
  rintro _ _ _
  split
  · exact Parallel.pure rfl
  · exact parallel_fail _

theorem parallel_word : Parallel f g (· = ·) word word := by
  apply (parallel_bytes wordSize false).bind
  rintro data _ rfl
  split
  · exact Parallel.pure rfl
  · exact parallel_fail _

theorem parallel_count (typeName : String) :
    Parallel f g (· = ·) (count typeName) (count typeName) := by
  rw [count_eq_checked]
  apply parallel_word.checked
  rintro r w _ rfl
  exact .refl _

theorem Parallel.coerce {post : Value → Value → Prop} {kind : String} {v w : Value}
    (related : post (Hook.applied f kind v) (Hook.applied g kind w)) :
    Parallel f g post (coerce kind v) (coerce kind w) :=
  Parallel.inspect fun _ => .ok related

end Reading

open Reading

/-- The values of the components on both sides, any two of them related as their component says. -/
inductive RelatedAll (post : Layout → Value → Value → Prop) :
    List Layout → List Value → List Value → Prop where
  | nil : RelatedAll post [] [] []
  | cons {c : Layout} {v w : Value} {components : List Layout} {vs ws : List Value} :
    post c v w → RelatedAll post components vs ws →
      RelatedAll post (c :: components) (v :: vs) (w :: ws)

theorem RelatedAll.length_eq {post : Layout → Value → Value → Prop} {components : List Layout}
    {vs ws : List Value} (h : RelatedAll post components vs ws) :
    vs.length = components.length ∧ ws.length = components.length := by
  induction h with
  | nil => exact ⟨rfl, rfl⟩
  | cons _ _ ih => exact ⟨congrArg Nat.succ ih.1, congrArg Nat.succ ih.2⟩

namespace Layout

variable {f g : Option Hook} {newName : Option String → Option String}
  {post : Layout → Value → Value → Prop}

/-- What relates the values of two decoders, from the leaves up: the hooks `f` and `g` keep it, and
so do the new names of the components. -/
structure Carries (f g : Option Hook) (newName : Option String → Option String)
    (post : Layout → Value → Value → Prop) : Prop where
  leaf : ∀ {kind : Option String → Layout}, Elementary kind → ∀ name v,
    post (kind name) (Hook.applied f (kind name).kindName v)
      (Hook.applied g (kind name).kindName v)
  array : ∀ {name element length vs ws},
    RelatedAll post (List.replicate vs.length element) vs ws →
      post (.array name element length) (Hook.applied f "array" (.array vs))
        (Hook.applied g "array" (.array ws))
  tuple : ∀ {name components vs ws}, RelatedAll post components vs ws →
    post (.tuple name components)
      (Hook.applied f "tuple" (.tuple ((components.map Layout.name).zip vs)))
      (Hook.applied g "tuple" (.tuple ((components.map fun c => newName c.name).zip ws)))

/-- The layout is read in parallel with the one of the new names. -/
def ReadsParallel (f g : Option Hook) (newName : Option String → Option String)
    (post : Layout → Value → Value → Prop) (l : Layout) : Prop :=
  Parallel f g (post l) l.decode (l.rename newName).decode

theorem parallel_readIn {c : Layout} (reads : ReadsParallel f g newName post c) (base : Reader) :
    Parallel f g (post c) (c.part.readIn (base.withHook f))
      ((c.rename newName).part.readIn (base.withHook g)) := by
  have same := isDynamic_rename newName c
  unfold Part.readIn part
  simp only [same, kindName_rename]
  split
  · apply (parallel_count c.kindName).bind
    rintro offset _ rfl
    -- The offset is the same on both sides, so both read at the same place.
    rw [Reader.sub_withHook, Reader.sub_withHook]
    cases base.sub offset with
    | error e => exact fun r => ⟨_, _, r, rfl, rfl, .error e⟩
    | ok place => exact reads.elsewhere place
  · exact reads

theorem parallel_readAllIn {components : List Layout}
    (reads : ∀ c ∈ components, ReadsParallel f g newName post c) (base : Reader) :
    Parallel f g (RelatedAll post components)
      (Part.readAllIn (base.withHook f) (components.map part))
      (Part.readAllIn (base.withHook g) ((components.map (rename newName)).map part)) := by
  induction components with
  | nil => exact Parallel.pure .nil
  | cons c components ih =>
    rcases List.forall_mem_cons.1 reads with ⟨own, others⟩
    apply (parallel_readIn own base).bind
    intro v w related
    apply (ih others).bind
    intro vs ws rest
    exact Parallel.pure (.cons related rest)

theorem parallel_readBlock {components : List Layout}
    (reads : ∀ c ∈ components, ReadsParallel f g newName post c) :
    Parallel f g (RelatedAll post components) (readBlock (components.map part))
      (readBlock ((components.map (rename newName)).map part)) := by
  have start : Parallel f g (fun p q => ∃ base : Reader, p = base.withHook f ∧ q = base.withHook g)
      (Reading.inspect fun r => r.sub 0) (Reading.inspect fun r => r.sub 0) := by
    apply Parallel.inspect
    intro r
    rw [Reader.sub_withHook, Reader.sub_withHook]
    cases r.sub 0 with
    | error e => exact .error e
    | ok place => exact .ok ⟨place, rfl, rfl⟩
  apply start.bind
  rintro _ _ ⟨base, rfl, rfl⟩
  exact parallel_readAllIn reads base

/-- Records of related values, each under its own names. -/
def RelatedRecords (newName : Option String → Option String)
    (post : Layout → Value → Value → Prop) (components : List Layout) (r s : Record) : Prop :=
  ∃ vs ws, RelatedAll post components vs ws ∧ r = (components.map name).zip vs ∧
    s = (components.map fun c => newName c.name).zip ws

theorem parallel_decodeAll {components : List Layout}
    (reads : ∀ c ∈ components, ReadsParallel f g newName post c) :
    Parallel f g (RelatedRecords newName post components) (decodeAll components)
      (decodeAll (renameAll newName components)) := by
  have names : (components.map (rename newName)).map name =
      components.map fun c => newName c.name := by
    rw [List.map_map]
    exact List.map_congr_left fun c _ => name_rename newName c
  unfold decodeAll
  rw [parts_eq_map, parts_eq_map, renameAll_eq_map, names]
  apply (parallel_readBlock reads).bind
  intro vs ws related
  obtain ⟨left, right⟩ := related.length_eq
  have first : Record.ofParts? (components.map name) vs = some ((components.map name).zip vs) :=
    if_pos (by rw [List.length_map, left])
  have second : Record.ofParts? (components.map fun c => newName c.name) ws =
      some ((components.map fun c => newName c.name).zip ws) :=
    if_pos (by rw [List.length_map, right])
  rw [recordOf, recordOf, first, second]
  exact Parallel.pure ⟨vs, ws, related, rfl, rfl⟩

theorem parallel_readPayload (typeName : String) :
    Parallel f g (· = ·) (readPayload typeName) (readPayload typeName) := by
  apply (parallel_count typeName).bind
  rintro length _ rfl
  exact parallel_bytes length true

theorem parallel_readCount {l l' element element' : Layout} (text : l'.typeText = l.typeText)
    (size : element'.headSize = element.headSize) (length : ArrayLength) :
    Parallel f g (· = ·) (l.readCount element length)
      (l'.readCount element' length) := by
  cases length with
  | fixed n =>
    have remaining : Parallel f g (· = ·) (Reading.inspect Reader.remaining)
        (Reading.inspect Reader.remaining) := Parallel.inspect fun r => .refl r.remaining
    apply remaining.bind
    rintro left _ rfl
    rw [size, text]
    split
    · exact Parallel.inspect fun r => .error _
    · exact Parallel.pure rfl
  | dynamic =>
    rw [readCount, readCount, dynamicCount_eq_checked, dynamicCount_eq_checked, text]
    apply (parallel_count "array").checked
    rintro r n _ rfl
    exact .refl _

theorem parallel_leaf (carries : Carries f g newName post) {kind : Option String → Layout}
    (elementary : Elementary kind) (name : Option String) :
    ReadsParallel f g newName post (kind name) := by
  have own := carries.leaf elementary name
  cases elementary with
  | address =>
    have read : Parallel f g (· = ·) readAddress readAddress := by
      rw [readAddress_eq_checked]
      apply parallel_word.checked
      rintro r w _ rfl
      exact .refl _
    apply read.bind
    rintro v _ rfl
    exact Parallel.coerce (own v)
  | bool =>
    apply parallel_word.bind
    rintro w _ rfl
    exact Parallel.coerce (own _)
  | number width isSigned =>
    apply parallel_word.bind
    rintro w _ rfl
    exact Parallel.coerce (own _)
  | fixedBytes width =>
    apply (parallel_bytes width.size false).bind
    rintro data _ rfl
    exact Parallel.coerce (own _)
  | bytes =>
    apply (parallel_readPayload "bytes").bind
    rintro data _ rfl
    exact Parallel.coerce (own _)
  | string =>
    have read : Parallel f g (· = ·) readText readText := by
      rw [readText_eq_checked]
      apply (parallel_readPayload "string").checked
      rintro r data _ rfl
      exact .refl _
    apply read.bind
    rintro v _ rfl
    exact Parallel.coerce (own v)
  | null =>
    apply (parallel_bytes 0 false).bind
    rintro _ _ _
    exact Parallel.coerce (own _)

/-- Neither hooks nor names have a say in what is read. -/
theorem parallel_decode (carries : Carries f g newName post) (l : Layout) :
    ReadsParallel f g newName post l := by
  induction l with
  | array name element length ih =>
    unfold ReadsParallel
    rw [rename, decode_array, decode_array]
    have text := typeText_rename newName (array name element length)
    apply (parallel_readCount text (headSize_rename newName element) length).bind
    rintro count _ rfl
    have block := parallel_readBlock (List.forall_mem_replicate.2 (Or.inr ih) :
      ∀ c ∈ List.replicate count element, ReadsParallel f g newName post c)
    rw [List.map_replicate, List.map_replicate, List.map_replicate] at block
    apply block.bind
    intro vs ws related
    have counted : vs.length = count := related.length_eq.1.trans List.length_replicate
    rw [← counted] at related
    exact Parallel.coerce (carries.array related)
  | tuple name components ih =>
    unfold ReadsParallel
    rw [rename, decode_tuple, decode_tuple]
    apply (parallel_decodeAll ih).bind
    rintro _ _ ⟨vs, ws, related, rfl, rfl⟩
    exact Parallel.coerce (carries.tuple related)
  | address name => exact parallel_leaf carries .address name
  | bool name => exact parallel_leaf carries .bool name
  | number name width isSigned => exact parallel_leaf carries (.number width isSigned) name
  | fixedBytes name width => exact parallel_leaf carries (.fixedBytes width) name
  | bytes name => exact parallel_leaf carries .bytes name
  | string name => exact parallel_leaf carries .string name
  | null name => exact parallel_leaf carries .null name

end Layout

end AbiCodec
