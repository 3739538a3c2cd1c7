import AbiCodec.Proofs.DecodedForm
import AbiCodec.Proofs.RoundTrip

/-!
# Encoding what was decoded

A decoder takes the whole word of a number, whatever the width of its type. A
value that was decoded is its own canonical form unless a number in it
`Overflows` its width, and then its encoding fails because of that number.
-/

namespace AbiCodec

namespace Layout

/-- A number in the value is outside the width that the layout gives it. -/
inductive Overflows : Layout → Value → Prop where
  | number {name : Option String} {width : ByteWidth} {isSigned : Bool} {v : Value} {x : Int} :
    v.integer? = some x → inRange isSigned width.bits x = false →
      Overflows (.number name width isSigned) v
  | element {name : Option String} {element : Layout} {length : ArrayLength} {items : List Value}
    {item : Value} : item ∈ items → Overflows element item →
      Overflows (.array name element length) (.array items)
  | component {name : Option String} {components : List Layout} {entries : Record} {c : Layout}
    {v : Value} : (c, v) ∈ components.zip entries.values → Overflows c v →
      Overflows (.tuple name components) (.tuple entries)

/-- A number in one of the values is outside the width that its component gives it. -/
def OverflowsIn (components : List Layout) (values : List Value) : Prop :=
  ∃ c v, (c, v) ∈ components.zip values ∧ c.Overflows v

theorem exists_form_of_mem_zip {components : List Layout} {values forms : List Value}
    (h : CanonicalForms components values forms) {c : Layout} {v : Value}
    (member : (c, v) ∈ components.zip values) : ∃ form, c.canonical? v = some form := by
  induction h with
  | nil => cases member
  | cons first _ ih =>
    rw [List.zip_cons_cons] at member
    rcases List.mem_cons.1 member with here | there
    · cases here
      exact ⟨_, first⟩
    · exact ih there

theorem mem_zip_replicate {element : Layout} {items : List Value} {item : Value}
    (member : item ∈ items) :
    (element, item) ∈ (List.replicate items.length element).zip items := by
  induction items with
  | nil => cases member
  | cons v items ih =>
    rw [List.length_cons, List.replicate_succ, List.zip_cons_cons]
    rcases List.mem_cons.1 member with rfl | there
    · exact List.mem_cons_self
    · exact List.mem_cons_of_mem _ (ih there)

/-- What overflows has no canonical form. -/
theorem Overflows.not_canonical {l : Layout} {v form : Value} (h : l.Overflows v) :
    l.canonical? v ≠ some form := by
  induction h generalizing form with
  | number denotes outside =>
    rw [canonical?, canonicalNumber?_of_integer? denotes, outside, if_neg Bool.false_ne_true]
    simp
  | element member _ ih =>
    intro canonical
    obtain ⟨items, forms, same, _, each, _⟩ := canonical?_array_eq_some_iff.1 canonical
    cases same
    obtain ⟨form, some⟩ := exists_form_of_mem_zip each (mem_zip_replicate member)
    exact ih some
  | component member _ ih =>
    intro canonical
    obtain ⟨values, forms, same, each, _⟩ := canonical?_tuple_eq_some_iff.1 canonical
    cases same
    obtain ⟨form, some⟩ := exists_form_of_mem_zip each member
    exact ih some

theorem OverflowsIn.canonicalAll?_eq_none {components : List Layout} {values : List Value}
    (h : OverflowsIn components values) : canonicalAll? components values = none := by
  obtain ⟨c, v, member, outOfRange⟩ := h
  by_contra present
  obtain ⟨forms, canonical⟩ := Option.ne_none_iff_exists'.1 present
  obtain ⟨form, some⟩ := exists_form_of_mem_zip (canonicalAll?_eq_some_iff.1 canonical) member
  exact outOfRange.not_canonical some

theorem zip_names_values (r : Record) : r.names.zip r.values = r := by
  induction r with
  | nil => rfl
  | cons entry r ih =>
    rw [Record.names, Record.values, List.map_cons, List.map_cons, List.zip_cons_cons]
    exact congrArg (entry :: ·) ih

theorem canonicalNumber?_self {isSigned : Bool} {bits : Nat} {w : Word}
    (fits : ∀ x, (if isSigned then Value.int w else .uint w).integer? = some x →
      inRange isSigned bits x = true) :
    canonicalNumber? isSigned bits (if isSigned then .int w else .uint w) =
      some (if isSigned then .int w else .uint w) := by
  cases isSigned with
  | false =>
    have own := fits w.toNat rfl
    exact (canonicalNumber?_of_integer? rfl).trans (by rw [own, if_pos rfl, numberOf_toNat]; rfl)
  | true =>
    have own := fits w.toInt rfl
    exact (canonicalNumber?_of_integer? rfl).trans (by rw [own, if_pos rfl, numberOf_toInt]; rfl)

theorem given_of_all {components : List Layout} {values : List Value}
    (conform : ConformAll components values) (named : AllNamed components values) :
    List.Forall₂ Given components values := by
  induction components generalizing values with
  | nil =>
    cases conform
    exact .nil
  | cons c components ih =>
    obtain ⟨v, rest, rfl, own, others⟩ := conform
    exact .cons ⟨own, named.1⟩ (ih others named.2)

theorem allNamed_replicate (element : Layout) (items : List Value) :
    AllNamed (List.replicate items.length element) items ↔ ∀ item ∈ items, element.Named item := by
  induction items with
  | nil => simp [AllNamed]
  | cons v items ih => simp [List.replicate_succ, AllNamed, ih]

/-- Values that were decoded have canonical forms, their own ones, when no number overflows. -/
theorem forms_of_given {components : List Layout} {values : List Value}
    (each : ∀ c ∈ components, ∀ v, c.Given v → ¬c.Overflows v → c.canonical? v = some v)
    (given : List.Forall₂ Given components values) (fits : ¬OverflowsIn components values) :
    CanonicalForms components values values := by
  induction given with
  | nil => exact .nil
  | @cons c v components values first _ ih =>
    rcases List.forall_mem_cons.1 each with ⟨own, others⟩
    refine .cons (own v first fun outOfRange => ?_) (ih others ?_)
    · exact fits ⟨c, v, List.mem_cons_self, outOfRange⟩
    · rintro ⟨d, w, member, outOfRange⟩
      exact fits ⟨d, w, List.mem_cons_of_mem _ member, outOfRange⟩

theorem canonical?_of_given {l : Layout} {v : Value} (given : l.Given v) (fits : ¬l.Overflows v) :
    l.canonical? v = some v := by
  induction l generalizing v with
  | address name =>
    obtain ⟨a, rfl⟩ := given.conforms
    rfl
  | bool name =>
    obtain ⟨b, rfl⟩ := given.conforms
    rfl
  | number name width isSigned =>
    obtain ⟨w, rfl⟩ := given.conforms
    apply canonicalNumber?_self
    intro x denotes
    by_contra outside
    exact fits (.number denotes (Bool.eq_false_iff.2 outside))
  | fixedBytes name width =>
    obtain ⟨data, rfl, sized⟩ := given.conforms
    rw [canonical?, Value.asBytes?, Option.bind_some, if_pos sized]
  | bytes name =>
    obtain ⟨data, rfl⟩ := given.conforms
    rfl
  | string name =>
    obtain ⟨text, rfl⟩ := given.conforms
    rfl
  | null name =>
    cases given.conforms
    rfl
  | array name element length ih =>
    obtain ⟨items, rfl, admitted, conform⟩ := given.conforms
    have all := given_of_all ((conformAll_replicate element items).2 conform)
      ((allNamed_replicate element items).2 (given.named items rfl))
    have forms := forms_of_given (List.forall_mem_replicate.2 (Or.inr fun v => ih)) all
    refine canonical?_array_eq_some_iff.2 ⟨items, items, rfl, admitted, forms ?_, rfl⟩
    rintro ⟨c, v, member, outOfRange⟩
    obtain ⟨repeated, inItems⟩ := List.of_mem_zip member
    cases List.eq_of_mem_replicate repeated
    exact fits (.element inItems outOfRange)
  | tuple name components ih =>
    obtain ⟨entries, rfl, conform⟩ := given.conforms
    obtain ⟨names, named⟩ := given.named entries rfl
    have within : ¬OverflowsIn components (Record.values entries) := by
      rintro ⟨c, v, member, outOfRange⟩
      exact fits (.component member outOfRange)
    have forms := forms_of_given (fun c member v => ih c member) (given_of_all conform named) within
    refine canonical?_tuple_eq_some_iff.2 ⟨_, _, rfl, forms, ?_⟩
    rw [← names.names_eq, zip_names_values]

end Layout

namespace Writing

/-- Whatever was written before, the action fails with no error of another kind. -/
def FailsAs (kind : ErrorKind) (action : Writing Nat) : Prop :=
  ∀ written e after, action.runFrom written = (.error e, after) → e.kind = kind

variable {kind : ErrorKind}

theorem Gives.failsAs {action : Writing Nat} {data : Bytes} (gives : action.Gives (some data)) :
    action.FailsAs kind := by
  intro written e after failed
  rw [gives written] at failed
  cases failed

theorem FailsAs.seq {first second : Writing Nat} (before : first.FailsAs kind)
    (behind : second.FailsAs kind) :
    (do let m ← first; let n ← second; return m + n : Writing Nat).FailsAs kind := by
  intro written e after failed
  rcases run : first.runFrom written with ⟨outcome, mid⟩
  cases outcome with
  | error x =>
    rw [runFrom_bind_of_error run] at failed
    cases failed
    exact before _ _ _ run
  | ok m =>
    rw [runFrom_bind_of_ok run] at failed
    rcases rest : second.runFrom mid with ⟨outcome, last⟩
    cases outcome with
    | error x =>
      rw [runFrom_bind_of_error rest] at failed
      cases failed
      exact behind _ _ _ rest
    | ok n =>
      rw [runFrom_bind_of_ok rest] at failed
      cases failed

end Writing

namespace Block

open Writing

variable {kind : ErrorKind}

theorem kind_of_stage {slots : List Slot} (each : ∀ slot ∈ slots, slot.write.FailsAs kind)
    {tails : Bytes} {e : AbiError} (failed : stage tails slots = .error e) : e.kind = kind := by
  induction slots generalizing tails with
  | nil => cases failed
  | cons slot slots ih =>
    rcases List.forall_mem_cons.1 each with ⟨own, others⟩
    have further {grown : Bytes} {head : Head}
        (failed : (stage grown slots >>= fun block =>
          .ok (Block.mk (head :: block.heads) block.tails)) = .error e) : e.kind = kind := by
      cases rest : stage grown slots with
      | error x =>
        rw [rest] at failed
        cases failed
        exact ih others rest
      | ok block =>
        rw [rest] at failed
        cases failed
    rw [stage] at failed
    split at failed
    · split at failed
      · next run =>
        cases failed
        exact own _ _ _ run
      · exact further failed
    · split at failed
      · next run =>
        cases failed
        exact own _ _ _ run
      · exact further failed

theorem failsAs_write {slots : List Slot} (each : ∀ slot ∈ slots, slot.write.FailsAs kind) :
    (write slots).FailsAs kind := by
  rw [write]
  split
  · exact (gives_append _).failsAs
  · next e failed =>
    intro written x after run
    cases run
    exact kind_of_stage each failed

end Block

namespace Layout

open Writing

theorem failsAs_slots {components : List Layout} {values : List Value}
    (each : ∀ c ∈ components, ∀ v, c.Conforms v → (c.encode v).FailsAs .valueOutOfRange)
    (conform : ConformAll components values) :
    (Block.write (slots components values)).FailsAs .valueOutOfRange := by
  apply Block.failsAs_write
  induction components generalizing values with
  | nil => simp [slots]
  | cons c components ih =>
    obtain ⟨v, rest, rfl, own, others⟩ := conform
    rcases List.forall_mem_cons.1 each with ⟨first, following⟩
    rw [slots]
    exact List.forall_mem_cons.2 ⟨first v own, ih following others⟩

theorem length_of_conformAll {components : List Layout} {values : List Value}
    (conform : ConformAll components values) : values.length = components.length := by
  induction components generalizing values with
  | nil =>
    cases conform
    rfl
  | cons c components ih =>
    obtain ⟨v, rest, rfl, _, others⟩ := conform
    rw [List.length_cons, ih others, List.length_cons]

theorem failsAs_word {kind : ErrorKind} {step : Except AbiError Word}
    (each : ∀ e, step = .error e → e.kind = kind) :
    (do Writing.word (← step) : Writing Nat).FailsAs kind := by
  cases step with
  | error e =>
    intro written x after failed
    cases failed
    exact each e rfl
  | ok w => exact (gives_append w.toBytes).failsAs

/-- A word that does not pass its check is out of range. -/
theorem kind_of_checked {fits : Prop} [Decidable fits] {l : Layout} {v : Value} {cause : ValueCause}
    {w : Word} {e : AbiError}
    (failed : (if fits then .ok w else .error (l.refuseRange v cause)) = Except.error e) :
    e.kind = .valueOutOfRange := by
  split at failed
  · cases failed
  · cases failed
    rfl

theorem kind_of_unsignedWord {l : Layout} {bits : Nat} {v : Value} {x : Int}
    (denotes : v.integer? = some x) {e : AbiError} (failed : l.unsignedWord bits v = .error e) :
    e.kind = .valueOutOfRange := by
  cases v with
  | uint w => exact kind_of_checked failed
  | int w =>
    simp only [unsignedWord] at failed
    split at failed
    · cases failed
      rfl
    · exact kind_of_checked failed
  | _ => cases denotes

theorem kind_of_signedWord {l : Layout} {bits : Nat} {v : Value} {x : Int}
    (denotes : v.integer? = some x) {e : AbiError} (failed : l.signedWord bits v = .error e) :
    e.kind = .valueOutOfRange := by
  cases v with
  | int w => exact kind_of_checked failed
  | uint w =>
    simp only [signedWord] at failed
    split at failed
    · cases failed
      rfl
    · exact kind_of_checked failed
  | _ => cases denotes

/-- A value of the right form is refused for its numbers only. -/
theorem failsAs_encode {l : Layout} {v : Value} (conforms : l.Conforms v) :
    (l.encode v).FailsAs .valueOutOfRange := by
  have accepted {l : Layout} {v form : Value} (canonical : l.canonical? v = some form) :
      (l.encode v).FailsAs .valueOutOfRange := by
    have gives := gives_encode l v
    rw [canonical] at gives
    exact gives.failsAs
  induction l generalizing v with
  | address name =>
    obtain ⟨a, rfl⟩ := conforms
    exact accepted rfl
  | bool name =>
    obtain ⟨b, rfl⟩ := conforms
    exact accepted rfl
  | number name width isSigned =>
    obtain ⟨w, rfl⟩ := conforms
    cases isSigned with
    | false => exact failsAs_word fun e => kind_of_unsignedWord rfl
    | true => exact failsAs_word fun e => kind_of_signedWord rfl
  | fixedBytes name width =>
    obtain ⟨data, rfl, sized⟩ := conforms
    exact accepted (by rw [canonical?, Value.asBytes?, Option.bind_some, if_pos sized])
  | bytes name =>
    obtain ⟨data, rfl⟩ := conforms
    exact accepted rfl
  | string name =>
    obtain ⟨text, rfl⟩ := conforms
    exact accepted rfl
  | null name =>
    cases conforms
    exact accepted rfl
  | array name element length ih =>
    obtain ⟨items, rfl, admitted, each⟩ := conforms
    have elements : (Block.write (items.map fun item =>
        ⟨element.isDynamic, element.encode item⟩)).FailsAs .valueOutOfRange := by
      rw [← slots_replicate]
      exact failsAs_slots (List.forall_mem_replicate.2 (Or.inr fun v => ih))
        ((conformAll_replicate element items).2 each)
    cases length with
    | dynamic => exact (gives_append (Word.toBytes _)).failsAs.seq elements
    | fixed n =>
      rw [encode, if_pos (beq_iff_eq.1 admitted)]
      exact gives_nothing.failsAs.seq elements
  | tuple name components ih =>
    obtain ⟨entries, rfl, each⟩ := conforms
    have block := failsAs_slots (fun c member v => ih c member) each
    change (if (Record.values entries).length = components.length then
      Block.write (slots components (Record.values entries)) else fail _).FailsAs _
    rw [if_pos (length_of_conformAll each)]
    exact block

end Layout

/-- What decoding gives has the names of the types and is given by their layouts. -/
theorem given_of_decode {settings : Settings} {types : List TypeSource} {layouts : List Layout}
    (accepted : layoutsOf settings types = .ok layouts) {data : Bytes} {isLoose : Bool}
    {record : Record} (decoded : decode settings none types data isLoose = .ok record) :
    record.HasNames (layouts.map Layout.name) ∧
      List.Forall₂ Layout.Given layouts record.values := by
  rw [decode_eq_decodeFrom accepted, decodeFrom] at decoded
  exact (Layout.yields_decodeAll (fun c _ => Layout.yields_decode c) rfl
    (Prod.ext decoded rfl)).1

theorem encode_eq_outputOf {settings : Settings} {types : List TypeSource} {layouts : List Layout}
    (accepted : layoutsOf settings types = .ok layouts) {values : List Value}
    (same : types.length = values.length) :
    encode settings types values = outputOf (Layout.encodeAll layouts values) := by
  rw [encode, if_pos same, accepted]
  rfl

/-- Whatever the data, the record that decoding gives without a hook has one value for each type, in
the form of the type, and the names of the types at every depth. Its values encode again unless a
number overflows its width, and then the error is that a value is out of range. What they encode to
decodes to the same record when the elements of every array of dynamic length take some bytes. -/
theorem encode_decoded {settings : Settings} {types : List TypeSource} {layouts : List Layout}
    (accepted : layoutsOf settings types = .ok layouts) {data : Bytes} {isLoose : Bool}
    {record : Record} (decoded : decode settings none types data isLoose = .ok record) :
    record.length = types.length ∧ Layout.ConformAll layouts record.values ∧
    (∃ trees, types.mapM TypeSource.resolve = .ok trees ∧
      record.HasNames (trees.map AbiType.name) ∧ AbiType.AllNamed trees record.values) ∧
    ((∃ again, encode settings types record.values = .ok again ∧
        ¬Layout.OverflowsIn layouts record.values ∧
        (Layout.allSized layouts = true → again.length < 2 ^ 63 → ∀ isLoose',
          decode settings none types again isLoose' = .ok record)) ∨
      ∃ e, encode settings types record.values = .error e ∧ e.kind = .valueOutOfRange ∧
        Layout.OverflowsIn layouts record.values) := by
  obtain ⟨names, given⟩ := given_of_decode accepted decoded
  obtain ⟨trees, resolved, sameTypes, laid⟩ := exists_of_layoutsOf accepted
  have built : Layout.Built settings.maxStaticWords trees layouts :=
    laid.imp fun _ _ => Layout.build_of_ofType
  have conform := Layout.conformAll_of_given given
  have sameValues := Layout.length_of_conformAll conform
  have same : types.length = record.values.length := by
    rw [sameValues, ← sameTypes, laid.length_eq]
  have written := encode_eq_outputOf accepted same
  have gives := Layout.gives_encodeAll layouts record.values
  refine ⟨by rw [same, Record.values, List.length_map], conform,
    ⟨trees, resolved, built.map_name ▸ names, ?_⟩, ?_⟩
  · exact built.allNamed (fun _ _ _ _ => Layout.named_of_build) (Layout.allNamed_of_given given)
  by_cases outOfRange : Layout.OverflowsIn layouts record.values
  · right
    rw [outOfRange.canonicalAll?_eq_none] at gives
    obtain ⟨e, after, failed⟩ := gives []
    refine ⟨e, by rw [written, outputOf, failed], ?_, outOfRange⟩
    have refused := Layout.failsAs_slots (fun _ _ _ => Layout.failsAs_encode) conform
    rw [Layout.encodeAll, if_pos sameValues] at failed
    exact refused [] e after failed
  · left
    have forms := Layout.forms_of_given (fun _ _ _ => Layout.canonical?_of_given) given outOfRange
    rw [Layout.canonicalAll?_eq_some_iff.2 forms, Option.map_some] at gives
    refine ⟨_, by rw [written, outputOf, gives [], List.nil_append], outOfRange, ?_⟩
    intro sized small isLoose'
    obtain ⟨_, read, _⟩ := decodeFrom_of_forms sized forms settings small isLoose'
    rw [decode_eq_decodeFrom accepted, read, ← names.names_eq, Layout.zip_names_values]

set_option maxRecDepth 8000 in
/-- A word past the width of its number, in a tuple. -/
theorem encode_decoded_wideWord :
    decode {} none [.tree (.tuple { name := "p" } [.elementary { name := "a" } "uint8"])]
        (Word.toBytes 300#256) false = .ok [(some "p", .tuple [(some "a", .uint 300#256)])] ∧
      ∃ e, encode {} [.tree (.tuple { name := "p" } [.elementary { name := "a" } "uint8"])]
        [.tuple [(some "a", .uint 300#256)]] = .error e ∧ e.kind = .valueOutOfRange := by
  have accepted : layoutsOf {} [.tree (.tuple { name := "p" }
      [.elementary { name := "a" } "uint8"])] =
      .ok [.tuple (some "p") [.number (some "a") ⟨1, by decide, by decide⟩ false]] := rfl
  have decoded : decode {} none [.tree (.tuple { name := "p" }
      [.elementary { name := "a" } "uint8"])] (Word.toBytes 300#256) false =
      .ok [(some "p", .tuple [(some "a", .uint 300#256)])] := rfl
  obtain ⟨_, _, _, ⟨again, _, fits, _⟩ | ⟨e, failed, kind, _⟩⟩ := encode_decoded accepted decoded
  · exact absurd ⟨_, _, List.mem_cons_self, .component List.mem_cons_self (.number rfl rfl)⟩ fits
  · exact ⟨decoded, e, failed, kind⟩

end AbiCodec
