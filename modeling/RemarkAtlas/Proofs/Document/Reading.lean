import RemarkAtlas.Document.Field

/-!
When the readers of fields succeed, and with what.  Each `_eq_ok` lemma turns the success of a
reader into a statement about the value that it was given.
-/

namespace RemarkAtlas

@[simp] theorem asUInt64?_eq_some {value : Json} {number : UInt64} :
    value.asUInt64? = some number ↔ value = .natural number.toNat := by
  have bound := number.toNat_lt_size
  cases value with
  | number written =>
      cases written with
      | integer integer =>
          simp only [Json.asUInt64?, Json.natural, Json.number.injEq, JsonNumber.integer.injEq]
          split
          · rename_i fits
            rw [Option.some.injEq, ← UInt64.toNat_inj, UInt64.toNat_ofNat_of_lt' (by omega)]
            omega
          · simp
            omega
      | double double => simp [Json.asUInt64?, Json.natural]
  | _ => simp [Json.asUInt64?, Json.natural]

namespace Document

variable {α β : Type}

@[simp] theorem pure_eq_ok (value : α) : (pure value : Reading α) = .ok value := rfl

@[simp] theorem bind_eq_ok {first : Reading α} {next : α → Reading β} {result : β} :
    first >>= next = .ok result ↔ ∃ value, first = .ok value ∧ next value = .ok result := by
  cases first with
  | error fault => simp [bind, Except.bind]
  | ok value => simp [bind, Except.bind]

@[simp] theorem refuse_ne_ok {rule : Malformation} {result : α} :
    (refuse rule : Reading α) ≠ .ok result := by
  simp [refuse]

@[simp] theorem demand_eq_ok {rule : Malformation} {value? : Option α} {result : α} :
    demand rule value? = .ok result ↔ value? = some result := by
  cases value? with
  | none => simp [demand]
  | some value => simp [demand]

@[simp] theorem object_eq_ok {part : DocumentPart} {value : Json} {members : Members} :
    object part value = .ok members ↔ value = .object members := by
  cases value <;> simp [object]

@[simp] theorem array_eq_ok {part : DocumentPart} {value : Json} {items : List Json} :
    array part value = .ok items ↔ value = .array items := by
  cases value <;> simp [array]

@[simp] theorem required_eq_ok {part : DocumentPart} {key : String} {members : Members}
    {value : Json} : required part key members = .ok value ↔ members.get? key = some value := by
  simp [required]

@[simp] theorem asText?_eq_some {value : Json} {text : String} :
    value.asText? = some text ↔ value = .string text := by
  cases value <;> simp [Json.asText?]

@[simp] theorem string_eq_ok {part : DocumentPart} {key : String} {members : Members}
    {text : String} :
    string part key members = .ok text ↔ members.get? key = some (.string text) := by
  simp [string]

@[simp] theorem scalar_eq_ok {part : DocumentPart} {key : String} {members : Members}
    {text : String} :
    scalar part key members = .ok text ↔
      ∃ value, members.get? key = some value ∧ scalarText? value = some text := by
  simp [scalar]

@[simp] theorem lineNumber_eq_ok {part : DocumentPart} {key : String} {members : Members}
    {number : UInt32} :
    lineNumber part key members = .ok number ↔
      ∃ value, members.get? key = some value ∧ value.asUInt32? = some number := by
  simp [lineNumber]

theorem readOptional_eq_ok {read : Json → Reading α} {key : String} {members : Members}
    {result : Option α} :
    readOptional read key members = .ok result ↔
      (members.get? key = none ∧ none = result) ∨
        ∃ value content, members.get? key = some value ∧ read value = .ok content ∧
          some content = result := by
  cases found : members.get? key with
  | none => simp [readOptional, found]
  | some value => simp [readOptional, found]

theorem readEach_cons_eq_ok {read : Json → Reading α} {value : Json} {rest : List Json}
    {results : List α} :
    readEach read (value :: rest) = .ok results ↔
      ∃ first others, read value = .ok first ∧ readEach read rest = .ok others ∧
        first :: others = results := by
  simp [readEach]

/-- Reading each value succeeds when no value is refused. -/
theorem readEach_accepts {read : Json → Reading α} {values : List Json} :
    (∃ results, readEach read values = .ok results) ↔
      ∀ value ∈ values, ∃ result, read value = .ok result := by
  induction values with
  | nil => simp [readEach]
  | cons value rest ih =>
      rw [List.forall_mem_cons, ← ih]
      constructor
      · rintro ⟨results, read⟩
        obtain ⟨first, others, readFirst, readOthers, _⟩ := readEach_cons_eq_ok.mp read
        exact ⟨⟨first, readFirst⟩, others, readOthers⟩
      · rintro ⟨⟨first, readFirst⟩, others, readOthers⟩
        exact ⟨first :: others, readEach_cons_eq_ok.mpr ⟨first, others, readFirst, readOthers, rfl⟩⟩

theorem mem_of_readEach {read : Json → Reading α} {values : List Json} {results : List α}
    (success : readEach read values = .ok results) :
    ∀ result ∈ results, ∃ value ∈ values, read value = .ok result := by
  induction values generalizing results with
  | nil =>
      have empty : [] = results := by simpa [readEach] using success
      simp [← empty]
  | cons value rest ih =>
      obtain ⟨first, others, readFirst, readOthers, rfl⟩ := readEach_cons_eq_ok.mp success
      intro result member
      rcases List.mem_cons.mp member with same | later
      · exact ⟨value, by simp, same ▸ readFirst⟩
      · obtain ⟨source, sourceMember, sourceRead⟩ := ih readOthers result later
        exact ⟨source, by simp [sourceMember], sourceRead⟩

/-- Reading what a function wrote gives the contents back, if it does so for each of them. -/
theorem readEach_map {read : Json → Reading α} {write : α → Json} {contents : List α}
    (inverse : ∀ content ∈ contents, read (write content) = .ok content) :
    readEach read (contents.map write) = .ok contents := by
  induction contents with
  | nil => rfl
  | cons content rest ih =>
      refine readEach_cons_eq_ok.mpr ⟨content, rest, inverse content (by simp), ih ?_, rfl⟩
      intro other member
      exact inverse other (by simp [member])

def listed (part : DocumentPart) (key : String) (members : Members) : Reading (List Json) :=
  match members.get? key with
  | none => .ok []
  | some value => array part value

def Lists (members : Members) (key : String) (items : List Json) : Prop :=
  members.get? key = some (.array items) ∨ members.get? key = none ∧ items = []

@[simp] theorem listed_eq_ok {part : DocumentPart} {key : String} {members : Members}
    {items : List Json} : listed part key members = .ok items ↔ Lists members key items := by
  cases found : members.get? key with
  | none => simp [listed, Lists, found, eq_comm]
  | some value => simp [listed, Lists, found]

end Document

end RemarkAtlas
