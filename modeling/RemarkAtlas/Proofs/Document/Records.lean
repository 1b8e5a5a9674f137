import RemarkAtlas.Proofs.Document.Forest
import RemarkAtlas.Proofs.Document.Graph

/-!
What it takes to read a record, and that the records which are read are well-formed.
-/

namespace RemarkAtlas.Document

theorem readPassReference_eq_ok {positions : NameMap Nat} {value : Json} {index : Nat} :
    readPassReference positions value = .ok index ↔
      ∃ id, scalarText? value = some id ∧ positions.get? id = some index := by
  simp only [readPassReference, bind_eq_ok, demand_eq_ok]
  constructor
  · rintro ⟨id, isId, result⟩
    split at result
    · rename_i position found
      obtain rfl : position = index := by simpa using result
      exact ⟨id, isId, found⟩
    · simp at result
  · rintro ⟨id, isId, found⟩
    exact ⟨id, isId, by simp [found]⟩

theorem readHeader_eq_ok {positions : NameMap Nat} {members : Members} {header : Header} :
    readHeader positions members = .ok header ↔
      (∃ tag, members.get? "kind" = some (.string tag) ∧ header.kind = Kind.ofTag tag) ∧
        readOptional (readPassReference positions) "pass" members = .ok header.pass ∧
        optionalString .record "function" members = .ok header.function := by
  simp only [readHeader, bind_eq_ok, string_eq_ok, pure_eq_ok, Except.ok.injEq]
  constructor
  · rintro ⟨tag, hasTag, pass, readsPass, function, readsFunction, rfl⟩
    exact ⟨⟨tag, hasTag, rfl⟩, readsPass, readsFunction⟩
  · rintro ⟨⟨tag, hasTag, isKind⟩, readsPass, readsFunction⟩
    exact ⟨tag, hasTag, _, readsPass, _, readsFunction, by rw [← isKind]⟩

structure ReadsDetails (options : Options) (members : Members) (details : Details) : Prop where
  message : readMessage options members = .ok details.message
  inlining : readInlining members = .ok details.inlining
  emitter : readOptional readEmitter "impl_location" members = .ok details.emitter
  count : readOptional readCount "count" members = .ok details.count
  location : readOptional readLocation "location" members = .ok details.location

theorem readRecord_eq_ok {options : Options} {positions : NameMap Nat} {value : Json}
    {record : Record} :
    readRecord options positions value = .ok record ↔
      ∃ members header, value = .object members ∧ readHeader positions members = .ok header ∧
        ((header.kind = .state ∧ ∃ graph, readOptional readGraph "cfg" members = .ok graph ∧
            record = .snapshot header graph) ∨
          (header.kind ≠ .state ∧ ∃ details items children, ReadsDetails options members details ∧
            Lists members "children" items ∧
            readRecords options positions items = .ok children ∧
            record = .remark header details children)) := by
  cases value with
  | object members =>
      simp only [readRecord, readChildren_eq, bind_eq_ok]
      constructor
      · rintro ⟨header, hasHeader, body⟩
        refine ⟨members, header, rfl, hasHeader, ?_⟩
        split at body
        · rename_i isState
          simp only [bind_eq_ok, pure_eq_ok, Except.ok.injEq] at body
          obtain ⟨graph, hasGraph, rfl⟩ := body
          exact Or.inl ⟨isState, graph, hasGraph, rfl⟩
        · rename_i notState
          simp only [bind_eq_ok, pure_eq_ok, Except.ok.injEq, listed_eq_ok] at body
          obtain ⟨message, hasMessage, inlining, hasInlining, children, ⟨items, lists, below⟩,
            emitter, hasEmitter, count, hasCount, location, hasLocation, rfl⟩ := body
          exact Or.inr ⟨notState, _, items, children,
            ⟨hasMessage, hasInlining, hasEmitter, hasCount, hasLocation⟩, lists, below, rfl⟩
      · rintro ⟨_, header, same, hasHeader, body⟩
        obtain rfl : members = _ := by simpa using same
        refine ⟨header, hasHeader, ?_⟩
        rcases body with ⟨isState, graph, hasGraph, rfl⟩ |
          ⟨notState, details, items, children, reads, lists, below, rfl⟩
        · simp [isState, hasGraph]
        · simp only [notState, ↓reduceIte, bind_eq_ok, pure_eq_ok, Except.ok.injEq, listed_eq_ok]
          exact ⟨_, reads.message, _, reads.inlining, children, ⟨items, lists, below⟩, _,
            reads.emitter, _, reads.count, _, reads.location, rfl⟩
  | _ => simp [readRecord]

theorem readRecords_cons_eq_ok {options : Options} {positions : NameMap Nat} {value : Json}
    {rest : List Json} {records : List Record} :
    readRecords options positions (value :: rest) = .ok records ↔
      ∃ record others, readRecord options positions value = .ok record ∧
        readRecords options positions rest = .ok others ∧ record :: others = records := by
  simp [readRecords]

theorem ofTag_ne_reserved (text tag : String) (isOther : Kind.ofTag text = .other tag) :
    tag ∉ Kind.reserved := by
  simp only [Kind.reserved]
  grind [Kind.ofTag]

theorem readHeader_bounded {positions : NameMap Nat} {members : Members} {header : Header}
    {passCount : Nat}
    (bounded : ∀ id index, positions.get? id = some index → index < passCount)
    (read : readHeader positions members = .ok header) :
    ∀ index, header.pass = some index → index < passCount := by
  intro index named
  obtain ⟨_, readsPass, _⟩ := readHeader_eq_ok.mp read
  rcases readOptional_eq_ok.mp readsPass with ⟨_, absent⟩ | ⟨value, position, _, found, same⟩
  · simp [named] at absent
  · obtain rfl : position = index := by simpa [named] using same
    obtain ⟨id, _, isPosition⟩ := readPassReference_eq_ok.mp found
    exact bounded id position isPosition

theorem readHeader_kind {positions : NameMap Nat} {members : Members} {header : Header}
    (read : readHeader positions members = .ok header) :
    ∀ tag, header.kind = .other tag → tag ∉ Kind.reserved := by
  intro tag isOther
  obtain ⟨⟨text, _, isKind⟩, _⟩ := readHeader_eq_ok.mp read
  exact ofTag_ne_reserved text tag (isKind ▸ isOther)

theorem readRecord_wellFormed {options : Options} {positions : NameMap Nat} {value : Json}
    {record : Record} {passCount : Nat}
    (bounded : ∀ id index, positions.get? id = some index → index < passCount)
    (read : readRecord options positions value = .ok record) : record.WellFormed passCount := by
  obtain ⟨members, header, _, hasHeader, body⟩ := readRecord_eq_ok.mp read
  rcases body with ⟨isState, graph, hasGraph, rfl⟩ |
    ⟨notState, details, items, children, _, _, _, rfl⟩
  · refine ⟨readHeader_bounded bounded hasHeader, by simp [Record.isSnapshot, Record.kind,
      Record.header, isState], readHeader_kind hasHeader, ?_⟩
    intro found isGraph
    rcases readOptional_eq_ok.mp hasGraph with ⟨_, absent⟩ | ⟨source, content, _, reads, same⟩
    · simp [Record.graph?, ← absent] at isGraph
    · obtain rfl : content = found := by simpa [Record.graph?, ← same] using isGraph
      exact readGraph_wellFormed reads
  · exact ⟨readHeader_bounded bounded hasHeader, by simp [Record.isSnapshot, Record.kind,
      Record.header, notState], readHeader_kind hasHeader, by simp [Record.graph?]⟩

theorem readRecord_children {options : Options} {positions : NameMap Nat} {value : Json}
    {record : Record} (read : readRecord options positions value = .ok record) :
    record.children = [] ∨ ∃ members items, value = .object members ∧
      Lists members "children" items ∧
      readRecords options positions items = .ok record.children := by
  obtain ⟨members, header, isObject, _, body⟩ := readRecord_eq_ok.mp read
  rcases body with ⟨_, graph, _, rfl⟩ | ⟨_, details, items, children, _, lists, below, rfl⟩
  · exact Or.inl rfl
  · exact Or.inr ⟨members, items, isObject, lists, below⟩

theorem readRecords_wellFormed {values : List Json} {options : Options}
    {positions : NameMap Nat} {records : List Record} {passCount : Nat}
    (bounded : ∀ id index, positions.get? id = some index → index < passCount)
    (read : readRecords options positions values = .ok records) (depth : Nat) :
    ∀ entry ∈ Record.flattenAll depth records, entry.2.WellFormed passCount := by
  induction values using Json.forestInduction "children" generalizing records depth with
  | nil =>
      simp only [readRecords, Except.ok.injEq] at read
      simp [← read, Record.flattenAll]
  | cons value rest ihBelow ihRest =>
      obtain ⟨record, others, readFirst, readOthers, rfl⟩ := readRecords_cons_eq_ok.mp read
      intro entry member
      simp only [Record.flattenAll, Walk.flatten_eq, List.cons_append, List.mem_cons,
        List.mem_append] at member
      rcases member with rfl | below | later
      · exact readRecord_wellFormed bounded readFirst
      · rcases readRecord_children readFirst with none | ⟨members, items, isObject, lists, readBelow⟩
        · simp [none, Record.flattenAll] at below
        · exact ihBelow members items isObject lists readBelow (depth + 1) entry below
      · exact ihRest readOthers depth entry later

end RemarkAtlas.Document
