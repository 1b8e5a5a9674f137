import RemarkAtlas.Document.Reader
import RemarkAtlas.Document.Writer
import RemarkAtlas.Proofs.Document.Reading

/-!
Reading gives back what was written, for the parts of a document that hold no other records or
passes.
-/

namespace RemarkAtlas

@[simp] theorem asUInt32?_natural (value : UInt32) :
    (Json.natural value.toNat).asUInt32? = some value := by
  have bound := value.toNat_lt_size
  have fits : (0 : Int) ≤ value.toNat ∧ (value.toNat : Int) < UInt32.size := by omega
  rw [Json.natural, Json.asUInt32?, if_pos fits]
  simp

@[simp] theorem asInt64?_integer (value : Int64) :
    (Json.number (.integer value.toInt)).asInt64? = some value := by
  rw [Json.asInt64?, if_pos ⟨value.minValue_le_toInt, value.toInt_le⟩]
  simp

namespace Document

@[simp] theorem get?_optionalMember {α : Type} (key other : String) (write : α → Json)
    (content : Option α) :
    Members.get? key (optionalMember other write content) =
      if key = other then content.map write else none := by
  cases content <;> simp [optionalMember]

/-- An optional member is read back, whether it is there or not. -/
theorem readOptional_written {α : Type} {read : Json → Reading α} {write : α → Json}
    {key : String} {members : Members} {content : Option α}
    (found : members.get? key = content.map write)
    (inverse : ∀ value, content = some value → read (write value) = .ok value) :
    readOptional read key members = .ok content := by
  refine readOptional_eq_ok.mpr ?_
  cases content with
  | none => exact Or.inl ⟨by simpa using found, rfl⟩
  | some value =>
      exact Or.inr ⟨write value, value, by simpa using found, inverse value rfl, rfl⟩

theorem names_writeNames (part : DocumentPart) (set : NameSet) :
    names part (writeNames set) = .ok set := by
  have texts : readEach (fun item => demand (.notStrings part) item.asText?)
      (set.toList.map .string) = .ok set.toList :=
    readEach_map fun text _ => rfl
  simp [names, writeNames, texts, NameSet.ofList_toList]

theorem optionalNames_written {part : DocumentPart} {key : String} {members : Members}
    {set : NameSet} (found : members.get? key = some (writeNames set)) :
    optionalNames part key members = .ok set := by
  have read : readOptional (names part) key members = .ok (some set) :=
    readOptional_written (by simpa using found) fun value same => by
      obtain rfl : set = value := by simpa using same
      exact names_writeNames part set
  simp [optionalNames, read]

theorem readLocation_writeLocation (location : Location) :
    readLocation (writeLocation location) = .ok location := by
  simp [readLocation, writeLocation]

theorem readOptional_location {key : String} {members : Members} {location : Option Location}
    (found : members.get? key = location.map writeLocation) :
    readOptional readLocation key members = .ok location :=
  readOptional_written found fun place _ => readLocation_writeLocation place

theorem readEmitter_writeEmitter (location : CompilerLocation) :
    readEmitter (writeEmitter location) = .ok location := by
  simp [readEmitter, writeEmitter]

theorem countValue?_natural (value : UInt64) :
    countValue? (.natural value.toNat) = some value := by
  have limited : min value.toNat greatestCount = value.toNat := by
    have bound := value.toNat_lt_size
    simp only [greatestCount]
    omega
  simp [countValue?, Json.natural, limited]

theorem readCount_writeCount (count : Count) : readCount (writeCount count) = .ok count := by
  simp [readCount, writeCount, countValue?_natural]

theorem readFrame_writeFrame (frame : InliningFrame) :
    readFrame (writeFrame frame) = .ok frame := by
  have site : readOptional readLocation "site"
      (("fndecl", .string frame.function) :: optionalMember "site" writeLocation frame.site) =
        .ok frame.site :=
    readOptional_location (by simp)
  simp [readFrame, writeFrame, site]

theorem readItem_writeItem (options : Options) (item : MessageItem) :
    readItem options (writeItem item) = .ok item := by
  cases item with
  | plain text => rfl
  | expression text location =>
      have place : readOptional readLocation "location"
          (("expr", .string text) :: optionalMember "location" writeLocation location) =
            .ok location :=
        readOptional_location (by simp)
      simp [readItem, writeItem, place, itemKey?, itemOfKey]
  | statement text location =>
      have place : readOptional readLocation "location"
          (optionalMember "location" writeLocation location ++ [("stmt", .string text)]) =
            .ok location :=
        readOptional_location (by simp)
      simp [readItem, writeItem, place, itemKey?, itemOfKey]
  | symbol text location =>
      have place : readOptional readLocation "location"
          (optionalMember "location" writeLocation location ++ [("symtab_node", .string text)]) =
            .ok location :=
        readOptional_location (by simp)
      simp [readItem, writeItem, place, itemKey?, itemOfKey]

theorem readGenerator_writeGenerator (generator : Generator) :
    readGenerator (writeGenerator generator) = .ok generator := by
  simp [readGenerator, writeGenerator, scalarText?]

end Document

end RemarkAtlas
