import RemarkAtlas.Document.Reader
import RemarkAtlas.Proofs.Document.Grammar
import RemarkAtlas.Proofs.Document.Records

/-!
The readers of fields refuse nothing but what the grammar rules out.
-/

namespace RemarkAtlas

theorem asUInt32?_isSome {value : Json} :
    (∃ number, value.asUInt32? = some number) ↔ Document.IsLineNumber value := by
  cases value with
  | number number =>
      cases number with
      | integer integer =>
          simp only [Json.asUInt32?, Document.IsLineNumber, Document.IsInteger, Json.number.injEq,
            JsonNumber.integer.injEq, exists_eq_left']
          split
          · simp only [Option.some.injEq, exists_eq', true_iff]
            omega
          · simp only [reduceCtorEq, exists_false, false_iff]
            omega
      | double double => simp [Json.asUInt32?, Document.IsLineNumber, Document.IsInteger]
  | _ => simp [Json.asUInt32?, Document.IsLineNumber, Document.IsInteger]

theorem asInt64?_isSome {value : Json} :
    (∃ number, value.asInt64? = some number) ↔
      Document.IsInteger Int64.minValue.toInt Int64.maxValue.toInt value := by
  cases value with
  | number number =>
      cases number with
      | integer integer =>
          simp only [Json.asInt64?, Document.IsInteger, Json.number.injEq,
            JsonNumber.integer.injEq, exists_eq_left']
          split
          · simp only [Option.some.injEq, exists_eq', true_iff]
            omega
          · simp only [reduceCtorEq, exists_false, false_iff]
            omega
      | double double => simp [Json.asInt64?, Document.IsInteger]
  | _ => simp [Json.asInt64?, Document.IsInteger]

namespace Document

variable {α : Type} {part : DocumentPart} {key : String} {members : Members} {value : Json}
  {options : Options}

def Accepts (read : Json → Reading α) (value : Json) : Prop := ∃ result, read value = .ok result

theorem string_accepts (part : DocumentPart) :
    (∃ text, string part key members = .ok text) ↔ Has members key IsString := by
  simp only [string_eq_ok, Has, IsString]
  constructor
  · rintro ⟨text, found⟩
    exact ⟨_, found, text, rfl⟩
  · rintro ⟨_, found, text, rfl⟩
    exact ⟨text, found⟩

theorem scalarText?_isSome : (∃ text, scalarText? value = some text) ↔ IsScalar value := by
  cases value <;> simp [scalarText?, IsScalar, IsString]

theorem scalar_accepts (part : DocumentPart) :
    (∃ text, scalar part key members = .ok text) ↔ Has members key IsScalar := by
  simp only [scalar_eq_ok, Has, ← scalarText?_isSome]
  constructor
  · rintro ⟨text, written, found, isText⟩
    exact ⟨written, found, text, isText⟩
  · rintro ⟨written, found, text, isText⟩
    exact ⟨text, written, found, isText⟩

theorem lineNumber_accepts :
    (∃ number, lineNumber part key members = .ok number) ↔ Has members key IsLineNumber := by
  simp only [lineNumber_eq_ok, Has, ← asUInt32?_isSome]
  constructor
  · rintro ⟨number, written, found, isNumber⟩
    exact ⟨written, found, number, isNumber⟩
  · rintro ⟨written, found, number, isNumber⟩
    exact ⟨number, written, found, isNumber⟩

theorem readOptional_accepts {read : Json → Reading α} {valid : Json → Prop}
    (same : ∀ value, Accepts read value ↔ valid value) :
    (∃ result, readOptional read key members = .ok result) ↔ MayHave members key valid := by
  simp only [MayHave, ← same]
  cases found : members.get? key with
  | none => simp [readOptional, found]
  | some value => simp [readOptional, found, Accepts]

theorem readEach_array_accepts {read : Json → Reading α} {valid : Json → Prop}
    (same : ∀ item, Accepts read item ↔ valid item) :
    (∃ results, array part value >>= readEach read = .ok results) ↔ IsArrayOf valid value := by
  simp only [bind_eq_ok, array_eq_ok, IsArrayOf, ← same, Accepts, ← readEach_accepts]
  constructor
  · rintro ⟨results, items, isArray, read⟩
    exact ⟨items, isArray, results, read⟩
  · rintro ⟨items, isArray, results, read⟩
    exact ⟨results, items, isArray, read⟩

theorem demand_asText?_accepts {rule : Malformation} :
    Accepts (fun value => demand rule value.asText?) value ↔ IsString value := by
  simp [Accepts, IsString]

theorem optionalString_accepts (part : DocumentPart) :
    (∃ text, optionalString part key members = .ok text) ↔ MayHave members key IsString :=
  readOptional_accepts fun _ => demand_asText?_accepts

theorem names_accepts : Accepts (names part) value ↔ IsArrayOf IsString value := by
  have texts : (∃ texts, array part value >>= readEach
      (fun item => demand (.notStrings part) item.asText?) = .ok texts) ↔
        IsArrayOf IsString value :=
    readEach_array_accepts fun _ => demand_asText?_accepts
  simp only [← texts, Accepts, names, bind_eq_ok]
  constructor
  · rintro ⟨_, items, isArray, texts, read, _⟩
    exact ⟨texts, items, isArray, read⟩
  · rintro ⟨texts, items, isArray, read⟩
    exact ⟨_, items, isArray, texts, read, rfl⟩

theorem optionalNames_accepts (part : DocumentPart) :
    (∃ set, optionalNames part key members = .ok set) ↔
      MayHave members key (IsArrayOf IsString) := by
  have sets : (∃ set, readOptional (names part) key members = .ok set) ↔
      MayHave members key (IsArrayOf IsString) :=
    readOptional_accepts fun _ => names_accepts
  rw [← sets]
  simp [optionalNames]

theorem readLocation_accepts : Accepts readLocation value ↔ ValidLocation value := by
  simp [Accepts, readLocation, ValidLocation, -string_eq_ok, -lineNumber_eq_ok, string_accepts,
    lineNumber_accepts]

theorem readEmitter_accepts : Accepts readEmitter value ↔ ValidEmitter value := by
  simp [Accepts, readEmitter, ValidEmitter, -string_eq_ok, -lineNumber_eq_ok, string_accepts,
    lineNumber_accepts]

theorem countValue?_isSome : (∃ count, countValue? value = some count) ↔ NotNegative value := by
  cases value with
  | number number =>
      cases number with
      | integer integer => simp [countValue?, NotNegative]
      | double double =>
          cases negative : double.negative <;> cases zero : double.isZero <;>
            simp [countValue?, NotNegative, negative, zero]
  | _ => simp [countValue?, NotNegative]

theorem readCount_eq_ok {count : Count} :
    readCount value = .ok count ↔
      ∃ members : Members, value = .object members ∧
        string .count "quality" members = .ok count.quality ∧
        ∃ written, members.get? "value" = some written ∧
          countValue? written = some count.value := by
  simp only [readCount, bind_eq_ok, object_eq_ok, required_eq_ok]
  constructor
  · rintro ⟨members, isObject, quality, hasQuality, written, found, result⟩
    split at result
    · rename_i number isNumber
      obtain rfl : Count.mk quality number = count := by simpa using result
      exact ⟨members, isObject, hasQuality, written, found, isNumber⟩
    · simp at result
  · rintro ⟨members, isObject, hasQuality, written, found, isNumber⟩
    exact ⟨members, isObject, _, hasQuality, written, found, by simp [isNumber]⟩

theorem readCount_accepts : Accepts readCount value ↔ ValidCount value := by
  simp only [Accepts, readCount_eq_ok, ValidCount]
  constructor
  · rintro ⟨count, members, isObject, quality, written, found, isNumber⟩
    exact ⟨members, isObject, (string_accepts _).mp ⟨_, quality⟩, written, found,
      countValue?_isSome.mp ⟨_, isNumber⟩⟩
  · rintro ⟨members, isObject, hasQuality, written, found, notNegative⟩
    obtain ⟨quality, isQuality⟩ := (string_accepts .count).mpr hasQuality
    obtain ⟨number, isNumber⟩ := countValue?_isSome.mpr notNegative
    exact ⟨⟨quality, number⟩, members, isObject, isQuality, written, found, isNumber⟩

theorem readFrame_accepts : Accepts readFrame value ↔ ValidFrame value := by
  simp [Accepts, readFrame, ValidFrame, -string_eq_ok, string_accepts,
    readOptional_accepts fun _ => readLocation_accepts]

theorem readGenerator_accepts : Accepts readGenerator value ↔ ValidGenerator value := by
  simp [Accepts, readGenerator, ValidGenerator, -scalar_eq_ok, scalar_accepts]

theorem firstKey_accepts {key : String} {others : Option String} :
    (∃ chosen, (if (members.get? key).isSome then some key else others) = some chosen ∧
        Has members chosen IsString) ↔
      Has members key IsString ∨ Lacks members key ∧
        ∃ chosen, others = some chosen ∧ Has members chosen IsString := by
  cases found : members.get? key with
  | none => simp [Has, Lacks, found]
  | some value => simp [Has, Lacks, found]

theorem itemKey?_accepts :
    (∃ key, itemKey? options members = some key ∧ Has members key IsString) ↔
      HasItemText options members := by
  simp only [itemKey?, firstKey_accepts, HasItemText]
  cases options.nameAsSymbol with
  | false => simp
  | true =>
      simp only [Bool.true_and, firstKey_accepts]
      simp

theorem readItem_accepts : Accepts (readItem options) value ↔ ValidItem options value := by
  cases value with
  | string text => simp [Accepts, readItem, ValidItem, IsString]
  | object members =>
      have location : (∃ location, readOptional readLocation "location" members = .ok location) ↔
          MayHave members "location" ValidLocation :=
        readOptional_accepts fun _ => readLocation_accepts
      simp only [Accepts, readItem, ValidItem, IsString, reduceCtorEq, exists_false, false_or,
        Json.object.injEq, exists_eq_left', ← location, ← itemKey?_accepts, bind_eq_ok]
      constructor
      · rintro ⟨item, location, readsLocation, result⟩
        split at result
        · rename_i key isKey
          simp only [bind_eq_ok] at result
          obtain ⟨text, readsText, _⟩ := result
          exact ⟨⟨location, readsLocation⟩, key, isKey, (string_accepts _).mp ⟨text, readsText⟩⟩
        · simp at result
      · rintro ⟨⟨location, readsLocation⟩, key, isKey, hasText⟩
        obtain ⟨text, readsText⟩ := (string_accepts .messageItem).mpr hasText
        exact ⟨itemOfKey key text location, location, readsLocation, by simp [isKey, readsText]⟩
  | _ => simp [Accepts, readItem, ValidItem, IsString]

theorem readMessage_accepts :
    (∃ message, readMessage options members = .ok message) ↔
      Has members "message" (IsArrayOf (ValidItem options)) := by
  have items : ∀ value, (∃ message, array .message value >>= readEach (readItem options) =
      .ok message) ↔ IsArrayOf (ValidItem options) value :=
    fun _ => readEach_array_accepts fun _ => readItem_accepts
  simp only [readMessage, Has, ← items, bind_eq_ok, required_eq_ok]
  constructor
  · rintro ⟨message, value, found, reads⟩
    exact ⟨value, found, message, reads⟩
  · rintro ⟨value, found, message, reads⟩
    exact ⟨message, value, found, reads⟩

theorem readInlining_accepts :
    (∃ inlining, readInlining members = .ok inlining) ↔
      MayHave members "inlining_chain" (IsArrayOf ValidFrame) :=
  readOptional_accepts fun _ => readEach_array_accepts fun _ => readFrame_accepts

end Document

end RemarkAtlas
