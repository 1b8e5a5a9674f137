import Mathlib.Data.List.Nodup
import RemarkAtlas.Proofs.Json.Cut
import RemarkAtlas.Proofs.Json.Outlines
import RemarkAtlas.Proofs.Json.Pieces
import RemarkAtlas.Report.SummaryReader

/-!
Reading a summary back from its text.  The members of every structure are told apart by their names,
so it does not matter which of them were left out.
-/

namespace RemarkAtlas

namespace SummaryReader

theorem readMembers_outlines (members : Members) :
    readMembers (Json.memberOutlines members) =
      some (members.map fun member => (member.1, member.2.outline)) := by
  induction members with
  | nil => rfl
  | cons member members ih =>
      obtain ⟨key, value⟩ := member
      rw [Json.memberOutlines, readMembers, JsonString.ofBody?_body, ih]
      rfl

theorem lookup_outlines (members : Members) (key : String) :
    (members.map fun member => (member.1, member.2.outline)).lookup key =
      (members.get? key).map Json.outline := by
  induction members with
  | nil => rfl
  | cons member members ih =>
      obtain ⟨other, value⟩ := member
      rw [List.map_cons, List.lookup_cons, ih, Members.get?_cons]
      grind

/-- The fields of an object whose members have different names. -/
theorem fields?_object {keys : List String} {members : Members}
    (distinct : (members.map Prod.fst).Nodup) :
    fields? keys (Json.outline (.object members)) =
      some (keys.map fun key => (members.get? key).map Json.outline) := by
  have once : ∀ key, (members.map fun member => (member.1, member.2.outline)).countP
      (·.1 == key) ≤ 1 := by
    intro key
    have count : (members.map fun member => (member.1, member.2.outline)).countP (·.1 == key) =
        (members.map Prod.fst).count key := by
      rw [List.count, List.countP_map, List.countP_map]
      rfl
    rw [count]
    exact List.nodup_iff_count_le_one.mp distinct key
  have allOnce : (keys.all fun key => (members.map fun member => (member.1, member.2.outline)).countP
      (·.1 == key) ≤ 1) = true :=
    List.all_eq_true.mpr fun key _ => decide_eq_true (once key)
  rw [Json.outline, fields?, readMembers_outlines]
  dsimp only [Option.bind_eq_bind, Option.bind_some]
  rw [if_pos allOnce]
  simp only [lookup_outlines]
  rfl

theorem text?_outline (text : String) : text? (Json.outline (.string text)) = some text :=
  JsonString.ofBody?_body text

theorem natural?_outline {limit value : Nat} (fits : value < limit) (small : limit ≤ UInt64.size) :
    natural? limit (Json.outline (.natural value)) = some value := by
  have isInteger : (JsonLiteral.ofNat value).integer? = some (.ofNat value) :=
    JsonLiteral.integer?_ofNat (Nat.lt_of_lt_of_le fits small)
  have outline_eq : Json.outline (.natural value) = .number (JsonLiteral.ofNat value) := rfl
  rw [outline_eq, natural?, isInteger]
  exact if_pos fits

theorem word?_outline (value : UInt64) :
    word? (Json.outline (Summary.wordJson value)) = some value := by
  rw [word?, Summary.wordJson, natural?_outline value.toNat_lt_size (Nat.le_refl _)]
  simp

theorem lineNumber?_outline (value : UInt32) :
    lineNumber? (Json.outline (.natural value.toNat)) = some value := by
  rw [lineNumber?, natural?_outline value.toNat_lt_size (by decide)]
  simp

structure Undoes {Value : Type} (read : Outline → Option Value) (write : Value → Json) : Prop where
  reads (value : Value) : read (write value).outline = some value
  notNull (value : Value) : (write value).outline ≠ .null

theorem Undoes.optional {Value : Type} {read : Outline → Option Value} {write : Value → Json}
    (undoes : Undoes read write) (value? : Option Value) :
    optional? read (value?.map (Json.outline ∘ write)) = some value? := by
  cases value? with
  | none => rfl
  | some value =>
      have present : optional? read (some (write value).outline) =
          (read (write value).outline).map some := by
        have notNull := undoes.notNull value
        cases written : (write value).outline with
        | null => exact absurd written notNull
        | _ => rfl
      rw [Option.map_some, Function.comp_apply, present, undoes.reads]
      rfl

theorem list?_outline {Value : Type} {read : Outline → Option Value} {write : Value → Json}
    {values : List Value} (reads : ∀ value ∈ values, read (write value).outline = some value) :
    list? read (Json.outline (.array (values.map write))) = some values := by
  rw [Json.outline, list?]
  induction values with
  | nil => rfl
  | cons value values ih =>
      obtain ⟨first, others⟩ := List.forall_mem_cons.mp reads
      rw [List.map_cons, Json.outlines, readItems, first, ih others]
      rfl

theorem undoes_text : Undoes text? .string where
  reads := text?_outline
  notNull text := by simp [Json.outline]

theorem undoes_word : Undoes word? Summary.wordJson where
  reads := word?_outline
  notNull value := by simp [Summary.wordJson, Json.natural, Json.outline]

end SummaryReader

namespace Summary

open SummaryReader

theorem keys_optionalMember {Value : Type} (key : String) (write : Value → Json)
    (value? : Option Value) :
    ((optionalMember key write value?).map Prod.fst).Sublist [key] := by
  cases value? with
  | none => exact List.nil_sublist _
  | some value => exact List.Sublist.refl _

theorem keys_append {left right : Members} {keys others : List String}
    (named : (left.map Prod.fst).Sublist keys) (more : (right.map Prod.fst).Sublist others) :
    ((left ++ right).map Prod.fst).Sublist (keys ++ others) := by
  rw [List.map_append]
  exact named.append more

theorem get?_optionalMember {Value : Type} (key other : String) (write : Value → Json)
    (value? : Option Value) :
    Members.get? key (optionalMember other write value?) =
      if key = other then value?.map write else none := by
  cases value? <;> simp [optionalMember]

theorem undoes_location : Undoes location? locationJson where
  reads location := by
    rw [location?, locationJson, fields?_object (by simp)]
    simp [text?_outline, lineNumber?_outline]
  notNull location := by simp [locationJson, Json.outline]

theorem undoes_function : Undoes function? functionJson where
  reads entry := by
    have name : ([("name", .string entry.name)] : Members).map Prod.fst |>.Sublist ["name"] :=
      .refl _
    have keys := keys_append (keys_append (keys_append (keys_append name
      (keys_optionalMember "translation_unit" .string entry.unit))
      (keys_optionalMember "hotness" wordJson entry.hotness))
      (keys_optionalMember "source_file" .string entry.sourceFile))
      (keys_optionalMember "peak_location" locationJson entry.peak)
    rw [function?, functionJson, fields?_object (keys.nodup (by decide))]
    simp [get?_optionalMember, text?_outline, undoes_text.optional, undoes_word.optional,
      undoes_location.optional]
  notNull entry := by simp [functionJson, Json.outline]

theorem undoes_record : Undoes record? recordJson where
  reads record := by
    have kind : ([("kind", .string record.kind)] : Members).map Prod.fst |>.Sublist ["kind"] :=
      .refl _
    have message : ([("message", .string record.message)] : Members).map Prod.fst |>.Sublist
        ["message"] := .refl _
    have keys := keys_append (keys_append (keys_append (keys_append (keys_append kind
      (keys_optionalMember "pass" .string record.pass))
      (keys_optionalMember "function" .string record.function))
      (keys_optionalMember "location" locationJson record.location))
      (keys_optionalMember "count" wordJson record.count)) message
    rw [record?, recordJson, fields?_object (keys.nodup (by decide))]
    simp [get?_optionalMember, text?_outline, undoes_text.optional, undoes_word.optional,
      undoes_location.optional]
  notNull record := by simp [recordJson, Json.outline]

structure Fits (summary : Summary) : Prop where
  unitCount : summary.unitCount < UInt64.size
  passes : ∀ pass ∈ summary.passes, pass.topLevel < UInt64.size ∧ pass.total < UInt64.size

theorem pass?_outline {pass : PassSummary}
    (fits : pass.topLevel < UInt64.size ∧ pass.total < UInt64.size) :
    pass? (passJson pass).outline = some pass := by
  obtain ⟨name, topLevel, total⟩ := pass
  obtain ⟨topLevelFits, totalFits⟩ := fits
  have topLevelReads := natural?_outline topLevelFits (Nat.le_refl _)
  have totalReads := natural?_outline totalFits (Nat.le_refl _)
  rw [pass?, passJson, fields?_object (by simp)]
  cases name with
  | none => simp [topLevelReads, totalReads, Json.outline, optional?]
  | some name =>
      have nameReads := undoes_text.optional (some name)
      rw [Option.map_some, Function.comp_apply] at nameReads
      simp [topLevelReads, totalReads, nameReads]

variable {summary : Summary}

theorem summary?_outline (fits : summary.Fits) :
    summary? summary.toJson.outline = some summary := by
  have functions : list? function? (Json.outline (.array (summary.functions.map functionJson))) =
      some summary.functions := list?_outline fun entry _ => undoes_function.reads entry
  have passes : list? pass? (Json.outline (.array (summary.passes.map passJson))) =
      some summary.passes := list?_outline fun pass member => pass?_outline (fits.passes pass member)
  have hottest : list? record? (Json.outline (.array (summary.hottest.map recordJson))) =
      some summary.hottest := list?_outline fun record _ => undoes_record.reads record
  have preciseOnly : bool? (Json.outline (.bool summary.preciseOnly)) =
      some summary.preciseOnly := rfl
  rw [summary?, toJson, fields?_object (by simp)]
  simp [text?_outline, natural?_outline fits.unitCount (Nat.le_refl _), functions, passes,
    hottest, preciseOnly]

/-! The text of a summary -/

theorem isPlain_optionalMember {Value : Type} (key : String) {write : Value → Json}
    (plain : ∀ value, (write value).IsPlain) (value? : Option Value) :
    ∀ member ∈ optionalMember key write value?, member.2.IsPlain := by
  cases value? with
  | none => exact fun member isMember => nomatch isMember
  | some value => exact List.forall_mem_singleton.mpr (plain value)

theorem isPlain_word (value : UInt64) : (wordJson value).IsPlain := .natural value.toNat_lt_size

theorem isPlain_location (location : Location) : (locationJson location).IsPlain := by
  have small : UInt32.size ≤ JsonLiteral.wordLimit := by decide
  have line := Json.IsPlain.natural (Nat.lt_of_lt_of_le location.line.toNat_lt_size small)
  have column := Json.IsPlain.natural (Nat.lt_of_lt_of_le location.column.toNat_lt_size small)
  refine .object ?_
  simp [Json.IsPlain.string, line, column]

theorem isPlain_function (entry : FunctionEntry) : (functionJson entry).IsPlain := by
  refine .object ?_
  simp only [List.forall_mem_append, List.forall_mem_singleton]
  exact ⟨⟨⟨⟨.string _, isPlain_optionalMember _ .string _⟩, isPlain_optionalMember _ isPlain_word _⟩,
    isPlain_optionalMember _ .string _⟩, isPlain_optionalMember _ isPlain_location _⟩

theorem isPlain_record (record : HotRecord) : (recordJson record).IsPlain := by
  refine .object ?_
  simp only [List.forall_mem_append, List.forall_mem_singleton]
  exact ⟨⟨⟨⟨⟨.string _, isPlain_optionalMember _ .string _⟩, isPlain_optionalMember _ .string _⟩,
    isPlain_optionalMember _ isPlain_location _⟩, isPlain_optionalMember _ isPlain_word _⟩, .string _⟩

theorem isPlain_pass {pass : PassSummary}
    (fits : pass.topLevel < UInt64.size ∧ pass.total < UInt64.size) : (passJson pass).IsPlain := by
  obtain ⟨name, topLevel, total⟩ := pass
  have named : ∀ value : Json, value.IsPlain → (Json.object [("name", value),
      ("top_level", .natural topLevel), ("total", .natural total)]).IsPlain := by
    intro value plain
    refine .object ?_
    simp only [List.forall_mem_cons]
    exact ⟨plain, .natural fits.1, .natural fits.2, List.forall_mem_nil _⟩
  cases name with
  | none => exact named _ .null
  | some name => exact named _ (.string name)

theorem isPlain_list {Value : Type} {write : Value → Json} {values : List Value}
    (plain : ∀ value ∈ values, (write value).IsPlain) : (Json.array (values.map write)).IsPlain :=
  .array (List.forall_mem_map.mpr plain)

theorem isPlain_toJson (fits : summary.Fits) : summary.toJson.IsPlain := by
  refine .object ?_
  simp only [List.forall_mem_cons]
  exact ⟨.string _, .natural fits.unitCount, .bool _,
    isPlain_list fun entry _ => isPlain_function entry,
    isPlain_list fun pass member => isPlain_pass (fits.passes pass member),
    isPlain_list fun record _ => isPlain_record record, .string _, List.forall_mem_nil _⟩

theorem ofBytes?_render (fits : summary.Fits) :
    SummaryReader.ofBytes? (Utf8.encode summary.render) = some summary := by
  rw [SummaryReader.ofBytes?, render, Json.outline?_pretty (isPlain_toJson fits) 0,
    Option.bind_some, summary?_outline fits]

theorem flatten_pieces (summary : Summary) :
    summary.pieces.flatten = Utf8.encode summary.render := by
  rw [pieces, ← List.flatMap_def, Json.flatMap_pieces, render]

/-- A part of the text that lacks its end is no summary. -/
theorem ofBytes?_cut (fits : summary.Fits) {part : Bytes}
    (isPrefix : part <+: Utf8.encode summary.render) (cut : part ≠ Utf8.encode summary.render) :
    SummaryReader.ofBytes? part = none := by
  obtain ⟨inner, braces⟩ : ∃ inner, Utf8.encode summary.render = 0x7b :: inner ++ [0x7d] := by
    rw [render, toJson, Json.pretty]
    simp only [Utf8.encode_append]
    exact ⟨_, rfl⟩
  obtain ⟨rest, isText⟩ := isPrefix
  have nonempty : rest ≠ [] := by
    rintro rfl
    exact cut ((List.append_nil part).symm.trans isText)
  have reads : Outline.ofBytes? (part ++ rest) = some summary.toJson.outline := by
    rw [isText, render, Json.outline?_pretty (isPlain_toJson fits) 0]
  rw [SummaryReader.ofBytes?, Outline.ofBytes?_cut (isText.trans braces) nonempty reads,
    Option.bind_none]

end Summary

end RemarkAtlas
