import Mathlib.Data.List.Nodup
import RemarkAtlas.Html.Source
import RemarkAtlas.Proofs.Corpus.Ranking
import RemarkAtlas.Proofs.Html.Tables
import RemarkAtlas.Proofs.Order.Groups

/-!
What a reader finds on the page of a source file.  The page goes through lines, each once, and shows
under the anchor of a line the records that are on it; every line with a record is among them,
whatever the file on disk looks like.
-/

namespace RemarkAtlas

namespace Sighting

def file? (sighting : Sighting) : Option String := sighting.location?.map (·.file)

def line? (sighting : Sighting) : Option UInt32 := sighting.location?.map (·.line)

end Sighting

namespace Html

def onLine (line : UInt32) (records : List Sighting) : List Sighting :=
  Groups.having Sighting.line? line records

def lineAt (index : Nat) : UInt32 := UInt32.ofNat (index + 1)

def shownLines (records : List Sighting) (source : Option String) : List UInt32 :=
  let recordLines := (Corpus.byLine records).map Prod.fst
  match source with
  | some text =>
    let lineCount := (Text.lines text).length
    (List.range lineCount).map lineAt ++ recordLines.filter (isOutside lineCount)
  | none => recordLines

section Reading

variable (policy : PrecisionPolicy) (sources : CompilerSources) (records : List Sighting)

def lineRows (line : UInt32) : List String :=
  (Ranking.rank policy (onLine line records)).map (rowText policy sources)

theorem shows_anchor (element : String) {start : String}
    (isStart : start = "<" ++ element ++ " " ++ "id" ++ "=\"")
    (fits : '>' ∉ element.toList ∧ ' ' ∉ element.toList) (line : UInt32) :
    Shows (start ++ lineAnchor line ++ "\">") [] [lineAnchor line] := by
  have noQuote : '"' ∉ (lineAnchor line).toList :=
    fun member => (clean_lineAnchor line '"' member).2.2 rfl
  have notBlank : ∀ char ∈ element.toList, (char != ' ') = true := by
    intro char member
    exact bne_iff_ne.mpr fun same => fits.2 (same ▸ member)
  have noClass : (Token.withAttribute element "id" (lineAnchor line)).attribute? "class" = none := by
    simp only [Token.withAttribute, Token.attribute?, String.toList_append, List.append_assoc]
    rw [List.dropWhile_append_of_pos notBlank]
    simp [Text.afterStart?]
  have spells := spells_start isStart (by simpa using fits.1) (clean_lineAnchor line)
  have shows := Shows.of_tokens spells (by simp [opensRecordRow, noClass])
  simpa [Token.attribute?_withAttribute fits.2 "id" noQuote] using shows

theorem shows_lineRow (line : UInt32) (text : String) :
    Shows (lineRow line text) [] [lineAnchor line] := by
  have number : Shows (cell (toString line.toNat)) [] [] := (Clean.toString _).shows.cell
  have shown : Shows (cell ("<pre>" ++ escape text ++ "</pre>")) [] [] :=
    (((Inline.tag "pre" (by decide)).append (Clean.escape text).inline).append
      (Inline.tag "/pre" (by decide))).shows.cell
  have finish : Shows "</tr>\n" [] [] := .fixed (by decide) (by decide)
  have start : Shows ("<tr id=\"" ++ lineAnchor line ++ "\">") [] [lineAnchor line] :=
    shows_anchor "tr" rfl (by decide) line
  exact ((start.append number).append shown).append finish

theorem shows_lineTable (group : List Sighting) :
    Shows (lineTable policy sources group)
      ((Ranking.rank policy group).map (rowText policy sources)) [] := by
  rw [lineTable]
  exact shows_recordsTable policy sources _

theorem shows_lineRecords (line : UInt32) :
    Shows (lineRecords policy sources (Corpus.byLine records) line)
      (lineRows policy sources records line) [] := by
  have found : ((Corpus.byLine records).lookup line).getD [] = onLine line records :=
    Groups.getD_lookup_byKey Sighting.line? records line
  rw [lineRecords, lineRows, ← found]
  cases (Corpus.byLine records).lookup line with
  | none => simpa [Ranking.rank, Ranking.rankBy] using Shows.nothing
  | some group =>
      have start : Shows "<tr>" [] [] := .fixed (by decide) (by decide)
      have finish : Shows "</tr>\n" [] [] := .fixed (by decide) (by decide)
      have shown := (shows_lineTable policy sources group).cell
      have both := (Shows.nothing.cell.append shown).between start finish
      simpa [row, String.join_cons] using both

theorem shows_lineSection {group : UInt32 × List Sighting} (member : group ∈ Corpus.byLine records) :
    Shows (lineSection policy sources group) (lineRows policy sources records group.1)
      [lineAnchor group.1] := by
  have group_eq : group.2 = onLine group.1 records := (Groups.mem_byKey.mp member).2
  have start : Shows ("<h2 id=\"" ++ lineAnchor group.1 ++ "\">") [] [lineAnchor group.1] :=
    shows_anchor "h2" rfl (by decide) group.1
  have label : Shows "Line " [] [] := .fixed (by decide) (by decide)
  have number : Shows (toString group.1.toNat) [] [] := (Clean.toString _).shows
  have finish : Shows "</h2>\n" [] [] := .fixed (by decide) (by decide)
  have shown := shows_lineTable policy sources group.2
  have ending : "\">Line " = "\">" ++ "Line " := rfl
  have whole := (((start.append label).append number).append finish).append shown
  simpa [lineSection, lineRows, ending, group_eq, String.append_assoc] using whole

theorem shows_listing (lines : List String) :
    Shows (listing policy sources (Corpus.byLine records) lines)
      (((List.range lines.length).map lineAt).flatMap (lineRows policy sources records))
      (((List.range lines.length).map lineAt).map lineAnchor) := by
  have shows := Shows.join fun (entry : String × Nat) (_ : entry ∈ lines.zipIdx) =>
    (shows_lineRow (lineAt entry.2) entry.1).append
      (shows_lineRecords policy sources records (lineAt entry.2))
  have indices : lines.zipIdx.map Prod.snd = List.range lines.length := by
    rw [List.zipIdx_map_snd, List.range_eq_range']
  rw [← indices, List.map_map, List.flatMap_map, List.map_map]
  simp only [List.nil_append, List.append_nil, ← List.map_eq_flatMap] at shows
  exact shows

theorem shows_sections (groups : List (UInt32 × List Sighting))
    (fromRecords : ∀ group ∈ groups, group ∈ Corpus.byLine records) :
    Shows (String.join (groups.map (lineSection policy sources)))
      ((groups.map Prod.fst).flatMap (lineRows policy sources records))
      ((groups.map Prod.fst).map lineAnchor) := by
  have shows := Shows.join fun group member =>
    shows_lineSection policy sources records (fromRecords group member)
  rw [← List.map_eq_flatMap, ← List.flatMap_map] at shows
  rw [List.map_map]
  exact shows

theorem shows_sourceBody (source : Option String) :
    Shows (sourceBody policy sources records source)
      ((shownLines records source).flatMap (lineRows policy sources records))
      ((shownLines records source).map lineAnchor) := by
  cases source with
  | none => exact shows_sections policy sources records _ fun group member => member
  | some text =>
      have lines := shows_listing policy sources records (Text.lines text)
      have outside := shows_sections policy sources records
        ((Corpus.byLine records).filter fun group => isOutside (Text.lines text).length group.1)
        fun group member => (List.mem_filter.mp member).1
      have whole := (lines.table Shows.nothing).append outside
      have outsideLines : ((Corpus.byLine records).map Prod.fst).filter
          (isOutside (Text.lines text).length) =
            ((Corpus.byLine records).filter fun group =>
              isOutside (Text.lines text).length group.1).map Prod.fst := by
        rw [List.filter_map]
        rfl
      rw [shownLines, outsideLines, List.flatMap_append, List.map_append]
      exact whole

end Reading

section Covering

variable {records : List Sighting} {source : Option String}

theorem toNat_lineAt {lineCount index : Nat} (fits : lineCount < UInt32.size)
    (inside : index < lineCount) : (lineAt index).toNat = index + 1 := by
  rw [lineAt, UInt32.toNat_ofNat_of_lt' (by omega)]

theorem nodup_inside {lineCount : Nat} (fits : lineCount < UInt32.size) :
    ((List.range lineCount).map lineAt).Nodup := by
  refine List.Nodup.map_on ?_ List.nodup_range
  intro left leftInside right rightInside same
  have numbers := congrArg UInt32.toNat same
  rw [toNat_lineAt fits (List.mem_range.mp leftInside),
    toNat_lineAt fits (List.mem_range.mp rightInside)] at numbers
  omega

theorem isOutside_iff {lineCount : Nat} (fits : lineCount < UInt32.size) (line : UInt32) :
    isOutside lineCount line = true ↔ line ∉ (List.range lineCount).map lineAt := by
  have zero : line = 0 ↔ line.toNat = 0 := by
    rw [← UInt32.toNat_inj]
    rfl
  rw [isOutside, Bool.or_eq_true, beq_iff_eq, decide_eq_true_eq, zero]
  constructor
  · intro outside member
    obtain ⟨index, inside, rfl⟩ := List.mem_map.mp member
    have inside := List.mem_range.mp inside
    rw [toNat_lineAt fits inside] at outside
    omega
  · intro absent
    by_contra inside
    have bounds : line.toNat ≠ 0 ∧ line.toNat ≤ lineCount := by omega
    refine absent (List.mem_map.mpr ⟨line.toNat - 1, List.mem_range.mpr (by omega), ?_⟩)
    rw [← UInt32.toNat_inj, toNat_lineAt fits (by omega)]
    omega

def Fits (source : Option String) : Prop :=
  ∀ text, source = some text → (Text.lines text).length < UInt32.size

instance (source : Option String) : Decidable (Fits source) :=
  match source with
  | none => .isTrue (by simp [Fits])
  | some text =>
    decidable_of_iff ((Text.lines text).length < UInt32.size)
      ⟨fun few _ isText => Option.some.inj isText ▸ few, fun fits => fits text rfl⟩

theorem nodup_shownLines (fits : Fits source) : (shownLines records source).Nodup := by
  have recordLines : ((Corpus.byLine records).map Prod.fst).Nodup :=
    Groups.nodup_keys Sighting.line? records
  cases source with
  | none => exact recordLines
  | some text =>
      refine List.nodup_append.mpr ⟨nodup_inside (fits text rfl), recordLines.filter _, ?_⟩
      rintro line inside _ outside rfl
      exact (isOutside_iff (fits text rfl) line).mp (List.mem_filter.mp outside).2 inside

theorem mem_shownLines_iff (fits : Fits source) {line : UInt32} :
    line ∈ shownLines records source ↔
      (∃ record ∈ records, record.line? = some line) ∨
        ∃ text, source = some text ∧ isOutside (Text.lines text).length line = false := by
  have recordLine : line ∈ (Corpus.byLine records).map Prod.fst ↔
      ∃ record ∈ records, record.line? = some line := Groups.mem_keys
  cases source with
  | none => simpa [shownLines] using recordLine
  | some text =>
      have inside : line ∈ (List.range (Text.lines text).length).map lineAt ↔
          isOutside (Text.lines text).length line = false := by
        rw [← Bool.not_eq_true, isOutside_iff (fits text rfl), not_not]
      simp only [shownLines, List.mem_append, List.mem_filter, inside, recordLine,
        Option.some.injEq, exists_eq_left']
      cases isOutside (Text.lines text).length line <;> simp

theorem mem_shownLines (fits : Fits source) {record : Sighting} {line : UInt32}
    (member : record ∈ records) (located : record.line? = some line) :
    line ∈ shownLines records source :=
  (mem_shownLines_iff fits).mpr (Or.inl ⟨record, member, located⟩)

end Covering

def shownRecords (policy : PrecisionPolicy) (records : List Sighting) (source : Option String) :
    List Sighting :=
  (shownLines records source).flatMap fun line => Ranking.rank policy (onLine line records)

section Conservation

variable {policy : PrecisionPolicy} {records : List Sighting} {source : Option String}

theorem mem_of_mem_shownRecords {record : Sighting}
    (member : record ∈ shownRecords policy records source) : record ∈ records := by
  obtain ⟨line, _, ranked⟩ := List.mem_flatMap.mp member
  exact (List.mem_filter.mp ((Ranking.rank_perm policy _).mem_iff.mp ranked)).1

theorem shownRecords_perm (fits : Fits source)
    (located : ∀ record ∈ records, record.line?.isSome) :
    (shownRecords policy records source).Perm records := by
  have ranked := List.Perm.flatMap_left (shownLines records source) fun line _ =>
    Ranking.rank_perm policy (onLine line records)
  refine ranked.trans (Groups.flatMap_having_perm (nodup_shownLines fits) ?_)
  intro record member
  obtain ⟨line, isLine⟩ := Option.isSome_iff_exists.mp (located record member)
  exact ⟨line, mem_shownLines fits member isLine, isLine⟩

theorem onLine_shownRecords (fits : Fits source) (line : UInt32) :
    onLine line (shownRecords policy records source) =
      Ranking.rank policy (onLine line records) := by
  have keyed : ∀ line, ∀ record ∈ Ranking.rank policy (onLine line records),
      record.line? = some line := by
    intro line record member
    have unranked := (Ranking.rank_perm policy (onLine line records)).mem_iff.mp member
    exact eq_of_beq (List.mem_filter.mp unranked).2
  refine Groups.having_flatMap (nodup_shownLines fits) keyed ?_
  intro notShown
  have noRecord : onLine line records = [] := by
    refine List.filter_eq_nil_iff.mpr fun record member located => ?_
    exact notShown (mem_shownLines fits member (eq_of_beq located))
  simp [noRecord, Ranking.rank, Ranking.rankBy]

end Conservation

end Html

end RemarkAtlas
