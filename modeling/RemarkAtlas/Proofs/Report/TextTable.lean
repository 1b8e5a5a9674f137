import RemarkAtlas.Proofs.Record.Flatten
import RemarkAtlas.Proofs.Text.Lines
import RemarkAtlas.Report.TextTable

/-!
The shape of the boxed table.  Texts are cut to the width of their column; counts are not, and line
feeds in what is left of a text stay.
-/

namespace RemarkAtlas.TextTable

variable {width : Nat} {text : List Char}

theorem length_padLeft (width : Nat) (text : List Char) :
    (padLeft width text).length = width + (text.length - width) := by
  rw [padLeft, List.length_append, List.length_replicate]
  omega

theorem length_padRight (fits : text.length ≤ width) : (padRight width text).length = width := by
  rw [padRight, List.length_append, List.length_replicate, Nat.add_sub_cancel' fits]

theorem length_cutFront_le (dots : 3 ≤ width) (text : List Char) :
    (cutFront width text).length ≤ width := by
  fun_cases cutFront width text with
  | case1 fits => exact fits
  | case2 =>
      rw [List.length_append, List.length_drop]
      change 3 + _ ≤ _
      omega

theorem length_cutBack_le (dots : 3 ≤ width) (text : List Char) :
    (cutBack width text).length ≤ width := by
  fun_cases cutBack width text with
  | case1 fits => exact fits
  | case2 =>
      rw [List.length_append, List.length_take]
      change _ + 3 ≤ _
      omega

def tableWidth : Nat :=
  2 + (countWidth + 2) + (kindWidth + 2) + (locationWidth + 2) + (messageWidth + 2) + 5

theorem length_rule (left middle right : Char) : (rule left middle right).length = tableWidth := by
  rw [rule, String.length_ofList]
  simp only [List.length_append, List.length_replicate, List.length_cons, List.length_nil]
  rfl

theorem length_row {kind location message : List Char} (count : List Char)
    (kindFits : kind.length ≤ kindWidth) (locationFits : location.length ≤ locationWidth)
    (messageFits : message.length ≤ messageWidth) :
    (row count kind location message).length = tableWidth + (count.length - countWidth) := by
  have start : "  ┃ ".toList.length = 4 := by decide
  have between : " ┃ ".toList.length = 3 := by decide
  have finish : " ┃".toList.length = 2 := by decide
  unfold row
  simp only [String.length_ofList, List.length_append, length_padLeft, length_padRight kindFits,
    length_padRight locationFits, length_padRight messageFits, start, between, finish, tableWidth]
  omega

theorem length_headings : headings.length = tableWidth :=
  length_row _ (by decide) (by decide) (by decide)

theorem length_recordRow (policy : PrecisionPolicy) (sighting : Sighting) :
    (recordRow policy sighting).length =
      tableWidth + ((countText (policy.hotness sighting.record)).length - countWidth) := by
  rw [← String.length_toList (s := countText _)]
  exact length_row _ (length_cutBack_le (by decide) _) (length_cutFront_le (by decide) _)
    (length_cutBack_le (by decide) _)

def box (policy : PrecisionPolicy) (limit : Nat) (records : List Sighting) : List String :=
  [rule '┏' '┳' '┓', headings, rule '┣' '╋' '┫'] ++
    (records.take limit).map (recordRow policy) ++ [rule '┗' '┻' '┛']

structure IsRectangle (policy : PrecisionPolicy) (limit : Nat) (records : List Sighting) : Prop where
  printed : (render policy limit records).toList.splitOn '\n' =
    (title :: box policy limit records ++ remainder limit records.length).map String.toList
  sameWidth : ∀ first ∈ box policy limit records, ∀ second ∈ box policy limit records,
    first.length = second.length

structure Fits (policy : PrecisionPolicy) (record : Record) : Prop where
  -- The only text of a row that is not cut to its column.
  count : ∀ value ∈ policy.hotness record, value.toNat < Nat.pow 10 countWidth
  kind : '\n' ∉ cutBack kindWidth record.kind.tag.toList
  location : ∀ location ∈ record.location?, '\n' ∉ cutFront locationWidth location.text.toList
  message : '\n' ∉ cutBack messageWidth record.messageText.toList

theorem mem_padLeft {char : Char} (notBlank : char ≠ ' ') :
    char ∈ padLeft width text ↔ char ∈ text := by
  simp [padLeft, notBlank]

theorem mem_padRight {char : Char} (notBlank : char ≠ ' ') :
    char ∈ padRight width text ↔ char ∈ text := by
  simp [padRight, notBlank]

theorem feed_mem_row (count kind location message : List Char) :
    '\n' ∈ (row count kind location message).toList ↔
      '\n' ∈ count ∨ '\n' ∈ kind ∨ '\n' ∈ location ∨ '\n' ∈ message := by
  have start : '\n' ∉ "  ┃ ".toList := by decide
  have between : '\n' ∉ " ┃ ".toList := by decide
  have finish : '\n' ∉ " ┃".toList := by decide
  unfold row
  simp only [String.toList_ofList, List.mem_append, start, between, finish,
    mem_padLeft (show '\n' ≠ ' ' by decide), mem_padRight (show '\n' ≠ ' ' by decide), false_or,
    or_false, or_assoc]

theorem no_feed_countText (count : Option UInt64) : '\n' ∉ (countText count).toList := by
  cases count with
  | none => decide
  | some value => exact (Text.oneLine_toString value.toNat).no_feed

theorem feed_mem_rule {left middle right : Char} :
    '\n' ∈ (rule left middle right).toList ↔ '\n' = left ∨ '\n' = middle ∨ '\n' = right := by
  simp [rule]

theorem no_feed_remainder {limit total : Nat} :
    ∀ line ∈ remainder limit total, '\n' ∉ line.toList := by
  have digits := fun number : Nat => (Text.oneLine_toString number).no_feed
  have start : '\n' ∉ "   (Showing top ".toList := by decide
  have between : '\n' ∉ " of ".toList := by decide
  have finish : '\n' ∉ " records)".toList := by decide
  intro line member
  rw [remainder] at member
  split at member
  next =>
    rw [List.mem_cons, List.mem_singleton] at member
    rcases member with rfl | rfl
    · decide
    · simp only [String.toList_append, List.mem_append, digits, start, between, finish, or_false,
        not_false_eq_true]
  next => exact absurd member List.not_mem_nil

theorem length_countText_le_iff (count : Option UInt64) :
    (countText count).length ≤ countWidth ↔ ∀ value ∈ count, value.toNat < Nat.pow 10 countWidth := by
  cases count with
  | none =>
      have dash : (countText none).length ≤ countWidth := by decide
      exact ⟨fun _ value isValue => absurd isValue (Option.not_mem_none value), fun _ => dash⟩
  | some value =>
      simp only [Option.mem_some_iff, forall_eq']
      exact Text.length_toString_le_iff (by decide)

theorem fits_iff {policy : PrecisionPolicy} {sighting : Sighting} :
    Fits policy sighting.record ↔
      (recordRow policy sighting).length = tableWidth ∧
        '\n' ∉ (recordRow policy sighting).toList := by
  have count := length_countText_le_iff (policy.hotness sighting.record)
  rw [length_recordRow, Nat.add_eq_left, Nat.sub_eq_zero_iff_le, count]
  have feeds : '\n' ∈ (recordRow policy sighting).toList ↔ _ := feed_mem_row _ _ _ _
  rw [feeds, or_iff_right (no_feed_countText _), not_or, not_or]
  constructor
  · intro fits
    refine ⟨fits.count, fits.kind, ?_, fits.message⟩
    cases place : sighting.record.location? with
    | none => exact List.not_mem_nil
    | some location => exact fits.location location place
  · rintro ⟨count, kind, location, message⟩
    refine ⟨count, kind, fun place isPlace => ?_, message⟩
    rwa [isPlace] at location

section Box

variable {policy : PrecisionPolicy} {limit : Nat} {records : List Sighting}

theorem forall_mem_box {holds : String → Prop} :
    (∀ line ∈ box policy limit records, holds line) ↔
      (holds (rule '┏' '┳' '┓') ∧ holds headings ∧ holds (rule '┣' '╋' '┫')) ∧
        (∀ sighting ∈ records.take limit, holds (recordRow policy sighting)) ∧
          holds (rule '┗' '┻' '┛') := by
  rw [box, List.forall_mem_append, List.forall_mem_append, List.forall_mem_map, and_assoc]
  simp only [List.forall_mem_cons, List.not_mem_nil, false_implies, implies_true, and_true]

theorem sameWidth_iff :
    (∀ first ∈ box policy limit records, ∀ second ∈ box policy limit records,
      first.length = second.length) ↔
      ∀ sighting ∈ records.take limit, (recordRow policy sighting).length = tableWidth := by
  have asWide : (∀ line ∈ box policy limit records, line.length = tableWidth) ↔
      ∀ sighting ∈ records.take limit, (recordRow policy sighting).length = tableWidth := by
    rw [forall_mem_box]
    simp only [length_rule, length_headings, true_and, and_true]
  rw [← asWide]
  constructor
  · intro same line member
    have border : rule '┏' '┳' '┓' ∈ box policy limit records := List.mem_cons_self
    exact (same line member _ border).trans (length_rule _ _ _)
  · exact fun wide first isFirst second isSecond =>
      (wide first isFirst).trans (wide second isSecond).symm

theorem printed_iff :
    (render policy limit records).toList.splitOn '\n' =
      (title :: box policy limit records ++ remainder limit records.length).map String.toList ↔
        ∀ sighting ∈ records.take limit, '\n' ∉ (recordRow policy sighting).toList := by
  have joined : (render policy limit records).toList = ['\n'].intercalate
      ((title :: box policy limit records ++ remainder limit records.length).map String.toList) :=
    String.toList_intercalate
  rw [joined, Text.splitOn_joined_eq_iff (by simp), List.forall_mem_map, List.forall_mem_append,
    List.forall_mem_cons, forall_mem_box]
  constructor
  · exact fun noFeeds => noFeeds.1.2.2.1
  · intro rows
    have noFeedRule : ∀ {left middle right}, '\n' ∉ [left, middle, right] →
        '\n' ∉ (rule left middle right).toList := by
      intro left middle right noFeed member
      exact noFeed (by simpa using feed_mem_rule.mp member)
    have noFeedHeadings : '\n' ∉ headings.toList := by
      rw [headings, feed_mem_row]
      decide
    exact ⟨⟨by decide, ⟨noFeedRule (by decide), noFeedHeadings, noFeedRule (by decide)⟩, rows,
      noFeedRule (by decide)⟩, no_feed_remainder⟩

end Box

/-- The table is a rectangle with a line for each of its records, in their order, if and only if
each of these records fits. -/
theorem isRectangle_iff (policy : PrecisionPolicy) (limit : Nat) (records : List Sighting) :
    (title :: box policy limit records).length = 4 + min records.length limit + 1 ∧
    (IsRectangle policy limit records ↔
      ∀ sighting ∈ records.take limit, Fits policy sighting.record) := by
  constructor
  · simp only [box, List.length_cons, List.length_append, List.length_map, List.length_take,
      List.length_nil]
    omega
  · constructor
    · intro rectangle sighting shown
      have width := sameWidth_iff.mp rectangle.sameWidth sighting shown
      exact fits_iff.mpr ⟨width, printed_iff.mp rectangle.printed sighting shown⟩
    · intro fits
      have rows := fun sighting shown => fits_iff.mp (fits sighting shown)
      exact ⟨printed_iff.mpr fun sighting shown => (rows sighting shown).2,
        sameWidth_iff.mpr fun sighting shown => (rows sighting shown).1⟩

def wideRecord : Record :=
  .remark ⟨.note, none, none⟩ ⟨none, [.plain "hot"], some ⟨"precise", 12345678901⟩, none, none⟩ []

def wideUnit : CompilationUnit where
  filename := none
  format := "1"
  generator := ⟨"GNU C17", "", "13.2.0", "x86_64-pc-linux-gnu"⟩
  passes := []
  rootPasses := []
  positions := .empty
  records := [wideRecord]

def wideSighting : Sighting := ⟨0, wideUnit, 0, wideRecord⟩

/-- The row of a count with eleven digits is one character wider than the rest of the table. -/
theorem wideUnit_not_isRectangle :
    (recordRow .retainAll wideSighting).length = headings.length + 1 ∧
    ¬ IsRectangle .retainAll 20 (Ranking.rank .retainAll (Corpus.allRecords [wideUnit])) := by
  have tooWide : (recordRow .retainAll wideSighting).length = tableWidth + 1 :=
    length_recordRow .retainAll wideSighting
  have ranked : Ranking.rank .retainAll (Corpus.allRecords [wideUnit]) = [wideSighting] := by
    rw [Corpus.allRecords_eq]
    exact List.mergeSort_singleton _
  rw [ranked, length_headings]
  refine ⟨tooWide, fun rectangle => ?_⟩
  have width := sameWidth_iff.mp rectangle.sameWidth wideSighting List.mem_cons_self
  rw [tooWide] at width
  omega

end RemarkAtlas.TextTable
