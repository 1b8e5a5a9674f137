import RemarkAtlas.Proofs.Record.Flatten
import RemarkAtlas.Proofs.Text.Lines

/-!
Messages as outlines: a line for each record, in preorder, indented by its depth.  A record below
another one has no line if neither it nor any record below it has text.
-/

namespace RemarkAtlas

namespace Markup

variable (markup : Markup)

def ownText (record : Record) : List Char := (markup.renderItems record.message).toList

def outlineLine (entry : Nat × Record) : List Char :=
  List.replicate (2 * entry.1) ' ' ++ markup.ownText entry.2

def isSilent (record : Record) : Bool :=
  (record.flatten 0).all fun entry => (markup.ownText entry.2).isEmpty

def linesBelow (records : List Record) : List (List Char) :=
  ((Record.flattenAll 1 records).filter fun entry => !markup.isSilent entry.2).map
    markup.outlineLine

variable {markup}

theorem render_eq (record : Record) :
    markup.render record =
      markup.renderItems record.message ++ markup.renderBelow record.children := by
  cases record with
  | remark header details children => rfl
  | snapshot header graph => rfl

theorem outlineLine_succ (depth : Nat) (record : Record) :
    markup.outlineLine (depth + 1, record) = ' ' :: ' ' :: markup.outlineLine (depth, record) := rfl

theorem ownText_of_isSilent {record : Record} (silent : markup.isSilent record = true) :
    markup.ownText record = [] := by
  rw [isSilent, Walk.flatten_eq, List.all_cons, Bool.and_eq_true] at silent
  exact List.isEmpty_iff.mp silent.1

theorem isSilent_iff {record : Record} :
    markup.isSilent record = true ↔
      markup.ownText record = [] ∧ markup.linesBelow record.children = [] := by
  have noLines : markup.linesBelow record.children = [] ↔
      ∀ entry ∈ Record.flattenAll 1 record.children, markup.isSilent entry.2 = true := by
    simp [linesBelow]
  rw [noLines]
  constructor
  · intro silent
    refine ⟨ownText_of_isSilent silent, fun entry member => ?_⟩
    rw [isSilent, List.all_eq_true] at silent ⊢
    intro below isBelow
    obtain ⟨deeper, listed⟩ := Record.mem_flattenAll_trans member isBelow
    refine silent (deeper, below.2) ?_
    rw [Walk.flatten_eq]
    exact List.mem_cons_of_mem _ listed
  · rintro ⟨noText, below⟩
    rw [isSilent, Walk.flatten_eq, List.all_cons, Bool.and_eq_true, List.all_eq_true]
    exact ⟨List.isEmpty_iff.mpr noText, fun entry member =>
      List.isEmpty_iff.mpr (ownText_of_isSilent (below entry member))⟩

theorem linesBelow_cons (record : Record) (rest : List Record) :
    markup.linesBelow (record :: rest) =
      ((if markup.isSilent record then [] else [markup.ownText record]) ++
        markup.linesBelow record.children).map (' ' :: ' ' :: ·) ++ markup.linesBelow rest := by
  have first : markup.outlineLine (1, record) = ' ' :: ' ' :: markup.ownText record :=
    outlineLine_succ 0 record
  have below : ((Record.flattenAll (1 + 1) record.children).filter fun entry =>
      !markup.isSilent entry.2).map markup.outlineLine =
        (markup.linesBelow record.children).map (' ' :: ' ' :: ·) := by
    rw [Record.flattenAll_add, List.filter_map, List.map_map, linesBelow, List.map_map]
    exact List.map_congr_left fun entry _ => outlineLine_succ entry.1 entry.2
  rw [linesBelow, Record.flattenAll, Walk.flatten_eq, List.filter_append, List.filter_cons,
    List.map_append, List.map_append, ← below, linesBelow]
  cases markup.isSilent record with
  | true => rfl
  | false =>
      rw [Bool.not_false, if_pos rfl, List.map_cons, first]
      rfl

theorem oneLine_of_mem_linesBelow {records : List Record}
    (oneLine : ∀ entry ∈ Record.flattenAll 1 records, Text.OneLine (markup.ownText entry.2)) :
    ∀ line ∈ markup.linesBelow records, Text.OneLine line ∧ line ≠ [] := by
  intro line member
  obtain ⟨entry, isShown, rfl⟩ := List.mem_map.mp member
  have listed := (List.mem_filter.mp isShown).1
  have deep : 1 ≤ entry.1 := Record.depth_le_of_mem_flattenAll listed
  obtain ⟨depth, isDepth⟩ := Nat.exists_eq_add_of_le' deep
  have blanks : Text.OneLine (List.replicate (2 * entry.1) ' ') := by
    intro char isBlank
    rw [List.eq_of_mem_replicate isBlank]
    decide
  refine ⟨blanks.append (oneLine entry listed), ?_⟩
  rw [show entry = (depth + 1, entry.2) from Prod.ext isDepth rfl, outlineLine_succ]
  exact List.cons_ne_nil _ _

theorem toList_renderBelow (records : List Record)
    (oneLine : ∀ entry ∈ Record.flattenAll 1 records, Text.OneLine (markup.ownText entry.2)) :
    (markup.renderBelow records).toList =
      (markup.linesBelow records).flatMap fun line => '\n' :: line := by
  induction records using Record.forestInduction with
  | nil => rfl
  | cons record rest ihBelow ihRest =>
      rw [Record.flattenAll, Walk.flatten_eq, List.forall_mem_append, List.forall_mem_cons] at oneLine
      obtain ⟨⟨own, below⟩, others⟩ := oneLine
      have children : ∀ entry ∈ Record.flattenAll 1 record.children,
          Text.OneLine (markup.ownText entry.2) := by
        rw [Record.flattenAll_add, List.forall_mem_map] at below
        exact below
      have whole : (markup.render record).toList = markup.ownText record ++
          (markup.linesBelow record.children).flatMap fun line => '\n' :: line := by
        rw [render_eq, String.toList_append, ihBelow children, ownText]
      -- Indenting reads the child's lines back; of an empty message there is none, not an empty one.
      have lines : Text.linesFrom [] (markup.render record).toList =
          (if markup.isSilent record then [] else [markup.ownText record]) ++
            markup.linesBelow record.children := by
        rw [whole, Text.linesFrom_joined own (oneLine_of_mem_linesBelow children)]
        cases silent : markup.isSilent record with
        | true =>
            have empty := isSilent_iff.mp silent
            rw [if_pos empty, empty.2]
            rfl
        | false =>
            rw [if_neg fun empty => Bool.false_ne_true (silent ▸ isSilent_iff.mpr empty)]
            rfl
      rw [renderBelow, String.toList_append, toList_indent, lines, ihRest others, linesBelow_cons]
      simp only [List.flatMap_append, List.map_append, List.flatMap_map]

variable (markup) in
def shown (record : Record) : List (Nat × Record) :=
  (record.flatten 0).filter fun entry => entry.1 == 0 || !markup.isSilent entry.2

theorem map_shown (record : Record) :
    (markup.shown record).map markup.outlineLine =
      markup.ownText record :: markup.linesBelow record.children := by
  have below : (Record.flattenAll 1 record.children).filter
      (fun entry => entry.1 == 0 || !markup.isSilent entry.2) =
        (Record.flattenAll 1 record.children).filter fun entry => !markup.isSilent entry.2 := by
    refine List.filter_congr fun entry member => ?_
    have deep : 1 ≤ entry.1 := Record.depth_le_of_mem_flattenAll member
    rw [beq_false_of_ne (Nat.ne_of_gt deep), Bool.false_or]
  rw [shown, Walk.flatten_eq, List.filter_cons_of_pos rfl, below]
  rfl

theorem splitOn_render {record : Record}
    (oneLine : ∀ entry ∈ record.flatten 0, Text.OneLine (markup.ownText entry.2)) :
    (markup.render record).toList.splitOn '\n' =
      (markup.shown record).map markup.outlineLine := by
  rw [Walk.flatten_eq, List.forall_mem_cons] at oneLine
  obtain ⟨own, below⟩ := oneLine
  have noFeeds : ∀ line ∈ markup.ownText record :: markup.linesBelow record.children,
      '\n' ∉ line := by
    refine List.forall_mem_cons.mpr ⟨own.no_feed, ?_⟩
    exact fun line member => (oneLine_of_mem_linesBelow below line member).1.no_feed
  rw [map_shown, render_eq, String.toList_append, toList_renderBelow _ below, ← ownText,
    ← Text.intercalate_cons, List.splitOn_intercalate '\n' noFeeds (List.cons_ne_nil _ _)]

variable (markup) in
def lineText (entry : Nat × Record) : String :=
  String.ofList (List.replicate (2 * entry.1) ' ') ++ markup.renderItems entry.2.message

theorem toList_lineText (entry : Nat × Record) :
    (markup.lineText entry).toList = markup.outlineLine entry := by
  rw [lineText, String.toList_append, String.toList_ofList]
  rfl

theorem render_eq_lines {record : Record}
    (oneLine : ∀ entry ∈ record.flatten 0, Text.OneLine (markup.ownText entry.2)) :
    markup.render record = "\n".intercalate ((markup.shown record).map markup.lineText) := by
  have lines : ['\n'].intercalate ((markup.render record).toList.splitOn '\n') = _ :=
    List.intercalate_splitOn '\n'
  rw [splitOn_render oneLine] at lines
  rw [← String.toList_inj, String.toList_intercalate, List.map_map, ← lines]
  congr 1
  exact List.map_congr_left fun entry _ => (toList_lineText entry).symm

/-- Markups that leave the same messages empty show the same records. -/
theorem shown_congr {left right : Markup} {record : Record}
    (same : ∀ entry ∈ record.flatten 0,
      left.ownText entry.2 = [] ↔ right.ownText entry.2 = []) :
    left.shown record = right.shown record := by
  have listed : ∀ {entry}, entry ∈ record.flatten 0 ↔ entry ∈ Record.flattenAll 0 [record] := by
    simp [Record.flattenAll]
  refine List.filter_congr fun entry member => ?_
  have silent : left.isSilent entry.2 = right.isSilent entry.2 := by
    rw [Bool.eq_iff_iff, isSilent, isSilent, List.all_eq_true, List.all_eq_true]
    refine forall₂_congr fun below isBelow => ?_
    obtain ⟨depth, inRecord⟩ := Record.mem_flattenAll_trans (listed.mp member) isBelow
    rw [List.isEmpty_iff, List.isEmpty_iff]
    exact same (depth, below.2) (listed.mpr inRecord)
  rw [silent]

theorem map_shown_eq_iff {record : Record} :
    (markup.shown record).map markup.outlineLine = (record.flatten 0).map markup.outlineLine ↔
      ∀ entry ∈ record.flatten 0, entry.1 = 0 ∨ markup.isSilent entry.2 = false := by
  have kept : ∀ entry : Nat × Record, (entry.1 == 0 || !markup.isSilent entry.2) = true ↔
      entry.1 = 0 ∨ markup.isSilent entry.2 = false := by simp
  constructor
  · intro same entry member
    have lengths := congrArg List.length same
    rw [List.length_map, List.length_map, shown, List.length_filter_eq_length_iff] at lengths
    exact (kept entry).mp (lengths entry member)
  · intro all
    rw [shown, List.filter_eq_self.mpr fun entry member => (kept entry).mpr (all entry member)]

end Markup

def MessageItem.described (item : MessageItem) : String :=
  item.text ++ item.location?.elim "" fun location =>
    " (" ++ location.file ++ ":" ++ toString location.line.toNat ++ ")"

def Record.InOneLine (record : Record) : Prop :=
  ∀ item ∈ record.message, Text.OneLine item.text.toList ∧
    ∀ location ∈ item.location?, Text.OneLine location.file.toList

instance (record : Record) : Decidable record.InOneLine :=
  inferInstanceAs (Decidable (∀ item ∈ record.message, Text.OneLine item.text.toList ∧
    ∀ location ∈ item.location?, Text.OneLine location.file.toList))

namespace Markup

theorem renderItem_bare (item : MessageItem) : bare.renderItem item = item.described := by
  cases item with
  | plain text => exact String.append_empty.symm
  | expression text location? | statement text location? | symbol text location? =>
      cases location? with
      | none => exact String.append_empty.symm
      | some location =>
          simp only [renderItem, bare, MessageItem.isPlain, MessageItem.described,
            MessageItem.location?, MessageItem.text, Bool.false_eq_true, if_false, Option.elim,
            String.append_assoc]

theorem ownText_bare (record : Record) :
    bare.ownText record = record.message.flatMap fun item => item.described.toList := by
  rw [ownText, renderItems, String.toList_join, List.flatMap_map]
  simp only [renderItem_bare]

theorem oneLine_ownText_bare {record : Record} (inOneLine : record.InOneLine) :
    Text.OneLine (bare.ownText record) := by
  rw [ownText_bare]
  intro char member
  obtain ⟨item, isItem, inside⟩ := List.mem_flatMap.mp member
  obtain ⟨text, file⟩ := inOneLine item isItem
  refine (show Text.OneLine item.described.toList from ?_) char inside
  rw [MessageItem.described, String.toList_append]
  refine text.append ?_
  cases place : item.location? with
  | none => exact fun char absent => absurd absent (by simp)
  | some location =>
      simp only [Option.elim, String.toList_append]
      exact ((((show Text.OneLine " (".toList by decide).append (file location place)).append
        (by decide)).append (Text.oneLine_toString _)).append (by decide)

/-- A message without markup is the outline of what it shows, and shows every record if no record
below another one is silent, and only then. -/
theorem bare_render_outline (record : Record)
    (inOneLine : ∀ entry ∈ record.flatten 0, entry.2.InOneLine) :
    (bare.render record).toList.splitOn '\n' = (bare.shown record).map bare.outlineLine ∧
    ((bare.render record).toList.splitOn '\n' = (record.flatten 0).map bare.outlineLine ↔
      ∀ entry ∈ record.flatten 0, entry.1 = 0 ∨ bare.isSilent entry.2 = false) ∧
    ∀ record, bare.ownText record = record.message.flatMap fun item => item.described.toList := by
  have lines := splitOn_render fun entry member => oneLine_ownText_bare (inOneLine entry member)
  refine ⟨lines, ?_, ownText_bare⟩
  rw [lines]
  exact map_shown_eq_iff

def messageOf (message : List MessageItem) (children : List Record) : Record :=
  .remark ⟨.note, none, none⟩ ⟨none, message, none, none, none⟩ children

def nestedRecord : Record :=
  messageOf [.plain "loop"] [messageOf [] [messageOf [.symbol "f/1" (some ⟨"a.c", 3, 1⟩)] []]]

def lonelyRecord : Record :=
  messageOf [.plain "loop"] [messageOf [] [], messageOf [.plain "vectorized"] []]

theorem nestedRecord_outline :
    (∀ entry ∈ nestedRecord.flatten 0, entry.2.InOneLine) ∧
    (bare.render nestedRecord).toList.splitOn '\n' =
      ["loop".toList, "  ".toList, "    f/1 (a.c:3)".toList] := by
  have inOneLine : ∀ entry ∈ nestedRecord.flatten 0, entry.2.InOneLine := by decide
  refine ⟨inOneLine, (bare_render_outline nestedRecord inOneLine).1.trans ?_⟩
  decide

/-- The record without text has no line, not even one of blanks. -/
theorem lonelyRecord_incomplete :
    (∀ entry ∈ lonelyRecord.flatten 0, entry.2.InOneLine) ∧
    (lonelyRecord.flatten 0).map bare.outlineLine =
      ["loop".toList, "  ".toList, "  vectorized".toList] ∧
    (bare.render lonelyRecord).toList.splitOn '\n' = ["loop".toList, "  vectorized".toList] ∧
    (bare.render lonelyRecord).toList.splitOn '\n' ≠
      (lonelyRecord.flatten 0).map bare.outlineLine := by
  have lines : (bare.render lonelyRecord).toList.splitOn '\n' =
      ["loop".toList, "  vectorized".toList] := by decide
  exact ⟨by decide, by decide, lines, by rw [lines]; decide⟩

end Markup

end RemarkAtlas
