import RemarkAtlas.Corpus.Message
import RemarkAtlas.Proofs.Json.NumberText

/-!
Indented texts.  Indenting changes a text at its line breaks only: some are left out, and blanks
follow the others.
-/

namespace RemarkAtlas.Text

def OneLine (text : List Char) : Prop := ∀ char ∈ text, char ≠ '\r' ∧ char ≠ '\n'

instance (text : List Char) : Decidable (OneLine text) :=
  List.decidableBAll (fun char => char ≠ '\r' ∧ char ≠ '\n') text

theorem OneLine.append {first second : List Char} (left : OneLine first) (right : OneLine second) :
    OneLine (first ++ second) :=
  List.forall_mem_append.mpr ⟨left, right⟩

theorem OneLine.no_feed {text : List Char} (oneLine : OneLine text) : '\n' ∉ text :=
  fun member => (oneLine '\n' member).2 rfl

theorem oneLine_toString (number : Nat) : OneLine (toString number).toList := by
  intro char member
  rw [Nat.toString_eq_repr] at member
  have isDigit := isDigit_of_mem_repr member
  constructor <;> rintro rfl <;> exact absurd isDigit (by decide)

theorem length_toString_le_iff {number digits : Nat} (positive : 0 < digits) :
    (toString number).length ≤ digits ↔ number < Nat.pow 10 digits := by
  rw [← String.length_toList, Nat.toString_eq_repr, Nat.toList_repr]
  exact Nat.length_toDigits_le_iff (by decide) positive

/-- The second text is the first one with carriage returns and line feeds left out here and there,
and the line feeds that stay followed by two blanks. -/
inductive Reflows : List Char → List Char → Prop
  | done : Reflows [] []
  | keep (char : Char) {text after : List Char} :
      Reflows text after → Reflows (char :: text) (char :: after)
  | indented {text after : List Char} :
      Reflows text after → Reflows ('\n' :: text) ('\n' :: ' ' :: ' ' :: after)
  | drop {char : Char} {text after : List Char} :
      char = '\r' ∨ char = '\n' → Reflows text after → Reflows (char :: text) after

namespace Reflows

theorem refl (text : List Char) : Reflows text text := by
  induction text with
  | nil => exact done
  | cons char text ih => exact keep char ih

theorem append {first second firstAfter secondAfter : List Char} (left : Reflows first firstAfter)
    (right : Reflows second secondAfter) :
    Reflows (first ++ second) (firstAfter ++ secondAfter) := by
  induction left with
  | done => exact right
  | keep char _ ih => exact keep char ih
  | indented _ ih => exact indented ih
  | drop isBreak _ ih => exact drop isBreak ih

theorem append_inv {first second after : List Char} (reflows : Reflows (first ++ second) after) :
    ∃ firstAfter secondAfter, after = firstAfter ++ secondAfter ∧
      Reflows first firstAfter ∧ Reflows second secondAfter := by
  induction first generalizing after with
  | nil => exact ⟨[], after, rfl, done, reflows⟩
  | cons char first ih =>
      cases reflows with
      | keep _ rest =>
          obtain ⟨firstAfter, secondAfter, rfl, left, right⟩ := ih rest
          exact ⟨char :: firstAfter, secondAfter, rfl, keep char left, right⟩
      | indented rest =>
          obtain ⟨firstAfter, secondAfter, rfl, left, right⟩ := ih rest
          exact ⟨_ :: _ :: _ :: firstAfter, secondAfter, rfl, indented left, right⟩
      | drop isBreak rest =>
          obtain ⟨firstAfter, secondAfter, rfl, left, right⟩ := ih rest
          exact ⟨firstAfter, secondAfter, rfl, drop isBreak left, right⟩

theorem mem {text after : List Char} (reflows : Reflows text after) {char : Char}
    (member : char ∈ after) : char ∈ text ∨ char = ' ' := by
  induction reflows with
  | done => exact Or.inl member
  | keep _ _ ih => grind
  | indented _ ih => grind
  | drop _ _ ih => grind

theorem eq_of_oneLine {text after : List Char} (reflows : Reflows text after)
    (oneLine : OneLine text) : after = text := by
  induction reflows with
  | done => rfl
  | keep char _ ih => rw [ih (List.forall_mem_cons.mp oneLine).2]
  | indented _ _ => exact absurd rfl (oneLine '\n' List.mem_cons_self).2
  | @drop char _ _ isBreak _ _ =>
      obtain ⟨notReturn, notFeed⟩ := oneLine char List.mem_cons_self
      exact (isBreak.elim notReturn notFeed).elim

end Reflows

theorem reflows_dropCarriageReturn (reversed : List Char) :
    Reflows reversed.reverse (dropCarriageReturn reversed).reverse := by
  fun_cases dropCarriageReturn reversed with
  | case1 reversed =>
      simpa using (Reflows.refl reversed.reverse).append (.drop (Or.inl rfl) .done)
  | case2 reversed => exact .refl _

/-- The line feed in front stands for the one with which the first line of an indented text begins.
-/
theorem reflows_linesFrom (reversed text : List Char) :
    Reflows ('\n' :: (reversed.reverse ++ text))
      ((linesFrom reversed text).flatMap fun line => '\n' :: ' ' :: ' ' :: line) := by
  induction text generalizing reversed with
  | nil =>
      cases reversed with
      | nil => exact .drop (Or.inr rfl) .done
      | cons last reversed => simpa [linesFrom] using Reflows.indented (.refl _)
  | cons char text ih =>
      by_cases ends : char = '\n'
      · subst ends
        rw [linesFrom, if_pos rfl, List.flatMap_cons]
        exact .indented ((reflows_dropCarriageReturn reversed).append (ih []))
      · rw [linesFrom, if_neg ends]
        simpa using ih (char :: reversed)

section Joined

variable {line : List Char} {lines : List (List Char)}

theorem OneLine.reverse (oneLine : OneLine line) : OneLine line.reverse :=
  fun char member => oneLine char (List.mem_reverse.mp member)

theorem dropCarriageReturn_of_oneLine (oneLine : OneLine line) : dropCarriageReturn line = line := by
  fun_cases dropCarriageReturn line with
  | case1 rest => exact absurd rfl (oneLine '\r' List.mem_cons_self).1
  | case2 => rfl

theorem linesFrom_append (oneLine : OneLine line) (reversed rest : List Char) :
    linesFrom reversed (line ++ rest) = linesFrom (line.reverse ++ reversed) rest := by
  induction line generalizing reversed with
  | nil => rfl
  | cons char line ih =>
      obtain ⟨⟨_, notFeed⟩, others⟩ := List.forall_mem_cons.mp oneLine
      rw [List.cons_append, linesFrom, if_neg notFeed, ih others, List.reverse_cons,
        List.append_assoc, List.singleton_append]

theorem linesFrom_nil (reversed : List Char) :
    linesFrom reversed [] = if reversed = [] then [] else [reversed.reverse] := by
  cases reversed <;> rfl

/-- Lines of which all but the first have text are found again, unless there is no text at all. -/
theorem linesFrom_joined (oneLine : OneLine line)
    (others : ∀ other ∈ lines, OneLine other ∧ other ≠ []) :
    linesFrom [] (line ++ lines.flatMap fun other => '\n' :: other) =
      if line = [] ∧ lines = [] then [] else line :: lines := by
  induction lines generalizing line with
  | nil =>
      have whole := linesFrom_append oneLine [] []
      rw [List.append_nil, List.append_nil, linesFrom_nil] at whole
      simp [whole]
  | cons next lines ih =>
      obtain ⟨⟨nextOneLine, hasText⟩, rest⟩ := List.forall_mem_cons.mp others
      rw [linesFrom_append oneLine, List.append_nil, List.flatMap_cons, List.cons_append, linesFrom,
        if_pos rfl, dropCarriageReturn_of_oneLine oneLine.reverse, List.reverse_reverse,
        ih nextOneLine rest]
      simp [hasText]

theorem intercalate_cons (separator : Char) (line : List Char) (lines : List (List Char)) :
    [separator].intercalate (line :: lines) =
      line ++ lines.flatMap fun other => separator :: other := by
  induction lines generalizing line with
  | nil => simp [List.intercalate]
  | cons next lines ih =>
      rw [List.intercalate_cons_cons, ih, List.flatMap_cons, List.append_assoc,
        List.singleton_append, List.cons_append]

end Joined

section Split

variable {separator : Char} {lines : List (List Char)}

theorem length_splitOn (separator : Char) (text : List Char) :
    (text.splitOn separator).length = text.count separator + 1 := by
  induction text with
  | nil => rfl
  | cons char text ih =>
      rw [List.splitOn_cons_eq_if_modifyHead, List.count_cons]
      split
      next same => rw [List.length_cons, ih]
      next => rw [List.length_modifyHead, ih, Nat.add_zero]

theorem length_splitOn_joined (nonempty : lines ≠ []) :
    (([separator].intercalate lines).splitOn separator).length =
      lines.length + lines.flatten.count separator := by
  induction lines with
  | nil => exact absurd rfl nonempty
  | cons line lines ih =>
      cases lines with
      | nil => simp [length_splitOn, Nat.add_comm]
      | cons next lines =>
          have rest := ih (List.cons_ne_nil _ _)
          rw [List.intercalate_cons_cons, List.append_assoc, List.singleton_append,
            List.splitOn_append_cons_self, List.length_append, rest, length_splitOn]
          simp only [List.flatten_cons, List.count_append, List.length_cons]
          omega

/-- The parts of a text are those it was joined from exactly if the separator is in none of them. -/
theorem splitOn_joined_eq_iff (nonempty : lines ≠ []) :
    ([separator].intercalate lines).splitOn separator = lines ↔
      ∀ line ∈ lines, separator ∉ line := by
  constructor
  · intro same line member
    have number := congrArg List.length same
    rw [length_splitOn_joined nonempty, Nat.add_eq_left, List.count_eq_zero] at number
    exact fun inLine => number (List.mem_flatten_of_mem member inLine)
  · exact fun noBreaks => List.splitOn_intercalate separator noBreaks nonempty

end Split

end RemarkAtlas.Text

namespace RemarkAtlas.Markup

theorem toList_indent (text : String) :
    (indent text).toList =
      (Text.linesFrom [] text.toList).flatMap fun line => '\n' :: ' ' :: ' ' :: line := by
  simp [indent, Text.lines, String.toList_join, List.flatMap_map]

theorem reflows_indent (text : String) :
    Text.Reflows ("\n" ++ text).toList (indent text).toList := by
  rw [toList_indent]
  simpa using Text.reflows_linesFrom [] text.toList

end RemarkAtlas.Markup
