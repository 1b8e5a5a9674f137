import RemarkAtlas.Html.Escape

/-!
Where addresses lead: to a page and, after a number sign, to the line of a source file.
-/

namespace RemarkAtlas.Html

def unescapeChars : List Char → List Char
  | '&' :: 'a' :: 'm' :: 'p' :: ';' :: rest => '&' :: unescapeChars rest
  | '&' :: 'l' :: 't' :: ';' :: rest => '<' :: unescapeChars rest
  | '&' :: 'g' :: 't' :: ';' :: rest => '>' :: unescapeChars rest
  | '&' :: 'q' :: 'u' :: 'o' :: 't' :: ';' :: rest => '"' :: unescapeChars rest
  | '&' :: '#' :: 'x' :: '2' :: '7' :: ';' :: rest => '\'' :: unescapeChars rest
  | char :: rest => char :: unescapeChars rest
  | [] => []

theorem unescapeChars_cons {char : Char} (notAmpersand : char ≠ '&') (rest : List Char) :
    unescapeChars (char :: rest) = char :: unescapeChars rest := by
  rw [unescapeChars] <;> simp [notAmpersand]

theorem unescapeChars_append {text : List Char} (noEntity : '&' ∉ text) (rest : List Char) :
    unescapeChars (text ++ rest) = text ++ unescapeChars rest := by
  induction text with
  | nil => rfl
  | cons char text ih =>
      rw [List.mem_cons, not_or] at noEntity
      rw [List.cons_append, unescapeChars_cons (Ne.symm noEntity.1), ih noEntity.2, List.cons_append]

theorem unescapeChars_of_noEntity {text : List Char} (noEntity : '&' ∉ text) :
    unescapeChars text = text := by
  have unescaped := unescapeChars_append noEntity []
  rwa [unescapeChars, List.append_nil] at unescaped

theorem unescapeChars_escapeChars (text rest : List Char) :
    unescapeChars (escapeChars text ++ rest) = text ++ unescapeChars rest := by
  induction text with
  | nil => rfl
  | cons char text ih =>
      rw [escapeChars, List.flatMap_cons, ← escapeChars, List.append_assoc]
      fun_cases escapeChar char with
      | case6 notAmpersand =>
          rw [List.singleton_append, unescapeChars_cons notAmpersand, ih, List.cons_append]
      | _ =>
          subst char
          simp [unescapeChars, ih]

structure Destination where
  page : String
  anchor : Option String
  deriving DecidableEq, Repr

namespace Destination

/-- The text before the last number sign is the page if the number of a line follows the sign;
otherwise all of the text is. -/
def ofText (text : List Char) : Destination :=
  let digits := (text.reverse.takeWhile Char.isDigit).reverse
  match Text.afterStart? "-enil#".toList (text.reverse.dropWhile Char.isDigit) with
  | some page =>
    if digits.isEmpty then ⟨String.ofList text, none⟩
    else ⟨String.ofList page.reverse, some ("line-" ++ String.ofList digits)⟩
  | none => ⟨String.ofList text, none⟩

theorem ofText_page (start : List Char) :
    ofText (start ++ ".html".toList) = ⟨String.ofList (start ++ ".html".toList), none⟩ := by
  simp [ofText, Text.afterStart?]

theorem ofText_line (page : List Char) {digits : List Char} (nonempty : digits ≠ [])
    (allDigits : ∀ char ∈ digits, char.isDigit = true) :
    ofText (page ++ "#line-".toList ++ digits) =
      ⟨String.ofList page, some ("line-" ++ String.ofList digits)⟩ := by
  have reversedDigits : ∀ char ∈ digits.reverse, char.isDigit = true := by simpa using allDigits
  have text_eq : (page ++ "#line-".toList ++ digits).reverse =
      digits.reverse ++ ("-enil#".toList ++ page.reverse) := by simp
  simp only [ofText, text_eq]
  rw [List.takeWhile_append_of_pos reversedDigits, List.dropWhile_append_of_pos reversedDigits]
  simp [Text.afterStart?, nonempty]

end Destination

def destination (address : String) : Destination := .ofText (unescapeChars address.toList)

theorem destination_escape_page (start : String) :
    destination (escape (start ++ ".html")) = ⟨start ++ ".html", none⟩ := by
  have unescaped := unescapeChars_escapeChars (start ++ ".html").toList []
  rw [List.append_nil, unescapeChars, List.append_nil, String.toList_append] at unescaped
  rw [destination, escape, String.toList_ofList, String.toList_append, unescaped,
    Destination.ofText_page, ← String.toList_append, String.ofList_toList]

theorem destination_sourcePage (file : String) :
    destination (escape (sourcePage file)) = ⟨sourcePage file, none⟩ :=
  destination_escape_page _

theorem destination_passPage (name : String) :
    destination (escape (passPage name)) = ⟨passPage name, none⟩ :=
  destination_escape_page _

theorem destination_locationLink (location : Location) :
    destination (locationLink location) =
      ⟨sourcePage location.file, some (lineAnchor location.line)⟩ := by
  have digits_eq : (toString location.line.toNat).toList = Nat.toDigits 10 location.line.toNat := by
    rw [Nat.toString_eq_repr, Nat.toList_repr]
  have allDigits : ∀ char ∈ Nat.toDigits 10 location.line.toNat, char.isDigit = true := by
    intro char member
    exact Nat.isDigit_of_mem_toDigits (by decide) (by decide) member
  have noEntity : '&' ∉ "#line-".toList ++ Nat.toDigits 10 location.line.toNat := by
    intro member
    rcases List.mem_append.mp member with start | digit
    · exact absurd start (by decide)
    · exact absurd (allDigits '&' digit) (by decide)
  have text_eq : (locationLink location).toList =
      escapeChars (sourcePage location.file).toList ++
        ("#line-".toList ++ Nat.toDigits 10 location.line.toNat) := by
    simp [locationLink, escape, lineAnchor]
  rw [destination, text_eq, unescapeChars_escapeChars, unescapeChars_of_noEntity noEntity,
    ← List.append_assoc, Destination.ofText_line _ Nat.toDigits_ne_nil allDigits, ← digits_eq,
    String.ofList_toList, String.ofList_toList, lineAnchor]

theorem lineAnchor_inj {left right : UInt32} : lineAnchor left = lineAnchor right ↔ left = right := by
  constructor
  · intro same
    have digits := congrArg String.toList same
    simp only [lineAnchor, String.toList_append, List.append_cancel_left_eq,
      Nat.toString_eq_repr, Nat.toList_repr] at digits
    have numbers := congrArg (fun digits => Nat.ofDigitChars 10 digits 0) digits
    simp only [Nat.ofDigitChars_toDigits, Nat.reduceLT, Nat.reduceLeDiff] at numbers
    exact UInt32.toNat_inj.mp numbers
  · rintro rfl
    rfl

end RemarkAtlas.Html
