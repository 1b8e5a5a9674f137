import RemarkAtlas.Proofs.Html.Address

/-!
Escaped text is safe between tags and inside attributes, and nothing is lost: the entities in it,
undone from left to right, give the text back, whatever entities or parts of entities the text
itself holds.
-/

namespace RemarkAtlas.Html

def entities : List String := ["&amp;", "&lt;", "&gt;", "&quot;", "&#x27;"]

def unsafeChars : List Char := ['<', '>', '"', '\'']

def unescape (text : String) : String := String.ofList (unescapeChars text.toList)

theorem escapeChar_cases (char : Char) :
    escapeChar char = [char] ∧ char ≠ '&' ∧ char ∉ unsafeChars ∨
      ∃ entity ∈ entities, escapeChar char = entity.toList := by
  fun_cases escapeChar char with
  | case6 notAmpersand notLess notGreater notQuote notApostrophe =>
      refine Or.inl ⟨rfl, notAmpersand, ?_⟩
      simp [unsafeChars, notLess, notGreater, notQuote, notApostrophe]
  | _ => exact Or.inr (by decide)

theorem safe_escapeChars {text : List Char} : ∀ char ∈ escapeChars text, char ∉ unsafeChars := by
  have safeEntities : ∀ entity ∈ entities, entity.toList.all (· ∉ unsafeChars) = true := by decide
  intro char member
  obtain ⟨original, _, inside⟩ := List.mem_flatMap.mp member
  rcases escapeChar_cases original with ⟨plain, _, safe⟩ | ⟨entity, isEntity, escaped⟩
  · obtain rfl : char = original := by simpa [plain] using inside
    exact safe
  · have safe := List.all_eq_true.mp (safeEntities entity isEntity) char (escaped ▸ inside)
    exact of_decide_eq_true safe

/-- What one character is written as has an ampersand at most at its start. -/
theorem escapeChar_ampersand {char : Char} {before after : List Char}
    (parts : escapeChar char = before ++ '&' :: after) :
    ∃ entity ∈ entities, entity.toList = '&' :: after := by
  have onlyFirst : ∀ entity ∈ entities, '&' ∉ entity.toList.tail := by decide
  rcases escapeChar_cases char with ⟨plain, notAmpersand, _⟩ | ⟨entity, isEntity, escaped⟩
  · have member : '&' ∈ [char] := by simp [← plain, parts]
    exact absurd (List.mem_singleton.mp member).symm notAmpersand
  · cases before with
    | nil => exact ⟨entity, isEntity, escaped.symm.trans parts⟩
    | cons first before =>
        refine absurd ?_ (onlyFirst entity isEntity)
        simp [← escaped, parts]

theorem escapeChars_ampersand {text before after : List Char}
    (parts : escapeChars text = before ++ '&' :: after) :
    ∃ entity ∈ entities, entity.toList <+: '&' :: after := by
  induction text generalizing before with
  | nil => simp [escapeChars] at parts
  | cons char text ih =>
      rw [escapeChars, List.flatMap_cons, ← escapeChars] at parts
      -- The ampersand stands in the rest, or among what the first character is written as.
      rcases List.append_eq_append_iff.mp parts with ⟨middle, _, inRest⟩ | ⟨middle, inFirst, rest⟩
      · exact ih inRest
      · cases middle with
        | nil => exact @ih [] rest.symm
        | cons ampersand middle =>
            obtain ⟨rfl, rfl⟩ := List.cons.inj rest
            obtain ⟨entity, isEntity, same⟩ := escapeChar_ampersand inFirst
            exact ⟨entity, isEntity, same ▸ List.prefix_append ('&' :: middle) _⟩

theorem unescape_escape (text : String) : unescape (escape text) = text := by
  have unescaped := unescapeChars_escapeChars text.toList []
  rw [unescapeChars, List.append_nil, List.append_nil] at unescaped
  rw [unescape, escape, String.toList_ofList, unescaped, String.ofList_toList]

theorem escape_append (left right : String) :
    escape (left ++ right) = escape left ++ escape right := by
  rw [escape, String.toList_append, escapeChars, List.flatMap_append, String.ofList_append]
  rfl

theorem locationLink_inj {left right : Location} :
    locationLink left = locationLink right ↔
      sourcePage left.file = sourcePage right.file ∧ left.line = right.line := by
  constructor
  · intro same
    have destinations := congrArg destination same
    rw [destination_locationLink, destination_locationLink] at destinations
    obtain ⟨page, anchor⟩ := Destination.mk.inj destinations
    exact ⟨page, lineAnchor_inj.mp (Option.some.inj anchor)⟩
  · rintro ⟨page, line⟩
    rw [locationLink, locationLink, page, line]

theorem escape_faithful (text other : String) (left right : Location) :
    (∀ char ∈ (escape text).toList, char ∉ unsafeChars) ∧
    (∀ before after, (escape text).toList = before ++ '&' :: after →
      ∃ entity ∈ entities, entity.toList <+: '&' :: after) ∧
    unescape (escape text) = text ∧
    (escape text = escape other ↔ text = other) ∧
    escape (text ++ other) = escape text ++ escape other ∧
    (locationLink left = locationLink right ↔
      sourcePage left.file = sourcePage right.file ∧ left.line = right.line) := by
  have chars : (escape text).toList = escapeChars text.toList := String.toList_ofList
  refine ⟨?_, ?_, unescape_escape text, ⟨?_, congrArg escape⟩, escape_append text other,
    locationLink_inj⟩
  · intro char member
    exact safe_escapeChars char (chars ▸ member)
  · intro before after parts
    exact escapeChars_ampersand (chars ▸ parts)
  · intro same
    rw [← unescape_escape text, same, unescape_escape]

example : escape "&lt;'&" = "&amp;lt;&#x27;&amp;" ∧ unescape "&amp;lt;&#x27;&amp;" = "&lt;'&" := by
  decide

end RemarkAtlas.Html
