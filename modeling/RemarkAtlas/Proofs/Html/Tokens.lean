import RemarkAtlas.Html.Escape

/-!
Reading pages back.  A page is a sequence of characters and of tags, each from one angle bracket to
the next.  Texts that cut no tag apart are read piece by piece.
-/

namespace RemarkAtlas.Html

inductive Token where
  | letter (char : Char)
  | tag (text : String)
  deriving DecidableEq, Repr

namespace Token

def spell : Token → List Char
  | letter char => [char]
  | tag text => '<' :: text.toList ++ ['>']

def IsWhole : Token → Prop
  | letter char => char ≠ '<'
  | tag text => '>' ∉ text.toList

def element? : Token → Option String
  | letter _ => none
  | tag text => some (String.ofList (text.toList.takeWhile (· != ' ')))

def attribute? (name : String) : Token → Option String
  | letter _ => none
  | tag text =>
    (Text.afterStart? (' ' :: name.toList ++ ['=', '"']) (text.toList.dropWhile (· != ' '))).map
      fun rest => String.ofList (rest.takeWhile (· != '"'))

def withAttribute (element name value : String) : Token :=
  tag (element ++ " " ++ name ++ "=\"" ++ value ++ "\"")

theorem element?_withAttribute {element : String} (noBlank : ' ' ∉ element.toList)
    (name value : String) : (withAttribute element name value).element? = some element := by
  have notBlank : ∀ char ∈ element.toList, (char != ' ') = true := by
    intro char member
    exact bne_iff_ne.mpr fun same => noBlank (same ▸ member)
  simp [withAttribute, element?, List.takeWhile_append_of_pos notBlank]

theorem attribute?_withAttribute {element value : String} (noBlank : ' ' ∉ element.toList)
    (name : String) (noQuote : '"' ∉ value.toList) :
    (withAttribute element name value).attribute? name = some value := by
  have notBlank : ∀ char ∈ element.toList, (char != ' ') = true := by
    intro char member
    exact bne_iff_ne.mpr fun same => noBlank (same ▸ member)
  have notQuote : ∀ char ∈ value.toList, (char != '"') = true := by
    intro char member
    exact bne_iff_ne.mpr fun same => noQuote (same ▸ member)
  have afterName : Text.afterStart? (' ' :: (name.toList ++ ['=', '"']))
      (' ' :: (name.toList ++ '=' :: '"' :: (value.toList ++ ['"']))) =
        some (value.toList ++ ['"']) := by
    simp [Text.afterStart?_eq_some_iff]
  simp only [withAttribute, attribute?, String.toList_append, List.append_assoc]
  rw [List.dropWhile_append_of_pos notBlank]
  simp [afterName, List.takeWhile_append_of_pos notQuote]

end Token

def tokensFrom : Option (List Char) → List Char → List Token
  | _, [] => []
  | none, char :: rest =>
    if char = '<' then tokensFrom (some []) rest else .letter char :: tokensFrom none rest
  | some reversed, char :: rest =>
    if char = '>' then .tag (String.ofList reversed.reverse) :: tokensFrom none rest
    else tokensFrom (some (char :: reversed)) rest

def tokens (text : String) : List Token := tokensFrom none text.toList

theorem tokensFrom_tag {text : List Char} (noEnd : '>' ∉ text) (reversed rest : List Char) :
    tokensFrom (some reversed) (text ++ '>' :: rest) =
      .tag (String.ofList (reversed.reverse ++ text)) :: tokensFrom none rest := by
  induction text generalizing reversed with
  | nil => simp [tokensFrom]
  | cons char text ih =>
      rw [List.mem_cons, not_or] at noEnd
      simp [tokensFrom, Ne.symm noEnd.1, ih noEnd.2]

theorem tokensFrom_spell {token : Token} (whole : token.IsWhole) (rest : List Char) :
    tokensFrom none (token.spell ++ rest) = token :: tokensFrom none rest := by
  cases token with
  | letter char => simp [Token.spell, tokensFrom, show char ≠ '<' from whole]
  | tag text => simpa [Token.spell, tokensFrom] using tokensFrom_tag whole [] rest

theorem tokensFrom_flatMap_spell {tokens : List Token} (whole : ∀ token ∈ tokens, token.IsWhole)
    (rest : List Char) :
    tokensFrom none (tokens.flatMap Token.spell ++ rest) = tokens ++ tokensFrom none rest := by
  induction tokens with
  | nil => rfl
  | cons token tokens ih =>
      obtain ⟨first, others⟩ := List.forall_mem_cons.mp whole
      simp [tokensFrom_spell first, ih others]

structure Spells (tokens : List Token) (text : String) : Prop where
  text_eq : text.toList = tokens.flatMap Token.spell
  whole : ∀ token ∈ tokens, token.IsWhole

namespace Spells

variable {before after : List Token} {left right : String}

theorem tokens_eq (spells : Spells before left) : tokens left = before := by
  have read := tokensFrom_flatMap_spell spells.whole []
  rw [List.append_nil, ← spells.text_eq] at read
  rw [tokens, read, tokensFrom, List.append_nil]

theorem nothing : Spells [] "" := ⟨rfl, by simp⟩

theorem append (first : Spells before left) (second : Spells after right) :
    Spells (before ++ after) (left ++ right) where
  text_eq := by rw [String.toList_append, first.text_eq, second.text_eq, List.flatMap_append]
  whole := List.forall_mem_append.mpr ⟨first.whole, second.whole⟩

theorem tag {text : String} (noEnd : '>' ∉ text.toList) :
    Spells [.tag text] ("<" ++ text ++ ">") where
  text_eq := by simp [Token.spell]
  whole := by simpa [Token.IsWhole] using noEnd

theorem plain {text : String} (noTag : '<' ∉ text.toList) :
    Spells (text.toList.map .letter) text where
  text_eq := by simp [List.flatMap_map, Token.spell]
  whole := by
    intro token member
    obtain ⟨char, isChar, rfl⟩ := List.mem_map.mp member
    exact fun same => noTag (same ▸ isChar)

theorem join {texts : List String} {read : String → List Token}
    (spells : ∀ text ∈ texts, Spells (read text) text) :
    Spells (texts.flatMap read) (String.join texts) := by
  induction texts with
  | nil => exact nothing
  | cons text texts ih =>
      obtain ⟨first, others⟩ := List.forall_mem_cons.mp spells
      rw [String.join_cons, List.flatMap_cons]
      exact first.append (ih others)

end Spells

def Whole (text : String) : Prop := Spells (tokens text) text

theorem Spells.toWhole {read : List Token} {text : String} (spells : Spells read text) :
    Whole text := by
  rw [Whole, spells.tokens_eq]
  exact spells

namespace Whole

variable {left right : String}

theorem nothing : Whole "" := Spells.nothing.toWhole

theorem append (first : Whole left) (second : Whole right) : Whole (left ++ right) :=
  (Spells.append first second).toWhole

theorem tokens_append (first : Whole left) (second : Whole right) :
    tokens (left ++ right) = tokens left ++ tokens right :=
  (Spells.append first second).tokens_eq

theorem tokens_join {texts : List String} (whole : ∀ text ∈ texts, Whole text) :
    tokens (String.join texts) = texts.flatMap tokens :=
  (Spells.join whole).tokens_eq

theorem spell_tokens {text : String} (whole : Whole text) :
    String.ofList ((tokens text).flatMap Token.spell) = text := by
  rw [← whole.text_eq, String.ofList_toList]

end Whole

end RemarkAtlas.Html
