import RemarkAtlas.Proofs.Html.Tokens

/-!
What a reader finds on a page: record rows and their cells, links, and anchors.
-/

namespace RemarkAtlas.Html

section Parts

variable (opens closes : Token → Bool)

def partsFrom : Option (List Token) → List Token → List (List Token)
  | _, [] => []
  | none, token :: rest =>
    if opens token then partsFrom (some [token]) rest else partsFrom none rest
  | some reversed, token :: rest =>
    if closes token then (token :: reversed).reverse :: partsFrom none rest
    else partsFrom (some (token :: reversed)) rest

def parts (text : String) : List String :=
  (partsFrom opens closes none (tokens text)).map fun part =>
    String.ofList (part.flatMap Token.spell)

end Parts

def opensRecordRow (token : Token) : Bool :=
  token.element? == some "tr" && (token.attribute? "class").isSome

def recordRows (text : String) : List String := parts opensRecordRow (· == .tag "/tr") text

def cells (row : String) : List String := parts (· == .tag "td") (· == .tag "/td") row

def Token.href? (token : Token) : Option String :=
  if token.element? == some "a" then token.attribute? "href" else none

def links (text : String) : List String := (tokens text).filterMap Token.href?

def anchors (text : String) : List String := (tokens text).filterMap (·.attribute? "id")

section Parts

variable {opens closes : Token → Bool}

theorem partsFrom_closed {before : List Token} (noneOpens : ∀ token ∈ before, opens token = false)
    (rest : List Token) :
    partsFrom opens closes none (before ++ rest) = partsFrom opens closes none rest := by
  induction before with
  | nil => rfl
  | cons token before ih =>
      obtain ⟨first, others⟩ := List.forall_mem_cons.mp noneOpens
      simp [partsFrom, first, ih others]

theorem partsFrom_open {inner : List Token} (noneCloses : ∀ token ∈ inner, closes token = false)
    {last : Token} (closesLast : closes last = true) (reversed rest : List Token) :
    partsFrom opens closes (some reversed) (inner ++ last :: rest) =
      (reversed.reverse ++ inner ++ [last]) :: partsFrom opens closes none rest := by
  induction inner generalizing reversed with
  | nil => simp [partsFrom, closesLast]
  | cons token inner ih =>
      obtain ⟨first, others⟩ := List.forall_mem_cons.mp noneCloses
      simp [partsFrom, first, ih others]

variable (opens closes) in
structure HasParts (text : String) (found : List String) : Prop where
  whole : Whole text
  wholeParts : ∀ part ∈ found, Whole part
  partsFrom_eq : ∀ rest, partsFrom opens closes none (tokens text ++ rest) =
    found.map tokens ++ partsFrom opens closes none rest

namespace HasParts

variable {text left right : String} {found first second : List String}

theorem parts_eq (has : HasParts opens closes text found) : parts opens closes text = found := by
  have read := has.partsFrom_eq []
  simp only [List.append_nil, partsFrom] at read
  rw [parts, read, List.map_map]
  refine (List.map_congr_left ?_).trans (List.map_id found)
  intro part member
  exact (has.wholeParts part member).spell_tokens

theorem none (whole : Whole text) (noneOpens : ∀ token ∈ tokens text, opens token = false) :
    HasParts opens closes text [] where
  whole
  wholeParts := by simp
  partsFrom_eq := partsFrom_closed noneOpens

theorem one {start inner finish : String} {opening closing : Token}
    (startReads : Spells [opening] start) (opensStart : opens opening = true)
    (innerWhole : Whole inner) (noneCloses : ∀ token ∈ tokens inner, closes token = false)
    (finishReads : Spells [closing] finish) (closesFinish : closes closing = true) :
    HasParts opens closes (start ++ inner ++ finish) [start ++ inner ++ finish] where
  whole := ((startReads.append innerWhole).append finishReads).toWhole
  wholeParts := by
    simpa using ((startReads.append innerWhole).append finishReads).toWhole
  partsFrom_eq := by
    intro rest
    have read := ((startReads.append innerWhole).append finishReads).tokens_eq
    simp [read, partsFrom, opensStart, partsFrom_open noneCloses closesFinish]

theorem append (hasLeft : HasParts opens closes left first)
    (hasRight : HasParts opens closes right second) :
    HasParts opens closes (left ++ right) (first ++ second) where
  whole := hasLeft.whole.append hasRight.whole
  wholeParts := List.forall_mem_append.mpr ⟨hasLeft.wholeParts, hasRight.wholeParts⟩
  partsFrom_eq := by
    intro rest
    rw [hasLeft.whole.tokens_append hasRight.whole, List.append_assoc, hasLeft.partsFrom_eq,
      hasRight.partsFrom_eq, List.map_append, List.append_assoc]

theorem join {Item : Type} {items : List Item} {write : Item → String} {read : Item → List String}
    (has : ∀ item ∈ items, HasParts opens closes (write item) (read item)) :
    HasParts opens closes (String.join (items.map write)) (items.flatMap read) := by
  induction items with
  | nil => exact none Whole.nothing (by simp [tokens, tokensFrom])
  | cons item items ih =>
      obtain ⟨first, others⟩ := List.forall_mem_cons.mp has
      rw [List.map_cons, String.join_cons, List.flatMap_cons]
      exact first.append (ih others)

end HasParts

end Parts

section Pieces

variable {left right : String}

theorem links_append (first : Whole left) (second : Whole right) :
    links (left ++ right) = links left ++ links right := by
  rw [links, first.tokens_append second, List.filterMap_append, links, links]

theorem anchors_append (first : Whole left) (second : Whole right) :
    anchors (left ++ right) = anchors left ++ anchors right := by
  rw [anchors, first.tokens_append second, List.filterMap_append, anchors, anchors]

end Pieces

end RemarkAtlas.Html
