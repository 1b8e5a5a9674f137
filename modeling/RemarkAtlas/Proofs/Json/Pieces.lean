import RemarkAtlas.Json.Printer
import RemarkAtlas.Proofs.Text.Utf8

/-!
JSON text that is written piece by piece.  One after another the pieces are the text.
-/

namespace RemarkAtlas

namespace JsonString

theorem flatMap_run (reversed : List Char) :
    (run reversed).flatMap Utf8.encode = Utf8.encode (String.ofList reversed.reverse) := by
  rw [run]
  split
  case isTrue none =>
    rw [List.isEmpty_iff.mp none]
    rfl
  case isFalse => exact List.flatMap_singleton _ _

theorem flatMap_piecesFrom (reversed text : List Char) :
    (piecesFrom reversed text).flatMap Utf8.encode =
      Utf8.encode (String.ofList (reversed.reverse ++ escape text)) := by
  induction text generalizing reversed with
  | nil => rw [piecesFrom, flatMap_run, escape, List.flatMap_nil, List.append_nil]
  | cons char rest ih =>
      rw [piecesFrom, escape, List.flatMap_cons, ← escape]
      split
      case isTrue plain => simp [ih, plain]
      case isFalse =>
        simp only [List.flatMap_append, List.flatMap_cons, flatMap_run, ih, Utf8.encode_ofList,
          List.reverse_nil, List.nil_append]

theorem flatMap_pieces (text : String) :
    (pieces text).flatMap Utf8.encode = Utf8.encode (quote text) := by
  have quoted : '"' :: escape text.toList ++ ['"'] = ['"'] ++ (escape text.toList ++ ['"']) := rfl
  rw [pieces, quote, quoted, String.ofList_append, String.ofList_append, Utf8.encode_append,
    Utf8.encode_append]
  simp only [List.cons_append, List.flatMap_cons, List.flatMap_append, flatMap_piecesFrom]
  rfl

end JsonString

namespace Json

theorem flatMap_indentation (level : Nat) :
    (indentation level).flatMap Utf8.encode =
      Utf8.encode (String.ofList (List.replicate (2 * level) ' ')) := by
  induction level with
  | zero => rfl
  | succ level ih =>
      have twoMore : List.replicate (2 * (level + 1)) ' ' =
          [' ', ' '] ++ List.replicate (2 * level) ' ' := rfl
      rw [indentation, List.replicate_succ, List.flatMap_cons, ← indentation, ih, twoMore,
        String.ofList_append, Utf8.encode_append]

theorem flatMap_lineBreak (level : Nat) :
    Utf8.encode "\n" ++ (indentation level).flatMap Utf8.encode = Utf8.encode (lineBreak level) := by
  rw [flatMap_indentation, ← Utf8.encode_append, lineBreak, ← List.singleton_append,
    String.ofList_append]

theorem flatMap_comma (level : Nat) :
    Utf8.encode ",\n" ++ (indentation level).flatMap Utf8.encode =
      Utf8.encode "," ++ Utf8.encode (lineBreak level) := by
  rw [← flatMap_lineBreak, ← List.append_assoc]
  rfl

mutual

theorem flatMap_pieces (level : Nat) : (value : Json) →
    (value.pieces level).flatMap Utf8.encode = Utf8.encode (value.pretty level)
  | .null | .bool _ | .number _ => List.flatMap_singleton _ _
  | .string value => JsonString.flatMap_pieces value
  | .array [] => rfl
  | .object [] => rfl
  | .array (item :: rest) => by
      simp only [pieces, pretty, List.cons_append, List.nil_append, List.flatMap_append,
        List.flatMap_cons, Utf8.encode_append, ← flatMap_lineBreak, List.append_assoc,
        flatMap_pieces (level + 1) item, flatMap_itemPieces (level + 1) rest, List.flatMap_nil,
        List.append_nil]
  | .object ((key, value) :: rest) => by
      simp only [pieces, pretty, List.cons_append, List.nil_append, List.flatMap_append,
        List.flatMap_cons, Utf8.encode_append, ← flatMap_lineBreak, List.append_assoc,
        JsonString.flatMap_pieces, flatMap_pieces (level + 1) value,
        flatMap_memberPieces (level + 1) rest, List.flatMap_nil, List.append_nil]

theorem flatMap_itemPieces (level : Nat) : (items : List Json) →
    (itemPieces level items).flatMap Utf8.encode = Utf8.encode (prettyItems level items)
  | [] => rfl
  | item :: rest => by
      simp only [itemPieces, prettyItems, List.cons_append, List.flatMap_cons, List.flatMap_append,
        Utf8.encode_append, flatMap_pieces level item, flatMap_itemPieces level rest,
        ← List.append_assoc, flatMap_comma]

theorem flatMap_memberPieces (level : Nat) : (members : List (String × Json)) →
    (memberPieces level members).flatMap Utf8.encode = Utf8.encode (prettyMembers level members)
  | [] => rfl
  | (key, value) :: rest => by
      simp only [memberPieces, prettyMembers, List.cons_append, List.flatMap_cons,
        List.flatMap_append, Utf8.encode_append, JsonString.flatMap_pieces,
        flatMap_pieces level value, flatMap_memberPieces level rest, ← List.append_assoc,
        flatMap_comma]

end

end Json

end RemarkAtlas
