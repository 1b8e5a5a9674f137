/-!
Beginnings, endings and inner parts of texts.
-/

namespace RemarkAtlas.Text

def afterStart? : List Char → List Char → Option (List Char)
  | [], text => some text
  | _, [] => none
  | expected :: start, char :: text => if expected = char then afterStart? start text else none

theorem afterStart?_eq_some_iff {start text rest : List Char} :
    afterStart? start text = some rest ↔ text = start ++ rest := by
  fun_induction afterStart? start text with
  | case1 text => simp [eq_comm]
  | case2 start notNil => cases start <;> simp_all
  | case3 start char text ih => simp [ih]
  | case4 expected start char text different =>
    simp only [reduceCtorEq, List.cons_append, List.cons.injEq, false_iff, not_and]
    intro same
    exact absurd same.symm different

def startsWith (start text : List Char) : Bool := (afterStart? start text).isSome

def occursIn (part : List Char) : List Char → Bool
  | [] => part.isEmpty
  | char :: rest => startsWith part (char :: rest) || occursIn part rest

def endsWith (ending text : List Char) : Bool := startsWith ending.reverse text.reverse

theorem startsWith_iff {start text : List Char} : startsWith start text ↔ start <+: text := by
  rw [startsWith, Option.isSome_iff_exists]
  exact exists_congr fun rest => afterStart?_eq_some_iff.trans eq_comm

theorem endsWith_iff {ending text : List Char} : endsWith ending text ↔ ending <:+ text := by
  rw [endsWith, startsWith_iff, List.reverse_prefix]

end RemarkAtlas.Text
