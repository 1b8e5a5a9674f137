import RemarkAtlas.Json.Printer

/-!
Which characters the texts of numbers have.  The text of a double has a point or an exponent, so no
integer has the same text, whatever their values are.
-/

namespace RemarkAtlas

theorem isDigit_of_mem_repr {number : Nat} {char : Char} (member : char ∈ number.repr.toList) :
    char.isDigit = true := by
  rw [Nat.toList_repr] at member
  exact Nat.isDigit_of_mem_toDigits (by decide) (by decide) member

theorem isDigit_of_mem_toString {value : Int} {char : Char}
    (member : char ∈ (toString value).toList) : char = '-' ∨ char.isDigit = true := by
  cases value with
  | ofNat number => exact Or.inr (isDigit_of_mem_repr member)
  | negSucc number =>
      change char ∈ ("-" ++ (number + 1).repr).toList at member
      rw [String.toList_append, List.mem_append] at member
      rcases member with sign | digit
      · exact Or.inl (List.mem_singleton.mp sign)
      · exact Or.inr (isDigit_of_mem_repr digit)

theorem DoubleText.mark_mem_magnitude (number : Double) :
    '.' ∈ magnitude number ∨ 'e' ∈ magnitude number := by
  rw [magnitude.eq_def]
  split
  case h_1 => exact Or.inl (by decide)
  case h_2 decimal _ =>
    dsimp only
    split
    case isTrue =>
      refine Or.inl ?_
      rw [plain]
      split
      · simp
      · split <;> simp
    case isFalse => exact Or.inr (by simp [scientific])

theorem Double.mark_mem_text (number : Double) :
    '.' ∈ number.text.toList ∨ 'e' ∈ number.text.toList := by
  rw [Double.text, String.toList_ofList]
  have marked : '.' ∈ (if number.isZero then ['0', '.', '0'] else DoubleText.magnitude number) ∨
      'e' ∈ (if number.isZero then ['0', '.', '0'] else DoubleText.magnitude number) := by
    split
    · exact Or.inl (by decide)
    · exact DoubleText.mark_mem_magnitude number
  split
  · exact marked.imp (List.mem_cons_of_mem _) (List.mem_cons_of_mem _)
  · exact marked

theorem JsonNumber.text_integer_ne_double (value : Int) (number : Double) :
    (integer value).text ≠ (double number).text := by
  intro same
  have mark := number.mark_mem_text
  rw [← show (toString value : String) = number.text from same] at mark
  rcases mark with point | exponent
  · exact absurd (isDigit_of_mem_toString point) (by decide)
  · exact absurd (isDigit_of_mem_toString exponent) (by decide)

end RemarkAtlas
