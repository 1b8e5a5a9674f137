import Mathlib.Data.List.Basic
import RemarkAtlas.Json.Printer
import RemarkAtlas.Json.Reader
import RemarkAtlas.Proofs.Text.Utf8

/-!
Strings in JSON.  The text between the quotes is scanned as one token, whatever its characters are,
and unescaped it is the text that was written.
-/

namespace RemarkAtlas

namespace JsonString

def IsPlain (byte : UInt8) : Prop := byte ≠ 0x22 ∧ byte ≠ 0x5c ∧ ¬ byte < 0x20

theorem isPlain_encodeChar {char : Char} (notQuote : char ≠ '"') (notBackslash : char ≠ '\\')
    (notControl : ¬ char.toNat < 0x20) : ∀ byte ∈ String.utf8EncodeChar char, IsPlain byte := by
  intro byte member
  by_cases ascii : char.toNat < 0x80
  · rw [Utf8.encodeChar_ascii ascii, List.mem_singleton] at member
    subst member
    have number : (UInt8.ofNat char.toNat).toNat = char.toNat :=
      UInt8.toNat_ofNat_of_lt' (Nat.lt_trans ascii (by decide))
    have differs : ∀ other : Char, other.toNat < 0x80 → char ≠ other →
        UInt8.ofNat char.toNat ≠ UInt8.ofNat other.toNat := by
      intro other otherAscii different same
      refine different (Char.toNat_inj.mp ?_)
      rw [← number, same]
      exact UInt8.toNat_ofNat_of_lt' (Nat.lt_trans otherAscii (by decide))
    refine ⟨differs '"' (by decide) notQuote, differs '\\' (by decide) notBackslash, ?_⟩
    rw [UInt8.lt_iff_toNat_lt, number]
    exact notControl
  · have large := Utf8.encodeChar_ge ascii byte member
    rw [UInt8.le_iff_toNat_le] at large
    refine ⟨?_, ?_, ?_⟩
    · rintro rfl
      exact absurd large (by decide)
    · rintro rfl
      exact absurd large (by decide)
    · rw [UInt8.lt_iff_toNat_lt]
      exact fun small => absurd (Nat.lt_of_le_of_lt large small) (by decide)

section Scan

variable (tokens : List JsonToken) (reversed rest : Bytes)

theorem run_plain {bytes : Bytes} (plain : ∀ byte ∈ bytes, IsPlain byte) :
    JsonScan.run tokens (.string reversed) (bytes ++ rest) =
      JsonScan.run tokens (.string (bytes.reverse ++ reversed)) rest := by
  induction bytes generalizing reversed with
  | nil => rfl
  | cons byte bytes ih =>
      obtain ⟨⟨notQuote, notBackslash, notControl⟩, others⟩ := List.forall_mem_cons.mp plain
      rw [List.cons_append, JsonScan.run, JsonScan.step, if_neg notQuote, if_neg notBackslash,
        if_neg notControl]
      dsimp only
      rw [ih (byte :: reversed) others]
      simp

theorem run_shortEscape {letter : UInt8} (known : JsonScan.isShortEscape letter = true) :
    JsonScan.run tokens (.string reversed) (0x5c :: letter :: rest) =
      JsonScan.run tokens (.string (letter :: 0x5c :: reversed)) rest := by
  simp [JsonScan.run, JsonScan.step, known]

theorem run_hexEscape {first second third fourth : UInt8}
    (hex : ∀ byte ∈ [first, second, third, fourth], JsonScan.isHexDigit byte = true) :
    JsonScan.run tokens (.string reversed)
        (0x5c :: 0x75 :: first :: second :: third :: fourth :: rest) =
      JsonScan.run tokens
        (.string (fourth :: third :: second :: first :: 0x75 :: 0x5c :: reversed)) rest := by
  have notShort : JsonScan.isShortEscape 0x75 = false := by decide
  simp only [List.forall_mem_cons, List.not_mem_nil, false_implies, implies_true, and_true] at hex
  simp [JsonScan.run, JsonScan.step, notShort, hex]

end Scan

def shortEscapes : List (Char × Char) :=
  [('"', '"'), ('\\', '\\'), ('b', '\x08'), ('f', '\x0c'), ('n', '\n'), ('r', '\r'), ('t', '\t')]

inductive Escaped : Char → List Char → Prop
  | short {letter char : Char} (known : (letter, char) ∈ shortEscapes) :
      Escaped char ['\\', letter]
  | control {char : Char} (isControl : char.toNat < 0x20) :
      Escaped char ['\\', 'u', '0', '0', hexDigit (char.toNat / 16), hexDigit (char.toNat % 16)]
  | plain {char : Char} (notQuote : char ≠ '"') (notBackslash : char ≠ '\\')
      (notControl : ¬ char.toNat < 0x20) : Escaped char [char]

theorem escaped (char : Char) : Escaped char (escapeChar char) := by
  fun_cases escapeChar char with
  | case8 _ _ _ _ _ _ _ isControl => exact .control isControl
  | case9 notQuote notBackslash _ _ _ _ _ notControl =>
      exact .plain notQuote notBackslash notControl
  | _ => exact .short (by simp [shortEscapes, *])

def charBytes (char : Char) : Bytes := (escapeChar char).flatMap String.utf8EncodeChar

theorem charBytes_ascii {chars : List Char} (ascii : ∀ char ∈ chars, char.toNat < 0x80) :
    chars.flatMap String.utf8EncodeChar = chars.map fun char => UInt8.ofNat char.toNat := by
  rw [List.map_eq_flatMap]
  exact List.flatMap_congr fun char member => Utf8.encodeChar_ascii (ascii char member)

theorem hexDigit_spec : ∀ value < 16, (hexDigit value).toNat < 0x80 ∧
    JsonScan.isHexDigit (UInt8.ofNat (hexDigit value).toNat) = true ∧
    hexValue? (hexDigit value) = some value := by
  decide

theorem run_charBytes (tokens : List JsonToken) (reversed rest : Bytes) (char : Char) :
    JsonScan.run tokens (.string reversed) (charBytes char ++ rest) =
      JsonScan.run tokens (.string ((charBytes char).reverse ++ reversed)) rest := by
  have letters : ∀ pair ∈ shortEscapes, pair.1.toNat < 0x80 ∧
      JsonScan.isShortEscape (UInt8.ofNat pair.1.toNat) = true := by decide
  rw [charBytes]
  generalize written : escapeChar char = chars
  cases written ▸ escaped char with
  | @short letter char known =>
      obtain ⟨ascii, isShort⟩ := letters _ known
      have asciiBoth : ∀ char ∈ ['\\', letter], char.toNat < 0x80 := by simpa using ascii
      rw [charBytes_ascii asciiBoth]
      exact run_shortEscape tokens reversed rest isShort
  | control isControl =>
      obtain ⟨highAscii, highHex, _⟩ := hexDigit_spec (char.toNat / 16) (by omega)
      obtain ⟨lowAscii, lowHex, _⟩ := hexDigit_spec (char.toNat % 16) (by omega)
      have zeroHex : JsonScan.isHexDigit 0x30 = true := by decide
      rw [charBytes_ascii (by simpa using ⟨highAscii, lowAscii⟩)]
      exact run_hexEscape tokens reversed rest (by simpa [zeroHex] using ⟨highHex, lowHex⟩)
  | plain notQuote notBackslash notControl =>
      rw [List.flatMap_singleton]
      exact run_plain tokens reversed rest (isPlain_encodeChar notQuote notBackslash notControl)

theorem run_body (tokens : List JsonToken) (reversed rest : Bytes) (chars : List Char) :
    JsonScan.run tokens (.string reversed) (chars.flatMap charBytes ++ rest) =
      JsonScan.run tokens (.string ((chars.flatMap charBytes).reverse ++ reversed)) rest := by
  induction chars generalizing reversed with
  | nil => rfl
  | cons char chars ih =>
      rw [List.flatMap_cons, List.append_assoc, run_charBytes, ih, List.reverse_append,
        List.append_assoc]

def body (text : String) : Bytes := Utf8.encode (String.ofList (escape text.toList))

theorem body_eq (text : String) : body text = text.toList.flatMap charBytes := by
  rw [body, Utf8.encode_ofList, escape, List.flatMap_assoc]
  rfl

theorem encode_quote (text : String) : Utf8.encode (quote text) = 0x22 :: body text ++ [0x22] := by
  have quoted : quote text = "\"" ++ String.ofList (escape text.toList) ++ "\"" := by
    rw [quote, ← String.toList_inj]
    simp
  rw [quoted, Utf8.encode_append, Utf8.encode_append]
  rfl

theorem run_quote (tokens : List JsonToken) (rest : Bytes) (text : String) :
    JsonScan.run tokens .between (Utf8.encode (quote text) ++ rest) =
      JsonScan.run (.string (body text) :: tokens) .between rest := by
  have opens : JsonScan.stepBetween tokens 0x22 = some (tokens, .string []) := by
    simp [JsonScan.stepBetween, JsonScan.isBlank]
  rw [encode_quote, List.cons_append, List.cons_append, JsonScan.run, JsonScan.step, opens]
  dsimp only
  rw [List.append_assoc, body_eq, run_body, List.singleton_append, JsonScan.run, JsonScan.step]
  simp

/-! Unescaping -/

theorem unescape_escapeChar (char : Char) (rest : List Char) :
    unescape (escapeChar char ++ rest) = (unescape rest).map (char :: ·) := by
  have letters : ∀ pair ∈ shortEscapes, pair.1 ≠ 'u' ∧ shortEscape? pair.1 = some pair.2 := by
    decide
  generalize written : escapeChar char = chars
  cases written ▸ escaped char with
  | @short letter char known =>
      obtain ⟨notUnit, isShort⟩ := letters _ known
      rw [List.cons_append, List.singleton_append, unescape.eq_3]
      · rw [isShort]
      · intro _ _ _ _ _ isUnit
        exact absurd isUnit notUnit
  | control isControl =>
      obtain ⟨_, _, isHigh⟩ := hexDigit_spec (char.toNat / 16) (by omega)
      obtain ⟨_, _, isLow⟩ := hexDigit_spec (char.toNat % 16) (by omega)
      have zero : hexValue? '0' = some 0 := by decide
      have isUnit : unit? '0' '0' (hexDigit (char.toNat / 16)) (hexDigit (char.toNat % 16)) =
          some char.toNat := by
        simp only [unit?, zero, isHigh, isLow, Option.pure_def, Option.bind_eq_bind,
          Option.bind_some, Option.some.injEq]
        omega
      have notSurrogate : isTrailingSurrogate char.toNat = false ∧
          isLeadingSurrogate char.toNat = false := by
        simp only [isTrailingSurrogate, isLeadingSurrogate, Bool.and_eq_false_iff,
          decide_eq_false_iff_not]
        omega
      simp only [List.cons_append, List.nil_append]
      rw [unescape, isUnit]
      simp [notSurrogate]
  | plain notQuote notBackslash notControl =>
      rw [List.singleton_append, unescape]
      · rw [if_neg notBackslash]
      · intro _ _ _ _ _ isBackslash
        exact absurd isBackslash notBackslash
      · intro _ _ isBackslash
        exact absurd isBackslash notBackslash

theorem unescape_escape (text : List Char) : unescape (escape text) = some text := by
  induction text with
  | nil => rfl
  | cons char text ih =>
      rw [escape, List.flatMap_cons, ← escape, unescape_escapeChar, ih]
      rfl

theorem ofBody?_body (text : String) : ofBody? (body text) = some text := by
  simp [ofBody?, body, Utf8.decode_encode, unescape_escape]

end JsonString

end RemarkAtlas
