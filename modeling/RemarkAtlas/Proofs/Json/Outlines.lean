import Mathlib.Data.List.TakeDrop
import Mathlib.Data.List.TakeWhile
import RemarkAtlas.Proofs.Json.Strings

/-!
Printing JSON and reading it back.  The outline that is read from a printed value is that of the
value, however it is indented; numbers are natural numbers of 64 bits.
-/

namespace RemarkAtlas

namespace JsonLiteral

def digitByte (char : Char) : UInt8 := UInt8.ofNat char.toNat

def digitBytes (value : Nat) : Bytes := (Nat.toDigits 10 value).map digitByte

def ofNat (value : Nat) : JsonLiteral where
  negative := false
  whole := digitBytes value
  fraction := none
  exponent := none

theorem digit_spec : ∀ value < 10, isDigit (digitByte (Nat.digitChar value)) = true ∧
    digitValue (digitByte (Nat.digitChar value)) = value := by
  decide

theorem digitBytes_one {digit : Nat} (small : digit < 10) :
    digitBytes digit = [digitByte (Nat.digitChar digit)] := by
  rw [digitBytes, Nat.toDigits_of_lt_base small]
  rfl

theorem digitBytes_more {value digit : Nat} (positive : 0 < value) (small : digit < 10) :
    digitBytes (10 * value + digit) =
      digitBytes value ++ [digitByte (Nat.digitChar digit)] := by
  rw [digitBytes, ← Nat.toDigits_append_toDigits (by decide) positive small, List.map_append,
    Nat.toDigits_of_lt_base small]
  rfl

/-- Induction over the digits of a number, the last one first. -/
theorem digitsInduction {motive : Nat → Prop} (one : ∀ digit < 10, motive digit)
    (more : ∀ value digit, 0 < value → digit < 10 → motive value → motive (10 * value + digit))
    (value : Nat) : motive value := by
  induction value using Nat.strongRecOn with
  | ind value ih =>
      by_cases small : value < 10
      · exact one value small
      · have last := more (value / 10) (value % 10) (by omega) (Nat.mod_lt value (by decide))
          (ih _ (by omega))
        rwa [Nat.div_add_mod] at last

/-- What holds of all ten digits holds of the digits of a number. -/
theorem forall_digitBytes {motive : UInt8 → Prop}
    (digits : ∀ digit < 10, motive (digitByte (Nat.digitChar digit))) (value : Nat) :
    ∀ byte ∈ digitBytes value, motive byte := by
  induction value using digitsInduction with
  | one digit small =>
      rw [digitBytes_one small]
      exact List.forall_mem_singleton.mpr (digits digit small)
  | more value digit positive small ih =>
      rw [digitBytes_more positive small]
      exact List.forall_mem_append.mpr ⟨ih, List.forall_mem_singleton.mpr (digits digit small)⟩

theorem digitBytes_ne_nil (value : Nat) : digitBytes value ≠ [] := by
  rw [digitBytes, Ne, List.map_eq_nil_iff]
  exact Nat.toDigits_ne_nil

/-- Only zero is written with a zero in front. -/
theorem head?_digitBytes {value : Nat} (positive : 0 < value) :
    (digitBytes value).head? ≠ some 0x30 := by
  induction value using digitsInduction with
  | one digit small =>
      have digits : ∀ digit < 10, 0 < digit → digitByte (Nat.digitChar digit) ≠ 0x30 := by
        decide
      rw [digitBytes_one small]
      simpa using digits digit small positive
  | more value digit valuePositive small ih =>
      rw [digitBytes_more valuePositive small,
        List.head?_append_of_ne_nil _ (digitBytes_ne_nil value)]
      exact ih valuePositive

theorem appendDigits_append {number value : Nat} {digits more : List UInt8}
    (reads : appendDigits number digits = (value, [])) :
    appendDigits number (digits ++ more) = appendDigits value more := by
  induction digits generalizing number with
  | nil =>
      cases reads
      rfl
  | cons digit digits ih =>
      rw [appendDigits] at reads
      rw [List.cons_append, appendDigits]
      split at reads
      case isTrue fits =>
        rw [if_pos fits]
        exact ih reads
      case isFalse => cases reads

theorem appendDigits_digitBytes {value : Nat} (fits : value < wordLimit) :
    appendDigits 0 (digitBytes value) = (value, []) := by
  have one : ∀ number digit, digit < 10 → number * 10 + digit < wordLimit →
      appendDigits number [digitByte (Nat.digitChar digit)] = (number * 10 + digit, []) := by
    intro number digit small fits
    rw [appendDigits, (digit_spec digit small).2]
    exact if_pos fits
  induction value using digitsInduction with
  | one digit small =>
      rw [digitBytes_one small, one 0 digit small (by omega)]
      simp
  | more value digit positive small ih =>
      rw [digitBytes_more positive small, appendDigits_append (ih (by omega)),
        one value digit small (by omega), Nat.mul_comm]

theorem integer?_ofNat {value : Nat} (fits : value < wordLimit) :
    (ofNat value).integer? = some (value : Int) := by
  rw [integer?, ofNat]
  dsimp only
  rw [appendDigits_digitBytes fits]
  rfl

theorem ofBytes?_digitBytes (value : Nat) : ofBytes? (digitBytes value) = some (ofNat value) := by
  have allDigits : ∀ byte ∈ digitBytes value, isDigit byte = true :=
    forall_digitBytes (fun digit small => (digit_spec digit small).1) value
  have allWhole : (digitBytes value).span isDigit = (digitBytes value, []) := by
    rw [List.span_eq_takeWhile_dropWhile, List.takeWhile_eq_self_iff.mpr allDigits,
      List.dropWhile_eq_nil_iff.mpr allDigits]
  have isWhole : digits? (digitBytes value) = some (digitBytes value, []) := by
    rw [digits?, allWhole]
    cases whole : digitBytes value with
    | nil => exact absurd whole (digitBytes_ne_nil value)
    | cons digit digits => rfl
  have notSigned : ofBytes? (digitBytes value) = unsigned? false (digitBytes value) := by
    unfold ofBytes?
    split
    case h_1 rest signed =>
      rw [signed] at allDigits
      exact absurd (allDigits 0x2d List.mem_cons_self) (by decide)
    case h_2 => rfl
  have noZero : ¬ ((digitBytes value).head? = some 0x30 ∧ 1 < (digitBytes value).length) := by
    rintro ⟨zero, long⟩
    rcases Nat.eq_zero_or_pos value with rfl | positive
    · exact absurd long (by decide)
    · exact head?_digitBytes positive zero
  rw [notSigned, unsigned?, isWhole]
  dsimp only [Option.bind_eq_bind, Option.bind_some]
  rw [if_neg noZero]
  rfl

end JsonLiteral

namespace JsonScan

def Ends (rest : Bytes) : Prop := ∀ byte ∈ rest.head?, isWordByte byte = false

section Steps

variable (tokens : List JsonToken) {rest : Bytes}

theorem ends_cons {byte : UInt8} (notWord : isWordByte byte = false) (rest : Bytes) :
    Ends (byte :: rest) := by
  rintro other isHead
  cases isHead
  exact notWord

theorem run_blank {blanks : Bytes} (areBlank : ∀ byte ∈ blanks, isBlank byte = true) :
    run tokens .between (blanks ++ rest) = run tokens .between rest := by
  induction blanks with
  | nil => rfl
  | cons blank blanks ih =>
      obtain ⟨isBlank, others⟩ := List.forall_mem_cons.mp areBlank
      rw [List.cons_append, run, step, stepBetween, if_pos isBlank]
      exact ih others

theorem run_punctuation {byte : UInt8} {token : JsonToken}
    (isToken : JsonToken.ofPunctuation? byte = some token)
    (noOther : isBlank byte = false ∧ byte ≠ 0x22 ∧ isWordByte byte = false) :
    run tokens .between (byte :: rest) = run (token :: tokens) .between rest := by
  obtain ⟨notBlank, notQuote, notWord⟩ := noOther
  simp [run, step, stepBetween, notBlank, notQuote, notWord, isToken]

theorem run_inWord {reversed word : Bytes} (wordBytes : ∀ byte ∈ word, isWordByte byte = true) :
    run tokens (.word reversed) (word ++ rest) =
      run tokens (.word (word.reverse ++ reversed)) rest := by
  induction word generalizing reversed with
  | nil => rfl
  | cons byte word ih =>
      obtain ⟨isWord, others⟩ := List.forall_mem_cons.mp wordBytes
      rw [List.cons_append, run, step, if_pos isWord]
      dsimp only
      rw [ih others]
      simp

def IsWord (word : Bytes) : Prop :=
  ∀ byte ∈ word, isWordByte byte = true ∧ isBlank byte = false ∧ byte ≠ 0x22

instance (word : Bytes) : Decidable (IsWord word) :=
  List.decidableBAll _ word

theorem run_word {word : Bytes} {token : JsonToken} (isWord : IsWord word)
    (isToken : JsonToken.ofWord? word = some token) (ends : Ends rest) :
    run tokens .between (word ++ rest) = run (token :: tokens) .between rest := by
  cases word with
  | nil =>
      have noToken : JsonToken.ofWord? [] = none := by decide
      rw [noToken] at isToken
      cases isToken
  | cons byte word =>
      obtain ⟨⟨inWord, notBlank, notQuote⟩, others⟩ := List.forall_mem_cons.mp isWord
      have begins : stepBetween tokens byte = some (tokens, .word [byte]) := by
        simp [stepBetween, notBlank, notQuote, inWord]
      rw [List.cons_append, run, step, begins]
      dsimp only
      rw [run_inWord tokens fun byte member => (others byte member).1]
      have isWhole : (word.reverse ++ [byte]).reverse = byte :: word := by simp
      cases rest with
      | nil => simp [run, finish, isToken]
      | cons next rest =>
          have notWord : isWordByte next = false := ends next rfl
          rw [run, step, isWhole, isToken, notWord, run, step]
          rfl

end Steps

end JsonScan

namespace Json

inductive IsPlain : Json → Prop
  | null : IsPlain .null
  | bool (value : Bool) : IsPlain (.bool value)
  | natural {value : Nat} (fits : value < JsonLiteral.wordLimit) : IsPlain (.natural value)
  | string (text : String) : IsPlain (.string text)
  | array {items : List Json} (plain : ∀ item ∈ items, IsPlain item) : IsPlain (.array items)
  | object {members : Members} (plain : ∀ member ∈ members, IsPlain member.2) :
      IsPlain (.object members)

mutual

def outline : Json → Outline
  | .null => .null
  | .bool value => .bool value
  | .number (.integer value) => .number (JsonLiteral.ofNat value.toNat)
  | .number (.double _) => .null
  | .string text => .string (JsonString.body text)
  | .array items => .array (outlines items)
  | .object members => .object (memberOutlines members)

def outlines : List Json → List Outline
  | [] => []
  | item :: rest => outline item :: outlines rest

def memberOutlines : Members → List (Bytes × Outline)
  | [] => []
  | (key, value) :: rest => (JsonString.body key, outline value) :: memberOutlines rest

end

mutual

def tokens : Json → List JsonToken
  | .null => [.null]
  | .bool value => [.bool value]
  | .number (.integer value) => [.number (JsonLiteral.ofNat value.toNat)]
  | .number (.double _) => []
  | .string text => [.string (JsonString.body text)]
  | .array [] => [.openArray, .closeArray]
  | .array (item :: rest) => .openArray :: tokens item ++ itemTokens rest ++ [.closeArray]
  | .object [] => [.openObject, .closeObject]
  | .object ((key, value) :: rest) =>
    .openObject :: .string (JsonString.body key) :: .colon :: tokens value ++ memberTokens rest ++
      [.closeObject]

def itemTokens : List Json → List JsonToken
  | [] => []
  | item :: rest => .comma :: tokens item ++ itemTokens rest

def memberTokens : Members → List JsonToken
  | [] => []
  | (key, value) :: rest =>
    .comma :: .string (JsonString.body key) :: .colon :: tokens value ++ memberTokens rest

end

/-! Scanning -/

def Scans (value : Json) : Prop :=
  ∀ level scanned rest, JsonScan.Ends rest →
    JsonScan.run scanned .between (Utf8.encode (value.pretty level) ++ rest) =
      JsonScan.run (value.tokens.reverse ++ scanned) .between rest

section Scanning

variable (level : Nat) (scanned : List JsonToken) {rest : Bytes}

theorem run_lineBreak :
    JsonScan.run scanned .between (Utf8.encode (lineBreak level) ++ rest) =
      JsonScan.run scanned .between rest := by
  refine JsonScan.run_blank scanned ?_
  rw [lineBreak, Utf8.encode_ofList]
  intro byte member
  obtain ⟨char, isChar, isByte⟩ := List.mem_flatMap.mp member
  rcases List.mem_cons.mp isChar with rfl | isBlank
  · obtain rfl : byte = 0x0a := List.mem_singleton.mp isByte
    decide
  · obtain rfl := List.eq_of_mem_replicate isBlank
    obtain rfl : byte = 0x20 := List.mem_singleton.mp isByte
    decide

theorem ends_lineBreak : JsonScan.Ends (Utf8.encode (lineBreak level) ++ rest) := by
  rw [lineBreak, Utf8.encode_ofList]
  exact JsonScan.ends_cons (by decide) _

theorem ends_items (ends : JsonScan.Ends rest) (items : List Json) :
    JsonScan.Ends (Utf8.encode (prettyItems level items) ++ rest) := by
  cases items with
  | nil => exact ends
  | cons item items =>
      rw [prettyItems, Utf8.encode_append, Utf8.encode_append, Utf8.encode_append]
      exact JsonScan.ends_cons (by decide) _

theorem ends_members (ends : JsonScan.Ends rest) (members : Members) :
    JsonScan.Ends (Utf8.encode (prettyMembers level members) ++ rest) := by
  cases members with
  | nil => exact ends
  | cons member members =>
      rw [prettyMembers]
      simp only [Utf8.encode_append]
      exact JsonScan.ends_cons (by decide) _

theorem run_comma :
    JsonScan.run scanned .between (Utf8.encode "," ++ rest) =
      JsonScan.run (.comma :: scanned) .between rest :=
  JsonScan.run_punctuation scanned (by decide) (by decide)

theorem run_colon :
    JsonScan.run scanned .between (Utf8.encode ": " ++ rest) =
      JsonScan.run (.colon :: scanned) .between rest := by
  have colon : JsonScan.run scanned .between (0x3a :: (0x20 :: rest)) =
      JsonScan.run (.colon :: scanned) .between (0x20 :: rest) :=
    JsonScan.run_punctuation scanned (by decide) (by decide)
  have blank : JsonScan.run (.colon :: scanned) .between ([0x20] ++ rest) =
      JsonScan.run (.colon :: scanned) .between rest :=
    JsonScan.run_blank _ (List.forall_mem_singleton.mpr rfl)
  exact colon.trans blank

theorem run_items {items : List Json} (scans : ∀ item ∈ items, Scans item)
    (ends : JsonScan.Ends rest) :
    JsonScan.run scanned .between (Utf8.encode (prettyItems level items) ++ rest) =
      JsonScan.run ((itemTokens items).reverse ++ scanned) .between rest := by
  induction items generalizing scanned with
  | nil => rfl
  | cons item items ih =>
      obtain ⟨first, others⟩ := List.forall_mem_cons.mp scans
      simp only [prettyItems, Utf8.encode_append, List.append_assoc]
      rw [run_comma, run_lineBreak, first level _ _ (ends_items level ends items), ih _ others]
      simp [itemTokens]

theorem run_member {key : String} {value : Json} (scans : Scans value) (ends : JsonScan.Ends rest) :
    JsonScan.run scanned .between
        (Utf8.encode (JsonString.quote key) ++ (Utf8.encode ": " ++
          (Utf8.encode (value.pretty level) ++ rest))) =
      JsonScan.run (value.tokens.reverse ++ .colon :: .string (JsonString.body key) :: scanned)
        .between rest := by
  rw [JsonString.run_quote, run_colon, scans level _ _ ends]

theorem run_members {members : Members} (scans : ∀ member ∈ members, Scans member.2)
    (ends : JsonScan.Ends rest) :
    JsonScan.run scanned .between (Utf8.encode (prettyMembers level members) ++ rest) =
      JsonScan.run ((memberTokens members).reverse ++ scanned) .between rest := by
  induction members generalizing scanned with
  | nil => rfl
  | cons member members ih =>
      obtain ⟨key, value⟩ := member
      obtain ⟨first, others⟩ := List.forall_mem_cons.mp scans
      simp only [prettyMembers, Utf8.encode_append, List.append_assoc]
      rw [run_comma, run_lineBreak, run_member level _ first (ends_members level ends members),
        ih _ others]
      simp [memberTokens]

end Scanning

theorem encode_natural (value : Nat) :
    Utf8.encode (JsonNumber.integer value).text = JsonLiteral.digitBytes value := by
  have digits : (JsonNumber.integer value).text = String.ofList (Nat.toDigits 10 value) := by
    rw [← Nat.toString_eq_ofList_toDigits]
    rfl
  have ascii : ∀ char ∈ Nat.toDigits 10 value, char.toNat < 0x80 := by
    intro char member
    have isDigit := Nat.isDigit_of_mem_toDigits (by decide) (by decide) member
    simp only [Char.isDigit, Bool.and_eq_true, decide_eq_true_eq] at isDigit
    exact Nat.lt_of_le_of_lt (UInt32.le_iff_toNat_le.mp isDigit.2) (by decide)
  rw [digits, Utf8.encode_ofList, JsonString.charBytes_ascii ascii]
  rfl

theorem run_natural (value : Nat) (scanned : List JsonToken) {rest : Bytes}
    (ends : JsonScan.Ends rest) :
    JsonScan.run scanned .between (JsonLiteral.digitBytes value ++ rest) =
      JsonScan.run (.number (.ofNat value) :: scanned) .between rest := by
  have isWord : JsonScan.IsWord (JsonLiteral.digitBytes value) :=
    JsonLiteral.forall_digitBytes (by decide) value
  have noLetter : ∀ byte ∈ JsonLiteral.digitBytes value, byte ∉ [0x6e, 0x74, 0x66] :=
    JsonLiteral.forall_digitBytes (by decide) value
  have noName : ∀ letter ∈ [0x6e, 0x74, 0x66], ∀ word : Bytes,
      JsonLiteral.digitBytes value ≠ letter :: word := by
    intro letter isLetter word same
    exact noLetter letter (by simp [same]) isLetter
  have isToken : JsonToken.ofWord? (JsonLiteral.digitBytes value) =
      some (.number (.ofNat value)) := by
    rw [JsonToken.ofWord?, if_neg (noName _ (by decide) _), if_neg (noName _ (by decide) _),
      if_neg (noName _ (by decide) _), JsonLiteral.ofBytes?_digitBytes]
    rfl
  exact JsonScan.run_word scanned isWord isToken ends

theorem scans_array {items : List Json} (scans : ∀ item ∈ items, Scans item) :
    Scans (.array items) := by
  intro level scanned rest ends
  have opens : ∀ rest, JsonScan.run scanned .between (Utf8.encode "[" ++ rest) =
      JsonScan.run (.openArray :: scanned) .between rest := fun _ =>
    JsonScan.run_punctuation scanned (by decide) (by decide)
  have closes : ∀ scanned, JsonScan.run scanned .between (Utf8.encode "]" ++ rest) =
      JsonScan.run (.closeArray :: scanned) .between rest := fun scanned =>
    JsonScan.run_punctuation scanned (by decide) (by decide)
  cases items with
  | nil => exact (opens _).trans (closes _)
  | cons item items =>
      obtain ⟨first, others⟩ := List.forall_mem_cons.mp scans
      simp only [pretty, Utf8.encode_append, List.append_assoc]
      rw [opens, run_lineBreak, first (level + 1) _ _ (ends_items _ (ends_lineBreak level) items),
        run_items _ _ others (ends_lineBreak level), run_lineBreak, closes]
      simp [tokens]

theorem scans_object {members : List (String × Json)}
    (scans : ∀ member ∈ members, Scans member.2) : Scans (.object members) := by
  intro level scanned rest ends
  have opens : ∀ rest, JsonScan.run scanned .between (Utf8.encode "\x7b" ++ rest) =
      JsonScan.run (.openObject :: scanned) .between rest := fun _ =>
    JsonScan.run_punctuation scanned (by decide) (by decide)
  have closes : ∀ scanned, JsonScan.run scanned .between (Utf8.encode "\x7d" ++ rest) =
      JsonScan.run (.closeObject :: scanned) .between rest := fun scanned =>
    JsonScan.run_punctuation scanned (by decide) (by decide)
  cases members with
  | nil => exact (opens _).trans (closes _)
  | cons member members =>
      obtain ⟨key, value⟩ := member
      obtain ⟨first, others⟩ := List.forall_mem_cons.mp scans
      simp only [pretty, Utf8.encode_append, List.append_assoc]
      rw [opens, run_lineBreak,
        run_member (level + 1) _ first (ends_members _ (ends_lineBreak level) members),
        run_members _ _ others (ends_lineBreak level), run_lineBreak, closes]
      simp [tokens]

theorem scans_of_isPlain {value : Json} (plain : value.IsPlain) : Scans value := by
  induction plain with
  | null =>
      intro level scanned rest ends
      have isNull : JsonScan.IsWord (Utf8.encode "null") ∧
          JsonToken.ofWord? (Utf8.encode "null") = some .null := by decide
      exact JsonScan.run_word scanned isNull.1 isNull.2 ends
  | bool value =>
      intro level scanned rest ends
      have isTrue : JsonScan.IsWord (Utf8.encode "true") ∧
          JsonToken.ofWord? (Utf8.encode "true") = some (.bool true) := by decide
      have isFalse : JsonScan.IsWord (Utf8.encode "false") ∧
          JsonToken.ofWord? (Utf8.encode "false") = some (.bool false) := by decide
      cases value with
      | true => exact JsonScan.run_word scanned isTrue.1 isTrue.2 ends
      | false => exact JsonScan.run_word scanned isFalse.1 isFalse.2 ends
  | @natural value fits =>
      intro level scanned rest ends
      have text : Utf8.encode ((Json.natural value).pretty level) = JsonLiteral.digitBytes value :=
        encode_natural value
      rw [text]
      exact run_natural value scanned ends
  | string text =>
      intro level scanned rest ends
      exact JsonString.run_quote scanned rest text
  | array plain ih => exact scans_array ih
  | object plain ih => exact scans_object ih

theorem scan_pretty {value : Json} (plain : value.IsPlain) (level : Nat) :
    JsonToken.scan (Utf8.encode (value.pretty level)) = some value.tokens := by
  have scans := scans_of_isPlain plain level [] [] (by simp [JsonScan.Ends])
  rw [List.append_nil, List.append_nil] at scans
  rw [JsonToken.scan, scans]
  simp [JsonScan.run, JsonScan.finish]

/-! Building the outline -/

def Builds (value : Json) : Prop :=
  ∀ frames rest, Outline.run (.value frames) (value.tokens ++ rest) =
    Outline.run (Outline.close value.outline frames) rest

section Building

variable (frames : List Outline.Frame) (rest : List JsonToken)

/-- No value begins like the end of an array. -/
theorem run_firstItem {value : Json} (plain : value.IsPlain) :
    Outline.run (.firstItem frames) (value.tokens ++ rest) =
      Outline.run (.value (.array [] :: frames)) (value.tokens ++ rest) := by
  obtain ⟨first, more, isTokens, notEnd⟩ :
      ∃ first more, value.tokens = first :: more ∧ first ≠ .closeArray := by
    cases plain with
    | null => exact ⟨_, _, rfl, by simp⟩
    | bool value => exact ⟨_, _, rfl, by simp⟩
    | natural fits => exact ⟨_, _, rfl, by simp⟩
    | string text => exact ⟨_, _, rfl, by simp⟩
    | @array items plain =>
        cases items with
        | nil => exact ⟨_, _, rfl, by simp⟩
        | cons item items => exact ⟨_, _, by rw [tokens]; rfl, by simp⟩
    | @object members plain =>
        cases members with
        | nil => exact ⟨_, _, rfl, by simp⟩
        | cons member members => exact ⟨_, _, by rw [tokens]; rfl, by simp⟩
  simp only [isTokens, List.cons_append, Outline.run, Outline.step, if_neg notEnd]

theorem run_itemTokens {items : List Json} (builds : ∀ item ∈ items, Builds item)
    (reversed : List Outline) :
    Outline.run (.afterItem frames reversed) (itemTokens items ++ .closeArray :: rest) =
      Outline.run (Outline.close (.array (reversed.reverse ++ outlines items)) frames) rest := by
  induction items generalizing reversed with
  | nil => simp [itemTokens, outlines, Outline.run, Outline.step]
  | cons item items ih =>
      obtain ⟨first, others⟩ := List.forall_mem_cons.mp builds
      simp only [itemTokens, List.cons_append, List.append_assoc, Outline.run, Outline.step]
      rw [first, Outline.close, ih others, outlines]
      simp

theorem run_memberTokens {members : Members} (builds : ∀ member ∈ members, Builds member.2)
    (reversed : List (Bytes × Outline)) :
    Outline.run (.afterMember frames reversed) (memberTokens members ++ .closeObject :: rest) =
      Outline.run (Outline.close (.object (reversed.reverse ++ memberOutlines members)) frames)
        rest := by
  induction members generalizing reversed with
  | nil => simp [memberTokens, memberOutlines, Outline.run, Outline.step]
  | cons member members ih =>
      obtain ⟨key, value⟩ := member
      obtain ⟨first, others⟩ := List.forall_mem_cons.mp builds
      simp only [memberTokens, List.cons_append, List.append_assoc, Outline.run, Outline.step]
      rw [first, Outline.close, ih others, memberOutlines]
      simp

end Building

theorem builds_of_isPlain {value : Json} (plain : value.IsPlain) : Builds value := by
  induction plain with
  | null => exact fun frames rest => rfl
  | bool value => exact fun frames rest => rfl
  | natural fits => exact fun frames rest => rfl
  | string text => exact fun frames rest => rfl
  | @array items plain ih =>
      intro frames rest
      cases items with
      | nil => rfl
      | cons item items =>
          obtain ⟨first, others⟩ := List.forall_mem_cons.mp ih
          simp only [tokens, List.cons_append, List.append_assoc, List.nil_append, Outline.run,
            Outline.step, Outline.beginValue]
          rw [run_firstItem frames _ (plain item List.mem_cons_self), first, Outline.close,
            run_itemTokens frames rest others, outline, outlines]
          rfl
  | @object members plain ih =>
      intro frames rest
      cases members with
      | nil => rfl
      | cons member members =>
          obtain ⟨key, value⟩ := member
          obtain ⟨first, others⟩ := List.forall_mem_cons.mp ih
          simp only [tokens, List.cons_append, List.append_assoc, List.nil_append, Outline.run,
            Outline.step, Outline.beginValue]
          rw [first, Outline.close, run_memberTokens frames rest others, outline, memberOutlines]
          rfl

theorem outline?_pretty {value : Json} (plain : value.IsPlain) (level : Nat) :
    Outline.ofBytes? (Utf8.encode (value.pretty level)) = some value.outline := by
  have builds := builds_of_isPlain plain [] []
  rw [List.append_nil] at builds
  rw [Outline.ofBytes?, scan_pretty plain level, Option.bind_some, Outline.ofTokens?, builds]
  rfl

end Json

end RemarkAtlas
