import Mathlib.Data.List.Basic
import RemarkAtlas.Json.Outline

/-!
The text of an object that is cut short is not JSON: what is left of it ends inside the object,
since nothing but blanks could follow a text that is complete.
-/

namespace RemarkAtlas

namespace JsonScan

variable {tokens next found : List JsonToken} {scan nextScan : JsonScan} {byte : UInt8} {part : Bytes}

def after (tokens : List JsonToken) (scan : JsonScan) : Bytes → Option (List JsonToken × JsonScan)
  | [] => some (tokens, scan)
  | byte :: rest => (scan.step tokens byte).bind fun (tokens, scan) => after tokens scan rest

theorem run_append (tokens : List JsonToken) (scan : JsonScan) (part rest : Bytes) :
    run tokens scan (part ++ rest) =
      (after tokens scan part).bind fun (tokens, scan) => run tokens scan rest := by
  induction part generalizing tokens scan with
  | nil => rfl
  | cons byte part ih =>
      rw [List.cons_append, run, after]
      cases scan.step tokens byte with
      | none => rfl
      | some stepped => exact ih stepped.1 stepped.2

theorem stepBetween_isSuffix (steps : stepBetween tokens byte = some (next, nextScan)) :
    tokens <:+ next := by
  simp only [stepBetween] at steps
  split at steps
  · cases steps
    exact List.suffix_rfl
  · split at steps
    · cases steps
      exact List.suffix_rfl
    · split at steps
      · cases steps
        exact List.suffix_rfl
      · obtain ⟨token, _, isNext⟩ := Option.map_eq_some_iff.mp steps
        cases isNext
        exact List.suffix_cons token tokens

/-- Tokens are added, never taken back. -/
theorem step_isSuffix (steps : scan.step tokens byte = some (next, nextScan)) : tokens <:+ next := by
  cases scan with
  | between => exact stepBetween_isSuffix steps
  | word reversed =>
      simp only [step] at steps
      split at steps
      · cases steps
        exact List.suffix_rfl
      · obtain ⟨token, _, steps⟩ := Option.bind_eq_some_iff.mp steps
        exact (List.suffix_cons token tokens).trans (stepBetween_isSuffix steps)
  | string reversed =>
      simp only [step] at steps
      split at steps
      · cases steps
        exact List.suffix_cons _ tokens
      · grind
  | escape reversed =>
      simp only [step] at steps
      grind
  | hexEscape reversed missing =>
      simp only [step] at steps
      grind

theorem after_isSuffix (arrives : after tokens scan part = some (next, nextScan)) :
    tokens <:+ next := by
  induction part generalizing tokens scan with
  | nil =>
      cases arrives
      exact List.suffix_rfl
  | cons byte part ih =>
      obtain ⟨⟨middle, _⟩, steps, later⟩ := Option.bind_eq_some_iff.mp arrives
      exact (step_isSuffix steps).trans (ih later)

/-- A closing brace at the end of a text is a token of its own. -/
theorem run_closing {rest : Bytes} (scans : run tokens scan (rest ++ [0x7d]) = some found) :
    ∃ before, tokens.reverse <+: before ∧ found = before ++ [.closeObject] := by
  rw [run_append] at scans
  obtain ⟨⟨before, last⟩, arrives, closes⟩ := Option.bind_eq_some_iff.mp scans
  have isSuffix := after_isSuffix arrives
  dsimp only at closes
  cases last with
  | between =>
      cases closes
      exact ⟨before.reverse, List.reverse_prefix.mpr isSuffix, List.reverse_cons⟩
  | word reversed =>
      have run_eq : run before (.word reversed) [0x7d] =
          (JsonToken.ofWord? reversed.reverse).map fun token =>
            (.closeObject :: token :: before).reverse := by
        cases isToken : JsonToken.ofWord? reversed.reverse <;>
          simp [run, step, stepBetween, isWordByte, isBlank, JsonLiteral.isDigit, isToken,
            JsonToken.ofPunctuation?, finish]
      rw [run_eq] at closes
      obtain ⟨token, _, rfl⟩ := Option.map_eq_some_iff.mp closes
      exact ⟨(token :: before).reverse,
        List.reverse_prefix.mpr (isSuffix.trans (List.suffix_cons token before)), List.reverse_cons⟩
  | string reversed => cases closes
  | escape reversed => cases closes
  | hexEscape reversed missing => cases closes

end JsonScan

namespace Outline

variable {state next : State} {token : JsonToken} {tokens : List JsonToken} {outline : Outline}

theorem run_append (state : State) (tokens more : List JsonToken) :
    run state (tokens ++ more) = (run state tokens).bind fun state => run state more := by
  induction tokens generalizing state with
  | nil => rfl
  | cons token tokens ih =>
      rw [List.cons_append, run, run]
      cases step token state with
      | none => rfl
      | some next => exact ih next

/-- Nothing leads back to where no container is open and nothing was read. -/
theorem step_ne_start : step token state ≠ some (.value []) := by
  have closes : ∀ outline frames, close outline frames ≠ .value [] := by
    intro outline frames
    cases frames with
    | nil => simp [close]
    | cons frame frames => cases frame <;> simp [close]
  have begins : ∀ frames, beginValue frames token ≠ some (.value []) := by
    intro frames
    cases token <;> simp [beginValue, closes]
  cases state with
  | value frames => exact begins frames
  | firstItem frames =>
      rw [step]
      split
      · simp [closes]
      · exact begins _
  | firstKey frames | key frames reversed | colon frames reversed key
  | afterItem frames reversed | afterMember frames reversed =>
      cases token <;> simp [step, closes]
  | complete outline => simp [step]

theorem eq_nil_of_run_start (runs : run state tokens = some (.value [])) : tokens = [] := by
  induction tokens generalizing state with
  | nil => rfl
  | cons token tokens ih =>
      rw [run] at runs
      split at runs
      case h_1 next steps =>
        obtain rfl := ih runs
        cases runs
        exact absurd steps step_ne_start
      case h_2 => cases runs

theorem close_ne_complete {frame : Frame} {frames : List Frame} {value : Outline} :
    close value (frame :: frames) ≠ .complete outline := by
  cases frame <;> simp [close]

/-- Only a bracket completes a value in which something is open. -/
theorem start_of_complete (noBracket : token ≠ .closeArray ∧ token ≠ .closeObject)
    (steps : step token state = some (.complete outline)) : state = .value [] := by
  have begins : ∀ frame frames,
      beginValue (frame :: frames) token ≠ some (.complete outline) := by
    intro frame frames
    cases token <;> simp [beginValue, close_ne_complete]
  cases state with
  | value frames =>
      cases frames with
      | nil => rfl
      | cons frame frames => exact absurd steps (begins frame frames)
  | firstItem frames =>
      rw [step, if_neg noBracket.1] at steps
      exact absurd steps (begins _ _)
  | firstKey frames | key frames reversed | colon frames reversed key
  | afterItem frames reversed | afterMember frames reversed =>
      cases token <;> simp_all [step]
  | complete outline => cases steps

theorem noBracket_of_ofWord? {word : Bytes} (isToken : JsonToken.ofWord? word = some token) :
    token ≠ .closeArray ∧ token ≠ .closeObject := by
  rw [JsonToken.ofWord?] at isToken
  split at isToken
  · cases isToken
    decide
  · split at isToken
    · cases isToken
      decide
    · split at isToken
      · cases isToken
        decide
      · obtain ⟨literal, _, rfl⟩ := Option.map_eq_some_iff.mp isToken
        simp

theorem ofBytes?_eq_some {text : Bytes} :
    ofBytes? text = some outline ↔ ∃ tokens, JsonToken.scan text = some tokens ∧
      run (.value []) tokens = some (.complete outline) := by
  have completes (tokens : List JsonToken) : ofTokens? tokens = some outline ↔
      run (.value []) tokens = some (.complete outline) := by
    rw [ofTokens?]
    grind
  rw [ofBytes?, Option.bind_eq_some_iff]
  simp only [completes]

/-- Nothing follows what is complete. -/
theorem run_more {more : List JsonToken} (runs : run state tokens = some (.complete outline))
    (further : more ≠ []) : run state (tokens ++ more) = none := by
  rw [run_append, runs]
  cases more with
  | nil => exact absurd rfl further
  | cons token more => rfl

/-- Where the first token was a bracket, the last one is not a word. -/
theorem not_complete_word {word : Bytes} (nonempty : tokens ≠ [])
    (isToken : JsonToken.ofWord? word = some token) :
    run (.value []) (tokens ++ [token]) ≠ some (.complete outline) := by
  intro runs
  rw [run_append] at runs
  obtain ⟨state, arrives, completes⟩ := Option.bind_eq_some_iff.mp runs
  have steps : step token state = some (.complete outline) := by
    rw [run] at completes
    split at completes
    case h_1 next steps =>
      cases completes
      exact steps
    case h_2 => cases completes
  obtain rfl := start_of_complete (noBracket_of_ofWord? isToken) steps
  exact nonempty (eq_nil_of_run_start arrives)

theorem ofBytes?_cut {inner part rest : Bytes} {whole : Outline}
    (isText : part ++ rest = 0x7b :: inner ++ [0x7d]) (cut : rest ≠ [])
    (reads : ofBytes? (part ++ rest) = some whole) : ofBytes? part = none := by
  obtain ⟨found, scans, runs⟩ := ofBytes?_eq_some.mp reads
  refine Option.eq_none_iff_forall_ne_some.mpr fun outline readsPart => ?_
  obtain ⟨foundPart, scansPart, runsPart⟩ := ofBytes?_eq_some.mp readsPart
  obtain ⟨most, rfl⟩ : ∃ most, rest = most ++ [0x7d] := by
    have last := congrArg List.getLast? isText
    rw [List.getLast?_append_of_ne_nil _ cut, List.getLast?_concat] at last
    exact List.getLast?_eq_some_iff.mp last
  rw [JsonToken.scan, JsonScan.run_append] at scans
  rw [← List.append_nil part, JsonToken.scan, JsonScan.run_append] at scansPart
  obtain ⟨⟨tokens, scan⟩, arrives, scansRest⟩ := Option.bind_eq_some_iff.mp scans
  rw [arrives] at scansPart
  change scan.finish tokens = some foundPart at scansPart
  obtain ⟨before, ⟨more, rfl⟩, rfl⟩ := JsonScan.run_closing scansRest
  cases scan with
  | between =>
      obtain rfl := Option.some.inj scansPart
      rw [List.append_assoc, run_more runsPart (by simp)] at runs
      cases runs
  | word reversed =>
      obtain ⟨token, isToken, rfl⟩ := Option.map_eq_some_iff.mp scansPart
      rw [List.reverse_cons] at runsPart
      have nonempty : tokens ≠ [] := by
        cases part with
        | nil => cases arrives
        | cons byte part =>
            obtain rfl : byte = 0x7b := (List.cons.inj isText).1
            have opened : [.openObject] <:+ tokens := JsonScan.after_isSuffix arrives
            rintro rfl
            cases List.suffix_nil.mp opened
      exact not_complete_word (by simpa using nonempty) isToken runsPart
  | string _ | escape _ | hexEscape _ _ => cases scansPart

end Outline

end RemarkAtlas
