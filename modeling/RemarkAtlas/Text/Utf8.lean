/-!
Text and its UTF-8 bytes.  Contents and names of files are lists of bytes, for which a text may
stand. `decode` is undefined on bytes that are not the encoding of a text, and otherwise inverts
`encode`.
-/

namespace RemarkAtlas

abbrev Bytes := List UInt8

namespace Utf8

@[coe] def encode (text : String) : Bytes := text.toByteArray.data.toList

instance : Coe String Bytes := ⟨encode⟩

def decode (bytes : Bytes) : Option String := String.fromUTF8? ⟨bytes.toArray⟩

def followers? (first : UInt8) : Option (List (UInt8 × UInt8)) :=
  if first < 0x80 then some []
  else if first < 0xc2 then none
  else if first < 0xe0 then some [(0x80, 0xbf)]
  else if first = 0xe0 then some [(0xa0, 0xbf), (0x80, 0xbf)]
  else if first = 0xed then some [(0x80, 0x9f), (0x80, 0xbf)]
  else if first < 0xf0 then some [(0x80, 0xbf), (0x80, 0xbf)]
  else if first = 0xf0 then some [(0x90, 0xbf), (0x80, 0xbf), (0x80, 0xbf)]
  else if first < 0xf4 then some [(0x80, 0xbf), (0x80, 0xbf), (0x80, 0xbf)]
  else if first = 0xf4 then some [(0x80, 0x8f), (0x80, 0xbf), (0x80, 0xbf)]
  else none

def matchCount : List (UInt8 × UInt8) → Bytes → Nat
  | (least, greatest) :: expected, byte :: rest =>
    if least ≤ byte ∧ byte ≤ greatest then matchCount expected rest + 1 else 0
  | _, _ => 0

/-- The text after so many bytes that were looked at; what is no character is replaced as far as one
could have begun there. -/
def replaceInvalid : Nat → Bytes → String
  | _, [] => ""
  | skipped + 1, _ :: rest => replaceInvalid skipped rest
  | 0, first :: rest =>
    let matched := matchCount ((followers? first).getD []) rest
    (decode (first :: rest.take matched)).getD "\ufffd" ++ replaceInvalid matched rest

def display (bytes : Bytes) : String := (decode bytes).getD (replaceInvalid 0 bytes)

theorem decode_encode (text : String) : decode (encode text) = some text := by
  simp [decode, encode, String.fromUTF8?, text.isValidUTF8, String.fromUTF8]

theorem encode_of_decode {bytes : Bytes} {text : String} (read : decode bytes = some text) :
    encode text = bytes := by
  simp only [decode, String.fromUTF8?, String.fromUTF8, Option.dite_none_right_eq_some,
    Option.some.injEq] at read
  obtain ⟨valid, rfl⟩ := read
  simp [encode]

theorem encode_injective {left right : String} (same : encode left = encode right) :
    left = right := by
  have read := decode_encode left
  rw [same, decode_encode, Option.some.injEq] at read
  exact read.symm

end Utf8

end RemarkAtlas
