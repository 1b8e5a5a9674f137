import RemarkAtlas.Text.Utf8

/-!
The bytes of a text are those of its characters, one after another.  A byte below `0x80` stands only
for the character that has its number.
-/

namespace RemarkAtlas.Utf8

theorem encode_append (left right : String) :
    encode (left ++ right) = encode left ++ encode right := by
  simp [encode]

theorem encode_ofList (chars : List Char) :
    encode (String.ofList chars) = chars.flatMap String.utf8EncodeChar := by
  simp [encode, List.utf8Encode]

theorem encodeChar_ascii {char : Char} (ascii : char.toNat < 0x80) :
    String.utf8EncodeChar char = [UInt8.ofNat char.toNat] := by
  have small : char.val.toNat ≤ 127 := Nat.le_of_lt_succ ascii
  rw [String.utf8EncodeChar]
  exact if_pos small

theorem encodeChar_ge {char : Char} (notAscii : ¬ char.toNat < 0x80) :
    ∀ byte ∈ String.utf8EncodeChar char, 0x80 ≤ byte := by
  have large : ∀ number : Nat, 0x80 ≤ number → number < 0x100 → 0x80 ≤ UInt8.ofNat number := by
    intro number least small
    rw [UInt8.le_iff_toNat_le, UInt8.toNat_ofNat_of_lt' small]
    exact least
  have notSmall : ¬ char.val.toNat ≤ 127 := fun small => notAscii (Nat.lt_succ_of_le small)
  rw [String.utf8EncodeChar]
  simp only [if_neg notSmall]
  split
  · simp only [List.forall_mem_cons, List.not_mem_nil, false_implies, implies_true, and_true]
    exact ⟨large _ (by omega) (by omega), large _ (by omega) (by omega)⟩
  · split
    · simp only [List.forall_mem_cons, List.not_mem_nil, false_implies, implies_true, and_true]
      exact ⟨large _ (by omega) (by omega), large _ (by omega) (by omega),
        large _ (by omega) (by omega)⟩
    · simp only [List.forall_mem_cons, List.not_mem_nil, false_implies, implies_true, and_true]
      exact ⟨large _ (by omega) (by omega), large _ (by omega) (by omega),
        large _ (by omega) (by omega), large _ (by omega) (by omega)⟩

theorem mem_encode_ascii {char : Char} (ascii : char.toNat < 0x80) {text : String} :
    UInt8.ofNat char.toNat ∈ encode text ↔ char ∈ text.toList := by
  have number (other : Char) (otherAscii : other.toNat < 0x80) :
      (UInt8.ofNat other.toNat).toNat = other.toNat :=
    UInt8.toNat_ofNat_of_lt' (Nat.lt_trans otherAscii (by decide))
  rw [← String.ofList_toList (s := text), encode_ofList, List.mem_flatMap, String.toList_ofList]
  constructor
  · rintro ⟨other, member, inOther⟩
    by_cases otherAscii : other.toNat < 0x80
    · rw [encodeChar_ascii otherAscii, List.mem_singleton] at inOther
      have same := congrArg UInt8.toNat inOther
      rw [number char ascii, number other otherAscii] at same
      rwa [Char.toNat_inj.mp same]
    · have large := UInt8.le_iff_toNat_le.mp (encodeChar_ge otherAscii _ inOther)
      rw [number char ascii] at large
      exact absurd ascii (Nat.not_lt.mpr large)
  · intro member
    exact ⟨char, member, by rw [encodeChar_ascii ascii]; exact List.mem_singleton_self _⟩

end RemarkAtlas.Utf8
