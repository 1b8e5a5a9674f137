import RemarkAtlas.Proofs.Gzip.Checksum
import RemarkAtlas.Proofs.Gzip.Stored

/-!
A member is read back whatever its header is, if the checksum and the length after the data are
those of the content; a member with another checksum or length is refused.
-/

namespace RemarkAtlas.Gzip

theorem afterText?_append {bytes : Bytes} (noZero : 0 ∉ bytes) {limit : Nat}
    (enough : bytes.length ≤ limit) (rest : Bytes) :
    afterText? limit (bytes ++ 0 :: rest) = some rest := by
  induction bytes generalizing limit with
  | nil => cases limit <;> simp [afterText?]
  | cons byte bytes ih =>
      obtain ⟨limit, rfl⟩ := Nat.exists_eq_add_one.mpr (Nat.zero_lt_of_lt enough)
      rw [List.mem_cons, not_or] at noZero
      rw [List.cons_append, afterText?, if_neg (Ne.symm noZero.1)]
      exact ih noZero.2 (Nat.le_of_succ_le_succ enough)

theorem afterText?_write (text : HeaderText) (rest : Bytes) :
    afterText? greatestTextLength (text.write ++ rest) = some rest := by
  rw [HeaderText.write, List.append_assoc, List.singleton_append]
  exact afterText?_append text.noZero (Nat.le_of_lt text.short) rest

theorem afterExtraField?_write (field : ExtraField) (rest : Bytes) :
    afterExtraField? (field.write ++ rest) = some rest := by
  have fits : field.bytes.length < Nat.pow 256 2 := Nat.lt_trans field.short (by decide)
  simp [afterExtraField?, ExtraField.write, littleEndian?_written fits, takeBytes?_append]

/-- An optional field of a header is skipped if its flag tells that it is there. -/
theorem skipIf_written {Field : Type} {write : Field → Bytes} {skip : Bytes → Option Bytes}
    (skips : ∀ field rest, skip (write field ++ rest) = some rest) (field : Option Field)
    (rest : Bytes) : skipIf field.isSome skip (field.elim [] write ++ rest) = some rest := by
  cases field with
  | none => rfl
  | some field => exact skips field rest

namespace MemberHeader

variable (header : MemberHeader)

/-- The bits of the byte that tells which fields there are. -/
theorem testBit_flags :
    header.flags.toNat.testBit 1 = header.hasCheck ∧
    header.flags.toNat.testBit 2 = header.extra.isSome ∧
    header.flags.toNat.testBit 3 = header.name.isSome ∧
    header.flags.toNat.testBit 4 = header.comment.isSome ∧
    (header.flags.toNat.testBit 5 || header.flags.toNat.testBit 6 ||
      header.flags.toNat.testBit 7) = false := by
  rw [flags]
  generalize header.isText = isText
  generalize header.hasCheck = hasCheck
  generalize header.extra.isSome = hasExtra
  generalize header.name.isSome = hasName
  generalize header.comment.isSome = hasComment
  revert isText hasCheck hasExtra hasName hasComment
  decide

theorem skipIf_check (rest : Bytes) :
    skipIf header.hasCheck (afterHeaderCheck? (header.write ++ rest)) (header.check ++ rest) =
      some rest := by
  have fits : (crc32 header.checked).toNat % UInt16.size < Nat.pow 256 2 :=
    Nat.mod_lt _ (by decide)
  rw [write, check, List.append_assoc]
  cases header.hasCheck with
  | false => rfl
  | true => simp [skipIf, afterHeaderCheck?, littleEndian?_written fits]

/-- The bytes of a header that are there in any case, and the others. -/
theorem exists_write_eq (rest : Bytes) :
    ∃ first second third fourth fifth sixth : UInt8,
      header.write ++ rest = 0x1f :: 0x8b :: 0x08 :: header.flags ::
        first :: second :: third :: fourth :: fifth :: sixth ::
        (header.extra.elim [] (·.write) ++ (header.name.elim [] (·.write) ++
          (header.comment.elim [] (·.write) ++ (header.check ++ rest)))) := by
  let time := header.modified.toNat
  refine ⟨UInt8.ofNat time, UInt8.ofNat (time / 256), UInt8.ofNat (time / 256 / 256),
    UInt8.ofNat (time / 256 / 256 / 256), header.level, header.system, ?_⟩
  rw [write]
  generalize header.check = check
  simp only [checked, magic, fields, writeLittleEndian, List.cons_append, List.nil_append,
    List.append_assoc]
  rfl

theorem afterHeader?_write (rest : Bytes) : afterHeader? (header.write ++ rest) = some rest := by
  obtain ⟨hasCheck, hasExtra, hasName, hasComment, notReserved⟩ := header.testBit_flags
  obtain ⟨first, second, third, fourth, fifth, sixth, parts⟩ := header.exists_write_eq rest
  have checks := header.skipIf_check rest
  rw [parts] at checks ⊢
  simp only [afterHeader?, hasCheck, hasExtra, hasName, hasComment, notReserved,
    skipIf_written afterExtraField?_write, skipIf_written afterText?_write, Bool.false_eq_true,
    if_false, Option.bind_eq_bind, Option.bind_some, checks]

end MemberHeader

namespace Member

structure IsIntact (member : Member) : Prop where
  checksum : IsChecksum member.content member.checksum
  size : member.size.toNat = member.content.length % UInt32.size

def ofData (header : MemberHeader) (data : StoredData) : Member :=
  { header, data, checksum := crc32 data.content, size := UInt32.ofNat data.content.length }

theorem isIntact_ofData (header : MemberHeader) (data : StoredData) :
    (ofData header data).IsIntact where
  checksum := isChecksum_iff.mpr rfl
  size := UInt32.toNat_ofNat'

variable {member : Member}

theorem decompress?_write (rest : Bytes) :
    decompress? (member.write ++ rest) =
      if member.checksum.toNat = (crc32 member.content).toNat ∧
          member.size.toNat = member.content.length % UInt32.size then some member.content
      else none := by
  have checksumFits : member.checksum.toNat < Nat.pow 256 4 := member.checksum.toNat_lt
  have sizeFits : member.size.toNat < Nat.pow 256 4 := member.size.toNat_lt
  simp only [decompress?, write, List.append_assoc, MemberHeader.afterHeader?_write,
    Inflate.inflate?_write, littleEndian?_written checksumFits, littleEndian?_written sizeFits,
    Option.bind_eq_bind, Option.bind_some]
  rfl

theorem decompress?_intact (intact : member.IsIntact) (rest : Bytes) :
    decompress? (member.write ++ rest) = some member.content := by
  have sameChecksum := congrArg UInt32.toNat (isChecksum_iff.mp intact.checksum)
  rw [decompress?_write, if_pos ⟨sameChecksum, intact.size⟩]

theorem decompress?_damaged (damaged : ¬member.IsIntact) (rest : Bytes) :
    decompress? (member.write ++ rest) = none := by
  rw [decompress?_write, if_neg]
  rintro ⟨sameChecksum, sameSize⟩
  exact damaged ⟨isChecksum_iff.mpr (UInt32.toNat_inj.mp sameChecksum), sameSize⟩

theorem isCompressed_write (member : Member) (rest : Bytes) :
    isCompressed (member.write ++ rest) = true := by
  obtain ⟨_, _, _, _, _, _, start⟩ := member.header.exists_write_eq (member.data.write ++
    (writeLittleEndian 4 member.checksum.toNat ++ (writeLittleEndian 4 member.size.toNat ++ rest)))
  rw [isCompressed, write, List.append_assoc, List.append_assoc, List.append_assoc, start]
  rfl

end Member

end RemarkAtlas.Gzip
