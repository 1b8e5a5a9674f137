import RemarkAtlas.Gzip.Writer

/-!
Data in stored blocks are read back, however the content was cut into blocks.
-/

namespace RemarkAtlas.Gzip

theorem length_writeLittleEndian (width number : Nat) :
    (writeLittleEndian width number).length = width := by
  induction width generalizing number with
  | zero => rfl
  | succ width ih => simp [writeLittleEndian, ih]

theorem littleEndian_written {width number : Nat} (fits : number < Nat.pow 256 width) :
    littleEndian (writeLittleEndian width number) = number := by
  induction width generalizing number with
  | zero =>
      have isZero : number = 0 := by simpa using fits
      simp [writeLittleEndian, littleEndian, isZero]
  | succ width ih =>
      have restFits : number / 256 < Nat.pow 256 width := Nat.div_lt_of_lt_mul (by
        simpa [Nat.pow_succ, Nat.mul_comm] using fits)
      simp only [writeLittleEndian, littleEndian, ih restFits, UInt8.toNat_ofNat']
      omega

theorem takeBytes?_append (bytes rest : Bytes) :
    takeBytes? bytes.length (bytes ++ rest) = some (bytes, rest) := by
  simp [takeBytes?]

theorem littleEndian?_written {width number : Nat} (fits : number < Nat.pow 256 width)
    (rest : Bytes) :
    littleEndian? width (writeLittleEndian width number ++ rest) = some (number, rest) := by
  have taken := takeBytes?_append (writeLittleEndian width number) rest
  rw [length_writeLittleEndian] at taken
  simp only [littleEndian?, taken, Option.map_some, littleEndian_written fits]

namespace Inflate

open StoredBlock (startByte)

theorem bitsOf_startByte (isFinal : Bool) (padding : Fin 32) :
    ∃ left, BitSource.bitsOf (startByte isFinal padding) = isFinal :: false :: false :: left := by
  have starts : ∀ isFinal : Bool, ∀ padding : Fin 32,
      (BitSource.bitsOf (startByte isFinal padding)).take 3 = [isFinal, false, false] := by decide
  refine ⟨(BitSource.bitsOf (startByte isFinal padding)).drop 3, ?_⟩
  have parts := List.take_append_drop 3 (BitSource.bitsOf (startByte isFinal padding))
  rw [starts] at parts
  exact parts.symm

theorem next?_ofBytes (byte : UInt8) (bytes : Bytes) :
    (BitSource.ofBytes (byte :: bytes)).next? = BitSource.next? ⟨BitSource.bitsOf byte, bytes⟩ := rfl

theorem storedBlock_written (block : StoredBlock) (output : Array UInt8) (pending : List Bool)
    (rest : Bytes) :
    storedBlock output ⟨pending, writeLittleEndian 2 block.content.length ++
        writeLittleEndian 2 (0xffff - block.content.length) ++ block.content ++ rest⟩ =
      some (output.appendList block.content, .ofBytes rest) := by
  have fits := block.fits
  simp only [UInt16.size] at fits
  have sizeFits : block.content.length < Nat.pow 256 2 := fits
  have complementFits : 0xffff - block.content.length < Nat.pow 256 2 :=
    Nat.lt_of_le_of_lt (Nat.sub_le ..) (by decide)
  have complements : block.content.length + (0xffff - block.content.length) = 0xffff := by omega
  simp only [storedBlock, BitSource.align, List.append_assoc, littleEndian?_written sizeFits,
    littleEndian?_written complementFits, complements, takeBytes?_append, Option.bind_eq_bind,
    Option.bind_some, if_true]
  rfl

theorem block_stored (block : StoredBlock) (output : Array UInt8) (left : List Bool)
    (rest : Bytes) :
    Inflate.block output ⟨false :: false :: left, writeLittleEndian 2 block.content.length ++
        writeLittleEndian 2 (0xffff - block.content.length) ++ block.content ++ rest⟩ =
      some (output.appendList block.content, .ofBytes rest) :=
  storedBlock_written block output left rest

theorem blocks?_stored (limit : Nat) (block : StoredBlock) (isFinal : Bool) (output : Array UInt8)
    (rest : Bytes) :
    blocks? (limit + 1) output (.ofBytes (block.write isFinal ++ rest)) =
      if isFinal then some (output.appendList block.content, .ofBytes rest)
      else blocks? limit (output.appendList block.content) (.ofBytes rest) := by
  obtain ⟨left, bits⟩ := bitsOf_startByte isFinal block.padding
  rw [StoredBlock.write, List.cons_append, blocks?, next?_ofBytes, bits]
  simp only [BitSource.next?, block_stored]

theorem blocks?_written (earlier : List StoredBlock) (last : StoredBlock) (rest : Bytes)
    {limit : Nat} (enough : earlier.length < limit) (output : Array UInt8) :
    ∃ result, blocks? limit output (.ofBytes
        (earlier.flatMap (·.write false) ++ last.write true ++ rest)) =
          some (result, .ofBytes rest) ∧
      result.toList = output.toList ++ (earlier.flatMap (·.content) ++ last.content) := by
  induction earlier generalizing limit output with
  | nil =>
      obtain ⟨limit, rfl⟩ := Nat.exists_eq_add_one.mpr enough
      refine ⟨output.appendList last.content, ?_, by simp⟩
      rw [List.flatMap_nil, List.nil_append, blocks?_stored]
      rfl
  | cons block earlier ih =>
      obtain ⟨limit, rfl⟩ := Nat.exists_eq_add_one.mpr (Nat.zero_lt_of_lt enough)
      have enoughLeft : earlier.length < limit := by simpa using enough
      obtain ⟨result, read, content⟩ := ih enoughLeft (output.appendList block.content)
      refine ⟨result, ?_, ?_⟩
      · rw [List.flatMap_cons, List.append_assoc, List.append_assoc, blocks?_stored,
          ← List.append_assoc]
        exact read
      · simpa using content

theorem length_le_write (earlier : List StoredBlock) :
    earlier.length ≤ (earlier.flatMap (·.write false)).length := by
  induction earlier with
  | nil => exact Nat.le_refl 0
  | cons block earlier ih =>
      have nonempty : 0 < (block.write false).length := Nat.succ_pos _
      simp only [List.flatMap_cons, List.length_append, List.length_cons]
      omega

theorem inflate?_write (data : StoredData) (rest : Bytes) :
    inflate? (data.write ++ rest) = some (data.content, rest) := by
  have enough : data.earlier.length < (BitSource.ofBytes (data.write ++ rest)).size := by
    have earlierShort := length_le_write data.earlier
    have nonempty : 0 < (data.last.write true).length := Nat.succ_pos _
    simp only [BitSource.ofBytes, BitSource.size, StoredData.write, List.length_append,
      List.length_nil]
    omega
  obtain ⟨result, read, content⟩ := blocks?_written data.earlier data.last rest enough #[]
  rw [← StoredData.write] at read
  simp only [inflate?, read, Option.bind_eq_bind, Option.bind_some, content]
  rfl

end Inflate

end RemarkAtlas.Gzip
