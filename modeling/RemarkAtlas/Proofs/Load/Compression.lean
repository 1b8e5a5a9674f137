import RemarkAtlas.Proofs.Gzip.Member
import RemarkAtlas.Proofs.Load.RecordFile

/-!
Compression is transparent: a file with a gzip member of some content is loaded like a file with the
content itself, whatever the two are called.  A member whose checksum or length is wrong cannot be
read.
-/

namespace RemarkAtlas.RecordFile

inductive SameDocument (path other : Path) : Except LoadFault Json → Except LoadFault Json → Prop
  | document (document : Json) : SameDocument path other (.ok document) (.ok document)
  | notJson : SameDocument path other (.error (.notJson path)) (.error (.notJson other))

inductive SameUnit (path other : Path) :
    Except LoadFault CompilationUnit → Except LoadFault CompilationUnit → Prop
  | unit (unit : CompilationUnit) :
      SameUnit path other (.ok (unit.withFilename path)) (.ok (unit.withFilename other))
  | badDocument (fault : DocumentFault) :
      SameUnit path other (.error (.badDocument path fault)) (.error (.badDocument other fault))
  | notJson : SameUnit path other (.error (.notJson path)) (.error (.notJson other))

theorem isCompressed_iff {content : Bytes} :
    Gzip.isCompressed content = true ↔ [0x1f, 0x8b] <+: content := by
  rw [Gzip.isCompressed, beq_iff_eq, List.prefix_iff_eq_take]
  exact eq_comm

section Unpacked

variable {disk : FileSystem} {path : Path} {content : Bytes}

theorem unpacks_plain (notCompressed : ¬[0x1f, 0x8b] <+: content)
    (holds : disk.read? path = some content) : (disk.read? path).bind unpack? = some content := by
  rw [holds, Option.bind_some, unpack?, if_neg (mt isCompressed_iff.mp notCompressed)]

theorem unpacks_member {member : Gzip.Member} {trailing : Bytes}
    (holds : disk.read? path = some (member.write ++ trailing)) :
    (disk.read? path).bind unpack? = Gzip.decompress? (member.write ++ trailing) := by
  rw [holds, Option.bind_some, unpack?, if_pos (Gzip.Member.isCompressed_write ..)]

theorem loadUnit_of_error (options : Document.Options) {fault : LoadFault}
    (fails : readDocument disk path = .error fault) :
    loadUnit disk options path = .error fault := by
  rw [loadUnit, fails]
  rfl

end Unpacked

section Same

variable {disk otherDisk : FileSystem} {path other : Path}

theorem sameDocument_of_unpacks {content : Bytes}
    (unpacks : (disk.read? path).bind unpack? = some content)
    (otherUnpacks : (otherDisk.read? other).bind unpack? = some content) :
    SameDocument path other (readDocument disk path) (readDocument otherDisk other) := by
  cases reads : Json.ofBytes? content with
  | none =>
      rw [readDocument_notJson unpacks reads, readDocument_notJson otherUnpacks reads]
      exact .notJson
  | some document =>
      rw [readDocument_ok unpacks reads, readDocument_ok otherUnpacks reads]
      exact .document document

theorem SameDocument.sameUnit (options : Document.Options)
    (same : SameDocument path other (readDocument disk path) (readDocument otherDisk other)) :
    SameUnit path other (loadUnit disk options path) (loadUnit otherDisk options other) := by
  generalize read : readDocument disk path = result at same
  generalize otherRead : readDocument otherDisk other = otherResult at same
  cases same with
  | notJson =>
      rw [loadUnit_of_error options read, loadUnit_of_error options otherRead]
      exact .notJson
  | document document =>
      simp only [loadUnit, read, otherRead, bind, Except.bind]
      cases Document.readUnit options document with
      | error fault => exact .badDocument fault
      | ok unit => exact .unit unit

end Same

theorem load_compressed {plain packed : FileSystem} {plainPath packedPath : Path}
    {content trailing : Bytes} {member : Gzip.Member} (options : Document.Options)
    (notCompressed : ¬[0x1f, 0x8b] <+: content) (holds : plain.read? plainPath = some content)
    (isCut : member.content = content)
    (packs : packed.read? packedPath = some (member.write ++ trailing)) :
    (member.IsIntact →
      SameDocument plainPath packedPath (readDocument plain plainPath)
        (readDocument packed packedPath) ∧
      SameUnit plainPath packedPath (loadUnit plain options plainPath)
        (loadUnit packed options packedPath)) ∧
    (¬member.IsIntact →
      readDocument packed packedPath = .error (.unreadable packedPath) ∧
      loadUnit packed options packedPath = .error (.unreadable packedPath)) := by
  have packedContent := unpacks_member packs
  constructor
  · intro intact
    rw [Gzip.Member.decompress?_intact intact, isCut] at packedContent
    have same := sameDocument_of_unpacks (unpacks_plain notCompressed holds) packedContent
    exact ⟨same, same.sameUnit options⟩
  · intro damaged
    rw [Gzip.Member.decompress?_damaged damaged] at packedContent
    have fails := readDocument_unreadable packedContent
    exact ⟨fails, loadUnit_of_error options fails⟩

def digitBytes : Bytes := [0x31, 0x32, 0x33, 0x34, 0x35, 0x36, 0x37, 0x38, 0x39]

def packedDigits : Gzip.Member :=
  .ofData
    { isText := false, modified := 0x65000000, level := 0, system := 3,
      extra := some ⟨[1, 2, 3], by decide⟩, name := some ⟨[0x61], by decide, by decide⟩,
      comment := none, hasCheck := true }
    { earlier := [⟨[0x31, 0x32, 0x33, 0x34], 21, by decide⟩, ⟨[], 0, by decide⟩],
      last := ⟨[0x35, 0x36, 0x37, 0x38, 0x39], 0, by decide⟩ }

def damagedDigits : Gzip.Member := { packedDigits with size := 8 }

def packedBytes : Bytes :=
  [0x1f, 0x8b, 0x08, 0x0e, 0x00, 0x00, 0x00, 0x65, 0x00, 0x03, 0x03, 0x00, 0x01, 0x02, 0x03, 0x61,
    0x00, 0x95, 0xd3, 0xa8, 0x04, 0x00, 0xfb, 0xff, 0x31, 0x32, 0x33, 0x34, 0x00, 0x00, 0x00, 0xff,
    0xff, 0x01, 0x05, 0x00, 0xfa, 0xff, 0x35, 0x36, 0x37, 0x38, 0x39, 0x26, 0x39, 0xf4, 0xcb]

def digitsDisk : FileSystem where
  root := .directory [("plain.gz", .file digitBytes),
    ("packed.txt", .file (packedBytes ++ [9, 0, 0, 0] ++ [0x50, 0x4b])),
    ("damaged.txt", .file (packedBytes ++ [8, 0, 0, 0] ++ [0x50, 0x4b]))]
  workingDirectory := []

theorem write_packedDigits :
    packedDigits.write = packedBytes ++ [9, 0, 0, 0] ∧
      damagedDigits.write = packedBytes ++ [8, 0, 0, 0] := by
  constructor <;> cbv

theorem digits_loaded :
    ¬[0x1f, 0x8b] <+: digitBytes ∧ digitsDisk.read? ⟨"plain.gz"⟩ = some digitBytes ∧
    (packedDigits.content = digitBytes ∧ packedDigits.IsIntact ∧
      digitsDisk.read? ⟨"packed.txt"⟩ = some (packedDigits.write ++ [0x50, 0x4b]) ∧
      readDocument digitsDisk ⟨"packed.txt"⟩ = .ok (.natural 123456789)) ∧
    (damagedDigits.content = digitBytes ∧ ¬damagedDigits.IsIntact ∧
      digitsDisk.read? ⟨"damaged.txt"⟩ = some (damagedDigits.write ++ [0x50, 0x4b]) ∧
      readDocument digitsDisk ⟨"damaged.txt"⟩ = .error (.unreadable ⟨"damaged.txt"⟩)) := by
  have notCompressed : ¬[0x1f, 0x8b] <+: digitBytes := by decide
  have holds : digitsDisk.read? ⟨"plain.gz"⟩ = some digitBytes := rfl
  have packs : digitsDisk.read? ⟨"packed.txt"⟩ = some (packedDigits.write ++ [0x50, 0x4b]) := by
    rw [write_packedDigits.1]
    rfl
  have otherPacks : digitsDisk.read? ⟨"damaged.txt"⟩ =
      some (damagedDigits.write ++ [0x50, 0x4b]) := by
    rw [write_packedDigits.2]
    rfl
  have intact : packedDigits.IsIntact := Gzip.Member.isIntact_ofData _ _
  have damaged : ¬damagedDigits.IsIntact := fun intact => absurd intact.size (by decide)
  have isNumber : readDocument digitsDisk ⟨"plain.gz"⟩ = .ok (.natural 123456789) := rfl
  have same := ((load_compressed {} notCompressed holds rfl packs).1 intact).1
  have fails := ((load_compressed {} notCompressed holds rfl otherPacks).2 damaged).1
  rw [isNumber] at same
  refine ⟨notCompressed, holds, ⟨rfl, intact, packs, ?_⟩, rfl, damaged, otherPacks, fails⟩
  generalize readDocument digitsDisk ⟨"packed.txt"⟩ = result at same
  cases same
  rfl

end RemarkAtlas.RecordFile
