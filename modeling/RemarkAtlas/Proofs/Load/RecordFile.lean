import RemarkAtlas.Load.RecordFile
import RemarkAtlas.Proofs.Json.Reading

/-!
Loading record files, and in particular those that hold printed documents.  No JSON text looks like
a compressed file, so such a document is read as it was printed.
-/

namespace RemarkAtlas.RecordFile

variable {disk : FileSystem} {path : Path} {content : Bytes} {document : Json}

theorem isCompressed_of_json (reads : Json.ofBytes? content = some document) :
    Gzip.isCompressed content = false := by
  refine beq_eq_false_iff_ne.mpr fun isMagic => ?_
  cases content with
  | nil => cases isMagic
  | cons first rest =>
      obtain rfl : first = 0x1f := (List.cons.inj isMagic).1
      have noJson : Json.ofBytes? (0x1f :: rest) = none := rfl
      rw [noJson] at reads
      cases reads

theorem findFiles_eq_ok {directory : Path} {paths : List Path} :
    findFiles disk directory = .ok paths ↔ disk.findRecordFiles? directory = some paths := by
  rw [findFiles]
  cases disk.findRecordFiles? directory <;> simp

theorem loadUnit_eq_ok {options : Document.Options} {unit : CompilationUnit} :
    loadUnit disk options path = .ok unit ↔
      ∃ document read, readDocument disk path = .ok document ∧
        Document.readUnit options document = .ok read ∧ unit = read.withFilename path := by
  rw [loadUnit]
  cases readDocument disk path with
  | error fault => simp [bind, Except.bind]
  | ok document =>
      cases describes : Document.readUnit options document with
      | error fault => simp [bind, Except.bind, describes]
      | ok read => simp [bind, Except.bind, pure, Except.pure, describes, eq_comm]

theorem readDocument_unreadable (fails : (disk.read? path).bind unpack? = none) :
    readDocument disk path = .error (.unreadable path) := by
  simp only [readDocument, fails]

theorem readDocument_notJson (unpacks : (disk.read? path).bind unpack? = some content)
    (refused : Json.ofBytes? content = none) :
    readDocument disk path = .error (.notJson path) := by
  simp only [readDocument, unpacks, refused]

theorem readDocument_ok (unpacks : (disk.read? path).bind unpack? = some content)
    (reads : Json.ofBytes? content = some document) : readDocument disk path = .ok document := by
  simp only [readDocument, unpacks, reads]

theorem readDocument_pretty {level : Nat} (isRead : document.IsRead Json.depthLimit)
    (holds : disk.read? path = some (Utf8.encode (document.pretty level))) :
    readDocument disk path = .ok document := by
  have reads := Json.ofBytes?_pretty isRead level
  refine readDocument_ok ?_ reads
  rw [holds, Option.bind_some, unpack?, isCompressed_of_json reads, if_neg Bool.false_ne_true]

theorem loadUnit_pretty {options : Document.Options} {unit : CompilationUnit} {level : Nat}
    (isRead : document.IsRead Json.depthLimit)
    (holds : disk.read? path = some (Utf8.encode (document.pretty level)))
    (describes : Document.readUnit options document = .ok unit) :
    loadUnit disk options path = .ok (unit.withFilename path) :=
  loadUnit_eq_ok.mpr ⟨document, unit, readDocument_pretty isRead holds, describes, rfl⟩

end RemarkAtlas.RecordFile
