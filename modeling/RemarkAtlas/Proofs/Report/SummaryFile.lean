import RemarkAtlas.Proofs.Report.Rows
import RemarkAtlas.Proofs.Report.SummaryText

/-!
A summary in a file.  It is written through a buffer, and a file that is too short for it keeps the
beginning of its text.  What was written can be read back if it is all there.
-/

namespace RemarkAtlas

namespace Output

variable {before after : FileSystem} {path : Path} {summary : Summary}

theorem writeBuffered_eq_ok {pieces : List Bytes} :
    writeBuffered path pieces before = .ok () after ↔
      ((BufferedFile.create (before.room path)).writeAll pieces).1 = true ∧
        before.write? path ((before.room path).keep pieces.flatten) = some after := by
  rw [writeBuffered, createFile_eq_ok]
  cases written : (BufferedFile.create (before.room path)).writeAll pieces with
  | mk succeeds file =>
      cases succeeds with
      | false => simp
      | true =>
          have closes := BufferedFile.close_writeAll written
          simp [closes, BufferedFile.create, BufferedFile.written]

theorem writeBuffered_of_fits {pieces : List Bytes}
    (fits : (before.room path).fits pieces.flatten = true) :
    writeBuffered path pieces before =
      match before.write? path pieces.flatten with
      | some after => .ok () after
      | none => .error .writeFailed before := by
  have succeeds : ((BufferedFile.create (before.room path)).writeAll pieces).1 = true :=
    BufferedFile.writeAll_succeeds fits
  rw [writeBuffered, createFile_eq]
  cases written : (BufferedFile.create (before.room path)).writeAll pieces with
  | mk succeeded file =>
      obtain rfl : succeeded = true := by rwa [written] at succeeds
      have holds : file.close = pieces.flatten :=
        (BufferedFile.close_writeAll written).trans (Room.keep_eq_iff.mpr fits)
      simp only [holds, if_true]
      cases before.write? path pieces.flatten <;> rfl

theorem makeParent_eq (path : Path) (disk : FileSystem) :
    makeParent path disk =
      match path.parent? with
      | none => .ok () disk
      | some parent =>
        if parent.isEmpty || disk.exists? parent then .ok () disk
        else makeDirectory parent (.invalidPath (.cannotCreate parent)) disk := by
  rw [makeParent]
  cases path.parent? with
  | none => rfl
  | some parent =>
      change (if parent.isEmpty || disk.exists? parent then pure ()
        else makeDirectory parent (.invalidPath (.cannotCreate parent)) : Writing Unit) disk = _
      dsimp only
      split <;> rfl

theorem makeParent_sound (sound : before.IsSound) (makes : makeParent path before = .ok () after) :
    after.IsSound := by
  rw [makeParent_eq] at makes
  split at makes
  case h_1 =>
    cases makes
    exact sound
  case h_2 parent _ =>
    split at makes
    · cases makes
      exact sound
    · obtain rfl := makeDirectory_eq_ok makes
      exact sound.createDirectory parent

theorem writeSummary_eq (summary : Summary) (path : Path) (disk : FileSystem) :
    writeSummary summary path disk =
      match checkPath disk path with
      | .error cause => .error (.invalidPath cause) disk
      | .ok () => (makeParent path >>= fun _ => writeBuffered path summary.pieces) disk := by
  change (match checkPath disk path with
    | .error cause => fail (.invalidPath cause)
    | .ok () => makeParent path >>= fun _ => writeBuffered path summary.pieces : Writing Unit) disk =
      _
  cases checkPath disk path <;> rfl

theorem writeSummary_of_fits {middle : FileSystem} (checks : checkPath before path = .ok ())
    (makes : makeParent path before = .ok () middle)
    (fits : (middle.room path).fits (Utf8.encode summary.render) = true)
    (written : middle.write? path (Utf8.encode summary.render) = some after) :
    writeSummary summary path before = .ok () after := by
  rw [← Summary.flatten_pieces] at fits written
  rw [writeSummary_eq, checks]
  refine bind_eq_ok.mpr ⟨(), middle, makes, ?_⟩
  rw [writeBuffered_of_fits fits, written]

theorem writeSummary_content (sound : before.IsSound)
    (writes : writeSummary summary path before = .ok () after) :
    after.content? path = some ((after.room path).keep (Utf8.encode summary.render)) := by
  rw [writeSummary_eq] at writes
  split at writes
  case h_1 => cases writes
  case h_2 =>
    obtain ⟨_, middle, makes, writesFile⟩ := bind_eq_ok.mp writes
    have middleSound := makeParent_sound sound makes
    have written := (writeBuffered_eq_ok.mp writesFile).2
    rw [FileSystem.content?_of_write middleSound written,
      FileSystem.room_write middleSound written, Summary.flatten_pieces]

/-- A summary that was written can be read back if and only if the file had room for all of it and
can be opened; that the file was too short is not told to the writer. -/
theorem readSummary_writeSummary (sound : before.IsSound) (fits : summary.Fits)
    (writes : writeSummary summary path before = .ok () after) :
    after.content? path = some ((after.room path).keep (Utf8.encode summary.render)) ∧
      (readSummary after path = .ok summary ↔
        (after.room path).fits (Utf8.encode summary.render) = true ∧
          (after.open? path).isSome = true) := by
  have holds := writeSummary_content sound writes
  refine ⟨holds, ?_⟩
  rw [readSummary]
  rcases FileSystem.open?_of_content holds with closed | isFile
  · simp [closed]
  · rw [isFile]
    by_cases keeps : (after.room path).keep (Utf8.encode summary.render) =
        Utf8.encode summary.render
    · simp [keeps, Room.keep_eq_iff.mp keeps, Summary.ofBytes?_render fits]
    · have cut := Summary.ofBytes?_cut fits (Room.keep_isPrefix _ _) keeps
      simp [cut, ← Room.keep_eq_iff, keeps]

def extremeSummary : Summary where
  version := ""
  unitCount := UInt64.size - 1
  preciseOnly := true
  functions := [⟨"\"\\\x00\x1f\x7f", some "", none, some "null", none⟩,
    ⟨"f", none, some (UInt64.ofNat (UInt64.size - 1)), none, some ⟨"ü\n", 0, 4294967295⟩⟩]
  passes := [⟨none, 0, UInt64.size - 1⟩, ⟨some "\t\r\x08\x0c", UInt64.size - 1, 0⟩]
  hottest := [⟨"note", none, some "g", none, some 0, "\x7b\",:[]\x7d"⟩,
    ⟨"", some "😀", none, some ⟨"", 1, 0⟩, none, "\n\n"⟩]
  generatedAt := "2025-01-01T00:00:00Z"

def freshDisk : FileSystem where
  root := .directory [("old", .directory [])]
  workingDirectory := ["old"]

def extremeDisk : FileSystem :=
  (freshDisk.put ["new"] (.directory [])).put ["new", "summary.json"]
    (.file (Utf8.encode extremeSummary.render))

theorem extremeSummary_survives :
    freshDisk.IsSound ∧ extremeSummary.Fits ∧
      writeSummary extremeSummary ⟨"../new/summary.json"⟩ freshDisk = .ok () extremeDisk ∧
      readSummary extremeDisk ⟨"../new/summary.json"⟩ = .ok extremeSummary := by
  have sound : freshDisk.IsSound := ⟨[], rfl⟩
  have fits : extremeSummary.Fits := ⟨by decide, by decide⟩
  have makes : makeParent ⟨"../new/summary.json"⟩ freshDisk =
      .ok () (freshDisk.put ["new"] (.directory [])) := rfl
  have writes : writeSummary extremeSummary ⟨"../new/summary.json"⟩ freshDisk =
      .ok () extremeDisk := writeSummary_of_fits rfl makes rfl rfl
  exact ⟨sound, fits, writes, (readSummary_writeSummary sound fits writes).2.mpr ⟨rfl, rfl⟩⟩

/-- A disk with a file that takes no byte. -/
def fullDisk : FileSystem where
  root := .directory [("dev", .directory [("full", .file [])])]
  workingDirectory := []
  limits := { rooms := [(["dev", "full"], 0)] }

def emptySummary : Summary := .ofUnits .retainAll 20 "2025-01-01T00:00:00Z" []

theorem emptySummary_lost :
    emptySummary.Fits ∧ ∃ after,
      writeSummary emptySummary ⟨"/dev/full"⟩ fullDisk = .ok () after ∧
        readSummary after ⟨"/dev/full"⟩ = .error .malformedSummary := by
  obtain ⟨_, writes⟩ := @eq_ok_diskLeft _ (writeSummary emptySummary ⟨"/dev/full"⟩ fullDisk)
    (by decide +kernel)
  exact ⟨⟨by decide, by decide⟩, _, writes, by decide +kernel⟩

end Output

end RemarkAtlas
