import Mathlib.Data.List.TakeDrop
import RemarkAtlas.Disk.BufferedFile

/-!
Writing through a buffer.  Until a write fails, what was stored and what waits in the buffer is what
was written.  Closing the file stores what there is room for, and nobody is told whether that was
all.
-/

namespace RemarkAtlas

namespace Room

variable {room : Room} {content more : Bytes}

theorem keep_eq_iff : room.keep content = content ↔ room.fits content = true := by
  cases room <;> simp [keep, fits]

theorem keep_isPrefix (room : Room) (content : Bytes) : room.keep content <+: content := by
  cases room with
  | none => exact List.prefix_rfl
  | some greatest => exact List.take_prefix greatest content

theorem fits_left (allFit : room.fits (content ++ more) = true) : room.fits content = true := by
  cases room with
  | none => rfl
  | some greatest =>
      simp only [fits, Option.all_some, decide_eq_true_eq, List.length_append] at allFit ⊢
      omega

end Room

namespace BufferedFile

variable {file after : BufferedFile} {piece bytes more : Bytes} {pieces : List Bytes}

def written (file : BufferedFile) : Bytes := file.stored ++ file.buffer

theorem close_eq (file : BufferedFile) : file.close = file.room.keep file.written := rfl

structure Adds (bytes : Bytes) (file after : BufferedFile) : Prop where
  room : after.room = file.room
  written : after.written = file.written ++ bytes

theorem Adds.trans {middle : BufferedFile} (first : Adds bytes file middle)
    (second : Adds more middle after) : Adds (bytes ++ more) file after where
  room := second.room.trans first.room
  written := by rw [second.written, first.written, List.append_assoc]

theorem store_adds (empty : file.buffer = []) (stores : file.store bytes = (true, after)) :
    Adds bytes file after := by
  obtain ⟨fits, rfl⟩ := Prod.mk.inj stores
  exact ⟨rfl, by simp [written, empty, Room.keep_eq_iff.mpr fits]⟩

theorem flush_adds (flushes : file.flush = (true, after)) :
    Adds [] file after ∧ after.buffer = [] := by
  obtain ⟨fits, rfl⟩ := Prod.mk.inj flushes
  have keeps : file.room.keep (file.stored ++ file.buffer) = file.stored ++ file.buffer :=
    Room.keep_eq_iff.mpr fits
  have emptied : file.buffer.drop
      ((file.room.keep (file.stored ++ file.buffer)).length - file.stored.length) = [] := by
    simp [keeps]
  exact ⟨⟨rfl, by simp [written, keeps]⟩, emptied⟩

theorem prepare_adds (prepares : file.prepare piece = (true, after)) :
    Adds [] file after ∧ (bufferSize ≤ piece.length → after.buffer = []) := by
  rw [prepare] at prepares
  split at prepares
  case isTrue =>
    obtain ⟨adds, empty⟩ := flush_adds prepares
    exact ⟨adds, fun _ => empty⟩
  case isFalse few =>
    obtain rfl := (Prod.mk.inj prepares).2
    refine ⟨⟨rfl, (List.append_nil _).symm⟩, fun large => List.length_eq_zero_iff.mp ?_⟩
    omega

theorem prepare_succeeds (fits : file.room.fits file.written = true) (piece : Bytes) :
    ∃ ready, file.prepare piece = (true, ready) := by
  rw [prepare]
  split
  · exact ⟨file.flush.2, Prod.ext fits rfl⟩
  · exact ⟨file, rfl⟩

theorem write_adds (writes : file.write piece = (true, after)) : Adds piece file after := by
  rw [write] at writes
  split at writes
  case h_1 => cases writes
  case h_2 ready prepares =>
    obtain ⟨prepared, empty⟩ := prepare_adds prepares
    have added : Adds piece ready after := by
      split at writes
      case isTrue large => exact store_adds (empty large) writes
      case isFalse =>
        obtain rfl := (Prod.mk.inj writes).2
        exact ⟨rfl, (List.append_assoc _ _ _).symm⟩
    exact prepared.trans added

theorem write_succeeds (fits : file.room.fits (file.written ++ piece) = true) :
    ∃ after, file.write piece = (true, after) := by
  obtain ⟨ready, prepares⟩ := prepare_succeeds (Room.fits_left fits) piece
  obtain ⟨prepared, empty⟩ := prepare_adds prepares
  rw [write, prepares]
  dsimp only
  split
  case isTrue large =>
    refine ⟨(ready.store piece).2, Prod.ext ?_ rfl⟩
    have stored : ready.stored = file.written := by
      simpa [written, empty large] using prepared.written
    change ready.room.fits (ready.stored ++ piece) = true
    rw [prepared.room, stored, fits]
  case isFalse => exact ⟨_, rfl⟩

/-- What a file holds after it was written piece by piece and closed: as much as there was room for.
-/
theorem close_writeAll (writes : file.writeAll pieces = (true, after)) :
    after.close = file.room.keep (file.written ++ pieces.flatten) := by
  induction pieces generalizing file with
  | nil =>
      obtain rfl := (Prod.mk.inj writes).2
      rw [List.flatten_nil, List.append_nil, close_eq]
  | cons piece rest ih =>
      rw [writeAll] at writes
      split at writes
      case h_1 middle first =>
        have adds := write_adds first
        rw [ih writes, adds.room, adds.written, List.flatten_cons, List.append_assoc]
      case h_2 => cases writes

theorem writeAll_succeeds (fits : file.room.fits (file.written ++ pieces.flatten) = true) :
    (file.writeAll pieces).1 = true := by
  induction pieces generalizing file with
  | nil => rfl
  | cons piece rest ih =>
      rw [List.flatten_cons, ← List.append_assoc] at fits
      obtain ⟨middle, first⟩ := write_succeeds (Room.fits_left fits)
      have adds := write_adds first
      rw [writeAll, first]
      exact ih (by rwa [adds.room, adds.written])

end BufferedFile

end RemarkAtlas
