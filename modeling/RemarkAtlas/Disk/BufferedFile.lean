import RemarkAtlas.Disk.Limits

/-!
Files that are written through a buffer.  A fault shows only when the buffer is flushed; the last
flush, when the file is closed, tells nobody whether it succeeded.
-/

namespace RemarkAtlas

structure BufferedFile where
  room : Room
  stored : Bytes
  buffer : Bytes

namespace BufferedFile

def bufferSize : Nat := 8192

def create (room : Room) : BufferedFile := { room, stored := [], buffer := [] }

def store (file : BufferedFile) (bytes : Bytes) : Bool × BufferedFile :=
  let content := file.stored ++ bytes
  (file.room.fits content, { file with stored := file.room.keep content })

def flush (file : BufferedFile) : Bool × BufferedFile :=
  let (succeeds, stored) := file.store file.buffer
  (succeeds, { stored with
    buffer := file.buffer.drop (stored.stored.length - file.stored.length) })

def prepare (file : BufferedFile) (piece : Bytes) : Bool × BufferedFile :=
  if bufferSize < file.buffer.length + piece.length then file.flush else (true, file)

/-- A piece as long as the buffer is stored past it. -/
def write (file : BufferedFile) (piece : Bytes) : Bool × BufferedFile :=
  match file.prepare piece with
  | (false, file) => (false, file)
  | (true, file) =>
    if bufferSize ≤ piece.length then file.store piece
    else (true, { file with buffer := file.buffer ++ piece })

def writeAll : List Bytes → BufferedFile → Bool × BufferedFile
  | [], file => (true, file)
  | piece :: rest, file =>
    match file.write piece with
    | (true, file) => writeAll rest file
    | (false, file) => (false, file)

def close (file : BufferedFile) : Bytes := file.flush.2.stored

end BufferedFile

end RemarkAtlas
