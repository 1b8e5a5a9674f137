import RemarkAtlas.Disk.Entry

/-!
What a disk refuses: some files and directories must not be read, and some files cannot hold more
than so many bytes, as on a full disk.
-/

namespace RemarkAtlas

abbrev Room := Option Nat

namespace Room

def fits (room : Room) (content : Bytes) : Bool := room.all (content.length ≤ ·)

def keep (room : Room) (content : Bytes) : Bytes :=
  match room with
  | none => content
  | some greatest => content.take greatest

end Room

structure Limits where
  unreadable : List Place := []
  rooms : List (Place × Nat) := []
  deriving DecidableEq, Repr, Inhabited

namespace Limits

variable (limits : Limits) (place : Place)

def isReadable : Bool := !limits.unreadable.contains place

def room : Room := limits.rooms.lookup place

end Limits

end RemarkAtlas
