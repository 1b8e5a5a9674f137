import RemarkAtlas.Text.Utf8

/-!
Bytes as a source of bits, the lowest bit of a byte first.
-/

namespace RemarkAtlas.Gzip

structure BitSource where
  pending : List Bool
  bytes : Bytes
  deriving DecidableEq, Repr

namespace BitSource

def ofBytes (bytes : Bytes) : BitSource := ⟨[], bytes⟩

def size (source : BitSource) : Nat := source.pending.length + 8 * source.bytes.length

def bitsOf (byte : UInt8) : List Bool := (List.range 8).map byte.toNat.testBit

def next? : BitSource → Option (Bool × BitSource)
  | ⟨bit :: pending, bytes⟩ => some (bit, ⟨pending, bytes⟩)
  | ⟨[], []⟩ => none
  | ⟨[], byte :: bytes⟩ => some (byte.toNat.testBit 0, ⟨(bitsOf byte).tail, bytes⟩)

def number? : Nat → BitSource → Option (Nat × BitSource)
  | 0, source => some (0, source)
  | width + 1, source => do
    let (bit, source) ← source.next?
    let (rest, source) ← number? width source
    return (bit.toNat + 2 * rest, source)

def align (source : BitSource) : BitSource := ⟨[], source.bytes⟩

end BitSource

def takeBytes? (count : Nat) (bytes : Bytes) : Option (Bytes × Bytes) :=
  let taken := bytes.take count
  if taken.length = count then some (taken, bytes.drop count) else none

def littleEndian : Bytes → Nat
  | [] => 0
  | byte :: rest => byte.toNat + 256 * littleEndian rest

def littleEndian? (width : Nat) (bytes : Bytes) : Option (Nat × Bytes) :=
  (takeBytes? width bytes).map fun (taken, rest) => (littleEndian taken, rest)

end RemarkAtlas.Gzip
