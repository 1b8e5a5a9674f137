import RemarkAtlas.Gzip.Inflate

/-!
Gzip members: a header with optional fields, deflated data, and the checksum and length of the
content.
-/

namespace RemarkAtlas.Gzip

/-- One bit of the cyclic redundancy check, for the reversed polynomial. -/
def crcBit (value : UInt32) : UInt32 :=
  if value &&& 1 = 1 then (value >>> 1) ^^^ 0xedb88320 else value >>> 1

def crcByte (value : UInt32) (byte : UInt8) : UInt32 :=
  (List.range 8).foldl (fun value _ => crcBit value) (value ^^^ byte.toUInt32)

def crc32 (bytes : Bytes) : UInt32 := bytes.foldl crcByte 0xffffffff ^^^ 0xffffffff

def magic : Bytes := [0x1f, 0x8b]

def isCompressed (bytes : Bytes) : Bool := bytes.take 2 == magic

def greatestTextLength : Nat := 65535

def afterText? : Nat → Bytes → Option Bytes
  | _, [] => none
  | 0, byte :: rest => if byte = 0 then some rest else none
  | limit + 1, byte :: rest => if byte = 0 then some rest else afterText? limit rest

def afterExtraField? (bytes : Bytes) : Option Bytes := do
  let (size, bytes) ← littleEndian? 2 bytes
  let (_, bytes) ← takeBytes? size bytes
  return bytes

def skipIf (present : Bool) (skip : Bytes → Option Bytes) (bytes : Bytes) : Option Bytes :=
  if present then skip bytes else some bytes

def afterHeaderCheck? (header bytes : Bytes) : Option Bytes := do
  let (check, rest) ← littleEndian? 2 bytes
  let checked := header.take (header.length - bytes.length)
  if check = (crc32 checked).toNat % UInt16.size then some rest else none

def afterHeader? (member : Bytes) : Option Bytes :=
  match member with
  | 0x1f :: 0x8b :: 0x08 :: flags :: _ :: _ :: _ :: _ :: _ :: _ :: rest =>
    let flag (bit : Nat) : Bool := flags.toNat.testBit bit
    if flag 5 || flag 6 || flag 7 then none
    else do
      let rest ← skipIf (flag 2) afterExtraField? rest
      let rest ← skipIf (flag 3) (afterText? greatestTextLength) rest
      let rest ← skipIf (flag 4) (afterText? greatestTextLength) rest
      skipIf (flag 1) (afterHeaderCheck? member) rest
  | _ => none

/-- The content of the first member; what follows the member does not matter. -/
def decompress? (bytes : Bytes) : Option Bytes := do
  let data ← afterHeader? bytes
  let (content, trailer) ← Inflate.inflate? data
  let (check, trailer) ← littleEndian? 4 trailer
  let (size, _) ← littleEndian? 4 trailer
  if check = (crc32 content).toNat ∧ size = content.length % UInt32.size then some content else none

end RemarkAtlas.Gzip
