import RemarkAtlas.Gzip.Member

/-!
Gzip members whose data are stored as they are.  The content may be cut into blocks anywhere, and
the header may have any of its optional fields.
-/

namespace RemarkAtlas.Gzip

def writeLittleEndian : Nat → Nat → Bytes
  | 0, _ => []
  | width + 1, number => UInt8.ofNat number :: writeLittleEndian width (number / 256)

structure StoredBlock where
  content : Bytes
  padding : Fin 32
  fits : content.length < UInt16.size

namespace StoredBlock

def startByte (isFinal : Bool) (padding : Fin 32) : UInt8 :=
  UInt8.ofNat (isFinal.toNat + 8 * padding)

def write (isFinal : Bool) (block : StoredBlock) : Bytes :=
  startByte isFinal block.padding ::
    (writeLittleEndian 2 block.content.length ++
      writeLittleEndian 2 (0xffff - block.content.length) ++ block.content)

end StoredBlock

structure StoredData where
  earlier : List StoredBlock
  last : StoredBlock

namespace StoredData

def content (data : StoredData) : Bytes := data.earlier.flatMap (·.content) ++ data.last.content

def write (data : StoredData) : Bytes :=
  data.earlier.flatMap (·.write false) ++ data.last.write true

end StoredData

structure ExtraField where
  bytes : Bytes
  short : bytes.length < 65535

def ExtraField.write (field : ExtraField) : Bytes :=
  writeLittleEndian 2 field.bytes.length ++ field.bytes

structure HeaderText where
  bytes : Bytes
  noZero : 0 ∉ bytes
  short : bytes.length < 65535

def HeaderText.write (text : HeaderText) : Bytes := text.bytes ++ [0]

structure MemberHeader where
  isText : Bool
  modified : UInt32
  level : UInt8
  system : UInt8
  extra : Option ExtraField
  name : Option HeaderText
  comment : Option HeaderText
  hasCheck : Bool

namespace MemberHeader

def flags (header : MemberHeader) : UInt8 :=
  UInt8.ofNat (header.isText.toNat + 2 * header.hasCheck.toNat + 4 * header.extra.isSome.toNat +
    8 * header.name.isSome.toNat + 16 * header.comment.isSome.toNat)

def fields (header : MemberHeader) : Bytes :=
  header.extra.elim [] (·.write) ++ header.name.elim [] (·.write) ++
    header.comment.elim [] (·.write)

def checked (header : MemberHeader) : Bytes :=
  magic ++ [0x08, header.flags] ++ writeLittleEndian 4 header.modified.toNat ++
    [header.level, header.system] ++ header.fields

def check (header : MemberHeader) : Bytes :=
  if header.hasCheck then writeLittleEndian 2 ((crc32 header.checked).toNat % UInt16.size) else []

def write (header : MemberHeader) : Bytes := header.checked ++ header.check

end MemberHeader

structure Member where
  header : MemberHeader
  data : StoredData
  checksum : UInt32
  size : UInt32

namespace Member

def content (member : Member) : Bytes := member.data.content

def write (member : Member) : Bytes :=
  member.header.write ++ member.data.write ++ writeLittleEndian 4 member.checksum.toNat ++
    writeLittleEndian 4 member.size.toNat

end Member

end RemarkAtlas.Gzip
