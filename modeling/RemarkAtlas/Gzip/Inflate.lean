import RemarkAtlas.Gzip.Huffman

/-!
Decompression of deflated data: blocks that are stored as they are, and blocks of literals and
references to earlier output under a fixed code or one of their own.
-/

namespace RemarkAtlas.Gzip.Inflate

abbrev Progress := Array UInt8 × BitSource

def storedBlock (output : Array UInt8) (source : BitSource) : Option Progress := do
  let (size, bytes) ← littleEndian? 2 source.align.bytes
  let (complement, bytes) ← littleEndian? 2 bytes
  if size + complement = 0xffff then
    let (content, bytes) ← takeBytes? size bytes
    return (output.appendList content, .ofBytes bytes)
  else none

/-- The least lengths of the length symbols with their numbers of extra bits, from symbol 257 on. -/
def lengthTable : List (Nat × Nat) :=
  [(3, 0), (4, 0), (5, 0), (6, 0), (7, 0), (8, 0), (9, 0), (10, 0), (11, 1), (13, 1), (15, 1),
    (17, 1), (19, 2), (23, 2), (27, 2), (31, 2), (35, 3), (43, 3), (51, 3), (59, 3), (67, 4),
    (83, 4), (99, 4), (115, 4), (131, 5), (163, 5), (195, 5), (227, 5), (258, 0)]

def distanceTable : List (Nat × Nat) :=
  [(1, 0), (2, 0), (3, 0), (4, 0), (5, 1), (7, 1), (9, 2), (13, 2), (17, 3), (25, 3), (33, 4),
    (49, 4), (65, 5), (97, 5), (129, 6), (193, 6), (257, 7), (385, 7), (513, 8), (769, 8),
    (1025, 9), (1537, 9), (2049, 10), (3073, 10), (4097, 11), (6145, 11), (8193, 12), (12289, 12),
    (16385, 13), (24577, 13)]

def extended? (table : List (Nat × Nat)) (symbol : Nat) (source : BitSource) :
    Option (Nat × BitSource) := do
  let (least, extra) ← table[symbol]?
  let (offset, source) ← source.number? extra
  return (least + offset, source)

/-- Appends bytes that stand `distance` bytes before the end, one after the other, so that a copy
may repeat what it has just written. -/
def copy? (distance : Nat) : Nat → Array UInt8 → Option (Array UInt8)
  | 0, output => some output
  | length + 1, output =>
    if distance ≤ output.size then
      match output[output.size - distance]? with
      | some byte => copy? distance length (output.push byte)
      | none => none
    else none

def endOfBlock : Nat := 256

def symbols? (literals distances : HuffmanCode) : Nat → Array UInt8 → BitSource → Option Progress
  | 0, _, _ => none
  | limit + 1, output, source =>
    match literals.decode source with
    | none => none
    | some (symbol, source) =>
      if symbol < endOfBlock then
        symbols? literals distances limit (output.push (UInt8.ofNat symbol)) source
      else if symbol = endOfBlock then some (output, source)
      else
        let reference : Option Progress := do
          let (length, source) ← extended? lengthTable (symbol - endOfBlock - 1) source
          let (symbol, source) ← distances.decode source
          let (distance, source) ← extended? distanceTable symbol source
          let output ← copy? distance length output
          return (output, source)
        match reference with
        | none => none
        | some (output, source) => symbols? literals distances limit output source

/-- Every symbol takes at least one bit. -/
def codedBlock (literals distances : HuffmanCode) (output : Array UInt8) (source : BitSource) :
    Option Progress :=
  symbols? literals distances source.size output source

def fixedLiterals : HuffmanCode :=
  .ofLengths (List.replicate 144 8 ++ List.replicate 112 9 ++ List.replicate 24 7 ++
    List.replicate 8 8)

def fixedDistances : HuffmanCode := .ofLengths (List.replicate 32 5)

def lengthCodeOrder : List Nat :=
  [16, 17, 18, 0, 8, 7, 9, 6, 10, 5, 11, 4, 12, 3, 13, 2, 14, 1, 15]

def lengthCodeLengths? : Nat → BitSource → Option (List Nat × BitSource)
  | 0, source => some ([], source)
  | count + 1, source => do
    let (length, source) ← source.number? 3
    let (lengths, source) ← lengthCodeLengths? count source
    return (length :: lengths, source)

def lengthCode (given : List Nat) : HuffmanCode :=
  .ofLengths ((List.range 19).map fun symbol =>
    ((lengthCodeOrder.zip given).lookup symbol).getD 0)

def lengthRun? (previous : Option Nat) (symbol : Nat) (source : BitSource) :
    Option (Nat × Nat × BitSource) :=
  if symbol < 16 then some (symbol, 1, source)
  else if symbol = 16 then do
    let length ← previous
    let (extra, source) ← source.number? 2
    return (length, 3 + extra, source)
  else if symbol = 17 then do
    let (extra, source) ← source.number? 3
    return (0, 3 + extra, source)
  else do
    let (extra, source) ← source.number? 7
    return (0, 11 + extra, source)

def codeLengths? (code : HuffmanCode) :
    Nat → Nat → List Nat → BitSource → Option (List Nat × BitSource)
  | _, 0, reversed, source => some (reversed.reverse, source)
  | 0, _, _, _ => none
  | limit + 1, missing, reversed, source =>
    match code.decode source with
    | none => none
    | some (symbol, source) =>
      match lengthRun? reversed.head? symbol source with
      | none => none
      | some (length, count, source) =>
        if missing < count then none
        else codeLengths? code limit (missing - count) (List.replicate count length ++ reversed)
          source

def dynamicBlock (output : Array UInt8) (source : BitSource) : Option Progress := do
  let (literalCount, source) ← source.number? 5
  let (distanceCount, source) ← source.number? 5
  let (lengthCount, source) ← source.number? 4
  let literalCount := literalCount + 257
  let distanceCount := distanceCount + 1
  if 286 < literalCount ∨ 30 < distanceCount then none
  else
    let (given, source) ← lengthCodeLengths? (lengthCount + 4) source
    let code := lengthCode given
    if !code.isComplete then none
    else
      let total := literalCount + distanceCount
      let (lengths, source) ← codeLengths? code total total [] source
      let literals := HuffmanCode.ofLengths (lengths.take literalCount)
      let distances := HuffmanCode.ofLengths (lengths.drop literalCount)
      if literals.isUsable && distances.isUsable then codedBlock literals distances output source
      else none

def block (output : Array UInt8) (source : BitSource) : Option Progress := do
  let (type, source) ← source.number? 2
  if type = 0 then storedBlock output source
  else if type = 1 then codedBlock fixedLiterals fixedDistances output source
  else if type = 2 then dynamicBlock output source
  else none

def blocks? : Nat → Array UInt8 → BitSource → Option Progress
  | 0, _, _ => none
  | limit + 1, output, source =>
    match source.next? with
    | none => none
    | some (isFinal, source) =>
      match block output source with
      | none => none
      | some (output, source) =>
        if isFinal then some (output, source) else blocks? limit output source

/-- The content of deflated data and the bytes after it.  Every block takes at least one bit. -/
def inflate? (bytes : Bytes) : Option (Bytes × Bytes) := do
  let source := BitSource.ofBytes bytes
  let (output, source) ← blocks? source.size #[] source
  return (output.toList, source.bytes)

end RemarkAtlas.Gzip.Inflate
