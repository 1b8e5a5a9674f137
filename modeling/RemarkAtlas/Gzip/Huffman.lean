import RemarkAtlas.Gzip.Bits

/-!
Canonical Huffman codes, given by the code lengths of the symbols: shorter codes come first, and
among codes of one length the order is that of the symbols.
-/

namespace RemarkAtlas.Gzip

structure HuffmanCode where
  counts : List Nat
  symbols : List Nat
  deriving DecidableEq, Repr

namespace HuffmanCode

def greatestLength : Nat := 15

def codeLengths : List Nat := (List.range greatestLength).map (· + 1)

def symbolsOfLength (lengths : List Nat) (length : Nat) : List Nat :=
  lengths.zipIdx.filterMap fun (other, symbol) => if other = length then some symbol else none

def ofLengths (lengths : List Nat) : HuffmanCode :=
  let groups := codeLengths.map (symbolsOfLength lengths)
  { counts := groups.map List.length, symbols := groups.flatten }

def share (code : HuffmanCode) : Nat := code.counts.foldl (fun sum count => 2 * sum + count) 0

def isComplete (code : HuffmanCode) : Bool := code.share == Nat.pow 2 greatestLength

/-- Codes for data may also have a single symbol or none. -/
def isUsable (code : HuffmanCode) : Bool := code.isComplete || code.symbols.length ≤ 1

/-- Reads bits until they are a code; `value` are the bits so far and `first` is the first code of
their length. -/
def decodeFrom (value first : Nat) (symbols : List Nat) :
    List Nat → BitSource → Option (Nat × BitSource)
  | [], _ => none
  | count :: longer, source =>
    match source.next? with
    | none => none
    | some (bit, source) =>
      let value := 2 * value + bit.toNat
      let first := 2 * first
      if value < first + count then (symbols[value - first]?).map fun symbol => (symbol, source)
      else decodeFrom value (first + count) (symbols.drop count) longer source

def decode (code : HuffmanCode) (source : BitSource) : Option (Nat × BitSource) :=
  decodeFrom 0 0 code.symbols code.counts source

end HuffmanCode

end RemarkAtlas.Gzip
