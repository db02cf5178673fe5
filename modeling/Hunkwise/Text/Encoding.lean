import Hunkwise.Text.Utf8

/-! Encodings of text in bytes. A document may come in units of one, two or four bytes; which of
them is told by a mark before it, or else by where its first bytes are zero, since every document starts
with two characters of ASCII. Halves of pairs may stand in units of any length. -/

namespace Hunkwise

/-- The unit of an encoding; of a longer unit the first byte is the highest or the lowest. -/
inductive Encoding where
  | bytes
  | pairs (highFirst : Bool)
  | quadruples (highFirst : Bool)
  deriving DecidableEq, Repr

namespace Encoding

def ofZeros : List UInt8 → Encoding
  | a :: b :: c :: d :: _ =>
    if a = 0 then (if b = 0 then .quadruples true else .pairs true)
    else if b = 0 then (if c = 0 && d = 0 then .quadruples false else .pairs false)
    else .bytes
  | [a, b] => if a = 0 then .pairs true else if b = 0 then .pairs false else .bytes
  | _ => .bytes

/-- The encoding of a document, and its bytes after the mark if there is one. The mark of the longer
units may start with the one of the shorter. -/
def detect : List UInt8 → Encoding × List UInt8
  | 0x00 :: 0x00 :: 0xFE :: 0xFF :: rest => (.quadruples true, rest)
  | 0xFF :: 0xFE :: 0x00 :: 0x00 :: rest => (.quadruples false, rest)
  | 0xFE :: 0xFF :: rest => (.pairs true, rest)
  | 0xFF :: 0xFE :: rest => (.pairs false, rest)
  | 0xEF :: 0xBB :: 0xBF :: rest => (.bytes, rest)
  | bs => (ofZeros bs, bs)

def unit (highFirst : Bool) (bs : List UInt8) : Nat :=
  (if highFirst then bs else bs.reverse).foldl (fun n b => n * 256 + b.toNat) 0

def inPairs (highFirst : Bool) : List UInt8 → Option (List Nat)
  | [] => some []
  | [_] => none
  | a :: b :: rest => (inPairs highFirst rest).map (unit highFirst [a, b] :: ·)

def inQuadruples (highFirst : Bool) : List UInt8 → Option (List Nat)
  | [] => some []
  | a :: b :: c :: d :: rest =>
    (inQuadruples highFirst rest).map (unit highFirst [a, b, c, d] :: ·)
  | _ => none

/-- Letters in which every high half that a low one follows makes a character with it. -/
def joinHalves : List Letter → List Letter
  | [] => []
  | [l] => [l]
  | l :: m :: ls =>
    if l.isHigh && m.isLow then Letter.pair l m :: joinHalves ls else l :: joinHalves (m :: ls)

def decode? : Encoding → List UInt8 → Option Text
  | bytes, bs => Text.decodeHalves? bs
  | pairs highFirst, bs =>
    (inPairs highFirst bs).map fun units => ⟨joinHalves (units.map Letter.ofCode)⟩
  | quadruples highFirst, bs => do
    let units ← inQuadruples highFirst bs
    if units.all (· < 0x110000) then some ⟨units.map Letter.ofCode⟩ else none

end Encoding

end Hunkwise
