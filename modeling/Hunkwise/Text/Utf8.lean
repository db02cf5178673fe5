import Hunkwise.Text.Basic

/-! Bytes and text. Decoding reads one byte at a time and yields the number of a letter, or nothing for
every maximal stretch that starts no letter; what stands for such a stretch is the reader's choice. The
halves of pairs have bytes too, which are malformed unless the reader lets halves pass. -/

namespace Hunkwise.Text

/-- What the bytes read so far of an unfinished letter call for: the bounds of the next byte, the
number of bytes still to come, and the bits gathered. -/
structure Pending where
  low : Nat
  high : Nat
  left : Nat
  bits : Nat

def firstByte (halves : Bool) (b : Nat) : Option Nat × Option Pending :=
  if b < 0x80 then (some b, none)
  else if 0xC2 ≤ b ∧ b ≤ 0xDF then (none, some ⟨0x80, 0xBF, 1, b - 0xC0⟩)
  else if b = 0xE0 then (none, some ⟨0xA0, 0xBF, 2, b - 0xE0⟩)
  else if b = 0xED then (none, some ⟨0x80, if halves then 0xBF else 0x9F, 2, b - 0xE0⟩)
  else if 0xE1 ≤ b ∧ b ≤ 0xEF then (none, some ⟨0x80, 0xBF, 2, b - 0xE0⟩)
  else if b = 0xF0 then (none, some ⟨0x90, 0xBF, 3, b - 0xF0⟩)
  else if 0xF1 ≤ b ∧ b ≤ 0xF3 then (none, some ⟨0x80, 0xBF, 3, b - 0xF0⟩)
  else if b = 0xF4 then (none, some ⟨0x80, 0x8F, 3, b - 0xF0⟩)
  else (none, none)

def startByte (halves : Bool) (b : UInt8) : List (Option Nat) × Option Pending :=
  match firstByte halves b.toNat with
  | (some n, _) => ([some n], none)
  | (none, some p) => ([], some p)
  | (none, none) => ([none], none)

/-- What a byte adds to the letters. One that cannot go on an unfinished letter ends that one as
malformed and starts another. -/
def nextByte (halves : Bool) : Option Pending → UInt8 → List (Option Nat) × Option Pending
  | none, b => startByte halves b
  | some p, b =>
    if p.low ≤ b.toNat ∧ b.toNat ≤ p.high then
      let bits := p.bits * 64 + (b.toNat - 0x80)
      if p.left ≤ 1 then ([some bits], none)
      else ([], some ⟨0x80, 0xBF, p.left - 1, bits⟩)
    else
      let (ns, p') := startByte halves b
      (none :: ns, p')

/-- The numbers of the letters in some bytes, `none` for each stretch that is no letter. -/
def scan (halves : Bool) : Option Pending → List UInt8 → List (Option Nat)
  | none, [] => []
  | some _, [] => [none]
  | p, b :: bytes =>
    let (ns, p') := nextByte halves p b
    ns ++ scan halves p' bytes

/-- The text of some bytes, with the replacement character for what is no character. -/
def decodeLossy (bytes : List UInt8) : Text :=
  ofChars ((scan false none bytes).map fun n => (n.map Char.ofNat).getD '\uFFFD')

def decode? (bytes : List UInt8) : Option Text :=
  ((scan false none bytes).mapM id).map fun ns => ofChars (ns.map Char.ofNat)

/-- The text of some bytes, halves among it, if they are well formed otherwise. -/
def decodeHalves? (bytes : List UInt8) : Option Text :=
  ((scan true none bytes).mapM id).map fun ns => ⟨ns.map Letter.ofCode⟩

def encodeChars (cs : List Char) : List UInt8 := cs.flatMap String.utf8EncodeChar

def encode? (s : Text) : Option (List UInt8) := s.chars?.map encodeChars

end Hunkwise.Text
