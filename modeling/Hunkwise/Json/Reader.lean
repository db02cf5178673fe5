import Hunkwise.Decimal.Notation
import Hunkwise.Json.Basic
import Hunkwise.Text.Digit

/-! Reading documents. The grammar is the standard one with three more numbers, `NaN`, `Infinity`
and `-Infinity`; a number with a point or an exponent is a floating-point number, any other is
whole. Every reader takes the letters ahead and gives back those it left, or tells the first fault
it met. -/

namespace Hunkwise.Json

inductive ReadFault where
  | malformed
  /-- More containers inside one another than there is room for. -/
  | tooDeep
  /-- A whole number with too many digits. -/
  | longNumber
  deriving DecidableEq, Repr

abbrev Reading := Except ReadFault

def isGap (l : Letter) : Bool := l = ' ' || l = '\t' || l = '\n' || l = '\r'

def skipGaps (ls : List Letter) : List Letter := ls.dropWhile isGap

def hexValue? (c : Char) : Option Nat :=
  if '0' ≤ c ∧ c ≤ '9' then some (c.toNat - 48)
  else if 'a' ≤ c ∧ c ≤ 'f' then some (c.toNat - 87)
  else if 'A' ≤ c ∧ c ≤ 'F' then some (c.toNat - 55)
  else none

def readUnit : List Letter → Reading (Nat × List Letter)
  | a :: b :: c :: d :: rest =>
    match [a, b, c, d].mapM fun l => l.char?.bind hexValue? with
    | some digits => .ok (digits.foldl (fun n d => n * 16 + d) 0, rest)
    | none => .error .malformed
  | _ => .error .malformed

def readEscapedUnits (ls : List Letter) : Reading (Letter × List Letter) := do
  let (unit, rest) ← readUnit ls
  let high := Letter.ofCode unit
  match high.isHigh, rest with
  | true, .char '\\' :: .char 'u' :: more =>
    let (unit, after) ← readUnit more
    let low := Letter.ofCode unit
    if low.isLow then return (Letter.pair high low, after) else return (high, rest)
  | _, _ => return (high, rest)

def readEscape : List Letter → Reading (Letter × List Letter)
  | .char '"' :: ls => .ok (.char '"', ls)
  | .char '\\' :: ls => .ok (.char '\\', ls)
  | .char '/' :: ls => .ok (.char '/', ls)
  | .char 'b' :: ls => .ok (.char '\x08', ls)
  | .char 'f' :: ls => .ok (.char '\x0c', ls)
  | .char 'n' :: ls => .ok (.char '\n', ls)
  | .char 'r' :: ls => .ok (.char '\r', ls)
  | .char 't' :: ls => .ok (.char '\t', ls)
  | .char 'u' :: ls => readEscapedUnits ls
  | _ => .error .malformed

def readLetters : Nat → List Letter → Reading (List Letter × List Letter)
  | 0, _ => .error .malformed
  | _ + 1, [] => .error .malformed
  | fuel + 1, l :: ls =>
    if l = '"' then .ok ([], ls)
    else if l = '\\' then do
      let (m, rest) ← readEscape ls
      let (ms, rest) ← readLetters fuel rest
      return (m :: ms, rest)
    else if l.code < 0x20 then .error .malformed
    else do
      let (ms, rest) ← readLetters fuel ls
      return (l :: ms, rest)

def readText (fuel : Nat) (ls : List Letter) : Reading (Text × List Letter) := do
  let (ms, rest) ← readLetters fuel ls
  return (⟨ms⟩, rest)

def digitsValue (ds : List Letter) : Nat := ds.foldl (fun n d => n * 10 + d.digitValue) 0

/-- The digits of a whole number: a zero alone, or digits that start with another one. -/
def readWhole (ls : List Letter) : Reading (List Letter × List Letter) :=
  match ls.takeWhile Letter.isDigit with
  | [] => .error .malformed
  | .char '0' :: _ => .ok (['0'], ls.drop 1)
  | ds => .ok (ds, ls.dropWhile Letter.isDigit)

/-- The digits after a point. A point that no digit follows is left where it is. -/
def readFraction : List Letter → List Letter × List Letter
  | .char '.' :: ls =>
    match ls.takeWhile Letter.isDigit with
    | [] => ([], .char '.' :: ls)
    | ds => (ds, ls.dropWhile Letter.isDigit)
  | ls => ([], ls)

/-- An exponent, left where it is unless a digit follows its mark and sign. -/
def readExponent (ls : List Letter) : Option Int × List Letter :=
  match ls with
  | l :: rest =>
    if l = 'e' ∨ l = 'E' then
      let (negative, ds) := match rest with
        | .char '+' :: ds => (false, ds)
        | .char '-' :: ds => (true, ds)
        | ds => (false, ds)
      match ds.takeWhile Letter.isDigit with
      | [] => (none, ls)
      | es =>
        let e : Int := digitsValue es
        (some (if negative then -e else e), ds.dropWhile Letter.isDigit)
    else (none, ls)
  | [] => (none, [])

def readUnsigned (negative : Bool) (ls : List Letter) : Reading (Json × List Letter) := do
  let (whole, rest) ← readWhole ls
  let (fraction, rest) := readFraction rest
  let (exponent, rest) := readExponent rest
  if fraction.isEmpty && exponent.isNone then
    if Text.mostDigits < whole.length then throw .longNumber
    let n : Int := digitsValue whole
    return (.int (if negative then -n else n), rest)
  else
    let x := Decimal.toFloat negative (digitsValue (whole ++ fraction))
      (exponent.getD 0 - fraction.length)
    return (.float x, rest)

/-- The value `v` for the word `w`, if the letters start with it. -/
def readWord (w : Text) (v : Json) (ls : List Letter) : Reading (Json × List Letter) :=
  if w.letters.isPrefixOf ls then .ok (v, ls.drop w.length) else .error .malformed

def readAtom (ls : List Letter) : Reading (Json × List Letter) :=
  match ls with
  | .char 'n' :: _ => readWord "null" .null ls
  | .char 't' :: _ => readWord "true" (.bool true) ls
  | .char 'f' :: _ => readWord "false" (.bool false) ls
  | .char 'N' :: _ => readWord "NaN" (.float (0.0 / 0.0)) ls
  | .char 'I' :: _ => readWord "Infinity" (.float (1.0 / 0.0)) ls
  | .char '-' :: .char 'I' :: _ => readWord "-Infinity" (.float (-1.0 / 0.0)) ls
  | .char '-' :: ds => readUnsigned true ds
  | ds => readUnsigned false ds

mutual

/-- A value; gaps before it are skipped. At most `room` containers may lie inside one another. -/
def readValue : Nat → Nat → List Letter → Reading (Json × List Letter)
  | 0, _, _ => .error .malformed
  | fuel + 1, room, ls =>
    match skipGaps ls with
    | .char '"' :: rest => do
      let (s, rest) ← readText fuel rest
      return (.str s, rest)
    | .char '[' :: rest =>
      match room, skipGaps rest with
      | 0, _ => .error .tooDeep
      | _ + 1, .char ']' :: rest => .ok (.arr [], rest)
      | room + 1, rest => do
        let (items, rest) ← readItems fuel room rest
        return (.arr items, rest)
    | .char '\x7b' :: rest =>
      match room, skipGaps rest with
      | 0, _ => .error .tooDeep
      | _ + 1, .char '\x7d' :: rest => .ok (.obj [], rest)
      | room + 1, rest => do
        let (fs, rest) ← readMembers fuel room rest
        return (.object fs, rest)
    | rest => readAtom rest

def readItems : Nat → Nat → List Letter → Reading (List Json × List Letter)
  | 0, _, _ => .error .malformed
  | fuel + 1, room, ls => do
    let (item, rest) ← readValue fuel room ls
    match skipGaps rest with
    | .char ',' :: rest =>
      let (items, rest) ← readItems fuel room rest
      return (item :: items, rest)
    | .char ']' :: rest => return ([item], rest)
    | _ => throw .malformed

def readMembers : Nat → Nat → List Letter → Reading (Fields × List Letter)
  | 0, _, _ => .error .malformed
  | fuel + 1, room, ls =>
    match skipGaps ls with
    | .char '"' :: rest => do
      let (key, rest) ← readText fuel rest
      match skipGaps rest with
      | .char ':' :: rest =>
        let (v, rest) ← readValue fuel room rest
        match skipGaps rest with
        | .char ',' :: rest =>
          let (fs, rest) ← readMembers fuel room rest
          return ((key, v) :: fs, rest)
        | .char '\x7d' :: rest => return ([(key, v)], rest)
        | _ => throw .malformed
      | _ => throw .malformed
    | _ => .error .malformed

end

/-- A whole document: one value with gaps around it. Two steps for every letter are enough for any
nesting. -/
def parse (room : Nat) (text : Text) : Except ReadFault Json := do
  let (v, rest) ← readValue (2 * text.length + 2) room text.letters
  if (skipGaps rest).isEmpty then return v else throw .malformed

end Hunkwise.Json
