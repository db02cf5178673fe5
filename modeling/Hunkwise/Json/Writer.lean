import Hunkwise.Json.Basic
import Hunkwise.Decimal.Notation
import Hunkwise.Text.Digit
import Hunkwise.Text.Quoted

/-! Writing documents, in ASCII: compactly on one line, or with every item and field on a line of
its own, two blanks further in than what holds it. A whole number with too many digits cannot be
written, and neither can what lies too deep; what comes before it is. -/

namespace Hunkwise.Json

def unitEscape (n : Nat) : List Char := '\\' :: 'u' :: Text.hexDigits n 4

/-- One letter of a written text. Beyond ASCII a letter is written as one unit or two. -/
def escapeLetter (l : Letter) : List Char :=
  let n := l.code
  if n = 0x22 then ['\\', '"']
  else if n = 0x5C then ['\\', '\\']
  else if n = 0x0A then ['\\', 'n']
  else if n = 0x0D then ['\\', 'r']
  else if n = 0x09 then ['\\', 't']
  else if n = 0x08 then ['\\', 'b']
  else if n = 0x0C then ['\\', 'f']
  else if 0x20 ≤ n ∧ n < 0x7F then [Char.ofNat n]
  else if n < 0x10000 then unitEscape n
  else unitEscape (0xD800 + (n - 0x10000) / 0x400) ++ unitEscape (0xDC00 + (n - 0x10000) % 0x400)

def writeText (s : Text) : List Char := '"' :: s.letters.flatMap escapeLetter ++ ['"']

def writeInt (n : Int) : List Char :=
  if n < 0 then '-' :: Nat.toDigits 10 n.natAbs else Nat.toDigits 10 n.natAbs

def writeScalar : Json → List Char
  | .null => ['n', 'u', 'l', 'l']
  | .bool true => ['t', 'r', 'u', 'e']
  | .bool false => ['f', 'a', 'l', 's', 'e']
  | .int n => writeInt n
  | .float x => (Decimal.render .document x).toList
  | .str s => writeText s
  | .arr _ => ['[', ']']
  | .obj _ => ['\x7b', '\x7d']

def newLine (d : Nat) : List Char := '\n' :: List.replicate (2 * d) ' '

mutual

/-- A value whose containers are at depth `d`, before `rest`. -/
def writeIndented (d : Nat) : Json → List Char → List Char
  | .arr (item :: items), rest =>
    '[' :: newLine (d + 1) ++ writeIndented (d + 1) item (writeItems d items rest)
  | .obj ((key, v) :: fs), rest =>
    '\x7b' :: newLine (d + 1) ++ writeText key
      ++ ':' :: ' ' :: writeIndented (d + 1) v (writeMembers d fs rest)
  | v, rest => writeScalar v ++ rest

/-- The items after the first, and the end of the list at depth `d`. -/
def writeItems (d : Nat) : List Json → List Char → List Char
  | [], rest => newLine d ++ ']' :: rest
  | item :: items, rest =>
    ',' :: newLine (d + 1) ++ writeIndented (d + 1) item (writeItems d items rest)

def writeMembers (d : Nat) : List (Text × Json) → List Char → List Char
  | [], rest => newLine d ++ '\x7d' :: rest
  | (key, v) :: fs, rest =>
    ',' :: newLine (d + 1) ++ writeText key
      ++ ':' :: ' ' :: writeIndented (d + 1) v (writeMembers d fs rest)

end

/-- The text of a settings file. -/
def pretty (v : Json) : List Char := writeIndented 0 v []

/-- A whole number with too many digits to be written. -/
def isLong : Json → Bool
  | .int n => Text.mostDigits < (Nat.toDigits 10 n.natAbs).length
  | _ => false

inductive WriteFault where
  | tooDeep
  | longNumber
  deriving DecidableEq, Repr

mutual

/-- Why writing a value at depth `d` stops, if it does, and what is written by then. There is `room` for
so many values inside one another. -/
def stopped? (room d : Nat) : Json → Option (WriteFault × List Char)
  | .int n => if isLong (.int n) then some (.longNumber, []) else none
  | .arr items => stoppedItems? (room - 1) d ('[' :: newLine (d + 1)) items
  | .obj fs => stoppedMembers? (room - 1) d ('\x7b' :: newLine (d + 1)) fs
  | _ => none

/-- The same for the items that `lead` comes before. A lead is written together with an item that is no
container. -/
def stoppedItems? (room d : Nat) (lead : List Char) : List Json → Option (WriteFault × List Char)
  | [] => none
  | item :: items =>
    if room = 0 then some (.tooDeep, [])
    else match stopped? room (d + 1) item with
      | some (fault, text) => some (fault, if isLong item then [] else lead ++ text)
      | none => (stoppedItems? room d (',' :: newLine (d + 1)) items).map fun (fault, text) =>
          (fault, lead ++ writeIndented (d + 1) item [] ++ text)

def stoppedMembers? (room d : Nat) (lead : List Char) :
    List (Text × Json) → Option (WriteFault × List Char)
  | [] => none
  | (key, v) :: fs =>
    let named := lead ++ writeText key ++ [':', ' ']
    if room = 0 then some (.tooDeep, [])
    else match stopped? room (d + 1) v with
      | some (fault, text) => some (fault, named ++ text)
      | none => (stoppedMembers? room d (',' :: newLine (d + 1)) fs).map fun (fault, text) =>
          (fault, named ++ writeIndented (d + 1) v [] ++ text)

end

mutual

def writeCompact : Json → List Char → List Char
  | .arr (item :: items), rest => '[' :: writeCompact item (writeCompactItems items rest)
  | .obj ((key, v) :: fs), rest =>
    '\x7b' :: writeText key ++ ':' :: writeCompact v (writeCompactMembers fs rest)
  | v, rest => writeScalar v ++ rest

def writeCompactItems : List Json → List Char → List Char
  | [], rest => ']' :: rest
  | item :: items, rest => ',' :: writeCompact item (writeCompactItems items rest)

def writeCompactMembers : List (Text × Json) → List Char → List Char
  | [], rest => '\x7d' :: rest
  | (key, v) :: fs, rest =>
    ',' :: writeText key ++ ':' :: writeCompact v (writeCompactMembers fs rest)

end

def compact (v : Json) : List Char := writeCompact v []

end Hunkwise.Json
