import Hunkwise.Decimal.Notation
import Hunkwise.Schema.Checked
import Hunkwise.Text.Blank
import Hunkwise.Text.Digit

/-! Checks of truth values, numbers and texts. Numbers and truth values are also taken from texts
and from each other where nothing is lost. -/

namespace Hunkwise.Check

def string : Check Text
  | .str s => .good s
  | v => .fail .stringKind v

def characters {α : Type} (s : Text) (c : List Char → Checked α) : Checked α :=
  match s.chars? with
  | some cs => c cs
  | none => .fail .notUnicode (.str s)

def lowerAscii (c : Char) : Char :=
  if 'A' ≤ c ∧ c ≤ 'Z' then Char.ofNat (c.toNat + 32) else c

def lowered (cs : List Char) : String := String.ofList (cs.map lowerAscii)

def noWords : List String := ["0", "off", "f", "false", "n", "no"]

def yesWords : List String := ["1", "on", "t", "true", "y", "yes"]

def wordBound : Int := 0x8000000000000000

def isWord (n : Int) : Bool := -wordBound ≤ n && n < wordBound

/-- The whole number that a double is, if it is one and lies strictly within the range of a word. -/
def wordFloat? (x : Float) : Option Int :=
  (Decimal.Double.ofFloat x).whole?.filter fun n => -wordBound < n && n < wordBound

def bool : Check Bool
  | .bool b => .good b
  | .int n => if isWord n then truth n (.int n) else .fail .boolKind (.int n)
  | .float x =>
    match wordFloat? x with
    | some n => truth n (.float x)
    | none => .fail .boolKind (.float x)
  | .str s => characters s fun cs =>
    if noWords.contains (lowered cs) then .good false
    else if yesWords.contains (lowered cs) then .good true
    else .fail .boolText (.str s)
  | v => .fail .boolKind v
where
  truth (n : Int) (v : Json) : Checked Bool :=
    if n = 0 then .good false else if n = 1 then .good true else .fail .boolText v

def trimmed (cs : List Char) : List Char :=
  let isSpace (c : Char) : Bool := (Letter.char c).isSpace
  ((cs.dropWhile isSpace).reverse.dropWhile isSpace).reverse

def digitsValue (ds : List Char) : Nat := ds.foldl (fun n d => n * 10 + (d.toNat - 48)) 0

inductive Numeral where
  | number (n : Int)
  | tooLong
  | none
  deriving DecidableEq, Repr

/-- A number in its plain form: a minus sign perhaps, and digits without needless zeros. -/
def plainNumeral (cs : List Char) : Numeral :=
  let (negative, ds) := match cs with
    | '-' :: ds => (true, ds)
    | ds => (false, ds)
  let run := ds.takeWhile Char.isDigit
  if run.isEmpty then .none
  else if run.head? = some '0' then (if ds = ['0'] then .number 0 else .none)
  else if Text.mostDigits < run.length then .tooLong
  else if run.length = ds.length then
    .number (if negative then -(digitsValue ds : Int) else digitsValue ds)
  else .none

/-- Drops the zeros, and the underscores among them, before the first other digit or sign or the
last zero before a point. -/
def dropZeros : List Char → Option (List Char)
  | '0' :: cs =>
    match cs.dropWhile fun c => c = '0' || c = '_' with
    | [] => some ((('0' :: cs).getLast?).toList)
    | '.' :: rest =>
      let zeros := cs.takeWhile fun c => c = '0' || c = '_'
      some ((('0' :: zeros).getLast?).toList ++ '.' :: rest)
    | c :: rest => if c.isDigit || c = '-' then some (c :: rest) else none
  | c :: cs => if c.isDigit || c = '-' then some (c :: cs) else none
  | [] => none

/-- Drops a point followed by zeros and nothing else. -/
def dropZeroFraction (cs : List Char) : List Char :=
  match cs.dropWhile (· ≠ '.') with
  | '.' :: zeros =>
    if !zeros.isEmpty && zeros.all (· = '0') then cs.takeWhile (· ≠ '.') else cs
  | _ => cs

def hasDouble : List Char → Bool
  | '_' :: '_' :: _ => true
  | _ :: cs => hasDouble cs
  | [] => false

/-- Removes underscores that stand alone inside; other ones stay. -/
def dropUnderscores (cs : List Char) : List Char :=
  if cs.head? = some '_' || cs.getLast? = some '_' || hasDouble cs then cs
  else cs.filter (· ≠ '_')

/-- A number freed of blanks, of a plus sign, of zeros at its ends and of underscores. There may be
one sign only. -/
def cleaned? (cs : List Char) : Option (List Char) := do
  let cs ← match trimmed cs with
    | '+' :: '-' :: _ => none
    | '+' :: ds => dropZeros ds
    | '-' :: ds => (dropZeros ds).map ('-' :: ·)
    | ds => dropZeros ds
  return dropUnderscores (dropZeroFraction cs)

/-- The whole number that a text stands for. Only one in its plain form can be too long. -/
def numeral (cs : List Char) : Numeral :=
  match plainNumeral cs with
  | .none =>
    match (cleaned? cs).map plainNumeral with
    | some (.number n) => .number n
    | _ => .none
  | n => n

def int : Check Int
  | .int n => .good n
  | .bool b => .good (if b then 1 else 0)
  | .float x =>
    if !Decimal.isFinite x then .fail .notFinite (.float x)
    else if (Decimal.Double.ofFloat x).whole?.isNone then .fail .intFraction (.float x)
    else match wordFloat? x with
      | some n => .good n
      | none => .fail .intTooLarge (.float x)
  | .str s => characters s fun cs =>
    match numeral cs with
    | .number n => .good n
    | .tooLong => .fail .intTooLarge (.str s)
    | .none => .fail .intText (.str s)
  | v => .fail .intKind v

def natural : Check Nat := fun v =>
  (int v).andThen fun n => if n < 0 then .fail .belowZero v else .good n.toNat

/-- A decimal numeral without sign: digits, perhaps a point among or around them, perhaps an
exponent. -/
def decimalText? (negative : Bool) (cs : List Char) : Option Float :=
  let whole := cs.takeWhile Char.isDigit
  let rest := cs.dropWhile Char.isDigit
  let (fraction, rest) := match rest with
    | '.' :: ds => (ds.takeWhile Char.isDigit, ds.dropWhile Char.isDigit)
    | _ => ([], rest)
  let finish (e : Int) : Float :=
    Decimal.toFloat negative (digitsValue (whole ++ fraction)) (e - fraction.length)
  if whole.isEmpty && fraction.isEmpty then none
  else match rest with
    | [] => some (finish 0)
    | c :: es =>
      let (down, ds) := match es with
        | '-' :: ds => (true, ds)
        | '+' :: ds => (false, ds)
        | ds => (false, ds)
      if (c = 'e' || c = 'E') && !ds.isEmpty && ds.all Char.isDigit then
        some (finish (if down then -(digitsValue ds : Int) else digitsValue ds))
      else none

def floatText? (cs : List Char) : Option Float :=
  let (negative, cs) := match cs with
    | '-' :: rest => (true, rest)
    | '+' :: rest => (false, rest)
    | _ => (false, cs)
  let word := lowered cs
  if word = "inf" || word = "infinity" then some (if negative then -1.0 / 0.0 else 1.0 / 0.0)
  else if word = "nan" then some (0.0 / 0.0)
  else decimalText? negative cs

def float : Check Float
  | .float x => .good x
  | .bool b => .good (if b then 1.0 else 0.0)
  | .int n =>
    let x := Decimal.toFloat (n < 0) n.natAbs 0
    if Decimal.isFinite x then .good x else .fail .floatKind (.int n)
  | .str s => characters s fun cs =>
    match floatText? (trimmed cs), floatText? (dropUnderscores cs) with
    | some x, _ => .good x
    | none, some x => .good x
    | none, none => .fail .floatText (.str s)
  | v => .fail .floatKind v

def choice {α : Type} (fault : List Text → Fault) (table : List (Text × α)) : Check α
  | .str s => characters s fun _ =>
    match table.lookup s with
    | some a => .good a
    | none => .fail (fault (table.map (·.1))) (.str s)
  | v => .fail (fault (table.map (·.1))) v

end Hunkwise.Check
