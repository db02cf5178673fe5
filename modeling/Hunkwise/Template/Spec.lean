import Hunkwise.Decimal.Notation
import Hunkwise.Text.Digit

/-! Format specifications: fill, alignment, sign, width, grouping, precision and the kind of number,
applied to a text or to a whole number. -/

namespace Hunkwise.Template

inductive Align where
  | left
  | right
  | center
  /-- Fill goes between the sign and the digits. -/
  | inner
  deriving DecidableEq, Repr

inductive Sign where
  | always
  | blank
  | minus
  deriving DecidableEq, Repr

structure Spec where
  fill : Letter := ' '
  align : Option Align := none
  sign : Option Sign := none
  noNegativeZero : Bool := false
  alternate : Bool := false
  zeroPad : Bool := false
  width : Nat := 0
  grouping : Option Char := none
  precision : Option Nat := none
  kind : Option Char := none
  deriving DecidableEq, Repr

def align? : Letter → Option Align
  | .char '<' => some .left
  | .char '>' => some .right
  | .char '^' => some .center
  | .char '=' => some .inner
  | _ => none

def sign? : Letter → Option Sign
  | .char '+' => some .always
  | .char ' ' => some .blank
  | .char '-' => some .minus
  | _ => none

def mostPlaces : Nat := 0x7FFFFFFFFFFFFFFF

/-- The number at the start of `cs`, if there is one, and what follows. -/
def readNumber (cs : List Letter) : Option Nat × List Letter :=
  let ds := cs.takeWhile fun c => (Text.digitValue? c).isSome
  let value := ds.foldl (fun n c => n * 10 + (Text.digitValue? c).getD 0) 0
  (if ds.isEmpty then none else some value, cs.drop ds.length)

def readAlign (cs : List Letter) : Spec × Bool × List Letter :=
  match cs with
  | c :: d :: rest =>
    match align? d, align? c with
    | some a, _ => ({ fill := c, align := some a }, true, rest)
    | none, some a => ({ align := some a }, false, d :: rest)
    | none, none => ({}, false, cs)
  | [c] =>
    match align? c with
    | some a => ({ align := some a }, false, [])
    | none => ({}, false, cs)
  | [] => ({}, false, [])

def readSign (s : Spec) : List Letter → Spec × List Letter
  | c :: cs =>
    match sign? c with
    | some g => ({ s with sign := some g }, cs)
    | none => (s, c :: cs)
  | [] => (s, [])

def readWidth (s : Spec) (cs : List Letter) : Option (Spec × List Letter) :=
  match readNumber cs with
  | (some n, rest) => if n ≤ mostPlaces then some ({ s with width := n }, rest) else none
  | (none, rest) => some (s, rest)

def readGrouping (s : Spec) : List Letter → Option (Spec × List Letter)
  | .char ',' :: .char '_' :: _ => none
  | .char '_' :: .char ',' :: _ => none
  | .char ',' :: cs => some ({ s with grouping := some ',' }, cs)
  | .char '_' :: cs => some ({ s with grouping := some '_' }, cs)
  | cs => some (s, cs)

def readPrecision (s : Spec) : List Letter → Option (Spec × List Letter)
  | .char '.' :: cs =>
    match readNumber cs with
    | (some n, rest) => if n ≤ mostPlaces then some ({ s with precision := some n }, rest) else none
    | (none, _) => none
  | cs => some (s, cs)

def readKind (s : Spec) : List Letter → Option Spec
  | [] => some s
  | [.char k] => some { s with kind := some k }
  | _ => none

/-- Digits may be grouped in threes where they are decimal, and with an underscore in any base. -/
def mayGroup (mark : Char) : Option Char → Bool
  | none => true
  | some k => ['d', 'e', 'f', 'g', 'E', 'G', '%', 'F'].contains k
      || (mark = '_' && ['b', 'o', 'x', 'X'].contains k)

def readSpec (cs : List Letter) : Option Spec := do
  let (s, filled, cs) := readAlign cs
  let (s, cs) := readSign s cs
  let (s, cs) := match cs with
    | .char 'z' :: cs => ({ s with noNegativeZero := true }, cs)
    | _ => (s, cs)
  let (s, cs) := match cs with
    | .char '#' :: cs => ({ s with alternate := true }, cs)
    | _ => (s, cs)
  let (s, cs) := match filled, cs with
    | false, .char '0' :: cs => ({ s with zeroPad := true, fill := '0' }, cs)
    | _, _ => (s, cs)
  let (s, cs) ← readWidth s cs
  let (s, cs) ← readGrouping s cs
  let (s, cs) ← readPrecision s cs
  let s ← readKind s cs
  match s.grouping with
  | some mark => if mayGroup mark s.kind then some s else none
  | none => some s

def pad (fill : Letter) (align : Align) (width : Nat) (cs : List Letter) : List Letter :=
  let n := width - cs.length
  match align with
  | .left => cs ++ List.replicate n fill
  | .right => List.replicate n fill ++ cs
  | .inner => List.replicate n fill ++ cs
  | .center => List.replicate (n / 2) fill ++ cs ++ List.replicate (n - n / 2) fill

inductive SpecFault where
  /-- The specification does not fit the value. -/
  | unfit
  /-- No letter has the number for its code point. -/
  | noLetter
  /-- The number is larger than any double. -/
  | tooLarge
  /-- More places are asked for than can be filled. -/
  | tooWide
  deriving DecidableEq, Repr

def widest : Nat := 0x1000000000

def Spec.formatText (s : Spec) (text : List Letter) : Except SpecFault (List Letter) :=
  if (s.kind.any (· ≠ 's')) || s.sign.isSome || s.noNegativeZero || s.alternate
      || s.align = some .inner || s.grouping.isSome then .error .unfit
  else if widest ≤ s.width then .error .tooWide
  else
    let shown := match s.precision with
      | some n => text.take n
      | none => text
    .ok (pad s.fill (s.align.getD .left) s.width shown)

/-- Groups digits, given from the last to the first, and adds zeros until they take up `least`
places. `room` digits of a group are still to come. -/
def groupDigits (mark : Char) (size : Nat) : Nat → List Char → Nat → Nat → List Char
  | 0, ds, _, _ => ds
  | fuel + 1, ds, room, least =>
    match ds with
    | [] =>
      if least = 0 then []
      else if room = 0 then mark :: '0' :: groupDigits mark size fuel [] (size - 1) (least - 2)
      else '0' :: groupDigits mark size fuel [] (room - 1) (least - 1)
    | d :: ds =>
      if room = 0 then mark :: d :: groupDigits mark size fuel ds (size - 1) (least - 2)
      else d :: groupDigits mark size fuel ds (room - 1) (least - 1)

def upperHex (cs : List Char) : List Char :=
  cs.map fun c => if 'a' ≤ c ∧ c ≤ 'z' then Char.ofNat (c.toNat - 32) else c

def digitsOf (n : Nat) : Char → List Char × List Char
  | 'b' => (Nat.toDigits 2 n, ['0', 'b'])
  | 'o' => (Nat.toDigits 8 n, ['0', 'o'])
  | 'x' => (Nat.toDigits 16 n, ['0', 'x'])
  | 'X' => (upperHex (Nat.toDigits 16 n), ['0', 'X'])
  | _ => (Nat.toDigits 10 n, [])

/-- Digits with the marks before them, filled up to the width; `tail` follows the digits. -/
def Spec.layOut (s : Spec) (negative : Bool) (marks digits tail : List Char) (size : Nat) :
    List Letter :=
  let sign := match s.sign, negative with
    | _, true => ['-']
    | some .always, false => ['+']
    | some .blank, false => [' ']
    | _, false => []
  let align := s.align.getD (if s.zeroPad then .inner else .right)
  let head := sign ++ marks
  let least :=
    if s.fill = '0' && align = .inner then s.width - head.length - tail.length else 0
  let grouped := match s.grouping with
    | some mark =>
      (groupDigits mark size (digits.length + least + 1) digits.reverse size least).reverse
    | none => List.replicate (least - digits.length) '0' ++ digits
  let letters (cs : List Char) : List Letter := cs.map .char
  match align with
  | .inner =>
    letters head
      ++ List.replicate (s.width - head.length - grouped.length - tail.length) s.fill
      ++ letters (grouped ++ tail)
  | a => pad s.fill a s.width (letters (head ++ grouped ++ tail))

/-- `n / 10 ^ k`, rounded to the nearest whole number and to the even one of two. -/
def roundTenth (n k : Nat) : Nat :=
  let t := Nat.pow 10 k
  let q := n / t
  let twice := 2 * (n % t)
  if t < twice ∨ (twice = t ∧ q % 2 = 1) then q + 1 else q

/-- The digits of a positive number rounded to `places + 1` of them, and the power of ten of the
first. -/
def scientificDigits (n places : Nat) : List Char × Nat :=
  let len := (Nat.toDigits 10 n).length
  if n = 0 then (List.replicate (places + 1) '0', 0)
  else if len ≤ places + 1 then
    (Nat.toDigits 10 n ++ List.replicate (places + 1 - len) '0', len - 1)
  else
    let ds := Nat.toDigits 10 (roundTenth n (len - places - 1))
    if places + 1 < ds.length then (ds.take (places + 1), len) else (ds, len - 1)

def exponentText (e : Nat) (mark : Char) : List Char :=
  let es := Nat.toDigits 10 e
  mark :: '+' :: (if es.length < 2 then '0' :: es else es)

def dropFinalZeros (ds : List Char) : List Char := (ds.reverse.dropWhile (· = '0')).reverse

/-- A magnitude written as a decimal fraction: its whole digits and what follows them. One that is
too large for a double, as a hundredfold may be, is infinite. -/
def fractionText (s : Spec) (x : Float) (kind : Char) : List Char × List Char :=
  match kind with
  | 'e' => scientific 'e'
  | 'E' => scientific 'E'
  | 'g' => general 'e'
  | 'G' => general 'E'
  | '%' => fixed (x * 100.0) ['%']
  | _ => fixed x []
where
  magnitude (x : Float) : Nat := ((Decimal.Double.ofFloat x).whole?.getD 0).natAbs
  point (ds : List Char) : List Char := if ds.isEmpty && !s.alternate then [] else '.' :: ds
  fixed (x : Float) (tail : List Char) : List Char × List Char :=
    if Decimal.isFinite x then
      (Nat.toDigits 10 (magnitude x), point (List.replicate (s.precision.getD 6) '0') ++ tail)
    else ([], ['i', 'n', 'f'] ++ tail)
  scientific (mark : Char) : List Char × List Char :=
    let (ds, e) := scientificDigits (magnitude x) (s.precision.getD 6)
    (ds.take 1, point (ds.drop 1) ++ exponentText e mark)
  general (mark : Char) : List Char × List Char :=
    let p := max 1 (s.precision.getD 6)
    let (ds, e) := scientificDigits (magnitude x) (p - 1)
    let keep (ds : List Char) : List Char := if s.alternate then ds else dropFinalZeros ds
    if e < p then (ds.take (e + 1), point (keep (ds.drop (e + 1))))
    else (ds.take 1, point (keep (ds.drop 1)) ++ exponentText e mark)

def mostFraction : Nat := 0x7FFFFFFF

def Spec.formatFraction (s : Spec) (n : Int) (kind : Char) : Except SpecFault (List Letter) :=
  let x := Decimal.toFloat false n.natAbs 0
  if !Decimal.isFinite x then .error .tooLarge
  else if s.precision.any (mostFraction < ·) then .error .unfit
  else if widest ≤ s.width then .error .tooWide
  else
    let (digits, tail) := fractionText s x kind
    let s := if digits.isEmpty then { s with grouping := none } else s
    .ok (s.layOut (decide (n < 0)) [] digits tail 3)

def Spec.formatWhole (s : Spec) (n : Int) (kind : Char) : List Letter :=
  let (digits, marks) := digitsOf n.natAbs kind
  let size := if kind = 'd' || kind = 'n' then 3 else 4
  s.layOut (decide (n < 0)) (if s.alternate then marks else []) digits [] size

def Spec.formatLetter (s : Spec) (n : Int) : Except SpecFault (List Letter) :=
  if s.sign.isSome || s.alternate || s.grouping.isSome then .error .unfit
  else if n < 0 || 0x10FFFF < n then .error .noLetter
  else if widest ≤ s.width then .error .tooWide
  else
    let align := s.align.getD (if s.zeroPad then .inner else .right)
    .ok (pad s.fill align s.width [Letter.ofCode n.toNat])

def Spec.formatNumber (s : Spec) (n : Int) : Except SpecFault (List Letter) :=
  let kind := s.kind.getD 'd'
  let inexact := s.precision.isSome || s.noNegativeZero
  if ['e', 'E', 'f', 'F', 'g', 'G', '%'].contains kind then s.formatFraction n kind
  else if inexact || !(['b', 'o', 'x', 'X', 'd', 'n', 'c'].contains kind) then .error .unfit
  else if kind = 'c' then s.formatLetter n
  else if widest ≤ s.width then .error .tooWide
  else .ok (s.formatWhole n kind)

end Hunkwise.Template
