import Hunkwise.Decimal.Shortest

/-! How a floating-point number is written: the shortest digits that read back, positionally for
magnitudes from a ten-thousandth up to ten to the sixteenth and with an exponent outside. -/

namespace Hunkwise.Decimal

structure Style where
  /-- Numbers with more digits than this before the point get an exponent. -/
  mostBefore : Int
  /-- Numbers with this many zeros or more right after the point get an exponent. -/
  leastZeros : Int
  infinite : String
  notANumber : String

def Style.report : Style := ⟨16, 4, "inf", "nan"⟩

def Style.document : Style := ⟨16, 4, "Infinity", "NaN"⟩

def Scientific.render (style : Style) (s : Scientific) : String :=
  let ds := Nat.toDigits 10 s.digits
  let n : Int := ds.length
  let point := n + s.exponent
  if style.mostBefore < point ∨ point ≤ -style.leastZeros then
    let e := point - 1
    let es := Nat.toDigits 10 e.natAbs
    let mark := if e < 0 then ['e', '-'] else ['e', '+']
    let pad := if es.length < 2 then ['0'] else []
    let fraction := if ds.length ≤ 1 then [] else '.' :: ds.drop 1
    String.ofList (ds.take 1 ++ fraction ++ mark ++ pad ++ es)
  else if point ≤ 0 then
    String.ofList ('0' :: '.' :: List.replicate (-point).toNat '0' ++ ds)
  else if n ≤ point then
    String.ofList (ds ++ List.replicate (point - n).toNat '0' ++ ['.', '0'])
  else
    String.ofList (ds.take point.toNat ++ '.' :: ds.drop point.toNat)

def render (style : Style) (x : Float) : String :=
  let d := Double.ofFloat x
  let sign := if d.negative then "-" else ""
  if d.isFinite then
    if d.significand = 0 then sign ++ "0.0" else sign ++ (shortest d).render style
  else if d.fraction = 0 then sign ++ style.infinite
  else style.notANumber

/-- The double nearest to `± digits · 10 ^ exponent`. Exponents beyond the range of a double are
settled without computing the power. -/
def toFloat (negative : Bool) (digits : Nat) (exponent : Int) : Float :=
  let size : Int := (Nat.toDigits 10 digits).length + exponent
  let x : Float :=
    if digits = 0 ∨ size < -400 then 0.0
    else if 400 < size then 1.0 / 0.0
    else .ofModel (.ofScientific digits exponent)
  if negative then -x else x

end Hunkwise.Decimal
