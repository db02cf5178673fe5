/-! Double-precision numbers by their bits. -/

namespace Hunkwise.Decimal

/-- A sign, a biased exponent of eleven bits and a fraction of fifty-two. -/
structure Double where
  negative : Bool
  biased : Nat
  fraction : Nat
  deriving DecidableEq, Repr

namespace Double

def fractions : Nat := 0x10000000000000

/-- The number of biased exponents; the last of them marks what is not finite. -/
def exponents : Nat := 0x800

def ofFloat (x : Float) : Double :=
  let bits := x.toBits.toNat
  { negative := decide (bits / (fractions * exponents) = 1)
    biased := bits / fractions % exponents
    fraction := bits % fractions }

def isFinite (d : Double) : Bool := d.biased + 1 ≠ exponents

/-- The significand: a finite magnitude is `significand · 2 ^ (scale - 1075)`. -/
def significand (d : Double) : Nat := if d.biased = 0 then d.fraction else d.fraction + fractions

def scale (d : Double) : Nat := max d.biased 1

def whole? (d : Double) : Option Int :=
  let signed (n : Nat) : Int := if d.negative then -(n : Int) else n
  if !d.isFinite then none
  else if 1075 ≤ d.scale then some (signed (d.significand * Nat.pow 2 (d.scale - 1075)))
  else
    let unit := Nat.pow 2 (1075 - d.scale)
    if d.significand % unit = 0 then some (signed (d.significand / unit)) else none

end Double

def isFinite (x : Float) : Bool := (Double.ofFloat x).isFinite

end Hunkwise.Decimal
