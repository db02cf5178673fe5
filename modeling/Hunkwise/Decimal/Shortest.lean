import Hunkwise.Decimal.Double

/-! The shortest decimal that reads back. A double is `m · 2 ^ q`; the reals that round to it form
an interval, whose ends belong to it exactly when `m` is even. Of the decimals in the interval with
the fewest digits the nearest one is taken, and of two equally near ones the even one. -/

namespace Hunkwise.Decimal

/-- Digits and a power of ten: `digits · 10 ^ exponent`. -/
structure Scientific where
  digits : Nat
  exponent : Int

/-- A positive double with the ends of its interval, as numerators over one denominator. -/
structure Interval where
  low : Nat
  value : Nat
  high : Nat
  denominator : Nat
  closed : Bool

/-- The interval of a positive finite double, counted in quarters of its last place. Below a power
of two the next double is nearer. -/
def Interval.ofDouble (x : Double) : Interval :=
  let m := 4 * x.significand
  let below := if x.fraction = 0 ∧ 1 < x.biased then 1 else 2
  let unit := Nat.pow 2 (x.scale - 1077)
  { low := (m - below) * unit, value := m * unit, high := (m + 2) * unit
    denominator := Nat.pow 2 (1077 - x.scale), closed := x.significand % 2 = 0 }

/-- `d · 10 ^ e` as a numerator over the interval's denominator, both times a power of ten. -/
def Interval.scaled (v : Interval) (d : Nat) (e : Int) : Nat × Nat :=
  (d * v.denominator * Nat.pow 10 e.toNat, Nat.pow 10 (-e).toNat)

def Interval.holds (v : Interval) (d : Nat) (e : Int) : Bool :=
  let (x, t) := v.scaled d e
  if v.closed then v.low * t ≤ x && x ≤ v.high * t else v.low * t < x && x < v.high * t

/-- The decimal with `n` digits nearest to the value, if it is in the interval; `k` is the number of
digits before the point. -/
def Interval.withDigits? (v : Interval) (k : Int) (n : Nat) : Option Scientific :=
  let e := k - n
  let (_, t) := v.scaled 0 e
  let d := v.value * t / (v.denominator * Nat.pow 10 e.toNat)
  match v.holds d e, v.holds (d + 1) e with
  | false, false => none
  | true, false => some ⟨d, e⟩
  | false, true => some ⟨d + 1, e⟩
  | true, true =>
    let down := v.value * t - (v.scaled d e).1
    let up := (v.scaled (d + 1) e).1 - v.value * t
    if down < up ∨ (down = up ∧ d % 2 = 0) then some ⟨d, e⟩ else some ⟨d + 1, e⟩

/-- How many digits the value has before its point; zero or less for a value below one tenth. -/
def Interval.magnitude (v : Interval) : Int :=
  let k : Int := (Nat.toDigits 10 v.value).length - (Nat.toDigits 10 v.denominator).length
  let (x, t) := v.scaled 1 k
  if x ≤ v.value * t then k + 1 else k

def Scientific.strip : Nat → Scientific → Scientific
  | 0, s => s
  | fuel + 1, s =>
    if s.digits % 10 = 0 ∧ s.digits ≠ 0 then strip fuel ⟨s.digits / 10, s.exponent + 1⟩ else s

/-- The shortest decimal that reads back as a positive finite double. -/
def shortest (x : Double) : Scientific :=
  let v := Interval.ofDouble x
  let k := v.magnitude
  ((((List.range 17).map (· + 1)).findSome? (v.withDigits? k)).getD ⟨v.value, 0⟩).strip 20

end Hunkwise.Decimal
