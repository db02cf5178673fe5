/-! Slices with signed bounds. A negative bound counts from the end of the list, and every bound is
moved to the nearest one inside it. -/

namespace Hunkwise

variable {α : Type}

/-- The position in `0 .. n` that the bound `i` means in a list of `n` elements. -/
def clampBound (n : Nat) (i : Int) : Nat :=
  if i < 0 then (n + i).toNat else min i.toNat n

theorem clampBound_natCast {k n : Nat} (h : k ≤ n) : clampBound n (k : Int) = k := by
  unfold clampBound
  rw [if_neg (by omega), Int.toNat_natCast, Nat.min_eq_left h]

def upTo (xs : List α) (stop : Int) : List α := xs.take (clampBound xs.length stop)

def between (xs : List α) (start stop : Int) : List α :=
  let s := clampBound xs.length start
  (xs.drop s).take (clampBound xs.length stop - s)

/-- Puts `ys` in place of the elements from `start` to `stop`; when `stop` comes first nothing is
removed and `ys` goes in at `start`. -/
def splice (xs : List α) (start stop : Int) (ys : List α) : List α :=
  let s := clampBound xs.length start
  let e := max s (clampBound xs.length stop)
  xs.take s ++ ys ++ xs.drop e

theorem splice_natCast {xs : List α} {a b : Nat} (hab : a ≤ b) (hb : b ≤ xs.length) (ys : List α) :
    splice xs a b ys = xs.take a ++ ys ++ xs.drop b := by
  simp only [splice, clampBound_natCast (Nat.le_trans hab hb), clampBound_natCast hb,
    Nat.max_eq_right hab]

/-- The element at a signed position, the last one being at `-1`. -/
def elementAt? (xs : List α) (i : Int) : Option α :=
  if i < 0 then (if xs.length + i < 0 then none else xs[(xs.length + i).toNat]?) else xs[i.toNat]?

end Hunkwise
