import Hunkwise.Diff.Alignment

/-! The patience alignment. Elements that occur exactly once in either list are anchors; a longest
chain of anchors that grows on both sides is kept, and the stretches between its members are aligned
in the same way. Where there is no anchor, agreeing ends are taken. -/

namespace Hunkwise.Diff

variable {α : Type} [DecidableEq α]

/-- The places, old and new, of the elements that occur once in either list, in the new order. -/
def anchors (xs ys : List α) : Pairs :=
  ys.zipIdx.filterMap fun (y, j) =>
    if xs.count y = 1 ∧ ys.count y = 1 then some (xs.idxOf y, j) else none

/-- Puts an anchor on the leftmost pile whose top lies beyond it in the old list, or on a new pile.
Each pile keeps the chain that ends in its top; `below` is the chain on the pile to the left. -/
def place (anchor : Nat × Nat) (below : Pairs) : List Pairs → List Pairs
  | [] => [anchor :: below]
  | chain :: piles =>
    match chain with
    | top :: _ =>
      if top.1 < anchor.1 then chain :: place anchor chain piles
      else (anchor :: below) :: piles
    | [] => (anchor :: below) :: piles

/-- A longest growing chain of anchors: the one on the last pile. -/
def uniqueChain (xs ys : List α) : Pairs :=
  let piles := (anchors xs ys).foldl (fun piles anchor => place anchor [] piles) []
  (piles.getLast?.getD []).reverse

/-- Completes a chain by aligning, with `inner`, what lies before, between and after its pairs. -/
def fillGaps (inner : List α → List α → Option Pairs) (xs ys : List α) :
    Nat → Nat → Pairs → Option Pairs
  | i, j, [] => (inner (xs.drop i) (ys.drop j)).map (shift i j)
  | i, j, (p, q) :: chain => do
    let before ←
      if i = p ∧ j = q then some []
      else (inner (part xs i p) (part ys j q)).map (shift i j)
    let after ← fillGaps inner xs ys (p + 1) (q + 1) chain
    some (before ++ (p, q) :: after)

/-- Aligns what lies before, or after, the agreeing ends of two lists without anchors. -/
def alignEnds (inner : List α → List α → Option Pairs) (xs ys : List α) : Option Pairs :=
  let head := commonPrefix xs ys
  if 0 < head then
    (inner (xs.drop head) (ys.drop head)).map fun ps => diagonal head ++ shift head head ps
  else
    let tail := commonSuffix xs ys
    let m := xs.length - tail
    let n := ys.length - tail
    if 0 < tail then
      (inner (xs.take m) (ys.take n)).map fun ps => ps ++ shift m n (diagonal tail)
    else some []

/-- The patience alignment, to a depth of `levels`; none when it would go deeper. -/
def patience : Nat → List α → List α → Option Pairs
  | 0, _, _ => none
  | levels + 1, xs, ys =>
    if xs.isEmpty || ys.isEmpty then some []
    else match uniqueChain xs ys with
      | [] => alignEnds (patience levels) xs ys
      | chain => fillGaps (patience levels) xs ys 0 0 chain

def patienceLevels : Nat := 11

end Hunkwise.Diff
