/-! Alignments. An alignment of two lists is a list of pairs of positions, growing on both sides, at
which the lists agree; the stretches between its pairs are the blocks in which the lists differ. -/

namespace Hunkwise.Diff

abbrev Pairs := List (Nat × Nat)

/-- Pairs of two lists seen from lists that start `i` and `j` places earlier. -/
def shift (i j : Nat) (ps : Pairs) : Pairs := ps.map fun (p, q) => (p + i, q + j)

/-- The pairs of a run of `n` agreeing places from the start. -/
def diagonal (n : Nat) : Pairs := (List.range n).map fun k => (k, k)

variable {α : Type}

def part (xs : List α) (start stop : Nat) : List α := (xs.drop start).take (stop - start)

variable [DecidableEq α]

def commonPrefix : List α → List α → Nat
  | x :: xs, y :: ys => if x = y then commonPrefix xs ys + 1 else 0
  | _, _ => 0

def commonSuffix (xs ys : List α) : Nat := commonPrefix xs.reverse ys.reverse

/-- A stretch of the old list that became a stretch of the new one; bounds count from zero and the
upper ones are not included. -/
structure Block where
  oldStart : Nat
  oldStop : Nat
  newStart : Nat
  newStop : Nat
  deriving DecidableEq, Repr

/-- What lies between the pairs, from the places `i` and `j` to the ends `m` and `n`. -/
def gaps (m n i j : Nat) : Pairs → List Block
  | [] => if i = m ∧ j = n then [] else [⟨i, m, j, n⟩]
  | (p, q) :: ps =>
    if i = p ∧ j = q then gaps m n (p + 1) (q + 1) ps
    else ⟨i, p, j, q⟩ :: gaps m n (p + 1) (q + 1) ps

end Hunkwise.Diff
