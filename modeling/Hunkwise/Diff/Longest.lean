import Hunkwise.Diff.Alignment

/-! The longest-run alignment. The longest run on which two lists agree is kept, the earliest in the
old list and then in the new one where several are equally long; what lies on either side of it is
aligned in the same way. Elements that may not start a run still lengthen one. -/

namespace Hunkwise.Diff

variable {α : Type} [DecidableEq α]

/-- A run of agreeing places: where it starts in either list, and its length. -/
structure Run where
  old : Nat
  new : Nat
  length : Nat
  deriving DecidableEq, Repr

/-- For each place of `ys` the length of the run that starts there and at an old place holding `x`;
`next` holds the same for the old place after it. -/
def runRow (counts : α → Bool) (x : α) : List α → List Nat → List Nat
  | [], _ => []
  | y :: ys, next =>
    (if x = y && counts y then (next.drop 1).headD 0 + 1 else 0) ::
      runRow counts x ys (next.drop 1)

/-- The leftmost largest number of a row, with its place. -/
def rowBest (row : List Nat) : Nat × Nat :=
  (row.zipIdx.foldl (fun (best : Nat × Nat) (n, j) => if best.1 < n then (n, j) else best) (0, 0))

/-- The longest run of elements that count, and the row of the first old place. -/
def scanRuns (counts : α → Bool) (ys : List α) : List α → Run × List Nat
  | [] => (⟨0, 0, 0⟩, ys.map fun _ => 0)
  | x :: xs =>
    let (later, next) := scanRuns counts ys xs
    let row := runRow counts x ys next
    let (n, j) := rowBest row
    let best : Run :=
      if 0 < n ∧ later.length ≤ n then ⟨0, j, n⟩
      else if later.length = 0 then ⟨0, 0, 0⟩
      else ⟨later.old + 1, later.new, later.length⟩
    (best, row)

def Run.extend (xs ys : List α) (r : Run) : Run :=
  let back := commonSuffix (xs.take r.old) (ys.take r.new)
  let on := commonPrefix (xs.drop (r.old + r.length)) (ys.drop (r.new + r.length))
  ⟨r.old - back, r.new - back, back + r.length + on⟩

def longestRun (counts : α → Bool) (xs ys : List α) : Run :=
  (scanRuns counts ys xs).1.extend xs ys

def longestRuns (counts : α → Bool) (xs ys : List α) : Pairs :=
  match longestRun counts xs ys with
  | ⟨i, j, n⟩ =>
    if _h : 0 < n ∧ i + n ≤ xs.length then
      longestRuns counts (xs.take i) (ys.take j)
        ++ shift i j (diagonal n)
        ++ shift (i + n) (j + n) (longestRuns counts (xs.drop (i + n)) (ys.drop (j + n)))
    else []
termination_by xs.length
decreasing_by
  all_goals simp only [List.length_take, List.length_drop]; omega

/-- The elements too common to start a run: in a list of two hundred or more, those that make up
more than a hundredth of it. -/
def tooCommon (ys : List α) : List α :=
  if ys.length < 200 then []
  else ys.eraseDups.filter fun y => ys.length / 100 + 1 < ys.count y

end Hunkwise.Diff
