import Hunkwise.Diff.Alignment
import Hunkwise.Text.Blank

/-! Sliding. A block of inserted or deleted lines may move through the unchanged lines around it as
long as the line that enters it equals the line that leaves it. Of all places it can reach, the
best is followed by a blank line or the end of the text, then has the least indented first line,
then lies furthest down. -/

namespace Hunkwise.Diff

def isIndent (l : Letter) : Bool := l = ' ' || l = '\t'

def indent (line : Text) : Nat := (line.letters.takeWhile isIndent).length

/-- The highest place that `len` lines standing at the given place can be moved up to, but not above
`low`. -/
def climb (lines : Array Text) (low len : Nat) : Nat → Nat
  | 0 => 0
  | s + 1 => if low < s + 1 ∧ lines[s]? = lines[s + len]? then climb lines low len s else s + 1

/-- The place `s` and all places below it that `len` lines standing at `s` can be moved down to,
staying above `high`. -/
def descend (lines : Array Text) (high len s : Nat) : List Nat :=
  if s + len < high ∧ lines[s]? = lines[s + len]? then s :: descend lines high len (s + 1) else [s]
termination_by high - s

/-- How readable a place is: whether something follows that is not blank, and the indentation of the
first line that is not blank. -/
def readability (lines : Array Text) (len s : Nat) : Nat × Nat :=
  let following := match lines[s + len]? with
    | some line => if Text.isBlankLine line then 0 else 1
    | none => 0
  let first := ((lines.extract s (s + len)).toList.find? fun line => !Text.isBlankLine line).getD ""
  (following, indent first)

def notWorse (a b : Nat × Nat) : Bool := a.1 < b.1 || (a.1 = b.1 && a.2 ≤ b.2)

/-- The best of some places, the last of several equally good ones. -/
def bestPlace (lines : Array Text) (len : Nat) (start : Nat) (places : List Nat) : Nat :=
  places.foldl (fun best s =>
    if notWorse (readability lines len s) (readability lines len best) then s else best) start

def restingPlace (lines : Array Text) (low high len start : Nat) : Nat :=
  let top := climb lines low len start
  bestPlace lines len top (descend lines high len top)

def Block.move (b : Block) (start place : Nat) : Block :=
  ⟨b.oldStart + place - start, b.oldStop + place - start,
    b.newStart + place - start, b.newStop + place - start⟩

/-- Slides one block: `before` is the end of the block above it, `after` the start of the one below,
on the old and the new side. A block that has lines on both sides stays. -/
def slideBlock (old new : Array Text) (before after : Nat × Nat) (b : Block) : Block :=
  if b.oldStart = b.oldStop then
    b.move b.newStart
      (restingPlace new before.2 after.2 (b.newStop - b.newStart) b.newStart)
  else if b.newStart = b.newStop then
    b.move b.oldStart
      (restingPlace old before.1 after.1 (b.oldStop - b.oldStart) b.oldStart)
  else b

/-- Slides every block, from the first to the last; each meets the moved one above it. -/
def slideBlocks (old new : Array Text) (before : Nat × Nat) : List Block → List Block
  | [] => []
  | b :: bs =>
    let after := match bs with
      | [] => (old.size, new.size)
      | next :: _ => (next.oldStart, next.newStart)
    let moved := slideBlock old new before after b
    moved :: slideBlocks old new (moved.oldStop, moved.newStop) bs

end Hunkwise.Diff
