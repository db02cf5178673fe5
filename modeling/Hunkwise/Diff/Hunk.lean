import Hunkwise.Diff.Longest
import Hunkwise.Diff.Options
import Hunkwise.Diff.Patience
import Hunkwise.Diff.Slide
import Hunkwise.Text.Lines

/-! Hunks. The hunks from one list of lines to another are the blocks in which they differ, joined
where they lie close together and widened by their context. -/

namespace Hunkwise.Diff

/-- A stretch of old lines and the stretch of new lines in its place; lines count from one. -/
structure Hunk where
  oldStart : Int
  oldCount : Int
  newStart : Int
  newCount : Int
  deriving DecidableEq, Repr

namespace Hunk

def isDeletion (h : Hunk) : Bool := h.newCount == 0

def lastLine (h : Hunk) : Int := h.newStart + h.newCount - 1

def check : Check Hunk := Check.model "Hunk" fun fs =>
  Hunk.mk
    <$> Check.required fs "old_start" Check.int
    <*> Check.required fs "old_count" Check.int
    <*> Check.required fs "new_start" Check.int
    <*> Check.required fs "new_count" Check.int

def ofJson (v : Json) : Except Rejection Hunk := (check v).verdict "Hunk"

def toJson (h : Hunk) : Json := .obj [
  ("old_start", .int h.oldStart), ("old_count", .int h.oldCount),
  ("new_start", .int h.newStart), ("new_count", .int h.newCount)]

end Hunk

/-- What of a line counts in comparisons. -/
def Options.key (o : Options) (line : Text) : Text :=
  if o.ignoreReturn && line.endsWith '\r' then line.dropLast else line

/-- An alignment of two lists by the chosen method; none beyond the depth of a patience one. -/
def Options.align (o : Options) (old new : List Text) : Option Pairs :=
  match o.method with
  | .patience => patience patienceLevels old new
  | .longestRuns => some (longestRuns (fun _ => true) old new)

/-- Joins each block to the one above it when at most `distance` unchanged lines lie between. -/
def joinBlocks (distance : Nat) : List Block → List Block
  | [] => []
  | b :: bs =>
    match joinBlocks distance bs with
    | [] => [b]
    | next :: rest =>
      if next.oldStart - b.oldStop ≤ distance then
        ⟨b.oldStart, next.oldStop, b.newStart, next.newStop⟩ :: rest
      else b :: next :: rest

/-- The hunk of a block with `context` more lines on either side, as far as there are any. -/
def Block.toHunk (context oldLength newLength : Nat) (b : Block) : Hunk :=
  let oldStart := b.oldStart - context
  let newStart := b.newStart - context
  { oldStart := oldStart + 1
    oldCount := (min oldLength (b.oldStop + context) : Nat) - (oldStart : Int)
    newStart := newStart + 1
    newCount := (min newLength (b.newStop + context) : Nat) - (newStart : Int) }

/-- The blocks in which two lists of keys differ, each at its resting place. -/
def Options.blocks (o : Options) (old new : List Text) : Option (List Block) :=
  (o.align old new).map fun pairs =>
    let blocks := gaps old.length new.length 0 0 pairs
    if o.slide then slideBlocks old.toArray new.toArray (0, 0) blocks else blocks

def hunks (o : Options) (old new : List Text) : Option (List Hunk) :=
  (o.blocks (old.map o.key) (new.map o.key)).map fun blocks =>
    (joinBlocks (2 * o.context + o.joinWithin) blocks).map
      (Block.toHunk o.context old.length new.length)

def textHunks (o : Options) (old new : Text) : Option (List Hunk) :=
  hunks o (Text.lines old) (Text.lines new)

end Hunkwise.Diff
