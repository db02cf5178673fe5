import Hunkwise.Diff.Hunk

/-! Unified diffs: the changes from one list of lines to another with three lines of context, under
headers that name both files. -/

namespace Hunkwise.Diff

def shownContext : Nat := 3

/-- The two numbers of a range of lines in a header: the first line and how many, which is left out
when it is one. A range of no lines is named by the line before it. -/
def rangeText (start stop : Nat) : Text :=
  let number (n : Nat) : Text := Text.ofInt n
  let count := stop - start
  if count = 1 then number (start + 1)
  else if count = 0 then number start ++ "," ++ number 0
  else number (start + 1) ++ "," ++ number count

def groupBlocks : List Block → List (List Block)
  | [] => []
  | b :: bs =>
    match groupBlocks bs with
    | (next :: group) :: groups =>
      if next.oldStart - b.oldStop ≤ 2 * shownContext then (b :: next :: group) :: groups
      else [b] :: (next :: group) :: groups
    | groups => [b] :: groups

def marked (mark : Text) (lines : List Text) : List Text := lines.map (mark ++ ·)

/-- The lines of one group from the old place `i` on: unchanged lines, then what a block removes and
adds, and so on to the old place `stop`. -/
def groupLines (old new : List Text) (stop : Nat) : Nat → List Block → List Text
  | i, [] => marked " " (part old i stop)
  | i, b :: bs =>
    marked " " (part old i b.oldStart)
      ++ marked "-" (part old b.oldStart b.oldStop)
      ++ marked "+" (part new b.newStart b.newStop)
      ++ groupLines old new stop b.oldStop bs

def renderGroup (old new : List Text) (first : Block) (rest : List Block) : List Text :=
  let last := (first :: rest).getLast?.getD first
  let oldStart := first.oldStart - shownContext
  let newStart := first.newStart - shownContext
  let oldStop := min old.length (last.oldStop + shownContext)
  let newStop := min new.length (last.newStop + shownContext)
  ("@@ -" ++ rangeText oldStart oldStop ++ " +" ++ rangeText newStart newStop ++ " @@")
    :: groupLines old new oldStop oldStart (first :: rest)

def unifiedLines (old new : List Text) (path : Text) : List Text :=
  let common := tooCommon new
  let pairs := longestRuns (fun y => !common.contains y) old new
  match gaps old.length new.length 0 0 pairs with
  | [] => []
  | blocks =>
    ("--- a/" ++ path) :: ("+++ b/" ++ path) ::
      (groupBlocks blocks).flatMap fun
        | [] => []
        | b :: bs => renderGroup old new b bs

def unified (old new : List Text) (path : Text) : Text :=
  Text.terminated (unifiedLines old new path)

structure Change where
  path : Text
  hunks : List Hunk
  text : Text
  deriving DecidableEq, Repr

namespace Change

def between (o : Options) (old new : List Text) (path : Text) : Option Change :=
  (Diff.hunks o old new).map fun hs => ⟨path, hs, unified old new path⟩

def check : Check Change := Check.model "DiffResult" fun fs =>
  Change.mk
    <$> Check.required fs "file_path" Check.string
    <*> Check.required fs "hunks" (Check.list Hunk.check)
    <*> Check.required fs "unified_diff" Check.string

def ofJson (v : Json) : Except Rejection Change := (check v).verdict "DiffResult"

def toJson (c : Change) : Json := .obj [
  ("file_path", .str c.path), ("hunks", .arr (c.hunks.map Hunk.toJson)),
  ("unified_diff", .str c.text)]

end Change

end Hunkwise.Diff
