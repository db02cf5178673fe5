import Hunkwise.Vcs.Basic

/-! Mercurial: the status of a file from the list of changes, conflicts from the list of merges, and
the baseline in the parent of the working copy. -/

namespace Hunkwise.Vcs.Mercurial

def conflictsQuery (path : Text) : List Text := ["resolve", "-l", "--", path]

def statusQuery (path : Text) : List Text := ["status", "-cmau", "--no-copies", "--", path]

def baselineQuery (path : Text) : List Text := ["cat", "--", path]

def isComment (line : Text) : Bool :=
  line.isEmpty || (line.letters.dropWhile (· = .char ' ')).head? == some (.char '#')

def afterMark (line : Text) : Text := ⟨line.letters.drop 2⟩

def readConflicts (lines : List Text) : List Text :=
  ((lines.filter fun l => !isComment l).filter fun l =>
    l.letters.head? == some (.char 'U')).map afterMark

/-- The status that the first entry of a list of changes gives. Added and unknown files are new. -/
def readStatus (conflicts lines : List Text) : FileStatus :=
  let s : FileStatus := { mode := some "100644", indexCrlf := true, worktreeCrlf := true }
  match lines.find? fun l => !isComment l with
  | none => s
  | some line =>
    let path := afterMark line
    let mark := line.letters.head?
    { s with path := some path, object := some path
             tracked := mark != some (.char 'A') && mark != some (.char '?')
             conflicted := conflicts.contains path }

end Hunkwise.Vcs.Mercurial
