import Hunkwise.Text.Blank
import Hunkwise.Text.Digit
import Hunkwise.Vcs.Basic

/-! Git: the status of a file from the listing of the index, and its baseline there. -/

namespace Hunkwise.Vcs.Git

def statusQuery (path : Text) : List Text :=
  ["-c", "core.quotepath=off", "ls-files", "--stage", "--others", "--exclude-standard", "--eol",
    path]

def baselineQuery (path : Text) : List Text :=
  ["--no-pager", "--literal-pathspecs", "show", ":0:./" ++ path]

/-- Takes in the attributes of an entry: mode, object and stage. Stages above one exist only while a
merge is unresolved. -/
def readAttributes (s : FileStatus) (attributes : Text) : Except Failure FileStatus :=
  match Text.words attributes with
  | mode :: object :: stage :: _ =>
    match Text.readInt? stage with
    | none => .error .badStage
    | some n =>
      if n ≤ 1 then .ok { s with mode := some mode, object := some object }
      else .ok { s with conflicted := true }
  | _ => .error .shortEntry

/-- Takes in one line of the listing. A tracked file has attributes, line ends and a path, with tabs
between; an untracked one has no attributes. -/
def readEntry (s : FileStatus) (line : Text) : Except Failure FileStatus :=
  match Text.splitAt '\t' line with
  | attributes :: ends :: path :: _ =>
    let ends := Text.words ends
    readAttributes
      { s with tracked := true, path := some path
               indexCrlf := ends[0]? == some (Text.ofString "i/crlf")
               worktreeCrlf := ends[1]? == some (Text.ofString "w/crlf") }
      attributes
  | parts => .ok { s with tracked := false, path := parts.getLast? }

def readListing (lines : List Text) : Except Failure FileStatus := lines.foldlM readEntry {}

end Hunkwise.Vcs.Git
