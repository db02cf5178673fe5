import Hunkwise.Path
import Hunkwise.Process.Basic
import Hunkwise.Schema.Scalar

/-! Version control: what is asked of a backend, and what can go wrong. -/

namespace Hunkwise.Vcs

inductive Backend where
  | git
  | mercurial
  deriving DecidableEq, Repr

namespace Backend

def names : List (Text × Backend) := [("git", .git), ("hg", .mercurial)]

def ofName? (name : Text) : Option Backend := Table.get? names name

def program : Backend → Text
  | .git => "git"
  | .mercurial => "hg"

end Backend

inductive Failure where
  | unsupported (name : Text)
  | notARepository (backend : Backend)
  | conflictsUnknown (path : Text)
  | statusUnknown (path : Text)
  | noBaseline (backend : Backend)
  /-- The repository root has not been found yet. -/
  | noRoot
  /-- A path that no file can have. -/
  | badPath
  /-- A path with halves that no bytes stand for. -/
  | unencodablePath
  /-- An index entry lacks its stage. -/
  | shortEntry
  /-- The stage of an index entry is no number. -/
  | badStage
  | process (f : ProcessFailure)
  deriving DecidableEq, Repr

def unsupportedMessage (name : Text) : Text := "VCS " ++ name ++ " isn't supported"

namespace Failure

def message : Failure → Text
  | unsupported name => unsupportedMessage name
  | notARepository .git => "not inside git repository"
  | notARepository .mercurial => "not inside a hg repository"
  | conflictsUnknown path => "failed to get conflicts for " ++ path
  | statusUnknown path => "failed to get file information for " ++ path
  | noBaseline .git => "exit code from git show is non-zero"
  | noBaseline .mercurial => "exit code from hg cat is non-zero"
  | noRoot => "no repository root"
  | badPath => "impossible path"
  | unencodablePath => "path without encoding"
  | shortEntry => "index entry without a stage"
  | badStage => "malformed stage"
  | process _ => "process failure"

def code? : Failure → Option Text
  | unsupported _ => some "UNSUPPORTED_VCS"
  | notARepository _ => some "NOT_A_REPOSITORY"
  | conflictsUnknown _ => some "QUERY_FAILED"
  | statusUnknown _ => some "QUERY_FAILED"
  | noBaseline _ => some "COMPARISON_UNAVAILABLE"
  | _ => none

end Failure

structure FileStatus where
  tracked : Bool := false
  conflicted : Bool := false
  path : Option Text := none
  object : Option Text := none
  mode : Option Text := none
  indexCrlf : Bool := false
  worktreeCrlf : Bool := false
  deriving DecidableEq, Repr

namespace FileStatus

def check : Check FileStatus := Check.model "FileInfo" fun fs =>
  FileStatus.mk
    <$> Check.optional fs "is_tracked" false Check.bool
    <*> Check.optional fs "has_conflicts" false Check.bool
    <*> Check.optional fs "relpath" none (Check.nullable Check.string)
    <*> Check.optional fs "object_name" none (Check.nullable Check.string)
    <*> Check.optional fs "mode_bits" none (Check.nullable Check.string)
    <*> Check.optional fs "i_crlf" false Check.bool
    <*> Check.optional fs "w_crlf" false Check.bool

def ofJson (v : Json) : Except Rejection FileStatus := (check v).verdict "FileInfo"

def toJson (s : FileStatus) : Json := .obj [
  ("is_tracked", .bool s.tracked), ("has_conflicts", .bool s.conflicted),
  ("relpath", .ofOption .str s.path), ("object_name", .ofOption .str s.object),
  ("mode_bits", .ofOption .str s.mode), ("i_crlf", .bool s.indexCrlf),
  ("w_crlf", .bool s.worktreeCrlf)]

end FileStatus

/-- A backend with the time its commands may take, as configured, and the root once it is known. -/
structure Repository where
  backend : Backend
  timeout : Json := .null
  root : Option Text := none

/-- A half that no byte stands for. The others stand for bytes that are no text. -/
def isStray (l : Letter) : Bool := l.isHalf && !(0xDC80 ≤ l.code && l.code ≤ 0xDCFF)

def nameFault (name : Text) : Option Failure :=
  if name.letters.any isStray then some .unencodablePath
  else if name.letters.contains (.char '\x00') then some .badPath
  else none

namespace Repository

def ofName (name : Text) (timeout : Json) : Except Failure Repository :=
  match Backend.ofName? name with
  | some backend => .ok { backend, timeout }
  | none => .error (.unsupported name)

def invocation (r : Repository) (args : List Text) (directory : Option Text) : Invocation :=
  { command := r.backend.program, args, directory, timeout := r.timeout }

def runIn (host : Host) (r : Repository) (directory : Option Text) (args : List Text) :
    Commands Failure Output :=
  (host.run (r.invocation args directory)).adapt .process

def run (host : Host) (r : Repository) (args : List Text) : Commands Failure Output :=
  runIn host r r.root args

/-- The path of a file from the repository root, with forward slashes. -/
def relativize (r : Repository) (path : Text) (workdir : Text := "/") : Except Failure Text :=
  match r.root with
  | none => .error .noRoot
  | some root =>
    let target := Path.components path workdir
    match (target ++ root.splitAt '/').findSome? nameFault with
    | some f => .error f
    | none => .ok (Path.render (Path.stepsFrom (Path.components root workdir) target))

def rootQuery : Backend → List Text
  | .git => ["rev-parse", "--show-toplevel"]
  | .mercurial => ["root"]

def locate (host : Host) (r : Repository) (path : Text) : Commands Failure Repository := do
  let out ← runIn host r (some (Path.directory path)) (rootQuery r.backend)
  if out.ok then return { r with root := some (Text.join out.stdout) }
  throw (.notARepository r.backend)

end Repository

end Hunkwise.Vcs
