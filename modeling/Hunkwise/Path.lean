import Hunkwise.Text.Lines

/-! Paths, taken apart by their slashes alone. A path without a leading slash starts in the working
directory, and that is the root unless another one is given. -/

namespace Hunkwise.Path

/-- One step from a directory: nothing, `.` and `..` name no entry of it. -/
def step (dir : List Text) (name : Text) : List Text :=
  if name = "" ∨ name = "." then dir
  else if name = ".." then dir.dropLast
  else dir ++ [name]

def resolve (dir names : List Text) : List Text := names.foldl step dir

/-- A path in full: without a leading slash it is put below the working directory. -/
def full (path : Text) (workdir : Text := "/") : Text :=
  if path.letters.head? = some (.char '/') then path
  else if workdir.isEmpty || workdir.endsWith '/' then workdir ++ path
  else workdir ++ "/" ++ path

/-- The entries on the way to a path, from the root. -/
def components (path : Text) (workdir : Text := "/") : List Text :=
  resolve [] (Text.splitAt '/' (full path workdir))

/-- Exactly two leading slashes stay two; otherwise there is one. -/
def leadingSlashes (path : Text) : Text :=
  match path.letters with
  | .char '/' :: .char '/' :: .char '/' :: _ => "/"
  | .char '/' :: .char '/' :: _ => "//"
  | _ => "/"

def directory (path : Text) : Text :=
  leadingSlashes path ++ Text.intercalate "/" (components path).dropLast

/-- The entries of `xs` and of `ys` that are left when their common start is taken off. -/
def dropCommon : List Text → List Text → List Text × List Text
  | x :: xs, y :: ys => if x = y then dropCommon xs ys else (x :: xs, y :: ys)
  | xs, ys => (xs, ys)

def stepsFrom (root path : List Text) : List Text :=
  let (up, down) := dropCommon root path
  List.replicate up.length (".." : Text) ++ down

/-- Steps as text; no step at all stays where it is. -/
def render (steps : List Text) : Text :=
  if steps.isEmpty then "." else Text.intercalate "/" steps

end Hunkwise.Path
