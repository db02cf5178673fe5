import Hunkwise.Diff.Options

/-! The configuration of an attachment, and how layers of it are merged. -/

namespace Hunkwise

structure AttachConfig where
  diff : Diff.Options := {}
  onSave : Bool := false
  vcs : Text := "git"
  deriving DecidableEq, Repr

namespace AttachConfig

def fieldNames : List Text := ["diff_options", "format_on_save", "vcs"]

def check : Check AttachConfig := Check.model "AttachConfig" fun fs => Check.closed fieldNames fs
  (AttachConfig.mk
    <$> Check.optional fs "diff_options" {} Diff.Options.check
    <*> Check.optional fs "format_on_save" false Check.bool
    <*> Check.optional fs "vcs" "git" Check.string)

def ofJson (v : Json) : Except Rejection AttachConfig := (check v).verdict "AttachConfig"

def toJson (c : AttachConfig) : Json := .obj [
  ("diff_options", c.diff.toJson), ("format_on_save", .bool c.onSave), ("vcs", .str c.vcs)]

end AttachConfig

/-- A layer whose diff options cannot be merged, because they are no object. -/
inductive MergeFault where
  | notAnObject
  deriving DecidableEq, Repr

/-- One layer over another: keys of the upper one win, and diff options are merged key by key. -/
def mergeLayers (base provided : Fields) : Except MergeFault Fields :=
  let merged := base.update provided
  match provided.get? "diff_options" with
  | some (.obj upper) =>
    match base.get? "diff_options" with
    | none => .ok (merged.set "diff_options" (.obj upper))
    | some (.obj lower) => .ok (merged.set "diff_options" (.obj (Table.update lower upper)))
    | some _ => .error .notAnObject
  | _ => .ok merged

end Hunkwise
