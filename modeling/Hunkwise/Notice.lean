import Hunkwise.Schema.Scalar

/-! Notices for the user of the editor. -/

namespace Hunkwise

inductive Severity where
  | info
  | warning
  | error
  deriving DecidableEq, Repr

namespace Severity

def names : List (Text × Severity) :=
  [("info", .info), ("warning", .warning), ("error", .error)]

def name : Severity → Text
  | .info => "info"
  | .warning => "warning"
  | .error => "error"

def ofName? (name : Text) : Option Severity := Table.get? names name

end Severity

structure Notice where
  severity : Severity
  message : Text
  deriving DecidableEq, Repr

namespace Notice

def warning (message : Text) : Notice := ⟨.warning, message⟩

def error (message : Text) : Notice := ⟨.error, message⟩

def check : Check Notice := Check.model "Notification" fun fs =>
  Notice.mk
    <$> Check.required fs "level" (Check.choice .notMember Severity.names)
    <*> Check.required fs "message" Check.string

def ofJson (v : Json) : Except Rejection Notice := (check v).verdict "Notification"

def toJson (n : Notice) : Json :=
  .obj [("level", .str n.severity.name), ("message", .str n.message)]

end Notice

end Hunkwise
