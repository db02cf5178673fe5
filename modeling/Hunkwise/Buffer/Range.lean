import Hunkwise.Schema.Scalar

/-! Ranges of a buffer: from a line and column to a line and column, both included. Lines count from
one and columns from zero. -/

namespace Hunkwise

structure LineRange where
  start : Int × Int
  stop : Int × Int
  deriving DecidableEq, Repr

namespace LineRange

def startLine (r : LineRange) : Int := r.start.1

def stopLine (r : LineRange) : Int := r.stop.1

def check : Check LineRange := Check.model "FormatRange" fun fs =>
  LineRange.mk
    <$> Check.required fs "start" (Check.pair Check.int)
    <*> Check.required fs "end" (Check.pair Check.int)

def ofJson (v : Json) : Except Rejection LineRange := (check v).verdict "FormatRange"

def place (p : Int × Int) : Json := .arr [.int p.1, .int p.2]

def toJson (r : LineRange) : Json := .obj [("start", place r.start), ("end", place r.stop)]

end LineRange

end Hunkwise
