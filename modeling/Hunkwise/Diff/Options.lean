import Hunkwise.Schema.Scalar

/-! The options of a line diff. -/

namespace Hunkwise.Diff

inductive Method where
  | patience
  | longestRuns
  deriving DecidableEq, Repr

structure Options where
  method : Method := .patience
  /-- Unchanged lines kept around a change. -/
  context : Nat := 0
  /-- Unchanged lines between two changes, besides their context, that still join them. -/
  joinWithin : Nat := 0
  /-- Move insertions and deletions to the most readable place. -/
  slide : Bool := true
  /-- Take a line with a final carriage return for the same line without it. -/
  ignoreReturn : Bool := true
  deriving DecidableEq, Repr

namespace Method

def names : List (Text × Method) := [("patience", .patience), ("difflib", .longestRuns)]

def name : Method → Text
  | .patience => "patience"
  | .longestRuns => "difflib"

end Method

namespace Options

def fieldNames : List Text :=
  ["algorithm", "ctxlen", "interhunkctxlen", "indent_heuristic", "ignore_cr_at_eol"]

def check : Check Options := Check.model "DiffOptions" fun fs => Check.closed fieldNames fs
  (Options.mk
    <$> Check.optional fs "algorithm" .patience (Check.choice .notChoice Method.names)
    <*> Check.optional fs "ctxlen" 0 Check.natural
    <*> Check.optional fs "interhunkctxlen" 0 Check.natural
    <*> Check.optional fs "indent_heuristic" true Check.bool
    <*> Check.optional fs "ignore_cr_at_eol" true Check.bool)

def ofJson (v : Json) : Except Rejection Options := (check v).verdict "DiffOptions"

def toJson (o : Options) : Json := .obj [
  ("algorithm", .str o.method.name),
  ("ctxlen", .ofNat o.context),
  ("interhunkctxlen", .ofNat o.joinWithin),
  ("indent_heuristic", .bool o.slide),
  ("ignore_cr_at_eol", .bool o.ignoreReturn)]

end Options

end Hunkwise.Diff
