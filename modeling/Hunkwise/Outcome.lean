import Hunkwise.Schema.Scalar

/-! How a formatting request ended for one client. -/

namespace Hunkwise

inductive Status where
  | formattedFile
  | formattedModifications
  | notARepository
  | conflicts
  | queryFailed
  | noBaseline
  deriving DecidableEq, Repr

namespace Status

def names : List (Text × Status) := [
  ("formatted_file", .formattedFile),
  ("formatted_modifications", .formattedModifications),
  ("skipped_not_repository", .notARepository),
  ("skipped_conflicts", .conflicts),
  ("query_failed", .queryFailed),
  ("comparison_unavailable", .noBaseline)]

def name : Status → Text
  | .formattedFile => "formatted_file"
  | .formattedModifications => "formatted_modifications"
  | .notARepository => "skipped_not_repository"
  | .conflicts => "skipped_conflicts"
  | .queryFailed => "query_failed"
  | .noBaseline => "comparison_unavailable"

end Status

structure Outcome where
  client : Text
  status : Status
  passes : Int := 0
  formatCalls : Int := 0
  mutations : Int := 0
  deriving DecidableEq, Repr

namespace Outcome

def check : Check Outcome := Check.model "FormatOutcome" fun fs =>
  Outcome.mk
    <$> Check.required fs "client_id" Check.string
    <*> Check.required fs "status" (Check.choice .notMember Status.names)
    <*> Check.optional fs "passes" 0 Check.int
    <*> Check.optional fs "format_calls" 0 Check.int
    <*> Check.optional fs "mutations" 0 Check.int

def ofJson (v : Json) : Except Rejection Outcome := (check v).verdict "FormatOutcome"

def toJson (o : Outcome) : Json := .obj [
  ("client_id", .str o.client), ("status", .str o.status.name), ("passes", .int o.passes),
  ("format_calls", .int o.formatCalls), ("mutations", .int o.mutations)]

end Outcome

end Hunkwise
