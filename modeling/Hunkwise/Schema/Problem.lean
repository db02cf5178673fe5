import Hunkwise.Json.Basic

/-! What can be wrong with a document, and where. A problem is a fault at a place; a rejection is
the list of all problems of a document under the title of what it should have been. -/

namespace Hunkwise

inductive Step where
  | key (name : Text)
  | index (i : Nat)
  deriving DecidableEq, Repr

inductive Fault where
  | missing
  | extra
  | notModel (title : Text)
  | noFields
  | boolText
  | boolKind
  | intFraction
  | intTooLarge
  | intText
  | intKind
  | notFinite
  | belowZero
  | floatText
  | floatKind
  | stringKind
  | listKind
  | mappingKind
  | pairKind
  | tooLong (length : Nat)
  | notChoice (choices : List Text)
  | notMember (choices : List Text)
  | malformed
  /-- A text with halves, where its characters matter. -/
  | notUnicode
  deriving DecidableEq, Repr

/-- Choices in apostrophes, the last one after an `or`. -/
def listChoices : List Text → Text
  | [] => ""
  | [c] => "'" ++ c ++ "'"
  | [c, d] => "'" ++ c ++ "' or '" ++ d ++ "'"
  | c :: cs => "'" ++ c ++ "', " ++ listChoices cs

namespace Fault

def code : Fault → Text
  | missing => "missing"
  | extra => "extra_forbidden"
  | notModel _ => "model_type"
  | noFields => "model_attributes_type"
  | boolText => "bool_parsing"
  | boolKind => "bool_type"
  | intFraction => "int_from_float"
  | intTooLarge => "int_parsing_size"
  | intText => "int_parsing"
  | intKind => "int_type"
  | notFinite => "finite_number"
  | belowZero => "greater_than_equal"
  | floatText => "float_parsing"
  | floatKind => "float_type"
  | stringKind => "string_type"
  | listKind => "list_type"
  | mappingKind => "dict_type"
  | pairKind => "tuple_type"
  | tooLong _ => "too_long"
  | notChoice _ => "literal_error"
  | notMember _ => "enum"
  | malformed => "json_invalid"
  | notUnicode => "string_unicode"

def message : Fault → Text
  | missing => "Field required"
  | extra => "Extra inputs are not permitted"
  | notModel title => "Input should be a valid dictionary or instance of " ++ title
  | noFields => "Input should be a valid dictionary or object to extract fields from"
  | boolText => "Input should be a valid boolean, unable to interpret input"
  | boolKind => "Input should be a valid boolean"
  | intFraction => "Input should be a valid integer, got a number with a fractional part"
  | intTooLarge => "Unable to parse input string as an integer, exceeded maximum size"
  | intText => "Input should be a valid integer, unable to parse string as an integer"
  | intKind => "Input should be a valid integer"
  | notFinite => "Input should be a finite number"
  | belowZero => "Input should be greater than or equal to 0"
  | floatText => "Input should be a valid number, unable to parse string as a number"
  | floatKind => "Input should be a valid number"
  | stringKind => "Input should be a valid string"
  | listKind => "Input should be a valid list"
  | mappingKind => "Input should be a valid dictionary"
  | pairKind => "Input should be a valid tuple"
  | tooLong n =>
    "Tuple should have at most 2 items after validation, not " ++ Text.ofInt n
  | notChoice cs => "Input should be " ++ listChoices cs
  | notMember cs => "Input should be " ++ listChoices cs
  | malformed => "JSON decode error"
  | notUnicode => "Input should be a valid string, unable to parse raw data as a unicode string"

end Fault

structure Problem where
  path : List Step
  fault : Fault
  /-- What the fault was found in. -/
  subject : Json

structure Rejection where
  title : Text
  problems : List Problem

/-- A step in a report. A name that holds a point stands in grave accents, since points join the
steps. -/
def Step.text : Step → Text
  | .key name => if name.letters.contains (.char '.') then "\x60" ++ name ++ "\x60" else name
  | .index i => Text.ofInt i

def Step.toJson : Step → Json
  | .key name => .str name
  | .index i => .int i

/-- A problem in two lines of a report, or one when it concerns the whole document. -/
def Problem.lines (p : Problem) : List Text :=
  let what := "  " ++ p.fault.message ++ " [type=" ++ p.fault.code ++ "]"
  if p.path.isEmpty then [what] else [Text.intercalate "." (p.path.map Step.text), what]

def Problem.toJson (p : Problem) : Json :=
  .obj [("type", .str p.fault.code), ("loc", .arr (p.path.map Step.toJson)),
    ("msg", .str p.fault.message)]

def Rejection.message (r : Rejection) : Text :=
  let n := r.problems.length
  let count := Text.ofInt n ++
    (if n = 1 then " validation error for " else " validation errors for ")
  Text.intercalate "\n" ((count ++ r.title) :: r.problems.flatMap Problem.lines)

end Hunkwise
