import Hunkwise.Buffer.Range

/-! Formatter definitions. A command and its arguments are templates; the buffer goes to standard
input, and the formatted buffer is read back from standard output. -/

namespace Hunkwise

/-- A formatter command. It formats ranges only if it has arguments for them. -/
structure Definition where
  command : List Text
  rangeArgs : Option (List Text) := none
  fileArgs : List Text := []
  directory : Option Text := none
  deriving DecidableEq, Repr

structure Formatter extends Definition where
  name : Text
  deriving DecidableEq, Repr

namespace Definition

def words : Check (List Text) := Check.list Check.string

def fields (fs : Fields) : Checked Definition :=
  Definition.mk
    <$> Check.required fs "command" words
    <*> Check.optional fs "range_args" none (Check.nullable words)
    <*> Check.optional fs "file_args" [] words
    <*> Check.optional fs "cwd" none (Check.nullable Check.string)

def check : Check Definition := Check.model "FormatterDefinition" fields

def ofJson (v : Json) : Except Rejection Definition := (check v).verdict "FormatterDefinition"

def toFields (d : Definition) : Fields := [
  ("command", .ofTexts d.command),
  ("range_args", .ofOption .ofTexts d.rangeArgs),
  ("file_args", .ofTexts d.fileArgs),
  ("cwd", .ofOption .str d.directory)]

def toJson (d : Definition) : Json := .obj d.toFields

end Definition

namespace Formatter

def formatsRanges (f : Formatter) : Bool := f.rangeArgs.isSome

def check : Check Formatter := Check.model "FormatterClientConfig" fun fs =>
  (fun name d => { toDefinition := d, name })
    <$> Check.required fs "name" Check.string
    <*> Definition.fields fs

def ofJson (v : Json) : Except Rejection Formatter := (check v).verdict "FormatterClientConfig"

def toJson (f : Formatter) : Json := .obj (("name", .str f.name) :: f.toDefinition.toFields)

end Formatter

/-- A unit of work for a formatter; without a range it is the whole file. -/
structure FormatRequest where
  client : Text
  buffer : Text
  range : Option LineRange
  deriving DecidableEq, Repr

namespace FormatRequest

def check : Check FormatRequest := Check.model "FormatRequest" fun fs =>
  FormatRequest.mk
    <$> Check.required fs "client_id" Check.string
    <*> Check.required fs "buffer_id" Check.string
    <*> Check.optional fs "range" none (Check.nullable LineRange.check)

def ofJson (v : Json) : Except Rejection FormatRequest := (check v).verdict "FormatRequest"

def toJson (r : FormatRequest) : Json := .obj [
  ("client_id", .str r.client), ("buffer_id", .str r.buffer),
  ("range", .ofOption LineRange.toJson r.range)]

end FormatRequest

end Hunkwise
