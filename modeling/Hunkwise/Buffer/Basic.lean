import Hunkwise.Text.Lines
import Hunkwise.Text.Slice

/-! Buffers: the text of one open file as a list of lines, and whether a newline ends the last. -/

namespace Hunkwise

structure Buffer where
  path : Text
  lines : List Text
  endsLine : Bool
  deriving DecidableEq, Repr

namespace Buffer

/-- A buffer with the given text. The empty text counts as ended. -/
def ofText (path text : Text) : Buffer :=
  { path, lines := Text.lines (Text.chomp text)
    endsLine := text.endsWith '\n' || text.isEmpty }

def setText (b : Buffer) (text : Text) : Buffer := ofText b.path text

/-- The text: its lines joined, and a final newline if the last line has one. -/
def text (b : Buffer) : Text :=
  if b.endsLine && !b.lines.isEmpty then Text.join b.lines ++ "\n" else Text.join b.lines

/-- Puts `replacement` in place of the lines from `start` up to `stop`. A negative `stop` counts
from one past the end. -/
def setLines (b : Buffer) (start stop : Int) (replacement : List Text) : Buffer :=
  let stop := if stop < 0 then b.lines.length + stop + 1 else stop
  { b with lines := splice b.lines start stop replacement }

end Buffer

end Hunkwise
