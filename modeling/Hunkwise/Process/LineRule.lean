import Hunkwise.Text.Find
import Hunkwise.Text.Slice

/-! Line rules: small formatters that change the lines of a range. -/

namespace Hunkwise

inductive LineRule where
  | same
  | split (sep : Text)
  | replace (old new : Text)
  | append (text : Text)
  | pad (width : Int) (text : Text)
  | join (sep : Text)
  | delete (text : Text)
  | sort
  /-- Replaces in all lines, whatever the range. -/
  | outside (old new : Text)
  /-- One rule after another; the range grows with the lines. -/
  | chain (rules : List LineRule)
  deriving Inhabited

namespace LineRule

/-- The lines that take the place of some lines of the range. A line cannot be split at nothing. -/
def body? : LineRule → List Text → Option (List Text)
  | split sep, ls => (ls.mapM (Text.splitOn? sep)).map List.flatten
  | replace old new, ls => some (ls.map (Text.replaceAll old new))
  | append text, ls => some (ls.map (· ++ text))
  | pad width text, ls => some (ls.map fun l => if (l.length : Int) < width then l ++ text else l)
  | join sep, ls => some [sep.intercalate ls]
  | delete text, ls => some (ls.filter fun l => !Text.occursIn text l)
  | sort, ls => some (ls.mergeSort Text.le)
  | same, ls => some ls
  | outside _ _, ls => some ls
  | chain _, ls => some ls

mutual

/-- Applies a rule to the lines `start` to `stop`, counted from one. -/
def edit? (lines : List Text) (start stop : Int) : LineRule → Option (List Text)
  | outside old new => some (lines.map (Text.replaceAll old new))
  | chain rules => editAll? lines start stop rules
  | rule => do
    let body ← rule.body? (between lines (start - 1) stop)
    return upTo lines (start - 1) ++ body ++ lines.drop (clampBound lines.length stop)

def editAll? (lines : List Text) (start stop : Int) : List LineRule → Option (List Text)
  | [] => some lines
  | rule :: rules => do
    let after ← edit? lines start stop rule
    editAll? after start (stop + (after.length - lines.length)) rules

end

end LineRule

end Hunkwise
