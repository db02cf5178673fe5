import Hunkwise.Formatter.Basic
import Hunkwise.Path
import Hunkwise.Template.Basic
import Hunkwise.Work

/-! Running a formatter over a buffer, or over a range of it. -/

namespace Hunkwise

structure Client where
  formatter : Formatter
  timeout : Json := .null

inductive FormatFailure where
  | noRanges (name : Text)
  | template (f : Template.Fault)
  | noCommand
  | process (f : ProcessFailure)
  | exited (name : Text) (code : Int) (stderr : List Text)
  deriving Repr

def FormatFailure.message : FormatFailure → Text
  | .noRanges name => "client " ++ name ++ " does not have a range formatting provider"
  | .exited name code _ =>
    "formatter " ++ name ++ " exited with " ++ Text.ofInt code
  | .template _ => "malformed template"
  | .noCommand => "empty command"
  | .process _ => "process failure"

namespace Client

def name (c : Client) : Text := c.formatter.name

def textLength (lines : List Text) : Nat := lines.foldr (fun l n => l.length + 1 + n) 0

def values (path : Text) (lines : List Text) (r : LineRange) : Template.Values := [
  ("path", .text path),
  ("start_line", .number r.startLine),
  ("end_line", .number r.stopLine),
  ("start_col", .number r.start.2),
  ("end_col", .number r.stop.2),
  ("offset", .number (textLength (upTo lines (r.startLine - 1)))),
  ("length", .number (textLength (between lines (r.startLine - 1) r.stopLine)))]

def wholeRange (lines : List Text) : LineRange :=
  { start := (1, 0)
    stop := (lines.length, match lines.getLast? with
      | some last => (last.length : Int) - 1
      | none => 0) }

def templates (c : Client) : Option LineRange → List Text
  | some _ => c.formatter.command ++ c.formatter.rangeArgs.getD []
  | none => c.formatter.command ++ c.formatter.fileArgs

def argv (c : Client) (machine : Nat → Nat → Template.Machine) (b : Buffer)
    (range : Option LineRange) : Except Template.Fault (List Text) :=
  Template.fillAll machine (values b.path b.lines (range.getD (wholeRange b.lines)))
    (c.templates range)

/-- The directory a formatter runs in: its own, or the one that holds the file. -/
def directory (c : Client) (b : Buffer) : Text :=
  match c.formatter.directory with
  | some d => if d.isEmpty then Path.directory b.path else d
  | none => Path.directory b.path

def invocation (c : Client) (machine : Nat → Nat → Template.Machine) (b : Buffer)
    (range : Option LineRange) : Except FormatFailure Invocation :=
  if range.isSome && !c.formatter.formatsRanges then .error (.noRanges c.name)
  else match c.argv machine b range with
    | .error f => .error (.template f)
    | .ok [] => .error .noCommand
    | .ok (command :: args) => .ok
        { command, args, directory := some (c.directory b)
          stdin := some (Text.terminated b.lines), timeout := c.timeout }

/-- Formats the buffer, or a range of it, in place, and tells whether it changed. -/
def format (host : Host) (c : Client) (range : Option LineRange) : Working FormatFailure Bool := do
  let w ← get
  let b := w.buffer
  let i ← ExceptT.mk (pure (c.invocation (host.machine w.log) b range))
  let out ← (Working.commands (host.run i)).adapt .process
  if !out.ok then throw (.exited c.name out.code out.stderr)
  if out.stdout = b.lines then return false
  modify fun w => { w with buffer := b.setLines 0 b.lines.length out.stdout }
  return true

end Client

end Hunkwise
