import Hunkwise.Json.Basic
import Hunkwise.Template.Value
import Hunkwise.Text.Lines
import Hunkwise.Text.Utf8

/-! External commands. A host answers each invocation, and its answer may depend on all invocations
before; nothing else is known of it. Whatever is run keeps a log of its invocations. -/

namespace Hunkwise

/-- A command to run: its arguments, its directory, what it reads, and the time it may take. -/
structure Invocation where
  command : Text
  args : List Text := []
  directory : Option Text := none
  stdin : Option Text := none
  timeout : Json := .null

def Invocation.argv (i : Invocation) : List Text := i.command :: i.args

inductive StartFault where
  | missing
  | notDirectory
  | denied
  deriving DecidableEq, Repr

inductive Response where
  | exited (code : Int) (stdout stderr : List UInt8)
  | notStarted (why : StartFault)
  | broken
  | timedOut
  /-- The arguments or the input were not what the command works on. -/
  | misused

/-- What commands answer, and what the machine shows of the values in each template of a command, both
after the commands that ran before. -/
structure Host where
  answer : List Invocation → Invocation → Response
  machine : List Invocation → Nat → Nat → Template.Machine := fun _ _ _ => {}

instance : CoeFun Host fun _ => List Invocation → Invocation → Response := ⟨Host.answer⟩

/-- A command that ended without an exit code, or was not run at all. -/
inductive ProcessFailure where
  | broken
  | timedOut
  | misused
  /-- What the command should read cannot be encoded. -/
  | unencodable
  deriving DecidableEq, Repr

structure Output where
  code : Int
  stdout : List Text
  stderr : List Text
  deriving DecidableEq, Repr

def Output.ok (o : Output) : Bool := o.code == 0

def notStartedCode : Int := 127

def StartFault.message (command : Text) : StartFault → Text
  | .missing => "[Errno 2] No such file or directory: " ++ Text.quote command
  | .notDirectory => "[Errno 20] Not a directory: " ++ Text.quote command
  | .denied => "[Errno 13] Permission denied: " ++ Text.quote command

def Response.output (command : Text) : Response → Except ProcessFailure Output
  | .exited code stdout stderr => .ok
      ⟨code, Text.outputLines (Text.decodeLossy stdout), Text.outputLines (Text.decodeLossy stderr)⟩
  | .notStarted why => .ok ⟨notStartedCode, [], [why.message command]⟩
  | .broken => .error .broken
  | .timedOut => .error .timedOut
  | .misused => .error .misused

/-- Something done with commands: a result or an error, and the log either way. -/
abbrev Commands (ε α : Type) := ExceptT ε (StateM (List Invocation)) α

def Host.run (host : Host) (i : Invocation) : Commands ProcessFailure Output := do
  if i.stdin.any fun s => !s.isEncodable then throw .unencodable
  let log ← get
  set (log ++ [i])
  liftExcept ((host log i).output i.command)
where
  liftExcept (r : Except ProcessFailure Output) : Commands ProcessFailure Output :=
    ExceptT.mk (pure r)

def Invocation.toJson (i : Invocation) : Json := .obj [
  ("argv", .ofTexts i.argv), ("cwd", .ofOption .str i.directory),
  ("stdin", .ofOption .str i.stdin), ("timeout", i.timeout)]

end Hunkwise
