import Hunkwise.Process.Basic
import Hunkwise.Process.LineRule
import Hunkwise.Text.Digit

/-! Scripted hosts. A script is a list of rules, tried in order; the first one whose words all occur
among the arguments answers, and a rule may answer only a number of times. A command that no rule
answers is missing. -/

namespace Hunkwise

inductive Printed where
  | bytes (bs : List UInt8)
  /-- Standard input edited, in the lines that two of the arguments give or in all. -/
  | edited (rule : LineRule) (range : Option (Int × Int))

inductive Reply where
  | response (r : Response)
  | printed (code : Int) (stdout : Printed) (stderr : List UInt8)

structure ScriptRule where
  words : List Text := []
  /-- How often it may still answer; none for any number of times. -/
  left : Option Int := none
  reply : Reply

abbrev Script := List ScriptRule

namespace ScriptRule

def answers (r : ScriptRule) (i : Invocation) : Bool :=
  (match r.left with
    | some n => decide (0 < n)
    | none => true)
    && r.words.all fun w => i.argv.contains w

def spent (r : ScriptRule) : ScriptRule := { r with left := r.left.map (· - 1) }

end ScriptRule

def Script.after : Script → Invocation → Script
  | [], _ => []
  | r :: rs, i => if r.answers i then r.spent :: rs else r :: Script.after rs i

def argumentNumber? (argv : List Text) (place : Int) : Option Int :=
  (elementAt? argv place).bind Text.readInt?

def Printed.bytes? (i : Invocation) : Printed → Option (List UInt8)
  | .bytes bs => some bs
  | .edited rule range => do
    let lines := Text.outputLines (i.stdin.getD "")
    let (start, stop) ← match range with
      | some (p, q) => do pure (← argumentNumber? i.argv p, ← argumentNumber? i.argv q)
      | none => pure (1, (lines.length : Int))
    (Text.terminated (← rule.edit? lines start stop)).encode?

def Reply.toResponse (i : Invocation) : Reply → Response
  | .response r => r
  | .printed code stdout stderr =>
    match stdout.bytes? i with
    | some bs => .exited code bs stderr
    | none => .misused

def Script.host (script : Script) : Host where
  answer log i :=
    match (log.foldl Script.after script).find? (·.answers i) with
    | some r => r.reply.toResponse i
    | none => .notStarted .missing

end Hunkwise
