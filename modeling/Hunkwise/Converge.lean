import Hunkwise.Buffer.Range
import Hunkwise.Diff.Hunk
import Hunkwise.Text.Slice

/-! Convergence. The changed hunks of a buffer are formatted one after the other. A call that
changes the buffer moves the hunks after it, so the rest of them is dropped and the diff is made
again; a pass in which no call changes anything ends the run. -/

namespace Hunkwise.Converge

open Diff

/-- What a run works on: the lines it reads, and the call that formats a range. A call may fail, and
leaves a state either way. -/
structure Target (σ ε : Type) where
  lines : σ → List Text
  format : LineRange → σ → Except ε Unit × σ

structure Report where
  passes : Nat := 0
  formatCalls : Nat := 0
  mutations : Nat := 0
  deriving DecidableEq, Repr

inductive Stop (ε : Type) where
  /-- The buffer kept changing for as many passes as are allowed. -/
  | unsettled (passes : Nat)
  /-- The alignment went too deep. -/
  | tooDeep
  /-- A hunk ends on a line that the buffer does not have. -/
  | lineMissing
  | failed (e : ε)
  /-- The run was not given enough fuel. -/
  | outOfFuel
  deriving Repr

inductive PassEnd (ε : Type) where
  | settled (calls : Nat)
  | changed (calls : Nat)
  | stopped (why : Stop ε)

variable {σ ε : Type}

def hunkRange (lines : List Text) (h : Hunk) : Option LineRange :=
  (elementAt? lines (h.lastLine - 1)).map fun line =>
    { start := (h.newStart, 0), stop := (h.lastLine, (line.length : Int) - 1) }

/-- Formats hunks until a call changes the buffer, whose lines were `before`. -/
def formatHunks (t : Target σ ε) (before : List Text) : List Hunk → Nat → σ → PassEnd ε × σ
  | [], calls, s => (.settled calls, s)
  | h :: hs, calls, s =>
    if h.isDeletion then formatHunks t before hs calls s
    else match hunkRange before h with
      | none => (.stopped .lineMissing, s)
      | some range =>
        match t.format range s with
        | (.error e, s) => (.stopped (.failed e), s)
        | (.ok _, s) =>
          if Text.join (t.lines s) = Text.join before then formatHunks t before hs (calls + 1) s
          else (.changed (calls + 1), s)

/-- One pass: a diff against the comparison text, and the calls it asks for. -/
def pass (t : Target σ ε) (o : Options) (comparison : Text) (s : σ) : PassEnd ε × σ :=
  match textHunks o comparison (Text.join (t.lines s)) with
  | none => (.stopped .tooDeep, s)
  | some hs => formatHunks t (t.lines s) hs 0 s

/-- Passes until nothing changes, at most `limit` of them if there is one. -/
def run (t : Target σ ε) (o : Options) (limit : Option Nat) (comparison : Text) :
    Nat → Report → σ → Except (Stop ε) Report × σ
  | 0, _, s => (.error .outOfFuel, s)
  | fuel + 1, report, s =>
    if limit.any (· ≤ report.passes) then (.error (.unsettled report.passes), s)
    else match pass t o comparison s with
      | (.settled calls, s) =>
        (.ok { report with passes := report.passes + 1
                           formatCalls := report.formatCalls + calls }, s)
      | (.changed calls, s) =>
        run t o limit comparison fuel
          ⟨report.passes + 1, report.formatCalls + calls, report.mutations + 1⟩ s
      | (.stopped why, s) => (.error why, s)

def unsettledMessage (passes : Nat) : Text :=
  "formatting did not converge after " ++ Text.ofInt passes ++ " passes"

end Hunkwise.Converge
