import Hunkwise.Attachment.Config
import Hunkwise.Converge
import Hunkwise.Formatter.Run
import Hunkwise.Outcome
import Hunkwise.Vcs.Query

/-! Formatting requests. A new file is formatted as a whole, a file with conflicts is left alone,
and of any other file only what differs from its baseline is formatted. -/

namespace Hunkwise

structure Attachment where
  buffer : Text
  client : Client
  config : AttachConfig

inductive Trigger where
  | command
  | save
  deriving DecidableEq, Repr

inductive RequestFailure where
  | vcs (f : Vcs.Failure)
  | format (f : FormatFailure)
  /-- The buffer kept changing. -/
  | unsettled (passes : Nat)
  | tooDeep
  | lineMissing
  | outOfFuel
  deriving Repr

/-- Bounds on a request: the time its queries may take, as configured, and how often it goes over
the buffer. -/
structure RequestLimits where
  timeout : Json := .null
  passes : Option Nat := none
  fuel : Nat

def RequestFailure.ofStop : Converge.Stop FormatFailure → RequestFailure
  | .unsettled passes => .unsettled passes
  | .tooDeep => .tooDeep
  | .lineMissing => .lineMissing
  | .failed f => .format f
  | .outOfFuel => .outOfFuel

def Client.target (host : Host) (c : Client) : Converge.Target Work FormatFailure where
  lines w := w.buffer.lines
  format range w :=
    match c.format host (some range) w with
    | (.ok _, w) => (.ok (), w)
    | (.error f, w) => (.error f, w)

namespace Attachment

def formatFile (host : Host) (a : Attachment) : Working RequestFailure Outcome := do
  discard ((a.client.format host none).adapt .format)
  return { client := a.client.name, status := .formattedFile, formatCalls := 1 }

def formatChanges (host : Host) (limits : RequestLimits) (a : Attachment) (baseline : List Text) :
    Working RequestFailure Outcome := do
  let report ← (ExceptT.mk (Converge.run (a.client.target host) a.config.diff limits.passes
    (Text.join baseline) limits.fuel {})).adapt .ofStop
  return { client := a.client.name, status := .formattedModifications, passes := report.passes,
           formatCalls := report.formatCalls, mutations := report.mutations }

def giveUp (a : Attachment) (status : Status) (n : Notice) : Working RequestFailure Outcome := do
  Working.give n
  return { client := a.client.name, status }

def askToReport (what : Text) (f : Vcs.Failure) : Notice :=
  .error ("failed to get " ++ what ++ ", " ++ f.message ++ " -- consider raising an issue")

/-- Runs commands and hands on either their result or how they failed. -/
def attempt {α : Type} (act : Commands Vcs.Failure α) :
    Working RequestFailure (Except Vcs.Failure α) :=
  fun w =>
    let (r, log) := act w.log
    (.ok r, { w with log })

def formatTracked (host : Host) (limits : RequestLimits) (a : Attachment) (repo : Vcs.Repository)
    (status : Vcs.FileStatus) : Working RequestFailure Outcome := do
  let path := (← get).buffer.path
  if !status.tracked then a.formatFile host
  else if status.conflicted then return { client := a.client.name, status := .conflicts }
  else match ← attempt (repo.baseline host path) with
    | .ok baseline => a.formatChanges host limits baseline
    | .error (.noBaseline b) => a.giveUp .noBaseline (askToReport "comparee" (.noBaseline b))
    | .error f => throw (.vcs f)

def formatModifications (host : Host) (limits : RequestLimits) (a : Attachment) :
    Working RequestFailure Outcome := do
  let path := (← get).buffer.path
  match Vcs.Repository.ofName a.config.vcs limits.timeout with
  | .error f => throw (.vcs f)
  | .ok repo =>
    match ← attempt (repo.locate host path) with
    | .error (.notARepository b) =>
      a.giveUp .notARepository
        (.warning ((Vcs.Failure.notARepository b).message ++ ", doing nothing"))
    | .error f => throw (.vcs f)
    | .ok repo =>
      match ← attempt (repo.status host path) with
      | .ok status => a.formatTracked host limits repo status
      | .error (.statusUnknown p) =>
        a.giveUp .queryFailed (askToReport "file info" (.statusUnknown p))
      | .error (.conflictsUnknown p) =>
        a.giveUp .queryFailed (askToReport "file info" (.conflictsUnknown p))
      | .error f => throw (.vcs f)

end Attachment

def nothingAttached : Text := "no supported formatter clients attached to buffer, nothing to do"

/-- Runs every attached client over the buffer; on saving, those that asked for it. -/
def formatBuffer (host : Host) (limits : RequestLimits) (attachments : List Attachment)
    (trigger : Trigger) : Working RequestFailure (List Outcome) := do
  if attachments.isEmpty then
    Working.give (.warning nothingAttached)
    return []
  (attachments.filter fun a => trigger = .command || a.config.onSave).mapM
    (Attachment.formatModifications host limits)

end Hunkwise
