import Hunkwise.Request

/-! Which formatter clients are attached to which buffer, and with which configuration. A client is
attached to a buffer once; attaching it again replaces the configuration and keeps its turn. -/

namespace Hunkwise

/-- Attachments under the buffer and the client they join. -/
abbrev Registry := Table (Text × Text) Attachment

inductive AttachFailure where
  | invalid (r : Rejection)
  | refused (problem : Text)
  | unmergeable (f : MergeFault)

def AttachFailure.message : AttachFailure → Text
  | .invalid r => "invalid configuration: " ++ r.message
  | .refused problem => "failed checks: " ++ problem
  | .unmergeable .notAnObject => "configuration is no object"

def attachProblem (f : Formatter) (config : AttachConfig) : Option Text :=
  if !f.formatsRanges then some (FormatFailure.noRanges f.name).message
  else if (Vcs.Backend.ofName? config.vcs).isNone then some (Vcs.unsupportedMessage config.vcs)
  else none

namespace Registry

def configure (base provided : Fields) (f : Formatter) : Except AttachFailure AttachConfig := do
  let merged ← (mergeLayers base provided).mapError .unmergeable
  let config ← (AttachConfig.ofJson (.obj merged)).mapError .invalid
  match attachProblem f config with
  | some problem => throw (.refused problem)
  | none => return config

def attach (reg : Registry) (buffer : Text) (client : Client) (base provided : Fields) :
    Except AttachFailure (Attachment × Registry) := do
  let config ← configure base provided client.formatter
  let a : Attachment := { buffer, client, config }
  return (a, Table.set reg (buffer, client.name) a)

def forBuffer (reg : Registry) (buffer : Text) : List Attachment :=
  (reg.filter fun e => e.1.1 = buffer).map (·.2)

def matchesKey (buffer : Text) (client : Option Text) (key : Text × Text) : Bool :=
  key.1 = buffer && client.all (· = key.2)

/-- Drops attachments of a buffer, all of them unless a client is given, and counts them. -/
def detach (reg : Registry) (buffer : Text) (client : Option Text) : Nat × Registry :=
  (reg.countP fun e => matchesKey buffer client e.1,
    reg.filter fun e => !matchesKey buffer client e.1)

end Registry

end Hunkwise
