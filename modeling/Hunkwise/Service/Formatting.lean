import Hunkwise.Service.Basic

/-! Attaching formatters to buffers, and formatting buffers with them. -/

namespace Hunkwise.Service

def buildClient (settings : Fields) (name : Text) : Handler Client := do
  match (settings.get? "formatters").getD (.obj []) with
  | .obj formatters =>
    match (Table.get? formatters name).getD .null with
    | .null => Handler.refuse 404 ("unknown formatter client " ++ name)
    | .obj definition =>
      match Formatter.ofJson (.obj (Table.set definition "name" (.str name))) with
      | .error r => Handler.refuse 400 ("invalid formatter definition: " ++ r.message)
      | .ok formatter =>
        return { formatter, timeout := (settings.get? "command_timeout_s").getD .null }
    | _ => Handler.crash .definitionKind
  | _ => Handler.crash (.settings .formattersShape)

def attach (r : AttachRequest) : Handler Json := do
  discard (Handler.buffer r.buffer)
  let client ← buildClient (← Handler.settings Settings.current) r.client
  let base ← Handler.settings Settings.attachBase
  match (← get).attachments.attach r.buffer client base (r.config.getD []) with
  | .ok (a, attachments) =>
    modify fun s => { s with attachments }
    return AttachView.toJson ⟨a.buffer, a.client.name, a.config⟩
  | .error (.unmergeable f) => Handler.crash (.attach (.unmergeable f))
  | .error f => Handler.refuse 400 f.message

/-- The refusal that tells of a failed formatter, or a crash. -/
def failure (f : RequestFailure) : NoAnswer :=
  let told (message : Text) (stderr : List Text) : NoAnswer :=
    .refused 502 (.obj [("message", .str message), ("stderr", .ofTexts stderr)])
  match f with
  | .format (.noRanges name) => told (FormatFailure.noRanges name).message []
  | .format (.exited name code stderr) =>
    told (FormatFailure.exited name code stderr).message stderr
  | .unsettled passes => told (Converge.unsettledMessage passes) []
  | f => .crashed (.request f)

def keepWork (s : Service) (id : Text) (w : Work) : Service :=
  { s with buffers := s.buffers.set id w.buffer, log := w.log }

def format (host : Host) (fuel : Nat) (trigger : Trigger) (r : FormatBuffer) : Handler Json := do
  let before ← Handler.buffer r.buffer
  let settings ← Handler.settings Settings.current
  let s ← get
  let limits : RequestLimits :=
    { timeout := (settings.get? "command_timeout_s").getD .null, fuel }
  let (result, w) := formatBuffer host limits (s.attachments.forBuffer r.buffer) trigger
    { buffer := before, log := s.log }
  set (s.keepWork r.buffer w)
  match result with
  | .error f => throw (failure f)
  | .ok outcomes =>
    let changed := decide (w.buffer.lines ≠ before.lines)
    let view : FormatView :=
      { buffer := r.buffer, content := w.buffer.text, changed, outcomes, notices := w.notices }
    if changed then
      match Diff.Change.between {} before.lines w.buffer.lines w.buffer.path with
      | none => Handler.crash .tooDeep
      | some change => return { view with change := some change }.toJson
    else return view.toJson

end Hunkwise.Service
