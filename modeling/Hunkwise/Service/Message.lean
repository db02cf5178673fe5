import Hunkwise.Attachment.Config
import Hunkwise.Diff.Unified
import Hunkwise.Json.Shown
import Hunkwise.Notice
import Hunkwise.Outcome

/-! What is sent to the service and what it answers. -/

namespace Hunkwise

structure BufferUpdate where
  path : Text
  content : Text
  deriving DecidableEq, Repr

namespace BufferUpdate

def check : Check BufferUpdate := Check.model "BufferUpdateRequest" fun fs =>
  BufferUpdate.mk
    <$> Check.required fs "path" Check.string
    <*> Check.required fs "content" Check.string

def ofJson (v : Json) : Except Rejection BufferUpdate := (check v).verdict "BufferUpdateRequest"

def toJson (u : BufferUpdate) : Json := .obj [("path", .str u.path), ("content", .str u.content)]

end BufferUpdate

structure BufferView where
  id : Text
  path : Text
  content : Text
  clients : List Text := []
  deriving DecidableEq, Repr

namespace BufferView

def check : Check BufferView := Check.model "BufferResponse" fun fs =>
  BufferView.mk
    <$> Check.required fs "buffer_id" Check.string
    <*> Check.required fs "path" Check.string
    <*> Check.required fs "content" Check.string
    <*> Check.optional fs "attached_clients" [] (Check.list Check.string)

def ofJson (v : Json) : Except Rejection BufferView := (check v).verdict "BufferResponse"

def toJson (b : BufferView) : Json := .obj [
  ("buffer_id", .str b.id), ("path", .str b.path), ("content", .str b.content),
  ("attached_clients", .ofTexts b.clients)]

end BufferView

structure AttachRequest where
  buffer : Text
  client : Text
  config : Option Fields := none

namespace AttachRequest

def check : Check AttachRequest := Check.model "AttachRequest" fun fs =>
  AttachRequest.mk
    <$> Check.required fs "buffer_id" Check.string
    <*> Check.required fs "client_id" Check.string
    <*> Check.optional fs "config" none (Check.nullable Check.mapping)

def ofJson (v : Json) : Except Rejection AttachRequest := (check v).verdict "AttachRequest"

/-- The request as it is shown, if its configuration is not too high. -/
def toJson? (r : AttachRequest) : Option Json := do
  let config ← match r.config with
    | none => some .null
    | some fs => Json.shownFields? fs
  return .obj [("buffer_id", .str r.buffer), ("client_id", .str r.client), ("config", config)]

end AttachRequest

structure AttachView where
  buffer : Text
  client : Text
  config : AttachConfig
  deriving DecidableEq, Repr

namespace AttachView

def check : Check AttachView := Check.model "AttachResponse" fun fs =>
  AttachView.mk
    <$> Check.required fs "buffer_id" Check.string
    <*> Check.required fs "client_id" Check.string
    <*> Check.required fs "config" AttachConfig.check

def ofJson (v : Json) : Except Rejection AttachView := (check v).verdict "AttachResponse"

def toJson (a : AttachView) : Json := .obj [
  ("buffer_id", .str a.buffer), ("client_id", .str a.client), ("config", a.config.toJson)]

end AttachView

structure FormatBuffer where
  buffer : Text
  deriving DecidableEq, Repr

namespace FormatBuffer

def check : Check FormatBuffer := Check.model "FormatBufferRequest" fun fs =>
  FormatBuffer.mk <$> Check.required fs "buffer_id" Check.string

def ofJson (v : Json) : Except Rejection FormatBuffer := (check v).verdict "FormatBufferRequest"

def toJson (r : FormatBuffer) : Json := .obj [("buffer_id", .str r.buffer)]

end FormatBuffer

structure FormatView where
  buffer : Text
  content : Text
  changed : Bool
  outcomes : List Outcome := []
  notices : List Notice := []
  change : Option Diff.Change := none
  deriving DecidableEq, Repr

namespace FormatView

def check : Check FormatView := Check.model "FormatBufferResponse" fun fs =>
  FormatView.mk
    <$> Check.required fs "buffer_id" Check.string
    <*> Check.required fs "content" Check.string
    <*> Check.required fs "changed" Check.bool
    <*> Check.optional fs "outcomes" [] (Check.list Outcome.check)
    <*> Check.optional fs "notifications" [] (Check.list Notice.check)
    <*> Check.optional fs "diff" none (Check.nullable Diff.Change.check)

def ofJson (v : Json) : Except Rejection FormatView := (check v).verdict "FormatBufferResponse"

def toJson (f : FormatView) : Json := .obj [
  ("buffer_id", .str f.buffer), ("content", .str f.content), ("changed", .bool f.changed),
  ("outcomes", .arr (f.outcomes.map Outcome.toJson)),
  ("notifications", .arr (f.notices.map Notice.toJson)),
  ("diff", .ofOption Diff.Change.toJson f.change)]

end FormatView

/-- A wish to change the settings. What is absent stays; a timeout may also be taken away. -/
structure SettingsUpdate where
  diff : Option Fields := none
  onSave : Option Bool := none
  vcs : Option Text := none
  timeout : Option (Option Float) := none

namespace SettingsUpdate

def check : Check SettingsUpdate := Check.model "ConfigUpdateRequest" fun fs =>
  SettingsUpdate.mk
    <$> Check.optional fs "diff_options" none (Check.nullable Check.mapping)
    <*> Check.optional fs "format_on_save" none (Check.nullable Check.bool)
    <*> Check.optional fs "vcs" none (Check.nullable Check.string)
    <*> Check.optional fs "command_timeout_s" none
      (fun v => (Check.nullable Check.float v).map some)

def ofJson (v : Json) : Except Rejection SettingsUpdate := (check v).verdict "ConfigUpdateRequest"

def timeoutJson (u : SettingsUpdate) : Json := .ofOption .float (u.timeout.getD none)

/-- The update as it is shown, if its diff options are not too high. -/
def toJson? (u : SettingsUpdate) : Option Json := do
  let diff ← match u.diff with
    | none => some .null
    | some fs => Json.shownFields? fs
  return .obj [
    ("diff_options", diff), ("format_on_save", .ofOption .bool u.onSave),
    ("vcs", .ofOption .str u.vcs), ("command_timeout_s", u.timeoutJson)]

end SettingsUpdate

end Hunkwise
