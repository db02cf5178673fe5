import Hunkwise.Service.Configuration
import Hunkwise.Service.Editing
import Hunkwise.Service.Formatting

/-! Routes: which request reaches which handler, and the answers to requests. -/

namespace Hunkwise

structure HttpRequest where
  method : Text
  path : Text
  body : Body

inductive HttpAnswer where
  | answered (status : Nat) (body : Json)
  | crashed (why : Crash)

namespace Service

inductive Endpoint where
  | openBuffer (id : Text)
  | showBuffer (id : Text)
  | closeBuffer (id : Text)
  | attach
  | formatChanges
  | formatOnSave
  | showSettings
  | changeSettings
  | listFormatters
  | putFormatter (name : Text)
  | removeFormatter (name : Text)
  | health
  deriving DecidableEq, Repr

def fixedEndpoints : Table Text (List (Text × Endpoint)) := [
  ("/api/format/attach", [("POST", .attach)]),
  ("/api/format/modifications", [("POST", .formatChanges)]),
  ("/api/format/save", [("POST", .formatOnSave)]),
  ("/api/config", [("GET", .showSettings), ("PUT", .changeSettings)]),
  ("/api/config/formatters", [("GET", .listFormatters)]),
  ("/health", [("GET", .health)])]

/-- The endpoints under a path of fixed words, for the word that follows. -/
def namedEndpoints (name : Text) : Table Text (List (Text × Endpoint)) := [
  ("/api/buffers",
    [("PUT", .openBuffer name), ("GET", .showBuffer name), ("DELETE", .closeBuffer name)]),
  ("/api/config/formatters", [("PUT", .putFormatter name), ("DELETE", .removeFormatter name)])]

/-- The endpoints at a path: those of its words, or of all but the last, which then is a name. -/
def endpointsAt (path : Text) : List (Text × Endpoint) :=
  match fixedEndpoints.get? path with
  | some es => es
  | none =>
    match (Text.splitAt '/' path).reverse with
    | name :: parents =>
      if name.isEmpty then []
      else ((namedEndpoints name).get? (Text.intercalate "/" parents.reverse)).getD []
    | [] => []

/-- The endpoints at a path. One newline after the last fixed word is passed over. -/
def endpoints (path : Text) : List (Text × Endpoint) :=
  match endpointsAt path with
  | [] => endpointsAt (Text.chomp path)
  | es => es

def withoutSlashes (path : Text) : Text :=
  ⟨(path.letters.reverse.dropWhile (· = .char '/')).reverse⟩

def handle (host : Host) (fuel : Nat) (body : Body) : Endpoint → Handler Json
  | .openBuffer id => do openBuffer id (← body.read BufferUpdate.check)
  | .showBuffer id => showBuffer id
  | .closeBuffer id => closeBuffer id
  | .attach => do attach (← body.read AttachRequest.check)
  | .formatChanges => do format host fuel .command (← body.read FormatBuffer.check)
  | .formatOnSave => do format host fuel .save (← body.read FormatBuffer.check)
  | .showSettings => showSettings
  | .changeSettings => do changeSettings (← body.read SettingsUpdate.check)
  | .listFormatters => listFormatters
  | .putFormatter name => do putFormatter name (← body.read Definition.check)
  | .removeFormatter name => removeFormatter name
  | .health =>
    return .obj [("status", .str "healthy"), ("service", .str "format-modifications-backend")]

def detail (d : Json) : Json := .obj [("detail", d)]

def accept (v : Json) : HttpAnswer :=
  if v.isEncodable then .answered 200 v else .crashed .unwritable

/-- The answer that only says what is wrong. It also repeats `subjects`, as far as it is written. -/
def refuse (status : Nat) (d : Json) (subjects : List Json) : HttpAnswer :=
  if !subjects.all (Json.all (fun _ => true) Decimal.isFinite) then .crashed .notFinite
  else if !(d.isEncodable && subjects.all Json.isEncodable) then .crashed .unencodable
  else .answered status (detail d)

def decline : NoAnswer → HttpAnswer
  | .refused status d => refuse status d []
  | .rejected ps => refuse 422 (.arr (ps.map Problem.toJson)) (ps.map (·.subject))
  | .crashed why => .crashed why

def answer (host : Host) (fuel : Nat) (r : HttpRequest) (s : Service) : HttpAnswer × Service :=
  let found := endpoints r.path
  match Table.get? found r.method with
  | some e =>
    match (handle host fuel r.body e).run s with
    | (.ok v, s) => (accept v, s)
    | (.error n, s) => (decline n, s)
  | none =>
    if !found.isEmpty then (.answered 405 (detail (.str "Method Not Allowed")), s)
    else if r.path ≠ "/" ∧ r.path.endsWith '/'
        ∧ !(endpoints (withoutSlashes r.path)).isEmpty then (.answered 307 .null, s)
    else (.answered 404 (detail (.str "Not Found")), s)

/-- Starts the service: the settings are read and the formatters counted. -/
def start (s : Service) : Except Settings.Failure Nat × Service :=
  let (r, settings) := Settings.countFormatters s.settings
  (r, { s with settings })

end Service

end Hunkwise
