import Hunkwise.Attachment.Registry
import Hunkwise.Buffer.Store
import Hunkwise.Service.Message
import Hunkwise.Settings.Basic
import Hunkwise.Text.Encoding

/-! The service: the open buffers, their attachments, the settings and the commands run so far. A
handler gives a document, or refuses with a status, or crashes; the state outlives all three. -/

namespace Hunkwise

structure Service where
  buffers : Store := []
  attachments : Registry := []
  settings : Settings := {}
  log : List Invocation := []

inductive Crash where
  | settings (f : Settings.Failure)
  | request (f : RequestFailure)
  | attach (f : AttachFailure)
  | invalid (r : Rejection)
  | tooDeep
  /-- A formatter definition is no object, where it is looked into. -/
  | definitionShape
  /-- A formatter definition is no object, where its fields are taken. -/
  | definitionKind
  /-- A refusal would hold a number that is not finite. -/
  | notFinite
  /-- A refusal would hold halves. -/
  | unencodable
  /-- An answer would hold halves, or would be too high. -/
  | unwritable

inductive NoAnswer where
  | refused (status : Nat) (detail : Json)
  /-- The body is not what it should be. -/
  | rejected (problems : List Problem)
  | crashed (why : Crash)

abbrev Handler (α : Type) := ExceptT NoAnswer (StateM Service) α

namespace Handler

variable {α : Type}

def refuse (status : Nat) (detail : Text) : Handler α := throw (.refused status (.str detail))

def crash (why : Crash) : Handler α := throw (.crashed why)

def settings (act : Settings.Change α) : Handler α := fun s =>
  match act s.settings with
  | (.ok a, settings) => (.ok a, { s with settings })
  | (.error f, settings) => (.error (.crashed (.settings f)), { s with settings })

def buffer (id : Text) : Handler Buffer := do
  match (← get).buffers.get? id with
  | some b => return b
  | none => refuse 404 (notOpenMessage id)

end Handler

/-- The body of a request, and how many containers may lie inside one another in it. That is what the
machine's stack leaves to the reader; nothing depends on the number. -/
structure Body where
  bytes : List UInt8
  room : Nat := 940

namespace Body

/-- The text of a body, whose first bytes tell its encoding. -/
def text? (b : Body) : Option Text := (Encoding.detect b.bytes).1.decode? (Encoding.detect b.bytes).2

def document? (b : Body) : Option (Except Json.ReadFault Json) := b.text?.map (Json.parse b.room)

def checkObject {α : Type} (c : Check α) : Json → Checked α
  | .obj fs => c (.obj fs)
  | v => .fail .noFields v

def check? {α : Type} (c : Check α) (b : Body) : Option (Checked α) :=
  if b.bytes.isEmpty then some (.fail .missing .null)
  else match b.document? with
    | some (.ok v) => some (checkObject c v)
    | some (.error .malformed) => some (.fail .malformed (.obj []))
    | _ => none

def read {α : Type} (c : Check α) (b : Body) : Handler α :=
  match b.check? c with
  | none => Handler.refuse 400 "There was an error parsing the body"
  | some checked =>
    match checked.within (.key "body") with
    | .good a => return a
    | .bad ps => throw (.rejected ps)

end Body

end Hunkwise
