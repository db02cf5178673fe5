import Hunkwise.Json.Reader
import Hunkwise.Json.Writer
import Hunkwise.LogLevel
import Hunkwise.Settings.Disk

/-! Settings. They are read from the file each time they are asked for, over the defaults; what was
read last, and what was saved since, is remembered, and saving writes all that is remembered. -/

namespace Hunkwise

/-- How deep settings may be: in containers for reading, in values for writing and for handing out a
copy. What the machine's stack has left bounds all three. -/
structure Settings.Room where
  read : Nat
  write : Nat
  handOut : Nat
  five_le_handOut : 5 ≤ handOut
  handOut_le_read : handOut ≤ read
  handOut_le_write : handOut ≤ write

/-- The room on a stack of a thousand calls, two of which a copy takes for each value. -/
def Settings.Room.usual : Settings.Room := ⟨985, 985, 490, by decide, by decide, by decide⟩

structure Settings where
  disk : Disk := {}
  room : Settings.Room := .usual
  /-- The default log level. -/
  level : Text := "INFO"
  /-- What is remembered; nothing before the first use. -/
  memory : Option Fields := none

namespace Settings

inductive Failure where
  /-- The file holds bytes that are no text. -/
  | notText
  /-- The document is no collection. -/
  | noEntries
  /-- An entry of the document is no collection, or its key cannot be one. -/
  | badEntry
  /-- An entry of the document has other than two parts. -/
  | notAPair
  /-- The document is a collection of pairs, but no object. -/
  | notAnObject
  | badDiffOptions
  /-- More values lie inside one another than can be read, written or handed out. -/
  | tooDeep
  /-- A whole number has too many digits to be read or written. -/
  | longNumber
  /-- The directory of the file cannot be made. -/
  | unreachable
  | unwritable
  /-- The formatters are no object, where one is looked into. -/
  | formattersShape
  /-- The formatters are no object, where an entry is set or counted. -/
  | formattersKind
  /-- The server settings are no object. -/
  | serverShape
  | level (f : LevelFault)
  deriving DecidableEq, Repr

abbrev Change (α : Type) := ExceptT Failure (StateM Settings) α

def defaultDiffOptions : Fields := [
  ("algorithm", .str "patience"), ("ctxlen", .int 0), ("interhunkctxlen", .int 0),
  ("indent_heuristic", .bool true), ("ignore_cr_at_eol", .bool true)]

def defaultServer : Fields := [("host", .str "127.0.0.1"), ("port", .int 8000)]

def defaults (level : Text) : Fields := [
  ("diff_options", .obj defaultDiffOptions), ("format_on_save", .bool false), ("vcs", .str "git"),
  ("formatters", .obj []), ("command_timeout_s", .null), ("log_level", .str level),
  ("server", .obj defaultServer)]

def isContainer : Json → Bool
  | .arr _ => true
  | .obj _ => true
  | _ => false

def keyText : Json → Text
  | .str s => s
  | v => Text.ofChars (Json.writeScalar v)

/-- The key and the value that an item of a list stands for. -/
def entryOf : Json → Except Failure (Text × Json)
  | .arr [key, v] => if isContainer key then .error .badEntry else .ok (keyText key, v)
  | .arr _ => .error .notAPair
  | .obj [(key, _), (v, _)] => .ok (key, .str v)
  | .obj _ => .error .notAPair
  | .str ⟨[key, v]⟩ => .ok (⟨[key]⟩, .str ⟨[v]⟩)
  | .str _ => .error .notAPair
  | _ => .error .badEntry

def entriesOf : List Json → Fields × Option Failure
  | [] => ([], none)
  | item :: items =>
    match entryOf item with
    | .error f => ([], some f)
    | .ok e =>
      let (es, f) := entriesOf items
      (e :: es, f)

def entries : Json → Fields × Option Failure
  | .obj fs => (fs, none)
  | .arr items => entriesOf items
  | .str s => ([], if s.isEmpty then none else some .notAPair)
  | _ => ([], some .noEntries)

/-- Stored settings over the defaults; diff options are filled in key by key. -/
def withDefaults (level : Text) : Json → Except Failure Fields
  | .obj stored =>
    let merged := (defaults level).update stored
    match Table.get? stored "diff_options" with
    | none => .ok merged
    | some (.obj fs) => .ok (merged.set "diff_options" (.obj (defaultDiffOptions.update fs)))
    | some _ => .error .badDiffOptions
  | v => .error ((entries v).2.getD .notAnObject)

/-- The settings in the file. One that is missing, unreadable or malformed gives the defaults. -/
def load (room : Room) (level : Text) : Entry → Except Failure Fields
  | .absent => .ok (defaults level)
  | .directory => .ok (defaults level)
  | .file bytes =>
    match Text.decode? bytes with
    | none => .error .notText
    | some text =>
      match Json.parse room.read text with
      | .ok v => withDefaults level v
      | .error .malformed => .ok (defaults level)
      | .error .tooDeep => .error .tooDeep
      | .error .longNumber => .error .longNumber

def reload : Change Fields := fun s =>
  match load s.room s.level s.disk.entry with
  | .ok fs => (.ok fs, { s with memory := some fs })
  | .error f => (.error f, s)

def start : Change Unit := do
  if (← get).memory.isNone then discard reload

def current : Change Fields := do
  start
  let fs ← reload
  let s ← get
  if s.room.handOut < (Json.obj fs).height then throw .tooDeep
  return fs

def withFile (s : Settings) (text : List Char) : Settings :=
  { s with disk := { s.disk with entry := .file (Text.encodeChars text) } }

/-- Writes all that is remembered, up to what cannot be written. -/
def write : Change Unit := fun s =>
  if !s.disk.reachable then (.error .unreachable, s)
  else if !s.disk.takesFile then (.error .unwritable, s)
  else
    let v := Json.obj (s.memory.getD [])
    match v.stopped? s.room.write 0 with
    | some (.tooDeep, text) => (.error .tooDeep, s.withFile text)
    | some (.longNumber, text) => (.error .longNumber, s.withFile text)
    | none => (.ok (), s.withFile v.pretty)

/-- Remembers the entries of a document and writes everything. -/
def save (v : Json) : Change Unit := do
  start
  let (fs, fault) := entries v
  modify fun s => { s with memory := some ((s.memory.getD []).update fs) }
  match fault with
  | some f => throw f
  | none => write

def setKey (key : Text) (v : Json) : Change Unit := save (.obj [(key, v)])

def attachBase : Change Fields := do
  let fs ← current
  let keys : List Text := ["diff_options", "format_on_save", "vcs"]
  return keys.map fun key => (key, (fs.get? key).getD .null)

def formatters : Change Json := do
  return ((← current).get? "formatters").getD (.obj [])

def formatterTable : Change Fields := do
  match ← formatters with
  | .obj fs => return fs
  | _ => throw .formattersShape

def setFormatter (name : Text) (definition : Json) : Change Unit := do
  match ← formatters with
  | .obj fs => setKey "formatters" (.obj (Table.set fs name definition))
  | _ => throw .formattersKind

def removeFormatter (name : Text) : Change Bool := do
  match ← formatters with
  | .obj fs =>
    match Table.get? fs name with
    | none => return false
    | some .null => return false
    | some _ =>
      setKey "formatters" (.obj (Table.without fs name))
      return true
  | .arr _ => throw .formattersKind
  | _ => throw .formattersShape

def countFormatters : Change Nat := do
  match ← formatters with
  | .obj fs => return fs.length
  | .arr items => return items.length
  | .str s => return s.length
  | _ => throw .formattersKind

structure Listening where
  host : Json
  port : Json
  level : Nat

def listening : Change Listening := do
  let fs ← current
  match LogLevel.ofJson ((fs.get? "log_level").getD (.str "INFO")), fs.get? "server" with
  | .error f, _ => throw (.level f)
  | .ok level, some (.obj server) => return {
      host := (Table.get? server "host").getD (.str "127.0.0.1")
      port := (Table.get? server "port").getD (.int 8000)
      level }
  | .ok _, _ => throw .serverShape

end Settings

end Hunkwise
