import Hunkwise.Text.Utf8

/-! The settings file: where it is looked for, and what there is. -/

namespace Hunkwise

inductive Entry where
  | absent
  | file (bytes : List UInt8)
  /-- Something that cannot be read or written as a file. -/
  | directory

/-- The settings file, whether its directory is there or can be made, and whether the file may be
written. -/
structure Disk where
  entry : Entry := .absent
  reachable : Bool := true
  writable : Bool := true

def Disk.takesFile (d : Disk) : Bool :=
  d.writable && match d.entry with
    | .directory => false
    | _ => true

structure Places where
  /-- The directory that the environment names. -/
  named : Option Text
  home : Text
  temporary : Text

/-- The settings file. The directory that the environment names comes first, or else one in the home
directory; if it cannot be made, one for temporary files is taken, and at last a file that needs no
directory of its own. -/
def Places.settingsFile (p : Places) (canMake : Text → Bool) : Text :=
  let first := match p.named with
    | some d => if d.isEmpty then p.home ++ "/.format_modifications" else d
    | none => p.home ++ "/.format_modifications"
  let second := p.temporary ++ "/format_modifications"
  if canMake first then first ++ "/config.json"
  else if canMake second then second ++ "/config.json"
  else p.temporary ++ "/format_modifications_config_fallback.json"

end Hunkwise
