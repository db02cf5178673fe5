import Hunkwise.Service.Basic

/-! The settings and the formatter definitions, as the service shows and changes them. -/

namespace Hunkwise.Service

structure SettingsView where
  diff : Diff.Options
  onSave : Bool
  vcs : Text
  timeout : Option Float
  formatters : List (Text × Fields)

def checkFormatters : Check (List (Text × Fields))
  | .obj fs => Checked.all (fs.map fun (name, v) =>
      ((Check.mapping v).map fun d => (name, d)).within (.key name))
  | v => .fail .mappingKind v

def SettingsView.ofFields (fs : Fields) : Except Rejection SettingsView := do
  let diff ← Diff.Options.ofJson ((fs.get? "diff_options").getD .null)
  ((fun onSave vcs timeout formatters => SettingsView.mk diff onSave vcs timeout formatters)
    <$> Check.required fs "format_on_save" Check.bool
    <*> Check.required fs "vcs" Check.string
    <*> Check.optional fs "command_timeout_s" none (Check.nullable Check.float)
    <*> Check.optional fs "formatters" [] checkFormatters).verdict "settings"

def SettingsView.toJson? (v : SettingsView) : Option Json := do
  let formatters ← v.formatters.mapM fun (name, d) =>
    (Json.shownFields? d).map fun shown => (name, shown)
  return .obj [
    ("diff_options", v.diff.toJson), ("format_on_save", .bool v.onSave), ("vcs", .str v.vcs),
    ("command_timeout_s", (Json.ofOption .float v.timeout).finite), ("formatters", .obj formatters)]

def showSettings : Handler Json := do
  match (SettingsView.ofFields (← Handler.settings Settings.current)).map SettingsView.toJson? with
  | .ok (some v) => return v
  | .ok none => Handler.crash .unwritable
  | .error r => Handler.crash (.invalid r)

def updateDiff (settings : Fields) : Option Fields → Handler Fields
  | none => return settings
  | some upper => do
    let lower := match settings.get? "diff_options" with
      | some (.obj fs) => fs
      | _ => []
    let merged : Json := .obj (Table.update lower upper)
    match Diff.Options.ofJson merged with
    | .ok _ => return settings.set "diff_options" merged
    | .error r => Handler.refuse 400 ("Invalid diff options: " ++ r.message)

def updateVcs (settings : Fields) : Option Text → Handler Fields
  | none => return settings
  | some name =>
    if (Vcs.Backend.ofName? name).isSome then return settings.set "vcs" (.str name)
    else Handler.refuse 400 (Vcs.unsupportedMessage name)

def changeSettings (u : SettingsUpdate) : Handler Json := do
  let fs ← Handler.settings Settings.current
  let fs ← updateDiff fs u.diff
  let fs := match u.onSave with
    | some b => fs.set "format_on_save" (.bool b)
    | none => fs
  let fs ← updateVcs fs u.vcs
  let fs := if u.timeout.isSome then fs.set "command_timeout_s" u.timeoutJson else fs
  Handler.settings (Settings.save (.obj fs))
  return .obj [("status", .str "success"), ("message", .str "Configuration updated")]

def listed (name : Text) : Json → Handler Json
  | .obj definition =>
    let ranges := !((Table.get? definition "range_args").getD .null).isNull
    return .obj (Table.update
      [("name", .str name), ("supportsRangeFormatting", .bool ranges)] definition)
  | _ => Handler.crash .definitionShape

def listFormatters : Handler Json := do
  let fs ← Handler.settings Settings.formatterTable
  let rows ← fs.mapM fun (name, v) => listed name v
  match (Json.arr rows).shown? with
  | some v => return .obj [("formatters", v)]
  | none => Handler.crash .unwritable

def saved (message : Text) : Json := .obj [("success", .bool true), ("message", .str message)]

def putFormatter (name : Text) (d : Definition) : Handler Json := do
  if d.command.isEmpty then Handler.refuse 400 "Formatter command is required"
  Handler.settings (Settings.setFormatter name d.toJson)
  return saved ("Formatter " ++ name ++ " saved")

def removeFormatter (name : Text) : Handler Json := do
  if ← Handler.settings (Settings.removeFormatter name) then
    return saved ("Formatter " ++ name ++ " removed")
  Handler.refuse 404 ("Formatter " ++ name ++ " not found")

end Hunkwise.Service
