import Hunkwise.Proofs.CheckedFields
import Hunkwise.Proofs.RequestTurns
import Hunkwise.Proofs.SettingsFile

/-! The layers of an attachment's configuration: what is provided, over what the settings file holds,
over the defaults. They are merged in three steps, when the file is read, when the base of attachments
is taken from it and when a client is attached; in the end every setting, and every diff option by
itself, comes from the first layer that has it. -/

namespace Hunkwise

open Effect

variable {base provided merged stored lower : Fields}

/-- A configuration whose settings are taken from some layers, and its diff options one by one from
their diff options. -/
structure AttachConfig.TakenFrom (config : AttachConfig) (layers options : List Fields) : Prop where
  onSave : Check.bool.Takes layers "format_on_save" false config.onSave
  vcs : Check.string.Takes layers "vcs" "git" config.vcs
  diff : config.diff.TakenFrom options

section Merge

open Settings

/-- Diff options that are provided as an object are merged key by key; all else that is provided is
taken whole. -/
theorem mergeLayers_spec (hprovided : Table.Distinct provided)
    (hbase : base.get? "diff_options" = some (.obj lower))
    (h : mergeLayers base provided = .ok merged) :
    ((∃ upper, diffOptions? provided = some upper ∧
        merged.get? "diff_options" = some (.obj (lower.update upper))) ∨
      ∃ v, (∀ fs, v ≠ .obj fs) ∧ merged.get? "diff_options" = some v) ∧
    ∀ key : Text, key ≠ "diff_options" → merged.get? key = (provided.get? key).or (base.get? key) := by
  unfold mergeLayers at h
  dsimp only at h
  split at h
  · next upper hupper =>
    rw [hbase] at h
    cases h
    refine ⟨.inl ⟨upper, by rw [diffOptions?, hupper], Table.get?_set_self ..⟩, fun key hkey => ?_⟩
    rw [Table.get?_set_of_ne hkey, Table.get?_update hprovided]
  · next hnone =>
    cases h
    refine ⟨?_, fun key _ => Table.get?_update hprovided base key⟩
    rw [Table.get?_update hprovided, hbase]
    cases hget : provided.get? "diff_options" with
    | none => exact .inl ⟨[], by rw [diffOptions?, hget], rfl⟩
    | some v => exact .inr ⟨v, fun fs hfs => hnone fs (hget.trans (congrArg some hfs)), rfl⟩

end Merge

theorem Registry.configure_eq (base provided : Fields) (f : Formatter) :
    configure base provided f =
      match mergeLayers base provided with
      | .error fault => .error (.unmergeable fault)
      | .ok merged =>
        match AttachConfig.check (.obj merged) with
        | .bad ps => .error (.invalid ⟨"AttachConfig", ps⟩)
        | .good config =>
          match attachProblem f config with
          | some problem => .error (.refused problem)
          | none => .ok config := by
  unfold configure AttachConfig.ofJson
  cases mergeLayers base provided with
  | error fault => rfl
  | ok merged =>
    simp only [Except.mapError, bind, Except.bind]
    cases AttachConfig.check (.obj merged) with
    | bad ps => rfl
    | good config => rfl

/-- What it takes to be configured: layers that can be merged, a good configuration, and nothing that
speaks against it. -/
theorem Registry.configure_eq_ok {f : Formatter} {config : AttachConfig} :
    configure base provided f = .ok config ↔
      ∃ merged, mergeLayers base provided = .ok merged ∧
        AttachConfig.check (.obj merged) = .good config ∧ attachProblem f config = none := by
  rw [configure_eq]
  constructor
  · intro h
    split at h
    · cases h
    · next merged hmerged =>
      split at h
      · cases h
      · next config' hconfig =>
        split at h
        · cases h
        · next hproblem => cases h; exact ⟨merged, hmerged, hconfig, hproblem⟩
  · rintro ⟨merged, hmerged, hconfig, hproblem⟩
    simp only [hmerged, hconfig, hproblem]

theorem Registry.attach_eq_ok {reg reg' : Registry} {buffer : Text} {client : Client}
    {a : Attachment} :
    reg.attach buffer client base provided = .ok (a, reg') ↔
      ∃ config, configure base provided client.formatter = .ok config ∧
        a = { buffer, client, config } ∧ reg' = Table.set reg (buffer, client.name) a := by
  unfold attach
  cases configure base provided client.formatter with
  | error f => exact ⟨nofun, nofun⟩
  | ok config =>
    constructor
    · intro h
      cases h
      exact ⟨config, rfl, rfl, rfl⟩
    · rintro ⟨config', hconfig, rfl, rfl⟩
      cases hconfig
      rfl

namespace Settings

def Stores (s : Settings) (stored : Fields) : Prop :=
  ∃ bytes text, s.disk.entry = .file bytes ∧ Text.decode? bytes = some text ∧
    Json.parse s.room.read text = .ok (.obj stored)

variable {s s' : Settings}

theorem Stores.load_eq (hs : s.Stores stored) (hlower : diffOptions? stored = some lower) :
    load s.room s.level s.disk.entry = .ok (filled s.level stored lower) := by
  obtain ⟨bytes, text, hentry, htext, hparse⟩ := hs
  simp only [hentry, load, htext, hparse, withDefaults_obj, hlower]

theorem Stores.keyed (hs : s.Stores stored) : Json.Each Json.Keyed (.obj stored) := by
  obtain ⟨bytes, text, hentry, htext, hparse⟩ := hs
  have hkept := (Json.parse_spec Json.givesTexts_any (fun _ _ => trivial) hparse).1
  exact hkept.mono fun w hw => hw.keyed

/-- The base of attachments: three settings of the file, and its diff options filled in. -/
def baseOf (stored lower : Fields) : Fields := [
  ("diff_options", .obj (defaultDiffOptions.update lower)),
  ("format_on_save", (stored.get? "format_on_save").getD (.bool false)),
  ("vcs", (stored.get? "vcs").getD (.str "git"))]

theorem attachBase_of_load (hload : load s.room s.level s.disk.entry = .ok (filled s.level stored lower))
    (hkeys : Table.Distinct stored) :
    attachBase s =
      (if s.room.handOut < (Json.obj (filled s.level stored lower)).height then .error .tooDeep
        else .ok (baseOf stored lower), { s with memory := some (filled s.level stored lower) }) := by
  unfold attachBase
  split
  · next hhigh => rw [bind_error (by rw [current_of_load hload, if_pos hhigh])]
  · next hlow =>
    have hrest (key : Text) (hkey : key ≠ "diff_options") : (filled s.level stored lower).get? key =
        (stored.get? key).or ((defaults s.level).get? key) := get?_filled hkeys hkey
    rw [bind_ok (by rw [current_of_load hload, if_neg hlow])]
    refine congrArg (fun fs => (Except.ok fs, _)) ?_
    simp only [baseOf, List.map, get?_filled_diff, hrest "format_on_save" (by decide +kernel),
      hrest "vcs" (by decide +kernel), Option.getD_or]
    rfl

theorem Stores.attachBase_eq (hs : s.Stores stored) (hlower : diffOptions? stored = some lower)
    (h : attachBase s = (.ok base, s')) : base = baseOf stored lower := by
  rw [attachBase_of_load (hs.load_eq hlower) hs.keyed.here] at h
  obtain ⟨hbase, -⟩ := Prod.mk.inj h
  split at hbase
  · cases hbase
  · exact (Except.ok.inj hbase).symm

/-- Apart from the diff options the base holds what the file has, or else the default. -/
theorem get?_baseOf {key : Text} (hkey : key ∈ (baseOf stored lower).keys)
    (hdiff : key ≠ "diff_options") (level : Text) :
    (baseOf stored lower).get? key = (stored.get? key).or ((defaults level).get? key) := by
  have hgetD (o : Option Json) (v : Json) : some (o.getD v) = o.or (some v) := by cases o <;> rfl
  rcases List.mem_cons.mp hkey with rfl | hkey
  · exact absurd rfl hdiff
  · rcases List.mem_cons.mp hkey with rfl | hkey
    · exact hgetD _ _
    · rw [List.mem_singleton.mp hkey]
      exact hgetD _ _

end Settings

open Settings

/-- Options that were filled in with the defaults come from the layers over these. -/
theorem Diff.Options.TakenFrom.of_filled {o : Diff.Options} {fs : Fields} {layers : List Fields}
    (h : o.TakenFrom [fs]) (hget : ∀ key, fs.get? key =
      (layers.findSome? (·.get? key)).or (defaultDiffOptions.get? key)) : o.TakenFrom layers where
  method := h.method.of_filled (hget _) rfl
  context := h.context.of_filled (hget _) rfl
  joinWithin := h.joinWithin.of_filled (hget _) rfl
  slide := h.slide.of_filled (hget _) rfl
  ignoreReturn := h.ignoreReturn.of_filled (hget _) rfl

theorem findSome?_pair (upper lower : Fields) (key : Text) :
    [upper, lower].findSome? (·.get? key) = (upper.get? key).or (lower.get? key) := by
  cases hupper : upper.get? key <;> cases hlower : lower.get? key <;> simp [hupper, hlower]

theorem Registry.configure_takenFrom {f : Formatter} {config : AttachConfig}
    (hkeys : Json.Each Json.Keyed (.obj provided)) (hlower : Table.Distinct lower)
    (h : configure (baseOf stored lower) provided f = .ok config) :
    ∃ upper, diffOptions? provided = some upper ∧
      config.TakenFrom [provided, stored] [upper, lower] := by
  obtain ⟨merged, hmerged, hcheck, -⟩ := configure_eq_ok.mp h
  obtain ⟨-, hdiff, honSave, hvcs⟩ := AttachConfig.check_eq_good.mp hcheck
  have hprovided : Table.Distinct provided := hkeys.here
  obtain ⟨hoptions, hrest⟩ := mergeLayers_spec hprovided rfl hmerged
  have htaken (key : Text) (hkey : key ∈ AttachConfig.fieldNames) (hne : key ≠ "diff_options") :
      merged.get? key = ([provided, stored].findSome? (·.get? key)).or ((defaults "").get? key) := by
    rw [hrest key hne, get?_baseOf hkey hne "", ← Option.or_assoc, findSome?_pair]
  rw [Check.takes_one, Check.optional_eq_good] at hdiff
  rcases hoptions with ⟨upper, hupper, hget⟩ | ⟨v, hv, hget⟩
  · rw [hget] at hdiff
    obtain ⟨-, hdiff⟩ := Diff.Options.check_eq_good.mp hdiff
    have hdistinct := distinct_diffOptions hkeys hupper
    refine ⟨upper, hupper, ?_, ?_, hdiff.of_filled fun key => ?_⟩
    · exact honSave.of_filled (v := .bool false) (htaken _ (by decide +kernel) (by decide +kernel)) rfl
    · exact hvcs.of_filled (v := .str "git") (htaken _ (by decide +kernel) (by decide +kernel)) rfl
    · rw [Table.get?_update hdistinct, Table.get?_update hlower, ← Option.or_assoc, findSome?_pair]
  · rw [hget] at hdiff
    obtain ⟨fs, hfs, -⟩ := Check.model_eq_good.mp hdiff
    exact absurd hfs (hv fs)

/-- Each setting of an attached client, and each of its diff options by itself, is what the check makes
of the value in the first layer that has one: what was provided, the file, the defaults. -/
theorem attached_config_from_first_layer {s s' : Settings} {reg reg' : Registry} {buffer : Text}
    {client : Client} {provided : Option Fields} {a : Attachment} (hs : s.Stores stored)
    (hlower : diffOptions? stored = some lower)
    (hprovided : ∀ fs, provided = some fs → Json.Each Json.Keyed (.obj fs))
    (hbase : attachBase s = (.ok base, s'))
    (hattach : reg.attach buffer client base (provided.getD []) = .ok (a, reg')) :
    (∃ upper, diffOptions? (provided.getD []) = some upper ∧
      a.config.TakenFrom [provided.getD [], stored] [upper, lower]) ∧
    Table.get? reg' (buffer, client.name) = some a ∧
    ∀ other other' stored' base', Settings.Stores other stored' →
      (∀ key ∈ AttachConfig.fieldNames, stored'.get? key = stored.get? key) →
      attachBase other = (.ok base', other') →
      reg.attach buffer client base' (provided.getD []) = .ok (a, reg') := by
  obtain rfl := hs.attachBase_eq hlower hbase
  have hkeys : Json.Each Json.Keyed (.obj (provided.getD [])) := by
    cases provided with
    | none => exact Json.each_obj.mpr ⟨Table.distinct_nil, nofun⟩
    | some fs => exact hprovided fs rfl
  obtain ⟨config, hconfigure, ha, hreg⟩ := Registry.attach_eq_ok.mp hattach
  refine ⟨?_, ?_, fun other other' stored' base' hother hsame hbase' => ?_⟩
  · rw [ha]
    exact Registry.configure_takenFrom hkeys (distinct_diffOptions hs.keyed hlower) hconfigure
  · rw [hreg, Table.get?_set_self]
  · have hlower' : diffOptions? stored' = some lower := by
      rw [← hlower, diffOptions?, diffOptions?, hsame "diff_options" (by decide +kernel)]
    have hsameBase : baseOf stored' lower = baseOf stored lower := by
      rw [baseOf, baseOf, hsame "format_on_save" (by decide +kernel), hsame "vcs" (by decide +kernel)]
    rwa [hother.attachBase_eq hlower' hbase', hsameBase]

def someLower : Fields := [("ctxlen", .int 3)]

def someStored : Fields :=
  [("diff_options", .obj someLower), ("vcs", .str "hg"), ("port", .int 1)]

def someProvided : Fields := [("diff_options", .obj [("algorithm", .str "difflib")])]

def rangeClient : Client :=
  { formatter := { name := "f", command := ["f"], rangeArgs := some [] } }

theorem stores_someStored : (withFile {} (Json.obj someStored).pretty).Stores someStored := by
  have hkept : Json.Each (Json.Kept fun s => s.isEncodable = true) (.obj someStored) := by
    decide +kernel
  refine ⟨_, _, rfl, Text.decode?_encodeChars _, ?_⟩
  rw [Json.parse_pretty (hkept.mono fun w hw => hw.short) (by decide +kernel),
    Json.stored_eq_self (hkept.mono fun w hw => hw.mono lasting_of_isEncodable)]

/-- The method is provided, the context and the backend are in the file, the rest is nowhere. -/
theorem attached_config_from_three_layers :
    ∃ (s s' : Settings) (base : Fields) (reg : Registry) (a : Attachment),
      s.Stores someStored ∧ attachBase s = (.ok base, s') ∧
      Registry.attach [] "a.c" rangeClient base someProvided = .ok (a, reg) ∧
      a.config.TakenFrom [someProvided, someStored] [[("algorithm", .str "difflib")], someLower] ∧
      a.config = { vcs := "hg", diff := { method := .longestRuns, context := 3 } } := by
  have hs := stores_someStored
  have hlower : diffOptions? someStored = some someLower := rfl
  have hbase := attachBase_of_load (hs.load_eq hlower) hs.keyed.here
  rw [if_neg (by decide +kernel)] at hbase
  have hattach : Registry.attach [] "a.c" rangeClient (baseOf someStored someLower)
      ((some someProvided).getD []) = .ok (_, _) := rfl
  obtain ⟨⟨upper, hupper, htaken⟩, -⟩ := attached_config_from_first_layer hs hlower
    (fun fs hfs => by cases hfs; decide +kernel) hbase hattach
  cases hupper
  exact ⟨_, _, _, _, _, hs, hbase, hattach, htaken, rfl⟩

end Hunkwise
