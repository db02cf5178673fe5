import Hunkwise.Proofs.RequestedSettings
import Hunkwise.Proofs.SettingsEdits

/-! Changes of the settings by request, all or nothing. A request that is refused leaves the file and what
is read from it alone. One that is accepted edits settings that have all their keys, with values that a
file gives back, so what is read afterwards is what was edited. -/

namespace Hunkwise

open Effect

/-- A value without parts that a file gives back can be kept, if it is no long number. -/
theorem Json.each_kept_of_flat {v : Json} (hstored : v.stored = v) (hflat : v.height = 1)
    (hshort : v.isLong = false) : Json.Each (Json.Kept Settings.Lasting) v := by
  have hparts : v.parts = [] := by
    refine List.eq_nil_iff_forall_not_mem.mpr fun w hw => ?_
    have hlow := height_lt_of_mem_parts hw
    have hpos := w.height_pos
    omega
  refine each_scalar ?_ hparts
  cases v with
  | str s => exact ⟨rfl, trivial, Json.str.inj hstored⟩
  | obj fs =>
    obtain rfl : fs = [] := List.map_eq_nil_iff.mp hparts
    exact .obj Table.distinct_nil nofun
  | _ => exact ⟨hshort, trivial, trivial⟩

theorem Diff.Options.each_kept_of_check {d : Fields} {o : Diff.Options} (hd : Table.Distinct d)
    (h : check (.obj d) = .good o) (hshort : Json.Each (fun w => w.isLong = false) (.obj d)) :
    Json.Each (Json.Kept Settings.Lasting) (.obj d) := by
  have hkeys := keepsKeys_of_check hd h
  refine Json.each_obj.mpr ⟨.obj hkeys.distinct hkeys.lasting, fun e he => ?_⟩
  obtain ⟨hstored, hflat⟩ := flat_of_check hd h e he
  exact Json.each_kept_of_flat hstored hflat ((Json.each_obj.mp hshort).2 e he).here

def HttpAnswer.status? : HttpAnswer → Option Nat
  | .answered status _ => some status
  | .crashed _ => none

theorem HttpAnswer.answered_of_status? {a : HttpAnswer} {status : Nat} (h : status? a = some status) :
    ∃ v, a = .answered status v := by
  cases a with
  | answered status' v =>
    cases h
    exact ⟨v, rfl⟩
  | crashed why => cases h

namespace Settings

variable {room : Room} {level : Text} {s s' : Settings} {before next lower upper : Fields} {u : SettingsUpdate}

structure Refreshed (room : Room) (level : Text) (before next : Fields) : Prop where
  fixed : Fixed room level next
  keys : next.keys = before.keys

theorem Fixed.mem_keys (h : Fixed room level before) {key : Text} (hkey : key ∈ (defaults level).keys) :
    key ∈ before.keys := by
  obtain ⟨more, hmore⟩ := h.full.keys
  rw [← hmore]
  exact List.mem_append_left more hkey

/-- What may take the place of a setting so that it is read back. -/
structure Settable (key : Text) (v : Json) : Prop where
  kept : Json.Each (Json.Kept Lasting) v
  low : v.height < 5
  diff : key = "diff_options" → ∃ d : Fields, v = .obj d ∧ defaultDiffOptions.keys <+: d.keys

theorem settable_scalar {key : Text} {v : Json} (hkey : key ≠ "diff_options") (hv : v.Kept Lasting)
    (hparts : v.parts = []) (hheight : v.height = 1) : Settable key v where
  kept := Json.each_scalar hv hparts
  low := by
    rw [hheight]
    decide
  diff h := absurd h hkey

theorem settable_diff {o : Diff.Options} (hlower : Json.Each (Json.Kept Lasting) (.obj lower))
    (hkeys : defaultDiffOptions.keys <+: lower.keys)
    (hupper : Json.Each (Json.Kept fun _ => True) (.obj upper))
    (ho : Diff.Options.check (.obj (Table.update lower upper)) = .good o) :
    Settable "diff_options" (.obj (Table.update lower upper)) where
  kept := by
    have hshort : Json.Each (fun w => w.isLong = false) (.obj (Table.update lower upper)) :=
      Json.each_update (hlower.mono fun w hw => hw.short) (hupper.mono fun w hw => hw.short) rfl
    exact Diff.Options.each_kept_of_check (hlower.here.keyed.update upper) ho hshort
  low := (Diff.Options.height_of_check (hlower.here.keyed.update upper) ho).trans_lt (by decide)
  diff _ := by
    refine ⟨_, rfl, hkeys.trans ?_⟩
    rw [Table.keys_update hupper.here.keyed]
    apply List.prefix_append

theorem settable_edits (hu : u.Acceptable lower) (hlower : Json.Each (Json.Kept Lasting) (.obj lower))
    (hkeys : defaultDiffOptions.keys <+: lower.keys)
    (hupper : ∀ d, u.diff = some d → Json.Each (Json.Kept fun _ => True) (.obj d)) :
    ∀ key v, (key, some v) ∈ u.edits lower → Settable key v := by
  intro key v hmem
  refine SettingsUpdate.edits_cases ?_ ?_ ?_ ?_ hmem
  · intro d hd
    obtain ⟨o, ho⟩ := hu.diff d hd
    exact settable_diff hlower hkeys (hupper d hd) ho
  · intro b _
    exact settable_scalar (by decide +kernel) ⟨rfl, trivial, trivial⟩ rfl rfl
  · intro name hname
    have hlasting := lasting_backend (hu.vcs name hname)
    exact settable_scalar (by decide +kernel) ⟨rfl, trivial, hlasting⟩ rfl rfl
  · intro t _
    cases t <;> exact settable_scalar (by decide +kernel) ⟨rfl, trivial, trivial⟩ rfl rfl

theorem refreshed_edit (h : Fixed room level before)
    (hedits : ∀ key v, (key, some v) ∈ u.edits lower → Settable key v) :
    Refreshed room level before (edit before (u.edits lower)) := by
  apply edit_induction ⟨h, rfl⟩
  intro key v hmem fs hfs
  have hkey : key ∈ fs.keys := hfs.fixed.mem_keys (SettingsUpdate.mem_defaults hmem)
  obtain ⟨hkept, hlow, hdiff⟩ := hedits key v hmem
  exact ⟨hfs.fixed.set hkey hkept (hlow.trans_le room.five_le_handOut) hdiff, (Table.keys_set_of_mem hkey v).trans hfs.keys⟩

/-- Settings that keep all keys of those that were read can be saved as they are. -/
theorem Refreshed.update (h : Refreshed room level before next) : before.update next = next :=
  Table.update_of_keys_prefix h.fixed.kept.here.keyed (by simp [h.keys])

theorem Refreshed.save (h : Refreshed s.room s.level before next) (htakes : Takes s.disk) :
    Settings.save (.obj next) { s with memory := some before } =
      (.ok (), { s with memory := some next }.withFile (Json.obj next).pretty) := by
  have hsave := save_written (s := { s with memory := some before }) (c := next) rfl htakes
    (h.update.symm ▸ h.fixed.kept.mono fun w hw => hw.short)
    (h.update.symm ▸ h.fixed.height.trans s.room.handOut_le_write)
  rwa [h.update] at hsave

theorem Refreshed.current_of_save (h : Refreshed s.room s.level before next)
    (hsave : Settings.save (.obj next) { s with memory := some before } = (.ok (), s'))
    (memory : Option Fields) : (current { s' with memory }).1 = .ok next := by
  have hcurrent := current_of_edit hsave (h.update.symm ▸ h.fixed) memory
  rwa [h.update] at hcurrent

/-- What is read depends on the file and on the level alone. -/
theorem SameSource.current (h : s.SameSource s') (memory : Option Fields) :
    (Settings.current { s' with memory }).1 = (Settings.current s).1 := by
  obtain ⟨hdisk, hroom, hlevel⟩ := h
  rw [← current_fst s memory, hdisk, hroom, hlevel]

structure Updated (u : SettingsUpdate) (before next : Fields) : Prop where
  keys : next.keys = before.keys
  others : ∀ key, key ∉ (["diff_options", "format_on_save", "vcs", "command_timeout_s"] : List Text) →
    next.get? key = before.get? key
  onSave : next.get? "format_on_save" = (u.onSave.map .bool).or (before.get? "format_on_save")
  vcs : next.get? "vcs" = (u.vcs.map .str).or (before.get? "vcs")
  timeout : next.get? "command_timeout_s" =
    (u.timeout.map (Json.ofOption .float)).or (before.get? "command_timeout_s")
  noDiff : u.diff = none → next.get? "diff_options" = before.get? "diff_options"
  diff : ∀ upper, u.diff = some upper → ∃ (lower d : Fields) (o : Diff.Options),
    before.get? "diff_options" = some (.obj lower) ∧ next.get? "diff_options" = some (.obj d) ∧
      (∀ key, d.get? key = (upper.get? key).or (lower.get? key)) ∧
      Diff.Options.ofJson (.obj d) = .ok o
  known : ∀ name, u.vcs = some name → (Vcs.Backend.ofName? name).isSome = true

theorem updated_edit (hget : before.get? "diff_options" = some (.obj lower))
    (hkeys : (edit before (u.edits lower)).keys = before.keys) (hu : u.Acceptable lower)
    (hupper : ∀ d, u.diff = some d → Json.Each (Json.Kept fun _ => True) (.obj d)) :
    Updated u before (edit before (u.edits lower)) := by
  have hvalues := get?_edit (u.distinct_edits lower) before
  have hdiff : (edit before (u.edits lower)).get? "diff_options" =
      (u.diff.map fun upper => .obj (Table.update lower upper)).or (before.get? "diff_options") :=
    hvalues "diff_options"
  refine ⟨hkeys, ?_, hvalues _, hvalues _, hvalues _, ?_, ?_, hu.vcs⟩
  · intro key hkey
    have hnone : Table.get? (u.edits lower) key = none := Table.get?_eq_none.mpr hkey
    simp [hvalues, hnone]
  · intro hnone
    simpa [hnone] using hdiff
  · intro upper hsome
    obtain ⟨o, ho⟩ := hu.diff upper hsome
    rw [hsome] at hdiff
    exact ⟨lower, _, o, hget, hdiff, Table.get?_update (hupper upper hsome).here.keyed lower,
      Checked.verdict_eq_ok.mpr ho⟩

end Settings

namespace Service

open Settings

variable {host : Host} {fuel : Nat} {r : HttpRequest} {s : Service}

/-- A change that was made: what is read from now on, whatever is remembered, is what was read before
with what the body of the request gives. -/
def Made (r : HttpRequest) (before after : Settings) : Prop :=
  ∃ body u fs next, r.body.document? = some (.ok (.obj body)) ∧ u.Asked body ∧
    (current before).1 = .ok fs ∧ Updated u fs next ∧
    ∀ memory, (current { after with memory }).1 = .ok next

/-- A request whose change can be made: it gives an update that is good over the settings that are read,
and the file can be written. -/
def Admitted (r : HttpRequest) (settings : Settings) : Prop :=
  ∃ u before lower, r.body.check? SettingsUpdate.check = some (.good u) ∧
    (current settings).1 = .ok before ∧ before.get? "diff_options" = some (.obj lower) ∧
    u.Acceptable lower ∧ Takes settings.disk

theorem made_of_admitted (host : Host) (fuel : Nat) (h : Admitted r s.settings)
    (hlevel : Lasting s.settings.level) (hr : r.endpoint? = some .changeSettings) :
    (answer host fuel r s).1 = .answered 200 changed ∧
      Made r s.settings (answer host fuel r s).2.settings := by
  obtain ⟨u, before, lower, hu, hbefore, hget, haccepted, htakes⟩ := h
  obtain ⟨body, hdocument, hgood⟩ := Body.check?_inv hu
  have hasked := SettingsUpdate.asked_of_check hgood
  have hbody := Body.kept_of_document Json.givesTexts_any (fun _ _ _ _ => trivial) hdocument
  have hupper : ∀ d, u.diff = some d → Json.Each (Json.Kept fun _ => True) (.obj d) :=
    fun d => hasked.kept_diff hbody
  have hfixed := fixed_of_current hlevel hbefore
  obtain ⟨d, hd, hkeys⟩ := hfixed.full.diff
  obtain rfl : lower = d := Json.obj.inj (Option.some.inj (hget.symm.trans hd))
  have hedits := settable_edits haccepted (hfixed.kept.get? hget) hkeys hupper
  have hnext := refreshed_edit hfixed hedits
  have hsave := hnext.save (s := s.settings) htakes
  have hrun : changeSettings u s = (.ok changed, { s with settings := _ }) :=
    (((changeSettings_cases (current_eq hbefore) hget u).resolve_right fun h => h.1 haccepted).2).trans
      (bind_ok (Handler.settings_ok hsave) _)
  have haccept : accept changed = .answered 200 changed := if_pos (by decide +kernel)
  rw [answer_some hr, handle, bind_ok (Body.read_good hu s), hrun]
  exact ⟨haccept, body, u, before, _, hdocument, hasked, hbefore,
    updated_edit hget hnext.keys haccepted hupper, hnext.current_of_save hsave⟩

/-- A change that cannot be made is not answered by a success, and if it is answered at all, nothing was
written. -/
theorem unmade_of_not_admitted (h : ¬ Admitted r s.settings)
    (hr : r.endpoint? = some .changeSettings) {status : Nat} {v : Json}
    (hanswer : (answer host fuel r s).1 = .answered status v) :
    status ≠ 200 ∧ s.settings.SameSource (answer host fuel r s).2.settings := by
  rw [answer_some hr, handle] at hanswer ⊢
  rcases r.body.read_cases SettingsUpdate.check s with ⟨u, hu, hread⟩ | ⟨n, hn, hunread⟩
  · rw [bind_ok hread] at hanswer ⊢
    cases hbefore : (current s.settings).1 with
    | error f =>
      rw [changeSettings, bind_error (Handler.settings_error (Prod.ext hbefore rfl))] at hanswer
      cases hanswer
    | ok before =>
      obtain ⟨lower, hget, -⟩ := (full_of_current hbefore).diff
      rcases changeSettings_cases (current_eq hbefore) hget u with ⟨hu', hrun⟩ | ⟨-, n, hn, hrun⟩
      · -- only the writing can fail, and that is no answer
        rw [hrun] at hanswer
        rcases hsave : save (.obj (edit before (u.edits lower)))
          { s.settings with memory := some before } with ⟨f | _, settings⟩
        · rw [bind_error (Handler.settings_error hsave)] at hanswer
          cases hanswer
        · obtain ⟨-, -, htakes, -⟩ := save_inv hsave
          exact absurd ⟨u, before, lower, hu, hbefore, hget, hu', htakes⟩ h
      · rw [hrun] at hanswer ⊢
        refine ⟨?_, rfl, rfl, rfl⟩
        rintro rfl
        exact decline_ne_accepted hn v hanswer
  · rw [bind_error hn] at hanswer ⊢
    refine ⟨?_, refl_of SameSource s.settings⟩
    rintro rfl
    exact decline_ne_accepted (ne_accepted_of_unread hunread) v hanswer

/-- A refused change of the settings leaves the file and what is read from it as they were; an accepted
one changes what is read from then on as the body says, and nothing else. -/
theorem settings_change_all_or_nothing (host : Host) (fuel : Nat) {r : HttpRequest} {s : Service}
    (hlevel : Lasting s.settings.level) (hr : r.endpoint? = some .changeSettings) :
    (∀ status v, (answer host fuel r s).1 = .answered status v → status ≠ 200 →
      (answer host fuel r s).2.settings.disk = s.settings.disk ∧
        ∀ memory, (current { (answer host fuel r s).2.settings with memory }).1 =
          (current s.settings).1) ∧
      (∀ v, (answer host fuel r s).1 = .answered 200 v →
        Made r s.settings (answer host fuel r s).2.settings) ∧
      ((∃ v, (answer host fuel r s).1 = .answered 200 v) ↔ Admitted r s.settings) := by
  by_cases hadmitted : Admitted r s.settings
  · obtain ⟨hanswer, hmade⟩ := made_of_admitted host fuel hadmitted hlevel hr
    refine ⟨fun status v h hstatus => ?_, fun _ _ => hmade, iff_of_true ⟨_, hanswer⟩ hadmitted⟩
    cases hanswer.symm.trans h
    exact absurd rfl hstatus
  · have hunmade {status : Nat} {v : Json} (h : (answer host fuel r s).1 = .answered status v) :=
      unmade_of_not_admitted hadmitted hr h
    refine ⟨fun status v h _ => ?_, fun v h => absurd rfl (hunmade h).1,
      iff_of_false (fun ⟨v, h⟩ => (hunmade h).1 rfl) hadmitted⟩
    exact ⟨(hunmade h).2.1, (hunmade h).2.current⟩

def changeBackend : HttpRequest :=
  .sending "PUT" "/api/config" (.obj [("vcs", .str "hg"),
    ("diff_options", .obj [("ctxlen", .int 3)]), ("command_timeout_s", .null)])

def changeWrongly : HttpRequest :=
  .sending "PUT" "/api/config" (.obj [("format_on_save", .bool true), ("vcs", .str "svn")])

theorem settings_change_all_or_nothing_backend :
    Made changeBackend {} (answer (Script.host []) 0 changeBackend {}).2.settings ∧
      ∀ memory, (current { (answer (Script.host []) 0 changeWrongly {}).2.settings with memory }).1 =
        .ok (defaults "INFO") := by
  have hlevel : Lasting ({} : Service).settings.level :=
    show Lasting "INFO" by decide +kernel
  have hgood : HttpAnswer.status? (answer (Script.host []) 0 changeBackend {}).1 = some 200 := by
    decide +kernel
  have hwrong : HttpAnswer.status? (answer (Script.host []) 0 changeWrongly {}).1 = some 400 := by
    decide +kernel
  obtain ⟨v, hv⟩ := HttpAnswer.answered_of_status? hgood
  obtain ⟨w, hw⟩ := HttpAnswer.answered_of_status? hwrong
  constructor
  · have hmade := settings_change_all_or_nothing (Script.host []) 0 (r := changeBackend) hlevel
      (by decide +kernel)
    exact hmade.2.1 v hv
  · have hsame := settings_change_all_or_nothing (Script.host []) 0 (r := changeWrongly) hlevel
      (by decide +kernel)
    exact (hsame.1 400 w hw (by decide)).2

end Service

end Hunkwise
