import Hunkwise.Proofs.CheckedFields
import Hunkwise.Proofs.FormatHandler
import Hunkwise.Proofs.RequestTurns
import Hunkwise.Proofs.SettingsFile

/-! Requests to change the settings. The body gives some fields, each of which is checked and becomes an
edit of one setting; the settings are written only when all fields have passed. -/

namespace Hunkwise

open Effect

def Body.HasLetters (good : Letter → Prop) (b : Body) : Prop :=
  ∀ text, b.text? = some text → ∀ l ∈ text.letters, good l

/-- A body without encoded halves. -/
abbrev Body.IsPlain (b : Body) : Prop := b.HasLetters fun l => l.isHalf = false

theorem Body.check?_inv {α : Type} {c : Check α} {b : Body} {a : α}
    (h : b.check? c = some (.good a)) :
    ∃ fs, b.document? = some (.ok (.obj fs)) ∧ c (.obj fs) = .good a := by
  unfold Body.check? at h
  split at h
  · cases h
  · split at h
    · next v hv =>
      cases v with
      | obj fs => exact ⟨fs, hv, Option.some.inj h⟩
      | _ => cases h
    · cases h
    · cases h

/-- The document in a body has short numbers and distinct keys. -/
theorem Body.kept_of_document {b : Body} {v : Json} {good : Letter → Prop} {text : Text → Prop}
    (htext : Json.GivesTexts good text) (hb : b.HasLetters good) (h : b.document? = some (.ok v)) :
    Json.Each (Json.Kept text) v := by
  obtain ⟨letters, hdecode, hparse⟩ := Option.map_eq_some_iff.mp h
  exact (Json.parse_spec htext (hb letters hdecode) hparse).1

theorem Body.check?_good {α : Type} {c : Check α} {b : Body} {a : α} {good : Letter → Prop}
    {text : Text → Prop} (htext : Json.GivesTexts good text) (hb : b.HasLetters good)
    (h : b.check? c = some (.good a)) :
    ∃ fs : Fields, c (.obj fs) = .good a ∧ Json.Each (Json.Kept text) (.obj fs) := by
  obtain ⟨fs, hdocument, hgood⟩ := Body.check?_inv h
  exact ⟨fs, hgood, Body.kept_of_document htext hb hdocument⟩

structure SettingsUpdate.Asked (body : Fields) (u : SettingsUpdate) : Prop where
  diff : Check.mapping.Reads (body.get? "diff_options") u.diff
  onSave : Check.bool.Reads (body.get? "format_on_save") u.onSave
  vcs : Check.string.Reads (body.get? "vcs") u.vcs
  noTimeout : body.get? "command_timeout_s" = none → u.timeout = none
  timeout : ∀ v, body.get? "command_timeout_s" = some v →
    ∃ t, u.timeout = some t ∧ Check.float.Reads (some v) t

theorem SettingsUpdate.asked_of_check {body : Fields} {u : SettingsUpdate}
    (h : SettingsUpdate.check (.obj body) = .good u) : u.Asked body := by
  obtain ⟨_, timeout, h₃, htimeout, rfl⟩ := Checked.seq_eq_good.mp h
  obtain ⟨_, vcs, h₂, hvcs, rfl⟩ := Checked.seq_eq_good.mp h₃
  obtain ⟨_, onSave, h₁, honSave, rfl⟩ := Checked.seq_eq_good.mp h₂
  obtain ⟨diff, hdiff, rfl⟩ := Checked.map_eq_good.mp h₁
  rw [Check.optional_eq_good] at htimeout
  refine ⟨Check.reads_optional hdiff, Check.reads_optional honSave, Check.reads_optional hvcs, ?_, ?_⟩
  · intro hget
    rw [hget] at htimeout
    exact (Checked.good.inj htimeout).symm
  · intro v hget
    rw [hget] at htimeout
    obtain ⟨t, ht, rfl⟩ := Checked.map_inv htimeout
    exact ⟨t, rfl, Check.reads_nullable ht⟩

/-- The diff options that are asked for were read with the body. -/
theorem SettingsUpdate.Asked.kept_diff {body upper : Fields} {u : SettingsUpdate} {text : Text → Prop}
    (hu : u.Asked body) (hbody : Json.Each (Json.Kept text) (.obj body)) (hdiff : u.diff = some upper) :
    Json.Each (Json.Kept text) (.obj upper) := by
  have hreads := hu.diff
  rw [hdiff] at hreads
  generalize hget : body.get? "diff_options" = field at hreads
  cases hreads with
  | given _ hv =>
    obtain rfl := Check.mapping_eq_good.mp hv
    exact hbody.get? hget

namespace Settings

variable {fs : Fields} {edits : List (Text × Option Json)}

/-- The settings with some of them given anew, if they are. -/
def edit (fs : Fields) (edits : List (Text × Option Json)) : Fields :=
  edits.foldl (fun fs e => e.2.elim fs (fs.set e.1)) fs

/-- What holds of the settings and is kept by each edit holds after all of them. -/
theorem edit_induction {P : Fields → Prop} (h : P fs)
    (hset : ∀ key v, (key, some v) ∈ edits → ∀ fs, P fs → P (fs.set key v)) :
    P (edit fs edits) := by
  apply List.foldlRecOn _ _ h
  intro fs hfs e he
  obtain ⟨key, v⟩ := e
  cases v with
  | none => exact hfs
  | some v => exact hset key v he fs hfs

theorem get?_edit (h : Table.Distinct edits) (fs : Fields) (key : Text) :
    (edit fs edits).get? key = (Table.get? edits key).join.or (fs.get? key) := by
  induction edits generalizing fs with
  | nil => rfl
  | cons e edits ih =>
    obtain ⟨k, v⟩ := e
    obtain ⟨hk, hrest⟩ := Table.distinct_cons.mp h
    show (edit (v.elim fs (fs.set k)) edits).get? key = _
    rw [ih hrest, Table.get?]
    by_cases hkey : k = key
    · subst hkey
      rw [Table.get?_eq_none.mpr hk, if_pos rfl]
      cases v <;> simp
    · rw [if_neg hkey]
      cases v with
      | none => rfl
      | some v => rw [Option.elim_some, Table.get?_set_of_ne (Ne.symm hkey)]

end Settings

namespace SettingsUpdate

variable {u : SettingsUpdate} {lower : Fields} {key : Text} {v : Json}

def edits (u : SettingsUpdate) (lower : Fields) : List (Text × Option Json) := [
  ("diff_options", u.diff.map fun upper => .obj (Table.update lower upper)),
  ("format_on_save", u.onSave.map .bool), ("vcs", u.vcs.map .str),
  ("command_timeout_s", u.timeout.map (Json.ofOption .float))]

theorem distinct_edits (u : SettingsUpdate) (lower : Fields) : Table.Distinct (u.edits lower) := by
  show List.Nodup (["diff_options", "format_on_save", "vcs", "command_timeout_s"] : List Text)
  decide +kernel

theorem edits_cases {P : Text → Json → Prop}
    (hdiff : ∀ d, u.diff = some d → P "diff_options" (.obj (Table.update lower d)))
    (honSave : ∀ b, u.onSave = some b → P "format_on_save" (.bool b))
    (hvcs : ∀ name, u.vcs = some name → P "vcs" (.str name))
    (htimeout : ∀ t, u.timeout = some t → P "command_timeout_s" (Json.ofOption .float t))
    (h : (key, some v) ∈ u.edits lower) : P key v := by
  simp only [edits, List.mem_cons, Prod.mk.injEq, List.not_mem_nil, or_false] at h
  rcases h with ⟨rfl, hv⟩ | ⟨rfl, hv⟩ | ⟨rfl, hv⟩ | ⟨rfl, hv⟩
  all_goals obtain ⟨a, ha, rfl⟩ := Option.map_eq_some_iff.mp hv.symm
  · exact hdiff a ha
  · exact honSave a ha
  · exact hvcs a ha
  · exact htimeout a ha

theorem mem_defaults {level : Text} (h : (key, some v) ∈ u.edits lower) :
    key ∈ (Settings.defaults level).keys := by
  have hnames : ∀ key ∈ (["diff_options", "format_on_save", "vcs", "command_timeout_s"] : List Text),
      key ∈ (Settings.defaults "").keys := by decide +kernel
  exact hnames key (List.mem_map_of_mem (f := Prod.fst) h)

structure Acceptable (u : SettingsUpdate) (lower : Fields) : Prop where
  diff : ∀ d, u.diff = some d → ∃ o, Diff.Options.check (.obj (Table.update lower d)) = .good o
  vcs : ∀ name, u.vcs = some name → (Vcs.Backend.ofName? name).isSome = true

end SettingsUpdate

namespace Service

variable {s : Service} {fs lower : Fields}

theorem ne_accepted_of_unread {n : NoAnswer} (h : (∃ d, n = .refused 400 d) ∨ ∃ ps, n = .rejected ps)
    (d : Json) : n ≠ .refused 200 d := by
  rintro rfl
  simp at h

/-- A run that gives `a` if the condition holds, and ends in a refusal without any effect if not. -/
def Yields {α : Type} (good : Prop) (a : α) (x : Handler α) : Prop :=
  ∀ s, good ∧ x s = (.ok a, s) ∨
    ¬ good ∧ ∃ n, (∀ d, n ≠ .refused 200 d) ∧ x s = (.error n, s)

theorem yields_updateDiff (hget : fs.get? "diff_options" = some (.obj lower)) (upper : Option Fields) :
    Yields (∀ d, upper = some d → ∃ o, Diff.Options.check (.obj (Table.update lower d)) = .good o)
      (Settings.edit fs [("diff_options", upper.map fun d => .obj (Table.update lower d))])
      (updateDiff fs upper) := by
  intro s
  cases upper with
  | none => exact .inl ⟨nofun, rfl⟩
  | some d =>
    unfold updateDiff
    rw [hget]
    dsimp only
    cases ho : Diff.Options.ofJson (.obj (Table.update lower d)) with
    | error r =>
      refine .inr ⟨fun hgood => ?_, .refused 400 _, nofun, rfl⟩
      obtain ⟨o, hgood⟩ := hgood d rfl
      cases ho.symm.trans (Checked.verdict_eq_ok.mpr hgood)
    | ok o =>
      refine .inl ⟨?_, rfl⟩
      rintro _ ⟨⟩
      exact ⟨o, Checked.verdict_eq_ok.mp ho⟩

theorem yields_updateVcs (fs : Fields) (name : Option Text) :
    Yields (∀ n, name = some n → (Vcs.Backend.ofName? n).isSome = true)
      (Settings.edit fs [("vcs", name.map .str)]) (updateVcs fs name) := by
  intro s
  cases name with
  | none => exact .inl ⟨nofun, rfl⟩
  | some name =>
    unfold updateVcs
    dsimp only
    by_cases hname : (Vcs.Backend.ofName? name).isSome = true
    · rw [if_pos hname]
      refine .inl ⟨?_, rfl⟩
      rintro _ ⟨⟩
      exact hname
    · rw [if_neg hname]
      exact .inr ⟨fun hgood => hname (hgood name rfl), .refused 400 _, nofun, rfl⟩

def changed : Json :=
  .obj [("status", .str "success"), ("message", .str "Configuration updated")]

/-- A change of settings that were read. If it is acceptable, all its edits are made and saved, and if not,
it is refused before anything is written. -/
theorem changeSettings_cases {settings : Settings}
    (hcurrent : Settings.current s.settings = (.ok fs, settings))
    (hget : fs.get? "diff_options" = some (.obj lower)) (u : SettingsUpdate) :
    u.Acceptable lower ∧ changeSettings u s =
      (Handler.settings (Settings.save (.obj (Settings.edit fs (u.edits lower)))) >>= fun _ =>
        pure changed) { s with settings } ∨
    ¬ u.Acceptable lower ∧
      ∃ n, (∀ d, n ≠ .refused 200 d) ∧ changeSettings u s = (.error n, { s with settings }) := by
  unfold changeSettings
  rw [bind_ok (Handler.settings_ok hcurrent)]
  rcases yields_updateDiff hget u.diff { s with settings } with ⟨hdiff, hrun⟩ | ⟨hdiff, n, hn, hrun⟩
  · rw [bind_ok hrun]
    rcases yields_updateVcs _ u.vcs { s with settings } with ⟨hvcs, hrun⟩ | ⟨hvcs, n, hn, hrun⟩
    · refine .inl ⟨⟨hdiff, hvcs⟩, (bind_ok hrun _).trans ?_⟩
      -- the edits are those that the program makes one after the other
      obtain ⟨diff, onSave, vcs, timeout⟩ := u
      cases onSave <;> cases timeout <;> rfl
    · exact .inr ⟨fun hu => hvcs hu.vcs, n, hn, bind_error hrun _⟩
  · exact .inr ⟨fun hu => hdiff hu.diff, n, hn, bind_error hrun _⟩

end Service

end Hunkwise
