import Hunkwise.Diff.Options
import Hunkwise.Proofs.SettingsFile

/-! Where settings fall back to the defaults, and where they do not. A file that is missing, cannot be
opened or holds no document gives the defaults, and an object with fit diff options gives itself over
them. All else stops the reading: bytes that are no text, a document of another kind, diff options that
are no object, and what is nested too deep or has a number too long. -/

namespace Hunkwise.Settings

open Effect

variable {s : Settings} {fs stored d : Fields} {room : Room} {level : Text} {entry : Entry}

inductive Gives (room : Room) (level : Text) : Entry → Fields → Prop
  | absent : Gives room level .absent (defaults level)
  | directory : Gives room level .directory (defaults level)
  | malformed {bytes : List UInt8} {text : Text} (htext : Text.decode? bytes = some text)
      (hparse : Json.parse room.read text = .error .malformed) :
      Gives room level (.file bytes) (defaults level)
  | stored {bytes : List UInt8} {text : Text} {stored d : Fields}
      (htext : Text.decode? bytes = some text) (hparse : Json.parse room.read text = .ok (.obj stored))
      (hdiff : diffOptions? stored = some d) (hheight : (Json.obj stored).height ≤ room.handOut) :
      Gives room level (.file bytes) (filled level stored d)

structure Complete (level : Text) (fs : Fields) : Prop where
  defaults : ∀ key ∈ (defaults level).keys, key ∈ fs.keys
  diff : ∃ d : Fields, fs.get? "diff_options" = some (.obj d) ∧
    ∀ name ∈ Diff.Options.fieldNames, name ∈ d.keys

theorem complete_filled (level : Text) (stored d : Fields) : Complete level (filled level stored d) where
  defaults key hkey := by
    rw [keys_filled]
    exact Table.mem_keys_update.mpr (.inl hkey)
  diff := by
    refine ⟨_, get?_filled_diff, fun name hname => Table.mem_keys_update.mpr (.inl ?_)⟩
    have hnames : ∀ name ∈ Diff.Options.fieldNames, name ∈ defaultDiffOptions.keys := by decide +kernel
    exact hnames name hname

theorem Gives.complete (h : Gives room level entry fs) : Complete level fs := by
  cases h with
  | stored => exact complete_filled _ _ _
  | _ => exact filled_nil level ▸ complete_filled level [] []

theorem fieldsHeight_le_of_get? {base : Fields} (hstored : Table.Distinct stored)
    (h : ∀ key v, stored.get? key = some v →
      ∃ w, base.get? key = some w ∧ v.height ≤ w.height) :
    (Json.obj stored).height ≤ (Json.obj base).height := by
  refine Nat.succ_le_succ (Json.fieldsHeight_le.mpr fun e he => ?_)
  obtain ⟨w, hw, hle⟩ := h e.1 e.2 (Table.get?_of_mem hstored he)
  exact hle.trans (Json.fieldsHeight_le.mp (Nat.le_refl _) _ (Table.mem_of_get? hw))

/-- What is stored is all in the filled settings. -/
theorem height_le_filled (hstored : Json.Each Json.Keyed (.obj stored)) (hd : diffOptions? stored = some d)
    (level : Text) : (Json.obj stored).height ≤ (Json.obj (filled level stored d)).height := by
  refine fieldsHeight_le_of_get? hstored.here fun key v hv => ?_
  by_cases hkey : key = "diff_options"
  · subst hkey
    refine ⟨_, get?_filled_diff, ?_⟩
    obtain rfl : v = .obj d := by
      rw [diffOptions?, hv] at hd
      cases v <;> cases hd
      rfl
    refine fieldsHeight_le_of_get? (hstored.get? hv).here fun key v hv' => ⟨v, ?_, Nat.le_refl _⟩
    rw [Table.get?_update (hstored.get? hv).here, hv']
    rfl
  · exact ⟨v, by rw [get?_filled hstored.here hkey, hv]; rfl, Nat.le_refl _⟩

theorem height_filled_le_iff (hstored : Json.Each Json.Keyed (.obj stored))
    (hd : diffOptions? stored = some d) (level : Text) :
    (Json.obj (filled level stored d)).height ≤ room.handOut ↔
      (Json.obj stored).height ≤ room.handOut := by
  refine ⟨(height_le_filled hstored hd level).trans, fun h => ?_⟩
  have hfilled := height_filled_le hd level
  have := room.five_le_handOut
  omega

theorem Gives.load (h : Gives room level entry fs) :
    load room level entry = .ok fs ∧ (Json.obj fs).height ≤ room.handOut := by
  have hdefaults : (Json.obj (defaults level)).height ≤ room.handOut := by
    have hlow : (Json.obj (defaults "INFO")).height ≤ 5 := by decide +kernel
    exact hlow.trans room.five_le_handOut
  cases h with
  | absent => exact ⟨rfl, hdefaults⟩
  | directory => exact ⟨rfl, hdefaults⟩
  | malformed htext hparse => exact ⟨by simp [Settings.load, htext, hparse], hdefaults⟩
  | stored htext hparse hdiff hheight =>
    have hkeyed := (each_kept_of_parse htext hparse).mono fun w hw => hw.keyed
    refine ⟨?_, (height_filled_le_iff hkeyed hdiff level).mpr hheight⟩
    simp [Settings.load, htext, hparse, withDefaults_obj, hdiff]

theorem gives_of_load (h : load room level entry = .ok fs) (hheight : (Json.obj fs).height ≤ room.handOut) :
    Gives room level entry fs := by
  cases entry with
  | absent => cases h; exact .absent
  | directory => cases h; exact .directory
  | file bytes =>
    unfold load at h
    dsimp only at h
    split at h
    · cases h
    · next text htext =>
      split at h
      · next v hparse =>
        cases v with
        | obj stored =>
          rw [withDefaults_obj] at h
          split at h
          · next d hd =>
            cases h
            have hkeyed := (each_kept_of_parse htext hparse).mono fun w hw => hw.keyed
            exact .stored htext hparse hd ((height_filled_le_iff hkeyed hd level).mp hheight)
          · cases h
        | _ => cases h
      · next hparse => cases h; exact .malformed htext hparse
      · cases h
      · cases h

/-- The settings that are handed out, whatever is remembered, are those that the file gives; they have
every default, and among the diff options every option. -/
theorem current_eq_ok_iff (s : Settings) (fs : Fields) :
    (current s).1 = .ok fs ↔ Gives s.room s.level s.disk.entry fs ∧ Complete s.level fs := by
  constructor
  · intro h
    obtain ⟨hload, hheight⟩ := current_ok h
    have hgives := gives_of_load hload hheight
    exact ⟨hgives, hgives.complete⟩
  · intro h
    obtain ⟨hload, hheight⟩ := h.1.load
    rw [current_of_load hload, if_neg (Nat.not_lt.mpr hheight)]

def fault? {α : Type} : Except Failure α → Option Failure
  | .ok _ => none
  | .error f => some f

theorem eq_error_of_fault? {α : Type} {r : Except Failure α} {f : Failure} (h : fault? r = some f) :
    r = .error f := by
  cases r with
  | ok a => cases h
  | error g => exact congrArg Except.error (Option.some.inj h)

/-- Bytes that are no text, a list, and diff options that are a number. -/
theorem damaged_settings_stop_reading :
    let holding (bytes : List UInt8) : Settings := { disk := { entry := .file bytes } }
    (current (holding [0xFF])).1 = .error .notText ∧
      (current (holding (Text.encodeChars "[]".toList))).1 = .error .notAnObject ∧
      (current (holding (Text.encodeChars "\x7b\"diff_options\": 5\x7d".toList))).1 =
        .error .badDiffOptions := by
  intro holding
  refine ⟨eq_error_of_fault? ?_, eq_error_of_fault? ?_, eq_error_of_fault? ?_⟩ <;> decide +kernel

end Hunkwise.Settings
