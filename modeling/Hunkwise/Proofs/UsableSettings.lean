import Hunkwise.Proofs.FormatHandler
import Hunkwise.Proofs.FormatterDefinitions
import Hunkwise.Proofs.SettingsHistory
import Hunkwise.Vcs.Basic

/-! Settings that can be used. What the service lets into the settings is checked once and stored as it
came, so it has to pass the checks again whenever it is read: diff options that were good are good
after a file and over the defaults, a backend stays known, and a definition stays under its name with its
texts joined. -/

namespace Hunkwise

section Flat

/-- Takes only values without parts that a file gives back as they are. -/
def Check.Flat {α : Type} (c : Check α) : Prop :=
  ∀ v a, c v = .good a → v.stored = v ∧ v.height = 1

theorem Check.stored_of_characters {α : Type} {s : Text} {f : List Char → Checked α} {a : α}
    (h : Check.characters s f = .good a) : (Json.str s).stored = .str s ∧ (Json.str s).height = 1 := by
  unfold characters at h
  cases hs : s.chars? with
  | none => rw [hs] at h; cases h
  | some cs =>
    obtain rfl := Text.chars?_eq_some hs
    exact ⟨congrArg Json.str (Text.joined_eq_self (Text.isEncodable_ofChars cs)), rfl⟩

theorem Check.flat_bool : Check.bool.Flat := by
  intro v b h
  cases v with
  | bool b => exact ⟨rfl, rfl⟩
  | int n => exact ⟨rfl, rfl⟩
  | float x => exact ⟨rfl, rfl⟩
  | str s => exact stored_of_characters h
  | _ => cases h

theorem Check.flat_int : Check.int.Flat := by
  intro v n h
  cases v with
  | bool b => exact ⟨rfl, rfl⟩
  | int n => exact ⟨rfl, rfl⟩
  | float x => exact ⟨rfl, rfl⟩
  | str s => exact stored_of_characters h
  | _ => cases h

theorem Check.flat_natural : Check.natural.Flat := by
  intro v n h
  unfold natural at h
  cases hint : Check.int v with
  | good i => exact flat_int v i hint
  | bad ps => rw [hint] at h; cases h

theorem Check.flat_choice {α : Type} (fault : List Text → Fault) (table : List (Text × α)) :
    (Check.choice fault table).Flat := by
  intro v a h
  cases v with
  | str s => exact stored_of_characters h
  | _ => cases h

end Flat

namespace Diff.Options

variable {d : Fields} {o : Diff.Options}

theorem flat_of_takes {α : Type} {c : Check α} {key : Text} {missing a : α} {v : Json} (hc : c.Flat)
    (h : c.Takes [d] key missing a) (hget : d.get? key = some v) : v.stored = v ∧ v.height = 1 := by
  rw [Check.takes_one, Check.optional_eq_good, hget] at h
  exact hc v a h

theorem flat_of_check (hd : Table.Distinct d) (h : check (.obj d) = .good o) :
    ∀ e ∈ d, e.2.stored = e.2 ∧ e.2.height = 1 := by
  obtain ⟨hknown, htaken⟩ := check_eq_good.mp h
  rintro ⟨key, v⟩ he
  have hget := Table.get?_of_mem hd he
  have hkey : key ∈ fieldNames := hknown key (List.mem_map_of_mem he)
  simp only [fieldNames, List.mem_cons, List.not_mem_nil, or_false] at hkey
  rcases hkey with rfl | rfl | rfl | rfl | rfl
  · exact flat_of_takes (Check.flat_choice _ _) htaken.method hget
  · exact flat_of_takes Check.flat_natural htaken.context hget
  · exact flat_of_takes Check.flat_natural htaken.joinWithin hget
  · exact flat_of_takes Check.flat_bool htaken.slide hget
  · exact flat_of_takes Check.flat_bool htaken.ignoreReturn hget

theorem keepsKeys_of_check (hd : Table.Distinct d) (h : check (.obj d) = .good o) : Json.KeepsKeys d where
  distinct := hd
  lasting := by
    have hnames : ∀ key ∈ fieldNames, key.joined = key := by decide +kernel
    exact fun key hkey => hnames key ((check_eq_good.mp h).1 key hkey)

theorem stored_of_check (hd : Table.Distinct d) (h : check (.obj d) = .good o) :
    (Json.obj d).stored = .obj d := by
  rw [Json.stored_obj_of_keepsKeys (keepsKeys_of_check hd h)]
  have hsame : (d.map fun e => (e.1, e.2.stored)) = d.map id :=
    List.map_congr_left fun e he => Prod.ext rfl (flat_of_check hd h e he).1
  rw [hsame, List.map_id]

theorem height_of_check (hd : Table.Distinct d) (h : check (.obj d) = .good o) :
    (Json.obj d).height ≤ 2 :=
  Nat.succ_le_succ (Json.fieldsHeight_le.mpr fun e he => (flat_of_check hd h e he).2.le)

/-- Good options are good over the defaults, and mean the same. -/
theorem check_over_defaults (hd : Table.Distinct d) (h : check (.obj d) = .good o) :
    check (.obj (Settings.defaultDiffOptions.update d)) = .good o := by
  obtain ⟨hknown, htaken⟩ := check_eq_good.mp h
  have hget (key : Text) := Table.get?_update hd Settings.defaultDiffOptions key
  refine check_eq_good.mpr ⟨fun key hkey => ?_, ?_, ?_, ?_, ?_, ?_⟩
  · rcases Table.mem_keys_update.mp hkey with hkey | hkey
    · have hnames : ∀ key ∈ Settings.defaultDiffOptions.keys, key ∈ fieldNames := by decide +kernel
      exact hnames key hkey
    · exact hknown key hkey
  · exact htaken.method.over (hget _) rfl
  · exact htaken.context.over (hget _) rfl
  · exact htaken.joinWithin.over (hget _) rfl
  · exact htaken.slide.over (hget _) rfl
  · exact htaken.ignoreReturn.over (hget _) rfl

end Diff.Options

namespace Settings

/-- The definitions that were given for formatters, by name. -/
abbrev Given := Text → Option Definition

/-- What a setting may hold where some definitions were given. -/
structure Fits (given : Given) (key : Text) (v : Json) : Prop where
  lasting : Lasting key
  short : Json.Each (fun w => w.isLong = false) v
  low : v.height ≤ 4
  diff : key = "diff_options" →
    ∃ d o, v = .obj d ∧ Table.Distinct d ∧ Diff.Options.check (.obj d) = .good o
  onSave : key = "format_on_save" → ∃ b, v = .bool b
  vcs : key = "vcs" → ∃ name, v = .str name ∧ (Vcs.Backend.ofName? name).isSome = true
  formatters : key = "formatters" → ∃ t : Fields, v = .obj t ∧ Json.KeepsKeys t ∧
    ∀ name, (t.get? name).map Json.stored = (given name).map fun d => d.joined.toJson

structure Usable (given : Given) (fs : Fields) : Prop where
  distinct : Table.Distinct fs
  complete : ∀ level, ∀ key ∈ (defaults level).keys, key ∈ fs.keys
  fits : ∀ key v, fs.get? key = some v → Fits given key v
  commands : ∀ name d, given name = some d → d.command ≠ []

variable {given given' : Given} {fs : Fields} {key : Text} {v : Json} {level : Text}

section Fits

theorem Fits.regive (h : Fits given key v) (hkey : key ≠ "formatters") : Fits given' key v :=
  { h with formatters := fun h => absurd h hkey }

theorem lasting_backend {name : Text} (h : (Vcs.Backend.ofName? name).isSome = true) :
    Lasting name := by
  have hnames : ∀ name ∈ Table.keys Vcs.Backend.names, Lasting name := by decide +kernel
  exact hnames name (Table.isSome_get?.mp h)

/-- What a setting may hold, it may still hold after a file. -/
theorem Fits.stored (h : Fits given key v) : Fits given key v.stored where
  lasting := h.lasting
  short := Json.each_short_stored h.short
  low := (Json.height_stored_le v).trans h.low
  diff hkey := by
    obtain ⟨d, o, rfl, hd, ho⟩ := h.diff hkey
    exact ⟨d, o, Diff.Options.stored_of_check hd ho, hd, ho⟩
  onSave hkey := by
    obtain ⟨b, rfl⟩ := h.onSave hkey
    exact ⟨b, rfl⟩
  vcs hkey := by
    obtain ⟨name, rfl, hname⟩ := h.vcs hkey
    exact ⟨name, congrArg Json.str (lasting_backend hname), hname⟩
  formatters hkey := by
    obtain ⟨t, rfl, ht, hgiven⟩ := h.formatters hkey
    refine ⟨_, Json.stored_obj_of_keepsKeys ht, ?_, fun name => ?_⟩
    · exact ht.map Json.stored
    · rw [Table.get?_map, hgiven]
      cases given name with
      | none => rfl
      | some d => exact congrArg some (d.joined.stored_toJson.trans (by rw [d.joined_joined]))

/-- Good diff options with the default ones below them. -/
theorem fits_diff {d : Fields} {o : Diff.Options} (hd : Table.Distinct d)
    (ho : Diff.Options.check (.obj d) = .good o)
    (hshort : Json.Each (fun w => w.isLong = false) (.obj d)) : Fits given "diff_options" (.obj d) where
  lasting := by decide +kernel
  short := hshort
  low := (Diff.Options.height_of_check hd ho).trans (by decide)
  diff _ := ⟨d, o, rfl, hd, ho⟩
  onSave h := absurd h (by decide +kernel)
  vcs h := absurd h (by decide +kernel)
  formatters h := absurd h (by decide +kernel)

theorem fits_onSave (b : Bool) : Fits given "format_on_save" (.bool b) where
  lasting := by decide +kernel
  short := Json.each_scalar rfl rfl
  low := Nat.le_add_left 1 3
  diff h := absurd h (by decide +kernel)
  onSave _ := ⟨b, rfl⟩
  vcs h := absurd h (by decide +kernel)
  formatters h := absurd h (by decide +kernel)

theorem fits_vcs {name : Text} (h : (Vcs.Backend.ofName? name).isSome = true) :
    Fits given "vcs" (.str name) where
  lasting := by decide +kernel
  short := Json.each_scalar rfl rfl
  low := Nat.le_add_left 1 3
  diff h := absurd h (by decide +kernel)
  onSave h := absurd h (by decide +kernel)
  vcs _ := ⟨name, rfl, h⟩
  formatters h := absurd h (by decide +kernel)

theorem fits_other (hkey : Lasting key) (hshort : Json.Each (fun w => w.isLong = false) v)
    (hlow : v.height ≤ 4)
    (hother : key ∉ (["diff_options", "format_on_save", "vcs", "formatters"] : List Text)) :
    Fits given key v where
  lasting := hkey
  short := hshort
  low := hlow
  diff h := absurd (by rw [h]; decide +kernel) hother
  onSave h := absurd (by rw [h]; decide +kernel) hother
  vcs h := absurd (by rw [h]; decide +kernel) hother
  formatters h := absurd (by rw [h]; decide +kernel) hother

theorem fits_formatters {t : Fields} (ht : Json.KeepsKeys t)
    (hgiven : ∀ name, (t.get? name).map Json.stored = (given name).map fun d => d.joined.toJson)
    (hshort : Json.Each (fun w => w.isLong = false) (.obj t)) (hlow : (Json.obj t).height ≤ 4) :
    Fits given "formatters" (.obj t) where
  lasting := by decide +kernel
  short := hshort
  low := hlow
  diff h := absurd h (by decide +kernel)
  onSave h := absurd h (by decide +kernel)
  vcs h := absurd h (by decide +kernel)
  formatters _ := ⟨t, rfl, ht, hgiven⟩

end Fits

namespace Usable

variable (h : Usable given fs)

include h

theorem keepsKeys : Json.KeepsKeys fs where
  distinct := h.distinct
  lasting := by
    intro key hkey
    obtain ⟨v, hv⟩ := Option.isSome_iff_exists.mp (Table.isSome_get?.mpr hkey)
    exact (h.fits key v hv).lasting

theorem short : Json.Each (fun w => w.isLong = false) (.obj fs) :=
  Json.each_obj.mpr ⟨rfl, fun e he => (h.fits e.1 e.2 (Table.get?_of_mem h.distinct he)).short⟩

theorem low : (Json.obj fs).height ≤ 5 :=
  Nat.succ_le_succ (Json.fieldsHeight_le.mpr fun e he =>
    (h.fits e.1 e.2 (Table.get?_of_mem h.distinct he)).low)

theorem get?_default {w : Json} (hw : (defaults level).get? key = some w) : ∃ v, fs.get? key = some v :=
  Option.isSome_iff_exists.mp (Table.isSome_get?.mpr (h.complete level key
    (Table.isSome_get?.mp (by rw [hw]; rfl))))

theorem diff : ∃ d o, fs.get? "diff_options" = some (.obj d) ∧ Table.Distinct d ∧
    Diff.Options.check (.obj d) = .good o := by
  obtain ⟨v, hv⟩ := h.get?_default (get?_defaults_diff "")
  obtain ⟨d, o, rfl, hd⟩ := (h.fits _ v hv).diff rfl
  exact ⟨d, o, hv, hd⟩

theorem onSave : ∃ b, fs.get? "format_on_save" = some (.bool b) := by
  obtain ⟨v, hv⟩ := h.get?_default (show (defaults "").get? "format_on_save" = some (.bool false) from rfl)
  obtain ⟨b, rfl⟩ := (h.fits _ v hv).onSave rfl
  exact ⟨b, hv⟩

theorem vcs : ∃ name, fs.get? "vcs" = some (.str name) ∧
    (Vcs.Backend.ofName? name).isSome = true := by
  obtain ⟨v, hv⟩ := h.get?_default (show (defaults "").get? "vcs" = some (.str "git") from rfl)
  obtain ⟨name, rfl, hname⟩ := (h.fits _ v hv).vcs rfl
  exact ⟨name, hv, hname⟩

theorem formatters : ∃ t : Fields, fs.get? "formatters" = some (.obj t) ∧ Json.KeepsKeys t ∧
    ∀ name, (t.get? name).map Json.stored = (given name).map fun d => d.joined.toJson := by
  obtain ⟨v, hv⟩ := h.get?_default (show (defaults "").get? "formatters" = some (.obj []) from rfl)
  obtain ⟨t, rfl, ht⟩ := (h.fits _ v hv).formatters rfl
  exact ⟨t, hv, ht⟩

theorem complete_set (key : Text) (v : Json) (level : Text) :
    ∀ k ∈ (defaults level).keys, k ∈ (fs.set key v).keys := by
  intro k hk
  exact Table.isSome_get?.mp (Table.isSome_get?_set (Table.isSome_get?.mpr (h.complete level k hk)) key v)

theorem set (hv : Fits given key v) : Usable given (fs.set key v) where
  distinct := h.distinct.set key v
  complete := h.complete_set key v
  fits k w hw := by
    by_cases hk : k = key
    · rw [hk, Table.get?_set_self] at hw
      cases hw
      rw [hk]
      exact hv
    · rw [Table.get?_set_of_ne hk] at hw
      exact h.fits k w hw
  commands := h.commands

/-- The formatters are the one setting that depends on what was given. -/
theorem setFormatters (hv : Fits given' "formatters" v)
    (hcommands : ∀ name d, given' name = some d → d.command ≠ []) :
    Usable given' (fs.set "formatters" v) where
  distinct := h.distinct.set "formatters" v
  complete := h.complete_set "formatters" v
  fits k w hw := by
    by_cases hk : k = "formatters"
    · rw [hk, Table.get?_set_self] at hw
      cases hw
      rw [hk]
      exact hv
    · rw [Table.get?_set_of_ne hk] at hw
      exact (h.fits k w hw).regive hk
  commands := hcommands

/-- Usable settings are usable when they come back from a file. -/
theorem load_written (room : Room) (level : Text) :
    ∃ fs', load room level (.file (Text.encodeChars (Json.obj fs).pretty)) = .ok fs' ∧ Usable given fs' := by
  obtain ⟨d, o, hget, hd, ho⟩ := h.diff
  let stored : Fields := fs.map fun e => (e.1, e.2.stored)
  have hstored (key : Text) : stored.get? key = (fs.get? key).map Json.stored := Table.get?_map ..
  have hdiff : diffOptions? stored = some d := by
    rw [diffOptions?, hstored, hget]
    simp only [Option.map_some, Diff.Options.stored_of_check hd ho]
  have hload : load room level (.file (Text.encodeChars (Json.obj fs).pretty)) =
      .ok (filled level stored d) := by
    rw [Settings.load_written h.short (h.low.trans (room.five_le_handOut.trans room.handOut_le_read)),
      Json.stored_obj_of_keepsKeys h.keepsKeys, withDefaults_obj, hdiff]
  refine ⟨_, hload, distinct_filled, fun level' key hkey => ?_, fun key v hv => ?_, h.commands⟩
  · rw [keys_filled, Table.mem_keys_update]
    exact .inl hkey
  · by_cases hkey : key = "diff_options"
    · subst hkey
      rw [get?_filled_diff] at hv
      cases hv
      have hdefault : Json.Each (fun w => w.isLong = false) (.obj defaultDiffOptions) := by
        decide +kernel
      refine fits_diff (distinct_defaultDiffOptions.update d)
        (Diff.Options.check_over_defaults hd ho) (Json.each_update hdefault ?_ rfl)
      exact (h.fits _ _ hget).short
    · rw [get?_filled (h.keepsKeys.map Json.stored).distinct hkey, hstored] at hv
      cases hfs : fs.get? key with
      | some w =>
        rw [hfs] at hv
        cases hv
        exact (h.fits key w hfs).stored
      | none =>
        -- every default key is there, so no default is taken
        rw [hfs] at hv
        obtain ⟨w, hw⟩ := h.get?_default hv
        rw [hfs] at hw
        cases hw

end Usable

theorem usable_defaults (level : Text) : Usable (fun _ => none) (defaults level) where
  distinct := distinct_defaults level
  complete _ _ hkey := hkey
  commands := nofun
  fits key v hv := by
    have hmem := Table.mem_of_get? hv
    simp only [defaults, List.mem_cons, List.not_mem_nil, or_false, Prod.mk.injEq] at hmem
    rcases hmem with ⟨rfl, rfl⟩ | ⟨rfl, rfl⟩ | ⟨rfl, rfl⟩ | ⟨rfl, rfl⟩ | ⟨rfl, rfl⟩ | ⟨rfl, rfl⟩ | ⟨rfl, rfl⟩
    · exact fits_diff distinct_defaultDiffOptions rfl (by decide +kernel)
    · exact fits_onSave false
    · exact fits_vcs rfl
    · exact fits_formatters ⟨Table.distinct_nil, nofun⟩ (fun _ => rfl) (by decide +kernel) (by decide)
    · exact fits_other (by decide +kernel) (Json.each_scalar rfl rfl) (by decide) (by decide +kernel)
    · exact fits_other (by decide +kernel) (Json.each_scalar rfl rfl) (Nat.le_add_left 1 3)
        (by decide +kernel)
    · exact fits_other (by decide +kernel) (by decide +kernel) (by decide +kernel) (by decide +kernel)

section Serves

open Effect

variable {s s' : Settings} {t : Fields} {name : Text} {d : Definition}

structure Serves (given : Given) (s : Settings) : Prop where
  takes : Takes s.disk
  usable : ∃ fs, load s.room s.level s.disk.entry = .ok fs ∧ Usable given fs

theorem serves_empty (room : Room) (level : Text) (memory : Option Fields) :
    Serves (fun _ => none) { room, level, memory } :=
  ⟨⟨rfl, rfl⟩, defaults level, rfl, usable_defaults level⟩

theorem Serves.sameSource (h : Serves given s) (hsame : SameSource s s') : Serves given s' where
  takes := by rw [hsame.1]; exact h.takes
  usable := by rw [hsame.1, hsame.2.1, hsame.2.2]; exact h.usable

/-- What is read under a name is the definition that was given, with its texts joined. -/
theorem get?_formatters_of_load {room : Room} {entry : Entry}
    (hload : load room level entry = .ok fs)
    (h : Usable given fs) (ht : fs.get? "formatters" = some (.obj t)) (name : Text) :
    t.get? name = (given name).map fun d => d.joined.toJson := by
  obtain ⟨u, hu, hkeys, hgiven⟩ := h.formatters
  cases ht.symm.trans hu
  obtain ⟨stored, d, hd, rfl, hkept⟩ := load_spec hload
  rw [get?_filled hkept.here.keyed (by decide +kernel)] at ht
  have hlasting : Json.Each (Json.Kept Lasting) (.obj t) := by
    rcases Option.or_eq_some_iff.mp ht with ht | ⟨-, ht⟩
    · exact hkept.get? ht
    · cases ht
      exact Json.each_obj.mpr ⟨.obj Table.distinct_nil nofun, nofun⟩
  rw [← hgiven name]
  cases hname : t.get? name with
  | none => rfl
  | some w => exact congrArg some (Json.stored_eq_self (hlasting.get? hname)).symm

/-- The settings can be read, and what was read is remembered. -/
theorem Serves.current (h : Serves given s) :
    ∃ fs s', current s = (.ok fs, s') ∧ Usable given fs ∧ load s.room s.level s.disk.entry = .ok fs ∧
      s'.memory = some fs ∧ Serves given s' := by
  obtain ⟨fs, hload, hfs⟩ := h.usable
  have hsame : SameSource s { s with memory := some fs } := ⟨rfl, rfl, rfl⟩
  refine ⟨fs, _, ?_, hfs, hload, rfl, h.sameSource hsame⟩
  rw [current_of_load hload, if_neg]
  exact Nat.not_lt.mpr (hfs.low.trans s.room.five_le_handOut)

theorem Serves.save (h : Serves given s) {c : Fields} (hmemory : s.memory = some fs)
    (hc : Usable given' (fs.update c)) :
    ∃ s', save (.obj c) s = (.ok (), s') ∧ Serves given' s' := by
  have hfs : s.remembered = .ok fs := by rw [remembered, hmemory]
  have hlow := hc.low.trans (s.room.five_le_handOut.trans s.room.handOut_le_write)
  exact ⟨_, save_written hfs h.takes hc.short hlow, h.takes.withFile (s := { s with memory := some (fs.update c) }) _,
    hc.load_written s.room s.level⟩

theorem formatters_of_current (hcurrent : current s = (.ok fs, s'))
    (ht : fs.get? "formatters" = some (.obj t)) : formatters s = (.ok (.obj t), s') := by
  unfold formatters
  rw [bind_ok hcurrent, ht]
  rfl

theorem Serves.setFormatter (h : Serves given s) (hname : Lasting name) (hd : d.command ≠ []) :
    ∃ s', setFormatter name d.toJson s = (.ok (), s') ∧
      Serves (Function.update given name (some d)) s' := by
  obtain ⟨fs, s₁, hcurrent, hfs, -, hmemory, h₁⟩ := h.current
  obtain ⟨t, hget, hkeys, hgiven⟩ := hfs.formatters
  have hfits := hfs.fits _ _ hget
  unfold Settings.setFormatter
  rw [bind_ok (formatters_of_current hcurrent hget)]
  refine h₁.save (c := [("formatters", .obj (Table.set t name d.toJson))]) hmemory
    (hfs.setFormatters (fits_formatters ⟨hkeys.distinct.set _ _, ?_⟩ ?_ ?_ ?_) ?_)
  · intro k hk
    rcases Table.mem_keys_update.mp (show k ∈ (Table.update t [(name, d.toJson)]).keys from hk) with
      hk | hk
    · exact hkeys.lasting k hk
    · rw [List.mem_singleton.mp hk]
      exact hname
  · intro k
    by_cases hk : k = name
    · rw [hk, Table.get?_set_self, Function.update_self]
      exact congrArg some d.stored_toJson
    · rw [Table.get?_set_of_ne hk, Function.update_of_ne hk, hgiven]
  · have hone : Json.Each (fun w => w.isLong = false) (.obj [(name, d.toJson)]) :=
      Json.each_obj.mpr ⟨rfl, fun e he => List.mem_singleton.mp he ▸ d.each_short_toJson⟩
    exact Json.each_update hfits.short hone rfl
  · have hone : (Json.obj [(name, d.toJson)]).height ≤ 4 :=
      Nat.succ_le_succ (Json.fieldsHeight_le.mpr fun e he =>
        List.mem_singleton.mp he ▸ d.height_toJson_le)
    exact height_update_le hfits.low hone
  · intro k e he
    by_cases hk : k = name
    · rw [hk, Function.update_self] at he
      cases he
      exact hd
    · rw [Function.update_of_ne hk] at he
      exact hfs.commands k e he

theorem Serves.removeFormatter (h : Serves given s) (name : Text) :
    ∃ s', removeFormatter name s = (.ok (given name).isSome, s') ∧
      Serves (Function.update given name none) s' := by
  obtain ⟨fs, s₁, hcurrent, hfs, hload, hmemory, h₁⟩ := h.current
  obtain ⟨t, hget, hkeys, hgiven⟩ := hfs.formatters
  have hfits := hfs.fits _ _ hget
  have hname := get?_formatters_of_load hload hfs hget name
  unfold Settings.removeFormatter
  rw [bind_ok (formatters_of_current hcurrent hget)]
  dsimp only
  rw [hname]
  cases hd : given name with
  | none =>
    refine ⟨_, rfl, ?_⟩
    rw [Function.update_eq_self_iff.mpr hd.symm]
    exact h₁
  | some d =>
    have hmem (e : Text × Json) (he : e ∈ t.without name) : e ∈ t := (List.mem_filter.mp he).1
    have hwithout : Usable (Function.update given name none)
        (fs.set "formatters" (.obj (t.without name))) := by
      refine hfs.setFormatters (fits_formatters ⟨hkeys.distinct.without name, fun k hk => ?_⟩
        (fun k => ?_) ?_ ?_) fun k e he => ?_
      · obtain ⟨e, he, rfl⟩ := List.mem_map.mp hk
        exact hkeys.lasting e.1 (List.mem_map_of_mem (hmem e he))
      · by_cases hk : k = name
        · rw [hk, Table.get?_without_self, Function.update_self]
          rfl
        · rw [Table.get?_without_of_ne hk, Function.update_of_ne hk, hgiven]
      · exact Json.each_obj.mpr ⟨rfl, fun e he => (Json.each_obj.mp hfits.short).2 e (hmem e he)⟩
      · exact Nat.succ_le_succ (Json.fieldsHeight_le.mpr fun e he =>
          Json.fieldsHeight_le.mp (Nat.le_of_succ_le_succ hfits.low) e (hmem e he))
      · by_cases hk : k = name
        · rw [hk, Function.update_self] at he
          cases he
        · rw [Function.update_of_ne hk] at he
          exact hfs.commands k e he
    obtain ⟨s', hset, hs'⟩ := h₁.save (c := [("formatters", .obj (t.without name))]) hmemory hwithout
    exact ⟨s', bind_ok hset _, hs'⟩

end Serves

end Settings

end Hunkwise
