import Hunkwise.Proofs.SettingsRoundTrip
import Hunkwise.Proofs.UsableSettings

/-! Edits of the settings. What is read has all the defaults in front, so an edit of a setting that is
there finds nothing to fill in and nothing to move: what is read afterwards, by whomever, is what was
edited. For the formatters this means that they are a table which survives in the file. -/

namespace Hunkwise.Settings

open Effect

variable {s s' : Settings} {fs stored d c : Fields} {room : Room} {level key : Text} {v : Json}

section Fixed

/-- All defaults in front, among the settings and among the diff options. -/
structure Full (level : Text) (fs : Fields) : Prop where
  keys : (defaults level).keys <+: fs.keys
  diff : ∃ d : Fields, fs.get? "diff_options" = some (.obj d) ∧ defaultDiffOptions.keys <+: d.keys

theorem full_filled (hstored : Table.Distinct stored) (hd : Table.Distinct d) :
    Full level (filled level stored d) where
  keys := by
    rw [keys_filled, Table.keys_update hstored]
    exact List.prefix_append _ _
  diff := by
    refine ⟨_, get?_filled_diff, ?_⟩
    rw [Table.keys_update hd]
    exact List.prefix_append _ _

theorem Full.set (h : Full level fs) (hkey : key ∈ fs.keys)
    (hdiff : key = "diff_options" → ∃ d : Fields, v = .obj d ∧ defaultDiffOptions.keys <+: d.keys) :
    Full level (fs.set key v) where
  keys := by
    rw [Table.keys_set_of_mem hkey]
    exact h.keys
  diff := by
    by_cases hk : key = "diff_options"
    · obtain ⟨d, rfl, hd⟩ := hdiff hk
      exact ⟨d, by rw [hk, Table.get?_set_self], hd⟩
    · rw [Table.get?_set_of_ne (Ne.symm hk)]
      exact h.diff

theorem Fixed.full (h : Fixed room level fs) : Full level fs := by
  obtain ⟨d, hd⟩ := Option.isSome_iff_exists.mp h.diff
  have hview := h.view
  rw [Settings.view, kept_eq_self h.kept, hd] at hview
  rw [← hview]
  exact full_filled h.kept.here.keyed (each_kept_diffOptions h.kept hd).here.keyed

/-- With all defaults in front, nothing is filled in. -/
theorem Full.fixed (h : Full level fs) (hkept : Json.Each (Json.Kept Lasting) (.obj fs))
    (hheight : (Json.obj fs).height ≤ room.handOut) : Fixed room level fs := by
  obtain ⟨d, hget, hkeys⟩ := h.diff
  have hd : diffOptions? fs = some d := by rw [diffOptions?, hget]
  refine ⟨hkept, hheight, ?_, by rw [hd]; rfl⟩
  rw [view, kept_eq_self hkept, hd, Option.getD_some, filled,
    Table.update_of_keys_prefix hkept.here.keyed h.keys,
    Table.update_of_keys_prefix (hkept.get? hget).here.keyed hkeys, Table.set_of_get? hget]

theorem Fixed.set (h : Fixed room level fs) (hkey : key ∈ fs.keys)
    (hv : Json.Each (Json.Kept Lasting) v) (hlow : v.height < room.handOut)
    (hdiff : key = "diff_options" → ∃ d : Fields, v = .obj d ∧ defaultDiffOptions.keys <+: d.keys) :
    Fixed room level (fs.set key v) := by
  refine (h.full.set hkey hdiff).fixed (Json.each_kept_set h.kept (h.kept.here.texts key hkey) hv) ?_
  have hone : (Json.obj [(key, v)]).height ≤ room.handOut := by
    simp [Json.height, Json.fieldsHeight]
    omega
  exact height_update_le h.height hone

theorem full_of_current (h : (current s).1 = .ok fs) : Full s.level fs := by
  obtain ⟨stored, d, hd, rfl, hstored⟩ := load_spec (current_ok h).1
  exact full_filled hstored.here.keyed (each_kept_diffOptions hstored hd).here.keyed

theorem fixed_of_current (hlevel : Lasting s.level) (h : (current s).1 = .ok fs) :
    Fixed s.room s.level fs := by
  obtain ⟨hload, hheight⟩ := current_ok h
  refine (full_of_current h).fixed ?_ hheight
  obtain ⟨stored, d, hd, rfl, hstored⟩ := load_spec hload
  exact each_kept_filled lasting_of_isEncodable hlevel hstored (each_kept_diffOptions hstored hd)

theorem current_eq (h : (current s).1 = .ok fs) : current s = (.ok fs, { s with memory := some fs }) := by
  obtain ⟨hload, hheight⟩ := current_ok h
  rw [current_of_load hload, if_neg (Nat.not_lt.mpr hheight)]

theorem current_of_kept (hentry : s.disk.entry = .file (Text.encodeChars (Json.obj fs).pretty))
    (hkept : Json.Each (Json.Kept Lasting) (.obj fs)) (hd : diffOptions? fs = some d)
    (hheight : (Json.obj fs).height ≤ s.room.handOut) : (current s).1 = .ok (filled s.level fs d) := by
  have hself := kept_eq_self hkept
  rw [current_written hentry (hkept.mono fun w hw => hw.short) hheight (by rw [hself, hd]; rfl), view,
    hself, hd]
  rfl

/-- What is saved over settings that were read is read from then on, if nothing has to be filled in. -/
theorem current_of_edit (hsave : save (.obj c) { s with memory := some fs } = (.ok (), s'))
    (hfixed : Fixed s.room s.level (fs.update c)) (memory : Option Fields) :
    (current { s' with memory }).1 = .ok (fs.update c) := by
  obtain ⟨fs', hfs', htakes, -, -, rfl⟩ := save_inv hsave
  cases hfs'
  exact current_fixed (holds_written htakes rfl) hfixed

end Fixed

section Formatters

variable {t : Fields} {name : Text}

/-- From now on, and whatever is remembered, these are the formatters, and the other settings are as in
`fs`. -/
structure Shows (fs t : Fields) (s : Settings) : Prop where
  settings : ∀ memory, (current { s with memory }).1 = .ok (fs.set "formatters" (.obj t))
  formatters : ∀ memory, (formatters { s with memory }).1 = .ok (.obj t)

theorem setFormatter_eq (hread : (current s).1 = .ok fs)
    (ht : fs.get? "formatters" = some (.obj t)) (name : Text) (v : Json) :
    setFormatter name v s = setKey "formatters" (.obj (Table.set t name v)) { s with memory := some fs } := by
  unfold setFormatter
  rw [bind_ok (formatters_of_current (current_eq hread) ht)]

theorem removeFormatter_absent (hread : (current s).1 = .ok fs)
    (ht : fs.get? "formatters" = some (.obj t)) (hname : t.get? name = none) :
    removeFormatter name s = (.ok false, { s with memory := some fs }) := by
  unfold removeFormatter
  rw [bind_ok (formatters_of_current (current_eq hread) ht)]
  dsimp only
  rw [hname]
  rfl

theorem removeFormatter_present (hread : (current s).1 = .ok fs)
    (ht : fs.get? "formatters" = some (.obj t)) (hname : t.get? name = some (.obj d)) :
    removeFormatter name s = (setKey "formatters" (.obj (Table.without t name)) >>= fun _ => pure true)
      { s with memory := some fs } := by
  unfold removeFormatter
  rw [bind_ok (formatters_of_current (current_eq hread) ht)]
  dsimp only
  rw [hname]

/-- A table of formatters with some taken away is no harder to keep. -/
theorem each_kept_without {text : Text → Prop} (ht : Json.Each (Json.Kept text) (.obj t)) (name : Text) :
    Json.Each (Json.Kept text) (.obj (t.without name)) := by
  obtain ⟨hkept, hinside⟩ := Json.each_obj.mp ht
  have hsublist : (t.without name).Sublist t := List.filter_sublist
  refine Json.each_obj.mpr ⟨.obj (Table.Distinct.without hkept.keyed name) fun key hkey => ?_, ?_⟩
  · exact hkept.texts key ((hsublist.map Prod.fst).subset hkey)
  · exact fun e he => hinside e (hsublist.subset he)

theorem height_without_le (t : Fields) (name : Text) :
    (Json.obj (t.without name)).height ≤ (Json.obj t).height := by
  refine Nat.succ_le_succ (Json.fieldsHeight_le.mpr fun e he => ?_)
  exact Json.fieldsHeight_le.mp (Nat.le_refl _) e (List.mem_filter.mp he).1

section Operations

variable (hlevel : Lasting s.level) (hread : (current s).1 = .ok fs)
  (ht : fs.get? "formatters" = some (.obj t))

include hlevel hread ht

theorem kept_formatters :
    Json.Each (Json.Kept Lasting) (.obj t) ∧ (Json.obj t).height < s.room.handOut := by
  have hfixed := fixed_of_current hlevel hread
  have hmem : Json.obj t ∈ (Json.obj fs).parts := List.mem_map_of_mem (Table.mem_of_get? ht)
  exact ⟨hfixed.kept.get? ht, (Json.height_lt_of_mem_parts hmem).trans_le hfixed.height⟩

theorem shows_of_setKey {u : Fields} (hu : Json.Each (Json.Kept Lasting) (.obj u))
    (hlow : (Json.obj u).height < s.room.handOut)
    (hset : setKey "formatters" (.obj u) { s with memory := some fs } = (.ok (), s')) : Shows fs u s' := by
  have hkey : ("formatters" : Text) ∈ fs.keys := Table.isSome_get?.mp (by rw [ht]; rfl)
  have hfixed : Fixed s.room s.level (fs.update [("formatters", .obj u)]) :=
    (fixed_of_current hlevel hread).set hkey hu hlow
      fun h => absurd h (by decide +kernel)
  have hcurrent := current_of_edit hset hfixed
  refine ⟨hcurrent, fun memory => ?_⟩
  have hget : (fs.update [("formatters", .obj u)]).get? "formatters" = some (.obj u) :=
    Table.get?_set_self ..
  rw [formatters_of_current (current_eq (hcurrent memory)) hget]

theorem height_set_lt {d : Json} (hheight : d.height + 2 ≤ s.room.handOut) :
    (Json.obj (t.set name d)).height < s.room.handOut := by
  have hlow := (kept_formatters hlevel hread ht).2
  have hone : (Json.obj [(name, d)]).height ≤ s.room.handOut - 1 := by
    show max d.height 0 + 1 ≤ _
    omega
  have hset := height_update_le (Nat.le_sub_one_of_lt hlow) hone
  exact Nat.lt_of_le_pred (by have := s.room.five_le_handOut; omega) hset

theorem shows_set {d : Json} (hname : Lasting name) (hd : Json.Each (Json.Kept Lasting) d)
    (hheight : d.height + 2 ≤ s.room.handOut) (hset : setFormatter name d s = (.ok (), s')) :
    Shows fs (t.set name d) s' := by
  have hkept := (kept_formatters hlevel hread ht).1
  rw [setFormatter_eq hread ht] at hset
  exact shows_of_setKey hlevel hread ht (Json.each_kept_set hkept hname hd)
    (height_set_lt hlevel hread ht hheight) hset

theorem shows_without
    (hset : setKey "formatters" (.obj (t.without name)) { s with memory := some fs } = (.ok (), s')) :
    Shows fs (t.without name) s' := by
  obtain ⟨hkept, hlow⟩ := kept_formatters hlevel hread ht
  exact shows_of_setKey hlevel hread ht (each_kept_without hkept name)
    ((height_without_le t name).trans_lt hlow) hset

omit hlevel in
theorem mem_keys_of_returned {b : Bool} (hobjects : ∀ e ∈ t, ∃ d, e.2 = .obj d)
    (h : removeFormatter name s = (.ok b, s')) :
    b = true ∧ name ∈ t.keys ∧
        setKey "formatters" (.obj (t.without name)) { s with memory := some fs } = (.ok (), s') ∨
      b = false ∧ name ∉ t.keys ∧ s'.disk = s.disk := by
  cases hname : t.get? name with
  | none =>
    rw [removeFormatter_absent hread ht hname] at h
    cases h
    exact .inr ⟨rfl, Table.get?_eq_none.mp hname, rfl⟩
  | some v =>
    obtain ⟨d, rfl⟩ := hobjects _ (Table.mem_of_get? hname)
    rw [removeFormatter_present hread ht hname] at h
    obtain ⟨_, _, hset, hpure⟩ := bind_inv h
    cases hpure
    exact .inl ⟨rfl, Table.isSome_get?.mp (by rw [hname]; rfl), hset⟩

omit ht in
theorem setKey_returns {u : Fields} (hu : Json.Each (Json.Kept Lasting) (.obj u))
    (hlow : (Json.obj u).height < s.room.write) (htakes : Takes s.disk) :
    ∃ s', setKey "formatters" (.obj u) { s with memory := some fs } = (.ok (), s') := by
  have hfs := fixed_of_current hlevel hread
  have hkept := Json.each_kept_set hfs.kept (show Lasting "formatters" by decide +kernel) hu
  have hone : (Json.obj [("formatters", .obj u)]).height ≤ s.room.write := by
    show max (Json.obj u).height 0 + 1 ≤ _
    omega
  exact ⟨_, save_written (s := { s with memory := some fs }) rfl htakes
    (hkept.mono fun w hw => hw.short)
    (height_update_le (hfs.height.trans s.room.handOut_le_write) hone)⟩

theorem setFormatter_returns {d : Json} (hname : Lasting name) (hd : Json.Each (Json.Kept Lasting) d)
    (hheight : d.height + 2 ≤ s.room.handOut) (htakes : Takes s.disk) :
    ∃ s', setFormatter name d s = (.ok (), s') := by
  have ht' := Json.each_kept_set (kept_formatters hlevel hread ht).1 hname hd
  rw [setFormatter_eq hread ht]
  exact setKey_returns hlevel hread ht'
    ((height_set_lt hlevel hread ht hheight).trans_le s.room.handOut_le_write) htakes

/-- Removing ends with an answer, unless there is something to remove and the file cannot be written. -/
theorem removeFormatter_returns (hobjects : ∀ e ∈ t, ∃ d, e.2 = .obj d)
    (h : name ∉ t.keys ∨ Takes s.disk) : ∃ b s', removeFormatter name s = (.ok b, s') := by
  cases hname : t.get? name with
  | none => exact ⟨_, _, removeFormatter_absent hread ht hname⟩
  | some v =>
    obtain ⟨d, rfl⟩ := hobjects _ (Table.mem_of_get? hname)
    have htakes := h.resolve_left (not_not_intro (Table.isSome_get?.mp (by rw [hname]; rfl)))
    obtain ⟨hkept, hlow⟩ := kept_formatters hlevel hread ht
    obtain ⟨s', hset⟩ := setKey_returns hlevel hread (each_kept_without hkept name)
      ((height_without_le t name).trans_lt (hlow.trans_le s.room.handOut_le_write)) htakes
    rw [removeFormatter_present hread ht hname]
    exact ⟨_, _, bind_ok hset _⟩

end Operations

/-- Formatters are a table that survives in the file: setting or removing one leaves the others, their
order and all other settings as they were read, whatever is remembered. -/
theorem formatters_are_a_table (s : Settings) (name : Text) {fs t : Fields} (hlevel : Lasting s.level)
    (hread : (current s).1 = .ok fs) (ht : fs.get? "formatters" = some (.obj t))
    (hobjects : ∀ e ∈ t, ∃ d, e.2 = .obj d) :
    (∀ d, Lasting name → Json.Each (Json.Kept Lasting) d → d.height + 2 ≤ s.room.handOut →
      (Takes s.disk → ∃ s', setFormatter name d s = (.ok (), s')) ∧
      ∀ s', setFormatter name d s = (.ok (), s') →
        Shows fs (t.set name d) s' ∧ (t.set name d).get? name = some d ∧
          (∀ other ≠ name, (t.set name d).get? other = t.get? other) ∧
          (t.set name d).keys = if name ∈ t.keys then t.keys else t.keys ++ [name]) ∧
      (∀ b s', removeFormatter name s = (.ok b, s') →
        (b = true ↔ name ∈ t.keys) ∧ (b = false → s'.disk = s.disk) ∧
          (b = true → Shows fs (t.without name) s' ∧
            (∀ other ≠ name, (t.without name).get? other = t.get? other) ∧
            (t.without name).keys = t.keys.filter fun k => k ≠ name)) ∧
      (name ∉ t.keys ∨ Takes s.disk → ∃ b s', removeFormatter name s = (.ok b, s')) := by
  refine ⟨fun d hname hd hheight => ⟨setFormatter_returns hlevel hread ht hname hd hheight,
      fun s' hset => ?_⟩,
    fun b s' h => ?_, removeFormatter_returns hlevel hread ht hobjects⟩
  · exact ⟨shows_set hlevel hread ht hname hd hheight hset, Table.get?_set_self ..,
      fun other hother => Table.get?_set_of_ne hother .., Table.keys_set ..⟩
  · rcases mem_keys_of_returned hread ht hobjects h with ⟨rfl, hname, hset⟩ | ⟨rfl, hname, hdisk⟩
    · exact ⟨iff_of_true rfl hname, nofun, fun _ => ⟨shows_without hlevel hread ht hset,
        fun other hother => Table.get?_without_of_ne hother .., Table.keys_without ..⟩⟩
    · exact ⟨iff_of_false nofun hname, fun _ => hdisk, nofun⟩

def twoFormatters : Fields :=
  [("vcs", .str "hg"), ("formatters", .obj [("a", .obj []), ("b", .obj [])])]

def editedOutside : Settings where
  disk := { entry := .file (Text.encodeChars (Json.obj twoFormatters).pretty) }
  memory := some (defaults "INFO")

theorem formatters_are_a_table_edited_outside :
    ∃ next s', setFormatter "a" (.obj [("command", .arr [.str "x"])]) editedOutside = (.ok (), s') ∧
      (formatters { s' with memory := none }).1 =
        .ok (.obj [("a", .obj [("command", .arr [.str "x"])]), ("b", .obj [])]) ∧
      (current { s' with memory := none }).1 = .ok next ∧ next.get? "vcs" = some (.str "hg") := by
  have hread : (current editedOutside).1 = .ok (filled editedOutside.level twoFormatters []) :=
    current_of_kept (Eq.refl editedOutside.disk.entry) (by decide +kernel) (Eq.refl (some []))
      (by decide +kernel)
  have ht : (filled editedOutside.level twoFormatters []).get? "formatters" =
      some (.obj [("a", .obj []), ("b", .obj [])]) := rfl
  have hobjects : ∀ e ∈ ([("a", .obj []), ("b", .obj [])] : Fields), ∃ d, e.2 = .obj d := by simp
  obtain ⟨hreturns, hsets⟩ := (formatters_are_a_table editedOutside "a" (by decide +kernel) hread ht
    hobjects).1 (.obj [("command", .arr [.str "x"])]) (by decide +kernel) (by decide +kernel) (by decide)
  obtain ⟨s', hset⟩ := hreturns ⟨rfl, rfl⟩
  obtain ⟨hshows, -⟩ := hsets s' hset
  exact ⟨_, s', hset, hshows.formatters none, hshows.settings none, rfl⟩

def readOnly : Settings where
  disk := { entry := .file (Text.encodeChars (Json.obj twoFormatters).pretty), writable := false }

/-- A definition that is too high cannot be read any more, a name in two halves is read as the character
they make, and nothing is removed from a file that cannot be written. -/
theorem formatters_are_lost_or_renamed :
    (current { level := "INFO" }).1 = .ok (defaults "INFO") ∧
      (∃ s', setFormatter "f" (.obj [("command", nested 599)]) { level := "INFO" } = (.ok (), s') ∧
        (current s').1 = .error .tooDeep) ∧
      (∃ s' next t, setFormatter ⟨[.half 0x3D, .half 0x600]⟩ (.obj []) { level := "INFO" } = (.ok (), s') ∧
        (current s').1 = .ok next ∧ next.get? "formatters" = some (.obj t) ∧
        Table.keys t = (["😀"] : List Text)) ∧
      ∃ t, (formatters readOnly).1 = .ok (.obj t) ∧ ("a" : Text) ∈ Table.keys t ∧
        (removeFormatter "a" readOnly).1 = .error .unwritable := by
  have hread : (current { level := "INFO" }).1 = .ok (defaults "INFO") := rfl
  have ht : (defaults "INFO").get? "formatters" = some (.obj []) := rfl
  have hdefaults : Json.Each (Json.Kept Lasting) (.obj (defaults "INFO")) :=
    each_kept_defaults lasting_of_isEncodable (by decide +kernel)
  have hempty : Json.Each (Json.Kept Lasting) (.obj []) :=
    Json.each_obj.mpr ⟨.obj Table.distinct_nil nofun, nofun⟩
  refine ⟨hread, ?_, ?_, ?_⟩
  · have hnested := (each_kept_nested 599).mono fun w hw => hw.mono lasting_of_isEncodable
    have hdefinition := Json.each_kept_set hempty (show Lasting "command" by decide +kernel) hnested
    have htable := Json.each_kept_set hempty (show Lasting "f" by decide +kernel) hdefinition
    have hkept := Json.each_kept_set hdefaults (show Lasting "formatters" by decide +kernel) htable
    have hheight : (Json.obj ((defaults "INFO").update [("formatters", .obj
        (Table.set [] "f" (.obj [("command", nested 599)])))])).height ≤ 985 := by
      refine height_update_le (by decide +kernel) ?_
      simp only [Json.height, Json.fieldsHeight, Table.set, height_nested]
      decide
    have hset := (setFormatter_eq hread ht "f" (.obj [("command", nested 599)])).trans
      (save_written (Eq.refl (Except.ok _)) ⟨rfl, rfl⟩ (hkept.mono fun w hw => hw.short)
        hheight)
    refine ⟨_, hset, current_tooDeep (holds_written (s := { level := "INFO" }) ⟨rfl, rfl⟩ rfl) hkept
      (Eq.refl (some defaultDiffOptions)) hheight
      (show ("formatters" : Text) ≠ "diff_options" by decide +kernel) (Table.get?_set_self ..) ?_⟩
    · simp only [Json.height, Json.fieldsHeight, Table.set, height_nested]
      decide
  · have hset := (setFormatter_eq hread ht ⟨[.half 0x3D, .half 0x600]⟩ (.obj [])).trans
      (save_written (Eq.refl (Except.ok _)) ⟨rfl, rfl⟩ (by decide +kernel) (by decide +kernel))
    exact ⟨_, _, _, hset, current_written (Eq.refl _) (by decide +kernel) (by decide +kernel)
      (by decide +kernel), rfl, by decide +kernel⟩
  · have hread : (current readOnly).1 = .ok (filled readOnly.level twoFormatters []) :=
      current_of_kept (Eq.refl readOnly.disk.entry) (by decide +kernel) (Eq.refl (some []))
        (by decide +kernel)
    have ht : (filled readOnly.level twoFormatters []).get? "formatters" =
        some (.obj [("a", .obj []), ("b", .obj [])]) := rfl
    refine ⟨[("a", .obj []), ("b", .obj [])], ?_, by decide +kernel, ?_⟩
    · rw [formatters_of_current (current_eq hread) ht]
    · have hname : Table.get? ([("a", .obj []), ("b", .obj [])] : Fields) "a" = some (.obj []) := rfl
      rw [removeFormatter_present hread ht hname]
      rfl

end Formatters

end Hunkwise.Settings
