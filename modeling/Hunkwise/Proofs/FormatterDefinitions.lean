import Hunkwise.Formatter.Basic
import Hunkwise.Proofs.CheckedFields
import Hunkwise.Proofs.DocumentReading
import Hunkwise.Proofs.DocumentText

/-! Formatter definitions as documents. A definition that was accepted is written as a flat document,
comes back from a file with its texts joined, and is accepted again under any name. -/

namespace Hunkwise

namespace Definition

variable {d : Definition}

def joined (d : Definition) : Definition where
  command := d.command.map Text.joined
  rangeArgs := d.rangeArgs.map (·.map Text.joined)
  fileArgs := d.fileArgs.map Text.joined
  directory := d.directory.map Text.joined

theorem joined_joined (d : Definition) : d.joined.joined = d.joined := by
  have htexts (ts : List Text) : (ts.map Text.joined).map Text.joined = ts.map Text.joined := by
    rw [List.map_map]
    exact List.map_congr_left fun t _ => Json.joined_joined t
  have hargs : (d.rangeArgs.map (·.map Text.joined)).map (·.map Text.joined) =
      d.rangeArgs.map (·.map Text.joined) := by
    cases d.rangeArgs with
    | none => rfl
    | some ts => exact congrArg some (htexts ts)
  have hdirectory : (d.directory.map Text.joined).map Text.joined = d.directory.map Text.joined := by
    cases d.directory with
    | none => rfl
    | some t => exact congrArg some (Json.joined_joined t)
  simp only [joined, htexts, hargs, hdirectory]

theorem all_texts {g : Nat → Json → Checked Text} (h : ∀ i t, g i (.str t) = .good t)
    (ts : List Text) : Checked.all ((ts.map Json.str).mapIdx g) = .good ts := by
  induction ts generalizing g with
  | nil => rfl
  | cons t ts ih =>
    rw [List.map_cons, List.mapIdx_cons, Checked.all, h, ih fun i => h (i + 1)]
    rfl

theorem words_ofTexts (ts : List Text) : words (.ofTexts ts) = .good ts := all_texts (fun _ _ => rfl) ts

theorem eq_ofTexts_of_all {g : Nat → Json → Checked Text} (h : ∀ i v t, g i v = .good t → v = .str t)
    {items : List Json} {ts : List Text} (hall : Checked.all (items.mapIdx g) = .good ts) :
    Json.arr items = .ofTexts ts := by
  induction items generalizing g ts with
  | nil =>
    cases hall
    rfl
  | cons v items ih =>
    rw [List.mapIdx_cons, Checked.all] at hall
    obtain ⟨_, ts', hfirst, hrest, rfl⟩ := Checked.seq_eq_good.mp hall
    obtain ⟨t, ht, rfl⟩ := Checked.map_inv hfirst
    have hitems := Json.arr.inj (ih (fun i => h (i + 1)) hrest)
    rw [h 0 v t ht, hitems]
    rfl

theorem words_inv {v : Json} {ts : List Text} (h : words v = .good ts) : v = .ofTexts ts := by
  cases v with
  | arr items =>
    refine eq_ofTexts_of_all (fun i w t hw => ?_) h
    cases w with
    | str s => exact congrArg Json.str (Checked.good.inj (Checked.within_eq_good.mp hw))
    | _ => cases hw
  | _ => cases h

theorem stored_ofTexts (ts : List Text) :
    (Json.ofTexts ts).stored = .ofTexts (ts.map Text.joined) := by
  rw [Json.ofTexts, Json.stored, Json.storedItems_eq, List.map_map, Json.ofTexts, List.map_map]
  rfl

theorem keepsKeys_toFields (d : Definition) : Json.KeepsKeys d.toFields where
  distinct := by
    show (List.map Prod.fst (toFields { command := [] })).Nodup
    decide +kernel
  lasting := by
    show ∀ key ∈ List.map Prod.fst (toFields { command := [] }), key.joined = key
    decide +kernel

theorem stored_toJson (d : Definition) : d.toJson.stored = d.joined.toJson := by
  rw [toJson, Json.stored_obj_of_keepsKeys d.keepsKeys_toFields]
  have hargs : (Json.ofOption .ofTexts d.rangeArgs).stored =
      .ofOption .ofTexts (d.rangeArgs.map (·.map Text.joined)) := by
    cases d.rangeArgs with
    | none => rfl
    | some ts => exact stored_ofTexts ts
  have hdirectory : (Json.ofOption .str d.directory).stored =
      .ofOption .str (d.directory.map Text.joined) := by
    cases d.directory <;> rfl
  simp only [toFields, List.map, stored_ofTexts, hargs, hdirectory]
  rfl

theorem each_short_toJson (d : Definition) : Json.Each (fun w => w.isLong = false) d.toJson := by
  have htexts (ts : List Text) : Json.Each (fun w => w.isLong = false) (.ofTexts ts) := by
    refine Json.each_arr.mpr ⟨rfl, fun w hw => ?_⟩
    obtain ⟨t, -, rfl⟩ := List.mem_map.mp hw
    exact Json.each_scalar rfl rfl
  have hargs : Json.Each (fun w => w.isLong = false) (.ofOption .ofTexts d.rangeArgs) := by
    cases d.rangeArgs with
    | none => exact Json.each_scalar rfl rfl
    | some ts => exact htexts ts
  have hdirectory : Json.Each (fun w => w.isLong = false) (.ofOption .str d.directory) := by
    cases d.directory <;> exact Json.each_scalar rfl rfl
  refine Json.each_obj.mpr ⟨rfl, ?_⟩
  simp only [toFields, List.forall_mem_cons]
  exact ⟨htexts _, hargs, htexts _, hdirectory, nofun⟩

theorem height_toJson_le (d : Definition) : d.toJson.height ≤ 3 := by
  have htexts (ts : List Text) : (Json.ofTexts ts).height ≤ 2 := by
    refine Nat.succ_le_succ (Json.itemsHeight_le.mpr fun w hw => ?_)
    obtain ⟨t, -, rfl⟩ := List.mem_map.mp hw
    exact Nat.le_refl 1
  have hargs : (Json.ofOption .ofTexts d.rangeArgs).height ≤ 2 := by
    cases d.rangeArgs with
    | none => exact Nat.le_succ 1
    | some ts => exact htexts ts
  have hdirectory : (Json.ofOption .str d.directory).height ≤ 2 := by
    cases d.directory <;> exact Nat.le_succ 1
  refine Nat.succ_le_succ (Json.fieldsHeight_le.mpr ?_)
  simp only [toFields, List.forall_mem_cons]
  exact ⟨htexts _, hargs, htexts _, hdirectory, nofun⟩

theorem fields_eq_good {fs : Fields} (hcommand : fs.get? "command" = some (.ofTexts d.command))
    (hargs : fs.get? "range_args" = some (.ofOption .ofTexts d.rangeArgs))
    (hfile : fs.get? "file_args" = some (.ofTexts d.fileArgs))
    (hdirectory : fs.get? "cwd" = some (.ofOption .str d.directory)) : fields fs = .good d := by
  have hcommand' : Check.required fs "command" words = .good d.command :=
    Check.required_eq_good.mpr ⟨_, hcommand, words_ofTexts _⟩
  have hargs' : Check.optional fs "range_args" none (Check.nullable words) = .good d.rangeArgs := by
    rw [Check.optional_eq_good, hargs]
    cases d.rangeArgs with
    | none => rfl
    | some ts => exact congrArg (Checked.map some) (words_ofTexts ts)
  have hfile' : Check.optional fs "file_args" [] words = .good d.fileArgs := by
    rw [Check.optional_eq_good, hfile]
    exact words_ofTexts _
  have hdirectory' :
      Check.optional fs "cwd" none (Check.nullable Check.string) = .good d.directory := by
    rw [Check.optional_eq_good, hdirectory]
    cases d.directory <;> rfl
  rw [fields, hcommand', hargs', hfile', hdirectory']
  rfl

/-- A definition whose texts came joined is given back as it is. -/
theorem joined_eq_self {fs : Fields} (h : check (.obj fs) = .good d)
    (hkept : Json.Each (Json.Kept fun s => s.joined = s) (.obj fs)) : d.joined = d := by
  have htexts {v : Json} {ts : List Text} {key : Text} (hv : words v = .good ts)
      (hget : fs.get? key = some v) : ts.map Text.joined = ts := by
    have hall := (Json.each_arr.mp (words_inv hv ▸ hkept.get? hget)).2
    have hlasting : ∀ t ∈ ts, t.joined = id t := fun t ht =>
      (hall _ (List.mem_map_of_mem ht)).here.texts
    rw [List.map_congr_left hlasting, List.map_id]
  obtain ⟨_, directory, h₃, hdirectory, rfl⟩ := Checked.seq_eq_good.mp h
  obtain ⟨_, fileArgs, h₂, hfile, rfl⟩ := Checked.seq_eq_good.mp h₃
  obtain ⟨_, rangeArgs, h₁, hargs, rfl⟩ := Checked.seq_eq_good.mp h₂
  obtain ⟨command, hcommand, rfl⟩ := Checked.map_eq_good.mp h₁
  obtain ⟨v, hget, hv⟩ := Check.required_eq_good.mp hcommand
  have hjoinedFile : fileArgs.map Text.joined = fileArgs := by
    rw [Check.optional_eq_good] at hfile
    cases hget : fs.get? "file_args" with
    | none => rw [hget] at hfile; cases hfile; rfl
    | some v => rw [hget] at hfile; exact htexts hfile hget
  have hjoinedArgs : rangeArgs.map (·.map Text.joined) = rangeArgs := by
    rw [Check.optional_eq_good] at hargs
    cases hget : fs.get? "range_args" with
    | none => rw [hget] at hargs; cases hargs; rfl
    | some v =>
      rw [hget] at hargs
      cases v with
      | null => cases hargs; rfl
      | arr items =>
        obtain ⟨ts, hts, rfl⟩ := Checked.map_inv hargs
        exact congrArg some (htexts hts hget)
      | _ => cases hargs
  have hjoinedDirectory : directory.map Text.joined = directory := by
    rw [Check.optional_eq_good] at hdirectory
    cases hget : fs.get? "cwd" with
    | none => rw [hget] at hdirectory; cases hdirectory; rfl
    | some v =>
      rw [hget] at hdirectory
      cases v with
      | null => cases hdirectory; rfl
      | str s => cases hdirectory; exact congrArg some (hkept.get? hget).here.texts
      | _ => cases hdirectory
  simp only [joined, htexts hv hget, hjoinedArgs, hjoinedFile, hjoinedDirectory]

end Definition

/-- A definition under a name is the formatter it was meant to be. -/
theorem Formatter.ofJson_definition (d : Definition) (name : Text) :
    Formatter.ofJson (.obj (Table.set d.toFields "name" (.str name))) =
      .ok { toDefinition := d, name } := by
  have hfields : Definition.fields (Table.set d.toFields "name" (.str name)) = .good d :=
    Definition.fields_eq_good rfl rfl rfl rfl
  have hname : Check.required (Table.set d.toFields "name" (.str name)) "name" Check.string =
      .good name :=
    Check.required_eq_good.mpr ⟨_, rfl, rfl⟩
  refine Checked.verdict_eq_ok.mpr ?_
  show (fun name d => ({ toDefinition := d, name } : Formatter)) <$> _ <*> _ = _
  rw [hname, hfields]
  rfl

end Hunkwise
