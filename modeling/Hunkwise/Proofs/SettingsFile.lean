import Hunkwise.Proofs.DocumentReading
import Hunkwise.Proofs.DocumentText
import Hunkwise.Proofs.Effects
import Hunkwise.Proofs.Utf8Text
import Hunkwise.Settings.Basic

/-! The settings and their file. What is read is the file over the defaults, key by key also within
the diff options; what is saved is all that is remembered. A file that was written is read as what was
remembered, and reading over the defaults a second time adds nothing. -/

namespace Hunkwise.Settings

open Effect

variable {s s' : Settings} {fs stored d : Fields} {room : Room} {level key : Text}

section Defaults

theorem distinct_defaults (level : Text) : Table.Distinct (defaults level) := by
  show ((defaults "INFO").map Prod.fst).Nodup
  decide +kernel

theorem distinct_defaultDiffOptions : Table.Distinct defaultDiffOptions := by
  show (defaultDiffOptions.map Prod.fst).Nodup
  decide +kernel

theorem get?_defaults_diff (level : Text) :
    (defaults level).get? "diff_options" = some (.obj defaultDiffOptions) := rfl

def diffOptions? (stored : Fields) : Option Fields :=
  match stored.get? "diff_options" with
  | none => some []
  | some (.obj d) => some d
  | some _ => none

/-- Stored settings over the defaults, and stored diff options over the default ones. -/
def filled (level : Text) (stored d : Fields) : Fields :=
  ((defaults level).update stored).set "diff_options" (.obj (defaultDiffOptions.update d))

theorem withDefaults_obj (level : Text) (stored : Fields) :
    withDefaults level (.obj stored) =
      match diffOptions? stored with
      | some d => .ok (filled level stored d)
      | none => .error .badDiffOptions := by
  unfold withDefaults diffOptions?
  dsimp only
  cases hstored : Table.get? stored "diff_options" with
  | none =>
    have hget : ((defaults level).update stored).get? "diff_options" =
        some (.obj (defaultDiffOptions.update [])) := by
      rw [Table.get?_update_of_not_mem (Table.get?_eq_none.mp hstored)]
      rfl
    exact congrArg Except.ok (Table.set_of_get? hget).symm
  | some v => cases v <;> rfl

theorem get?_filled_diff : (filled level stored d).get? "diff_options" =
    some (.obj (defaultDiffOptions.update d)) := Table.get?_set_self ..

theorem get?_filled (hstored : Table.Distinct stored) (hkey : key ≠ "diff_options") :
    (filled level stored d).get? key = (stored.get? key).or ((defaults level).get? key) := by
  rw [filled, Table.get?_set_of_ne hkey, Table.get?_update hstored]

theorem distinct_filled : Table.Distinct (filled level stored d) :=
  ((distinct_defaults level).update stored).set ..

theorem keys_filled :
    (filled level stored d).keys = ((defaults level).update stored).keys :=
  Table.keys_set_of_mem (Table.mem_keys_update.mpr (.inl (by
    show ("diff_options" : Text) ∈ (defaults level).map Prod.fst
    exact List.mem_cons_self))) _

theorem filled_again (hstored : Table.Distinct stored) (hd : Table.Distinct d) (level level' : Text) :
    diffOptions? (filled level stored d) = some (defaultDiffOptions.update d) ∧
      filled level' (filled level stored d) (defaultDiffOptions.update d) = filled level stored d := by
  constructor
  · rw [diffOptions?, get?_filled_diff]
  · have hkeys : (defaults level').keys <+: (filled level stored d).keys := by
      rw [keys_filled, Table.keys_update hstored]
      exact List.prefix_append _ _
    have hdiff : defaultDiffOptions.update (defaultDiffOptions.update d) =
        defaultDiffOptions.update d := by
      refine Table.update_of_keys_prefix (distinct_defaultDiffOptions.update d) ?_
      rw [Table.keys_update hd]
      exact List.prefix_append _ _
    rw [filled, Table.update_of_keys_prefix distinct_filled hkeys, hdiff,
      Table.set_of_get? get?_filled_diff]

theorem height_update_le {base upper : Fields} {n : Nat} (hbase : (Json.obj base).height ≤ n)
    (hupper : (Json.obj upper).height ≤ n) : (Json.obj (base.update upper)).height ≤ n := by
  simp only [Json.height] at hbase hupper ⊢
  obtain ⟨n, rfl⟩ : ∃ m, n = m + 1 := ⟨n - 1, by omega⟩
  refine Nat.succ_le_succ (Json.fieldsHeight_le.mpr fun e he => ?_)
  exact (Table.mem_update he).elim (Json.fieldsHeight_le.mp (Nat.le_of_succ_le_succ hbase) e)
    (Json.fieldsHeight_le.mp (Nat.le_of_succ_le_succ hupper) e)

theorem height_diffOptions (hd : diffOptions? stored = some d) :
    (Json.obj d).height ≤ max 1 ((Json.obj stored).height - 1) := by
  unfold diffOptions? at hd
  split at hd
  · cases hd
    exact Nat.le_max_left _ _
  · next hget =>
    cases hd
    have := Json.fieldsHeight_le.mp (Nat.le_refl _) _ (Table.mem_of_get? hget)
    exact le_max_of_le_right this
  · cases hd

theorem height_filled_le (hd : diffOptions? stored = some d) (level : Text) :
    (Json.obj (filled level stored d)).height ≤ max 3 (Json.obj stored).height := by
  have hdiff := height_diffOptions hd
  have hdefaults : (Json.obj (defaults level)).height ≤ max 3 (Json.obj stored).height :=
    le_max_of_le_left (by show (Json.obj (defaults "INFO")).height ≤ 3; decide +kernel)
  suffices hset : (Json.obj [("diff_options", .obj (defaultDiffOptions.update d))]).height ≤
      max 3 (Json.obj stored).height from
    height_update_le (height_update_le hdefaults (Nat.le_max_right _ _)) hset
  have hoptions : (Json.obj (defaultDiffOptions.update d)).height ≤
      max 2 ((Json.obj stored).height - 1) := by
    refine height_update_le (le_max_of_le_left (by decide +kernel)) ?_
    omega
  show max (Json.obj _).height 0 + 1 ≤ _
  omega

end Defaults

section Reading

theorem reload_of_load (h : load s.room s.level s.disk.entry = .ok fs) :
    reload s = (.ok fs, { s with memory := some fs }) := by
  unfold reload
  rw [h]

theorem reload_of_fault {f : Failure} (h : load s.room s.level s.disk.entry = .error f) :
    reload s = (.error f, s) := by
  unfold reload
  rw [h]

/-- What is remembered, or would be after the first reading. -/
def remembered (s : Settings) : Except Failure Fields :=
  match s.memory with
  | some fs => .ok fs
  | none => load s.room s.level s.disk.entry

theorem start_of_memory (h : s.memory = some fs) : start s = (.ok (), s) := by
  rw [start, bind_get, h]
  rfl

theorem start_of_none (h : s.memory = none) : start s = (reload >>= fun _ => pure ()) s := by
  rw [start, bind_get, h, ← discard_eq]
  rfl

theorem start_ok (h : s.remembered = .ok fs) : start s = (.ok (), { s with memory := some fs }) := by
  unfold remembered at h
  cases hmemory : s.memory with
  | some m =>
    rw [hmemory] at h
    cases h
    rw [start_of_memory hmemory, ← hmemory]
  | none =>
    rw [hmemory] at h
    rw [start_of_none hmemory, bind_ok (reload_of_load h)]
    rfl

theorem start_error {f : Failure} (h : s.remembered = .error f) : start s = (.error f, s) := by
  unfold remembered at h
  cases hmemory : s.memory with
  | some m => rw [hmemory] at h; cases h
  | none =>
    rw [hmemory] at h
    rw [start_of_none hmemory, bind_error (reload_of_fault h)]

/-- The settings are what the file gives, unless that is too high, whatever was remembered. -/
theorem current_of_load (h : load s.room s.level s.disk.entry = .ok fs) :
    current s = (if s.room.handOut < (Json.obj fs).height then .error .tooDeep else .ok fs,
      { s with memory := some fs }) := by
  obtain ⟨m, hm⟩ : ∃ m, s.remembered = .ok m := by
    unfold remembered
    split
    · exact ⟨_, rfl⟩
    · exact ⟨fs, h⟩
  unfold current
  rw [bind_ok (start_ok hm), bind_ok (reload_of_load (s := { s with memory := some m }) h), bind_get]
  dsimp only
  split <;> rfl

theorem current_of_fault {f : Failure} (h : load s.room s.level s.disk.entry = .error f) :
    current s = (.error f, s) := by
  unfold current
  cases hmemory : s.memory with
  | some m => rw [bind_ok (start_of_memory hmemory), bind_error (reload_of_fault h)]
  | none =>
    have hfault : s.remembered = .error f := by rw [remembered, hmemory]; exact h
    rw [bind_error (start_error hfault)]

theorem current_ok (h : (current s).1 = .ok fs) :
    load s.room s.level s.disk.entry = .ok fs ∧ (Json.obj fs).height ≤ s.room.handOut := by
  cases hload : load s.room s.level s.disk.entry with
  | error f => rw [current_of_fault hload] at h; cases h
  | ok fs' =>
    rw [current_of_load hload] at h
    dsimp only at h
    split at h
    · cases h
    · next hheight =>
      cases h
      exact ⟨rfl, Nat.not_lt.mp hheight⟩

theorem current_fst (s : Settings) (memory : Option Fields) :
    (current { s with memory }).1 = (current s).1 := by
  cases hload : load s.room s.level s.disk.entry with
  | ok fs => rw [current_of_load hload, current_of_load (s := { s with memory }) hload]
  | error f => rw [current_of_fault hload, current_of_fault (s := { s with memory }) hload]

end Reading

section Writing

structure Takes (d : Disk) : Prop where
  reachable : d.reachable = true
  file : d.takesFile = true

theorem Takes.withFile (h : Takes s.disk) (text : List Char) : Takes (s.withFile text).disk where
  reachable := h.reachable
  file := by
    have hwritable := (Bool.and_eq_true _ _).mp h.file
    exact (Bool.and_eq_true _ _).mpr ⟨hwritable.1, rfl⟩

theorem write_ok : write s = (.ok (), s') ↔
    Takes s.disk ∧ Json.Each (fun w => w.isLong = false) (.obj (s.memory.getD [])) ∧
      (Json.obj (s.memory.getD [])).height ≤ s.room.write ∧
      s' = s.withFile (Json.obj (s.memory.getD [])).pretty := by
  have hroom : 1 ≤ s.room.write := by
    have := s.room.five_le_handOut
    have := s.room.handOut_le_write
    omega
  rw [← and_assoc (a := Json.Each _ _), ← Json.stopped?_eq_none (d := 0) hroom]
  unfold write
  cases hreachable : s.disk.reachable with
  | false => exact iff_of_false nofun fun h => nomatch hreachable.symm.trans h.1.reachable
  | true =>
    cases hfile : s.disk.takesFile with
    | false => exact iff_of_false nofun fun h => nomatch hfile.symm.trans h.1.file
    | true =>
      rw [if_neg (by decide), if_neg (by decide)]
      dsimp only
      cases (Json.obj (s.memory.getD [])).stopped? s.room.write 0 with
      | some stop =>
        refine iff_of_false (fun h => ?_) fun h => nomatch h.2.1
        obtain ⟨fault, text⟩ := stop
        cases fault <;> cases h
      | none =>
        refine ⟨fun h => ⟨⟨hreachable, hfile⟩, rfl, ?_⟩, fun h => ?_⟩
        · cases h
          rfl
        · rw [h.2.2]

/-- Saving puts the entries of a document over what is remembered, and writes it if there are no
others. -/
theorem save_eq (h : s.remembered = .ok fs) (v : Json) :
    save v s =
      match (entries v).2 with
      | some f => (.error f, { s with memory := some (fs.update (entries v).1) })
      | none => write { s with memory := some (fs.update (entries v).1) } := by
  unfold save
  rw [bind_ok (start_ok h)]
  generalize entries v = r
  obtain ⟨es, fault⟩ := r
  cases fault <;> rfl

theorem save_error {f : Failure} (h : s.remembered = .error f) (v : Json) :
    save v s = (.error f, s) := by
  unfold save
  rw [bind_error (start_error h)]

theorem save_written {c : Fields} (hfs : s.remembered = .ok fs) (htakes : Takes s.disk)
    (hshort : Json.Each (fun w => w.isLong = false) (.obj (fs.update c)))
    (hheight : (Json.obj (fs.update c)).height ≤ s.room.write) :
    save (.obj c) s = (.ok (), { s with memory := some (fs.update c) }.withFile
      (Json.obj (fs.update c)).pretty) := by
  rw [save_eq hfs]
  exact write_ok.mpr ⟨htakes, hshort, hheight, rfl⟩

theorem save_inv {v : Json} (h : save v s = (.ok (), s')) :
    ∃ fs, s.remembered = .ok fs ∧ Takes s.disk ∧
      Json.Each (fun w => w.isLong = false) (.obj (fs.update (entries v).1)) ∧
      (Json.obj (fs.update (entries v).1)).height ≤ s.room.write ∧
      s' = { s with memory := some (fs.update (entries v).1) }.withFile
        (Json.obj (fs.update (entries v).1)).pretty := by
  cases hs : s.remembered with
  | error f => rw [save_error hs] at h; cases h
  | ok fs =>
    rw [save_eq hs] at h
    split at h
    · cases h
    · exact ⟨fs, rfl, write_ok.mp h⟩

theorem load_written (hshort : Json.Each (fun w => w.isLong = false) (.obj fs))
    (hheight : (Json.obj fs).height ≤ room.read) :
    load room level (.file (Text.encodeChars (Json.obj fs).pretty)) =
      withDefaults level (Json.obj fs).stored := by
  simp only [load, Text.decode?_encodeChars, Json.parse_pretty hshort hheight]

/-- A file that was written gives what was remembered, if it gives anything. -/
theorem load_written_inv (hshort : Json.Each (fun w => w.isLong = false) (.obj fs)) {read : Fields}
    (h : load room level (.file (Text.encodeChars (Json.obj fs).pretty)) = .ok read) :
    withDefaults level (Json.obj fs).stored = .ok read := by
  have hroomy := Json.parse_pretty hshort (Nat.le_max_right room.read _)
  have hparse := Json.parse_less_room (Text.ofChars (Json.obj fs).pretty)
    (Nat.le_max_left room.read (Json.obj fs).height)
  rw [hroomy] at hparse
  simp only [load, Text.decode?_encodeChars] at h
  rcases hparse with hparse | hparse
  · rw [hparse] at h
    cases h
  · rw [hparse] at h
    exact h

end Writing

section Loading

abbrev Lasting (s : Text) : Prop := s.joined = s

variable {entry : Entry}

theorem filled_nil (level : Text) : filled level [] [] = defaults level :=
  Table.set_of_get? (get?_defaults_diff level)

/-- A document read from bytes can be written again. -/
theorem each_kept_of_parse {bytes : List UInt8} {text : Text} {room : Nat} {v : Json}
    (htext : Text.decode? bytes = some text) (hv : Json.parse room text = .ok v) :
    Json.Each (Json.Kept Lasting) v := by
  have hplain : ∀ l ∈ text.letters, l.isHalf = false := by
    obtain ⟨cs, -, rfl⟩ := Option.map_eq_some_iff.mp htext
    intro l hl
    obtain ⟨c, -, rfl⟩ := List.mem_map.mp hl
    rfl
  exact (Json.parse_spec Json.givesTexts_joined hplain hv).1

/-- What the file gives: the fields of a document that can be written again, over the defaults. -/
theorem load_spec (h : load room level entry = .ok fs) :
    ∃ stored d, diffOptions? stored = some d ∧ fs = filled level stored d ∧
      Json.Each (Json.Kept Lasting) (.obj stored) := by
  have hdefaults : ∃ stored d, diffOptions? stored = some d ∧ defaults level = filled level stored d ∧
      Json.Each (Json.Kept Lasting) (.obj stored) :=
    ⟨[], [], rfl, (filled_nil level).symm, Json.each_obj.mpr ⟨.obj Table.distinct_nil nofun, nofun⟩⟩
  cases entry with
  | absent => cases h; exact hdefaults
  | directory => cases h; exact hdefaults
  | file bytes =>
    unfold load at h
    dsimp only at h
    split at h
    · cases h
    · next text htext =>
      split at h
      · next v hv =>
        have hkept := each_kept_of_parse htext hv
        cases v with
        | obj stored =>
          rw [withDefaults_obj] at h
          split at h
          · next d hd => cases h; exact ⟨stored, d, hd, rfl, hkept⟩
          · cases h
        | _ => cases h
      · cases h; exact hdefaults
      · cases h
      · cases h

theorem each_diffOptions {p : Json → Prop} (hempty : p (.obj [])) (h : Json.Each p (.obj stored))
    (hd : diffOptions? stored = some d) : Json.Each p (.obj d) := by
  unfold diffOptions? at hd
  split at hd
  · cases hd
    exact Json.each_obj.mpr ⟨hempty, nofun⟩
  · next hget => cases hd; exact h.get? hget
  · cases hd

theorem each_kept_diffOptions {text : Text → Prop} (h : Json.Each (Json.Kept text) (.obj stored))
    (hd : diffOptions? stored = some d) : Json.Each (Json.Kept text) (.obj d) :=
  each_diffOptions (.obj Table.distinct_nil nofun) h hd

theorem distinct_diffOptions (h : Json.Each Json.Keyed (.obj stored))
    (hd : diffOptions? stored = some d) : Table.Distinct d :=
  (each_diffOptions Table.distinct_nil h hd).here

theorem each_kept_defaults {text : Text → Prop} (htext : ∀ s : Text, s.isEncodable = true → text s)
    (hlevel : text level) : Json.Each (Json.Kept text) (.obj (defaults level)) := by
  have hplain : Json.Each (Json.Kept fun s => s.isEncodable = true) (.obj (defaults "INFO")) := by
    decide +kernel
  have hset := Json.each_kept_set (hplain.mono fun _ h => h.mono htext)
    (htext "log_level" (by decide +kernel)) (Json.each_kept_str hlevel)
  exact hset

theorem each_kept_filled {text : Text → Prop} (htext : ∀ s : Text, s.isEncodable = true → text s)
    (hlevel : text level) (hstored : Json.Each (Json.Kept text) (.obj stored))
    (hd : Json.Each (Json.Kept text) (.obj d)) :
    Json.Each (Json.Kept text) (.obj (filled level stored d)) := by
  have hplain : Json.Each (Json.Kept fun s => s.isEncodable = true) (.obj defaultDiffOptions) := by
    decide +kernel
  exact Json.each_kept_set (Json.each_kept_update (each_kept_defaults htext hlevel) hstored)
    (htext _ (by decide +kernel)) (Json.each_kept_update (hplain.mono fun _ h => h.mono htext) hd)

theorem lasting_of_isEncodable (s : Text) (h : s.isEncodable = true) : Lasting s :=
  Text.joined_eq_self h

end Loading

end Hunkwise.Settings
