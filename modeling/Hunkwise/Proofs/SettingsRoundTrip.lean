import Hunkwise.Proofs.SettingsHistory

/-! Saved settings read back. After a save, settings that start anew give what was remembered and what
was saved over it, over the defaults; and saving what was read changes nothing that is read later. -/

namespace Hunkwise.Settings

open Effect

variable {s : Settings} {fs stored d : Fields} {room : Room} {level : Text}

def resave : Change Unit := do save (.obj (← current))

def resaved : Nat → Settings → Settings
  | 0, s => s
  | n + 1, s => (resave (resaved n s)).2

/-- The level in the environment makes no difference where one is stored. -/
theorem filled_level (hstored : Table.Distinct stored) (h : ("log_level" : Text) ∈ stored.keys)
    (level level' : Text) : filled level stored d = filled level' stored d := by
  have hupdate : (defaults level).update stored = (defaults level').update stored := by
    refine Table.ext_get? ((distinct_defaults level).update stored) ?_ fun key => ?_
    · rw [Table.keys_update hstored, Table.keys_update hstored]
      rfl
    · rw [Table.get?_update hstored, Table.get?_update hstored]
      by_cases hkey : key = "log_level"
      · obtain ⟨v, hv⟩ := Option.isSome_iff_exists.mp (Table.isSome_get?.mpr h)
        rw [hkey, hv]
        rfl
      · congr 1
        have hset (level : Text) : defaults level = (defaults "INFO").set "log_level" (.str level) := rfl
        rw [hset level, hset level', Table.get?_set_of_ne hkey, Table.get?_set_of_ne hkey]
  rw [filled, filled, hupdate]

/-- Nothing is added to these settings when they are written and read, at this level. -/
structure Fixed (room : Room) (level : Text) (fs : Fields) : Prop where
  kept : Json.Each (Json.Kept Lasting) (.obj fs)
  height : (Json.obj fs).height ≤ room.handOut
  view : view level fs = fs
  diff : (diffOptions? fs).isSome = true

theorem fixed_filled (hstored : Json.Each (Json.Kept Lasting) (.obj stored))
    (hd : diffOptions? stored = some d) (hlevel : ("log_level" : Text) ∈ stored.keys)
    (hheight : (Json.obj stored).height ≤ room.handOut) :
    Fixed room level (filled level stored d) := by
  have hdiff := each_kept_diffOptions hstored hd
  have hkept : Json.Each (Json.Kept Lasting) (.obj (filled level stored d)) := by
    rw [filled_level hstored.here.keyed hlevel level "INFO"]
    exact each_kept_filled lasting_of_isEncodable (by decide +kernel) hstored hdiff
  obtain ⟨hagain, hfilled⟩ := filled_again hstored.here.keyed hdiff.here.keyed level level
  refine ⟨hkept, ?_, ?_, by rw [hagain]; rfl⟩
  · have := height_filled_le hd level
    have := room.five_le_handOut
    omega
  · rw [view, kept_eq_self hkept, hagain]
    exact hfilled

structure Holds (s : Settings) (fs : Fields) : Prop where
  takes : Takes s.disk
  entry : s.disk.entry = .file (Text.encodeChars (Json.obj fs).pretty)

theorem holds_written {s' : Settings} (h : Takes s.disk)
    (hdisk : s'.disk = (s.withFile (Json.obj fs).pretty).disk) : Holds s' fs where
  takes := hdisk ▸ h.withFile _
  entry := by rw [hdisk]; rfl

theorem Holds.disk_again (hs : Holds s fs) :
    (s.withFile (Json.obj fs).pretty).disk = s.disk := by
  show { s.disk with entry := .file (Text.encodeChars (Json.obj fs).pretty) } = s.disk
  rw [← hs.entry]

theorem resave_eq (hs : Holds s fs) (hread : (current s).1 = .ok stored)
    (hstored : Fixed s.room level stored) :
    resave s = (.ok (), { s with memory := some stored }.withFile (Json.obj stored).pretty) := by
  have hshort := hstored.kept.mono fun w hw => hw.short
  have hself : stored.update stored = stored := Table.update_self hstored.kept.here.keyed
  have hcurrent : current s = (.ok stored, { s with memory := some stored }) := by
    obtain ⟨hload, hheight⟩ := current_ok hread
    rw [current_of_load hload, if_neg (Nat.not_lt.mpr hheight)]
  have hremembered : { s with memory := some stored }.remembered = .ok stored := rfl
  have hsave := save_written (c := stored) hremembered hs.takes (by rw [hself]; exact hshort)
    (by rw [hself]; exact hstored.height.trans s.room.handOut_le_write)
  rw [hself] at hsave
  unfold resave
  rw [bind_ok hcurrent, hsave]

theorem current_fixed (hs : Holds s fs) (hfs : Fixed s.room s.level fs) : (current s).1 = .ok fs := by
  have hshort := hfs.kept.mono fun w hw => hw.short
  rw [current_written hs.entry hshort hfs.height (by rw [kept_eq_self hfs.kept]; exact hfs.diff),
    hfs.view]

/-- Reading and saving over and over: every save succeeds, every reading gives the same, and the file
stays as the first of these saves left it. -/
theorem resaved_fixed (hs : Holds s fs) (hread : (current s).1 = .ok stored)
    (hstored : Fixed s.room s.level stored) (n : Nat) :
    (resave (resaved n s)).1 = .ok () ∧ (current (resaved n s)).1 = .ok stored ∧
      (resaved (n + 1) s).disk = (resaved 1 s).disk := by
  -- from the first save on, the file holds what was read
  have hlater (n : Nat) : (resaved (n + 1) s).room = s.room ∧ (resaved (n + 1) s).level = s.level ∧
      Holds (resaved (n + 1) s) stored ∧
      (resaved (n + 1) s).disk = (resaved 1 s).disk ∧ (resave (resaved n s)).1 = .ok () := by
    induction n with
    | zero =>
      have hfirst := resave_eq hs hread hstored
      have hone : resaved 1 s = _ := congrArg Prod.snd hfirst
      refine ⟨?_, ?_, ?_, rfl, congrArg Prod.fst hfirst⟩ <;> rw [Nat.zero_add, hone]
      · rfl
      · rfl
      · exact holds_written hs.takes rfl
    | succ n ih =>
      obtain ⟨hroom, hlevel, hholds, hdisk, -⟩ := ih
      have hstored' : Fixed (resaved (n + 1) s).room (resaved (n + 1) s).level stored := by
        rw [hroom, hlevel]
        exact hstored
      have hagain := resave_eq hholds (current_fixed hholds hstored') hstored'
      rw [resaved, hagain]
      exact ⟨hroom, hlevel, holds_written hholds.takes rfl, (Holds.disk_again hholds).trans hdisk, rfl⟩
  refine ⟨(hlater n).2.2.2.2, ?_, (hlater n).2.2.2.1⟩
  cases n with
  | zero => exact hread
  | succ n =>
    obtain ⟨hroom, hlevel, hholds, -⟩ := hlater n
    refine current_fixed hholds ?_
    rw [hroom, hlevel]
    exact hstored

/-- What a save of `c` over `fs` leaves, where all of it can be kept and is not too high. -/
theorem each_kept_saved {fs c : Fields} (hfsTexts : (Json.obj fs).isEncodable = true)
    (hfsKeys : Json.Each Json.Keyed (.obj fs)) (hcTexts : (Json.obj c).isEncodable = true)
    (hcKeys : Json.Each Json.Keyed (.obj c))
    (hshort : Json.Each (fun w => w.isLong = false) (.obj (fs.update c))) :
    Json.Each (Json.Kept Lasting) (.obj (fs.update c)) := by
  have hfs := Json.each_texts_of_isEncodable hfsTexts
  have hc := Json.each_texts_of_isEncodable hcTexts
  have hkeys := Json.each_update hfsKeys hcKeys (Table.Distinct.update hfsKeys.here c)
  have htexts := Json.each_update hfs hc fun key hkey =>
    (Table.mem_keys_update.mp hkey).elim (hfs.here key) (hc.here key)
  refine ((hshort.and hkeys).and htexts).mono fun w hw => ?_
  exact Json.Kept.mono ⟨hw.1.1, hw.1.2, hw.2⟩ lasting_of_isEncodable

/-- After `c` was saved over what was remembered, settings that start anew give the defaults updated by
both; reading and saving over and over changes neither these nor, from the second time on, the file. -/
theorem saved_settings_read_back (disk : Disk) (room : Room) (level : Text) (ops : List Operation)
    {fs c d : Fields} {s' : Settings} (hmemory : (after ops { disk, room, level }).memory = some fs)
    (hfsTexts : (Json.obj fs).isEncodable = true) (hfsKeys : Json.Each Json.Keyed (.obj fs))
    (hcTexts : (Json.obj c).isEncodable = true) (hcKeys : Json.Each Json.Keyed (.obj c))
    (hdiff : (fs.update c).get? "diff_options" = some (.obj d))
    (hheight : (Json.obj (fs.update c)).height ≤ room.handOut)
    (hsave : save (.obj c) (after ops { disk, room, level }) = (.ok (), s')) :
    (current { s' with memory := none }).1 = .ok (((defaults level).update (fs.update c)).set
      "diff_options" (.obj (defaultDiffOptions.update d))) ∧
    ∀ memory n,
      (resave (resaved n { s' with memory })).1 = .ok () ∧
      (current (resaved n { s' with memory })).1 = (current { s' with memory := none }).1 ∧
      (resaved (n + 1) { s' with memory }).disk = (resaved 1 { s' with memory }).disk := by
  have hfollows := follows_after ops { disk, room, level }
  have hlevel : (after ops { disk, room, level }).level = level := hfollows.level
  have hroom : (after ops { disk, room, level }).room = room := hfollows.room
  obtain ⟨fs', hfs', htakes, hshort, -, hs'⟩ := save_inv hsave
  obtain rfl : fs = fs' := by
    rw [remembered, hmemory] at hfs'
    exact Except.ok.inj hfs'
  have hkept := each_kept_saved hfsTexts hfsKeys hcTexts hcKeys hshort
  have hd : diffOptions? (fs.update c) = some d := by rw [diffOptions?, hdiff]
  -- a level is remembered, since every default is
  have hstored : ("log_level" : Text) ∈ (fs.update c).keys := by
    refine Table.mem_keys_update.mpr (.inl (hfollows.hasDefaults (hasDefaults_of_none rfl) fs hmemory _ ?_))
    rw [hlevel]
    show ("log_level" : Text) ∈ (defaults "INFO").map Prod.fst
    decide +kernel
  have hfixed : Fixed room level (filled level (fs.update c) d) :=
    fixed_filled hkept hd hstored hheight
  have hview : view level (fs.update c) = filled level (fs.update c) d := by
    rw [view, kept_eq_self hkept, hd]
    rfl
  have hholds (memory : Option Fields) : Holds { s' with memory } (fs.update c) := by
    rw [hs']
    exact holds_written htakes rfl
  have hsame : s'.level = level := by rw [hs']; exact hlevel
  have hsameRoom : s'.room = room := by rw [hs']; exact hroom
  have hread (memory : Option Fields) :
      (current { s' with memory }).1 = .ok (filled level (fs.update c) d) := by
    rw [current_written (hholds memory).entry hshort (hsameRoom.symm ▸ hheight)
      (by rw [kept_eq_self hkept, hd]; rfl)]
    show Except.ok (view s'.level (fs.update c)) = _
    rw [hsame, hview]
  refine ⟨hread none, fun memory n => ?_⟩
  rw [hread none]
  have hfixed' : Fixed s'.room s'.level (filled level (fs.update c) d) := by
    rw [hsame, hsameRoom]
    exact hfixed
  exact resaved_fixed (hholds memory) (hread memory) hfixed' n

/-- One diff option is saved over settings that were read. -/
theorem saved_option_reads_back :
    ∃ s', save (.obj [("diff_options", .obj [("ctxlen", .int 3)])]) (after [.get] { level := "INFO" }) =
        (.ok (), s') ∧
      (current { s' with memory := none }).1 = .ok ((defaults "INFO").set "diff_options"
        (.obj (defaultDiffOptions.set "ctxlen" (.int 3)))) := by
  have hremembered : (after [.get] { level := "INFO" }).remembered = .ok (defaults "INFO") := rfl
  have hsave := save_written (c := [("diff_options", .obj [("ctxlen", .int 3)])]) hremembered
    ⟨rfl, rfl⟩ (by decide +kernel) (by decide +kernel)
  refine ⟨_, hsave, ?_⟩
  have hmemory : (after [.get] { level := "INFO" }).memory = some (defaults "INFO") := rfl
  have hread := saved_settings_read_back {} .usual "INFO" [.get]
    (c := [("diff_options", .obj [("ctxlen", .int 3)])]) (d := [("ctxlen", .int 3)]) hmemory
    (by decide +kernel) (by decide +kernel) (by decide +kernel) (by decide +kernel) rfl
    (by decide +kernel) hsave
  exact hread.1.trans rfl

def nested : Nat → Json
  | 0 => .arr []
  | n + 1 => .arr [nested n]

theorem height_nested (n : Nat) : (nested n).height = n + 1 := by
  induction n with
  | zero => rfl
  | succ n ih => simp [nested, Json.height, Json.itemsHeight, ih]

theorem each_kept_nested (n : Nat) :
    Json.Each (Json.Kept fun s => s.isEncodable = true) (nested n) := by
  induction n with
  | zero => exact Json.each_arr.mpr ⟨.arr [], nofun⟩
  | succ n ih => exact Json.each_arr.mpr ⟨.arr _, fun w hw => List.mem_singleton.mp hw ▸ ih⟩

theorem isEncodable_nested (n : Nat) : (nested n).isEncodable = true := by
  induction n with
  | zero => rfl
  | succ n ih =>
    simp only [Json.isEncodable] at ih ⊢
    simp [nested, Json.all, Json.allItems, ih]

/-- A value that can be read, but not handed out among the settings, stops every reading. -/
theorem current_tooDeep (hs : Holds s fs) (hkept : Json.Each (Json.Kept Lasting) (.obj fs))
    (hd : diffOptions? fs = some d) (hroom : (Json.obj fs).height ≤ s.room.read) {key : Text} {v : Json}
    (hkey : key ≠ "diff_options") (hv : fs.get? key = some v) (hhigh : s.room.handOut ≤ v.height) :
    (current s).1 = .error .tooDeep := by
  have hload : load s.room s.level s.disk.entry = .ok (filled s.level fs d) := by
    rw [hs.entry, load_written (hkept.mono fun w hw => hw.short) hroom, Json.stored_eq_self hkept,
      withDefaults_obj, hd]
  have hget : (filled s.level fs d).get? key = some v := by
    rw [get?_filled hkept.here.keyed hkey, hv]
    rfl
  have hlow := Json.fieldsHeight_le.mp (Nat.le_refl _) _ (Table.mem_of_get? hget)
  rw [current_of_load hload, if_pos]
  exact Nat.lt_succ_of_le (hhigh.trans hlow)

/-- Six hundred lists inside one another, without halves and with distinct keys, are saved over
settings of this kind; they are not read back. -/
theorem deep_settings_are_not_read_back :
    (after [.get] { level := "INFO" }).memory = some (defaults "INFO") ∧
      (Json.obj (defaults "INFO")).isEncodable = true ∧ Json.Each Json.Keyed (.obj (defaults "INFO")) ∧
      (Json.obj [("deep", nested 599)]).isEncodable = true ∧
      Json.Each Json.Keyed (.obj [("deep", nested 599)]) ∧
      Table.get? ((defaults "INFO").update [("deep", nested 599)]) "diff_options" =
        some (.obj defaultDiffOptions) ∧
      ∃ s', save (.obj [("deep", nested 599)]) (after [.get] { level := "INFO" }) = (.ok (), s') ∧
        (current { s' with memory := none }).1 = .error .tooDeep := by
  have hdeep : (Json.obj [("deep", nested 599)]).isEncodable = true := by
    have := isEncodable_nested 599
    simp only [Json.isEncodable] at this ⊢
    simp only [Json.all, Json.allFields, this]
    decide +kernel
  have hkeyed : Json.Each Json.Keyed (.obj [("deep", nested 599)]) :=
    Json.each_obj.mpr ⟨by decide +kernel, fun e he => List.mem_singleton.mp he ▸
      (each_kept_nested 599).mono fun w hw => hw.keyed⟩
  have hdefaults : Json.Each (Json.Kept fun s => s.isEncodable = true) (.obj (defaults "INFO")) := by
    decide +kernel
  have hkept : Json.Each (Json.Kept Lasting) (.obj ((defaults "INFO").update [("deep", nested 599)])) :=
    (Json.each_kept_set hdefaults (show ("deep" : Text).isEncodable = true by decide +kernel)
      (each_kept_nested 599)).mono fun w hw => hw.mono lasting_of_isEncodable
  have hheight : (Json.obj ((defaults "INFO").update [("deep", nested 599)])).height ≤ 985 := by
    refine height_update_le (by decide +kernel) ?_
    simp only [Json.height, Json.fieldsHeight, height_nested]
    decide
  refine ⟨rfl, by decide +kernel, by decide +kernel, hdeep, hkeyed, rfl, _,
    save_written (show remembered _ = .ok (defaults "INFO") from rfl) ⟨rfl, rfl⟩
      (hkept.mono fun w hw => hw.short) hheight, ?_⟩
  refine current_tooDeep (holds_written (s := { level := "INFO" }) ⟨rfl, rfl⟩ rfl) hkept rfl hheight
    (show ("deep" : Text) ≠ "diff_options" by decide +kernel) rfl ?_
  rw [height_nested]
  decide

end Hunkwise.Settings
