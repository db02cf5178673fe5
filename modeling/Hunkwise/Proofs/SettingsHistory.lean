import Hunkwise.Proofs.SettingsFile
import Mathlib.Order.Defs.Unbundled

/-! Histories of the settings. Operations read, save or start anew, and in between the file is changed
from outside. What is remembered is in step with the file after every operation that succeeds; a change
from outside and a save that fails put it out of step, and the next save then writes what is
remembered over the file. -/

namespace Hunkwise.Settings

open Effect

inductive Operation where
  | get
  | save (v : Json)
  | set (key : Text) (v : Json)
  | attachBase
  | formatters
  | setFormatter (name : Text) (definition : Json)
  | removeFormatter (name : Text)
  /-- Someone else puts something in the place of the file. -/
  | outside (disk : Disk)
  /-- Everything remembered is dropped. -/
  | renew

namespace Operation

def program : Operation → Change Unit
  | get => discard current
  | save v => Settings.save v
  | set key v => setKey key v
  | attachBase => discard Settings.attachBase
  | formatters => discard Settings.formatters
  | setFormatter name d => Settings.setFormatter name d
  | removeFormatter name => discard (Settings.removeFormatter name)
  | outside disk => modify fun s => { s with disk }
  | renew => modify fun s => { s with memory := none }

def run (o : Operation) (s : Settings) : Settings := (o.program s).2

/-- By the settings themselves, and without an error. -/
def Succeeds (o : Operation) (s : Settings) : Prop :=
  (∀ disk, o ≠ outside disk) ∧ (o.program s).1 = .ok ()

end Operation

def after (ops : List Operation) (s : Settings) : Settings := ops.foldl (fun s o => o.run s) s

theorem after_append (ops ops' : List Operation) (s : Settings) :
    after (ops ++ ops') s = after ops' (after ops s) := List.foldl_append

section Filled

def HasDefaults (s : Settings) : Prop :=
  ∀ fs, s.memory = some fs → ∀ key ∈ (defaults s.level).keys, key ∈ fs.keys

theorem hasDefaults_of_none (h : s.memory = none) : HasDefaults s := by
  intro fs hfs
  rw [h] at hfs
  cases hfs

structure Follows (s s' : Settings) : Prop where
  room : s'.room = s.room
  level : s'.level = s.level
  hasDefaults : HasDefaults s → HasDefaults s'

instance : IsPreorder Settings Follows where
  refl _ := ⟨rfl, rfl, id⟩
  trans _ _ _ h h' :=
    ⟨h'.room.trans h.room, h'.level.trans h.level, h'.hasDefaults ∘ h.hasDefaults⟩

variable {s s' : Settings} {fs : Fields}

theorem mem_keys_of_load {room : Room} {level : Text} {entry : Entry}
    (h : load room level entry = .ok fs) :
    ∀ key ∈ (defaults level).keys, key ∈ fs.keys := by
  obtain ⟨stored, d, -, rfl, -⟩ := load_spec h
  intro key hkey
  rw [keys_filled]
  exact Table.mem_keys_update.mpr (.inl hkey)

theorem follows_reload : Leads Follows reload := by
  intro s
  cases hload : load s.room s.level s.disk.entry with
  | error f => rw [reload_of_fault hload]; exact refl_of Follows s
  | ok fs =>
    rw [reload_of_load hload]
    exact ⟨rfl, rfl, fun _ fs' hfs' => by cases hfs'; exact mem_keys_of_load hload⟩

theorem follows_start : Leads Follows start := by
  refine leads_get.bind fun s => ?_
  split
  · exact follows_reload.discard
  · exact leads_pure _

theorem follows_current : Leads Follows current := by
  refine follows_start.bind fun _ => follows_reload.bind fun fs => leads_get.bind fun s => ?_
  split
  · exact leads_throw _
  · exact leads_pure _

theorem follows_write : Leads Follows write := by
  intro s
  unfold write
  split
  · exact refl_of Follows s
  · split
    · exact refl_of Follows s
    · dsimp only
      split <;> exact ⟨rfl, rfl, id⟩

theorem follows_remembered (h : s.remembered = .ok fs) : Follows s { s with memory := some fs } := by
  refine ⟨rfl, rfl, fun hs fs' hfs' => ?_⟩
  cases hfs'
  unfold remembered at h
  split at h
  · next hmemory => cases h; exact hs _ hmemory
  · exact mem_keys_of_load h

theorem follows_update (s : Settings) (fs upper : Fields) :
    Follows { s with memory := some fs } { s with memory := some (fs.update upper) } := by
  refine ⟨rfl, rfl, fun hs fs' hfs' key hkey => ?_⟩
  cases hfs'
  exact Table.mem_keys_update.mpr (.inl (hs fs rfl key hkey))

theorem follows_save (v : Json) : Leads Follows (save v) := by
  intro s
  cases hs : s.remembered with
  | error f => rw [save_error hs]; exact refl_of Follows s
  | ok fs =>
    have hupdate := trans_of Follows (follows_remembered hs) (follows_update s fs (entries v).1)
    rw [save_eq hs]
    split
    · exact hupdate
    · exact trans_of Follows hupdate (follows_write _)

theorem follows_setKey (key : Text) (v : Json) : Leads Follows (setKey key v) :=
  follows_save (.obj [(key, v)])

theorem follows_formatters : Leads Follows formatters := follows_current.bind fun _ => leads_pure _

theorem follows_setFormatter (name : Text) (d : Json) : Leads Follows (setFormatter name d) := by
  refine follows_formatters.bind fun v => ?_
  split
  · exact follows_setKey _ _
  · exact leads_throw _

theorem follows_removeFormatter (name : Text) : Leads Follows (removeFormatter name) := by
  refine follows_formatters.bind fun v => ?_
  split
  · split
    · exact leads_pure _
    · exact leads_pure _
    · exact (follows_setKey _ _).bind fun _ => leads_pure _
  · exact leads_throw _
  · exact leads_throw _

theorem follows_program (o : Operation) : Leads Follows o.program := by
  cases o with
  | get => exact follows_current.discard
  | save v => exact follows_save v
  | set key v => exact follows_setKey key v
  | attachBase => exact (follows_current.bind fun _ => leads_pure _).discard
  | formatters => exact follows_formatters.discard
  | setFormatter name d => exact follows_setFormatter name d
  | removeFormatter name => exact (follows_removeFormatter name).discard
  | outside disk => exact fun s => ⟨rfl, rfl, id⟩
  | renew => exact fun s => ⟨rfl, rfl, fun _ => nofun⟩

theorem follows_after (ops : List Operation) (s : Settings) : Follows s (after ops s) := by
  induction ops generalizing s with
  | nil => exact refl_of Follows s
  | cons o ops ih => exact trans_of Follows (follows_program o s) (ih (o.run s))

end Filled

section View

variable {s s' : Settings} {fs c : Fields} {room : Room} {level key : Text}

/-- What a file keeps of some fields. -/
def kept (fs : Fields) : Fields := Table.update [] (Json.storedFields fs)

theorem stored_obj (fs : Fields) : (Json.obj fs).stored = .obj (kept fs) := rfl

/-- The settings that would be read if some fields were written. -/
def view (level : Text) (fs : Fields) : Fields :=
  filled level (kept fs) ((diffOptions? (kept fs)).getD [])

theorem load_written_view (hshort : Json.Each (fun w => w.isLong = false) (.obj fs)) {read : Fields}
    (h : load room level (.file (Text.encodeChars (Json.obj fs).pretty)) = .ok read) :
    read = view level fs := by
  have hread := load_written_inv hshort h
  rw [stored_obj, withDefaults_obj] at hread
  rw [view]
  split at hread
  · next d hd => cases hread; rw [hd]; rfl
  · cases hread

theorem height_kept_le (fs : Fields) : (Json.obj (kept fs)).height ≤ (Json.obj fs).height :=
  Json.height_stored_le (.obj fs)

/-- A file that was written is read, if it is not too high and its diff options are such. -/
theorem current_written (hentry : s.disk.entry = .file (Text.encodeChars (Json.obj fs).pretty))
    (hshort : Json.Each (fun w => w.isLong = false) (.obj fs))
    (hheight : (Json.obj fs).height ≤ s.room.handOut) (hdiff : (diffOptions? (kept fs)).isSome = true) :
    (current s).1 = .ok (view s.level fs) := by
  obtain ⟨d, hd⟩ := Option.isSome_iff_exists.mp hdiff
  have hview : view s.level fs = filled s.level (kept fs) d := by rw [view, hd]; rfl
  have hload : load s.room s.level s.disk.entry = .ok (view s.level fs) := by
    rw [hentry, load_written hshort (hheight.trans s.room.handOut_le_read), stored_obj, withDefaults_obj, hd,
      hview]
  have hlow : (Json.obj (view s.level fs)).height ≤ s.room.handOut := by
    rw [hview]
    have hfilled := height_filled_le hd s.level
    have hkept := height_kept_le fs
    have := s.room.five_le_handOut
    omega
  rw [current_of_load hload, if_neg (Nat.not_lt.mpr hlow)]

theorem kept_eq_self (h : Json.Each (Json.Kept Lasting) (.obj fs)) : kept fs = fs :=
  Json.obj.inj ((stored_obj fs).symm.trans (Json.stored_eq_self h))

theorem view_of_load (hlevel : Lasting level) {entry : Entry} (h : load room level entry = .ok fs) :
    view level fs = fs := by
  obtain ⟨stored, d, hd, rfl, hstored⟩ := load_spec h
  have hdiff := each_kept_diffOptions hstored hd
  have hkept := kept_eq_self (each_kept_filled lasting_of_isEncodable hlevel hstored hdiff)
  obtain ⟨hagain, hfilled⟩ := filled_again hstored.here.keyed hdiff.here.keyed level level
  rw [view, hkept, hagain]
  exact hfilled

theorem get?_kept_update (hkey : ∀ k ∈ c.keys, k.joined ≠ key) (fs : Fields) :
    (kept (fs.update c)).get? key = (kept fs).get? key := by
  have hfilter (t : Fields) : (Json.storedFields t).filter (fun e => e.1 = key) =
      (t.filter fun e => decide (e.1.joined = key)).map fun e => (e.1.joined, e.2.stored) := by
    rw [Json.storedFields_eq, List.filter_map]
    rfl
  rw [kept, kept, Table.get?_update_nil, Table.get?_update_nil, hfilter, hfilter,
    Table.filter_update (p := fun k => decide (k.joined = key))
      fun k hk => decide_eq_false (hkey k hk)]

/-- A key that nothing new is stored under shows what it showed. -/
theorem get?_view_update (hkey : ∀ k ∈ c.keys, k.joined ≠ key) :
    (view level (fs.update c)).get? key = (view level fs).get? key := by
  have hkept := get?_kept_update hkey fs
  by_cases hdiff : key = "diff_options"
  · subst hdiff
    rw [view, view, get?_filled_diff, get?_filled_diff, diffOptions?, hkept]
    rfl
  · have hdistinct (t : Fields) : Table.Distinct (kept t) := Table.distinct_nil.update _
    rw [view, view, get?_filled (hdistinct _) hdiff, get?_filled (hdistinct _) hdiff, hkept]

end View

section InStep

variable {s s' : Settings} {fs : Fields} {α β : Type} {x : Change α} {f : α → Change β}

/-- What is remembered shows what the file gives, if that gives anything. -/
def InStep (s : Settings) : Prop :=
  ∀ fs read, s.remembered = .ok fs → load s.room s.level s.disk.entry = .ok read →
    read = view s.level fs

def Keeps (x : Change α) : Prop :=
  ∀ s s' a, Lasting s.level → InStep s → x s = (.ok a, s') → InStep s' ∧ Lasting s'.level

/-- A run with a result brings in step whatever was remembered before. -/
def Settles (x : Change α) : Prop :=
  ∀ s s' a, Lasting s.level → x s = (.ok a, s') → InStep s' ∧ Lasting s'.level

theorem keeps_pure (a : α) : Keeps (pure a : Change α) := by
  intro s s' a' hlevel hs h
  cases h
  exact ⟨hs, hlevel⟩

theorem keeps_throw (e : Failure) : Keeps (throw e : Change α) := by
  intro s s' a hlevel hs h
  cases h

theorem Settles.keeps (hx : Settles x) : Keeps x := fun s s' a hlevel _ h => hx s s' a hlevel h

theorem Settles.bind (hx : Settles x) (hf : ∀ a, Keeps (f a)) : Settles (x >>= f) := by
  intro s s' b hlevel h
  obtain ⟨a, t, hxs, hft⟩ := bind_inv h
  obtain ⟨hstep, hlevel⟩ := hx s t a hlevel hxs
  exact hf a t s' b hlevel hstep hft

theorem Settles.discard (hx : Settles x) : Settles (discard x) := by
  rw [discard_eq]
  exact hx.bind fun _ => keeps_pure ()

theorem settles_current : Settles current := by
  intro s s' fs hlevel h
  obtain ⟨hload, -⟩ := current_ok (congrArg Prod.fst h)
  rw [current_of_load hload] at h
  obtain rfl := (congrArg Prod.snd h).symm
  refine ⟨fun fs' read hfs' hread => ?_, hlevel⟩
  cases hfs'
  cases hload.symm.trans hread
  exact (view_of_load hlevel hload).symm

theorem settles_save (v : Json) : Settles (save v) := by
  intro s s' a hlevel h
  obtain ⟨fs, -, -, hshort, -, rfl⟩ := save_inv h
  refine ⟨fun fs' read hfs' hread => ?_, hlevel⟩
  cases hfs'
  exact load_written_view hshort hread

theorem settles_formatters : Settles formatters := settles_current.bind fun _ => keeps_pure _

theorem settles_setKey (key : Text) (v : Json) : Settles (setKey key v) :=
  settles_save (.obj [(key, v)])

theorem settles_setFormatter (name : Text) (d : Json) : Settles (setFormatter name d) := by
  refine settles_formatters.bind fun v => ?_
  split
  · exact (settles_setKey _ _).keeps
  · exact keeps_throw _

theorem settles_removeFormatter (name : Text) : Settles (removeFormatter name) := by
  refine settles_formatters.bind fun v => ?_
  split
  · split
    · exact keeps_pure _
    · exact keeps_pure _
    · exact ((settles_setKey _ _).bind fun _ => keeps_pure _).keeps
  · exact keeps_throw _
  · exact keeps_throw _

/-- Every operation that succeeds brings what is remembered in step with the file. -/
theorem Operation.Succeeds.inStep {o : Operation} (h : o.Succeeds s) (hlevel : Lasting s.level) :
    InStep (o.run s) := by
  have hrun : o.program s = (.ok (), o.run s) := Prod.ext h.2 rfl
  have hsettles {x : Change Unit} (hx : Settles x) (ho : o.program = x) : InStep (o.run s) :=
    (hx _ _ _ hlevel (ho ▸ hrun)).1
  cases o with
  | get => exact hsettles settles_current.discard rfl
  | save v => exact hsettles (settles_save v) rfl
  | set key v => exact hsettles (settles_setKey key v) rfl
  | attachBase => exact hsettles (settles_current.bind fun _ => keeps_pure _).discard rfl
  | formatters => exact hsettles settles_formatters.discard rfl
  | setFormatter name d => exact hsettles (settles_setFormatter name d) rfl
  | removeFormatter name => exact hsettles (settles_removeFormatter name).discard rfl
  | outside disk => exact absurd rfl (h.1 disk)
  | renew =>
    intro fs read hfs hread
    cases (show load s.room s.level s.disk.entry = .ok fs from hfs).symm.trans hread
    exact (view_of_load hlevel hread).symm

/-- A save changes only what it is given exactly if for everything else what is remembered shows what
the file gives. It does right after an operation that succeeded. -/
theorem saving_keeps_others_iff {level : Text} (hlevel : Lasting level) (disk : Disk) (room : Room)
    (ops : List Operation) {c read : Fields} {s' : Settings}
    (hsave : save (.obj c) (after ops { disk, room, level }) = (.ok (), s'))
    (hread : (current (after ops { disk, room, level })).1 = .ok read) :
    ∃ fs, (after ops { disk, room, level }).remembered = .ok fs ∧
      (∀ next, (current s').1 = .ok next → next = view level (fs.update c)) ∧
      ((Json.obj (fs.update c)).height ≤ room.handOut →
        (diffOptions? (kept (fs.update c))).isSome = true →
        (current s').1 = .ok (view level (fs.update c))) ∧
      ((∀ key, (∀ k ∈ c.keys, k.joined ≠ key) →
          (view level (fs.update c)).get? key = read.get? key) ↔
        ∀ key, (∀ k ∈ c.keys, k.joined ≠ key) → (view level fs).get? key = read.get? key) ∧
      ∀ before o, ops = before ++ [o] → o.Succeeds (after before { disk, room, level }) →
        ∀ key, (∀ k ∈ c.keys, k.joined ≠ key) →
          (view level (fs.update c)).get? key = read.get? key := by
  have hsame : (after ops { disk, room, level }).level = level := (follows_after ops _).level
  have hroom : (after ops { disk, room, level }).room = room := (follows_after ops _).room
  obtain ⟨fs, hfs, -, hshort, -, rfl⟩ := save_inv hsave
  refine ⟨fs, hfs, fun next hnext => ?_, fun hheight hdiff => ?_, ?_, fun before o hops ho key hkey => ?_⟩
  · have hview := load_written_view hshort (current_ok hnext).1
    rw [hview]
    exact congrArg (view · (fs.update c)) hsame
  · have hwritten := current_written (s := { after ops { disk, room, level } with
      memory := some (fs.update c) }.withFile (Json.obj (fs.update c)).pretty) rfl hshort (hroom.symm ▸ hheight) hdiff
    exact hwritten.trans (congrArg (fun level => Except.ok (view level (fs.update c))) hsame)
  · exact forall₂_congr fun key hkey => by rw [get?_view_update hkey]
  · have hbefore : (after before { disk, room, level }).level = level := (follows_after before _).level
    have hstep : InStep (after ops { disk, room, level }) := by
      rw [hops, after_append]
      exact ho.inStep (by rw [hbefore]; exact hlevel)
    have hinstep := hstep fs read hfs (current_ok hread).1
    rw [hsame] at hinstep
    rw [get?_view_update hkey, hinstep]

/-- The settings were read, and then one of them is saved. -/
theorem saving_keeps_others_after_get :
    ∃ s', save (.obj [("vcs", .str "hg")]) (after [.get] { level := "INFO" }) = (.ok (), s') ∧
      ∀ key : Text, key ≠ "vcs" → (view "INFO" ((defaults "INFO").update [("vcs", .str "hg")])).get? key =
        (defaults "INFO").get? key := by
  have hget : after [.get] { level := "INFO" } =
      { level := "INFO", memory := some (defaults "INFO") } := rfl
  have hremembered : (after [.get] { level := "INFO" }).remembered = .ok (defaults "INFO") := rfl
  have hsave := save_written (c := [("vcs", .str "hg")]) hremembered ⟨rfl, rfl⟩
    (by decide +kernel) (by decide +kernel)
  refine ⟨_, hsave, fun key hkey => ?_⟩
  have hread : (current (after [.get] { level := "INFO" })).1 = .ok (defaults "INFO") := rfl
  obtain ⟨fs, hfs, -, -, -, hlast⟩ := saving_keeps_others_iff (by decide +kernel) {} .usual [.get] hsave hread
  rw [hget] at hfs
  cases hfs
  refine hlast [] .get rfl ⟨nofun, rfl⟩ key fun k hk => ?_
  rw [List.mem_singleton.mp hk]
  exact fun h => hkey (h.symm.trans (Text.joined_eq_self (by decide +kernel)))

/-- The backend is changed in the file from outside, or in a save that fails; then another setting is
saved. The change from outside is lost, and the one that was not saved comes back. -/
theorem saving_loses_outside_change_and_revives_failed_save :
    (∃ read next s',
      (current (after [.get, .outside
        { entry := .file (Text.encodeChars (Json.obj [("vcs", .str "hg")]).pretty) }]
        { level := "INFO" })).1 = .ok read ∧
      save (.obj [("format_on_save", .bool true)]) (after [.get, .outside
        { entry := .file (Text.encodeChars (Json.obj [("vcs", .str "hg")]).pretty) }]
        { level := "INFO" }) = (.ok (), s') ∧
      (current s').1 = .ok next ∧
      read.get? "vcs" = some (.str "hg") ∧ next.get? "vcs" = some (.str "git")) ∧
    ∃ read next s',
      (current (after [.get, .outside { entry := .directory }, .set "vcs" (.str "hg"), .outside {}]
        { level := "INFO" })).1 = .ok read ∧
      save (.obj [("format_on_save", .bool true)]) (after [.get, .outside { entry := .directory },
        .set "vcs" (.str "hg"), .outside {}] { level := "INFO" }) = (.ok (), s') ∧
      (current s').1 = .ok next ∧
      read.get? "vcs" = some (.str "git") ∧ next.get? "vcs" = some (.str "hg") := by
  constructor
  · refine ⟨_, _, _, current_written rfl (by decide +kernel) (by decide +kernel) (by decide +kernel),
      save_written (show remembered _ = .ok (defaults "INFO") from rfl) ⟨rfl, rfl⟩
        (by decide +kernel) (by decide +kernel),
      current_written rfl (by decide +kernel) (by decide +kernel) (by decide +kernel), rfl, rfl⟩
  · refine ⟨defaults "INFO", _, _, rfl,
      save_written (show remembered _ = .ok ((defaults "INFO").update [("vcs", .str "hg")]) from rfl)
        ⟨rfl, rfl⟩ (by decide +kernel) (by decide +kernel),
      current_written rfl (by decide +kernel) (by decide +kernel) (by decide +kernel), rfl, rfl⟩

end InStep

end Hunkwise.Settings
