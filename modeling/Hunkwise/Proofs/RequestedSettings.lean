import Hunkwise.Proofs.AttachmentLayers
import Hunkwise.Proofs.FormattingAgain
import Hunkwise.Proofs.ChangeRequests
import Hunkwise.Proofs.UsableSettings

/-! Settings under requests. Three endpoints write the settings file, and each of them lets in only what
can be used later on; all others leave the file alone. So after any requests the settings can be read, a
formatter is there exactly if a definition was accepted for it and not taken away, and attaching a client
without a configuration of its own can only fail for what it asks for. -/

namespace Hunkwise

open Effect

section Names

theorem Text.mem_of_mem_cut {α : Type} [DecidableEq α] {sep a : α} {cs l : List α} (h : l ∈ cut sep cs)
    (ha : a ∈ l) : a ∈ cs := by
  induction cs generalizing l with
  | nil =>
    rw [List.mem_singleton.mp h] at ha
    exact ha
  | cons c cs ih =>
    by_cases hc : c = sep
    · rw [cut, if_pos hc] at h
      rcases List.mem_cons.mp h with rfl | h
      · cases ha
      · exact List.mem_cons_of_mem _ (ih h ha)
    · obtain ⟨m, ms, hm, hcut⟩ := cut_cons_of_ne hc cs
      rw [hcut] at h
      rcases List.mem_cons.mp h with rfl | h
      · rcases List.mem_cons.mp ha with rfl | ha
        · exact List.mem_cons_self
        · exact List.mem_cons_of_mem _ (ih (hm ▸ List.mem_cons_self) ha)
      · exact List.mem_cons_of_mem _ (ih (hm ▸ List.mem_cons_of_mem _ h) ha)

theorem Text.isEncodable_of_mem_splitAt {sep : Char} {s part : Text} (h : s.isEncodable = true)
    (hpart : part ∈ s.splitAt sep) : part.isEncodable = true := by
  obtain ⟨l, hl, rfl⟩ := List.mem_map.mp hpart
  unfold isEncodable at h ⊢
  rw [List.all_eq_true] at h ⊢
  exact fun a ha => h a (mem_of_mem_cut hl ha)

namespace Service

variable {path method name : Text} {e : Endpoint}

def Endpoint.name? : Endpoint → Option Text
  | .openBuffer id => some id
  | .showBuffer id => some id
  | .closeBuffer id => some id
  | .putFormatter name => some name
  | .removeFormatter name => some name
  | _ => none

theorem isEncodable_of_endpointsAt (hpath : path.isEncodable = true)
    (he : (method, e) ∈ endpointsAt path) (hname : e.name? = some name) : name.isEncodable = true := by
  unfold endpointsAt at he
  split at he
  · next es hes =>
    have hfixed : ∀ p ∈ fixedEndpoints, ∀ q ∈ p.2, q.2.name? = none := by decide
    rw [hfixed _ (Table.mem_of_get? hes) _ he] at hname
    cases hname
  · split at he
    · next last parents hparts =>
      have hlast : last ∈ Text.splitAt '/' path :=
        List.mem_reverse.mp (hparts ▸ List.mem_cons_self)
      split at he
      · cases he
      · cases hes : (namedEndpoints last).get? (Text.intercalate "/" parents.reverse) with
        | none =>
          rw [hes] at he
          cases he
        | some es =>
          rw [hes] at he
          have hnamed : ∀ p ∈ namedEndpoints last, ∀ q ∈ p.2, q.2.name? = some last := by
            simp only [namedEndpoints, List.forall_mem_cons]
            exact ⟨⟨rfl, rfl, rfl, List.forall_mem_nil _⟩, ⟨rfl, rfl, List.forall_mem_nil _⟩,
              List.forall_mem_nil _⟩
          rw [hnamed _ (Table.mem_of_get? hes) _ he] at hname
          cases hname
          exact Text.isEncodable_of_mem_splitAt hpath hlast
    · cases he

/-- A name from a path can be encoded, as the path can. -/
theorem isEncodable_of_endpoint {r : HttpRequest} (hpath : r.path.isEncodable = true)
    (he : r.endpoint? = some e) (hname : e.name? = some name) : name.isEncodable = true := by
  have hmem := Table.mem_of_get? he
  unfold endpoints at hmem
  split at hmem
  · exact isEncodable_of_endpointsAt (Text.isEncodable_chomp hpath) hmem hname
  · exact isEncodable_of_endpointsAt hpath hmem hname

end Service

end Names

namespace Service

variable {host : Host} {fuel : Nat} {r : HttpRequest} {s s' : Service}

section Quiet

/-- No buffer is opened, and of the settings only what is remembered changes. -/
structure Quiet (s s' : Service) : Prop where
  buffers : ∀ id, (s'.buffers.get? id).isSome = true → (s.buffers.get? id).isSome = true
  settings : s.settings.SameSource s'.settings

instance : IsPreorder Service Quiet where
  refl _ := ⟨fun _ h => h, rfl, rfl, rfl⟩
  trans _ _ _ h h' := ⟨fun id hid => h.buffers id (h'.buffers id hid),
    trans_of Settings.SameSource h.settings h'.settings⟩

theorem quiet_settings {α : Type} {act : Settings.Change α} (h : Leads Settings.SameSource act) :
    Leads Quiet (Handler.settings act) := by
  intro s
  have hsame := h s.settings
  unfold Handler.settings
  split
  · next hact => rw [hact] at hsame; exact ⟨fun _ hid => hid, hsame⟩
  · next hact => rw [hact] at hsame; exact ⟨fun _ hid => hid, hsame⟩

theorem quiet_attachBase : Leads Settings.SameSource Settings.attachBase :=
  Settings.leads_current.bind fun _ => leads_pure _

theorem quiet_formatterTable : Leads Settings.SameSource Settings.formatterTable := by
  refine (Settings.leads_current.bind fun _ => leads_pure _).bind fun v => ?_
  split
  · exact leads_pure _
  · exact leads_throw _

theorem quiet_closeBuffer (id : Text) : Leads Quiet (closeBuffer id) := by
  intro s
  cases h : s.buffers.get? id with
  | none =>
    rw [closeBuffer_none h]
    exact refl_of Quiet s
  | some b =>
    rw [closeBuffer_some h]
    refine ⟨fun id' hid' => ?_, rfl, rfl, rfl⟩
    by_cases hid : id' = id
    · rw [hid, h]
      rfl
    · rwa [Store.close, Table.get?_without_of_ne hid] at hid'

theorem quiet_attach (q : AttachRequest) : Leads Quiet (attach q) := by
  unfold attach
  refine (leads_buffer q.buffer).discard.bind fun _ => ?_
  refine (quiet_settings Settings.leads_current).bind fun fs => ?_
  refine (leads_buildClient fs q.client).bind fun client => ?_
  refine (quiet_settings quiet_attachBase).bind fun base => ?_
  refine leads_get.bind fun t => ?_
  cases t.attachments.attach q.buffer client base (q.config.getD []) with
  | ok made => exact fun s => ⟨fun _ hid => hid, rfl, rfl, rfl⟩
  | error f => cases f <;> exact leads_throw _

theorem quiet_format (trigger : Trigger) (q : FormatBuffer) :
    Leads Quiet (format host fuel trigger q) := by
  intro s
  rcases format_state host fuel trigger q s with
    ⟨settings, hsame, h⟩ | ⟨before, settings, fs, hb, hsame, h⟩
  · rw [h]
    exact ⟨fun _ hid => hid, hsame⟩
  · rw [h]
    refine ⟨fun id hid => ?_, hsame⟩
    by_cases hq : id = q.buffer
    · rw [hq, hb]
      rfl
    · exact Table.get?_set_of_ne hq s.buffers _ ▸ hid

end Quiet

section Bodies

theorem short_of_update {u : SettingsUpdate} {upper : Fields}
    (h : r.body.check? SettingsUpdate.check = some (.good u)) (hdiff : u.diff = some upper) :
    Json.Each (fun w => w.isLong = false) (.obj upper) := by
  obtain ⟨fs, hgood, hkept⟩ := Body.check?_good Json.givesTexts_any (fun _ _ _ _ => trivial) h
  exact ((SettingsUpdate.asked_of_check hgood).kept_diff hkept hdiff).mono fun w hw => hw.short

end Bodies

section Changes

open Settings

variable {given : Given} {fs fs' : Fields} {u : SettingsUpdate}

structure Changed (given : Given) (fs fs' : Fields) : Prop where
  usable : Usable given fs'
  keys : fs'.keys = fs.keys

theorem Changed.set (h : Changed given fs fs') {key : Text} {v : Json} (hv : Fits given key v)
    (hkey : key ∈ (defaults "").keys) : Changed given fs (fs'.set key v) where
  usable := h.usable.set hv
  keys := by rw [Table.keys_set_of_mem (h.usable.complete "" key hkey), h.keys]

theorem fits_edits {lower : Fields} (hu : u.Acceptable lower) (hlower : Table.Distinct lower)
    (hlowerShort : Json.Each (fun w => w.isLong = false) (.obj lower))
    (hshort : ∀ d, u.diff = some d → Json.Each (fun w => w.isLong = false) (.obj d)) :
    ∀ key v, (key, some v) ∈ u.edits lower → Fits given key v := by
  intro key v hmem
  refine SettingsUpdate.edits_cases ?_ (fun b _ => fits_onSave b) (fun name hname => ?_) ?_ hmem
  · intro d hd
    obtain ⟨o, ho⟩ := hu.diff d hd
    exact fits_diff (hlower.update d) ho (Json.each_update hlowerShort (hshort d hd) rfl)
  · exact fits_vcs (hu.vcs name hname)
  · intro t _
    apply fits_other (by decide +kernel) _ _ (by decide +kernel)
    · cases t <;> exact Json.each_scalar rfl rfl
    · cases t <;> exact Nat.le_add_left 1 3

theorem changeSettings_serves (h : s.settings.Serves given)
    (hshort : ∀ d, u.diff = some d → Json.Each (fun w => w.isLong = false) (.obj d)) :
    ∃ settings, (changeSettings u s).2 = { s with settings } ∧ settings.Serves given := by
  obtain ⟨fs, settings, hcurrent, hfs, -, hmemory, hread⟩ := h.current
  obtain ⟨lower, _, hget, hlower, -⟩ := hfs.diff
  rcases changeSettings_cases hcurrent hget u with ⟨hu, hrun⟩ | ⟨-, n, -, hrun⟩
  · have hedits : ∀ key v, (key, some v) ∈ u.edits lower → Fits given key v :=
      fits_edits hu hlower (hfs.fits _ _ hget).short hshort
    obtain ⟨hlast, hkeys⟩ : Changed given fs (edit fs (u.edits lower)) :=
      edit_induction ⟨hfs, rfl⟩ fun key v hmem fs' h' =>
        h'.set (hedits key v hmem) (SettingsUpdate.mem_defaults hmem)
    have hupdate := Table.update_of_keys_prefix hlast.distinct (show fs.keys <+: _ by rw [hkeys])
    obtain ⟨settings', hsave, hserves⟩ := hread.save hmemory (hupdate.symm ▸ hlast)
    rw [hrun]
    exact ⟨settings', congrArg Prod.snd (bind_ok (Handler.settings_ok hsave) _), hserves⟩
  · rw [hrun]
    exact ⟨settings, rfl, hread⟩

end Changes

section Definitions

open Settings

variable {given : Given} {n : NoAnswer}

/-- The definitions that are given once a request is answered: one that was accepted counts from then
on, and one that was removed no more. -/
def hear (given : Given) (r : HttpRequest) : HttpAnswer → Given
  | .answered 200 _ =>
    match r.endpoint?, r.body.check? Definition.check with
    | some (.putFormatter name), some (.good d) => Function.update given name (some d)
    | some (.removeFormatter name), _ => Function.update given name none
    | _, _ => given
  | _ => given

def givenAfter (host : Host) (fuel : Nat) : Service → Given → List HttpRequest → Given
  | _, given, [] => given
  | s, given, r :: rs =>
    givenAfter host fuel (answer host fuel r s).2 (hear given r (answer host fuel r s).1) rs

/-- A refusal is answered, if at all, with its own status. -/
theorem decline_status {status status' : Nat} {d v : Json}
    (h : decline (.refused status d) = .answered status' v) : status' = status := by
  simp only [decline, refuse] at h
  split_ifs at h
  cases h
  rfl

theorem decline_ne_accepted (hn : ∀ d, n ≠ .refused 200 d) (v : Json) : decline n ≠ .answered 200 v := by
  intro h
  cases n with
  | refused status d => exact hn d (decline_status h ▸ rfl)
  | rejected ps =>
    simp only [decline, refuse] at h
    split_ifs at h
    cases h
  | crashed why => cases h

theorem hear_declined (hn : ∀ d, n ≠ .refused 200 d) : hear given r (decline n) = given := by
  unfold hear
  split
  · next h => exact absurd h (decline_ne_accepted hn _)
  · rfl

theorem hear_other {a : HttpAnswer} (hput : ∀ name, r.endpoint? ≠ some (.putFormatter name))
    (hremove : ∀ name, r.endpoint? ≠ some (.removeFormatter name)) : hear given r a = given := by
  unfold hear
  split
  · split
    · next h _ => exact absurd h (hput _)
    · next h => exact absurd h (hremove _)
    · rfl
  · rfl

theorem hear_cases (given : Given) (r : HttpRequest) (a : HttpAnswer) :
    hear given r a = given ∨
      (∃ name d, r.body.check? Definition.check = some (.good d) ∧
        hear given r a = Function.update given name (some d)) ∨
      ∃ name, hear given r a = Function.update given name none := by
  unfold hear
  split
  · split
    · next hd => exact .inr (.inl ⟨_, _, hd, rfl⟩)
    · exact .inr (.inr ⟨_, rfl⟩)
    · exact .inl rfl
  · exact .inl rfl

theorem body_of_givenAfter {rs : List HttpRequest} {name : Text} {d : Definition}
    (h : givenAfter host fuel s given rs name = some d) :
    given name = some d ∨ ∃ r ∈ rs, r.body.check? Definition.check = some (.good d) := by
  induction rs generalizing s given with
  | nil => exact .inl h
  | cons r rs ih =>
    rcases ih h with h | ⟨r', hr', hd⟩
    · rcases hear_cases given r (answer host fuel r s).1 with heq | ⟨name', d', hd', heq⟩ | ⟨name', heq⟩
      · exact .inl (heq ▸ h)
      · rw [heq, Function.update_apply] at h
        split at h
        · cases h
          exact .inr ⟨r, List.mem_cons_self, hd'⟩
        · exact .inl h
      · rw [heq, Function.update_apply] at h
        split at h
        · cases h
        · exact .inl h
    · exact .inr ⟨r', List.mem_cons_of_mem r hr', hd⟩

/-- The settings can be used, and whatever has a name from a path can be written. -/
structure Ready (given : Given) (s : Service) : Prop where
  serves : s.settings.Serves given
  ids : ∀ id, (s.buffers.get? id).isSome = true → id.isEncodable = true
  names : ∀ name d, given name = some d → name.isEncodable = true

theorem Ready.quiet (h : Ready given s) (hquiet : Quiet s s') : Ready given s' where
  serves := h.serves.sameSource hquiet.settings
  ids id hid := h.ids id (hquiet.buffers id hid)
  names := h.names

/-- A request that neither gives nor takes away a definition, and lets the settings alone. -/
theorem Ready.still {x : Handler Json} (h : Ready given s)
    (hput : ∀ name, r.endpoint? ≠ some (.putFormatter name))
    (hremove : ∀ name, r.endpoint? ≠ some (.removeFormatter name)) (hx : Leads Quiet x) :
    Ready (hear given r (reply (x s).1)) (x s).2 := by
  rw [hear_other hput hremove]
  exact h.quiet (hx s)

theorem Ready.read {α : Type} {c : Check α} {f : α → Handler Json} (hs : Ready given s)
    (h : ∀ a, r.body.check? c = some (.good a) → Ready (hear given r (reply (f a s).1)) (f a s).2) :
    Ready (hear given r (reply ((r.body.read c >>= f) s).1)) ((r.body.read c >>= f) s).2 := by
  rcases r.body.read_cases c s with ⟨a, hgood, ha⟩ | ⟨n, hn, hkind⟩
  · rw [bind_ok ha]
    exact h a hgood
  · rw [bind_error hn]
    show Ready (hear given r (decline n)) s
    rw [hear_declined (ne_accepted_of_unread hkind)]
    exact hs

theorem Ready.openBuffer (h : Ready given s) {id : Text} (hid : id.isEncodable = true)
    (u : BufferUpdate) : Ready given (Service.openBuffer id u s).2 where
  serves := h.serves
  ids id' hid' := by
    by_cases heq : id' = id
    · rw [heq]
      exact hid
    · have hput : (Service.openBuffer id u s).2.buffers =
          s.buffers.put id (.ofText u.path u.content) := rfl
      rw [hput, Store.put, Table.get?_set_of_ne heq] at hid'
      exact h.ids id' hid'
  names := h.names

theorem isEncodable_saved {name : Text} (hname : name.isEncodable = true) {first last : Text}
    (hfirst : first.isEncodable = true) (hlast : last.isEncodable = true) :
    (saved (first ++ name ++ last)).isEncodable = true := by
  have hmessage : (first ++ name ++ last).isEncodable = true := by
    rw [Text.isEncodable_append, Text.isEncodable_append, hfirst, hname, hlast]
    rfl
  simp only [saved, Json.isEncodable, Json.all, Json.allFields, hmessage]
  decide +kernel

theorem putFormatter_refused {name : Text} {d : Definition} (hd : d.command = []) :
    putFormatter name d s = (.error (.refused 400 (.str "Formatter command is required")), s) := by
  unfold putFormatter
  rw [if_pos (by rw [hd]; rfl)]
  rfl

theorem putFormatter_ok {name : Text} {d : Definition} {settings : Settings} (hd : d.command ≠ [])
    (hset : setFormatter name d.toJson s.settings = (.ok (), settings)) :
    putFormatter name d s = (.ok (saved ("Formatter " ++ name ++ " saved")), { s with settings }) := by
  unfold putFormatter
  rw [if_neg (by simpa using hd)]
  exact bind_ok (Handler.settings_ok hset) _

theorem removeFormatter_ok {name : Text} {removed : Bool} {settings : Settings}
    (hremove : Settings.removeFormatter name s.settings = (.ok removed, settings)) :
    removeFormatter name s =
      (if removed then .ok (saved ("Formatter " ++ name ++ " removed"))
        else .error (.refused 404 (.str ("Formatter " ++ name ++ " not found"))),
        { s with settings }) := by
  unfold removeFormatter
  rw [bind_ok (Handler.settings_ok hremove)]
  cases removed <;> rfl

theorem Ready.putFormatter (h : Ready given s) {name : Text} {d : Definition}
    (hr : r.endpoint? = some (.putFormatter name)) (hname : name.isEncodable = true)
    (hd : r.body.check? Definition.check = some (.good d)) :
    Ready (hear given r (reply (Service.putFormatter name d s).1))
      (Service.putFormatter name d s).2 := by
  by_cases hcommand : d.command = []
  · rw [putFormatter_refused hcommand, reply, hear_declined (n := .refused 400 _) nofun]
    exact h
  · obtain ⟨settings, hset, hserves⟩ :=
      h.serves.setFormatter (lasting_of_isEncodable name hname) hcommand
    rw [putFormatter_ok hcommand hset, reply, accept,
      if_pos (isEncodable_saved hname (by decide +kernel) (by decide +kernel))]
    simp only [hear, hr, hd]
    refine ⟨hserves, h.ids, fun k e he => ?_⟩
    rw [Function.update_apply] at he
    split at he
    · next hk => rw [hk]; exact hname
    · exact h.names k e he

theorem Ready.removeFormatter (h : Ready given s) {name : Text}
    (hr : r.endpoint? = some (.removeFormatter name)) (hname : name.isEncodable = true) :
    Ready (hear given r (reply (Service.removeFormatter name s).1))
      (Service.removeFormatter name s).2 := by
  obtain ⟨settings, hremove, hserves⟩ := h.serves.removeFormatter name
  have hready : Ready (Function.update given name none) { s with settings } := by
    refine ⟨hserves, h.ids, fun k e he => ?_⟩
    rw [Function.update_apply] at he
    split at he
    · cases he
    · exact h.names k e he
  rw [removeFormatter_ok hremove]
  cases hgiven : given name with
  | none =>
    -- the request is refused, and nothing was there to be taken away
    rw [Option.isSome_none, if_neg Bool.false_ne_true, reply, hear_declined (n := .refused 404 _) nofun]
    rwa [Function.update_eq_self_iff.mpr hgiven.symm] at hready
  | some d =>
    rw [Option.isSome_some, if_pos rfl, reply, accept,
      if_pos (isEncodable_saved hname (by decide +kernel) (by decide +kernel))]
    simp only [hear, hr]
    exact hready

theorem handle_ready {e : Endpoint} (h : Ready given s) (hpath : r.path.isEncodable = true)
    (he : r.endpoint? = some e) :
    Ready (hear given r (reply (handle host fuel r.body e s).1)) (handle host fuel r.body e s).2 := by
  have hname {name : Text} (hname : e.name? = some name) : name.isEncodable = true :=
    isEncodable_of_endpoint hpath he hname
  have hother {e' : Endpoint} (hne : e ≠ e') : r.endpoint? ≠ some e' :=
    fun h => hne (Option.some.inj (he.symm.trans h))
  cases e with
  | openBuffer id =>
    refine h.read fun u _ => ?_
    rw [hear_other (fun _ => hother nofun) fun _ => hother nofun]
    exact h.openBuffer (hname rfl) u
  | showBuffer id => exact h.still (fun _ => hother nofun) (fun _ => hother nofun) (leads_showBuffer id)
  | closeBuffer id => exact h.still (fun _ => hother nofun) (fun _ => hother nofun) (quiet_closeBuffer id)
  | attach =>
    exact h.read fun q _ => h.still (fun _ => hother nofun) (fun _ => hother nofun) (quiet_attach q)
  | formatChanges =>
    exact h.read fun q _ =>
      h.still (fun _ => hother nofun) (fun _ => hother nofun) (quiet_format .command q)
  | formatOnSave =>
    exact h.read fun q _ =>
      h.still (fun _ => hother nofun) (fun _ => hother nofun) (quiet_format .save q)
  | showSettings =>
    exact h.still (fun _ => hother nofun) (fun _ => hother nofun)
      (leads_showSettings (quiet_settings Settings.leads_current))
  | changeSettings =>
    refine h.read fun u hu => ?_
    rw [hear_other (fun _ => hother nofun) fun _ => hother nofun]
    obtain ⟨settings, hstate, hserves⟩ :=
      changeSettings_serves h.serves fun d hd => short_of_update hu hd
    rw [hstate]
    exact ⟨hserves, h.ids, h.names⟩
  | listFormatters =>
    exact h.still (fun _ => hother nofun) (fun _ => hother nofun)
      (leads_listFormatters (quiet_settings quiet_formatterTable))
  | putFormatter name => exact h.read fun d hd => h.putFormatter he (hname rfl) hd
  | removeFormatter name => exact h.removeFormatter he (hname rfl)
  | health => exact h.still (fun _ => hother nofun) (fun _ => hother nofun) (leads_pure _)

theorem after_ready {rs : List HttpRequest} (h : Ready given s)
    (hrs : ∀ r ∈ rs, r.path.isEncodable = true) :
    Ready (givenAfter host fuel s given rs) (after host fuel s rs) := by
  induction rs generalizing s given with
  | nil => exact h
  | cons r rs ih =>
    refine ih ?_ fun r' hr' => hrs r' (List.mem_cons_of_mem r hr')
    cases he : r.endpoint? with
    | none =>
      rw [hear_other (by rw [he]; nofun) (by rw [he]; nofun), answer_none he]
      exact h
    | some e =>
      rw [answer_some he]
      exact handle_ready h (hrs r List.mem_cons_self) he

theorem ready_empty (room : Room) (level : Text) (memory : Option Fields) :
    Ready (fun _ => none) { settings := { room, level, memory } } where
  serves := serves_empty room level memory
  ids _ h := nomatch h
  names := nofun

section Attach

variable {fs base : Fields} {q : AttachRequest} {room : Room} {level : Text} {entry : Entry} {d : Definition}
  {config : AttachConfig} {b : Buffer}

/-- A client is built exactly for what is given, as it was given. -/
theorem buildClient_usable (hload : load room level entry = .ok fs) (h : Usable given fs) (name : Text) :
    buildClient fs name s = (match given name with
      | none => .error (.refused 404 (.str ("unknown formatter client " ++ name)))
      | some d => .ok { formatter := { toDefinition := d.joined, name }
                        timeout := (fs.get? "command_timeout_s").getD .null }, s) := by
  obtain ⟨t, ht, -⟩ := h.formatters
  have hget := get?_formatters_of_load hload h ht name
  unfold buildClient
  rw [ht, Option.getD_some]
  dsimp only
  rw [hget]
  cases given name with
  | none => rfl
  | some d =>
    simp only [Option.map_some, Option.getD_some, Definition.toJson, Formatter.ofJson_definition]
    rfl

theorem attachBase_serves (h : s.settings.Serves given) :
    ∃ base config settings, attachBase s.settings = (.ok base, settings) ∧
      mergeLayers base [] = .ok base ∧ AttachConfig.check (.obj base) = .good config ∧
      (Vcs.Backend.ofName? config.vcs).isSome = true := by
  obtain ⟨fs, settings, hcurrent, hfs, -⟩ := h.current
  obtain ⟨d, o, hdiff, -, ho⟩ := hfs.diff
  obtain ⟨onSave, honSave⟩ := hfs.onSave
  obtain ⟨name, hvcs, hname⟩ := hfs.vcs
  refine ⟨[("diff_options", .obj d), ("format_on_save", .bool onSave), ("vcs", .str name)],
    { diff := o, onSave, vcs := name }, settings, ?_, rfl, ?_, hname⟩
  · unfold attachBase
    rw [bind_ok hcurrent]
    simp only [List.map, hdiff, honSave, hvcs, Option.getD_some]
    rfl
  · refine AttachConfig.check_eq_good.mpr ⟨?_, ho, rfl, rfl⟩
    show ∀ key ∈ AttachConfig.fieldNames, key ∈ AttachConfig.fieldNames
    exact fun _ h => h

theorem configure_known {f : Formatter} (hmerge : mergeLayers base [] = .ok base)
    (hcheck : AttachConfig.check (.obj base) = .good config)
    (hvcs : (Vcs.Backend.ofName? config.vcs).isSome = true) :
    Registry.configure base [] f =
      if f.rangeArgs.isSome then .ok config
      else .error (.refused (FormatFailure.noRanges f.name).message) := by
  have hproblem : attachProblem f config =
      if f.rangeArgs.isSome then none else some (FormatFailure.noRanges f.name).message := by
    unfold attachProblem Formatter.formatsRanges
    cases f.rangeArgs with
    | none => rfl
    | some args => simp [Option.isNone_iff_eq_none, Option.isSome_iff_ne_none.mp hvcs]
  rw [Registry.configure_eq, hmerge]
  dsimp only
  rw [hcheck]
  dsimp only
  rw [hproblem]
  cases f.rangeArgs <;> rfl

theorem attach_closed (hb : s.buffers.get? q.buffer = none) :
    (attach q s).1 = .error (.refused 404 (.str (notOpenMessage q.buffer))) := by
  unfold attach
  rw [discard_eq, bind_error (bind_error (Handler.buffer_none hb) _)]

/-- A client is attached, with a configuration that can be shown, exactly if it is given with arguments
for ranges. -/
theorem attach_open (h : s.settings.Serves given) (hb : s.buffers.get? q.buffer = some b)
    (hq : q.config = none) :
    ∃ config : AttachConfig, (Vcs.Backend.ofName? config.vcs).isSome = true ∧
      (attach q s).1 = match given q.client with
        | none => .error (.refused 404 (.str ("unknown formatter client " ++ q.client)))
        | some d =>
          if d.rangeArgs.isSome then .ok (AttachView.toJson ⟨q.buffer, q.client, config⟩)
          else .error (.refused 400 (.str
            ("failed checks: " ++ (FormatFailure.noRanges q.client).message))) := by
  obtain ⟨fs, settings, hcurrent, hfs, hload, -, hserves⟩ := h.current
  obtain ⟨base, config, settings', hbase, hmerge, hcheck, hvcs⟩ :=
    attachBase_serves (s := { s with settings }) hserves
  refine ⟨config, hvcs, ?_⟩
  unfold attach
  rw [discard_eq, bind_ok (bind_ok (Handler.buffer_some hb) _), bind_ok (Handler.settings_ok hcurrent)]
  have hclient := buildClient_usable (s := { s with settings }) hload hfs q.client
  cases hgiven : given q.client with
  | none =>
    rw [hgiven] at hclient
    rw [bind_error hclient]
  | some d =>
    rw [hgiven] at hclient
    rw [bind_ok hclient, bind_ok (Handler.settings_ok hbase), bind_get, hq, Option.getD_none,
      Registry.attach, configure_known hmerge hcheck hvcs]
    have hjoined : d.joined.rangeArgs.isSome = d.rangeArgs.isSome := Option.isSome_map
    simp only [hjoined]
    cases d.rangeArgs <;> rfl

theorem isEncodable_config (hvcs : (Vcs.Backend.ofName? config.vcs).isSome = true) :
    config.toJson.isEncodable = true := by
  have hnames : ∀ name ∈ Table.keys Vcs.Backend.names, name.isEncodable = true := by decide +kernel
  have hname := hnames _ (Table.isSome_get?.mp hvcs)
  have hmethod : config.diff.method.name.isEncodable = true := by
    cases config.diff.method <;> decide +kernel
  simp only [AttachConfig.toJson, Diff.Options.toJson, Json.ofNat, Json.isEncodable, Json.all,
    Json.allFields, hname, hmethod]
  decide +kernel

theorem isEncodable_view (hbuffer : q.buffer.isEncodable = true) (hclient : q.client.isEncodable = true)
    (hvcs : (Vcs.Backend.ofName? config.vcs).isSome = true) :
    (AttachView.toJson ⟨q.buffer, q.client, config⟩).isEncodable = true := by
  have hconfig := isEncodable_config hvcs
  simp only [Json.isEncodable] at hconfig
  simp only [AttachView.toJson, Json.isEncodable, Json.all, Json.allFields, hbuffer, hclient, hconfig]
  decide +kernel

/-- A refusal with a message that repeats a name is answered if the name can be written. -/
theorem decline_named {status : Nat} {first last name : Text} (hfirst : first.isEncodable = true)
    (hlast : last.isEncodable = true) :
    decline (.refused status (.str (first ++ name ++ last))) =
      if name.isEncodable then .answered status (detail (.str (first ++ name ++ last)))
      else .crashed .unencodable := by
  have hmessage : (Json.str (first ++ name ++ last)).isEncodable = name.isEncodable := by
    show (first ++ name ++ last).isEncodable = _
    rw [Text.isEncodable_append, Text.isEncodable_append, hfirst, hlast, Bool.and_true, Bool.true_and]
  simp only [decline, refuse, hmessage, List.all_nil]
  cases name.isEncodable <;> rfl

theorem answer_attach (hr : r.endpoint? = some .attach)
    (hq : r.body.check? AttachRequest.check = some (.good q)) :
    (answer host fuel r s).1 = reply (attach q s).1 := by
  rw [answer_some hr]
  exact congrArg (fun x => reply (Prod.fst x)) (bind_ok (Body.read_good hq s) _)

structure AttachAnswers (given : Given) (s : Service) (q : AttachRequest) (a : HttpAnswer) : Prop where
  attached : (∃ v, a = .answered 200 v) ↔
    (s.buffers.get? q.buffer).isSome = true ∧
      ∃ d, given q.client = some d ∧ d.rangeArgs.isSome = true
  closed : s.buffers.get? q.buffer = none → q.buffer.isEncodable = true →
    a = .answered 404 (detail (.str (notOpenMessage q.buffer)))
  unknown : (s.buffers.get? q.buffer).isSome = true → given q.client = none →
    q.client.isEncodable = true →
      a = .answered 404 (detail (.str ("unknown formatter client " ++ q.client)))
  unranged : (s.buffers.get? q.buffer).isSome = true →
    ∀ d, given q.client = some d → d.rangeArgs = none →
      a = .answered 400 (detail (.str
        ("failed checks: " ++ (FormatFailure.noRanges q.client).message)))
  refused : ∀ v, a = .answered 400 v →
    (s.buffers.get? q.buffer).isSome = true ∧ ∃ d, given q.client = some d ∧ d.rangeArgs = none

theorem Ready.attachAnswers (h : Ready given s) (hq : q.config = none) :
    AttachAnswers given s q (reply (attach q s).1) := by
  cases hb : s.buffers.get? q.buffer with
  | none =>
    have hclosed : (s.buffers.get? q.buffer).isSome ≠ true := by rw [hb]; nofun
    rw [attach_closed hb, reply]
    refine ⟨⟨fun ⟨v, hv⟩ => ?_, fun hopen => absurd hopen.1 hclosed⟩, fun _ hbuffer => ?_,
      fun hopen => absurd hopen hclosed, fun hopen => absurd hopen hclosed, fun v hv => ?_⟩
    · cases decline_status hv
    · exact (decline_named (by decide +kernel) (by decide +kernel)).trans (if_pos hbuffer)
    · cases decline_status hv
  | some b =>
    have hopen : (s.buffers.get? q.buffer).isSome = true := by rw [hb]; rfl
    obtain ⟨config, hvcs, hattach⟩ := attach_open h.serves hb hq
    rw [hattach]
    cases hgiven : given q.client with
    | none =>
      refine ⟨⟨fun ⟨v, hv⟩ => ?_, fun ⟨_, d, hd, _⟩ => ?_⟩, fun hclosed => ?_,
        fun _ _ hclient => ?_, fun _ d hd => ?_, fun v hv => ?_⟩
      · cases decline_status hv
      · cases hgiven.symm.trans hd
      · cases hb.symm.trans hclosed
      · have hend : ("unknown formatter client " ++ q.client : Text) =
            "unknown formatter client " ++ q.client ++ "" := congrArg Text.mk (List.append_nil _).symm
        rw [reply, hend]
        exact (decline_named (by decide +kernel) (by decide +kernel)).trans (if_pos hclient)
      · cases hgiven.symm.trans hd
      · cases decline_status hv
    | some d =>
      have hclient := h.names _ _ hgiven
      refine ⟨⟨fun ⟨v, hv⟩ => ⟨hopen, d, hgiven, ?_⟩, fun ⟨_, d', hd', hargs⟩ => ?_⟩, fun hclosed => ?_,
        fun _ hnone => ?_, fun _ d' hd' hargs => ?_, fun v hv => ⟨hopen, d, hgiven, ?_⟩⟩
      · by_contra hargs
        dsimp only at hv
        rw [if_neg hargs] at hv
        cases decline_status hv
      · cases hgiven.symm.trans hd'
        dsimp only
        rw [if_pos hargs]
        exact ⟨_, if_pos (isEncodable_view (h.ids _ hopen) hclient hvcs)⟩
      · cases hb.symm.trans hclosed
      · cases hgiven.symm.trans hnone
      · cases hgiven.symm.trans hd'
        have hmessage : ("failed checks: " ++ (FormatFailure.noRanges q.client).message : Text) =
            "failed checks: client " ++ q.client ++ " does not have a range formatting provider" :=
          rfl
        dsimp only
        rw [hargs, Option.isSome_none, if_neg Bool.false_ne_true, hmessage]
        exact (decline_named (by decide +kernel) (by decide +kernel)).trans (if_pos hclient)
      · by_contra hargs
        dsimp only at hv
        rw [if_pos (Option.isSome_iff_ne_none.mpr hargs)] at hv
        cases (if_pos (isEncodable_view (h.ids _ hopen) hclient hvcs)).symm.trans hv

end Attach

/-- Whatever requests come to an empty directory, each definition accepted and not removed since is
built into its client, and a client is attached exactly if the buffer is open and it has arguments for
ranges. -/
theorem requests_keep_settings_usable (host : Host) (fuel : Nat) (room : Room) (level : Text)
    (memory : Option Fields) (rs : List HttpRequest) (hrs : ∀ r ∈ rs, r.path.isEncodable = true) :
    let start : Service := { settings := { room, level, memory } }
    let s := after host fuel start rs
    let given := givenAfter host fuel start (fun _ => none) rs
    (∃ fs settings, current s.settings = (.ok fs, settings) ∧
      (∃ v o, fs.get? "diff_options" = some v ∧ Diff.Options.ofJson v = .ok o) ∧
      (∃ name, fs.get? "vcs" = some (.str name) ∧ (Vcs.Backend.ofName? name).isSome = true) ∧
      ∀ name d, given name = some d → d.command ≠ [] ∧
        buildClient fs name s = (.ok { formatter := { toDefinition := d.joined, name }
                                       timeout := (fs.get? "command_timeout_s").getD .null }, s) ∧
        ((∀ r ∈ rs, r.body.IsPlain) → d.joined = d)) ∧
    ∀ r q, r.endpoint? = some .attach → r.body.check? AttachRequest.check = some (.good q) →
      q.config = none → AttachAnswers given s q (answer host fuel r s).1 := by
  intro start s given
  have hready : Ready given s := after_ready (ready_empty room level memory) hrs
  obtain ⟨fs, settings, hcurrent, hfs, hload, -⟩ := hready.serves.current
  obtain ⟨v, o, hdiff, -, ho⟩ := hfs.diff
  refine ⟨⟨fs, settings, hcurrent, ⟨_, o, hdiff, Checked.verdict_eq_ok.mpr ho⟩, hfs.vcs, ?_⟩, ?_⟩
  · intro name d hd
    refine ⟨hfs.commands name d hd, ?_, fun hplain => ?_⟩
    · rw [buildClient_usable hload hfs, hd]
    · obtain ⟨r, hr, hcheck⟩ := (body_of_givenAfter hd).resolve_left nofun
      obtain ⟨fs', hgood, hkept⟩ := Body.check?_good Json.givesTexts_joined (hplain r hr) hcheck
      exact Definition.joined_eq_self hgood hkept
  · intro r q hr hcheck hq
    rw [answer_attach hr hcheck]
    exact hready.attachAnswers hq

def defineAndOpen : List HttpRequest := [
  .sending "PUT" "/api/config/formatters/f"
    (Definition.toJson { command := ["f"], rangeArgs := some [] }),
  .sending "PUT" "/api/buffers/b" (BufferUpdate.toJson ⟨"/r/a", "x"⟩)]

def attachTo (buffer : Text) : HttpRequest :=
  .sending "POST" "/api/format/attach" (.obj [("buffer_id", .str buffer), ("client_id", .str "f")])

def halfName : Text := ⟨[.ofCode 0xD800]⟩

theorem attachTo_read (buffer : Text)
    (h : ((attachTo buffer).body.read AttachRequest.check {}).1.toOption.map
      (fun q => (q.buffer, q.client, q.config.isNone)) = some (buffer, ("f" : Text), true)) :
    ∃ q, (attachTo buffer).body.check? AttachRequest.check = some (.good q) ∧ q.buffer = buffer ∧
      q.client = "f" ∧ q.config = none := by
  obtain ⟨q, hq, hfields⟩ := Option.map_eq_some_iff.mp h
  simp only [Prod.mk.injEq, Option.isNone_iff_eq_none] at hfields
  exact ⟨q, Body.read_inv (toOption_eq_some hq), hfields⟩

/-- The formatter is attached to the buffer. -/
theorem requests_keep_settings_usable_one :
    ∃ v, (answer (Script.host []) 0 (attachTo "b")
      (after (Script.host []) 0 {} defineAndOpen)).1 = .answered 200 v := by
  have hgiven : givenAfter (Script.host []) 0 {} (fun _ => none) defineAndOpen "f" =
      some { command := ["f"], rangeArgs := some [] } := by decide +kernel
  have hopen : ((after (Script.host []) 0 {} defineAndOpen).buffers.get? "b").isSome = true := by
    decide +kernel
  obtain ⟨q, hq, hbuffer, hclient, hconfig⟩ := attachTo_read "b" (by decide +kernel)
  have hanswers := (requests_keep_settings_usable (Script.host []) 0 .usual "INFO" none defineAndOpen
    (by decide +kernel)).2 (attachTo "b") q (by decide +kernel) hq hconfig
  exact hanswers.attached.mpr ⟨hbuffer ▸ hopen, _, hclient ▸ hgiven, rfl⟩

def halvesDefinition : Definition := { command := ["f", ⟨[.ofCode 0xD83D, .ofCode 0xDE00]⟩] }

/-- The formatter is defined with two halves in its command, which the body encodes one by one. -/
def defineHalves : HttpRequest where
  method := "PUT"
  path := "/api/config/formatters/f"
  body := { bytes := Text.encodeChars "\x7b\"command\": [\"f\", \"".toList ++
    [0xED, 0xA0, 0xBD, 0xED, 0xB8, 0x80] ++ Text.encodeChars "\"]\x7d".toList }

/-- A missing buffer whose name is a half is not answered for, and the halves of a definition that was
accepted come back as the character they make. -/
theorem halves_are_lost_or_joined :
    (∃ q, (attachTo halfName).endpoint? = some .attach ∧
      (attachTo halfName).body.check? AttachRequest.check = some (.good q) ∧ q.config = none ∧
      Table.get? ({} : Service).buffers q.buffer = none ∧
      (answer (Script.host []) 0 (attachTo halfName) {}).1 = .crashed .unencodable) ∧
    let s := after (Script.host []) 0 {} [defineHalves]
    givenAfter (Script.host []) 0 {} (fun _ => none) [defineHalves] "f" = some halvesDefinition ∧
    ∃ fs settings client, current s.settings = (.ok fs, settings) ∧
      buildClient fs "f" s = (.ok client, s) ∧
      client.formatter.command = [("f" : Text), ⟨[.ofCode 0x1F600]⟩] ∧
      client.formatter.command ≠ halvesDefinition.command := by
  obtain ⟨q, hq, hbuffer, -, hconfig⟩ := attachTo_read halfName (by decide +kernel)
  have hasked : (attachTo halfName).endpoint? = some .attach := by decide +kernel
  have hgiven : givenAfter (Script.host []) 0 {} (fun _ => none) [defineHalves] "f" =
      some halvesDefinition := by decide +kernel
  have hready : Ready _ (after (Script.host []) 0 {} [defineHalves]) :=
    after_ready (ready_empty .usual "INFO" none) (by decide +kernel)
  obtain ⟨fs, settings, hcurrent, hfs, hload, -⟩ := hready.serves.current
  have hbuild := buildClient_usable (s := after (Script.host []) 0 {} [defineHalves]) hload hfs "f"
  rw [hgiven] at hbuild
  have hjoined : halvesDefinition.joined.command = [("f" : Text), ⟨[.ofCode 0x1F600]⟩] ∧
      halvesDefinition.joined.command ≠ halvesDefinition.command := by decide +kernel
  refine ⟨⟨q, hasked, hq, hconfig, rfl, ?_⟩, hgiven, fs, settings, _, hcurrent, hbuild,
    hjoined⟩
  rw [answer_attach hasked hq, attach_closed rfl, hbuffer]
  exact (decline_named (by decide +kernel) (by decide +kernel)).trans (if_neg (by decide +kernel))

end Definitions

end Service

end Hunkwise
