import Hunkwise.Proofs.FormatterChain
import Hunkwise.Service.Formatting

/-! The handler of formatting requests. It refuses a buffer that is not open and crashes on settings
that cannot be read; otherwise it runs the clients and keeps what they did, whether they fail or
not. Of the service it changes the one buffer, the log and what is remembered of the settings. -/

namespace Hunkwise

open Effect

namespace Settings

/-- Only what is remembered has changed. -/
def SameSource (s s' : Settings) : Prop :=
  s'.disk = s.disk ∧ s'.room = s.room ∧ s'.level = s.level

instance : IsPreorder Settings SameSource where
  refl _ := ⟨rfl, rfl, rfl⟩
  trans _ _ _ h h' := ⟨h'.1.trans h.1, h'.2.1.trans h.2.1, h'.2.2.trans h.2.2⟩

theorem leads_reload : Leads SameSource reload := by
  intro s
  unfold reload
  split <;> exact ⟨rfl, rfl, rfl⟩

theorem leads_start : Leads SameSource start := by
  refine leads_get.bind fun s => ?_
  split
  · exact leads_reload.discard
  · exact leads_pure _

theorem leads_current : Leads SameSource current := by
  refine leads_start.bind fun _ => leads_reload.bind fun fs => leads_get.bind fun s => ?_
  split
  · exact leads_throw _
  · exact leads_pure _

end Settings

namespace Handler

variable {α : Type} {s : Service}

theorem buffer_some {id : Text} {b : Buffer} (h : s.buffers.get? id = some b) :
    Handler.buffer id s = (.ok b, s) := by
  unfold Handler.buffer
  rw [bind_get, h]
  rfl

theorem buffer_none {id : Text} (h : s.buffers.get? id = none) :
    Handler.buffer id s = (.error (.refused 404 (.str (notOpenMessage id))), s) := by
  unfold Handler.buffer
  rw [bind_get, h]
  rfl

theorem settings_ok {act : Settings.Change α} {a : α} {settings : Settings}
    (h : act s.settings = (.ok a, settings)) :
    Handler.settings act s = (.ok a, { s with settings }) := by
  unfold Handler.settings
  rw [h]

theorem settings_error {act : Settings.Change α} {f : Settings.Failure} {settings : Settings}
    (h : act s.settings = (.error f, settings)) :
    Handler.settings act s = (.error (.crashed (.settings f)), { s with settings }) := by
  unfold Handler.settings
  rw [h]

end Handler

namespace Service

variable (host : Host) (fuel : Nat) (trigger : Trigger) (r : FormatBuffer) {s : Service}

def requestLimits (fuel : Nat) (fs : Fields) : RequestLimits :=
  { timeout := (fs.get? "command_timeout_s").getD .null, fuel }

def formatWork (s : Service) (fs : Fields) (before : Buffer) :
    Except RequestFailure (List Outcome) × Work :=
  formatBuffer host (requestLimits fuel fs) (s.attachments.forBuffer r.buffer) trigger
    { buffer := before, log := s.log }

def formatReply (before : Buffer) (w : Work) :
    Except RequestFailure (List Outcome) → Except NoAnswer Json
  | .error f => .error (failure f)
  | .ok outcomes =>
    let changed := decide (w.buffer.lines ≠ before.lines)
    let view : FormatView :=
      { buffer := r.buffer, content := w.buffer.text, changed, outcomes, notices := w.notices }
    if changed then
      match Diff.Change.between {} before.lines w.buffer.lines w.buffer.path with
      | none => .error (.crashed .tooDeep)
      | some change => .ok { view with change := some change }.toJson
    else .ok view.toJson

theorem format_closed (h : s.buffers.get? r.buffer = none) :
    format host fuel trigger r s =
      (.error (.refused 404 (.str (notOpenMessage r.buffer))), s) := by
  unfold format
  exact bind_error (Handler.buffer_none h) _

theorem format_unset {before : Buffer} {f : Settings.Failure} {settings : Settings}
    (h : s.buffers.get? r.buffer = some before)
    (hset : Settings.current s.settings = (.error f, settings)) :
    format host fuel trigger r s = (.error (.crashed (.settings f)), { s with settings }) := by
  unfold format
  rw [bind_ok (Handler.buffer_some h)]
  exact bind_error (Handler.settings_error hset) _

theorem format_open {before : Buffer} {fs : Fields} {settings : Settings}
    {result : Except RequestFailure (List Outcome)} {w : Work}
    (h : s.buffers.get? r.buffer = some before)
    (hset : Settings.current s.settings = (.ok fs, settings))
    (hwork : s.formatWork host fuel trigger r fs before = (result, w)) :
    format host fuel trigger r s =
      (formatReply r before w result, { s with settings }.keepWork r.buffer w) := by
  unfold format
  rw [bind_ok (Handler.buffer_some h), bind_ok (Handler.settings_ok hset), bind_get]
  unfold formatWork requestLimits at hwork
  dsimp only
  rw [hwork]
  cases result with
  | error f => rfl
  | ok outcomes =>
    unfold formatReply
    dsimp only
    cases decide (w.buffer.lines ≠ before.lines) with
    | false => rfl
    | true => cases Diff.Change.between {} before.lines w.buffer.lines w.buffer.path <;> rfl

theorem format_cases (s : Service) :
    format host fuel trigger r s =
      (.error (.refused 404 (.str (notOpenMessage r.buffer))), s) ∨
    (∃ f settings, Settings.current s.settings = (.error f, settings) ∧
      format host fuel trigger r s = (.error (.crashed (.settings f)), { s with settings })) ∨
    ∃ before fs settings result w, s.buffers.get? r.buffer = some before ∧
      Settings.current s.settings = (.ok fs, settings) ∧
      s.formatWork host fuel trigger r fs before = (result, w) ∧
      format host fuel trigger r s =
        (formatReply r before w result, { s with settings }.keepWork r.buffer w) := by
  cases h : s.buffers.get? r.buffer with
  | none => exact .inl (format_closed host fuel trigger r h)
  | some before =>
    cases hset : Settings.current s.settings with
    | mk result settings =>
      cases result with
      | error f =>
        exact .inr (.inl ⟨f, settings, rfl, format_unset host fuel trigger r h hset⟩)
      | ok fs =>
        exact .inr (.inr ⟨before, fs, settings, _, _, rfl, rfl, rfl,
          format_open host fuel trigger r h hset rfl⟩)

/-- All that a formatting request can do to the service. -/
theorem format_state (s : Service) :
    let s' := (format host fuel trigger r s).2
    (∃ settings, Settings.SameSource s.settings settings ∧ s' = { s with settings }) ∨
    ∃ before settings fs, s.buffers.get? r.buffer = some before ∧
      Settings.SameSource s.settings settings ∧
      s' = { s with settings }.keepWork r.buffer (s.formatWork host fuel trigger r fs before).2 := by
  intro s'
  have hsource := Settings.leads_current s.settings
  rcases format_cases host fuel trigger r s with
    h | ⟨f, settings, hset, h⟩ | ⟨before, fs, settings, result, w, hb, hset, hwork, h⟩
  · exact .inl ⟨s.settings, ⟨rfl, rfl, rfl⟩, congrArg Prod.snd h⟩
  · rw [hset] at hsource
    exact .inl ⟨settings, hsource, congrArg Prod.snd h⟩
  · rw [hset] at hsource
    exact .inr ⟨before, settings, fs, hb, hsource, by rw [hwork]; exact congrArg Prod.snd h⟩

theorem formatReply_error {r : FormatBuffer} {before : Buffer} {w : Work}
    {result : Except RequestFailure (List Outcome)} {n : NoAnswer}
    (h : formatReply r before w result = .error n) :
    n = .crashed .tooDeep ∨ ∃ f, result = .error f ∧ n = failure f := by
  unfold formatReply at h
  split at h
  · cases h
    exact .inr ⟨_, rfl, rfl⟩
  · dsimp only at h
    split at h
    · split at h
      · cases h
        exact .inl rfl
      · cases h
    · cases h

theorem formatReply_ok {r : FormatBuffer} {before : Buffer} {w : Work}
    {result : Except RequestFailure (List Outcome)} {v : Json}
    (h : formatReply r before w result = .ok v) :
    ∃ outcomes changed change, result = .ok outcomes ∧
      v = FormatView.toJson
        { buffer := r.buffer, content := w.buffer.text, changed, outcomes, notices := w.notices,
          change } := by
  cases result with
  | error f => cases h
  | ok outcomes =>
    unfold formatReply at h
    dsimp only at h
    split at h
    · split at h
      · cases h
      · next change _ =>
        cases h
        exact ⟨outcomes, _, some change, rfl, rfl⟩
    · cases h
      exact ⟨outcomes, _, none, rfl, rfl⟩

theorem formatReply_changed {before : Buffer} {w : Work} {change : Diff.Change}
    (h : w.buffer.lines ≠ before.lines)
    (hchange : Diff.Change.between {} before.lines w.buffer.lines w.buffer.path = some change)
    (r : FormatBuffer) (outcomes : List Outcome) :
    formatReply r before w (.ok outcomes) = .ok (FormatView.toJson
      { buffer := r.buffer, content := w.buffer.text, changed := true, outcomes,
        notices := w.notices, change := some change }) := by
  unfold formatReply
  simp [h, hchange]

theorem formatReply_same {before : Buffer} {w : Work} (h : w.buffer.lines = before.lines)
    (r : FormatBuffer) (outcomes : List Outcome) :
    formatReply r before w (.ok outcomes) = .ok (FormatView.toJson
      { buffer := r.buffer, content := w.buffer.text, changed := false, outcomes,
        notices := w.notices }) := by
  unfold formatReply
  simp [h]

theorem formatWork_follows (s : Service) (fs : Fields) (before : Buffer) :
    Follows host ((s.attachments.forBuffer r.buffer).map Attachment.client)
      { buffer := before, log := s.log } (s.formatWork host fuel trigger r fs before).2 :=
  leads_formatBuffer ..

end Service

/-- However a formatting request ends, its formatters form a chain from the lines at the start to those
at the end; the other buffers, the attachments and the settings file stay as they were. -/
theorem formatting_chains_formatters (host : Host) :
    (∀ limits attachments trigger w,
      let w' := (formatBuffer host limits attachments trigger w).2
      ∃ ran, w'.log = w.log ++ ran ∧
        FormatterChain host (attachments.map Attachment.client) w.log w.buffer ran w'.buffer) ∧
    ∀ fuel trigger r s,
      let s' := (Service.format host fuel trigger r s).2
      let clients := (s.attachments.forBuffer r.buffer).map Attachment.client
      s'.attachments = s.attachments ∧ s'.settings.disk = s.settings.disk ∧
      (∀ id, id ≠ r.buffer → s'.buffers.get? id = s.buffers.get? id) ∧
      ∃ ran, s'.log = s.log ++ ran ∧
        match s.buffers.get? r.buffer with
        | none => ran = [] ∧ s'.buffers.get? r.buffer = none
        | some before => ∃ after, s'.buffers.get? r.buffer = some after ∧
            FormatterChain host clients s.log before ran after := by
  constructor
  · intro limits attachments trigger w
    obtain ⟨ran, hlog, hchain⟩ := leads_formatBuffer host limits attachments trigger w
    exact ⟨ran, hlog, hchain.formatterChain⟩
  · intro fuel trigger r s s' clients
    rcases Service.format_state host fuel trigger r s with
      ⟨settings, hsource, hs'⟩ | ⟨before, settings, fs, hb, hsource, hs'⟩
    · have hs' : s' = { s with settings } := hs'
      refine ⟨by rw [hs'], by rw [hs']; exact hsource.1, fun id _ => by rw [hs'], [], ?_, ?_⟩
      · rw [hs', List.append_nil]
      · rw [hs']
        cases s.buffers.get? r.buffer with
        | none => exact ⟨rfl, rfl⟩
        | some before => exact ⟨before, rfl, (Chain.done _ _).formatterChain⟩
    · have hs' : s' = _ := hs'
      obtain ⟨ran, hlog, hchain⟩ := Service.formatWork_follows host fuel trigger r s fs before
      refine ⟨by rw [hs']; rfl, by rw [hs']; exact hsource.1, ?_, ran, by rw [hs']; exact hlog, ?_⟩
      · intro id hid
        rw [hs']
        exact Table.get?_set_of_ne hid _ _
      · rw [hs', hb]
        exact ⟨_, Table.get?_set_self _ _ _, hchain.formatterChain⟩

end Hunkwise
