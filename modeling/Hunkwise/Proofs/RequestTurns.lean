import Hunkwise.Proofs.BufferLines
import Hunkwise.Proofs.FormatHandler
import Hunkwise.Service.Route

/-! Requests one after the other. What a request can do to the buffers and the attachments is said
here once, whichever endpoint it is for and however it ends; what all of these turns keep is kept by
any row of requests. -/

namespace Hunkwise

open Effect

namespace HttpRequest

def endpoint? (r : HttpRequest) : Option Service.Endpoint :=
  Table.get? (Service.endpoints r.path) r.method

def Attaches (r : HttpRequest) (id : Text) : Prop :=
  r.endpoint? = some .attach ∧
    ∃ q, r.body.check? AttachRequest.check = some (.good q) ∧ q.buffer = id

end HttpRequest

namespace Body

variable {α : Type} (c : Check α) (b : Body)

theorem read_good {c : Check α} {b : Body} {a : α} (h : b.check? c = some (.good a))
    (s : Service) : b.read c s = (.ok a, s) := by
  unfold read
  rw [h]
  rfl

theorem read_cases (s : Service) :
    (∃ a, b.check? c = some (.good a) ∧ b.read c s = (.ok a, s)) ∨
      ∃ n, b.read c s = (.error n, s) ∧ ((∃ d, n = .refused 400 d) ∨ ∃ ps, n = .rejected ps) := by
  cases h : b.check? c with
  | none =>
    unfold read
    rw [h]
    exact .inr ⟨_, rfl, .inl ⟨_, rfl⟩⟩
  | some checked =>
    cases checked with
    | good a => exact .inl ⟨a, rfl, read_good h s⟩
    | bad ps =>
      unfold read
      rw [h]
      exact .inr ⟨_, rfl, .inr ⟨_, rfl⟩⟩

theorem read_inv {c : Check α} {b : Body} {a : α} {s : Service} (h : (b.read c s).1 = .ok a) :
    b.check? c = some (.good a) := by
  rcases b.read_cases c s with ⟨a', hgood, ha'⟩ | ⟨n, hn, -⟩
  · rw [ha'] at h
    cases h
    exact hgood
  · rw [hn] at h
    cases h

theorem read_state (s : Service) : (b.read c s).2 = s := by
  rcases b.read_cases c s with ⟨a, -, h⟩ | ⟨n, h, -⟩ <;> rw [h]

end Body

theorem Registry.configure_ok {base provided : Fields} {f : Formatter} {config : AttachConfig}
    (h : configure base provided f = .ok config) : attachProblem f config = none := by
  simp only [configure, bind, Except.bind] at h
  split at h
  · cases h
  · split at h
    · cases h
    · split at h
      · cases h
      · next hproblem =>
        cases h
        exact hproblem

theorem Registry.attach_ok {reg reg' : Registry} {buffer : Text} {client : Client}
    {base provided : Fields} {a : Attachment}
    (h : reg.attach buffer client base provided = .ok (a, reg')) :
    a.buffer = buffer ∧ attachProblem a.client.formatter a.config = none ∧
      reg' = Table.set reg (a.buffer, a.client.name) a := by
  unfold Registry.attach at h
  cases hc : configure base provided client.formatter with
  | error f =>
    rw [hc] at h
    cases h
  | ok config =>
    rw [hc] at h
    cases h
    exact ⟨rfl, configure_ok hc, rfl⟩

theorem Host.lastWritten?_eq_some {host : Host} {log ran : List Invocation} {lines : List Text}
    (h : host.lastWritten? log ran = some lines) :
    ∃ stdout, lines = Text.outputLines (Text.decodeLossy stdout) := by
  induction ran generalizing log with
  | nil => cases h
  | cons i ran ih =>
    rw [Host.lastWritten?] at h
    rcases Option.or_eq_some_iff.mp h with h | ⟨-, h⟩
    · exact ih h
    · unfold Host.written? at h
      split at h
      · cases h
        exact ⟨_, rfl⟩
      · cases h

theorem Buffer.Holds.writtenBy {b : Buffer} (hb : b.Holds fun _ => True) (host : Host)
    (log ran : List Invocation) : (b.writtenBy host log ran).Holds fun _ => True := by
  unfold Buffer.writtenBy
  cases h : host.lastWritten? log ran with
  | none => exact hb
  | some lines =>
    obtain ⟨stdout, hlines⟩ := Host.lastWritten?_eq_some h
    exact ⟨_, trivial, hlines⟩

namespace Service

variable {host : Host} {fuel : Nat} {r : HttpRequest} {s s' : Service}

def SameStores (s s' : Service) : Prop :=
  s'.buffers = s.buffers ∧ s'.attachments = s.attachments

instance : IsPreorder Service SameStores where
  refl _ := ⟨rfl, rfl⟩
  trans _ _ _ h h' := ⟨h'.1.trans h.1, h'.2.trans h.2⟩

/-- All that a request can do to the buffers and the attachments. -/
inductive Turn (r : HttpRequest) (s s' : Service) : Prop
  | still (same : s.SameStores s')
  | opened (id path text : Text) (buffers : s'.buffers = s.buffers.put id (.ofText path text))
      (attachments : s'.attachments = s.attachments)
  | closed (id : Text) (asked : r.endpoint? = some (.closeBuffer id))
      (buffers : s'.buffers = s.buffers.close id)
      (attachments : s'.attachments = (s.attachments.detach id none).2)
  | attached (a : Attachment) (asked : r.Attaches a.buffer)
      (isOpen : (s.buffers.get? a.buffer).isSome = true)
      (checked : attachProblem a.client.formatter a.config = none)
      (buffers : s'.buffers = s.buffers)
      (attachments : s'.attachments = Table.set s.attachments (a.buffer, a.client.name) a)
  | formatted (id : Text) (before : Buffer) (host : Host) (log ran : List Invocation)
      (isOpen : s.buffers.get? id = some before)
      (buffers : s'.buffers = s.buffers.set id (before.writtenBy host log ran))
      (attachments : s'.attachments = s.attachments)

section Still

variable {R : Service → Service → Prop} [IsPreorder Service R]

theorem leads_settings {α : Type} (act : Settings.Change α) :
    Leads SameStores (Handler.settings act) := by
  intro s
  unfold Handler.settings
  split <;> exact ⟨rfl, rfl⟩

theorem leads_buffer (id : Text) : Leads R (Handler.buffer id) := by
  refine leads_get.bind fun s => ?_
  split
  · exact leads_pure _
  · exact leads_throw _

theorem leads_showBuffer (id : Text) : Leads R (showBuffer id) :=
  (leads_buffer id).bind fun _ => leads_get.bind fun _ => leads_pure _

theorem leads_buildClient (settings : Fields) (name : Text) :
    Leads R (buildClient settings name) := by
  unfold buildClient
  split
  · split
    · exact leads_throw _
    · split
      · exact leads_throw _
      · exact leads_pure _
    · exact leads_throw _
  · exact leads_throw _

theorem leads_showSettings (h : Leads R (Handler.settings Settings.current)) :
    Leads R showSettings := by
  refine h.bind fun fs => ?_
  split
  · exact leads_pure _
  · exact leads_throw _
  · exact leads_throw _

theorem leads_updateDiff (settings : Fields) (upper : Option Fields) :
    Leads SameStores (updateDiff settings upper) := by
  unfold updateDiff
  split
  · exact leads_pure _
  · dsimp only
    split
    · exact leads_pure _
    · exact leads_throw _

theorem leads_updateVcs (settings : Fields) (name : Option Text) :
    Leads SameStores (updateVcs settings name) := by
  unfold updateVcs
  split
  · exact leads_pure _
  · split
    · exact leads_pure _
    · exact leads_throw _

theorem leads_changeSettings (u : SettingsUpdate) : Leads SameStores (changeSettings u) := by
  refine (leads_settings _).bind fun fs => ?_
  refine (leads_updateDiff fs u.diff).bind fun fs => ?_
  refine (leads_updateVcs _ u.vcs).bind fun fs => ?_
  exact (leads_settings _).bind fun _ => leads_pure _

theorem leads_listed (name : Text) (v : Json) : Leads R (listed name v) := by
  unfold listed
  split
  · exact leads_pure _
  · exact leads_throw _

theorem leads_listFormatters (h : Leads R (Handler.settings Settings.formatterTable)) :
    Leads R listFormatters := by
  refine h.bind fun fs => ?_
  refine (leads_mapM fun e _ => leads_listed e.1 e.2).bind fun rows => ?_
  split
  · exact leads_pure _
  · exact leads_throw _

theorem leads_putFormatter (name : Text) (d : Definition) :
    Leads SameStores (putFormatter name d) := by
  unfold putFormatter
  split
  · exact (leads_throw _).bind fun _ => (leads_settings _).bind fun _ => leads_pure _
  · exact (leads_settings _).bind fun _ => leads_pure _

theorem leads_removeFormatter (name : Text) : Leads SameStores (removeFormatter name) := by
  refine (leads_settings _).bind fun removed => ?_
  split
  · exact leads_pure _
  · exact leads_throw _

end Still

theorem closeBuffer_none {id : Text} (h : s.buffers.get? id = none) :
    (closeBuffer id s).2 = s := by
  unfold closeBuffer
  rw [discard_eq, bind_error (bind_error (Handler.buffer_none h) _) _]

theorem closeBuffer_some {id : Text} {b : Buffer} (h : s.buffers.get? id = some b) :
    (closeBuffer id s).2 =
      { s with buffers := s.buffers.close id, attachments := (s.attachments.detach id none).2 } := by
  unfold closeBuffer
  rw [discard_eq, bind_ok (bind_ok (Handler.buffer_some h) _)]
  rfl

/-- An attachment is made at the end of a request, when nothing else has been changed. -/
theorem attach_turn {q : AttachRequest} (hasked : r.Attaches q.buffer) (s : Service) :
    Turn r s (attach q s).2 := by
  unfold attach
  rw [discard_eq]
  cases hb : s.buffers.get? q.buffer with
  | none =>
    rw [bind_error (bind_error (Handler.buffer_none hb) _)]
    exact .still (refl_of SameStores s)
  | some b =>
    rw [bind_ok (bind_ok (Handler.buffer_some hb) _)]
    refine (leads_settings _).bind_last (refl_of SameStores s) (fun _ => .still) fun fs t ht => ?_
    refine (leads_buildClient fs q.client).bind_last ht (fun _ => .still) fun client t ht => ?_
    refine (leads_settings _).bind_last ht (fun _ => .still) fun base t ht => ?_
    rw [bind_get]
    cases hreg : t.attachments.attach q.buffer client base (q.config.getD []) with
    | error f => cases f <;> exact .still ht
    | ok made =>
      obtain ⟨hbuffer, hchecked, hset⟩ := Registry.attach_ok hreg
      refine .attached made.1 (by rwa [hbuffer]) ?_ hchecked ht.1 ?_
      · rw [hbuffer, hb]
        rfl
      · rw [← ht.2, ← hset]
        rfl

theorem format_turn (trigger : Trigger) (q : FormatBuffer) (s : Service) :
    Turn r s (format host fuel trigger q s).2 := by
  rcases format_state host fuel trigger q s with ⟨settings, -, h⟩ | ⟨before, settings, fs, hb, -, h⟩
  · exact .still (by rw [h]; exact ⟨rfl, rfl⟩)
  · obtain ⟨ran, -, hchain⟩ := formatWork_follows host fuel trigger q s fs before
    refine .formatted q.buffer before host s.log ran hb ?_ (by rw [h]; rfl)
    rw [h, ← hchain.formatterChain.leaves]
    rfl

theorem turn_read {α : Type} {c : Check α} {f : α → Handler Json}
    (h : ∀ a, r.body.check? c = some (.good a) → Turn r s (f a s).2) :
    Turn r s ((r.body.read c >>= f) s).2 := by
  rcases r.body.read_cases c s with ⟨a, hgood, ha⟩ | ⟨n, hn, -⟩
  · rw [bind_ok ha]
    exact h a hgood
  · rw [bind_error hn]
    exact .still (refl_of SameStores s)

theorem handle_turn {e : Endpoint} (he : r.endpoint? = some e) (s : Service) :
    Turn r s (handle host fuel r.body e s).2 := by
  cases e with
  | openBuffer id => exact turn_read fun u _ => .opened id u.path u.content rfl rfl
  | showBuffer id => exact .still (leads_showBuffer id s)
  | closeBuffer id =>
    cases h : s.buffers.get? id with
    | none =>
      rw [handle, closeBuffer_none h]
      exact .still (refl_of SameStores s)
    | some b =>
      rw [handle, closeBuffer_some h]
      exact .closed id he rfl rfl
  | attach => exact turn_read fun q hq => attach_turn ⟨he, q, hq, rfl⟩ s
  | formatChanges => exact turn_read fun q _ => format_turn .command q s
  | formatOnSave => exact turn_read fun q _ => format_turn .save q s
  | showSettings => exact .still (leads_showSettings (leads_settings _) s)
  | changeSettings => exact turn_read fun u _ => .still (leads_changeSettings u s)
  | listFormatters => exact .still (leads_listFormatters (leads_settings _) s)
  | putFormatter name => exact turn_read fun d _ => .still (leads_putFormatter name d s)
  | removeFormatter name => exact .still (leads_removeFormatter name s)
  | health => exact .still (refl_of SameStores s)

/-- The answer that comes of what a handler gave. -/
def reply : Except NoAnswer Json → HttpAnswer
  | .ok v => accept v
  | .error n => decline n

theorem answer_some {e : Endpoint} (he : r.endpoint? = some e) (s : Service) :
    answer host fuel r s =
      (reply (handle host fuel r.body e s).1, (handle host fuel r.body e s).2) := by
  unfold HttpRequest.endpoint? at he
  have hrun : (handle host fuel r.body e).run s = handle host fuel r.body e s := rfl
  simp only [answer, he, hrun]
  cases handle host fuel r.body e s with
  | mk result s' => cases result <;> rfl

theorem answer_none (he : r.endpoint? = none) (s : Service) : (answer host fuel r s).2 = s := by
  unfold HttpRequest.endpoint? at he
  unfold answer
  dsimp only
  rw [he]
  simp only [apply_ite Prod.snd, ite_self]

theorem answer_turn (host : Host) (fuel : Nat) (r : HttpRequest) (s : Service) :
    Turn r s (answer host fuel r s).2 := by
  cases he : r.endpoint? with
  | none =>
    rw [answer_none he]
    exact .still (refl_of SameStores s)
  | some e =>
    rw [answer_some he]
    exact handle_turn he s

def after (host : Host) (fuel : Nat) (s : Service) (rs : List HttpRequest) : Service :=
  rs.foldl (fun s r => (answer host fuel r s).2) s

theorem after_cons (r : HttpRequest) (rs : List HttpRequest) :
    after host fuel s (r :: rs) = after host fuel (answer host fuel r s).2 rs := rfl

theorem after_append (rs rs' : List HttpRequest) :
    after host fuel s (rs ++ rs') = after host fuel (after host fuel s rs) rs' :=
  List.foldl_append

/-- What every turn of the requests keeps holds after all of them. -/
theorem after_invariant {I : Service → Prop} {rs : List HttpRequest}
    (hkeep : ∀ r ∈ rs, ∀ s s', I s → Turn r s s' → I s') (hI : I s) :
    I (after host fuel s rs) := by
  induction rs generalizing s with
  | nil => exact hI
  | cons r rs ih =>
    rw [after_cons]
    refine ih (fun r' hr' => hkeep r' (List.mem_cons_of_mem r hr')) ?_
    exact hkeep r List.mem_cons_self s _ hI (answer_turn host fuel r s)

def HoldsTexts (s : Service) : Prop :=
  ∀ id b, s.buffers.get? id = some b → b.Holds fun _ => True

theorem HoldsTexts.set {id : Text} {b : Buffer} (hs : s.HoldsTexts)
    (hb : b.Holds fun _ => True) (h : s'.buffers = Table.set s.buffers id b) : s'.HoldsTexts := by
  intro id' b' hb'
  rw [h] at hb'
  by_cases hid : id' = id
  · rw [hid, Table.get?_set_self] at hb'
    cases hb'
    exact hb
  · rw [Table.get?_set_of_ne hid] at hb'
    exact hs id' b' hb'

end Service

end Hunkwise
