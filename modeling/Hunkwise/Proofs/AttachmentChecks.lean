import Hunkwise.Proofs.RequestTurns

/-! Attachments of a running service. Whatever requests it gets, each attachment stands under its own
key, is on an open buffer and has passed the checks. So a formatting request never fails for what
the checks look for, and a buffer that was closed comes back without attachments. -/

namespace Hunkwise

open Effect

/-- An attachment that fits its key and has passed the checks, on a buffer that is open. -/
structure Attachment.Sound (s : Service) (key : Text × Text) (a : Attachment) : Prop where
  isOpen : (s.buffers.get? key.1).isSome = true
  buffer : a.buffer = key.1
  client : a.client.name = key.2
  ranges : a.client.formatter.rangeArgs ≠ none
  vcs : (Vcs.Backend.ofName? a.config.vcs).isSome = true
  context : 0 ≤ (a.config.diff.context : Int)
  joinWithin : 0 ≤ (a.config.diff.joinWithin : Int)

theorem Attachment.Sound.mono {s s' : Service} {key : Text × Text} {a : Attachment} (h : a.Sound s key)
    (hopen : (s.buffers.get? key.1).isSome = true → (s'.buffers.get? key.1).isSome = true) :
    a.Sound s' key :=
  { h with isOpen := hopen h.isOpen }

section Failures

variable {host : Host} {limits : RequestLimits} {a : Attachment}

theorem fails_attempt {α β : Type} {act : Commands Vcs.Failure α}
    {f : Except Vcs.Failure α → Working RequestFailure β} {E : Vcs.Failure → Prop}
    {E' : RequestFailure → Prop} (hact : Fails E act)
    (hf : ∀ r, (∀ e, r = .error e → E e) → Fails E' (f r)) :
    Fails E' (Attachment.attempt act >>= f) := by
  intro w e he
  exact hf (act w.log).1 (fun e' he' => hact w.log e' he') _ e he

/-- A failure that the checks of an attachment do not rule out. -/
def RequestFailure.Allowed : RequestFailure → Prop
  | .vcs f => f.Supported
  | .format f => ∀ name, f ≠ .noRanges name
  | _ => True

theorem Client.invocation_error {c : Client} {machine : Nat → Nat → Template.Machine} {b : Buffer}
    {range : Option LineRange} {f : FormatFailure} (hc : c.formatter.formatsRanges = true)
    (h : c.invocation machine b range = .error f) : RequestFailure.Allowed (.format f) := by
  unfold invocation at h
  rw [hc, Bool.not_true, Bool.and_false, if_neg Bool.false_ne_true] at h
  split at h
  · cases h; nofun
  · cases h; nofun
  · cases h

theorem Client.fails_format (host : Host) {c : Client} (hc : c.formatter.formatsRanges = true)
    (range : Option LineRange) :
    Fails (fun f => RequestFailure.Allowed (.format f)) (c.format host range) := by
  intro w f hf
  cases hi : c.invocation (host.machine w.log) w.buffer range with
  | error g =>
    rw [c.format_refused host range w hi] at hf
    cases hf
    exact invocation_error hc hi
  | ok i =>
    cases hrun : host.run i w.log with
    | mk result log =>
      cases result with
      | error g =>
        rw [c.format_failed host range w hi hrun] at hf
        cases hf
        nofun
      | ok out =>
        rw [c.format_exited host range w hi hrun] at hf
        split at hf
        · cases hf
        · cases hf
          nofun

namespace Attachment

theorem fails_formatChanges (ha : a.client.formatter.formatsRanges = true) (baseline : List Text) :
    Fails RequestFailure.Allowed (a.formatChanges host limits baseline) := by
  refine Fails.bind (Fails.adapt ?_) fun report => fails_pure _
  intro w why hwhy
  cases why with
  | failed f =>
    obtain ⟨range, w', hf⟩ := Converge.run_failed hwhy
    rw [Client.target_format] at hf
    cases hformat : (a.client.format host (some range) w').1 with
    | ok changed => rw [hformat] at hf; cases hf
    | error g =>
      rw [hformat] at hf
      cases hf
      exact Client.fails_format host ha (some range) w' f hformat
  | unsettled passes => trivial
  | tooDeep => trivial
  | lineMissing => trivial
  | outOfFuel => trivial

theorem fails_giveUp (status : Status) (n : Notice) :
    Fails RequestFailure.Allowed (a.giveUp status n) := fun _ _ h => nomatch h

theorem fails_formatTracked (ha : a.client.formatter.formatsRanges = true) (repo : Vcs.Repository)
    (status : Vcs.FileStatus) :
    Fails RequestFailure.Allowed (a.formatTracked host limits repo status) := by
  refine fails_get.bind fun w => ?_
  dsimp only
  split
  · exact ((Client.fails_format host ha none).adapt).discard.bind fun _ => fails_pure _
  · split
    · exact fails_pure _
    · refine fails_attempt (repo.query_baseline host _).fails fun r hr => ?_
      split
      · exact fails_formatChanges ha _
      · exact fails_giveUp _ _
      · exact fails_throw (hr _ rfl)

theorem fails_formatModifications (ha : a.client.formatter.formatsRanges = true)
    (hvcs : (Vcs.Backend.ofName? a.config.vcs).isSome = true) :
    Fails RequestFailure.Allowed (a.formatModifications host limits) := by
  refine fails_get.bind fun w => ?_
  dsimp only
  split
  · next f hf =>
    unfold Vcs.Repository.ofName at hf
    split at hf
    · cases hf
    · next hnone =>
      rw [hnone] at hvcs
      cases hvcs
  · next repo _ =>
    refine fails_attempt (repo.query_locate host _).fails fun r hr => ?_
    split
    · exact fails_giveUp _ _
    · exact fails_throw (hr _ rfl)
    · next repo =>
      refine fails_attempt (repo.query_status host _).fails fun r hr => ?_
      split
      · exact fails_formatTracked ha repo _
      · exact fails_giveUp _ _
      · exact fails_giveUp _ _
      · exact fails_throw (hr _ rfl)

end Attachment

theorem fails_formatBuffer {attachments : List Attachment} {trigger : Trigger}
    (h : ∀ a ∈ attachments, a.client.formatter.formatsRanges = true ∧
      (Vcs.Backend.ofName? a.config.vcs).isSome = true) :
    Fails RequestFailure.Allowed (formatBuffer host limits attachments trigger) := by
  unfold formatBuffer
  split
  · exact fun _ _ h => nomatch h
  · refine fails_mapM fun a ha => ?_
    obtain ⟨hranges, hvcs⟩ := h a (List.mem_filter.mp ha).1
    exact Attachment.fails_formatModifications hranges hvcs

end Failures

namespace Service

variable {fuel : Nat} {r : HttpRequest} {id : Text} {s s' : Service}

def Sound (s : Service) : Prop := ∀ e ∈ s.attachments, e.2.Sound s e.1

theorem Sound.formatsRanges (hs : s.Sound) {a : Attachment} (ha : a ∈ s.attachments.forBuffer id) :
    a.client.formatter.formatsRanges = true ∧
      (Vcs.Backend.ofName? a.config.vcs).isSome = true := by
  obtain ⟨e, he, rfl⟩ := List.mem_map.mp ha
  have hsound := hs e (List.mem_filter.mp he).1
  exact ⟨Option.isSome_iff_ne_none.mpr hsound.ranges, hsound.vcs⟩

theorem failure_cases (g : RequestFailure) :
    (∃ d, failure g = .refused 502 d) ∨ failure g = .crashed (.request g) := by
  unfold failure
  dsimp only
  split
  · exact .inl ⟨_, rfl⟩
  · exact .inl ⟨_, rfl⟩
  · exact .inl ⟨_, rfl⟩
  · exact .inr rfl

theorem failure_ne_refused {status : Nat} {d : Json} (g : RequestFailure) (h : status ≠ 502) :
    NoAnswer.refused status d ≠ failure g := by
  intro he
  rcases failure_cases g with ⟨d', hg⟩ | hg
  · rw [hg] at he
    cases he
    exact h rfl
  · rw [hg] at he
    cases he

theorem failure_ne_crashed {why : Crash} (g : RequestFailure) (h : why ≠ .request g) :
    NoAnswer.crashed why ≠ failure g := by
  intro he
  rcases failure_cases g with ⟨d', hg⟩ | hg
  · rw [hg] at he
    cases he
  · rw [hg] at he
    cases he
    exact h rfl

def initial? : NoAnswer → Option Letter
  | .refused _ (.obj ((_, .str message) :: _)) => message.letters.head?
  | _ => none

/-- What a request is refused with tells which failure it was, as far as the checks go: the
messages of the other failures begin with another letter. -/
theorem failure_allowed {f g : RequestFailure} (h : failure f = failure g) (hf : f.Allowed) :
    g.Allowed := by
  have hinitial := congrArg initial? h
  cases g with
  | vcs v =>
    rcases failure_cases f with ⟨d, hd⟩ | hd
    · rw [hd] at h
      cases h
    · rw [hd] at h
      cases h
      exact hf
  | format k =>
    rintro name rfl
    cases f with
    | format k' =>
      cases k' with
      | noRanges name' => exact hf name' rfl
      | exited name' code stderr => cases hinitial
      | template fault => cases h
      | noCommand => cases h
      | process fault => cases h
    | unsettled passes => cases hinitial
    | vcs v => cases h
    | tooDeep => cases h
    | lineMissing => cases h
    | outOfFuel => cases h
  | unsettled passes => trivial
  | tooDeep => trivial
  | lineMissing => trivial
  | outOfFuel => trivial

theorem forBuffer_eq_nil {reg : Registry} :
    reg.forBuffer id = [] ↔ ∀ e ∈ reg, e.1.1 ≠ id := by
  simp [Registry.forBuffer]

theorem attachProblem_eq_none {f : Formatter} {config : AttachConfig}
    (h : attachProblem f config = none) :
    f.formatsRanges = true ∧ (Vcs.Backend.ofName? config.vcs).isSome = true := by
  unfold attachProblem at h
  split at h
  · cases h
  · next hranges =>
    split at h
    · cases h
    · next hvcs => exact ⟨by simpa using hranges, by simpa [Option.isSome_iff_ne_none] using hvcs⟩

theorem mem_detach {reg : Registry} {e : (Text × Text) × Attachment} :
    e ∈ (reg.detach id none).2 ↔ e ∈ reg ∧ e.1.1 ≠ id := by
  simp [Registry.detach, Registry.matchesKey]

theorem Turn.sound (h : Turn r s s') (hs : s.Sound) : s'.Sound := by
  intro e he
  cases h with
  | still same =>
    rw [same.2] at he
    exact (hs e he).mono fun hopen => by rwa [same.1]
  | opened id path text buffers attachments =>
    rw [attachments] at he
    exact (hs e he).mono fun hopen => by rw [buffers]; exact Table.isSome_get?_set hopen _ _
  | closed id asked buffers attachments =>
    -- what is left of the attachments is on other buffers, and these stay open
    rw [attachments] at he
    obtain ⟨he, hid⟩ := mem_detach.mp he
    exact (hs e he).mono fun hopen => by
      rwa [buffers, Store.close, Table.get?_without_of_ne hid]
  | attached a asked isOpen checked buffers attachments =>
    rw [attachments] at he
    rcases Table.mem_set he with rfl | he
    · obtain ⟨hranges, hvcs⟩ := attachProblem_eq_none checked
      exact {
        isOpen := by rwa [buffers]
        buffer := rfl
        client := rfl
        ranges := Option.isSome_iff_ne_none.mp hranges
        vcs := hvcs
        context := Int.natCast_nonneg _
        joinWithin := Int.natCast_nonneg _ }
    · exact (hs e he).mono fun hopen => by rwa [buffers]
  | formatted id before host log ran isOpen buffers attachments =>
    rw [attachments] at he
    exact (hs e he).mono fun hopen => by rw [buffers]; exact Table.isSome_get?_set hopen _ _

/-- Only a request to attach gives a buffer an attachment. -/
theorem Turn.forBuffer_eq_nil (h : Turn r s s') (hr : ¬ r.Attaches id)
    (hs : s.attachments.forBuffer id = []) : s'.attachments.forBuffer id = [] := by
  cases h with
  | still same => rw [same.2, hs]
  | opened id path text buffers attachments => rw [attachments, hs]
  | closed id' asked buffers attachments =>
    rw [attachments, Service.forBuffer_eq_nil]
    intro e he
    exact Service.forBuffer_eq_nil.mp hs e (mem_detach.mp he).1
  | attached a asked isOpen checked buffers attachments =>
    rw [attachments, Service.forBuffer_eq_nil]
    intro e he
    rcases Table.mem_set he with rfl | he
    · rintro rfl
      exact hr asked
    · exact Service.forBuffer_eq_nil.mp hs e he
  | formatted id before host log ran isOpen buffers attachments => rw [attachments, hs]

theorem Sound.close (hs : s.Sound) (hr : r.endpoint? = some (.closeBuffer id)) :
    (answer host fuel r s).2.attachments.forBuffer id = [] := by
  rw [answer_some hr, forBuffer_eq_nil, handle]
  cases hb : s.buffers.get? id with
  | none =>
    -- a buffer that is not open has no attachments to drop
    rw [closeBuffer_none hb]
    rintro e he rfl
    have hopen := (hs e he).isOpen
    rw [hb] at hopen
    cases hopen
  | some b =>
    rw [closeBuffer_some hb]
    intro e he
    exact (mem_detach.mp he).2

theorem Sound.format_failure {trigger : Trigger} {q : FormatBuffer} {g : RequestFailure}
    (hs : s.Sound) (h : (format host fuel trigger q s).1 = .error (failure g)) : g.Allowed := by
  rcases format_cases host fuel trigger q s with
    hc | ⟨f, settings, -, hc⟩ | ⟨before, fs, settings, result, w, -, -, hwork, hc⟩
  · rw [hc] at h
    exact absurd (Except.error.inj h) (failure_ne_refused g (by decide))
  · rw [hc] at h
    exact absurd (Except.error.inj h) (failure_ne_crashed g nofun)
  · rw [hc] at h
    rcases formatReply_error h with hdeep | ⟨f, rfl, hf⟩
    · exact absurd hdeep.symm (failure_ne_crashed g nofun)
    · have hallowed := fails_formatBuffer (fun a ha => hs.formatsRanges ha) _ f
        (congrArg Prod.fst hwork)
      exact failure_allowed hf.symm hallowed

theorem Sound.handle_failure {e : Endpoint} {body : Body} {g : RequestFailure} (hs : s.Sound)
    (he : e = .formatChanges ∨ e = .formatOnSave)
    (h : (handle host fuel body e s).1 = .error (failure g)) : g.Allowed := by
  obtain ⟨trigger, htrigger⟩ : ∃ trigger, handle host fuel body e =
      (body.read FormatBuffer.check >>= fun q => format host fuel trigger q) := by
    rcases he with rfl | rfl
    · exact ⟨.command, rfl⟩
    · exact ⟨.save, rfl⟩
  rw [htrigger] at h
  rcases body.read_cases FormatBuffer.check s with ⟨q, -, hq⟩ | ⟨n, hn, ⟨d, rfl⟩ | ⟨ps, rfl⟩⟩
  · rw [bind_ok hq] at h
    exact hs.format_failure h
  · rw [bind_error hn] at h
    exact absurd (Except.error.inj h) (failure_ne_refused g (by decide))
  · rw [bind_error hn] at h
    rcases failure_cases g with ⟨d, hg⟩ | hg
    · rw [hg] at h; cases h
    · rw [hg] at h; cases h

/-- Whatever requests a service gets, its attachments stay sound: no formatting request fails because of
an unknown backend or a formatter without ranges, and a closed buffer has no attachments. -/
theorem requests_keep_attachments_sound (host : Host) (fuel : Nat) (settings : Settings)
    (rs : List HttpRequest) :
    let s := after host fuel { settings } rs
    s.Sound ∧
    (∀ e body name, e = .formatChanges ∨ e = .formatOnSave →
      (handle host fuel body e s).1 ≠ .error (failure (.vcs (.unsupported name))) ∧
      (handle host fuel body e s).1 ≠ .error (failure (.format (.noRanges name)))) ∧
    ∀ earlier close later id, rs = earlier ++ close :: later →
      close.endpoint? = some (.closeBuffer id) → (∀ r ∈ later, ¬ r.Attaches id) →
      s.attachments.forBuffer id = [] := by
  intro s
  have hstart : Sound { settings } := fun e he => absurd he List.not_mem_nil
  have hreached (rs : List HttpRequest) : (after host fuel { settings } rs).Sound :=
    after_invariant (fun r _ _ _ hs h => h.sound hs) hstart
  refine ⟨hreached rs, ?_, ?_⟩
  · intro e body name he
    exact ⟨fun h => (hreached rs).handle_failure he h name rfl,
      fun h => (hreached rs).handle_failure he h name rfl⟩
  · rintro earlier close later id rfl hclose hlater
    rw [show s = _ from after_append earlier (close :: later), after_cons]
    exact after_invariant (fun r hr _ _ hs h => h.forBuffer_eq_nil (hlater r hr) hs)
      ((hreached earlier).close hclose)

end Service

end Hunkwise
