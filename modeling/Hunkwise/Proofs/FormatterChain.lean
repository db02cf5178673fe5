import Hunkwise.Proofs.Calls
import Hunkwise.Proofs.Queries
import Hunkwise.Request

/-! The commands of a formatting request. However the request ends, its formatters form a chain:
each of them reads the lines that the last one before it that exited with zero wrote, and the lines
of the last one of all are those that the buffer is left with. Queries of version control come in
between and read nothing. -/

namespace Hunkwise

open Effect

variable {host : Host} {clients : List Client} {log ran ran' : List Invocation} {i : Invocation}
  {b b' b'' : Buffer}

/-- What a formatter wrote, if it exited with zero. Only formatters are given something to read. -/
def Host.written? (host : Host) (log : List Invocation) (i : Invocation) : Option (List Text) :=
  match i.stdin, host log i with
  | some _, .exited 0 stdout _ => some (Text.outputLines (Text.decodeLossy stdout))
  | _, _ => none

/-- What the last formatter of `ran` that exited with zero wrote; `log` ran before. -/
def Host.lastWritten? (host : Host) : List Invocation → List Invocation → Option (List Text)
  | _, [] => none
  | log, i :: ran => (host.lastWritten? (log ++ [i]) ran).or (host.written? log i)

/-- The buffer with the lines that the last formatter of `ran` left; its own if there is none. -/
def Buffer.writtenBy (b : Buffer) (host : Host) (log ran : List Invocation) : Buffer :=
  { b with lines := (host.lastWritten? log ran).getD b.lines }

/-- A request on the buffer `b` ran the commands `ran` after `log`, and left the buffer `b'`. -/
inductive Chain (host : Host) (clients : List Client) :
    List Invocation → Buffer → List Invocation → Buffer → Prop
  | done (log : List Invocation) (b : Buffer) : Chain host clients log b [] b
  | query {log ran : List Invocation} {b b' : Buffer} {i : Invocation} : i.IsQuery →
      Chain host clients (log ++ [i]) b ran b' → Chain host clients log b (i :: ran) b'
  | formatter {log ran : List Invocation} {b b' : Buffer} {i : Invocation} {c : Client}
      {range : Option LineRange} : c ∈ clients → c.invocation (host.machine log) b range = .ok i →
      Chain host clients (log ++ [i]) (b.writtenBy host log [i]) ran b' →
      Chain host clients log b (i :: ran) b'

theorem Chain.append (h : Chain host clients log b ran b')
    (h' : Chain host clients (log ++ ran) b' ran' b'') :
    Chain host clients log b (ran ++ ran') b'' := by
  induction h with
  | done log b => simpa using h'
  | query hq _ ih => exact .query hq (ih (by simpa using h'))
  | formatter hc hi _ ih => exact .formatter hc hi (ih (by simpa using h'))

theorem Host.written?_of_isQuery (h : i.IsQuery) (host : Host) (log : List Invocation) :
    host.written? log i = none := by
  rw [Host.written?, h.stdin]

theorem Buffer.writtenBy_cons (b : Buffer) (host : Host) (log : List Invocation) (i : Invocation)
    (ran : List Invocation) :
    (b.writtenBy host log [i]).writtenBy host (log ++ [i]) ran = b.writtenBy host log (i :: ran) := by
  simp only [Buffer.writtenBy, Host.lastWritten?, Option.none_or]
  cases host.lastWritten? (log ++ [i]) ran <;> rfl

theorem Buffer.writtenBy_query (h : i.IsQuery) (b : Buffer) (host : Host) (log : List Invocation) :
    b.writtenBy host log [i] = b := by
  simp [Buffer.writtenBy, Host.lastWritten?, Host.written?_of_isQuery h]

structure FormatterChain (host : Host) (clients : List Client) (log : List Invocation)
    (before : Buffer) (ran : List Invocation) (after : Buffer) : Prop where
  /-- A command is a query, or a client's formatter over the buffer as it was left before. -/
  reads : ∀ earlier i later, ran = earlier ++ i :: later → i.IsQuery ∨
    ∃ c ∈ clients, ∃ range,
      c.invocation (host.machine (log ++ earlier)) (before.writtenBy host log earlier) range = .ok i ∧
      i.stdin = some (Text.terminated (before.writtenBy host log earlier).lines)
  leaves : after = before.writtenBy host log ran

theorem Chain.formatterChain (h : Chain host clients log b ran b') :
    FormatterChain host clients log b ran b' := by
  induction h with
  | done log b =>
    exact ⟨fun earlier i later he => absurd he (by simp), rfl⟩
  | @query log ran b b' i hq _ ih =>
    refine ⟨?_, ?_⟩
    · intro earlier j later he
      rcases List.cons_eq_append_iff.mp he with ⟨rfl, he⟩ | ⟨earlier, rfl, he⟩
      · cases he
        exact .inl hq
      · rw [List.append_cons log i earlier, ← Buffer.writtenBy_cons, Buffer.writtenBy_query hq]
        exact ih.reads earlier j later (List.cons.inj he).2
    · rw [← Buffer.writtenBy_cons, Buffer.writtenBy_query hq]
      exact ih.leaves
  | @formatter log ran b b' i c range hc hi _ ih =>
    refine ⟨?_, ?_⟩
    · intro earlier j later he
      rcases List.cons_eq_append_iff.mp he with ⟨rfl, he⟩ | ⟨earlier, rfl, he⟩
      · cases he
        exact .inr ⟨c, hc, range, by rwa [List.append_nil], Client.invocation_stdin hi⟩
      · rw [List.append_cons log i earlier, ← Buffer.writtenBy_cons]
        exact ih.reads earlier j later (List.cons.inj he).2
    · rw [← Buffer.writtenBy_cons]
      exact ih.leaves

theorem chain_of_queries (h : ∀ i ∈ ran, i.IsQuery) (log : List Invocation) (b : Buffer) :
    Chain host clients log b ran b := by
  induction ran generalizing log with
  | nil => exact .done log b
  | cons i ran ih =>
    exact .query (h i List.mem_cons_self) (ih (fun j hj => h j (List.mem_cons_of_mem i hj)) _)

section Requests

/-- One state of a request comes after another: what it ran in between is a chain. -/
def Follows (host : Host) (clients : List Client) (w w' : Work) : Prop :=
  ∃ ran, w'.log = w.log ++ ran ∧ Chain host clients w.log w.buffer ran w'.buffer

instance : IsPreorder Work (Follows host clients) where
  refl w := ⟨[], (List.append_nil _).symm, .done _ _⟩
  trans := by
    rintro a b c ⟨ran, hlog, h⟩ ⟨ran', hlog', h'⟩
    rw [hlog] at hlog' h'
    exact ⟨ran ++ ran', by rw [hlog', List.append_assoc], h.append h'⟩

theorem leads_attempt {α : Type} {act : Commands Vcs.Failure α} (h : Leads Asks act) :
    Leads (Follows host clients) (Attachment.attempt act) := by
  intro w
  obtain ⟨ran, hlog, hran⟩ := h w.log
  exact ⟨ran, hlog, chain_of_queries hran _ _⟩

theorem leads_give (n : Notice) :
    Leads (Follows host clients) (Working.give n : Working RequestFailure Unit) :=
  fun _ => ⟨[], (List.append_nil _).symm, .done _ _⟩

/-- A formatter that did not exit with zero wrote nothing that counts. -/
theorem Host.written?_eq_none
    (h : ∀ stdout stderr, host log i ≠ .exited 0 stdout stderr) : host.written? log i = none := by
  unfold Host.written?
  split
  · next hr => exact absurd hr (h _ _)
  · rfl

theorem Client.leads_format {c : Client} (hc : c ∈ clients) (range : Option LineRange) :
    Leads (Follows host clients) (c.format host range) := by
  intro w
  rcases c.format_cases host range w with
    ⟨f, h⟩ | ⟨i, hi, ⟨f, hexit, h⟩ | ⟨stdout, stderr, hexit, h⟩⟩
  · rw [h]
    exact refl_of (Follows host clients) w
  · rw [h]
    refine ⟨[i], rfl, .formatter hc hi ?_⟩
    rw [Buffer.writtenBy, Host.lastWritten?, Host.written?_eq_none hexit]
    exact .done _ _
  · rw [h]
    refine ⟨[i], rfl, .formatter hc hi ?_⟩
    rw [Buffer.writtenBy, Host.lastWritten?, Host.written?, Client.invocation_stdin hi, hexit]
    exact .done _ _

theorem Client.target_format (c : Client) (host : Host) (range : LineRange) (w : Work) :
    (c.target host).format range w =
      ((c.format host (some range) w).1.map fun _ => (), (c.format host (some range) w).2) := by
  unfold Client.target
  dsimp only
  split <;> next h => rw [h]; rfl

theorem Client.target_follows {c : Client} (hc : c ∈ clients) (range : LineRange) (w : Work) :
    Follows host clients w ((c.target host).format range w).2 := by
  rw [Client.target_format]
  exact Client.leads_format hc (some range) w

/-- Every call of a run goes on with the chain. -/
theorem Client.target_keeps {c : Client} (hc : c ∈ clients) (o : Diff.Options) (comparison : Text)
    (w : Work) : (c.target host).Keeps o comparison (Follows host clients w) :=
  fun _ w' _ hw' _ _ _ _ _ _ range _ =>
    trans_of (Follows host clients) hw' (Client.target_follows hc range w')

namespace Attachment

variable {a : Attachment} (limits : RequestLimits)

theorem leads_formatFile (ha : a.client ∈ clients) :
    Leads (Follows host clients) (a.formatFile host) :=
  ((Client.leads_format ha none).adapt _).discard.bind fun _ => leads_pure _

theorem leads_formatChanges (ha : a.client ∈ clients) (baseline : List Text) :
    Leads (Follows host clients) (a.formatChanges host limits baseline) := by
  refine Leads.bind (Leads.adapt ?_ _) fun report => leads_pure _
  intro w
  exact Converge.run_invariant (Client.target_keeps ha _ _ w) (refl_of (Follows host clients) w)

theorem leads_giveUp (status : Status) (n : Notice) :
    Leads (Follows host clients) (a.giveUp status n) :=
  (leads_give n).bind fun _ => leads_pure _

theorem leads_formatTracked (ha : a.client ∈ clients) (repo : Vcs.Repository)
    (status : Vcs.FileStatus) :
    Leads (Follows host clients) (a.formatTracked host limits repo status) := by
  refine leads_get.bind fun w => ?_
  dsimp only
  split
  · exact leads_formatFile ha
  · split
    · exact leads_pure _
    · refine (leads_attempt (repo.query_baseline host _).leads).bind fun r => ?_
      split
      · exact leads_formatChanges limits ha _
      · exact leads_giveUp _ _
      · exact leads_throw _

theorem leads_formatModifications (ha : a.client ∈ clients) :
    Leads (Follows host clients) (a.formatModifications host limits) := by
  refine leads_get.bind fun w => ?_
  dsimp only
  split
  · exact leads_throw _
  · next repo _ =>
    refine (leads_attempt (repo.query_locate host _).leads).bind fun r => ?_
    split
    · exact leads_giveUp _ _
    · exact leads_throw _
    · next repo =>
      refine (leads_attempt (repo.query_status host _).leads).bind fun r => ?_
      split
      · exact leads_formatTracked limits ha repo _
      · exact leads_giveUp _ _
      · exact leads_giveUp _ _
      · exact leads_throw _

end Attachment

theorem leads_formatBuffer (host : Host) (limits : RequestLimits) (attachments : List Attachment)
    (trigger : Trigger) :
    Leads (Follows host (attachments.map Attachment.client))
      (formatBuffer host limits attachments trigger) := by
  unfold formatBuffer
  split
  · exact (leads_give _).bind fun _ => leads_pure _
  · refine leads_mapM fun a ha => ?_
    exact Attachment.leads_formatModifications limits
      (List.mem_map_of_mem (List.mem_filter.mp ha).1)

end Requests

end Hunkwise
