import Hunkwise.Process.Script
import Hunkwise.Proofs.PassLimit
import Hunkwise.Proofs.SteadyHost

/-! The course of a request that came to an outcome. Version control is asked first, one question
after the other, and the first one that is not answered ends the request; formatters run only after
that. What was run, what the buffer became and which notices were given can be read off the
outcome. -/

namespace Hunkwise

open Effect

variable {host : Host} {log is js : List Invocation} {i : Invocation}

section Questions

def Host.Exits (host : Host) : List Invocation → List Invocation → Prop
  | _, [] => True
  | log, i :: is =>
    (∃ stdout stderr, host log i = .exited 0 stdout stderr) ∧ host.Exits (log ++ [i]) is

theorem Host.exits_append :
    host.Exits log (is ++ js) ↔ host.Exits log is ∧ host.Exits (log ++ is) js := by
  induction is generalizing log with
  | nil => simp [Host.Exits]
  | cons i is ih => simp [Host.Exits, ih, and_assoc]

/-- A program that runs commands in order up to the first one that does not exit with zero. It gives
a result only after all of them did. -/
def Host.Runs {α : Type} (host : Host) (is : List Invocation) (x : Commands Vcs.Failure α) : Prop :=
  ∀ log, ∃ ran, ran <+: is ∧ (x log).2 = log ++ ran ∧
    ∀ a, (x log).1 = .ok a → ran = is ∧ host.Exits log is

namespace Host.Runs

variable {α β : Type} {x : Commands Vcs.Failure α} {f : α → Commands Vcs.Failure β}

theorem bind (hx : host.Runs is x) (hf : ∀ a, host.Runs js (f a)) :
    host.Runs (is ++ js) (x >>= f) := by
  intro log
  obtain ⟨ran, hran, hlog, hall⟩ := hx log
  rcases bind_cases x f log with ⟨a, ha, h⟩ | ⟨e, -, h⟩
  · obtain ⟨rfl, hexits⟩ := hall a ha
    obtain ⟨ran', hran', hlog', hall'⟩ := hf a (log ++ ran)
    refine ⟨ran ++ ran', (List.prefix_append_right_inj ran).mpr hran', ?_, ?_⟩
    · rw [h, hlog, hlog', List.append_assoc]
    · intro b hb
      rw [h, hlog] at hb
      obtain ⟨rfl, hexits'⟩ := hall' b hb
      exact ⟨rfl, Host.exits_append.mpr ⟨hexits, hexits'⟩⟩
  · refine ⟨ran, hran.trans (List.prefix_append is js), by rw [h, hlog], ?_⟩
    intro b hb
    rw [h] at hb
    cases hb

/-- A question whose answer counts only if the command exits with zero. -/
theorem asked (r : Vcs.Repository) (directory : Option Text) (args : List Text)
    (read : Output → Except Vcs.Failure α) (e : Vcs.Failure) :
    host.Runs [r.invocation args directory] (r.runIn host directory args >>= fun out =>
      if out.ok then ExceptT.mk (pure (read out)) else throw e) := by
  intro log
  refine ⟨[r.invocation args directory], List.prefix_refl _, ?_, ?_⟩
  · have hlog : (r.runIn host directory args log).2 = log ++ [r.invocation args directory] := by
      unfold Vcs.Repository.runIn
      rw [adapt_apply, Host.run_encodable host rfl]
    rcases bind_cases (r.runIn host directory args) _ log with ⟨out, -, h⟩ | ⟨e, -, h⟩
    · rw [h, hlog]
      split <;> rfl
    · rw [h, hlog]
  · intro a ha
    obtain ⟨out, log', hrun, hread⟩ := bind_inv (Prod.ext ha rfl)
    have hrun := (adapt_eq_ok _).mp hrun
    rw [Host.run_encodable host rfl] at hrun
    split at hread
    · next hok =>
      obtain ⟨stdout, stderr, hexit, -⟩ := Response.output_ok (congrArg Prod.fst hrun) hok
      exact ⟨rfl, ⟨stdout, stderr, hexit⟩, trivial⟩
    · cases hread

/-- What is asked about a file starts with its path in the repository; without one, nothing is. -/
theorem relative {r : Vcs.Repository} {path relative : Text}
    {f : Text → Commands Vcs.Failure β} (hr : ∀ p, r.relativize path = .ok p → p = relative)
    (hf : host.Runs is (f relative)) : host.Runs is (r.relativePath path >>= f) := by
  cases h : r.relativize path with
  | ok p =>
    obtain rfl := hr p h
    intro log
    rw [Vcs.Repository.relativePath, h, bind_done]
    exact hf log
  | error e =>
    intro log
    rw [Vcs.Repository.relativePath, h]
    exact ⟨[], List.nil_prefix, (List.append_nil log).symm, nofun⟩

end Host.Runs

def Invocation.ReadsBaseline (i : Invocation) : Prop :=
  ∃ (backend : Vcs.Backend) (path : Text),
    i.argv = backend.program :: Vcs.Repository.baselineQuery backend path

namespace Vcs.Repository

def rootQuestion (r : Repository) (path : Text) : Invocation :=
  r.invocation (rootQuery r.backend) (some (Path.directory path))

def statusQueries : Backend → Text → List (List Text)
  | .git, path => [Git.statusQuery path]
  | .mercurial, path => [Mercurial.conflictsQuery path, Mercurial.statusQuery path]

def statusQuestions (r : Repository) (relative : Text) : List Invocation :=
  (statusQueries r.backend relative).map fun args => r.invocation args r.root

def baselineQuestion (r : Repository) (relative : Text) : Invocation :=
  r.invocation (baselineQuery r.backend relative) r.root

/-- All that may be asked about a file, in its order; `found` is the repository with its root. -/
def questions (r found : Repository) (path relative : Text) : List Invocation :=
  r.rootQuestion path :: (found.statusQuestions relative ++ [found.baselineQuestion relative])

variable {r : Repository} {path relative : Text}

theorem exists_relative (r : Repository) (path : Text) :
    ∃ relative, ∀ p, r.relativize path = .ok p → p = relative := by
  cases r.relativize path with
  | ok p => exact ⟨p, fun q hq => (Except.ok.inj hq).symm⟩
  | error e => exact ⟨"", nofun⟩

theorem runs_locate (host : Host) (r : Repository) (path : Text) :
    host.Runs [r.rootQuestion path] (locate host r path) :=
  .asked r _ _ (fun out => .ok { r with root := some (Text.join out.stdout) }) _

theorem runs_conflicts (host : Host) (hr : ∀ p, r.relativize path = .ok p → p = relative) :
    host.Runs [r.invocation (Mercurial.conflictsQuery relative) r.root]
      (conflicts host r path) :=
  .relative hr (.asked r _ _ (fun out => .ok (Mercurial.readConflicts out.stdout)) _)

theorem runs_status (host : Host) (hr : ∀ p, r.relativize path = .ok p → p = relative) :
    host.Runs (r.statusQuestions relative) (status host r path) := by
  unfold status statusQuestions
  cases r.backend with
  | git => exact .relative hr (.asked r _ _ (fun out => Git.readListing out.stdout) _)
  | mercurial =>
    apply (runs_conflicts host hr).bind
    intro unresolved
    exact .relative hr
      (.asked r _ _ (fun out => .ok (Mercurial.readStatus unresolved out.stdout)) _)

theorem runs_baseline (host : Host) (hr : ∀ p, r.relativize path = .ok p → p = relative) :
    host.Runs [r.baselineQuestion relative] (baseline host r path) :=
  .relative hr (.asked r _ _ (fun out => .ok out.stdout) _)

theorem isQuery_questions (r found : Repository) (path relative : Text) :
    ∀ i ∈ r.questions found path relative, i.IsQuery := by
  have hquery (r : Repository) (args : List Text) (directory : Option Text) :
      (r.invocation args directory).IsQuery := ⟨⟨r.backend, rfl⟩, rfl⟩
  intro i hi
  simp only [questions, rootQuestion, statusQuestions, baselineQuestion, List.mem_cons,
    List.mem_append, List.mem_map, List.not_mem_nil, or_false] at hi
  rcases hi with rfl | ⟨args, -, rfl⟩ | rfl <;> apply hquery

theorem head_baselineQuery (backend : Backend) (path : Text) :
    (baselineQuery backend path).head? ∈ ([some "--no-pager", some "cat"] : List (Option Text)) := by
  cases backend <;> simp [baselineQuery, Git.baselineQuery, Mercurial.baselineQuery]

theorem head_otherQuery {backend : Backend} {path : Text} {args : List Text}
    (h : args ∈ rootQuery backend :: statusQueries backend path) :
    args.head? ∈ ([some "rev-parse", some "root", some "-c", some "resolve", some "status"] :
      List (Option Text)) := by
  cases backend with
  | git =>
    simp only [rootQuery, statusQueries, Git.statusQuery, List.mem_cons, List.not_mem_nil,
      or_false] at h
    rcases h with rfl | rfl <;> simp
  | mercurial =>
    simp only [rootQuery, statusQueries, Mercurial.conflictsQuery, Mercurial.statusQuery,
      List.mem_cons, List.not_mem_nil, or_false] at h
    rcases h with rfl | rfl | rfl <;> simp

theorem not_readsBaseline {args : List Text} (directory : Option Text)
    (h : args ∈ rootQuery r.backend :: statusQueries r.backend relative) :
    ¬ (r.invocation args directory).ReadsBaseline := by
  rintro ⟨backend, path', hargv⟩
  -- a baseline is asked for by a first argument that no other question has
  obtain rfl : args = baselineQuery backend path' := (List.cons.inj hargv).2
  have hbaseline := head_baselineQuery backend path'
  have hother := head_otherQuery h
  generalize (baselineQuery backend path').head? = word at hbaseline hother
  revert word
  decide

theorem questions_baseline_once (r found : Repository) (path relative : Text) :
    (r.questions found path relative).Pairwise fun i j => ¬ (i.ReadsBaseline ∧ j.ReadsBaseline) := by
  have hroot : ¬ (r.rootQuestion path).ReadsBaseline :=
    not_readsBaseline _ (List.mem_cons_self (l := statusQueries r.backend relative))
  have hstatus : ∀ i ∈ found.statusQuestions relative, ¬ i.ReadsBaseline := by
    intro i hi
    obtain ⟨args, hargs, rfl⟩ := List.mem_map.mp hi
    exact not_readsBaseline _ (List.mem_cons_of_mem _ hargs)
  refine List.pairwise_cons.mpr ⟨fun j _ h => hroot h.1, ?_⟩
  refine List.pairwise_append.mpr
    ⟨?_, List.pairwise_singleton _ _, fun i hi _ _ h => hstatus i hi h.1⟩
  exact List.pairwise_of_forall_mem_list fun i hi _ _ h => hstatus i hi h.1

end Vcs.Repository

end Questions

section Formatters

variable {c : Client} {b : Buffer} {w w₁ w' : Work}

/-- The command is the client's own with the given arguments, filled in after `log` for a range of some
lines; and it reads these lines. -/
structure Client.Renders (host : Host) (c : Client) (log : List Invocation) (args : List Text)
    (path : Text) (lines : List Text) (range : LineRange) (i : Invocation) : Prop where
  argv : Template.fillAll (host.machine log) (Client.values path lines range)
    (c.formatter.command ++ args) = .ok i.argv
  stdin : i.stdin = some (Text.terminated lines)

theorem Client.Renders.not_isQuery {log : List Invocation} {args lines : List Text} {path : Text}
    {range : LineRange} (h : c.Renders host log args path lines range i) : ¬ i.IsQuery := by
  intro hi
  have := h.stdin
  simp [hi.stdin] at this

theorem Client.invocation_argv {machine : Nat → Nat → Template.Machine} {range : Option LineRange}
    (h : c.invocation machine b range = .ok i) :
    (range.isSome && !c.formatter.formatsRanges) = false ∧ c.argv machine b range = .ok i.argv := by
  unfold Client.invocation at h
  split at h
  · cases h
  · next hranges =>
    refine ⟨by simpa using hranges, ?_⟩
    split at h
    · cases h
    · cases h
    · next hargv =>
      cases h
      exact hargv

theorem Client.renders_file {log : List Invocation}
    (h : c.invocation (host.machine log) b none = .ok i) :
    c.Renders host log c.formatter.fileArgs b.path b.lines (Client.wholeRange b.lines) i :=
  ⟨(Client.invocation_argv h).2, Client.invocation_stdin h⟩

theorem Client.renders_range {log : List Invocation} {range : LineRange}
    (h : c.invocation (host.machine log) b (some range) = .ok i) :
    ∃ args, c.formatter.rangeArgs = some args ∧ c.Renders host log args b.path b.lines range i := by
  obtain ⟨hranges, hargv⟩ := Client.invocation_argv h
  obtain ⟨args, hargs⟩ : ∃ args, c.formatter.rangeArgs = some args := by
    rw [← Option.isSome_iff_exists]
    simpa [Formatter.formatsRanges] using hranges
  refine ⟨args, hargs, ?_, Client.invocation_stdin h⟩
  simpa [Client.argv, Client.templates, hargs] using hargv

theorem Client.format_ok {range : Option LineRange} {changed : Bool}
    (h : c.format host range w = (.ok changed, w')) :
    ∃ i, c.invocation (host.machine w.log) w.buffer range = .ok i ∧ w'.log = w.log ++ [i] ∧
      w'.buffer.path = w.buffer.path ∧ w'.notices = w.notices := by
  rcases c.format_cases host range w with
    ⟨f, hf⟩ | ⟨i, hi, ⟨f, -, hf⟩ | ⟨stdout, stderr, -, hf⟩⟩
  · rw [hf] at h
    cases h
  · rw [hf] at h
    cases h
  · rw [hf] at h
    cases h
    exact ⟨i, hi, rfl, rfl, rfl⟩

/-- From one state of a request to another, a client ran over `n` ranges and did nothing else. -/
def Client.RanOver (host : Host) (c : Client) (w : Work) (n : Nat) (w' : Work) : Prop :=
  ∃ formatters, w'.log = w.log ++ formatters ∧ formatters.length = n ∧
    w'.buffer.path = w.buffer.path ∧ w'.notices = w.notices ∧
    ∀ earlier i later, formatters = earlier ++ i :: later →
      ∃ args lines range, c.formatter.rangeArgs = some args ∧
        c.Renders host (w.log ++ earlier) args w.buffer.path lines range i

theorem Client.RanOver.format {n : Nat} (range : LineRange) (h : c.RanOver host w n w₁)
    (hok : ((c.target host).format range w₁).1 = .ok ()) :
    c.RanOver host w (n + 1) ((c.target host).format range w₁).2 := by
  rw [Client.target_format] at hok ⊢
  cases hformat : c.format host (some range) w₁ with
  | mk result w₂ =>
    rw [hformat] at hok
    cases result with
    | error f => cases hok
    | ok changed =>
      obtain ⟨i, hi, hlog, hpath, hnotices⟩ := Client.format_ok hformat
      obtain ⟨args, hargs, hrenders⟩ := Client.renders_range hi
      obtain ⟨formatters, hlog₁, rfl, hpath₁, hnotices₁, hall⟩ := h
      refine ⟨formatters ++ [i], ?_, by simp, hpath.trans hpath₁, hnotices.trans hnotices₁, ?_⟩
      · rw [hlog, hlog₁, List.append_assoc]
      · intro earlier j later hj
        rcases later.eq_nil_or_concat with rfl | ⟨later, k, rfl⟩
        · obtain ⟨rfl, hij⟩ := List.append_inj' hj rfl
          cases hij
          exact ⟨args, _, range, hargs, hlog₁ ▸ hpath₁ ▸ hrenders⟩
        · rw [List.concat_eq_append, ← List.cons_append, ← List.append_assoc] at hj
          exact hall earlier j later (List.append_inj' hj rfl).1

theorem Attachment.formatChanges_ranOver {a : Attachment} {limits : RequestLimits}
    {baseline : List Text} {o : Outcome}
    (h : a.formatChanges host limits baseline w = (.ok o, w')) :
    ∃ report, o = a.changesOutcome report ∧ a.client.RanOver host w report.formatCalls w' := by
  obtain ⟨report, hrun, ho⟩ := (Attachment.formatChanges_eq_ok host a).mp h
  refine ⟨report, ho, ?_⟩
  have hstart : a.client.RanOver host w 0 w := ⟨[], by simp, rfl, rfl, rfl, by simp⟩
  exact Converge.run_counted (R := a.client.RanOver host w) (fun n w₁ range => .format range) hrun hstart

theorem Attachment.formatFile_ok {a : Attachment} {o : Outcome}
    (h : a.formatFile host w = (.ok o, w')) :
    o = { client := a.client.name, status := .formattedFile, formatCalls := 1 } ∧
    ∃ i, a.client.invocation (host.machine w.log) w.buffer none = .ok i ∧ w'.log = w.log ++ [i] ∧
      w'.notices = w.notices := by
  unfold Attachment.formatFile at h
  rw [discard_eq] at h
  obtain ⟨done, w₁, hdone, hrest⟩ := bind_inv h
  cases hrest
  obtain ⟨changed, w₂, hformat, hrest⟩ := bind_inv hdone
  cases hrest
  obtain ⟨i, hi, hlog, -, hnotices⟩ := Client.format_ok ((adapt_eq_ok _).mp hformat)
  exact ⟨rfl, i, hi, hlog, hnotices⟩

end Formatters

def Status.notices : Status → List Severity
  | .notARepository => [.warning]
  | .queryFailed | .noBaseline => [.error]
  | .formattedFile | .formattedModifications | .conflicts => []

namespace Attachment

variable {a : Attachment} {limits : RequestLimits} {w w' : Work} {o : Outcome}
  {repo found : Vcs.Repository} {relative : Text} {status : Vcs.FileStatus}

structure Compared (host : Host) (repo found : Vcs.Repository) (path relative : Text)
    (log queries : List Invocation) : Prop where
  all : queries = repo.questions found path relative
  exits : host.Exits log queries
  root : (repo.locate host path log).1 = .ok found
  status : ∃ status, (found.status host path (log ++ [repo.rootQuestion path])).1 = .ok status ∧
    status.tracked = true ∧ status.conflicted = false

/-- How a request ends after its queries: it gives up with a notice, or stops at conflicts, or
formats the file, or formats what differs from the baseline. -/
inductive Ending (host : Host) (limits : RequestLimits) (a : Attachment) (compared : Prop)
    (w : Work) : Outcome → Work → Prop
  | gaveUp (status : Status) (n : Notice) : status.notices = [n.severity] →
      Ending host limits a compared w { client := a.client.name, status }
        { w with notices := w.notices ++ [n] }
  | conflicts : Ending host limits a compared w { client := a.client.name, status := .conflicts } w
  | file {o : Outcome} {w' : Work} : a.formatFile host w = (.ok o, w') →
      Ending host limits a compared w o w'
  | changes {baseline : List Text} {o : Outcome} {w' : Work} : compared →
      a.formatChanges host limits baseline w = (.ok o, w') → Ending host limits a compared w o w'

/-- The queries that a request made, and how it ended after them. -/
def Goes (host : Host) (limits : RequestLimits) (a : Attachment) (repo found : Vcs.Repository)
    (relative : Text) (w : Work) (o : Outcome) (w' : Work) : Prop :=
  ∃ queries, queries <+: repo.questions found w.buffer.path relative ∧
    Ending host limits a (Compared host repo found w.buffer.path relative w.log queries)
      { w with log := w.log ++ queries } o w'

theorem formatTracked_goes (hr : ∀ p, found.relativize w.buffer.path = .ok p → p = relative)
    (hexits : host.Exits w.log
      (repo.rootQuestion w.buffer.path :: found.statusQuestions relative))
    (hroot : (repo.locate host w.buffer.path w.log).1 = .ok found)
    (hstatus : (found.status host w.buffer.path
      (w.log ++ [repo.rootQuestion w.buffer.path])).1 = .ok status)
    (h : a.formatTracked host limits found status
      { w with log := w.log ++ repo.rootQuestion w.buffer.path :: found.statusQuestions relative } =
        (.ok o, w')) : Goes host limits a repo found relative w o w' := by
  have hasked : repo.rootQuestion w.buffer.path :: found.statusQuestions relative <+:
      repo.questions found w.buffer.path relative :=
    (List.prefix_cons_inj _).mpr (List.prefix_append _ _)
  unfold formatTracked at h
  rw [bind_get] at h
  dsimp only at h
  split at h
  · exact ⟨_, hasked, .file h⟩
  · next htracked =>
    split at h
    · cases h
      exact ⟨_, hasked, .conflicts⟩
    · next hconflicted =>
      rw [bind_attempt] at h
      dsimp only at h
      obtain ⟨ran, hran, hlog, hall⟩ := found.runs_baseline host hr
        (w.log ++ repo.rootQuestion w.buffer.path :: found.statusQuestions relative)
      rw [hlog, List.append_assoc] at h
      have hqueries : repo.rootQuestion w.buffer.path :: found.statusQuestions relative ++ ran <+:
          repo.questions found w.buffer.path relative :=
        (List.prefix_cons_inj _).mpr ((List.prefix_append_right_inj _).mpr hran)
      refine ⟨_, hqueries, ?_⟩
      cases hbaseline : (found.baseline host w.buffer.path
          (w.log ++ repo.rootQuestion w.buffer.path :: found.statusQuestions relative)).1 with
      | error f =>
        rw [hbaseline] at h
        cases f <;> cases h
        exact .gaveUp _ _ rfl
      | ok baseline =>
        rw [hbaseline] at h
        obtain ⟨rfl, hexit⟩ := hall baseline hbaseline
        refine .changes ⟨rfl, Host.exits_append.mpr ⟨hexits, hexit⟩, hroot, status, hstatus, ?_, ?_⟩ h
        · simpa using htracked
        · simpa using hconflicted

theorem formatModifications_goes (h : a.formatModifications host limits w = (.ok o, w')) :
    ∃ repo found relative, Vcs.Repository.ofName a.config.vcs limits.timeout = .ok repo ∧
      Goes host limits a repo found relative w o w' := by
  unfold formatModifications at h
  rw [bind_get] at h
  cases hrepo : Vcs.Repository.ofName a.config.vcs limits.timeout with
  | error f =>
    rw [hrepo] at h
    cases h
  | ok repo =>
    rw [hrepo] at h
    dsimp only at h
    obtain ⟨ran, hran, hlog, hall⟩ := repo.runs_locate host w.buffer.path w.log
    rw [bind_attempt, hlog] at h
    cases hfound : (repo.locate host w.buffer.path w.log).1 with
    | error f =>
      rw [hfound] at h
      cases f <;> cases h
      exact ⟨repo, repo, "", rfl, ran, hran.trans (List.prefix_append [_] _), .gaveUp _ _ rfl⟩
    | ok found =>
      rw [hfound] at h
      obtain ⟨rfl, hexit⟩ := hall found hfound
      obtain ⟨relative, hr⟩ := found.exists_relative w.buffer.path
      refine ⟨repo, found, relative, rfl, ?_⟩
      obtain ⟨ran', hran', hlog', hall'⟩ := found.runs_status host hr
        (w.log ++ [repo.rootQuestion w.buffer.path])
      dsimp only at h
      rw [bind_attempt] at h
      dsimp only at h
      rw [hlog', List.append_assoc] at h
      cases hstatus : (found.status host w.buffer.path
          (w.log ++ [repo.rootQuestion w.buffer.path])).1 with
      | error f =>
        have hqueries : repo.rootQuestion w.buffer.path :: ran' <+:
            repo.questions found w.buffer.path relative :=
          (List.prefix_cons_inj _).mpr (hran'.trans (List.prefix_append _ _))
        rw [hstatus] at h
        cases f <;> cases h
        all_goals exact ⟨_, hqueries, .gaveUp _ _ rfl⟩
      | ok status =>
        rw [hstatus] at h
        obtain ⟨rfl, hexits⟩ := hall' status hstatus
        exact formatTracked_goes hr ⟨hexit.1, hexits⟩ hfound hstatus h

/-- What an outcome tells of the formatters that ran after the queries. -/
structure Conduct (host : Host) (a : Attachment) (compared : Prop) (w : Work) (formatters : List Invocation)
    (o : Outcome) (w' : Work) : Prop where
  notQueries : ∀ i ∈ formatters, ¬ i.IsQuery
  count : o.formatCalls = formatters.length
  ran : formatters ≠ [] → o.status = .formattedFile ∨ o.status = .formattedModifications
  /-- A file is formatted by one command. -/
  file : o.status = .formattedFile → ∃ i, formatters = [i] ∧
    a.client.Renders host w.log a.client.formatter.fileArgs w.buffer.path w.buffer.lines
      (Client.wholeRange w.buffer.lines) i
  /-- Changes are formatted by commands over ranges, once the file has been compared. -/
  changes : o.status = .formattedModifications → compared ∧
    ∀ earlier i later, formatters = earlier ++ i :: later →
      ∃ args lines range, a.client.formatter.rangeArgs = some args ∧
        a.client.Renders host (w.log ++ earlier) args w.buffer.path lines range i
  buffer : o.status ≠ .formattedFile → o.status ≠ .formattedModifications → w'.buffer = w.buffer
  notices : ∃ given, w'.notices = w.notices ++ given ∧
    given.map Notice.severity = o.status.notices

theorem Ending.conduct {compared : Prop} (h : Ending host limits a compared w o w') :
    ∃ formatters, w'.log = w.log ++ formatters ∧ Conduct host a compared w formatters o w' := by
  cases h with
  | gaveUp status n hn =>
    refine ⟨[], by simp, by simp, rfl, by simp, ?_, ?_, fun _ _ => rfl, [n], rfl, hn.symm⟩
    · rintro rfl
      cases hn
    · rintro rfl
      cases hn
  | conflicts =>
    exact ⟨[], by simp, by simp, rfl, by simp, nofun, nofun, fun _ _ => rfl, [], by simp, rfl⟩
  | file hfile =>
    obtain ⟨rfl, i, hi, hlog, hnotices⟩ := formatFile_ok hfile
    have hrenders := Client.renders_file hi
    refine ⟨[i], hlog, ?_, rfl, fun _ => .inl rfl, fun _ => ⟨i, rfl, hrenders⟩, nofun, ?_, ?_⟩
    · simpa using hrenders.not_isQuery
    · exact fun hstatus => absurd rfl hstatus
    · exact ⟨[], by simpa using hnotices, rfl⟩
  | changes hcompared hchanges =>
    obtain ⟨report, rfl, formatters, hlog, hcount, -, hnotices, hall⟩ :=
      formatChanges_ranOver hchanges
    refine ⟨formatters, hlog, ?_, ?_, fun _ => .inr rfl, nofun, fun _ => ⟨hcompared, hall⟩, ?_, ?_⟩
    · intro i hi
      obtain ⟨earlier, later, hran⟩ := List.append_of_mem hi
      obtain ⟨args, lines, range, -, hrenders⟩ := hall earlier i later hran
      exact hrenders.not_isQuery
    · simp [changesOutcome, hcount]
    · exact fun _ hstatus => absurd rfl hstatus
    · exact ⟨[], by simpa using hnotices, rfl⟩

/-- Version control is asked first, and formatters run only then, as many as the outcome counts. An
outcome without formatting leaves the buffer as it was, and the notices belong to the outcome. -/
theorem outcome_tells_course (host : Host) (limits : RequestLimits) (a : Attachment) (w w' : Work)
    (o : Outcome) (h : a.formatModifications host limits w = (.ok o, w')) :
    ∃ repo found relative queries formatters,
      Vcs.Repository.ofName a.config.vcs limits.timeout = .ok repo ∧
      w'.log = w.log ++ queries ++ formatters ∧
      queries <+: repo.questions found w.buffer.path relative ∧ (∀ i ∈ queries, i.IsQuery) ∧
      queries.Pairwise (fun i j => ¬ (i.ReadsBaseline ∧ j.ReadsBaseline)) ∧
      Conduct host a (Compared host repo found w.buffer.path relative w.log queries)
        { w with log := w.log ++ queries } formatters o w' := by
  obtain ⟨repo, found, relative, hrepo, queries, hasked, hending⟩ := formatModifications_goes h
  obtain ⟨formatters, hlog, hconduct⟩ := hending.conduct
  have hqueries (i : Invocation) (hi : i ∈ queries) : i.IsQuery :=
    repo.isQuery_questions found _ _ i (hasked.subset hi)
  have honce := (repo.questions_baseline_once found _ _).sublist hasked.sublist
  exact ⟨repo, found, relative, queries, formatters, hrepo, hlog, hasked, hqueries, honce, hconduct⟩

end Attachment

def Reply.writes (s : String) : Reply := .printed 0 (.bytes (Text.encodeChars s.toList)) []

def Script.changedFile : Script := [
  { words := ["root"], reply := .writes "/r\n" },
  { words := ["resolve"], reply := .writes "" },
  { words := ["status"], reply := .writes "M a\n" },
  { words := ["cat"], reply := .writes "y\n" },
  { words := ["f"], reply := .writes "z\n" }]

namespace Attachment

def toChangedFile : Attachment where
  buffer := "b"
  client := { formatter := { name := "f", command := ["f"], rangeArgs := some ["{start_line}"] } }
  config := { vcs := "hg" }

def changedFileWork : Except RequestFailure Outcome × Work :=
  toChangedFile.formatModifications Script.changedFile.host { fuel := 2 }
    { buffer := ⟨"/r/a", ["x"], false⟩ }

/-- Four questions are answered, and then the changed line is formatted twice. -/
theorem outcome_tells_course_changed_file :
    changedFileWork.1 = .ok ⟨"f", .formattedModifications, 2, 2, 1⟩ ∧
    ∃ queries formatters, changedFileWork.2.log = queries ++ formatters ∧ queries.length = 4 ∧
      Script.changedFile.host.Exits [] queries ∧ formatters.length = 2 := by
  have houtcome : changedFileWork.1 = .ok ⟨"f", .formattedModifications, 2, 2, 1⟩ := rfl
  have hlength : changedFileWork.2.log.length = 6 := rfl
  obtain ⟨repo, found, relative, queries, formatters, -, hlog, -, -, -, hconduct⟩ :=
    outcome_tells_course Script.changedFile.host { fuel := 2 } toChangedFile _ changedFileWork.2 _
      (Prod.ext houtcome rfl)
  have hcount : formatters.length = 2 := Int.ofNat.inj hconduct.count.symm
  refine ⟨houtcome, queries, formatters, hlog, ?_, (hconduct.changes rfl).1.exits, hcount⟩
  rw [hlog] at hlength
  simp only [List.length_append, List.length_nil, hcount] at hlength
  omega

end Attachment

end Hunkwise
